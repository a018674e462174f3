import Dbgp.Proofs.RequestFraming

/-!
# Streams of requests

A stream is cut at every NUL octet, and each frame is read by itself. A request therefore keeps its
place in a stream exactly when none of its lines has a NUL character in it, and keeps its content
exactly when it fits (`Fits`). `decodeAll_encode_iff` puts both together for any list of requests.

As with newlines, the way back is a matter of counting: a stream has as many frames as NUL octets.
-/

namespace Dbgp.Request

/-! ## Frames -/

/-- Without a frame `decodeAll` reads nothing. -/
theorem decodeAll_of_none {bs : List UInt8} (h : takeFrame? bs = none) : decodeAll bs = [] := by
  rw [decodeAll]
  split
  · rfl
  · simp_all

/-- `decodeAll` reads the first frame, and then the rest. -/
theorem decodeAll_of_some {bs frame rest : List UInt8} (h : takeFrame? bs = some (frame, rest)) :
    decodeAll bs = decode frame :: decodeAll rest := by
  rw [decodeAll]
  split
  · simp_all
  · simp_all

/-- Octets without a NUL are no frame for `takeFrame?`. -/
theorem takeFrame?_eq_none {bs : List UInt8} (h : 0 ∉ bs) : takeFrame? bs = none := by
  induction bs with
  | nil => rfl
  | cons b bs ih =>
    rw [List.mem_cons, not_or] at h
    rw [takeFrame?, if_neg (Ne.symm h.1), ih h.2, Option.map_none]

/-- `takeFrame?` cuts a frame off at its first NUL. -/
theorem takeFrame?_append {bs : List UInt8} (h : 0 ∉ bs) (rest : List UInt8) :
    takeFrame? (bs ++ 0 :: rest) = some (bs ++ [0], rest) := by
  induction bs with
  | nil => rw [List.nil_append, takeFrame?, if_pos rfl, List.nil_append]
  | cons b bs ih =>
    rw [List.mem_cons, not_or] at h
    rw [List.cons_append, takeFrame?, if_neg (Ne.symm h.1), ih h.2, Option.map_some,
      List.cons_append]

/-- `decodeAll` reads as many frames as there are NUL octets. -/
theorem length_decodeAll (bs : List UInt8) : (decodeAll bs).length = bs.count 0 := by
  induction hn : bs.count 0 generalizing bs with
  | zero =>
    rw [decodeAll_of_none (takeFrame?_eq_none (List.count_eq_zero.mp hn))]
    rfl
  | succ n ih =>
    have hmem : 0 ∈ bs := List.count_pos_iff.mp (by omega)
    obtain ⟨front, rest, hbs, hfront⟩ := List.eq_append_cons_of_mem hmem
    rw [hbs] at hn ⊢
    rw [List.count_append, List.count_eq_zero.mpr hfront, List.count_cons_self] at hn
    rw [decodeAll_of_some (takeFrame?_append hfront rest), List.length_cons, ih rest (by omega)]

/-- What `decodeAll` has read stays as it is when more comes. -/
theorem decodeAll_append (bs more : List UInt8) : decodeAll bs <+: decodeAll (bs ++ more) := by
  induction hn : bs.count 0 generalizing bs with
  | zero =>
    rw [decodeAll_of_none (takeFrame?_eq_none (List.count_eq_zero.mp hn))]
    exact List.nil_prefix
  | succ n ih =>
    have hmem : 0 ∈ bs := List.count_pos_iff.mp (by omega)
    obtain ⟨front, rest, rfl, hfront⟩ := List.eq_append_cons_of_mem hmem
    rw [List.count_append, List.count_eq_zero.mpr hfront, List.count_cons_self] at hn
    rw [List.append_assoc, List.cons_append, decodeAll_of_some (takeFrame?_append hfront rest),
      decodeAll_of_some (takeFrame?_append hfront (rest ++ more)), List.prefix_cons_inj]
    exact ih rest (by omega)

/-! ## Requests in a stream -/

/-- The requests that keep their place in a stream: there is no NUL in their `lines`. -/
def Whole (r : Request) : Prop :=
  ∀ l ∈ r.lines, '\x00' ∉ l.toList

instance (r : Request) : Decidable r.Whole :=
  inferInstanceAs (Decidable (∀ l ∈ r.lines, '\x00' ∉ l.toList))

/-- The octets of a request before the NUL that ends it; `encode` is this and the NUL. -/
def content (r : Request) : List UInt8 :=
  Text.Utf8.encodeChars (r.lines.flatMap fun l => l.toList ++ ['\n'])

/-- The `content` of a request is its lines, each with its newline. -/
theorem content_eq (r : Request) : r.content =
    Text.Utf8.encodeChars ((r.lines.map String.toList).flatMap fun m => m ++ ['\n']) := by
  rw [content, List.flatMap_map]

/-- A request is its `content` and the NUL. -/
theorem encode_eq (r : Request) : r.encode = r.content ++ [0] := by
  have hnul : Text.Utf8.encodeChars ['\x00'] = [0] := by decide
  rw [encode, encodeChars, Text.Utf8.encodeChars_append, hnul, content]

/-- A request is `Whole` when its last octet is its only NUL. -/
theorem whole_iff {r : Request} : r.Whole ↔ 0 ∉ r.content := by
  rw [content, Text.Utf8.zero_mem_encodeChars, List.mem_flatMap, Whole]
  constructor
  · rintro h ⟨l, hl, hmem⟩
    rw [List.mem_append, List.mem_singleton] at hmem
    rcases hmem with hmem | hmem
    · exact h l hl hmem
    · exact absurd hmem (by decide)
  · intro h l hl hmem
    exact h ⟨l, hl, List.mem_append_left _ hmem⟩

/-- `decodeAll` reads a `Whole` request by itself, and then what follows it. -/
theorem Whole.decodeAll_append {r : Request} (h : r.Whole) (rest : List UInt8) :
    decodeAll (r.encode ++ rest) = decode r.encode :: decodeAll rest := by
  have hframe : takeFrame? (r.encode ++ rest) = some (r.encode, rest) := by
    rw [encode_eq, List.append_assoc, List.singleton_append, takeFrame?_append (whole_iff.mp h)]
  exact decodeAll_of_some hframe

/-- `decodeAll` reads requests that are `Whole` one after the other, and then what follows them. -/
theorem decodeAll_flatMap_append {rs : List Request} (h : ∀ r ∈ rs, r.Whole) (rest : List UInt8) :
    decodeAll (rs.flatMap encode ++ rest) = rs.map (fun r => decode r.encode) ++ decodeAll rest := by
  induction rs with
  | nil => rfl
  | cons r rs ih =>
    rw [List.forall_mem_cons] at h
    rw [List.flatMap_cons, List.append_assoc, h.1.decodeAll_append, ih h.2, List.map_cons,
      List.cons_append]

/-- Requests that are `Whole` are read one after the other. -/
theorem decodeAll_flatMap_encode {rs : List Request} (h : ∀ r ∈ rs, r.Whole) :
    decodeAll (rs.flatMap encode) = rs.map fun r => decode r.encode := by
  have hread := decodeAll_flatMap_append h []
  have hnone : decodeAll [] = [] := decodeAll_of_none rfl
  rwa [List.append_nil, hnone, List.append_nil] at hread

/-- Requests that are not all `Whole` make more frames than there are requests. -/
theorem whole_of_length_decodeAll {rs : List Request}
    (h : (decodeAll (rs.flatMap encode)).length ≤ rs.length) : ∀ r ∈ rs, r.Whole := by
  rw [length_decodeAll] at h
  induction rs with
  | nil => simp
  | cons r rs ih =>
    have hge : ∀ qs : List Request, qs.length ≤ (qs.flatMap encode).count 0 := by
      intro qs
      induction qs with
      | nil => simp
      | cons q qs ih =>
        rw [List.flatMap_cons, List.count_append, encode_eq, List.count_append, List.length_cons,
          List.count_singleton_self]
        omega
    have hrs := hge rs
    rw [List.flatMap_cons, List.count_append, encode_eq, List.count_append, List.length_cons,
      List.count_singleton_self] at h
    rw [List.forall_mem_cons, whole_iff, ← List.count_eq_zero]
    exact ⟨by omega, ih (by omega)⟩

/-- A stream of requests is read back, request by request, exactly when each of them `Fits` and is
`Whole`. -/
theorem decodeAll_encode_iff {rs : List Request} (htagged : ∀ r ∈ rs, r.Tagged) :
    decodeAll (rs.flatMap encode) = rs.map (fun r => .ok { r with isAsync := false }) ↔
      ∀ r ∈ rs, r.Fits ∧ r.Whole := by
  constructor
  · intro h
    have hwhole : ∀ r ∈ rs, r.Whole := by
      apply whole_of_length_decodeAll
      exact Nat.le_of_eq (by rw [h, List.length_map])
    rw [decodeAll_flatMap_encode hwhole, List.map_inj_left] at h
    exact fun r hr => ⟨fits_of_decode_encode (h r hr), hwhole r hr⟩
  · intro h
    rw [decodeAll_flatMap_encode fun r hr => (h r hr).2, List.map_inj_left]
    exact fun r hr => (h r hr).1.decode_encode (htagged r hr).named?

/-! ## Pieces of requests in a stream

A piece of a request that nothing completes is read together with the next request, as one frame.
-/

/-- A piece of a `Whole` request has no NUL in it. -/
theorem Whole.not_mem_of_piece {r : Request} {v : List UInt8} (h : r.Whole) (hv : v <+: r.encode)
    (hne : v ≠ r.encode) : 0 ∉ v := by
  rw [encode_eq] at hv hne
  obtain hv | hv := List.prefix_concat_iff.mp hv
  · exact absurd hv hne
  · exact fun hmem => whole_iff.mp h (hv.subset hmem)

/-- `decodeAll` reads a piece of a request and a `Whole` one together, as one frame. -/
theorem Whole.decodeAll_piece_append {r : Request} {v : List UInt8} (h : r.Whole) (hv : 0 ∉ v)
    (rest : List UInt8) :
    decodeAll (v ++ (r.encode ++ rest)) = decode (v ++ r.encode) :: decodeAll rest := by
  have hframe : takeFrame? (v ++ (r.encode ++ rest)) = some (v ++ r.encode, rest) := by
    have hcontent : 0 ∉ v ++ r.content := fun hmem =>
      (List.mem_append.mp hmem).elim hv (whole_iff.mp h)
    have hfound := takeFrame?_append hcontent rest
    rw [encode_eq]
    simpa only [List.append_assoc, List.singleton_append] using hfound
  exact decodeAll_of_some hframe

/-- `dropLastIf` of a newline saves one octet at most. -/
theorem length_dropLastIf (cs : List Char) :
    (Text.Utf8.encodeChars cs).length ≤ (Text.Utf8.encodeChars (dropLastIf '\n' cs ++ ['\n'])).length := by
  rw [dropLastIf]
  split
  · next h =>
    obtain ⟨front, rfl⟩ := List.getLast?_eq_some_iff.mp h
    rw [List.dropLast_concat]
  · simp

/-- Lines that `decodeChars` reads take as much room as they did when they were written, in whatever
order. -/
theorem length_of_decodeChars {cs : List Char} {r : Request}
    (h : decodeChars cs = .ok { r with isAsync := false }) :
    (Text.Utf8.encodeChars cs).length ≤ r.content.length := by
  have hlines : (pieces (dropLastIf '\n' cs)).Perm (r.lines.map String.toList) :=
    (pieces_perm_lines h :)
  have hchars := (hlines.flatMap_right fun m => m ++ ['\n']).flatMap_right String.utf8EncodeChar
  calc (Text.Utf8.encodeChars cs).length
      ≤ (Text.Utf8.encodeChars (dropLastIf '\n' cs ++ ['\n'])).length := length_dropLastIf cs
    _ = r.content.length := by
        rw [← flatMap_pieces, Text.Utf8.encodeChars, hchars.length_eq, content, List.flatMap_map]
        rfl

/-- `decode` overlooks nothing that stands in front of a request in its frame. -/
theorem decode_append_encode {v : List UInt8} {r : Request}
    (h : decode (v ++ r.encode) = .ok { r with isAsync := false }) : v = [] := by
  rw [encode_eq, ← List.append_assoc, decode, dropLastIf_append] at h
  split at h
  · cases h
  · next cs hcs =>
    have hwritten := length_of_decodeChars h
    rw [Text.Utf8.encodeChars_of_decode hcs, List.length_append] at hwritten
    exact List.eq_nil_of_length_eq_zero (by omega)

end Dbgp.Request
