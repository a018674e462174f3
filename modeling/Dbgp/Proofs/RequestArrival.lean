import Dbgp.Proofs.PacketStream
import Dbgp.Proofs.RequestStream

/-!
# Requests as they arrive

A stream of requests arrives in chunks, which may end anywhere: inside a character, right before the NUL
of a request or after it. A reading keeps what it has read of a frame from one poll to the next, so that
it comes to the same result as reading all octets at once (`RequestRead.outcome`), and reading on comes to
`Request.decodeAll`. A stream that is cut off is then a matter of octets only: up to the cut there are
some whole requests and a piece of one more, which has no NUL in it.
-/

namespace Dbgp

namespace Request

/-! ## The requests there can be -/

/-- The requests there can be: one that is begun by `new` or `newAsync` or read by `decode`, and added
to. -/
inductive Made : Request → Prop
  | new (command : String) (transaction : UInt32) : Made (new command transaction)
  | newAsync (command : String) (transaction : UInt32) : Made (newAsync command transaction)
  | read {bytes : List UInt8} {r : Request} : decode bytes = .ok r → Made r
  | add {r : Request} (a : Addition) : Made r → Made (r.add a)

/-- A request that `decodeChars` reads says which transaction it is. -/
theorem named?_of_decodeChars {cs : List Char} {r : Request} (h : decodeChars cs = .ok r) :
    named? r.options = some r.transaction :=
  ((decodeChars_eq_ok_iff rfl).mp h).2.2.2.1

/-- An option that is added does not change the transaction that `named?` finds. -/
theorem named?_append {options more : List (String × String)} {t : UInt32}
    (h : named? options = some t) : named? (options ++ more) = some t := by
  obtain ⟨o, ho, ht⟩ := Option.bind_eq_some_iff.mp h
  rw [named?, List.find?_append, ho, Option.some_or, Option.bind_some, ht]

/-- Every request that is `Made` says which transaction it is. -/
theorem Made.named? {r : Request} (h : r.Made) : named? r.options = some r.transaction := by
  induction h with
  | new command transaction => exact (tagged_new command transaction).named?
  | newAsync command transaction => exact (tagged_new command transaction).named?
  | read hread =>
    obtain ⟨cs, -, hcs⟩ := decodeChars_of_decode hread
    exact named?_of_decodeChars hcs
  | add a _ ih =>
    cases a with
    | option flag value => exact named?_append ih
    | argument text => exact ih
    | optional flag value =>
      cases value with
      | none => exact ih
      | some value => exact named?_append ih

/-! ## A stream that is cut off -/

/-- Octets have a NUL in them and so a first frame for `takeFrame?`, or they have none. -/
theorem takeFrame?_cases (bytes : List UInt8) :
    (0 ∉ bytes ∧ takeFrame? bytes = none) ∨ ∃ body rest, 0 ∉ body ∧ bytes = body ++ 0 :: rest ∧
      takeFrame? bytes = some (body ++ [0], rest) := by
  by_cases hmem : 0 ∈ bytes
  · obtain ⟨body, rest, hbytes, hbody⟩ := List.eq_append_cons_of_mem hmem
    exact .inr ⟨body, rest, hbody, hbytes, hbytes ▸ takeFrame?_append hbody rest⟩
  · exact .inl ⟨hmem, takeFrame?_eq_none hmem⟩

/-- What `decodeAll` reads from the beginning of a stream: the requests that end before the cut. -/
theorem decodeAll_of_prefix {rs : List Request} {front : List UInt8} (hwhole : ∀ r ∈ rs, r.Whole)
    (hfront : front <+: rs.flatMap encode) :
    ∃ k ≤ rs.length, (∀ i < rs.length,
        i < k ↔ ((rs.take (i + 1)).flatMap encode).length ≤ front.length) ∧
      decodeAll front = (rs.take k).map fun r => decode r.encode := by
  induction rs generalizing front with
  | nil =>
    rw [List.flatMap_nil, List.prefix_nil] at hfront
    subst hfront
    exact ⟨0, Nat.le_refl 0, by simp, decodeAll_of_none rfl⟩
  | cons r rs ih =>
    rw [List.forall_mem_cons] at hwhole
    rw [List.flatMap_cons] at hfront
    have hlength : ∀ i, (((r :: rs).take (i + 1)).flatMap encode).length =
        r.encode.length + ((rs.take i).flatMap encode).length := by
      intro i
      rw [List.take_succ_cons, List.flatMap_cons, List.length_append]
    by_cases hcut : r.encode.length ≤ front.length
    · obtain ⟨rest, rfl⟩ := List.prefix_of_prefix_length_le (List.prefix_append _ _) hfront hcut
      rw [List.prefix_append_right_inj] at hfront
      obtain ⟨k, hk, hinside, hread⟩ := ih hwhole.2 hfront
      refine ⟨k + 1, by simpa using hk, fun i hi => ?_, ?_⟩
      · rw [hlength, List.length_append]
        cases i with
        | zero => simp
        | succ i =>
          rw [List.length_cons] at hi
          have hnext := hinside i (by omega)
          omega
      · rw [hwhole.1.decodeAll_append, hread, List.take_succ_cons, List.map_cons]
    · -- The cut is inside the first request.
      have hpiece : front <+: r.encode :=
        List.prefix_of_prefix_length_le hfront (List.prefix_append _ _) (by omega)
      have hnul : 0 ∉ front := hwhole.1.not_mem_of_piece hpiece (by
        rintro rfl
        exact hcut (Nat.le_refl _))
      refine ⟨0, Nat.zero_le _, fun i _ => ?_, decodeAll_of_none (takeFrame?_eq_none hnul)⟩
      rw [hlength]
      omega

end Request

/-! ## Reading in chunks -/

namespace RequestRead

/-- What a `RequestRead` comes to on a stream that ends after the given octets, and what it leaves of
these. -/
def outcome (r : RequestRead) (bytes : List UInt8) : Except Error (Option Request) × List UInt8 :=
  match Request.takeFrame? bytes with
  | some (front, rest) => (result (r.got ++ front), rest)
  | none => (.ok none, [])

/-- `RequestRead.poll` finishes with the `outcome`, or it has taken all that was there and goes on
with a reading that has the same outcome on what is still to come. -/
theorem polled (now : Nat) {r : RequestRead} {i : Inbound} {coming : List Arrival} {bytes : List UInt8}
    (h : i.Bears coming bytes) :
    (∃ rest, r.poll now i = (.finished (r.outcome bytes).1, rest) ∧
      rest.Bears coming (r.outcome bytes).2) ∨
    ∃ r' bytes', r.poll now i = (.ongoing r', {}) ∧ i.tail = .live ∧
      r'.outcome bytes' = r.outcome bytes ∧ Inbound.Bears {} coming bytes' := by
  obtain ⟨hfailed, more, hmore, rfl, hrest⟩ := h.split
  obtain ⟨hnul, hnone⟩ | ⟨body, rest, hbody, hpending, hsome⟩ := Request.takeFrame?_cases i.pending
  · rw [poll, hnone]
    cases htail : i.tail with
    | ended =>
      have hbears := hrest []
      rw [htail, hmore htail] at hbears
      rw [hmore htail, List.append_nil, outcome, hnone]
      exact .inl ⟨_, rfl, hbears⟩
    | failed text => exact absurd htail (hfailed text)
    | live =>
      have hbears := hrest []
      rw [htail] at hbears
      refine .inr ⟨⟨r.got ++ i.pending⟩, more, rfl, rfl, ?_, hbears⟩
      -- A frame that ends in what is still to come begins with what was there.
      obtain ⟨hnul', hnone'⟩ | ⟨body, rest, hbody, rfl, hsome⟩ := Request.takeFrame?_cases more
      · rw [outcome, outcome, hnone',
          Request.takeFrame?_eq_none fun hmem => (List.mem_append.mp hmem).elim hnul hnul']
      · have hjoined : 0 ∉ i.pending ++ body := fun hmem => (List.mem_append.mp hmem).elim hnul hbody
        rw [outcome, outcome, hsome, ← List.append_assoc, Request.takeFrame?_append hjoined]
        simp only [List.append_assoc]
  · have hframe : Request.takeFrame? (i.pending ++ more) = some (body ++ [0], rest ++ more) := by
      rw [hpending, List.append_assoc, List.cons_append, Request.takeFrame?_append hbody]
    rw [poll, hsome, outcome, hframe]
    exact .inl ⟨_, rfl, hrest rest⟩

end RequestRead

namespace Schedule

variable {s : Schedule} {bytes : List UInt8}

/-- `readRequest` comes to the first request of the stream. -/
theorem readRequest_eq (h : s.Bears bytes) : ∃ rest,
    s.readRequest = .finished (RequestRead.outcome {} bytes).1 rest ∧
      rest.Bears (RequestRead.outcome {} bytes).2 := by
  refine run_of_poll (fun r bytes' => r.outcome bytes' = RequestRead.outcome {} bytes) ?_ rfl h
    s.length_settle_lt
  intro now r i coming bytes' hr hbears
  obtain hfinished | ⟨r', bytes'', hongoing, htail, hsame, hrest⟩ := RequestRead.polled now (r := r) hbears
  · exact .inl (hr ▸ hfinished)
  · exact .inr ⟨r', bytes'', hongoing, htail, rfl, hsame.trans hr, hrest⟩

/-- What `readRequests` says of a frame that was read or refused. -/
def told (r : Except ProtocolFault Request) : Option (Except Error (Option Request)) :=
  some ((r.map some).mapError .protocol)

/-- With fuel enough, `readRequestsFor` gives what `decodeAll` reads, and then that there is no
more. -/
theorem readRequestsFor_eq {fuel : Nat} (h : s.Bears bytes) (hfuel : bytes.length < fuel) :
    readRequestsFor fuel s = (Request.decodeAll bytes).map told ++ [some (.ok none)] := by
  induction fuel generalizing s bytes with
  | zero => omega
  | succ fuel ih =>
    obtain ⟨rest, hread, hrest⟩ := readRequest_eq h
    obtain ⟨-, hnone⟩ | ⟨body, left, -, hbytes, hsome⟩ := Request.takeFrame?_cases bytes
    · rw [RequestRead.outcome, hnone] at hread
      rw [readRequestsFor, hread, Request.decodeAll_of_none hnone]
      rfl
    · rw [RequestRead.outcome, hsome] at hread hrest
      have hleft : left.length < fuel := by
        have hlt := Request.takeFrame?_length hsome
        omega
      rw [readRequestsFor, hread, Request.decodeAll_of_some hsome, List.map_cons, List.cons_append,
        ← ih hrest hleft]
      cases hdecode : Request.decode (body ++ [0]) with
      | ok r => simp only [RequestRead.result, List.nil_append, hdecode]; rfl
      | error fault => simp only [RequestRead.result, List.nil_append, hdecode]; rfl

/-- However a stream is cut into chunks and whenever these arrive, `readRequests` gives what
`decodeAll` reads from the whole stream. -/
theorem readRequests_eq (chunks : List (Nat × List UInt8)) (delay : Nat) :
    (ofChunks chunks delay).readRequests =
      (Request.decodeAll (chunks.flatMap fun chunk => chunk.2)).map told ++ [some (.ok none)] := by
  have h := bears_ofChunks chunks delay
  exact readRequestsFor_eq h (Nat.lt_succ_of_le h.length_le)

/-- Requests are written one after the other, the stream is cut off anywhere, and what is left of it
arrives in any chunks at any times. Then exactly the requests that end before the cut are read, in
order and as they were written, except for whether they have a response, and after them there is none:
nothing is read from the request that was cut, and it is not refused either. -/
theorem requests_read_up_to_cut {rs : List Request} {front : List UInt8}
    {chunks : List (Nat × List UInt8)} (hmade : ∀ r ∈ rs, r.Made) (hfits : ∀ r ∈ rs, r.Fits)
    (hwhole : ∀ r ∈ rs, r.Whole) (hfront : front <+: rs.flatMap Request.encode)
    (hchunks : (chunks.flatMap fun chunk => chunk.2) = front) (delay : Nat) :
    ∃ k ≤ rs.length, (∀ i < rs.length,
        i < k ↔ ((rs.take (i + 1)).flatMap Request.encode).length ≤ front.length) ∧
      (ofChunks chunks delay).readRequests =
        ((rs.take k).map fun r => some (.ok (some { r with isAsync := false }))) ++
          [some (.ok none)] := by
  obtain ⟨k, hk, hinside, hread⟩ := Request.decodeAll_of_prefix hwhole hfront
  refine ⟨k, hk, hinside, ?_⟩
  rw [readRequests_eq, hchunks, hread, List.map_map]
  refine congrArg (· ++ _) (List.map_congr_left fun r hr => ?_)
  have hmem := List.mem_of_mem_take hr
  rw [Function.comp_apply, (hfits r hmem).decode_encode (hmade r hmem).named?]
  rfl

/-- A request by `newAsync`, and one with a character of two octets. -/
def accented : List Request :=
  [.newAsync "run" 1, (Request.new "eval" 2).withArgument "é"]

/-- The first request of `accented` in pieces, the last of which ends inside the character of the
second. -/
def torn : List (Nat × List UInt8) :=
  [(0, [114, 117]), (3, [110, 10, 45, 105, 10, 49, 10]), (1, [0, 101, 118]),
    (0, [97, 108, 10, 45, 105, 10, 50, 10, 195])]

/-- Of `accented`, cut off and in pieces as `torn`, the first request is read. -/
theorem requests_read_up_to_cut_accented :
    (∀ r ∈ accented, r.Made) ∧ (∀ r ∈ accented, r.Fits) ∧ (∀ r ∈ accented, r.Whole) ∧
      (torn.flatMap fun chunk => chunk.2) <+: accented.flatMap Request.encode ∧
      (ofChunks torn 2).readRequests = [some (.ok (some (.new "run" 1))), some (.ok none)] := by
  have hmade : ∀ r ∈ accented, r.Made :=
    List.forall_mem_cons.mpr ⟨.newAsync "run" 1,
      List.forall_mem_singleton.mpr (.add (.argument "é") (.new "eval" 2))⟩
  have hfits : ∀ r ∈ accented, r.Fits := by decide
  have hwhole : ∀ r ∈ accented, r.Whole := by decide
  have hcut : (torn.flatMap fun chunk => chunk.2) <+: accented.flatMap Request.encode := by decide
  obtain ⟨k, -, hinside, hread⟩ := requests_read_up_to_cut hmade hfits hwhole hcut rfl 2
  have hfirst : 0 < k := (hinside 0 (by decide)).mpr (by decide)
  have hsecond : ¬1 < k := fun hk => absurd ((hinside 1 (by decide)).mp hk) (by decide)
  obtain rfl : k = 1 := by omega
  exact ⟨hmade, hfits, hwhole, hcut, hread⟩

end Schedule

end Dbgp
