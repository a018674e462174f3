import Dbgp.Proofs.Utf8
import Dbgp.Text.Base64
import Mathlib.Data.List.Basic

/-!
# Reading back Base64

What is written is read back (`decode_encode`). A group of four symbols gives back the three octets it
was made of, and the last group gives back one, two or three. Reading treats the last group apart even
if it is full, so the induction asks after each full group whether anything follows it.
-/

namespace Dbgp.Text.Base64

/-! ## Symbols -/

/-- `value?` gives back the value of a `symbol`. -/
theorem value?_symbol {v : Nat} (h : v < 64) : value? (symbol v) = some v := by
  have hall : ∀ v ∈ List.range 64, value? (symbol v) = some v := by decide
  exact hall v (List.mem_range.mpr h)

theorem valueAt_symbol {v : Nat} (h : v < 64) (offset : Nat) : valueAt offset (symbol v) = .ok v := by
  rw [valueAt, value?_symbol h]

theorem symbol_ne_pad {v : Nat} (h : v < 64) : symbol v ≠ pad := by
  intro hpad
  have hvalue := value?_symbol h
  rw [hpad] at hvalue
  cases hvalue

/-- The octets of the alphabet, with the padding, are ASCII, namely that of `+` and from `/` on. -/
theorem symbol_bounds (v : Nat) :
    43 ≤ (symbol v).toNat ∧ (symbol v).toNat ≠ 45 ∧ (symbol v).toNat < 128 := by
  rw [symbol]
  split
  · rw [UInt8.toNat_ofNat_of_lt' (show _ < 2 ^ 8 by omega)]
    omega
  split
  · rw [UInt8.toNat_ofNat_of_lt' (show _ < 2 ^ 8 by omega)]
    omega
  split
  · rw [UInt8.toNat_ofNat_of_lt' (show _ < 2 ^ 8 by omega)]
    omega
  split
  · decide
  · decide

/-- What `encodeOctets` writes is ASCII, from the plus sign on, and no dash. -/
theorem bounds_of_mem_encodeOctets {bs : List UInt8} {b : UInt8} (h : b ∈ encodeOctets bs) :
    43 ≤ b.toNat ∧ b.toNat ≠ 45 ∧ b.toNat < 128 := by
  have hpad : 43 ≤ pad.toNat ∧ pad.toNat ≠ 45 ∧ pad.toNat < 128 := by decide
  fun_induction encodeOctets bs with
  | case1 => cases h
  | case2 a =>
    simp only [List.mem_cons, List.not_mem_nil, or_false] at h
    obtain rfl | rfl | rfl | rfl := h
    exacts [symbol_bounds _, symbol_bounds _, hpad, hpad]
  | case3 a b =>
    simp only [List.mem_cons, List.not_mem_nil, or_false] at h
    obtain rfl | rfl | rfl | rfl := h
    exacts [symbol_bounds _, symbol_bounds _, symbol_bounds _, hpad]
  | case4 a b c rest ih =>
    simp only [List.mem_cons] at h
    obtain rfl | rfl | rfl | rfl | h := h
    exacts [symbol_bounds _, symbol_bounds _, symbol_bounds _, symbol_bounds _, ih h]

/-! ## Groups -/

theorem tailSymbols_symbol {v position : Nat} (h : v < 64) (start : Nat) (rest : List UInt8) :
    tailSymbols start position none (symbol v :: rest) = (do
      let (vs, pads) ← tailSymbols start (position + 1) none rest
      return ((v, symbol v) :: vs, pads)) := by
  rw [tailSymbols, if_neg (symbol_ne_pad h)]
  simp only [valueAt_symbol h]
  rfl

section Tail

variable {x y z w : Nat}

/-- `tail` of a last group of two symbols. -/
theorem tail_two (hx : x < 64) (hy : y < 64) (hrest : y % 16 = 0) (start : Nat) :
    tail start [symbol x, symbol y, pad, pad] = .ok [UInt8.ofNat (x * 4 + y / 16)] := by
  have hpads : tailSymbols start 2 none [pad, pad] = .ok ([], 2) := rfl
  rw [tail, tailSymbols_symbol hx, tailSymbols_symbol hy, hpads]
  simp [hrest, bind, Except.bind, pure, Except.pure]

/-- `tail` of a last group of three symbols. -/
theorem tail_three (hx : x < 64) (hy : y < 64) (hz : z < 64) (hrest : z % 4 = 0) (start : Nat) :
    tail start [symbol x, symbol y, symbol z, pad] =
      .ok [UInt8.ofNat (x * 4 + y / 16), UInt8.ofNat (y % 16 * 16 + z / 4)] := by
  have hpads : tailSymbols start 3 none [pad] = .ok ([], 1) := rfl
  rw [tail, tailSymbols_symbol hx, tailSymbols_symbol hy, tailSymbols_symbol hz, hpads]
  simp [hrest, bind, Except.bind, pure, Except.pure]

/-- `tail` of a last group of four symbols. -/
theorem tail_four (hx : x < 64) (hy : y < 64) (hz : z < 64) (hw : w < 64) (start : Nat) :
    tail start [symbol x, symbol y, symbol z, symbol w] =
      .ok [UInt8.ofNat (x * 4 + y / 16), UInt8.ofNat (y % 16 * 16 + z / 4),
        UInt8.ofNat (z % 4 * 64 + w)] := by
  have hpads : tailSymbols start 4 none [] = .ok ([], 0) := rfl
  rw [tail, tailSymbols_symbol hx, tailSymbols_symbol hy, tailSymbols_symbol hz,
    tailSymbols_symbol hw, hpads]
  simp [bind, Except.bind, pure, Except.pure]

/-- `groups` reads a full group, and then the rest. -/
theorem groups_four (hx : x < 64) (hy : y < 64) (hz : z < 64) (hw : w < 64) {rest : List UInt8}
    (hrest : rest ≠ []) (start : Nat) :
    groups start (symbol x :: symbol y :: symbol z :: symbol w :: rest) =
      (groups (start + 4) rest).map fun more =>
        UInt8.ofNat (x * 4 + y / 16) :: UInt8.ofNat (y % 16 * 16 + z / 4) ::
          UInt8.ofNat (z % 4 * 64 + w) :: more := by
  obtain ⟨e, rest, rfl⟩ := List.exists_cons_of_ne_nil hrest
  rw [groups, valueAt_symbol hx, valueAt_symbol hy, valueAt_symbol hz, valueAt_symbol hw]
  show (groups (start + 4) (e :: rest) >>= fun more => _) = _
  cases groups (start + 4) (e :: rest) <;> rfl

end Tail

/-- The six bits at the end of one octet and at the start of the next give both octets back. -/
theorem ofNat_octets (a b c : UInt8) :
    UInt8.ofNat (a.toNat / 4 * 4 + (a.toNat % 4 * 16 + b.toNat / 16) / 16) = a ∧
      UInt8.ofNat ((a.toNat % 4 * 16 + b.toNat / 16) % 16 * 16 +
        (b.toNat % 16 * 4 + c.toNat / 64) / 4) = b ∧
      UInt8.ofNat ((b.toNat % 16 * 4 + c.toNat / 64) % 4 * 64 + c.toNat % 64) = c := by
  have hback : ∀ {n : Nat} {d : UInt8}, n = d.toNat → UInt8.ofNat n = d := by
    rintro n d rfl
    exact UInt8.ofNat_toNat
  have ha : a.toNat < 256 := a.toNat_lt
  have hb : b.toNat < 256 := b.toNat_lt
  have hc : c.toNat < 256 := c.toNat_lt
  exact ⟨hback (by omega), hback (by omega), hback (by omega)⟩

theorem encodeOctets_ne_nil {bs : List UInt8} (h : bs ≠ []) : encodeOctets bs ≠ [] := by
  fun_cases encodeOctets bs with
  | case1 => exact absurd rfl h
  | case2 | case3 | case4 => simp

/-- To `groups`, a list of at most four symbols is a last group. -/
theorem groups_eq_tail (start : Nat) {bs : List UInt8} (hne : bs ≠ []) (h : bs.length ≤ 4) :
    groups start bs = tail start bs := by
  fun_cases groups start bs with
  | case1 a b c d e rest =>
    simp only [List.length_cons] at h
    omega
  | case2 => exact absurd rfl hne
  | case3 => rfl

/-- `groups` reads back what `encodeOctets` writes, group by group. -/
theorem groups_encodeOctets (start : Nat) (bs : List UInt8) :
    groups start (encodeOctets bs) = .ok bs := by
  fun_induction encodeOctets bs generalizing start with
  | case1 => rfl
  | case2 a =>
    have ha : a.toNat < 256 := a.toNat_lt
    have hback : UInt8.ofNat (a.toNat / 4 * 4 + a.toNat % 4 * 16 / 16) = a := (ofNat_octets a 0 0).1
    rw [groups_eq_tail start (by simp) (by simp), tail_two (by omega) (by omega) (by omega), hback]
  | case3 a b =>
    have ha : a.toNat < 256 := a.toNat_lt
    have hb : b.toNat < 256 := b.toNat_lt
    obtain ⟨hfirst, hsecond, -⟩ := ofNat_octets a b 0
    rw [groups_eq_tail start (by simp) (by simp),
      tail_three (by omega) (by omega) (by omega) (by omega), hfirst]
    exact congrArg (fun c => Except.ok [a, c]) hsecond
  | case4 a b c rest ih =>
    have ha : a.toNat < 256 := a.toNat_lt
    have hb : b.toNat < 256 := b.toNat_lt
    have hc : c.toNat < 256 := c.toNat_lt
    obtain ⟨hfirst, hsecond, hthird⟩ := ofNat_octets a b c
    -- A full group that is the last one is read by `tail`.
    by_cases hrest : rest = []
    · subst hrest
      rw [encodeOctets, groups_eq_tail start (by simp) (by simp),
        tail_four (by omega) (by omega) (by omega) (by omega), hfirst, hsecond, hthird]
    · rw [groups_four (by omega) (by omega) (by omega) (by omega) (encodeOctets_ne_nil hrest), ih,
        hfirst, hsecond, hthird]
      rfl

/-- `encodeOctets` writes whole groups only. -/
theorem length_encodeOctets_mod (bs : List UInt8) : (encodeOctets bs).length % 4 = 0 := by
  fun_induction encodeOctets bs with
  | case1 | case2 | case3 => simp
  | case4 a b c rest ih =>
    simp only [List.length_cons]
    omega

/-- `decodeOctets` reads back what `encodeOctets` writes. -/
theorem decodeOctets_encodeOctets (bs : List UInt8) : decodeOctets (encodeOctets bs) = .ok bs := by
  have hstray : strayOctet? (encodeOctets bs) = none := by
    rw [strayOctet?, if_neg]
    rw [length_encodeOctets_mod]
    decide
  rw [decodeOctets, hstray, groups_encodeOctets]

/-! ## Texts -/

/-- The character of an octet has the number of the octet. -/
theorem toNat_ofNat (b : UInt8) : (Char.ofNat b.toNat).toNat = b.toNat := by
  have hvalid : b.toNat.isValidChar := Or.inl (Nat.lt_trans b.toNat_lt (by decide))
  rw [Char.ofNat, dif_pos hvalid]
  rfl

/-- No character below `+`, and no dash, is in a written form. -/
theorem not_mem_encode {c : Char} (hc : c.toNat < 43 ∨ c.toNat = 45) (bs : List UInt8) :
    c ∉ (encode bs).toList := by
  rw [encode, String.toList_ofList, List.mem_map]
  rintro ⟨b, hb, rfl⟩
  have hbounds := bounds_of_mem_encodeOctets hb
  rw [toNat_ofNat] at hc
  omega

/-- Octets of ASCII characters are written as themselves by `Utf8.encodeChars`. -/
theorem encodeChars_map_ofNat {bs : List UInt8} (h : ∀ b ∈ bs, b.toNat < 128) :
    Utf8.encodeChars (bs.map fun b => Char.ofNat b.toNat) = bs := by
  induction bs with
  | nil => rfl
  | cons b bs ih =>
    rw [List.forall_mem_cons] at h
    have hval : (Char.ofNat b.toNat).val.toNat = b.toNat := toNat_ofNat b
    have hb : String.utf8EncodeChar (Char.ofNat b.toNat) = [b] := by
      rw [String.utf8EncodeChar, hval, if_pos (by omega), UInt8.ofNat_toNat]
    rw [List.map_cons, Utf8.encodeChars_cons, hb, ih h.2, List.singleton_append]

/-- What `encode` writes has no white space in it. -/
theorem compact_encode (bs : List UInt8) : compact (encode bs).toList = (encode bs).toList := by
  rw [compact, List.filter_eq_self, encode, String.toList_ofList]
  intro c hc
  obtain ⟨b, hb, rfl⟩ := List.mem_map.mp hc
  have hbounds := bounds_of_mem_encodeOctets hb
  simp only [isBlank, toNat_ofNat, Bool.not_eq_true', Bool.or_eq_false_iff, Bool.and_eq_false_iff,
    decide_eq_false_iff_not, beq_eq_false_iff_ne]
  omega

/-- The octets of what `encode` writes are its symbols. -/
theorem encodeChars_encode (bs : List UInt8) :
    Utf8.encodeChars (encode bs).toList = encodeOctets bs := by
  rw [encode, String.toList_ofList]
  exact encodeChars_map_ofNat fun b hb => (bounds_of_mem_encodeOctets hb).2.2

/-- `decode` reads back what `encode` writes. -/
theorem decode_encode (bs : List UInt8) : decode (encode bs) = .ok bs := by
  rw [decode, compact_encode, encodeChars_encode, decodeOctets_encodeOctets]

end Dbgp.Text.Base64
