import Dbgp.Proofs.Base64
import Mathlib.Algebra.Ring.Nat
import Mathlib.Data.Nat.Digits.Defs

/-!
# Base64 is read exactly

Reading accepts what writing produces and nothing else, white space aside. `Spells` says what that is
without reading or writing anything: symbols of the alphabet whose values, taken as digits of one number
to the base 64, are the octets as digits of a number to the base 256, moved up by two bits for each
padding sign. Lengths then fix the padding, and the number fixes the symbols, so that octets are spelled
in one way.

Reading treats the last group apart. Its symbols are read from left to right, and what that accepts is
symbols first and padding signs after them (`tailSymbols_eq_ok`).
-/

namespace Dbgp.Text.Base64

/-! ## What a text stands for -/

/-- The alphabet, each `symbol` at the place of its value. -/
def alphabet : List Char :=
  "ABCDEFGHIJKLMNOPQRSTUVWXYZabcdefghijklmnopqrstuvwxyz0123456789+/".toList

/-- The number that `digits` make, the first of them having the greatest weight. -/
def number (base : Nat) (digits : List Nat) : Nat :=
  Nat.ofDigits base digits.reverse

/-- A text stands for octets: it has as many symbols of the `alphabet` as the octets need, and a
padding sign for every two bits that these have more than the octets. Those bits are zero. -/
def Spells (cs : List Char) (d : List UInt8) : Prop :=
  ∃ (vs : List Nat) (pads : Nat),
    cs.map some = vs.map (fun v => alphabet[v]?) ++ List.replicate pads (some '=') ∧ pads ≤ 2 ∧
    6 * vs.length = 8 * d.length + 2 * pads ∧
    number 64 vs = number 256 (d.map UInt8.toNat) * 4 ^ pads

theorem number_nil (base : Nat) : number base [] = 0 := rfl

/-- The `number` of digits in two parts. -/
theorem number_append (base : Nat) (xs ys : List Nat) :
    number base (xs ++ ys) = number base xs * base ^ ys.length + number base ys := by
  rw [number, List.reverse_append, Nat.ofDigits_append, List.length_reverse, Nat.add_comm,
    Nat.mul_comm, number, number]

/-- The `number` of a first digit and the others. -/
theorem number_cons (base x : Nat) (xs : List Nat) :
    number base (x :: xs) = x * base ^ xs.length + number base xs := by
  rw [← List.singleton_append, number_append]
  rfl

/-- The `alphabet` has the symbols that are written, in order. -/
theorem alphabet_of_lt {v : Nat} (h : v < 64) :
    alphabet[v]? = some (Char.ofNat (symbol v).toNat) := by
  have hall : ∀ v ∈ List.range 64, alphabet[v]? = some (Char.ofNat (symbol v).toNat) := by decide
  exact hall v (List.mem_range.mpr h)

/-- The `alphabet` has 64 symbols. -/
theorem lt_of_alphabet {v : Nat} {c : Char} (h : alphabet[v]? = some c) : v < 64 :=
  (List.getElem?_eq_some_iff.mp h).1

/-! ## Octets are spelled in one way -/

/-- What `encodeOctets` writes, as values of symbols with padding. -/
theorem exists_values (d : List UInt8) : ∃ (vs : List Nat) (pads : Nat),
    encodeOctets d = vs.map symbol ++ List.replicate pads pad ∧ (∀ v ∈ vs, v < 64) ∧ pads ≤ 2 ∧
    6 * vs.length = 8 * d.length + 2 * pads ∧
    number 64 vs = number 256 (d.map UInt8.toNat) * 4 ^ pads := by
  fun_induction encodeOctets d with
  | case1 => exact ⟨[], 0, rfl, by simp, by omega, rfl, rfl⟩
  | case2 a =>
    have ha : a.toNat < 256 := a.toNat_lt
    refine ⟨[a.toNat / 4, a.toNat % 4 * 16], 2, rfl, ?_, by omega, rfl, ?_⟩
    · simp only [List.forall_mem_cons, List.not_mem_nil, false_implies, implies_true, and_true]
      omega
    · simp only [List.map_cons, List.map_nil, number_cons, number_nil, List.length_cons, List.length_nil]
      omega
  | case3 a b =>
    have ha : a.toNat < 256 := a.toNat_lt
    have hb : b.toNat < 256 := b.toNat_lt
    refine ⟨[a.toNat / 4, a.toNat % 4 * 16 + b.toNat / 16, b.toNat % 16 * 4], 1, rfl, ?_, by omega,
      rfl, ?_⟩
    · simp only [List.forall_mem_cons, List.not_mem_nil, false_implies, implies_true, and_true]
      omega
    · simp only [List.map_cons, List.map_nil, number_cons, number_nil, List.length_cons, List.length_nil]
      omega
  | case4 a b c rest ih =>
    have ha : a.toNat < 256 := a.toNat_lt
    have hb : b.toNat < 256 := b.toNat_lt
    have hc : c.toNat < 256 := c.toNat_lt
    obtain ⟨vs, pads, hvs, hlt, hpads, hroom, hvalue⟩ := ih
    refine ⟨a.toNat / 4 :: (a.toNat % 4 * 16 + b.toNat / 16) :: (b.toNat % 16 * 4 + c.toNat / 64) ::
      c.toNat % 64 :: vs, pads, ?_, ?_, hpads, ?_, ?_⟩
    · rw [hvs]
      rfl
    · simp only [List.forall_mem_cons]
      exact ⟨by omega, by omega, by omega, by omega, hlt⟩
    · simp only [List.length_cons]
      omega
    · -- Four symbols and three octets are the same number, and so are the places they stand at.
      have hplace : 64 ^ vs.length = 256 ^ rest.length * 4 ^ pads := by
        have hexp : 3 * vs.length = 4 * rest.length + pads := by omega
        rw [show 64 = 4 ^ 3 from rfl, show 256 = 4 ^ 4 from rfl, ← Nat.pow_mul, ← Nat.pow_mul,
          ← Nat.pow_add, hexp]
      have hgroup : number 64 [a.toNat / 4, a.toNat % 4 * 16 + b.toNat / 16,
          b.toNat % 16 * 4 + c.toNat / 64, c.toNat % 64] = number 256 [a.toNat, b.toNat, c.toNat] := by
        simp only [number_cons, number_nil, List.length_cons, List.length_nil]
        omega
      calc number 64 ([a.toNat / 4, a.toNat % 4 * 16 + b.toNat / 16,
            b.toNat % 16 * 4 + c.toNat / 64, c.toNat % 64] ++ vs)
          = number 256 [a.toNat, b.toNat, c.toNat] * (256 ^ rest.length * 4 ^ pads) +
              number 256 (rest.map UInt8.toNat) * 4 ^ pads := by
            rw [number_append, hgroup, hplace, hvalue]
        _ = number 256 ([a.toNat, b.toNat, c.toNat] ++ rest.map UInt8.toNat) * 4 ^ pads := by
            rw [number_append, List.length_map, Nat.add_mul, Nat.mul_assoc]

/-- What `encode` writes stands for the octets. -/
theorem spells_encode (d : List UInt8) : Spells (encode d).toList d := by
  obtain ⟨vs, pads, hvs, hlt, hpads, hroom, hvalue⟩ := exists_values d
  refine ⟨vs, pads, ?_, hpads, hroom, hvalue⟩
  rw [encode, String.toList_ofList, hvs, List.map_append, List.map_append, List.map_replicate,
    List.map_replicate, List.map_map, List.map_map]
  refine congrArg₂ _ (List.map_congr_left fun v hv => ?_) rfl
  exact (alphabet_of_lt (hlt v hv)).symm

/-- Octets are spelled in one way: `Spells` determines the text. -/
theorem Spells.unique {cs cs' : List Char} {d : List UInt8} (h : Spells cs d) (h' : Spells cs' d) :
    cs = cs' := by
  obtain ⟨vs, pads, hcs, hpads, hroom, hvalue⟩ := h
  obtain ⟨vs', pads', hcs', hpads', hroom', hvalue'⟩ := h'
  have hsame : pads = pads' := by omega
  subst hsame
  -- As many digits that make the same number are the same digits.
  have hvs : vs = vs' := by
    have hlt : ∀ {cs : List Char} {vs : List Nat},
        cs.map some = vs.map (fun v => alphabet[v]?) ++ List.replicate pads (some '=') →
          ∀ v ∈ vs.reverse, v < 64 := by
      intro cs vs hcs v hv
      have hmem : alphabet[v]? ∈ cs.map some := by
        rw [hcs]
        exact List.mem_append_left _ (List.mem_map_of_mem (List.mem_reverse.mp hv))
      obtain ⟨c, -, hc⟩ := List.mem_map.mp hmem
      exact lt_of_alphabet hc.symm
    refine List.reverse_inj.mp (Nat.ofDigits_inj_of_len_eq (b := 64) (by decide) ?_ (hlt hcs) (hlt hcs')
      (hvalue.trans hvalue'.symm))
    rw [List.length_reverse, List.length_reverse]
    omega
  subst hvs
  exact List.map_injective_iff.mpr (Option.some_injective _) (hcs.trans hcs'.symm)

/-! ## Only what is written is read -/

/-- A symbol that has a `value?` is the `symbol` of that value. -/
theorem symbol_of_value? {b : UInt8} {v : Nat} (h : value? b = some v) : v < 64 ∧ symbol v = b := by
  simp only [value?, UInt8.le_iff_toNat_le, UInt8.reduceToNat] at h
  split at h
  · cases h
    refine ⟨by omega, ?_⟩
    rw [symbol, if_pos (by omega), Utf8.ofNat_eq (b := b) (by omega)]
  split at h
  · cases h
    refine ⟨by omega, ?_⟩
    rw [symbol, if_neg (by omega), if_pos (by omega), Utf8.ofNat_eq (b := b) (by omega)]
  split at h
  · cases h
    refine ⟨by omega, ?_⟩
    rw [symbol, if_neg (by omega), if_neg (by omega), if_pos (by omega), Utf8.ofNat_eq (b := b) (by omega)]
  split at h
  · next hb =>
    cases h
    exact ⟨by decide, hb.symm⟩
  split at h
  · next hb =>
    cases h
    exact ⟨by decide, hb.symm⟩
  · cases h

/-- A symbol that `valueAt` reads is the `symbol` of its value. -/
theorem symbol_of_valueAt {offset v : Nat} {b : UInt8} (h : valueAt offset b = .ok v) :
    v < 64 ∧ symbol v = b := by
  unfold valueAt at h
  split at h
  · next w hw =>
    cases h
    exact symbol_of_value? hw
  · cases h

/-- Steps that succeed together succeed one by one. -/
theorem exists_of_bind_eq_ok {x : Except Fault α} {f : α → Except Fault β} {b : β}
    (h : x >>= f = .ok b) : ∃ a, x = .ok a ∧ f a = .ok b := by
  cases x with
  | error fault => cases h
  | ok a => exact ⟨a, rfl, h⟩

/-- A last group that `tailSymbols` reads has symbols first and then padding signs. -/
theorem tailSymbols_eq_ok {start position pads : Nat} {firstPad : Option Nat} {bs : List UInt8}
    {vs : List (Nat × UInt8)} (h : tailSymbols start position firstPad bs = .ok (vs, pads)) :
    bs = vs.map Prod.snd ++ List.replicate pads pad ∧ (∀ v ∈ vs, v.1 < 64 ∧ symbol v.1 = v.2) ∧
      (firstPad ≠ none → vs = []) := by
  fun_induction tailSymbols start position firstPad bs generalizing vs pads with
  | case1 =>
    cases h
    exact ⟨rfl, by simp, fun _ => rfl⟩
  | case2 | case4 => cases h
  | case3 position firstPad rest hposition ih =>
    obtain ⟨⟨ws, more⟩, hrest, h⟩ := exists_of_bind_eq_ok h
    cases h
    obtain ⟨hbs, -, hnil⟩ := ih hrest
    cases hnil (by simp)
    exact ⟨by rw [hbs]; rfl, by simp, fun _ => rfl⟩
  | case5 position b rest hb ih =>
    obtain ⟨v, hv, h⟩ := exists_of_bind_eq_ok h
    obtain ⟨⟨ws, more⟩, hrest, h⟩ := exists_of_bind_eq_ok h
    cases h
    obtain ⟨hbs, hsymbols, -⟩ := ih hrest
    exact ⟨by rw [hbs]; rfl, List.forall_mem_cons.mpr ⟨symbol_of_valueAt hv, hsymbols⟩, by simp⟩

section Groups

variable {x y z w : Nat}

/-- Octets that are joined from bits of symbols do not overflow. -/
theorem toNat_joined (hx : x < 64) (hy : y < 64) :
    (UInt8.ofNat (x * 4 + y / 16)).toNat = x * 4 + y / 16 ∧
      (UInt8.ofNat (x % 16 * 16 + y / 4)).toNat = x % 16 * 16 + y / 4 ∧
      (UInt8.ofNat (x % 4 * 64 + y)).toNat = x % 4 * 64 + y :=
  ⟨Utf8.toNat_octet (by omega), Utf8.toNat_octet (by omega), Utf8.toNat_octet (by omega)⟩

/-- What `encodeOctets` writes for one octet in a last group. -/
theorem encodeOctets_one (hx : x < 64) (hy : y < 64) (hrest : y % 16 = 0) :
    encodeOctets [UInt8.ofNat (x * 4 + y / 16)] = [symbol x, symbol y, pad, pad] := by
  have hfirst : (x * 4 + y / 16) / 4 = x := by omega
  have hsecond : (x * 4 + y / 16) % 4 * 16 = y := by omega
  rw [encodeOctets, (toNat_joined hx hy).1, hfirst, hsecond]

/-- What `encodeOctets` writes for two octets in a last group. -/
theorem encodeOctets_two (hx : x < 64) (hy : y < 64) (hz : z < 64) (hrest : z % 4 = 0) :
    encodeOctets [UInt8.ofNat (x * 4 + y / 16), UInt8.ofNat (y % 16 * 16 + z / 4)] =
      [symbol x, symbol y, symbol z, pad] := by
  have hfirst : (x * 4 + y / 16) / 4 = x := by omega
  have hsecond : (x * 4 + y / 16) % 4 * 16 + (y % 16 * 16 + z / 4) / 16 = y := by omega
  have hthird : (y % 16 * 16 + z / 4) % 16 * 4 = z := by omega
  rw [encodeOctets, (toNat_joined hx hy).1, (toNat_joined hy hz).2.1, hfirst, hsecond, hthird]

/-- What `encodeOctets` writes for three octets, and then the rest. -/
theorem encodeOctets_three (hx : x < 64) (hy : y < 64) (hz : z < 64) (hw : w < 64)
    (rest : List UInt8) :
    encodeOctets (UInt8.ofNat (x * 4 + y / 16) :: UInt8.ofNat (y % 16 * 16 + z / 4) ::
      UInt8.ofNat (z % 4 * 64 + w) :: rest) =
      symbol x :: symbol y :: symbol z :: symbol w :: encodeOctets rest := by
  have hfirst : (x * 4 + y / 16) / 4 = x := by omega
  have hsecond : (x * 4 + y / 16) % 4 * 16 + (y % 16 * 16 + z / 4) / 16 = y := by omega
  have hthird : (y % 16 * 16 + z / 4) % 16 * 4 + (z % 4 * 64 + w) / 64 = z := by omega
  have hfourth : (z % 4 * 64 + w) % 64 = w := by omega
  rw [encodeOctets, (toNat_joined hx hy).1, (toNat_joined hy hz).2.1, (toNat_joined hz hw).2.2, hfirst,
    hsecond, hthird, hfourth]

end Groups

/-- A last group that `tail` reads is what is written for its octets. -/
theorem encodeOctets_of_tail {start : Nat} {bs d : List UInt8} (hbs : bs.length ≤ 4)
    (h : tail start bs = .ok d) : encodeOctets d = bs := by
  obtain ⟨⟨vs, pads⟩, hread, hoctets⟩ := exists_of_bind_eq_ok h
  obtain ⟨rfl, hsymbols, -⟩ := tailSymbols_eq_ok hread
  rw [List.length_append, List.length_map, List.length_replicate] at hbs
  simp only [ne_eq, ite_not] at hoctets
  split at hoctets
  · cases hoctets
  split at hoctets
  · next hlong hgroup =>
    -- The length of the group leaves one number of padding signs for each number of symbols.
    have hfull : vs.length + pads = 4 := by omega
    split at hoctets
    · next a b =>
      simp only [List.forall_mem_cons] at hsymbols
      obtain ⟨⟨ha, hsa⟩, ⟨hb, hsb⟩, -⟩ := hsymbols
      split at hoctets
      · next hrest =>
        cases hoctets
        obtain rfl : pads = 2 := Nat.add_left_cancel hfull
        rw [encodeOctets_one ha hb hrest, hsa, hsb]
        rfl
      · cases hoctets
    · next a b c =>
      simp only [List.forall_mem_cons] at hsymbols
      obtain ⟨⟨ha, hsa⟩, ⟨hb, hsb⟩, ⟨hc, hsc⟩, -⟩ := hsymbols
      split at hoctets
      · next hrest =>
        cases hoctets
        obtain rfl : pads = 1 := Nat.add_left_cancel hfull
        rw [encodeOctets_two ha hb hc hrest, hsa, hsb, hsc]
        rfl
      · cases hoctets
    · next a b c e =>
      simp only [List.forall_mem_cons] at hsymbols
      obtain ⟨⟨ha, hsa⟩, ⟨hb, hsb⟩, ⟨hc, hsc⟩, ⟨he, hse⟩, -⟩ := hsymbols
      cases hoctets
      obtain rfl : pads = 0 := Nat.add_left_cancel hfull
      rw [encodeOctets_three ha hb hc he, hsa, hsb, hsc, hse]
      rfl
    · cases hoctets
  · cases hoctets

/-- Groups that `groups` reads are what is written for their octets. -/
theorem encodeOctets_of_groups {start : Nat} {bs d : List UInt8} (h : groups start bs = .ok d) :
    encodeOctets d = bs := by
  fun_induction groups start bs generalizing d with
  | case1 start a b c e f rest ih =>
    obtain ⟨x, hx, h⟩ := exists_of_bind_eq_ok h
    obtain ⟨y, hy, h⟩ := exists_of_bind_eq_ok h
    obtain ⟨z, hz, h⟩ := exists_of_bind_eq_ok h
    obtain ⟨w, hw, h⟩ := exists_of_bind_eq_ok h
    obtain ⟨more, hmore, h⟩ := exists_of_bind_eq_ok h
    cases h
    obtain ⟨hx64, rfl⟩ := symbol_of_valueAt hx
    obtain ⟨hy64, rfl⟩ := symbol_of_valueAt hy
    obtain ⟨hz64, rfl⟩ := symbol_of_valueAt hz
    obtain ⟨hw64, rfl⟩ := symbol_of_valueAt hw
    rw [encodeOctets_three hx64 hy64 hz64 hw64, ih hmore]
  | case2 =>
    cases h
    rfl
  | case3 start last hlong hnil =>
    refine encodeOctets_of_tail ?_ h
    rcases last with _ | ⟨a, _ | ⟨b, _ | ⟨c, _ | ⟨e, _ | ⟨f, rest⟩⟩⟩⟩⟩
    iterate 5 · simp
    · exact absurd rfl (hlong a b c e f rest)

/-- `decodeOctets` reads octets from what `encodeOctets` writes for them, and from nothing else. -/
theorem decodeOctets_eq_ok_iff {bs d : List UInt8} : decodeOctets bs = .ok d ↔ encodeOctets d = bs := by
  constructor
  · intro h
    rw [decodeOctets] at h
    split at h
    · cases h
    · exact encodeOctets_of_groups h
  · rintro rfl
    exact decodeOctets_encodeOctets d

/-! ## Texts -/

/-- A text is read as some octets if and only if it is the written form of these once all white space
is taken out of it, and that is if and only if it spells them in the alphabet with padding. So white
space does no harm, every list of octets has one compact text, and a text with missing, surplus or
misplaced padding, with bits that no octet uses or with other symbols is refused. -/
theorem decode_eq_ok_iff_encode (t : String) (d : List UInt8) :
    (decode t = .ok d ↔ String.ofList (compact t.toList) = encode d) ∧
      (decode t = .ok d ↔ Spells (compact t.toList) d) := by
  have hread : decode t = .ok d ↔ compact t.toList = (encode d).toList := by
    rw [decode, decodeOctets_eq_ok_iff, ← encodeChars_encode]
    exact ⟨fun h => (Utf8.encodeChars_inj h).symm, fun h => congrArg _ h.symm⟩
  refine ⟨?_, hread.trans ⟨fun h => h ▸ spells_encode d, fun h => h.unique (spells_encode d)⟩⟩
  rw [hread, ← String.toList_inj, String.toList_ofList]

end Dbgp.Text.Base64
