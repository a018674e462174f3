import Dbgp.Proofs.PacketFraming
import Mathlib.Data.Nat.Digits.Defs

/-!
# The length field

A packet begins with its length. The field is read leniently, with padding around the number and
perhaps a plus sign, and written strictly, as ten digits. `Frame.Spells` says what a field may look
like and which number it stands for, without a word on how it is read.

Main statement: a field has a length exactly if it spells a number of 64 bits, and what stands in front
of a payload of fewer than ten to the tenth octets are ten digits that spell its length.
-/

namespace Dbgp

/-- The value of a list of digits is the sum of the digits by their powers of ten: `Nat.ofDigits` of
their values. -/
theorem Text.Numeral.ofDigitChars_eq_ofDigits (cs : List Char) :
    Nat.ofDigitChars 10 cs 0 = Nat.ofDigits 10 (cs.map fun c => c.toNat - '0'.toNat).reverse := by
  induction cs with
  | nil => rfl
  | cons c cs ih =>
    rw [Nat.ofDigitChars_cons, Nat.ofDigitChars_eq_ofDigitChars_zero, ih, List.map_cons,
      Nat.ofDigits_reverse_cons, List.length_map, Nat.mul_zero, Nat.zero_add, Nat.add_comm]

namespace Frame

/-- The characters that may stand around the number in a length field; `isPadding` accepts these. -/
def padding : List Char :=
  [' ', '\t', '\n', '\x0c', '\r', '\x00']

/-- `Text.isPadding` accepts the characters of `padding`. -/
theorem isPadding_iff {c : Char} : Text.isPadding c = true ↔ c ∈ padding := by
  have hchar : ∀ d : Char, c.toNat = d.toNat ↔ c = d := fun d => Char.toNat_inj
  simp only [Text.isPadding, padding, Bool.or_eq_true, beq_iff_eq, List.mem_cons, List.not_mem_nil,
    or_false, ← hchar]
  simp only [or_assoc]
  exact Iff.rfl

/-- A field spells a number: `padding`, perhaps a plus sign, one or more digits with that value, and
padding again. -/
def Spells (field : String) (n : Nat) : Prop :=
  ∃ front sign digits back : List Char, field.toList = front ++ sign ++ digits ++ back ∧
    (∀ c ∈ front ++ back, c ∈ padding) ∧ (sign = [] ∨ sign = ['+']) ∧
    digits ≠ [] ∧ (∀ c ∈ digits, c.isDigit = true) ∧
    Nat.ofDigits 10 (digits.map fun c => c.toNat - '0'.toNat).reverse = n

/-- A field is `Padded` for a number exactly if it `Spells` it. -/
theorem padded_iff_spells {field : String} {n : Nat} :
    Text.Numeral.Padded Text.isPadding field.toList n ↔ Spells field n := by
  unfold Text.Numeral.Padded Spells
  simp only [List.forall_mem_append, isPadding_iff, Text.Numeral.ofDigitChars_eq_ofDigits,
    List.append_assoc, and_assoc]

/-- `length?` accepts what `Spells` a number of 64 bits, and nothing else. -/
theorem length?_eq_some_iff {field : String} {n : Nat} :
    length? field = some n ↔ Spells field n ∧ n < 2 ^ 64 := by
  have hdigit : ∀ c : Char, c.isDigit = true → Text.isPadding c = false :=
    fun c hc => Bool.eq_false_iff.mpr (Text.not_blank_of_isDigit hc).2
  rw [length?, Text.Numeral.below?, Option.filter_eq_some_iff, decide_eq_true_eq,
    Text.Numeral.nat?_trimChars_eq_some_iff (by decide) hdigit, padded_iff_spells]
  exact Iff.rfl

/-- Digits are written by `encodeChars` as octets between those of zero and nine. -/
theorem digit_of_mem_encodeChars {cs : List Char} (hcs : ∀ c ∈ cs, c.isDigit = true) {b : UInt8}
    (hb : b ∈ Text.Utf8.encodeChars cs) : 0x30 ≤ b ∧ b ≤ 0x39 := by
  obtain ⟨c, hc, hb⟩ := List.mem_flatMap.mp hb
  have hdigit : 48 ≤ c.val.toNat ∧ c.val.toNat ≤ 57 := by
    simpa [Char.isDigit, UInt32.le_iff_toNat_le] using hcs c hc
  rw [String.utf8EncodeChar, if_pos (by omega), List.mem_singleton] at hb
  rw [hb, UInt8.le_iff_toNat_le, UInt8.le_iff_toNat_le, Text.Utf8.toNat_octet (by omega)]
  exact hdigit

/-- A length field is read exactly: it has a length if and only if it spells a number of 64 bits,
which is the length then. A written packet begins with ten digits, and these are read as the number of
octets of its payload, as long as that has no more than ten digits. -/
theorem length_field_exact (field payload : String) (n : Nat) :
    (length? field = some n ↔ Spells field n ∧ n < 2 ^ 64) ∧
    ((Text.Utf8.encode payload).length < 10 ^ 10 →
      ((encode payload).take 10).length = 10 ∧
      (∀ b ∈ (encode payload).take 10, 0x30 ≤ b ∧ b ≤ 0x39) ∧
      length? (Text.Utf8.lossy ((encode payload).take 10)) =
        some (Text.Utf8.encode payload).length) := by
  refine ⟨length?_eq_some_iff, fun hshort => ?_⟩
  have hwidth := length_encode_writeWidth hshort
  have htake : (encode payload).take 10 =
      Text.Utf8.encode (Text.Numeral.writeWidth fieldWidth (Text.Utf8.encode payload).length) :=
    List.take_left' hwidth
  rw [htake, Text.Utf8.lossy_encode]
  exact ⟨hwidth, fun b => digit_of_mem_encodeChars fun c => Text.Numeral.isDigit_of_mem_writeWidth,
    length?_writeWidth hshort⟩

/-- Form feed and NUL around the number, a plus sign and many zeros are fine. A payload of three
characters can have four octets. -/
theorem length_field_exact_accented :
    let field := ['\x0c', ' '] ++ ['+'] ++ (List.replicate 30 '0' ++ ['1', '2']) ++ ['\x00']
    length? (String.ofList field) = some 12 ∧
      length? (Text.Utf8.lossy ((encode "<é>").take 10)) = some 4 := by
  intro field
  have hspells : Spells (String.ofList field) 12 :=
    ⟨['\x0c', ' '], ['+'], List.replicate 30 '0' ++ ['1', '2'], ['\x00'], String.toList_ofList,
      by simp [padding], .inr rfl, by simp, List.all_eq_true.mp (by decide), by decide +kernel⟩
  have hshort : (Text.Utf8.encode "<é>").length = 4 := by decide +kernel
  exact ⟨(length_field_exact _ "<é>" 12).1.mpr ⟨hspells, by decide⟩,
    hshort ▸ ((length_field_exact "" "<é>" 0).2 (by rw [hshort]; decide)).2.2⟩

end Frame

end Dbgp
