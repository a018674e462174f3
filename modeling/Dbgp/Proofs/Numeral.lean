import Dbgp.Text.Blank
import Dbgp.Text.Numeral
import Mathlib.Algebra.Ring.Nat
import Mathlib.Data.List.TakeWhile

/-!
# Reading back numerals

A number that `write` writes consists of digits only, so `nat?` reads it back whatever stands around
it on its line, and a bound on its value is all that a word of some width asks for.
-/

namespace Dbgp.Text

/-- `trimChars` takes nothing off a text without characters of the class. -/
theorem trimChars_of_forall_not {p : Char → Bool} {cs : List Char} (h : ∀ c ∈ cs, ¬p c) :
    trimChars p cs = cs := by
  have hdrop : ∀ ds : List Char, (∀ c ∈ ds, c ∈ cs) → ds.dropWhile p = ds := by
    intro ds hds
    cases ds with
    | nil => rfl
    | cons d ds => exact List.dropWhile_cons_of_neg (h d (hds d List.mem_cons_self))
  rw [trimChars, hdrop cs fun c hc => hc, hdrop cs.reverse fun c hc => List.mem_reverse.mp hc,
    List.reverse_reverse]

/-- What `trimChars` takes off stands at the ends. -/
theorem exists_trimChars (p : Char → Bool) (cs : List Char) : ∃ front back,
    cs = front ++ trimChars p cs ++ back ∧ (∀ c ∈ front, p c = true) ∧ ∀ c ∈ back, p c = true := by
  have hback := List.takeWhile_append_dropWhile (p := p) (l := (cs.dropWhile p).reverse)
  refine ⟨cs.takeWhile p, ((cs.dropWhile p).reverse.takeWhile p).reverse, ?_, ?_, ?_⟩
  · rw [trimChars, List.append_assoc, ← List.reverse_append, hback, List.reverse_reverse,
      List.takeWhile_append_dropWhile]
  · exact fun c hc => List.mem_takeWhile_imp hc
  · exact fun c hc => List.mem_takeWhile_imp (List.mem_reverse.mp hc)

/-- `trimChars` takes everything off exactly if it is all of the class. -/
theorem trimChars_eq_nil_iff {p : Char → Bool} {cs : List Char} :
    trimChars p cs = [] ↔ ∀ c ∈ cs, p c = true := by
  constructor
  · intro h
    obtain ⟨front, back, hcs, hfront, hback⟩ := exists_trimChars p cs
    rw [h, List.append_nil] at hcs
    rw [hcs]
    exact List.forall_mem_append.mpr ⟨hfront, hback⟩
  · intro h
    rw [trimChars, List.dropWhile_eq_nil_iff.mpr h]
    rfl

/-- `trimChars` takes off exactly what stands around. -/
theorem trimChars_append {p : Char → Bool} {front mid back : List Char}
    (hfront : ∀ c ∈ front, p c = true) (hback : ∀ c ∈ back, p c = true) (hne : mid ≠ [])
    (hmid : ∀ c ∈ mid, p c = false) : trimChars p (front ++ mid ++ back) = mid := by
  have hstop : ∀ {ds : List Char} (rest : List Char), ds ≠ [] → (∀ c ∈ ds, p c = false) →
      (ds ++ rest).dropWhile p = ds ++ rest := by
    intro ds rest hds hnot
    cases ds with
    | nil => exact absurd rfl hds
    | cons d ds => exact List.dropWhile_cons_of_neg (by simp [hnot d List.mem_cons_self])
  rw [trimChars, List.append_assoc, List.dropWhile_append_of_pos hfront, hstop back hne hmid,
    List.reverse_append, List.dropWhile_append_of_pos fun c hc => hback c (List.mem_reverse.mp hc)]
  have hreversed : mid.reverse.dropWhile p = mid.reverse := by
    have h := hstop [] (List.reverse_ne_nil_iff.mpr hne)
      fun c hc => hmid c (List.mem_reverse.mp hc)
    rwa [List.append_nil] at h
  rw [hreversed, List.reverse_reverse]

/-- A digit is white space neither for `isBlank` nor for `isPadding`. -/
theorem not_blank_of_isDigit {c : Char} (h : c.isDigit) : ¬isBlank c ∧ ¬isPadding c := by
  have hdigit : 48 ≤ c.toNat ∧ c.toNat ≤ 57 := by
    simpa [Char.isDigit, UInt32.le_iff_toNat_le] using h
  simp only [isBlank, isPadding, Bool.or_eq_true, Bool.and_eq_true, beq_iff_eq, decide_eq_true_eq]
  omega

namespace Numeral

/-- The characters of a number that `write` writes. -/
theorem write_toList (n : Nat) : (write n).toList = Nat.toDigits 10 n :=
  Nat.toList_repr

/-- `write` writes digits only. -/
theorem isDigit_of_mem_write {n : Nat} {c : Char} (h : c ∈ (write n).toList) : c.isDigit := by
  rw [write_toList] at h
  exact Nat.isDigit_of_mem_toDigits (by decide) (by decide) h

/-- A character that is no digit is in nothing that `write` writes. -/
theorem not_mem_write {c : Char} (hc : c.isDigit = false) (n : Nat) : c ∉ (write n).toList := by
  intro h
  rw [isDigit_of_mem_write h] at hc
  exact Bool.noConfusion hc

/-- One or more digits are a numeral for `nat?`. -/
theorem nat?_of_isDigit {cs : List Char} (hne : cs ≠ []) (h : ∀ c ∈ cs, c.isDigit) :
    nat? cs = some (Nat.ofDigitChars 10 cs 0) := by
  have hdigits : digits? cs = some (Nat.ofDigitChars 10 cs 0) := by
    rw [digits?, if_pos ⟨hne, List.all_eq_true.mpr h⟩]
  rw [nat?, hdigits]
  rintro rest rfl
  exact absurd (h '+' List.mem_cons_self) (by decide)

/-- `nat?` reads back what `write` writes. -/
theorem nat?_write (n : Nat) : nat? (write n).toList = some n := by
  have hne : (write n).toList ≠ [] := by
    rw [write_toList]
    exact Nat.toDigits_ne_nil
  rw [nat?_of_isDigit hne fun c => isDigit_of_mem_write, write_toList, Nat.ofDigitChars_ten_toDigits]

/-- `writeWidth` writes digits only: zeros in front of a number are digits too. -/
theorem isDigit_of_mem_writeWidth {width n : Nat} {c : Char}
    (h : c ∈ (writeWidth width n).toList) : c.isDigit := by
  rw [writeWidth, String.toList_ofList, List.mem_append] at h
  rcases h with h | h
  · rw [List.eq_of_mem_replicate h]
    rfl
  · exact Nat.isDigit_of_mem_toDigits (by decide) (by decide) h

/-- `nat?` reads back what `writeWidth` writes. -/
theorem nat?_writeWidth (width n : Nat) : nat? (writeWidth width n).toList = some n := by
  have hne : (writeWidth width n).toList ≠ [] := by
    rw [writeWidth, String.toList_ofList]
    exact List.append_ne_nil_of_right_ne_nil _ Nat.toDigits_ne_nil
  rw [nat?_of_isDigit hne fun c => isDigit_of_mem_writeWidth, writeWidth, String.toList_ofList,
    Nat.ofDigitChars_append, Nat.ofDigitChars_replicate_zero, Nat.mul_zero,
    Nat.ofDigitChars_ten_toDigits]

/-- `writeWidth` fills the width exactly, if the number is not too long for it. -/
theorem length_writeWidth {width n : Nat} (hwidth : 0 < width) (h : n < 10 ^ width) :
    (writeWidth width n).toList.length = width := by
  have hle : (Nat.toDigits 10 n).length ≤ width :=
    (Nat.length_toDigits_le_iff (by decide) hwidth).mpr h
  rw [writeWidth, String.toList_ofList, List.length_append, List.length_replicate]
  omega

/-- `word32?` reads back what `write` writes for a word of 32 bits. -/
theorem word32?_write (w : UInt32) : word32? (write w.toNat).toList = some w := by
  have hlt : w.toNat < UInt32.size := w.toNat_lt
  rw [word32?, below?, nat?_write, Option.filter_some, if_pos (decide_eq_true hlt), Option.map_some,
    UInt32.ofNat_toNat]

/-! ## Numerals with something around them -/

/-- A numeral with characters of the class `p` on both sides of it: digits, perhaps after a plus
sign. -/
def Padded (p : Char → Bool) (cs : List Char) (n : Nat) : Prop :=
  ∃ front sign digits back, cs = front ++ (sign ++ digits) ++ back ∧ (∀ c ∈ front, p c = true) ∧
    (∀ c ∈ back, p c = true) ∧ (sign = [] ∨ sign = ['+']) ∧ digits ≠ [] ∧
    (∀ c ∈ digits, c.isDigit = true) ∧ Nat.ofDigitChars 10 digits 0 = n

/-- When `digits?` reads a number, and which. -/
theorem digits?_eq_some_iff {cs : List Char} {n : Nat} : digits? cs = some n ↔
    cs ≠ [] ∧ (∀ c ∈ cs, c.isDigit = true) ∧ Nat.ofDigitChars 10 cs 0 = n := by
  rw [digits?, Option.ite_none_right_eq_some, List.all_eq_true, Option.some.injEq, and_assoc]

/-- When `nat?` reads a number, and which: digits, perhaps after a plus sign. -/
theorem nat?_eq_some_iff {cs : List Char} {n : Nat} : nat? cs = some n ↔
    ∃ sign digits, cs = sign ++ digits ∧ (sign = [] ∨ sign = ['+']) ∧ digits ≠ [] ∧
      (∀ c ∈ digits, c.isDigit = true) ∧ Nat.ofDigitChars 10 digits 0 = n := by
  constructor
  · intro h
    unfold nat? at h
    split at h
    · next digits => exact ⟨['+'], digits, rfl, .inr rfl, digits?_eq_some_iff.mp h⟩
    · exact ⟨[], cs, rfl, .inl rfl, digits?_eq_some_iff.mp h⟩
  · rintro ⟨sign, digits, rfl, rfl | rfl, hne, hdigits, rfl⟩
    · exact nat?_of_isDigit hne hdigits
    · exact digits?_eq_some_iff.mpr ⟨hne, hdigits, rfl⟩

/-- What `nat?` reads after `trimChars` is `Padded`. -/
theorem nat?_trimChars_eq_some_iff {p : Char → Bool} (hplus : p '+' = false)
    (hdigit : ∀ c, c.isDigit = true → p c = false) {cs : List Char} {n : Nat} :
    nat? (trimChars p cs) = some n ↔ Padded p cs n := by
  constructor
  · intro h
    obtain ⟨sign, digits, htrim, hsign, hdigits⟩ := nat?_eq_some_iff.mp h
    obtain ⟨front, back, hcs, hfront, hback⟩ := exists_trimChars p cs
    exact ⟨front, sign, digits, back, htrim ▸ hcs, hfront, hback, hsign, hdigits⟩
  · rintro ⟨front, sign, digits, back, rfl, hfront, hback, hsign, hne, hdigits, hn⟩
    have hnot : ∀ c ∈ sign ++ digits, p c = false := by
      intro c hc
      rcases List.mem_append.mp hc with hc | hc
      · rcases hsign with rfl | rfl
        · cases hc
        · rw [List.mem_singleton.mp hc, hplus]
      · exact hdigit c (hdigits c hc)
    rw [trimChars_append hfront hback (List.append_ne_nil_of_right_ne_nil sign hne) hnot]
    exact nat?_eq_some_iff.mpr ⟨sign, digits, rfl, hsign, hne, hdigits, hn⟩

/-- `word32?` reads what `nat?` reads as a number of 32 bits. -/
theorem word32?_eq_some_iff {cs : List Char} {w : UInt32} :
    word32? cs = some w ↔ nat? cs = some w.toNat := by
  rw [word32?, below?, Option.map_eq_some_iff]
  constructor
  · rintro ⟨n, hn, rfl⟩
    rw [Option.filter_eq_some_iff, decide_eq_true_eq] at hn
    rw [hn.1, UInt32.toNat_ofNat_of_lt' hn.2]
  · intro h
    refine ⟨w.toNat, ?_, UInt32.ofNat_toNat⟩
    rw [h, Option.filter_some, if_pos (decide_eq_true w.toNat_lt)]

end Numeral

end Dbgp.Text
