import Dbgp.Proofs.WrittenDocument
import Dbgp.Xml.Markup

/-!
# Reading spellings

Names, references and spelled text are read back from the start of longer texts, by `qname?`,
`reference?` and `pieces?`. The number of a character is read back from its digits in either base,
with any number of zeros before them and in both cases. A spelling gives the characters it spells,
both as a value and as text: what is reserved there is just what would be read as something else.
-/

namespace Dbgp.Xml

/-! ## Names and white space -/

/-- What may start a name may stand in it. -/
theorem isNameChar_of_isNameStart {c : Char} (h : isNameStart c = true) : isNameChar c = true := by
  simp [isNameChar, h]

/-- A name comes to its end before these characters. -/
def EndsName (rest : List Char) : Prop :=
  ∀ c ∈ rest.head?, isNameChar c = false ∧ c ≠ ':'

/-- White space ends a name and is no colon. -/
theorem isNameChar_of_isSpace {c : Char} (h : isSpace c = true) : isNameChar c = false ∧ c ≠ ':' := by
  simp only [isSpace, Bool.or_eq_true, decide_eq_true_eq] at h
  rcases h with ((rfl | rfl) | rfl) | rfl
  all_goals decide

/-- A character that is neither in names nor a colon ends a name. -/
theorem endsName_cons (c : Char) (rest : List Char) (h : isNameChar c = false ∧ c ≠ ':') :
    EndsName (c :: rest) := by
  simpa [EndsName] using h

/-- White space or what follows it comes after a name (`EndsName`). -/
theorem endsName_blank {gap rest : List Char} (hgap : Blank gap) (hrest : EndsName rest) :
    EndsName (gap ++ rest) := by
  cases gap with
  | nil => exact hrest
  | cons c gap => exact endsName_cons c _ (isNameChar_of_isSpace (hgap c List.mem_cons_self))

/-- A name starts with a character that is none of those that open something else. -/
theorem Name.exists_cons (n : Name) :
    ∃ c cs, n.text.toList = c :: cs ∧ isNameStart c = true := by
  have h := n.starts
  cases hn : n.text.toList with
  | nil => simp [hn] at h
  | cons c cs => exact ⟨c, cs, rfl, by simpa [hn] using h⟩

namespace Markup

/-- `takeWhile` takes the first part of a list if it stops at the second. -/
theorem takeWhile_append_stop {α : Type} {p : α → Bool} {l rest : List α} (h : ∀ a ∈ l, p a = true)
    (hrest : ∀ a ∈ rest.head?, p a = false) : (l ++ rest).takeWhile p = l := by
  rw [List.takeWhile_append_of_pos h]
  cases rest with
  | nil => simp
  | cons a rest => simp [hrest a (by simp)]

/-- `dropWhile` leaves the second part of a list if it stops there. -/
theorem dropWhile_append_stop {α : Type} {p : α → Bool} {l rest : List α} (h : ∀ a ∈ l, p a = true)
    (hrest : ∀ a ∈ rest.head?, p a = false) : (l ++ rest).dropWhile p = rest := by
  rw [List.dropWhile_append_of_pos h]
  cases rest with
  | nil => simp
  | cons a rest => simp [hrest a (by simp)]

/-- `skipSpaces` skips a gap and stops where something else starts. -/
theorem skipSpaces_append {gap : List Char} (h : Blank gap) {c : Char} (hc : isSpace c = false)
    (rest : List Char) : skipSpaces (gap ++ c :: rest) = c :: rest :=
  dropWhile_append_stop h (by simpa using hc)

/-- `skipText?` skips a text that is there. -/
theorem skipText?_append (s : String) (rest : List Char) :
    skipText? s (s.toList ++ rest) = some rest := by
  have hprefix : s.toList.isPrefixOf (s.toList ++ rest) = true :=
    List.isPrefixOf_iff_prefix.mpr (List.prefix_append _ _)
  rw [skipText?, if_pos hprefix, ← String.length_toList, List.drop_left]

/-- `qname?` reads a name without a qualifier, up to where it ends. -/
theorem qname?_append (n : Name) {rest : List Char} (h : EndsName rest) :
    qname? (n.text.toList ++ rest) = some (⟨"", n.text⟩, rest) := by
  have htake := takeWhile_append_stop n.holds fun c hc => (h c hc).1
  have hdrop := dropWhile_append_stop n.holds fun c hc => (h c hc).1
  obtain ⟨c, cs, hn, hc⟩ := n.exists_cons
  have hpart : isPart n.text.toList = true := by rw [hn, isPart, hc]
  rw [qname?, htake, hdrop]
  split
  case h_1 heq => exact absurd rfl (h ':' (by simp)).2
  case h_2 => rw [if_pos hpart, String.ofList_toList]

/-! ## References -/

/-- The value of digits in a base, by `codePoint?.digit`. -/
def valueOf (base : Nat) (ds : List Char) : Nat :=
  ds.foldl (fun n c => n * base + codePoint?.digit c) 0

/-- One more digit at the end. -/
theorem valueOf_append (base : Nat) (ds : List Char) (c : Char) :
    valueOf base (ds ++ [c]) = valueOf base ds * base + codePoint?.digit c := by
  simp [valueOf]

/-- Leading zeros do not count. -/
theorem valueOf_zeros (base zeros : Nat) (ds : List Char) :
    valueOf base (List.replicate zeros '0' ++ ds) = valueOf base ds := by
  induction zeros with
  | zero => rfl
  | succ n ih =>
    have hzero : 0 * base + codePoint?.digit '0' = 0 := by
      rw [Nat.zero_mul]
      rfl
    rw [← ih, List.replicate_succ, List.cons_append, valueOf, List.foldl_cons, hzero, ← valueOf]

/-- `Nat.digitChar` writes a digit that is read as its value. -/
theorem digit_digitChar {d : Nat} (h : d < 16) :
    isHexDigit (Nat.digitChar d) = true ∧ codePoint?.digit (Nat.digitChar d) = d := by
  have hall : ∀ d ∈ List.range 16,
      isHexDigit (Nat.digitChar d) = true ∧ codePoint?.digit (Nat.digitChar d) = d := by decide
  exact hall d (List.mem_range.mpr h)

/-- Digits have their value in both cases. -/
theorem digit_of_toLower {c : Char} {d : Nat} (h : d < 16) (hc : c.toLower = Nat.digitChar d) :
    isHexDigit c = true ∧ codePoint?.digit c = d := by
  unfold Char.toLower at hc
  split at hc
  case isFalse =>
    rw [hc]
    exact digit_digitChar h
  case isTrue hupper =>
    have hle : c.val.toNat ≤ 90 := hupper.2
    have hge : 65 ≤ c.toNat := hupper.1
    have hnat : c.toNat + 32 = (Nat.digitChar d).toNat := by
      have hshift : ('a'.val - 'A'.val).toNat = 32 := by decide
      rw [← hc]
      simp only [Char.toNat, UInt32.toNat_add]
      omega
    have hall : ∀ d ∈ List.range 16, 97 ≤ (Nat.digitChar d).toNat →
        isHexDigit (Char.ofNat ((Nat.digitChar d).toNat - 32)) = true ∧
          codePoint?.digit (Char.ofNat ((Nat.digitChar d).toNat - 32)) = d := by decide
    have hd := hall d (List.mem_range.mpr h) (by omega)
    rwa [← hnat, Nat.add_sub_cancel, Char.ofNat_toNat] at hd

/-- The digits of a number are those of its quotient by the base, and the remainder. -/
theorem toDigits_eq_append {base n : Nat} (h : 1 < base) (hn : ¬ n < base) :
    Nat.toDigits base n = Nat.toDigits base (n / base) ++ [Nat.digitChar (n % base)] := by
  have hpos : 0 < n / base := Nat.div_pos (by omega) (by omega)
  have hmod : n % base < base := Nat.mod_lt _ (by omega)
  have happ := Nat.toDigits_append_toDigits h hpos hmod
  rw [Nat.div_add_mod, Nat.toDigits_of_lt_base hmod] at happ
  exact happ.symm

/-- `Nat.toDigits` writes digits of its base only. -/
theorem exists_of_mem_toDigits {base n : Nat} (h : 1 < base) {c : Char}
    (hc : c ∈ Nat.toDigits base n) : ∃ d, d < base ∧ c = Nat.digitChar d := by
  induction n using Nat.strongRecOn with
  | ind n ih =>
    by_cases hn : n < base
    · rw [Nat.toDigits_of_lt_base hn, List.mem_singleton] at hc
      exact ⟨n, hn, hc⟩
    · rw [toDigits_eq_append h hn, List.mem_append, List.mem_singleton] at hc
      rcases hc with hc | hc
      · exact ih _ (Nat.div_lt_self (by omega) h) hc
      · exact ⟨n % base, Nat.mod_lt _ (by omega), hc⟩

/-- A number is the value of its digits. -/
theorem valueOf_toDigits {base : Nat} (h : 1 < base) (h' : base ≤ 16) (n : Nat) :
    valueOf base (Nat.toDigits base n) = n := by
  induction n using Nat.strongRecOn with
  | ind n ih =>
    by_cases hn : n < base
    · have hdigit := (digit_digitChar (show n < 16 by omega)).2
      simp [Nat.toDigits_of_lt_base hn, valueOf, hdigit]
    · have hmod : n % base < base := Nat.mod_lt _ (by omega)
      rw [toDigits_eq_append h hn, valueOf_append, ih _ (Nat.div_lt_self (by omega) h),
        (digit_digitChar (by omega)).2, Nat.div_add_mod']

/-- Hexadecimal digits are read alike in both cases. -/
theorem digit_of_map_toLower {ds : List Char} {n : Nat}
    (h : ds.map Char.toLower = Nat.toDigits 16 n) {c : Char} (hc : c ∈ ds) :
    isHexDigit c = true ∧ codePoint?.digit c = codePoint?.digit c.toLower := by
  have hmem : c.toLower ∈ Nat.toDigits 16 n := by
    rw [← h]
    exact List.mem_map_of_mem hc
  obtain ⟨d, hd, hlower⟩ := exists_of_mem_toDigits (by decide) hmem
  rw [hlower, (digit_digitChar hd).2]
  exact digit_of_toLower hd hlower

/-- A number is the value of its hexadecimal digits in either case. -/
theorem valueOf_of_map_toLower {ds : List Char} {n : Nat}
    (h : ds.map Char.toLower = Nat.toDigits 16 n) : valueOf 16 ds = n := by
  have hvalue := valueOf_toDigits (by decide) (le_refl 16) n
  rw [← h, valueOf, List.foldl_map] at hvalue
  rw [← hvalue, valueOf]
  apply List.foldl_ext
  intro m c hc
  rw [(digit_of_map_toLower h hc).2]

/-- `codePoint?` reads all digits that are there, if their value fits 32 bits. -/
theorem codePoint?_append {base : Nat} {isDigit : Char → Bool} {ds rest : List Char}
    (hne : ds ≠ []) (hds : ∀ c ∈ ds, isDigit c = true) (hrest : ∀ c ∈ rest.head?, isDigit c = false)
    (hvalue : valueOf base ds < UInt32.size) :
    codePoint? base isDigit (ds ++ rest) = some (valueOf base ds, rest) := by
  have hempty : ds.isEmpty = false := by simpa using hne
  rw [codePoint?, takeWhile_append_stop hds hrest, dropWhile_append_stop hds hrest]
  rw [← valueOf, hempty, Bool.false_or, if_neg (by simpa using hvalue)]

/-- `charOf` is the inverse of `Char.toNat`. -/
theorem charOf_toNat (c : Char) : charOf c.toNat = c := by
  have hvalid : c.toNat.isValidChar := c.valid
  rw [charOf, if_pos hvalid, Char.ofNat_toNat]

/-- `codePoint?` reads the code point of a character up to the semicolon, with or without leading
zeros. -/
theorem codePoint?_numeral {base : Nat} {isDigit : Char → Bool} {digits : List Char} {c : Char}
    (hne : digits ≠ []) (hdigits : ∀ d ∈ digits, isDigit d = true) (hzero : isDigit '0' = true)
    (hstop : isDigit ';' = false) (hvalue : valueOf base digits = c.toNat) (zeros : Nat)
    (rest : List Char) :
    codePoint? base isDigit (List.replicate zeros '0' ++ (digits ++ ';' :: rest)) =
      some (c.toNat, ';' :: rest) := by
  have hds : ∀ d ∈ List.replicate zeros '0' ++ digits, isDigit d = true := by
    intro d hd
    rcases List.mem_append.mp hd with hd | hd
    · rw [List.eq_of_mem_replicate hd]
      exact hzero
    · exact hdigits d hd
  have hvalue' : valueOf base (List.replicate zeros '0' ++ digits) = c.toNat := by
    rw [valueOf_zeros, hvalue]
  have hrest : ∀ d ∈ (';' :: rest).head?, isDigit d = false := by simpa using hstop
  rw [← List.append_assoc, codePoint?_append (by simp [hne]) hds hrest, hvalue']
  rw [hvalue']
  exact c.val.toNat_lt

/-- A number sign starts a reference in decimal digits. -/
theorem reference?_decimal {c : Char} {cs rest : List Char} (hc : isXmlChar c = true)
    (h : codePoint? 10 Char.isDigit cs = some (c.toNat, ';' :: rest)) :
    reference? ('#' :: cs) = some (c, rest) := by
  unfold reference?
  split
  case h_1 heq =>
    -- no decimal digits start with the letter of hexadecimal ones
    obtain ⟨-, rfl⟩ := List.cons.inj heq
    cases h
  case h_2 heq =>
    obtain ⟨-, rfl⟩ := List.cons.inj heq
    simp [h, charOf_toNat, hc]
  case h_3 hne => exact absurd rfl (hne cs)

/-- A number sign and an x start a reference in hexadecimal digits. -/
theorem reference?_hexadecimal {c : Char} {cs rest : List Char} (hc : isXmlChar c = true)
    (h : codePoint? 16 isHexDigit cs = some (c.toNat, ';' :: rest)) :
    reference? ('#' :: 'x' :: cs) = some (c, rest) := by
  simp [reference?, h, charOf_toNat, hc]

/-- `reference?` reads a reference as what it refers to. -/
theorem reference?_append {c : Char} {v : List Char} (h : Refers c v) (hc : isXmlChar c = true)
    (rest : List Char) : reference? (v ++ rest) = some (c, rest) := by
  cases h with
  | named hmem =>
    simp only [predefined, List.mem_cons, Prod.mk.injEq, List.not_mem_nil, or_false] at hmem
    rcases hmem with ⟨rfl, rfl⟩ | ⟨rfl, rfl⟩ | ⟨rfl, rfl⟩ | ⟨rfl, rfl⟩ | ⟨rfl, rfl⟩
    all_goals rfl
  | decimal zeros =>
    have hvalue := valueOf_toDigits (show 1 < 10 by decide) (by decide) c.toNat
    have hdigits : ∀ d ∈ Nat.toDigits 10 c.toNat, d.isDigit = true := fun d hd =>
      Nat.isDigit_of_mem_toDigits (by decide) (by decide) hd
    have hcode :=
      codePoint?_numeral Nat.toDigits_ne_nil hdigits (by decide) (by decide) hvalue zeros rest
    simpa using reference?_decimal hc hcode
  | @hexadecimal zeros digits hlower =>
    have hne : digits ≠ [] := by
      rintro rfl
      exact Nat.toDigits_ne_nil hlower.symm
    have hdigits : ∀ d ∈ digits, isHexDigit d = true := fun d hd =>
      (digit_of_map_toLower hlower hd).1
    have hcode := codePoint?_numeral hne hdigits (by decide) (by decide)
      (valueOf_of_map_toLower hlower) zeros rest
    simpa using reference?_hexadecimal hc hcode

end Markup

open Markup

/-! ## Spellings -/

/-- The letters, digits and signs of references. -/
def isReferenceChar (c : Char) : Bool :=
  let n := c.toNat
  (65 ≤ n && n ≤ 90) || (97 ≤ n && n ≤ 122) || (48 ≤ n && n ≤ 57) || c = '#' || c = ';'

/-- `isReferenceChar` by code points. -/
theorem isReferenceChar_iff (c : Char) : isReferenceChar c = true ↔
    65 ≤ c.toNat ∧ c.toNat ≤ 90 ∨ 97 ≤ c.toNat ∧ c.toNat ≤ 122 ∨ 48 ≤ c.toNat ∧ c.toNat ≤ 57 ∨
      c = '#' ∨ c = ';' := by
  simp only [isReferenceChar, Bool.or_eq_true, Bool.and_eq_true, decide_eq_true_eq, or_assoc]

/-- What references are written with may stand in a document. -/
theorem isXmlChar_of_isReferenceChar {c : Char} (h : isReferenceChar c = true) :
    isXmlChar c = true := by
  have hbounds : 0x20 ≤ c.toNat ∧ c.toNat < 0xFFFE := by
    rcases (isReferenceChar_iff c).mp h with h | h | h | rfl | rfl
    · omega
    · omega
    · omega
    · decide
    · decide
  simp only [isXmlChar, Bool.and_eq_true, Bool.or_eq_true, decide_eq_true_eq]
  omega

/-- Decimal digits are among the characters of references. -/
theorem isReferenceChar_of_isDigit {c : Char} (h : c.isDigit = true) : isReferenceChar c = true := by
  simp only [Char.isDigit, Bool.and_eq_true, decide_eq_true_eq, ge_iff_le,
    UInt32.le_iff_toNat_le] at h
  have hge : 48 ≤ c.toNat := h.1
  have hle : c.toNat ≤ 57 := h.2
  exact (isReferenceChar_iff c).mpr (by omega)

/-- So are hexadecimal digits. -/
theorem isReferenceChar_of_isHexDigit {c : Char} (h : isHexDigit c = true) :
    isReferenceChar c = true := by
  simp only [isHexDigit, Bool.or_eq_true, Bool.and_eq_true, decide_eq_true_eq] at h
  rcases h with (h | ⟨hge, hle⟩) | ⟨hge, hle⟩
  · exact isReferenceChar_of_isDigit h
  · have hge' : 97 ≤ c.toNat := hge
    have hle' : c.toNat ≤ 102 := hle
    exact (isReferenceChar_iff c).mpr (by omega)
  · have hge' : 65 ≤ c.toNat := hge
    have hle' : c.toNat ≤ 70 := hle
    exact (isReferenceChar_iff c).mpr (by omega)

/-- A reference is written with the characters of references. -/
theorem Refers.isReferenceChar_of_mem {c d : Char} {v : List Char} (h : Refers c v) (hd : d ∈ v) :
    isReferenceChar d = true := by
  cases h with
  | named hmem =>
    simp only [predefined, List.mem_cons, Prod.mk.injEq, List.not_mem_nil, or_false] at hmem
    rcases hmem with ⟨rfl, rfl⟩ | ⟨rfl, rfl⟩ | ⟨rfl, rfl⟩ | ⟨rfl, rfl⟩ | ⟨rfl, rfl⟩
    all_goals exact List.all_eq_true.mp (show List.all _ isReferenceChar = true by decide) d hd
  | decimal zeros =>
    simp only [List.mem_cons, List.mem_append, List.mem_replicate, List.not_mem_nil, or_false] at hd
    rcases hd with rfl | ⟨-, rfl⟩ | hd | rfl
    · decide
    · decide
    · exact isReferenceChar_of_isDigit (Nat.isDigit_of_mem_toDigits (by decide) (by decide) hd)
    · decide
  | hexadecimal zeros hlower =>
    simp only [List.mem_cons, List.mem_append, List.mem_replicate, List.not_mem_nil, or_false] at hd
    rcases hd with rfl | rfl | ⟨-, rfl⟩ | hd | rfl
    · decide
    · decide
    · decide
    · exact isReferenceChar_of_isHexDigit (digit_of_map_toLower hlower hd).1
    · decide

/-- A spelling holds ampersands, references and characters that are not reserved. -/
theorem Spelled.cases_of_mem {reserved : Char → Bool} {cs w : List Char} (h : Spelled reserved cs w)
    {d : Char} (hd : d ∈ w) :
    d = '&' ∨ isReferenceChar d = true ∨ d ∈ cs ∧ reserved d = false := by
  induction h with
  | nil => cases hd
  | plain hc _ ih =>
    rcases List.mem_cons.mp hd with rfl | hd
    · exact .inr (.inr ⟨List.mem_cons_self, hc⟩)
    · exact (ih hd).imp_right (.imp_right fun h => ⟨List.mem_cons_of_mem _ h.1, h.2⟩)
  | referred hv _ ih =>
    rcases List.mem_cons.mp hd with rfl | hd
    · exact .inl rfl
    rcases List.mem_append.mp hd with hd | hd
    · exact .inr (.inl (hv.isReferenceChar_of_mem hd))
    · exact (ih hd).imp_right (.imp_right fun h => ⟨List.mem_cons_of_mem _ h.1, h.2⟩)

/-- A reserved character that references do not hold either is not in a spelling. -/
theorem Spelled.not_mem {reserved : Char → Bool} {cs w : List Char} (h : Spelled reserved cs w)
    {d : Char} (hd : reserved d = true) (hamp : d ≠ '&') (href : isReferenceChar d = false) :
    d ∉ w := by
  intro hmem
  rcases h.cases_of_mem hmem with hd' | hd' | ⟨-, hd'⟩
  · exact hamp hd'
  · simp [href] at hd'
  · simp [hd] at hd'

/-- A spelling of what a document may hold may stand in a document. -/
theorem Spelled.isXmlChar_of_mem {reserved : Char → Bool} {cs w : List Char}
    (h : Spelled reserved cs w) (hcs : ∀ c ∈ cs, isXmlChar c = true) {d : Char} (hd : d ∈ w) :
    isXmlChar d = true := by
  rcases h.cases_of_mem hd with rfl | hd | ⟨hd, -⟩
  · decide
  · exact isXmlChar_of_isReferenceChar hd
  · exact hcs d hd

/-- The character that a piece stands for. -/
def Markup.Piece.char : Piece → Char
  | .literal c => c
  | .referred c => c

/-- `pieces?` of a spelling stand for what is spelled, and those that are literal are not
`reserved`. -/
theorem Spelled.exists_pieces {reserved : Char → Bool} {cs w : List Char} (h : Spelled reserved cs w)
    (hamp : reserved '&' = true) (hcs : ∀ c ∈ cs, isXmlChar c = true) {fuel : Nat}
    (hfuel : w.length ≤ fuel) :
    ∃ ps, pieces? fuel w = some ps ∧ ps.map Piece.char = cs ∧
      ∀ c, .literal c ∈ ps → reserved c = false := by
  induction h generalizing fuel with
  | nil => exact ⟨[], by rw [pieces?], rfl, by simp⟩
  | @plain c cs w hc _ ih =>
    obtain ⟨fuel, rfl⟩ : ∃ n, fuel = n + 1 := ⟨fuel - 1, by simp at hfuel; omega⟩
    obtain ⟨ps, hps, hchars, hplain⟩ := @ih
      (fun d hd => hcs d (List.mem_cons_of_mem _ hd)) fuel (by simpa using hfuel)
    have hne : c ≠ '&' := by
      rintro rfl
      simp [hamp] at hc
    refine ⟨.literal c :: ps, ?_, by rw [List.map_cons, hchars, Piece.char], ?_⟩
    · rw [pieces?, hps, Option.map_some]
      exact hne
    · intro d hd
      rcases List.mem_cons.mp hd with hd | hd
      · cases hd
        exact hc
      · exact hplain d hd
  | @referred c cs v w hv _ ih =>
    obtain ⟨fuel, rfl⟩ : ∃ n, fuel = n + 1 := ⟨fuel - 1, by simp at hfuel; omega⟩
    obtain ⟨ps, hps, hchars, hplain⟩ := @ih
      (fun d hd => hcs d (List.mem_cons_of_mem _ hd)) fuel (by simp at hfuel; omega)
    refine ⟨.referred c :: ps, ?_, by rw [List.map_cons, hchars, Piece.char], ?_⟩
    · rw [pieces?, reference?_append hv (hcs c List.mem_cons_self)]
      simp [hps]
    · intro d hd
      rcases List.mem_cons.mp hd with hd | hd
      · cases hd
      · exact hplain d hd

namespace Markup

/-- `lineEnds` leaves everything as it is where no carriage return is written. -/
theorem lineEnds_eq {ps : List Piece} (h : .literal '\r' ∉ ps) (b : Bool) :
    lineEnds b ps = ps.map Piece.char := by
  fun_induction lineEnds b ps with
  | _ => simp_all [Piece.char]

/-- `flatten` leaves a value as it is where only spaces are written as white space. -/
theorem flatten_eq {ps : List Piece}
    (h : ∀ c, .literal c ∈ ps → c ≠ '\t' ∧ c ≠ '\n' ∧ c ≠ '\r') : flatten ps = ps.map Piece.char := by
  fun_induction flatten ps with
  | case1 => rfl
  | case2 c rest ih =>
    rw [List.map_cons, Piece.char, ih fun d hd => h d (List.mem_cons_of_mem _ hd)]
  | case3 rest ih => exact absurd rfl (h '\r' List.mem_cons_self).2.2
  | case4 c rest _ ih =>
    obtain ⟨htab, hfeed, hreturn⟩ := h c List.mem_cons_self
    have hc : (if isSpace c then ' ' else c) = c := by
      simp [isSpace, htab, hfeed, hreturn, eq_comm]
    rw [List.map_cons, Piece.char, hc, ih fun d hd => h d (List.mem_cons_of_mem _ hd)]

/-- `occurs` decides whether a part stands somewhere in a text. -/
theorem occurs_iff {part cs : List Char} : occurs part cs = true ↔ part <:+: cs := by
  induction cs with
  | nil => simp [occurs]
  | cons c cs ih => rw [occurs, Bool.or_eq_true, ih, List.isPrefixOf_iff_prefix, List.infix_cons_iff]

end Markup

/-- `attributeValue?` of a spelling is what is spelled. -/
theorem Spelled.attributeValue?_eq {quote : Char} {cs w : List Char}
    (h : Spelled (isReservedInValue quote) cs w) (hcs : ∀ c ∈ cs, isXmlChar c = true) :
    attributeValue? w = some (String.ofList cs) := by
  obtain ⟨ps, hps, hchars, hplain⟩ := h.exists_pieces (by simp [isReservedInValue]) hcs le_rfl
  have hflat : flatten ps = cs := by
    rw [← hchars]
    apply flatten_eq
    intro c hc
    have hfree := hplain c hc
    simp only [isReservedInValue, Bool.or_eq_false_iff, decide_eq_false_iff_not] at hfree
    tauto
  rw [attributeValue?, hps, Option.map_some, hflat]

/-- `textValue?` of a spelling is what is spelled. -/
theorem Spelled.textValue?_eq {cs w : List Char} (h : Spelled isReservedInText cs w)
    (hcs : ∀ c ∈ cs, isXmlChar c = true) : textValue? w = some (String.ofList cs) := by
  obtain ⟨ps, hps, hchars, hplain⟩ := h.exists_pieces (by decide) hcs le_rfl
  have hends : lineEnds false ps = cs := by
    rw [← hchars]
    apply lineEnds_eq
    intro hc
    exact absurd (hplain _ hc) (by decide)
  have hopen : ¬ occurs [']', ']', '>'] w = true := by
    intro hocc
    have hmem : '>' ∈ w := (occurs_iff.mp hocc).subset (by simp)
    exact h.not_mem (by decide) (by decide) (by decide) hmem
  rw [textValue?, if_neg hopen, hps, Option.map_some, hends]

end Dbgp.Xml
