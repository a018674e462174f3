import Dbgp.Text.Utf8
import Mathlib.Algebra.Ring.Nat
import Mathlib.Tactic.SplitIfs
import Mathlib.Tactic.ByContra

/-!
# Reading back what was written in UTF-8

`scan` recognises each written character and consumes exactly its octets, so strict reading undoes
writing. It recognises nothing else, so writing undoes strict reading where that succeeds. An ASCII
octet stands only for its own character, which is why a stream of octets can be cut at it.
-/

namespace Dbgp.Text.Utf8

/-! ## Octets as numbers -/

/-- `lead` by the number of its octet. -/
theorem lead_eq (b : UInt8) : lead b =
    if b.toNat ≤ 0x7F then .single
    else if b.toNat < 0xC2 then .invalid
    else if b.toNat ≤ 0xDF then .follow 1 0x80 0xBF
    else if b.toNat = 0xE0 then .follow 2 0xA0 0xBF
    else if b.toNat = 0xED then .follow 2 0x80 0x9F
    else if b.toNat ≤ 0xEF then .follow 2 0x80 0xBF
    else if b.toNat = 0xF0 then .follow 3 0x90 0xBF
    else if b.toNat ≤ 0xF3 then .follow 3 0x80 0xBF
    else if b.toNat = 0xF4 then .follow 3 0x80 0x8F
    else .invalid := by
  simp only [lead, UInt8.le_iff_toNat_le, UInt8.lt_iff_toNat_lt, ← UInt8.toNat_inj]
  rfl

/-- The number of an octet that `UInt8.ofNat` made from a small one. -/
theorem toNat_octet {n : Nat} (h : n < 256) : (UInt8.ofNat n).toNat = n :=
  UInt8.toNat_ofNat_of_lt' h

/-! ## One character -/

/-- A further octet contributes its six bits to `scanTail`. -/
theorem scanTail_octet {count value used m : Nat} {rest : List UInt8} (hm : m < 64) :
    scanTail (count + 1) value used (UInt8.ofNat (m + 0x80) :: rest)
      = scanTail count (value * 64 + m) (used + 1) rest := by
  have hb : (UInt8.ofNat (m + 0x80)).toNat = m + 0x80 := toNat_octet (by omega)
  have hmod : (m + 0x80) % 64 = m := by omega
  rw [scanTail, if_pos, hb, hmod]
  simp only [UInt8.le_iff_toNat_le, hb, UInt8.reduceToNat]
  omega

/-- `scan` of the octet after the lead, when it is in the range that the lead asks for. -/
theorem scan_follow {b low high : UInt8} {count m : Nat} {rest : List UInt8}
    (hlead : lead b = .follow (count + 1) low high) (hm : m < 64)
    (hlow : low.toNat ≤ m + 0x80) (hhigh : m + 0x80 ≤ high.toNat) :
    scan b (UInt8.ofNat (m + 0x80) :: rest)
      = scanTail count (leadBits (count + 1) b * 64 + m) 1 rest := by
  have hb : (UInt8.ofNat (m + 0x80)).toNat = m + 0x80 := toNat_octet (by omega)
  have hmod : (m + 0x80) % 64 = m := by omega
  rw [scan, hlead]
  simp only [UInt8.le_iff_toNat_le, hb, hmod, hlow, hhigh, and_self, if_true, Nat.add_sub_cancel]

/-- The `lead` of three octets allows the octet that follows it: surrogates are no characters. -/
theorem lead_three {v : Nat} (hlow : 0x7FF < v) (hhigh : v ≤ 0xFFFF)
    (hv : v < 0xD800 ∨ 0xDFFF < v) :
    ∃ low high : UInt8, lead (UInt8.ofNat (v / 4096 % 16 + 0xE0)) = .follow 2 low high ∧
      low.toNat ≤ v / 64 % 64 + 0x80 ∧ v / 64 % 64 + 0x80 ≤ high.toNat := by
  have hb : (UInt8.ofNat (v / 4096 % 16 + 0xE0)).toNat = v / 4096 % 16 + 0xE0 :=
    toNat_octet (by omega)
  rw [lead_eq, hb, if_neg (by omega), if_neg (by omega), if_neg (by omega)]
  by_cases h0 : v / 4096 % 16 + 0xE0 = 0xE0
  · refine ⟨_, _, if_pos h0, ?_, ?_⟩ <;> simp only [UInt8.reduceToNat] <;> omega
  rw [if_neg h0]
  by_cases hD : v / 4096 % 16 + 0xE0 = 0xED
  · refine ⟨_, _, if_pos hD, ?_, ?_⟩ <;> simp only [UInt8.reduceToNat] <;> omega
  rw [if_neg hD]
  refine ⟨_, _, if_pos (by omega), ?_, ?_⟩ <;> simp only [UInt8.reduceToNat] <;> omega

/-- The `lead` of four octets allows the octet that follows it. -/
theorem lead_four {v : Nat} (hlow : 0xFFFF < v) (hhigh : v < 0x110000) :
    ∃ low high : UInt8, lead (UInt8.ofNat (v / 262144 % 8 + 0xF0)) = .follow 3 low high ∧
      low.toNat ≤ v / 4096 % 64 + 0x80 ∧ v / 4096 % 64 + 0x80 ≤ high.toNat := by
  have hb : (UInt8.ofNat (v / 262144 % 8 + 0xF0)).toNat = v / 262144 % 8 + 0xF0 :=
    toNat_octet (by omega)
  rw [lead_eq, hb, if_neg (by omega), if_neg (by omega), if_neg (by omega), if_neg (by omega),
    if_neg (by omega), if_neg (by omega)]
  by_cases h0 : v / 262144 % 8 + 0xF0 = 0xF0
  · refine ⟨_, _, if_pos h0, ?_, ?_⟩ <;> simp only [UInt8.reduceToNat] <;> omega
  rw [if_neg h0]
  by_cases h3 : v / 262144 % 8 + 0xF0 ≤ 0xF3
  · refine ⟨_, _, if_pos h3, ?_, ?_⟩ <;> simp only [UInt8.reduceToNat] <;> omega
  rw [if_neg h3]
  refine ⟨_, _, if_pos (by omega), ?_, ?_⟩ <;> simp only [UInt8.reduceToNat] <;> omega

/-- `scan` reads a written character back, and touches nothing after it. -/
theorem scan_encodeChar (c : Char) (rest : List UInt8) :
    ∃ b bs, String.utf8EncodeChar c = b :: bs ∧ scan b (bs ++ rest) = .char c bs.length := by
  have hc : Char.ofNat c.val.toNat = c := Char.ofNat_toNat c
  have hrange : c.val.toNat < 0xD800 ∨ 0xDFFF < c.val.toNat ∧ c.val.toNat < 0x110000 := c.valid
  generalize hv : c.val.toNat = v at hc hrange
  by_cases h1 : v ≤ 0x7F
  · have hb : (UInt8.ofNat v).toNat = v := toNat_octet (by omega)
    refine ⟨UInt8.ofNat v, [], by rw [String.utf8EncodeChar, hv, if_pos h1], ?_⟩
    rw [scan, lead_eq, hb, if_pos h1]
    simp only [hc, List.length_nil]
  by_cases h2 : v ≤ 0x7FF
  · have hb : (UInt8.ofNat (v / 64 % 32 + 0xC0)).toNat = v / 64 % 32 + 0xC0 :=
      toNat_octet (by omega)
    have hlead : lead (UInt8.ofNat (v / 64 % 32 + 0xC0)) = .follow 1 0x80 0xBF := by
      rw [lead_eq, hb, if_neg (by omega), if_neg (by omega), if_pos (by omega)]
    have hvalue : (v / 64 % 32 + 0xC0) % 32 * 64 + v % 64 = v := by omega
    refine ⟨_, _, by rw [String.utf8EncodeChar, hv, if_neg h1, if_pos h2], ?_⟩
    rw [List.cons_append, scan_follow hlead (by omega) (by simp) (by simp; omega)]
    simp only [scanTail, leadBits, hb, hvalue, hc, List.length_cons, List.length_nil]
  by_cases h3 : v ≤ 0xFFFF
  · have hb : (UInt8.ofNat (v / 4096 % 16 + 0xE0)).toNat = v / 4096 % 16 + 0xE0 :=
      toNat_octet (by omega)
    obtain ⟨low, high, hlead, hlow, hhigh⟩ := lead_three (by omega) h3 (by omega)
    have hvalue : ((v / 4096 % 16 + 0xE0) % 16 * 64 + v / 64 % 64) * 64 + v % 64 = v := by omega
    refine ⟨_, _, by rw [String.utf8EncodeChar, hv, if_neg h1, if_neg h2, if_pos h3], ?_⟩
    rw [List.cons_append, List.cons_append, scan_follow hlead (by omega) hlow hhigh,
      scanTail_octet (by omega)]
    simp only [scanTail, leadBits, hb, hvalue, hc, List.length_cons, List.length_nil]
  · have hb : (UInt8.ofNat (v / 262144 % 8 + 0xF0)).toNat = v / 262144 % 8 + 0xF0 :=
      toNat_octet (by omega)
    obtain ⟨low, high, hlead, hlow, hhigh⟩ := lead_four (v := v) (by omega) (by omega)
    have hvalue : (((v / 262144 % 8 + 0xF0) % 8 * 64 + v / 4096 % 64) * 64 + v / 64 % 64) * 64
        + v % 64 = v := by omega
    refine ⟨_, _, by rw [String.utf8EncodeChar, hv, if_neg h1, if_neg h2, if_neg h3], ?_⟩
    rw [List.cons_append, List.cons_append, List.cons_append,
      scan_follow hlead (by omega) hlow hhigh, scanTail_octet (by omega), scanTail_octet (by omega)]
    simp only [scanTail, leadBits, hb, hvalue, hc, List.length_cons, List.length_nil]

/-! ## Texts -/

@[simp] theorem encodeChars_nil : encodeChars [] = [] := rfl

@[simp] theorem encodeChars_cons (c : Char) (cs : List Char) :
    encodeChars (c :: cs) = String.utf8EncodeChar c ++ encodeChars cs := rfl

@[simp] theorem encodeChars_append (cs ds : List Char) :
    encodeChars (cs ++ ds) = encodeChars cs ++ encodeChars ds := by
  rw [encodeChars, List.flatMap_append, encodeChars, encodeChars]

/-- Strict reading by `decodeFrom` undoes `encodeChars`, wherever in the input it begins. -/
theorem decodeFrom_encodeChars (cs : List Char) (index : Nat) :
    decodeFrom index (encodeChars cs) = .ok cs := by
  induction cs generalizing index with
  | nil => rw [encodeChars_nil, decodeFrom]
  | cons c cs ih =>
    obtain ⟨b, bs, hbs, hscan⟩ := scan_encodeChar c (encodeChars cs)
    rw [encodeChars_cons, hbs, List.cons_append, decodeFrom, hscan]
    simp only [List.drop_left, ih]
    rfl

/-- Strict reading by `decode` undoes `encodeChars`. -/
theorem decode_encodeChars (cs : List Char) : decode (encodeChars cs) = .ok cs :=
  decodeFrom_encodeChars cs 0

/-- Lenient reading by `lossyChars` undoes `encodeChars`. -/
theorem lossyChars_encodeChars (cs : List Char) : lossyChars (encodeChars cs) = cs := by
  induction cs with
  | nil => rw [encodeChars_nil, lossyChars]
  | cons c cs ih =>
    obtain ⟨b, bs, hbs, hscan⟩ := scan_encodeChar c (encodeChars cs)
    rw [encodeChars_cons, hbs, List.cons_append, lossyChars, hscan]
    simp only [List.drop_left, ih]

/-- Lenient reading by `lossy` undoes `encode`. -/
theorem lossy_encode (s : String) : lossy (encode s) = s := by
  rw [lossy, encode, lossyChars_encodeChars, String.ofList_toList]

/-- Characters of one octet are written one by one by `encodeChars`. -/
theorem length_encodeChars {cs : List Char} (h : ∀ c ∈ cs, c.val ≤ 0x7F) :
    (encodeChars cs).length = cs.length := by
  induction cs with
  | nil => rfl
  | cons c cs ih =>
    rw [List.forall_mem_cons] at h
    have hsize : c.utf8Size = 1 := Char.utf8Size_eq_one_iff.mpr h.1
    rw [encodeChars_cons, List.length_append, String.length_utf8EncodeChar, hsize, ih h.2,
      List.length_cons, Nat.add_comm]

/-! ## Only what is written is read

Overlong forms, surrogates and values past the last code point are refused, so a character is read only
from the octets it is written with.
-/

theorem val_ofNat {v : Nat} (h : v < 0xD800 ∨ 0xDFFF < v ∧ v < 0x110000) :
    (Char.ofNat v).val.toNat = v := by
  rw [Char.ofNat, dif_pos h]
  rfl

/-- An octet is known by its number `toNat`. -/
theorem ofNat_eq {n : Nat} {b : UInt8} (h : n = b.toNat) : UInt8.ofNat n = b := by
  rw [h, UInt8.ofNat_toNat]

/-- The octets that can stand after a `Lead`. -/
def IsFollowing (b : UInt8) : Prop :=
  0x80 ≤ b.toNat ∧ b.toNat ≤ 0xBF

section Sequences

variable {b d e f : UInt8} {v : Nat}

/-- The octets of a character whose lead is `single`. -/
theorem encodeChar_one (h : b.toNat ≤ 0x7F) : String.utf8EncodeChar (Char.ofNat b.toNat) = [b] := by
  rw [String.utf8EncodeChar, val_ofNat (.inl (by omega)), if_pos h, UInt8.ofNat_toNat]

/-- The octets of a character with one octet that `IsFollowing`. -/
theorem encodeChar_two (hb : 0xC2 ≤ b.toNat) (hb' : b.toNat ≤ 0xDF) (hd : IsFollowing d)
    (hv : v = b.toNat % 32 * 64 + d.toNat % 64) :
    String.utf8EncodeChar (Char.ofNat v) = [b, d] := by
  obtain ⟨hd, hd'⟩ := hd
  rw [String.utf8EncodeChar, val_ofNat (.inl (by omega)), if_neg (by omega), if_pos (by omega),
    ofNat_eq (b := b) (by omega), ofNat_eq (b := d) (by omega)]

/-- The octets of a character with two octets that are `IsFollowing`. -/
theorem encodeChar_three (hb : 0xE0 ≤ b.toNat) (hb' : b.toNat ≤ 0xEF) (hd : IsFollowing d)
    (he : IsFollowing e) (hv : v = (b.toNat % 16 * 64 + d.toNat % 64) * 64 + e.toNat % 64)
    (hlow : 0x7FF < v) (hvalid : v < 0xD800 ∨ 0xDFFF < v) :
    String.utf8EncodeChar (Char.ofNat v) = [b, d, e] := by
  obtain ⟨hd, hd'⟩ := hd
  obtain ⟨he, he'⟩ := he
  rw [String.utf8EncodeChar, val_ofNat (by omega), if_neg (by omega), if_neg (by omega),
    if_pos (by omega), ofNat_eq (b := b) (by omega), ofNat_eq (b := d) (by omega),
    ofNat_eq (b := e) (by omega)]

/-- The octets of a character with three octets that are `IsFollowing`. -/
theorem encodeChar_four (hb : 0xF0 ≤ b.toNat) (hb' : b.toNat ≤ 0xF4) (hd : IsFollowing d)
    (he : IsFollowing e) (hf : IsFollowing f)
    (hv : v = ((b.toNat % 8 * 64 + d.toNat % 64) * 64 + e.toNat % 64) * 64 + f.toNat % 64)
    (hlow : 0xFFFF < v) (hhigh : v < 0x110000) :
    String.utf8EncodeChar (Char.ofNat v) = [b, d, e, f] := by
  obtain ⟨hd, hd'⟩ := hd
  obtain ⟨he, he'⟩ := he
  obtain ⟨hf, hf'⟩ := hf
  rw [String.utf8EncodeChar, val_ofNat (by omega), if_neg (by omega), if_neg (by omega),
    if_neg (by omega), ofNat_eq (b := b) (by omega), ofNat_eq (b := d) (by omega),
    ofNat_eq (b := e) (by omega), ofNat_eq (b := f) (by omega)]

/-- The table of `lead`, by how many octets follow. -/
inductive LeadRow (b : UInt8) : Lead → Prop
  | single : b.toNat ≤ 0x7F → LeadRow b .single
  | one : 0xC2 ≤ b.toNat → b.toNat ≤ 0xDF → LeadRow b (.follow 1 0x80 0xBF)
  | two {low high : UInt8} : 0xE0 ≤ b.toNat → b.toNat ≤ 0xEF → 0x80 ≤ low.toNat →
      high.toNat ≤ 0xBF → (b.toNat = 0xE0 → low.toNat = 0xA0) →
      (b.toNat = 0xED → high.toNat = 0x9F) → LeadRow b (.follow 2 low high)
  | three {low high : UInt8} : 0xF0 ≤ b.toNat → b.toNat ≤ 0xF4 → 0x80 ≤ low.toNat →
      high.toNat ≤ 0xBF → (b.toNat = 0xF0 → low.toNat = 0x90) →
      (b.toNat = 0xF4 → high.toNat = 0x8F) → LeadRow b (.follow 3 low high)
  | invalid : LeadRow b .invalid

/-- `LeadRow` is the table of `lead`. -/
theorem leadRow (b : UInt8) : LeadRow b (lead b) := by
  rw [lead_eq]
  by_cases h1 : b.toNat ≤ 0x7F
  · exact if_pos h1 ▸ .single h1
  rw [if_neg h1]
  by_cases h2 : b.toNat < 0xC2
  · exact if_pos h2 ▸ .invalid
  rw [if_neg h2]
  by_cases h3 : b.toNat ≤ 0xDF
  · exact if_pos h3 ▸ .one (by omega) h3
  rw [if_neg h3]
  by_cases h4 : b.toNat = 0xE0
  · exact if_pos h4 ▸ .two (by omega) (by omega) (by decide) (by decide) (fun _ => rfl) (by omega)
  rw [if_neg h4]
  by_cases h5 : b.toNat = 0xED
  · exact if_pos h5 ▸ .two (by omega) (by omega) (by decide) (by decide) (by omega) (fun _ => rfl)
  rw [if_neg h5]
  by_cases h6 : b.toNat ≤ 0xEF
  · exact if_pos h6 ▸ .two (by omega) (by omega) (by decide) (by decide) (by omega) (by omega)
  rw [if_neg h6]
  by_cases h7 : b.toNat = 0xF0
  · exact if_pos h7 ▸ .three (by omega) (by omega) (by decide) (by decide) (fun _ => rfl) (by omega)
  rw [if_neg h7]
  by_cases h8 : b.toNat ≤ 0xF3
  · exact if_pos h8 ▸ .three (by omega) (by omega) (by decide) (by decide) (by omega) (by omega)
  rw [if_neg h8]
  by_cases h9 : b.toNat = 0xF4
  · exact if_pos h9 ▸ .three (by omega) (by omega) (by decide) (by decide) (by omega) (fun _ => rfl)
  · exact if_neg h9 ▸ .invalid

/-- What `scanTail` reads begins with an octet that `IsFollowing`. -/
theorem scanTail_succ {count value used used' : Nat} {rest : List UInt8} {c : Char}
    (h : scanTail (count + 1) value used rest = .char c used') :
    ∃ b rest', rest = b :: rest' ∧ IsFollowing b ∧
      scanTail count (value * 64 + b.toNat % 64) (used + 1) rest' = .char c used' := by
  cases rest with
  | nil => cases h
  | cons b rest =>
    rw [scanTail] at h
    split at h
    · next hb =>
      rw [UInt8.le_iff_toNat_le, UInt8.le_iff_toNat_le] at hb
      exact ⟨b, rest, rfl, hb, h⟩
    · cases h

/-- What `scan` reads after a lead begins with an octet in the range that the lead asks for. -/
theorem scan_eq_char {low high : UInt8} {count used : Nat} {rest : List UInt8} {c : Char}
    (hlead : lead b = .follow count low high) (h : scan b rest = .char c used) :
    ∃ d rest', rest = d :: rest' ∧ low.toNat ≤ d.toNat ∧ d.toNat ≤ high.toNat ∧
      scanTail (count - 1) (leadBits count b * 64 + d.toNat % 64) 1 rest' = .char c used := by
  cases rest with
  | nil =>
    rw [scan, hlead] at h
    cases h
  | cons d rest =>
    rw [scan, hlead] at h
    simp only at h
    split at h
    · next hd =>
      rw [UInt8.le_iff_toNat_le, UInt8.le_iff_toNat_le] at hd
      exact ⟨d, rest, rfl, hd.1, hd.2, h⟩
    · cases h

/-- `scan` reads a character from the octets it is written with. -/
theorem encodeChar_of_scan {rest : List UInt8} {c : Char} {used : Nat}
    (h : scan b rest = .char c used) : String.utf8EncodeChar c = b :: rest.take used := by
  have hrow := leadRow b
  cases hlead : lead b with
  | single =>
    rw [hlead] at hrow
    rw [scan, hlead] at h
    cases h
    cases hrow with
    | single hb => exact encodeChar_one hb
  | invalid =>
    rw [scan, hlead] at h
    cases h
  | follow count low high =>
    rw [hlead] at hrow
    obtain ⟨d, rest, rfl, hlow, hhigh, h⟩ := scan_eq_char hlead h
    cases hrow with
    | one hb hb' =>
      cases h
      exact encodeChar_two hb hb' ⟨hlow, hhigh⟩ rfl
    | two hb hb' hlow' hhigh' hfirst hlast =>
      obtain ⟨e, rest, rfl, he, h⟩ := scanTail_succ h
      cases h
      refine encodeChar_three hb hb' ⟨by omega, by omega⟩ he rfl ?_ ?_
      · simp only [leadBits]
        omega
      · simp only [leadBits]
        omega
    | three hb hb' hlow' hhigh' hfirst hlast =>
      obtain ⟨e, rest, rfl, he, h⟩ := scanTail_succ h
      obtain ⟨f, rest, rfl, hf, h⟩ := scanTail_succ h
      cases h
      refine encodeChar_four hb hb' ⟨by omega, by omega⟩ he hf rfl ?_ ?_
      · simp only [leadBits]
        omega
      · simp only [leadBits]
        omega

end Sequences

/-- `encodeChars` undoes strict reading by `decodeFrom`. -/
theorem encodeChars_of_decodeFrom {bs : List UInt8} {cs : List Char} {index : Nat}
    (h : decodeFrom index bs = .ok cs) : encodeChars cs = bs := by
  fun_induction decodeFrom index bs generalizing cs with
  | case1 =>
    cases h
    rfl
  | case2 index b rest c used hscan ih =>
    cases hrest : decodeFrom (index + 1 + used) (rest.drop used) with
    | error => cases hrest ▸ h
    | ok cs =>
      cases hrest ▸ h
      rw [encodeChars_cons, encodeChar_of_scan hscan, ih hrest, List.cons_append,
        List.take_append_drop]
  | case3 | case4 => cases h

/-- `encodeChars` undoes strict reading by `decode`. -/
theorem encodeChars_of_decode {bs : List UInt8} {cs : List Char} (h : decode bs = .ok cs) :
    encodeChars cs = bs :=
  encodeChars_of_decodeFrom h

/-- Different texts are written differently by `encodeChars`. -/
theorem encodeChars_inj {cs ds : List Char} (h : encodeChars cs = encodeChars ds) : cs = ds := by
  have hread := decode_encodeChars cs
  rw [h, decode_encodeChars ds] at hread
  exact (Except.ok.inj hread).symm

/-! ## ASCII -/

/-- An ASCII octet is written for its own character only, by `String.utf8EncodeChar`. -/
theorem mem_encodeChar {c : Char} {a : UInt8} (ha : a.toNat ≤ 0x7F) :
    a ∈ String.utf8EncodeChar c ↔ c = Char.ofNat a.toNat := by
  constructor
  · intro h
    have hlarge : ∀ {n : Nat}, 0x7F < n → n < 256 → a ≠ UInt8.ofNat n := by
      rintro n hn hn' rfl
      rw [toNat_octet hn'] at ha
      omega
    rw [String.utf8EncodeChar] at h
    split_ifs at h <;> simp only [List.mem_cons, List.not_mem_nil, or_false] at h
    · rw [h, toNat_octet (by omega)]
      exact (Char.ofNat_toNat c).symm
    · rcases h with h | h <;> exact absurd h (hlarge (by omega) (by omega))
    · rcases h with h | h | h <;> exact absurd h (hlarge (by omega) (by omega))
    · rcases h with h | h | h | h <;> exact absurd h (hlarge (by omega) (by omega))
  · rintro rfl
    rw [encodeChar_one ha]
    exact List.mem_singleton_self a

/-- An ASCII octet is in what `encodeChars` writes exactly if its character is in the text. -/
theorem mem_encodeChars {cs : List Char} {a : UInt8} (ha : a.toNat ≤ 0x7F) :
    a ∈ encodeChars cs ↔ Char.ofNat a.toNat ∈ cs := by
  rw [encodeChars, List.mem_flatMap]
  constructor
  · rintro ⟨c, hc, hmem⟩
    exact (mem_encodeChar ha).mp hmem ▸ hc
  · intro h
    exact ⟨_, h, (mem_encodeChar ha).mpr rfl⟩

/-- `encodeChars` writes a NUL octet exactly for a text with a NUL character. -/
theorem zero_mem_encodeChars {cs : List Char} : 0 ∈ encodeChars cs ↔ '\x00' ∈ cs :=
  mem_encodeChars (by decide)

end Dbgp.Text.Utf8
