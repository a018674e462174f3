/-!
# UTF-8

Octets and characters. Writing is per character; reading is driven by one function, `scan`, that
looks at a lead octet and at what follows it and either finds a character, or a maximal invalid
prefix, or runs out of input inside a sequence that was valid so far. Strict reading (`decode`)
stops at the first fault and says where it is; lenient reading (`lossy`) puts one replacement
character in the place of every fault. Both use `scan`, so they agree on what a fault is.
-/

namespace Dbgp.Text.Utf8

/-- The octets of a list of characters, each by `String.utf8EncodeChar`. -/
def encodeChars (cs : List Char) : List UInt8 :=
  cs.flatMap String.utf8EncodeChar

/-- The octets of a text, by `encodeChars`. -/
def encode (s : String) : List UInt8 :=
  encodeChars s.toList

/-- The character `U+FFFD`, which stands for what could not be read. -/
def replacement : Char := Char.ofNat 0xFFFD

/-! ## One sequence -/

/-- Lead octets: how many octets `follow`, and the range of the first of these. The range excludes
overlong forms, surrogates and values past the last code point. -/
inductive Lead where
  | single
  | follow (count : Nat) (low high : UInt8)
  | invalid
  deriving DecidableEq

/-- The class of a lead octet; after one that is `invalid` nothing is looked at. -/
def lead (b : UInt8) : Lead :=
  if b ≤ 0x7F then .single
  else if b < 0xC2 then .invalid
  else if b ≤ 0xDF then .follow 1 0x80 0xBF
  else if b = 0xE0 then .follow 2 0xA0 0xBF
  else if b = 0xED then .follow 2 0x80 0x9F
  else if b ≤ 0xEF then .follow 2 0x80 0xBF
  else if b = 0xF0 then .follow 3 0x90 0xBF
  else if b ≤ 0xF3 then .follow 3 0x80 0xBF
  else if b = 0xF4 then .follow 3 0x80 0x8F
  else .invalid

/-- The bits a lead octet contributes when `count` octets follow it. -/
def leadBits (count : Nat) (b : UInt8) : Nat :=
  match count with
  | 1 => b.toNat % 32
  | 2 => b.toNat % 16
  | _ => b.toNat % 8

/-- What stands at the head of the input after its lead octet. `used` is how many octets after the
lead belong to it. -/
inductive Scan where
  | char (c : Char) (used : Nat)
  | fault (used : Nat)
  | cut
  deriving DecidableEq

/-- Reads the remaining `count` octets of a sequence whose value so far is `value`, of which `used`
octets after the lead have been read. -/
def scanTail : (count : Nat) → (value used : Nat) → List UInt8 → Scan
  | 0, value, used, _ => .char (Char.ofNat value) used
  | _ + 1, _, _, [] => .cut
  | count + 1, value, used, b :: rest =>
    if 0x80 ≤ b ∧ b ≤ 0xBF then scanTail count (value * 64 + b.toNat % 64) (used + 1) rest
    else .fault used

/-- Reads the sequence that begins with the octet `b` and goes on with `rest`. -/
def scan (b : UInt8) (rest : List UInt8) : Scan :=
  match lead b with
  | .single => .char (Char.ofNat b.toNat) 0
  | .invalid => .fault 0
  | .follow count low high =>
    match rest with
    | [] => .cut
    | c :: rest' =>
      if low ≤ c ∧ c ≤ high then
        scanTail (count - 1) (leadBits count b * 64 + c.toNat % 64) 1 rest'
      else .fault 0

/-! ## Whole inputs -/

/-- Reads every octet by `scan`; each maximal invalid prefix, and a sequence cut short by the end,
gives one `replacement`. -/
def lossyChars : List UInt8 → List Char
  | [] => []
  | b :: rest =>
    match scan b rest with
    | .char c used => c :: lossyChars (rest.drop used)
    | .fault used => replacement :: lossyChars (rest.drop used)
    | .cut => [replacement]
termination_by bs => bs.length
decreasing_by all_goals (simp only [List.length_drop, List.length_cons]; omega)

/-- The lenient reading of octets as text, by `lossyChars`. -/
def lossy (bs : List UInt8) : String :=
  String.ofList (lossyChars bs)

/-- Where strict reading failed: the `index` of the faulty sequence and its `size`, or no size when
the input ends inside a sequence that was valid so far. -/
structure Fault where
  index : Nat
  size : Option Nat
  deriving DecidableEq, Repr

/-- The description of a fault, as `ProtocolFault.message` has it. -/
def Fault.message (f : Fault) : String :=
  match f.size with
  | some n => s!"invalid utf-8 sequence of {n} bytes from index {f.index}"
  | none => s!"incomplete utf-8 byte sequence from index {f.index}"

/-- Strict reading of the octets that begin at `index`. -/
def decodeFrom (index : Nat) : List UInt8 → Except Fault (List Char)
  | [] => .ok []
  | b :: rest =>
    match scan b rest with
    | .char c used => (decodeFrom (index + 1 + used) (rest.drop used)).map (c :: ·)
    | .fault used => .error ⟨index, some (used + 1)⟩
    | .cut => .error ⟨index, none⟩
termination_by bs => bs.length
decreasing_by all_goals (simp only [List.length_drop, List.length_cons]; omega)

/-- Strict reading: the characters, or the first `Fault`. -/
def decode (bs : List UInt8) : Except Fault (List Char) :=
  decodeFrom 0 bs

end Dbgp.Text.Utf8
