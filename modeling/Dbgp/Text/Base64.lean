import Dbgp.Text.Blank
import Dbgp.Text.Utf8

/-!
# Base64

The standard alphabet with padding. Three octets make four symbols of six bits; one or two octets
left over make a last group filled up with `=`. Reading removes white space, then accepts exactly
what writing produces: padding is required, and the unused bits of a last symbol are zero. What it
rejects it explains by the first of a fixed list of causes, with offsets into the text without
white space.
-/

namespace Dbgp.Text.Base64

/-! ## Symbols -/

/-- The symbol of a value below 64; `value?` goes back. -/
def symbol (v : Nat) : UInt8 :=
  if v < 26 then UInt8.ofNat (65 + v)
  else if v < 52 then UInt8.ofNat (97 + (v - 26))
  else if v < 62 then UInt8.ofNat (48 + (v - 52))
  else if v = 62 then 43
  else 47

/-- The value of a symbol, if it is one; `pad` is none. -/
def value? (b : UInt8) : Option Nat :=
  if 65 ≤ b ∧ b ≤ 90 then some (b.toNat - 65)
  else if 97 ≤ b ∧ b ≤ 122 then some (b.toNat - 97 + 26)
  else if 48 ≤ b ∧ b ≤ 57 then some (b.toNat - 48 + 52)
  else if b = 43 then some 62
  else if b = 47 then some 63
  else none

/-- The octet of the padding sign `=`. -/
def pad : UInt8 := 61

/-! ## Writing -/

/-- The symbols of a list of octets, with `pad` up to a multiple of four. -/
def encodeOctets : List UInt8 → List UInt8
  | [] => []
  | [a] => [symbol (a.toNat / 4), symbol (a.toNat % 4 * 16), pad, pad]
  | [a, b] =>
    [symbol (a.toNat / 4), symbol (a.toNat % 4 * 16 + b.toNat / 16), symbol (b.toNat % 16 * 4), pad]
  | a :: b :: c :: rest =>
    symbol (a.toNat / 4) :: symbol (a.toNat % 4 * 16 + b.toNat / 16) ::
      symbol (b.toNat % 16 * 4 + c.toNat / 64) :: symbol (c.toNat % 64) :: encodeOctets rest

/-- The written form of a list of octets: `encodeOctets` as text. -/
def encode (bs : List UInt8) : String :=
  String.ofList ((encodeOctets bs).map fun b => Char.ofNat b.toNat)

/-! ## Reading -/

/-- Why a text is not the written form of any octets; `decode` reports the first of the causes that it
meets. -/
inductive Fault where
  | symbol (byte : UInt8) (offset : Nat)
  | length (n : Nat)
  | padding
  | lastSymbol (byte : UInt8) (offset : Nat)
  deriving DecidableEq, Repr

/-- The description of a fault, as `ProtocolFault.message` has it. -/
def Fault.message : Fault → String
  | .symbol b o => s!"Invalid symbol {b.toNat}, offset {o}."
  | .length n => s!"Invalid input length: {n}"
  | .padding => "Invalid padding"
  | .lastSymbol b o => s!"Invalid last symbol {b.toNat}, offset {o}."

/-- The value of the symbol at an `offset`, or the fault there. -/
def valueAt (offset : Nat) (b : UInt8) : Except Fault Nat :=
  match value? b with
  | some v => .ok v
  | none => .error (.symbol b offset)

/-- The symbols of a last group, read from left to right: their values, the last symbol, and the
number of padding signs after them. `firstPad` is the offset of the first padding sign met. -/
def tailSymbols (start : Nat) :
    (position : Nat) → (firstPad : Option Nat) → List UInt8 → Except Fault (List (Nat × UInt8) × Nat)
  | _, _, [] => .ok ([], 0)
  | position, firstPad, b :: rest =>
    if b = pad then
      if position < 2 then .error (.symbol pad (start + position))
      else do
        let (vs, pads) ← tailSymbols start (position + 1) (firstPad.or (some (start + position))) rest
        return (vs, pads + 1)
    else
      match firstPad with
      | some offset => .error (.symbol pad offset)
      | none => do
        let v ← valueAt (start + position) b
        let (vs, pads) ← tailSymbols start (position + 1) none rest
        return ((v, b) :: vs, pads)

/-- The octets of a last group, from what `tailSymbols` finds in it: at least two symbols, padding up
to four signs, and no bits left over. -/
def tail (start : Nat) (bs : List UInt8) : Except Fault (List UInt8) := do
  let (vs, pads) ← tailSymbols start 0 none bs
  let leftover (v : Nat × UInt8) (unit : Nat) (out : List UInt8) : Except Fault (List UInt8) :=
    if v.1 % unit = 0 then .ok out
    else .error (.lastSymbol v.2 (start + vs.length - 1))
  if vs.length < 2 then .error (.length (start + vs.length))
  else if (vs.length + pads) % 4 ≠ 0 then .error .padding
  else match vs with
    | [a, b] => leftover b 16 [UInt8.ofNat (a.1 * 4 + b.1 / 16)]
    | [a, b, c] =>
      leftover c 4 [UInt8.ofNat (a.1 * 4 + b.1 / 16), UInt8.ofNat (b.1 % 16 * 16 + c.1 / 4)]
    | [a, b, c, d] =>
      .ok [UInt8.ofNat (a.1 * 4 + b.1 / 16), UInt8.ofNat (b.1 % 16 * 16 + c.1 / 4),
        UInt8.ofNat (c.1 % 4 * 64 + d.1)]
    | _ => .error .padding

/-- Reads whole groups of four symbols, then the last group by `tail`. -/
def groups (start : Nat) : List UInt8 → Except Fault (List UInt8)
  | a :: b :: c :: d :: e :: rest => do
    let x ← valueAt start a
    let y ← valueAt (start + 1) b
    let z ← valueAt (start + 2) c
    let w ← valueAt (start + 3) d
    let more ← groups (start + 4) (e :: rest)
    return UInt8.ofNat (x * 4 + y / 16) :: UInt8.ofNat (y % 16 * 16 + z / 4) ::
      UInt8.ofNat (z % 4 * 64 + w) :: more
  | [] => .ok []
  | last => tail start last

/-- A single octet past the last whole group is reported before anything else when it can be
neither symbol nor padding. -/
def strayOctet? (bs : List UInt8) : Option Fault :=
  if bs.length % 4 = 1 then
    match bs.getLast? with
    | some b =>
      if b = pad ∨ (value? b).isSome then none else some (.symbol b (bs.length - 1))
    | none => none
  else none

/-- Reads octets from symbols: `strayOctet?`, then `groups`. -/
def decodeOctets (bs : List UInt8) : Except Fault (List UInt8) :=
  match strayOctet? bs with
  | some fault => .error fault
  | none => groups 0 bs

/-- Reads octets from a text by `decodeOctets`, white space aside. -/
def decode (s : String) : Except Fault (List UInt8) :=
  decodeOctets (Utf8.encodeChars (compact s.toList))

end Dbgp.Text.Base64
