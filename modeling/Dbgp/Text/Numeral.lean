/-!
# Decimal numerals

Reading and writing of decimal integers. A numeral is one or more ASCII digits after an optional plus
sign, as `nat?` reads it; a signed numeral, for `int?`, may have a minus sign instead. Leading zeros
are fine, anything else is not a numeral.
-/

namespace Dbgp.Text.Numeral

/-- The value of one or more digits, and `none` for any other list. -/
def digits? (cs : List Char) : Option Nat :=
  if cs ≠ [] ∧ cs.all Char.isDigit then some (Nat.ofDigitChars 10 cs 0) else none

/-- An unsigned numeral of any size: `digits?` after an optional plus sign. -/
def nat? : List Char → Option Nat
  | '+' :: cs => digits? cs
  | cs => digits? cs

/-- A signed numeral of any size; without a minus sign it is read by `nat?`. -/
def int? : List Char → Option Int
  | '-' :: cs => (digits? cs).map fun n => -(n : Int)
  | cs => (nat? cs).map fun n => (n : Int)

/-- An unsigned numeral below `bound`, read by `nat?`. -/
def below? (bound : Nat) (cs : List Char) : Option Nat :=
  (nat? cs).filter (· < bound)

/-- A numeral that fits `UInt32`. -/
def word32? (cs : List Char) : Option UInt32 :=
  (below? UInt32.size cs).map UInt32.ofNat

/-- A numeral that fits `UInt64`. -/
def word64? (cs : List Char) : Option UInt64 :=
  (below? UInt64.size cs).map UInt64.ofNat

/-- A signed numeral that fits `Int32`. -/
def signed32? (cs : List Char) : Option Int32 :=
  ((int? cs).filter fun n => -2147483648 ≤ n ∧ n < 2147483648).map Int32.ofInt

/-- The numeral of a number, which `nat?` reads back. -/
def write (n : Nat) : String :=
  n.repr

/-- The numeral of an integer, which `int?` reads back. -/
def writeInt (n : Int) : String :=
  if n < 0 then "-" ++ n.natAbs.repr else n.natAbs.repr

/-- The numeral of a number, with zeros in front up to the `width`. -/
def writeWidth (width n : Nat) : String :=
  let cs := Nat.toDigits 10 n
  String.ofList (List.replicate (width - cs.length) '0' ++ cs)

end Dbgp.Text.Numeral
