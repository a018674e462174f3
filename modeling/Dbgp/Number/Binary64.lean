/-!
# Binary floating point

Double precision numbers by their bits, with the one rounding that everything else needs: `nearest?`
is the double nearest to a positive fraction, ties to the even significand. All arithmetic is exact on
natural numbers, so products and quotients of doubles are computed by rounding the exact result once.
-/

namespace Dbgp.Number

/-- A double precision number, given by its `bits`: sign, eleven bits of exponent, fifty-two bits of
fraction. -/
structure Binary64 where
  bits : UInt64
  deriving DecidableEq, Repr, Inhabited

namespace Binary64

/-- A nonnegative finite number as `significand * 2 ^ exponent`. -/
structure Parts where
  significand : Nat
  exponent : Int
  deriving DecidableEq, Repr

/-- The `bits` without the sign. -/
def magnitudeBits (x : Binary64) : Nat :=
  x.bits.toNat % Nat.pow 2 63

/-- Whether the sign bit is set, which it is for a negative zero as well; see `isZero`. -/
def isNegative (x : Binary64) : Bool :=
  Nat.pow 2 63 ≤ x.bits.toNat

/-- The `magnitudeBits` of infinity. -/
def infiniteBits : Nat :=
  2047 * Nat.pow 2 52

/-- Whether the number is finite, that is, below `infiniteBits`. -/
def isFinite (x : Binary64) : Bool :=
  x.magnitudeBits < infiniteBits

/-- Whether the number is zero, of either sign: no bit is set in `magnitudeBits`. -/
def isZero (x : Binary64) : Bool :=
  x.magnitudeBits == 0

/-- The absolute value of a finite number, as `Parts`. -/
def parts (x : Binary64) : Parts :=
  let field : Nat := x.magnitudeBits / Nat.pow 2 52
  let fraction : Nat := x.magnitudeBits % Nat.pow 2 52
  if field = 0 then ⟨fraction, -1074⟩ else ⟨Nat.pow 2 52 + fraction, (field : Int) - 1075⟩

/-- The number with the given `magnitudeBits` and sign. -/
def ofMagnitude (negative : Bool) (bits : Nat) : Binary64 :=
  ⟨UInt64.ofNat (if negative then Nat.pow 2 63 + bits else bits)⟩

/-- The number with its sign changed, as `isNegative` shows it. -/
def neg (x : Binary64) : Binary64 :=
  ofMagnitude (!x.isNegative) x.magnitudeBits

/-- `num / den * 2 ^ (-e)` as a fraction. -/
def scaled (num den : Nat) (e : Int) : Nat × Nat :=
  if 0 ≤ e then (num, den * Nat.pow 2 e.toNat) else (num * Nat.pow 2 (-e).toNat, den)

/-- The quotient `num / den` rounded to the nearest integer, ties to even. -/
def roundHalfEven (num den : Nat) : Nat :=
  let q := num / den
  let r := num % den
  if 2 * r > den ∨ (2 * r = den ∧ q % 2 = 1) then q + 1 else q

/-- The magnitude bits of the double nearest to `num / den`, for a positive denominator. A value
too large for any double has bits at or above those of infinity. -/
def nearestBits (num den : Nat) : Nat :=
  if num = 0 then 0
  else
    let guess : Int := (num.log2 : Int) - (den.log2 : Int) - 52
    let (n, d) := scaled num den guess
    let fitted := if n / d < Nat.pow 2 52 then guess - 1 else guess
    let e := max fitted (-1074)
    let (n, d) := scaled num den e
    (e + 1074).toNat * Nat.pow 2 52 + roundHalfEven n d

/-- The double nearest to `num / den`, or nothing when it would be infinite. -/
def nearest? (num den : Nat) : Option Binary64 :=
  let bits := nearestBits num den
  if bits < infiniteBits then some (ofMagnitude false bits) else none

/-- A nonnegative finite number as an exact fraction: `parts` multiplied out. -/
def fraction (x : Binary64) : Nat × Nat :=
  let p := x.parts
  if 0 ≤ p.exponent then (p.significand * Nat.pow 2 p.exponent.toNat, 1)
  else (p.significand, Nat.pow 2 (-p.exponent).toNat)

/-- The product of two nonnegative finite numbers, rounded once by `nearest?`, if it is finite. -/
def mul? (x y : Binary64) : Option Binary64 :=
  let (a, b) := x.fraction
  let (c, d) := y.fraction
  nearest? (a * c) (b * d)

/-- The quotient of two nonnegative finite numbers, rounded once by `nearest?`, if it is finite; the
divisor is not zero. -/
def div? (x y : Binary64) : Option Binary64 :=
  let (a, b) := x.fraction
  let (c, d) := y.fraction
  nearest? (a * d) (b * c)

/-- Zero, with no bit set; `isZero` holds of it. -/
def zero : Binary64 := ⟨0⟩

end Binary64

end Dbgp.Number
