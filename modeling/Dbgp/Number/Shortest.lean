import Dbgp.Number.Binary64

/-!
# Shortest decimals

`Binary64.shortest` is the decimal of a double with the fewest digits among those that round back to
it, and of these the one nearest to it. `search` goes through one, two, … seventeen digits; on each
grid only the two neighbours of the value can be the answer, since the values that round back form an
interval around it.
-/

namespace Dbgp.Number

/-- The decimal `0.d₁d₂…dₙ * 10 ^ point`, by its digits and the place of its point. -/
structure Decimal where
  digits : List Char
  point : Int
  deriving DecidableEq, Repr

namespace Shortest

/-- The values that round to a positive double: those between `low / den` and `high / den`, the
ends included when the significand is even. `value / den` is the double itself. -/
structure Interval where
  low : Nat
  value : Nat
  high : Nat
  den : Nat
  closed : Bool

/-- The `Interval` of a positive finite double. The gap below a power of two is half as wide as the
one above it. -/
def interval (x : Binary64) : Interval :=
  let p := x.parts
  let m := p.significand
  let below := if m = Nat.pow 2 52 ∧ -1074 < p.exponent then 1 else 2
  let e := p.exponent - 2
  let up := if 0 ≤ e then Nat.pow 2 e.toNat else 1
  let den := if 0 ≤ e then 1 else Nat.pow 2 (-e).toNat
  { low := (4 * m - below) * up, value := 4 * m * up, high := (4 * m + 2) * up, den,
    closed := m % 2 == 0 }

/-- Whether `num / den` lies in the interval. -/
def Interval.contains (i : Interval) (num den : Nat) : Bool :=
  let (l, v, h) := (i.low * den, num * i.den, i.high * den)
  if i.closed then l ≤ v && v ≤ h else l < v && v < h

/-- The least `k` with `value < 10 ^ k`, searched upward from `k` for at most `fuel` steps. -/
def pointFrom (i : Interval) : (fuel : Nat) → (k : Int) → Int
  | 0, k => k
  | fuel + 1, k =>
    let fits :=
      if 0 ≤ k then i.value < i.den * Nat.pow 10 k.toNat
      else i.value * Nat.pow 10 (-k).toNat < i.den
    if fits then k else pointFrom i fuel (k + 1)

/-- `c * 10 ^ e` as a fraction. -/
def gridValue (c : Nat) (e : Int) : Nat × Nat :=
  if 0 ≤ e then (c * Nat.pow 10 e.toNat, 1) else (c, Nat.pow 10 (-e).toNat)

/-- The answer on the grid of multiples of `10 ^ e`, if there is one: of two neighbours in the
interval the nearer, and the even one at equal distance. -/
def onGrid (i : Interval) (e : Int) : Option Nat :=
  let c :=
    if 0 ≤ e then i.value / (i.den * Nat.pow 10 e.toNat)
    else i.value * Nat.pow 10 (-e).toNat / i.den
  let hit (k : Nat) : Bool :=
    let (n, d) := gridValue k e
    i.contains n d
  match hit c, hit (c + 1) with
  | true, true =>
    let (n, d) := gridValue c e
    let (n', d') := gridValue (c + 1) e
    let down := (i.value * d - n * i.den) * d'
    let up := (n' * i.den - i.value * d') * d
    if down < up then some c else if up < down then some (c + 1)
    else if c % 2 = 0 then some c else some (c + 1)
  | true, false => some c
  | false, true => some (c + 1)
  | false, false => none

/-- The first grid with an answer by `onGrid`, from `n` digits on. -/
def search (i : Interval) (point : Int) : (fuel n : Nat) → Decimal
  | 0, _ => ⟨['0'], 0⟩
  | fuel + 1, n =>
    match onGrid i (point - n) with
    | some c =>
      let cs := Nat.toDigits 10 c
      ⟨cs, point - n + cs.length⟩
    | none => search i point fuel (n + 1)

/-- Removes zeros at the end of the `digits`. -/
def strip (d : Decimal) : Decimal :=
  { d with digits := (d.digits.reverse.dropWhile (· == '0')).reverse }

end Shortest

open Shortest in
/-- The shortest decimal that rounds to the absolute value of a finite double, found by `search`. -/
def Binary64.shortest (x : Binary64) : Decimal :=
  if x.isZero then ⟨['0'], 1⟩
  else
    let i := interval x
    strip (search i (pointFrom i 640 (-324)) 18 1)

/-- Digits with a point at `point`, zeros filled in, and at least one digit on each side. -/
def Decimal.positional (d : Decimal) : List Char :=
  if d.point ≤ 0 then '0' :: '.' :: (List.replicate (-d.point).toNat '0' ++ d.digits)
  else
    let p := d.point.toNat
    if d.digits.length ≤ p then
      d.digits ++ List.replicate (p - d.digits.length) '0' ++ ['.', '0']
    else d.digits.take p ++ '.' :: d.digits.drop p

/-- Positional notation of a finite double, by `Decimal.positional`: every digit written out, and
always a point. -/
def Binary64.positional (x : Binary64) : String :=
  String.ofList ((if x.isNegative then ['-'] else []) ++ x.shortest.positional)

/-- The `digits` with an exponent: a point after the first digit if there are more. -/
def Decimal.scientific (d : Decimal) : List Char :=
  let e := d.point - 1
  let mark := 'e' :: ((if e < 0 then ['-'] else []) ++ Nat.toDigits 10 e.natAbs)
  match d.digits with
  | [] => '0' :: mark
  | [c] => c :: mark
  | c :: cs => c :: '.' :: (cs ++ mark)

/-- The written form of a finite double in JSON: `positional` while the point lies in or near the
digits, otherwise `scientific`. -/
def Binary64.write (x : Binary64) : String :=
  let d := x.shortest
  let body := if -5 < d.point ∧ d.point ≤ 16 then d.positional else d.scientific
  String.ofList ((if x.isNegative then ['-'] else []) ++ body)

end Dbgp.Number
