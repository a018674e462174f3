import Dbgp.Json.Value

/-!
# Numbers in JSON text

`number` reads an integer that fits sixty-four bits exactly. Any other number becomes a double:
`gather` gathers the digits into a word of sixty-four bits, those that no longer fit are dropped, and
`scaleDecimal` scales the word by one power of ten. The scaling rounds, so the double is close to the
written number without always being the nearest one.
-/

namespace Dbgp.Json

open Number

/-- Digits gathered into a `word`: the word, and how many digits at the end did not fit. -/
def gather (word : Nat) : List Char → Nat × Nat
  | [] => (word, 0)
  | c :: cs =>
    let next := word * 10 + (c.toNat - 48)
    if next < Nat.pow 2 64 then gather next cs else (word, cs.length + 1)

/-- The double `10 ^ n`, for `n` at most 308. -/
def powerOfTen (n : Nat) : Option Binary64 :=
  Binary64.nearest? (Nat.pow 10 n) 1

/-- Scales a double by a power of ten: in steps of 308 places while the power is below all doubles,
then by one multiplication or division. Nothing when the result would be infinite. -/
def scaleDecimal (f : Binary64) (exponent : Int) : (fuel : Nat) → Option Binary64
  | 0 => some .zero
  | fuel + 1 =>
    if exponent.natAbs ≤ 308 then
      if 0 ≤ exponent then (powerOfTen exponent.toNat).bind f.mul?
      else (powerOfTen (-exponent).toNat).bind f.div?
    else if f.isZero then some f
    else if 0 ≤ exponent then none
    else ((powerOfTen 308).bind f.div?).bind fun g => scaleDecimal g (exponent + 308) fuel

/-- The double of a `word` and a decimal `exponent`, by `scaleDecimal`. -/
def doubleOf (negative : Bool) (word : Nat) (exponent : Int) : Option Json := do
  let f ← Binary64.nearest? word 1
  let g ← scaleDecimal f exponent 4
  return .double (if negative then g.neg else g)

/-- The `int` of a word, or a `double` when it is a negative zero or does not fit. -/
def integerOf (negative : Bool) (word : Nat) : Option Json :=
  if !negative then some (.int word)
  else if word = 0 ∨ Nat.pow 2 63 < word then doubleOf true word 0
  else some (.int (-(word : Int)))

/-- Splits leading digits from the rest, by `Char.isDigit`. -/
def spanDigits (cs : List Char) : List Char × List Char :=
  (cs.takeWhile Char.isDigit, cs.dropWhile Char.isDigit)

/-- Reads an exponent, after its mark, of a number with the `word` and the `exponent` so far. -/
def exponentTail (negative : Bool) (word : Nat) (exponent : Int) (cs : List Char) :
    Option (Json × List Char) :=
  let (down, cs) := match cs with
    | '+' :: rest => (false, rest)
    | '-' :: rest => (true, rest)
    | _ => (false, cs)
  match spanDigits cs with
  | ([], _) => none
  | (ds, rest) =>
    let e := Nat.ofDigitChars 10 ds 0
    if Nat.pow 2 31 ≤ e then
      if word ≠ 0 ∧ !down then none else (doubleOf negative 0 0).map (·, rest)
    else
      (doubleOf negative word (if down then exponent - e else exponent + e)).map (·, rest)

/-- Reads what may follow the digits of a number with a fraction: an exponent, by `exponentTail`, or
nothing. -/
def doubleTail (negative : Bool) (word : Nat) (exponent : Int) (cs : List Char) :
    Option (Json × List Char) :=
  match cs with
  | 'e' :: rest => exponentTail negative word exponent rest
  | 'E' :: rest => exponentTail negative word exponent rest
  | _ => (doubleOf negative word exponent).map (·, cs)

/-- Reads a number after its sign: an integer by `integerOf` unless it has a fraction, an exponent or
too many digits. -/
def number (negative : Bool) (cs : List Char) : Option (Json × List Char) :=
  match spanDigits cs with
  | ([], _) => none
  | (d :: ds, rest) =>
    if d = '0' ∧ ds ≠ [] then none
    else
      let (word, dropped) := gather 0 (d :: ds)
      match rest with
      | '.' :: rest' =>
        match spanDigits rest' with
        | ([], _) => none
        | (fs, rest'') =>
          let (word', lost) := gather word fs
          doubleTail negative word' ((dropped : Int) - (fs.length - lost : Nat)) rest''
      | 'e' :: rest' => exponentTail negative word dropped rest'
      | 'E' :: rest' => exponentTail negative word dropped rest'
      | _ =>
        if dropped = 0 then (integerOf negative word).map (·, rest)
        else (doubleOf negative word dropped).map (·, rest)

end Dbgp.Json
