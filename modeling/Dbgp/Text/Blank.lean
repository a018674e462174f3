/-!
# White space

Two classes of white space and trimming by a class. `isBlank` is the Unicode property White_Space;
`isPadding` is the smaller set that may surround a length field.
-/

namespace Dbgp.Text

/-- The Unicode property `White_Space`. -/
def isBlank (c : Char) : Bool :=
  let n := c.toNat
  (9 ≤ n && n ≤ 13) || n == 0x20 || n == 0x85 || n == 0xA0 || n == 0x1680 ||
    (0x2000 ≤ n && n ≤ 0x200A) || n == 0x2028 || n == 0x2029 || n == 0x202F || n == 0x205F ||
    n == 0x3000

/-- What may surround a length field: space, tab, line feed, form feed, carriage return and NUL. -/
def isPadding (c : Char) : Bool :=
  let n := c.toNat
  n == 0x20 || n == 9 || n == 10 || n == 12 || n == 13 || n == 0

/-- Removes characters of the class `p` at both ends. -/
def trimChars (p : Char → Bool) (cs : List Char) : List Char :=
  ((cs.dropWhile p).reverse.dropWhile p).reverse

/-- Removes white space at both ends, by `isBlank`. -/
def trim (s : String) : String :=
  String.ofList (trimChars isBlank s.toList)

/-- Removes white space everywhere, by `isBlank`. -/
def compact (cs : List Char) : List Char :=
  cs.filter (fun c => !isBlank c)

end Dbgp.Text
