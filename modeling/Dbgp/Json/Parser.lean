import Dbgp.Json.Numeral

/-!
# Reading JSON

`parse?` reads one value and nothing else but white space around it. Lists and objects may nest 127
deep. Control characters in a text are refused, and so are escapes for half of a surrogate pair.
-/

namespace Dbgp.Json

/-- White space between the signs of a JSON text, which `skip` drops. -/
def isSpace (c : Char) : Bool :=
  c = ' ' || c = '\n' || c = '\t' || c = '\r'

/-- Drops leading white space, as `isSpace` has it. -/
def skip (cs : List Char) : List Char :=
  cs.dropWhile isSpace

/-- The value of a hexadecimal digit, as `hex4?` reads it. -/
def hexValue? (c : Char) : Option Nat :=
  if '0' ≤ c ∧ c ≤ '9' then some (c.toNat - 48)
  else if 'a' ≤ c ∧ c ≤ 'f' then some (c.toNat - 87)
  else if 'A' ≤ c ∧ c ≤ 'F' then some (c.toNat - 55)
  else none

/-- The value of four hexadecimal digits, as they stand after `\u`. -/
def hex4? (a b c d : Char) : Option Nat := do
  let x ← hexValue? a
  let y ← hexValue? b
  let z ← hexValue? c
  let w ← hexValue? d
  return ((x * 16 + y) * 16 + z) * 16 + w

/-- The character of an escape with one sign after the backslash, such as `\n`. -/
def simpleEscape? (c : Char) : Option Char :=
  match c with
  | '"' => some '"'
  | '\\' => some '\\'
  | '/' => some '/'
  | 'b' => some (Char.ofNat 8)
  | 'f' => some (Char.ofNat 12)
  | 'n' => some '\n'
  | 'r' => some '\r'
  | 't' => some '\t'
  | _ => none

/-- Puts a character in front of the text that `textTail` read after it. -/
def consChar (c : Char) (r : Option (List Char × List Char)) : Option (List Char × List Char) :=
  r.map fun p => (c :: p.1, p.2)

/-- Reads a text after its opening quote: the characters and what follows the closing quote. -/
def textTail : List Char → Option (List Char × List Char)
  | [] => none
  | '"' :: rest => some ([], rest)
  | '\\' :: 'u' :: a :: b :: c :: d :: rest =>
    match hex4? a b c d with
    | none => none
    | some n =>
      if 0xD800 ≤ n ∧ n ≤ 0xDBFF then
        match rest with
        | '\\' :: 'u' :: e :: f :: g :: h :: rest' =>
          match hex4? e f g h with
          | some m =>
            if 0xDC00 ≤ m ∧ m ≤ 0xDFFF then
              consChar (Char.ofNat (0x10000 + (n - 0xD800) * 0x400 + (m - 0xDC00))) (textTail rest')
            else none
          | none => none
        | _ => none
      else if 0xDC00 ≤ n ∧ n ≤ 0xDFFF then none
      else consChar (Char.ofNat n) (textTail rest)
  | '\\' :: c :: rest =>
    match simpleEscape? c with
    | some e => consChar e (textTail rest)
    | none => none
  | c :: rest => if c.toNat < 32 ∨ c = '\\' then none else consChar c (textTail rest)

/-- Reads a text after its opening quote, by `textTail`. -/
def text (cs : List Char) : Option (String × List Char) :=
  (textTail cs).map fun p => (String.ofList p.1, p.2)

/-- Reads a fixed word `w`, which stands for the value `v`. -/
def word (w : String) (v : Json) (cs : List Char) : Option (Json × List Char) :=
  if w.toList.isPrefixOf cs then some (v, cs.drop w.length) else none

mutual

/-- Reads a value, with at most `depth - 1` lists and objects around its parts; `fuel` bounds the
recursion. -/
def value : (fuel depth : Nat) → List Char → Option (Json × List Char)
  | 0, _, _ => none
  | fuel + 1, depth, cs =>
    match skip cs with
    | '"' :: rest => (text rest).map fun p => (.str p.1, p.2)
    | '[' :: rest =>
      if depth ≤ 1 then none
      else match skip rest with
        | ']' :: rest' => some (.arr [], rest')
        | rest' => (items fuel (depth - 1) rest').map fun p => (.arr p.1, p.2)
    | '{' :: rest =>
      if depth ≤ 1 then none
      else match skip rest with
        | '}' :: rest' => some (.obj [], rest')
        | rest' => (members fuel (depth - 1) rest').map fun p => (object p.1, p.2)
    | 'n' :: rest => word "ull" .null rest
    | 't' :: rest => word "rue" (.bool true) rest
    | 'f' :: rest => word "alse" (.bool false) rest
    | '-' :: rest => number true rest
    | cs => number false cs

/-- Reads the items of an `arr`, after its opening bracket, when it has any. -/
def items : (fuel depth : Nat) → List Char → Option (List Json × List Char)
  | 0, _, _ => none
  | fuel + 1, depth, cs => do
    let (v, rest) ← value fuel depth cs
    match skip rest with
    | ',' :: rest' => (items fuel depth rest').map fun p => (v :: p.1, p.2)
    | ']' :: rest' => some ([v], rest')
    | _ => none

/-- Reads the members of an `obj`, after its opening brace, when it has any. -/
def members : (fuel depth : Nat) → List Char → Option (List (String × Json) × List Char)
  | 0, _, _ => none
  | fuel + 1, depth, cs =>
    match skip cs with
    | '"' :: rest => do
      let (k, rest) ← text rest
      match skip rest with
      | ':' :: rest => do
        let (v, rest) ← value fuel depth rest
        match skip rest with
        | ',' :: rest' => (members fuel depth rest').map fun p => ((k, v) :: p.1, p.2)
        | '}' :: rest' => some ([(k, v)], rest')
        | _ => none
      | _ => none
    | _ => none

end

/-- The value that a text consists of, white space around it aside; `value` reads it with a depth of
128. -/
def parse? (s : String) : Option Json :=
  let cs := s.toList
  match value (2 * cs.length + 2) 128 cs with
  | some (v, rest) => if (skip rest).isEmpty then some v else none
  | none => none

end Dbgp.Json
