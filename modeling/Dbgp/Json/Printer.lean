import Dbgp.Json.Value
import Dbgp.Text.Numeral

/-!
# Writing JSON

`write` gives the compact text of a value: no white space, members in the order of the object, and in
texts only what must be escaped is escaped.
-/

namespace Dbgp.Json

/-- The digit of a value below sixteen, as `escapeChar` writes it. -/
def hexDigit (n : Nat) : Char :=
  if n < 10 then Char.ofNat (48 + n) else Char.ofNat (87 + n)

/-- A character of a text as it stands between quotes; `simpleEscape?` and `hex4?` read the escapes
back. -/
def escapeChar (c : Char) : List Char :=
  if c = '"' then ['\\', '"']
  else if c = '\\' then ['\\', '\\']
  else if c = '\n' then ['\\', 'n']
  else if c = '\r' then ['\\', 'r']
  else if c = '\t' then ['\\', 't']
  else if c.toNat = 8 then ['\\', 'b']
  else if c.toNat = 12 then ['\\', 'f']
  else if c.toNat < 32 then
    ['\\', 'u', '0', '0', hexDigit (c.toNat / 16), hexDigit (c.toNat % 16)]
  else [c]

/-- A text in quotes, each character by `escapeChar`, in front of what follows it. -/
def quote (s : String) (rest : List Char) : List Char :=
  '"' :: s.toList.foldr (fun c cs => escapeChar c ++ cs) ('"' :: rest)

mutual

/-- The characters of a value, in front of the `rest` that follows it. -/
def chars : Json → List Char → List Char
  | .null, rest => "null".toList ++ rest
  | .bool true, rest => "true".toList ++ rest
  | .bool false, rest => "false".toList ++ rest
  | .int n, rest => (Text.Numeral.writeInt n).toList ++ rest
  | .double x, rest => x.write.toList ++ rest
  | .str s, rest => quote s rest
  | .arr items, rest => '[' :: itemChars items (']' :: rest)
  | .obj members, rest => '{' :: memberChars members ('}' :: rest)

/-- The items of an `arr` with commas between them. -/
def itemChars : List Json → List Char → List Char
  | [], rest => rest
  | [v], rest => chars v rest
  | v :: vs, rest => chars v (',' :: itemChars vs rest)

/-- The members of an `obj` with commas between them. -/
def memberChars : List (String × Json) → List Char → List Char
  | [], rest => rest
  | [(k, v)], rest => quote k (':' :: chars v rest)
  | (k, v) :: ms, rest => quote k (':' :: chars v (',' :: memberChars ms rest))

end

/-- The compact text of a value, by `chars`. -/
def write (v : Json) : String :=
  String.ofList (v.chars [])

end Dbgp.Json
