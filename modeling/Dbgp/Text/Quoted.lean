import Dbgp.Text.Printable

/-!
# Quoted text

How a text is shown inside a message by `write`: in double quotes, with backslash escapes for the
quote, the backslash and the usual controls, and the code point in braces for every other character
that would not be seen by itself.
-/

namespace Dbgp.Text.Quoted

/-- The lower-case hexadecimal digits of a number, as `escape` shows them. -/
def hex (n : Nat) : List Char :=
  Nat.toDigits 16 n

/-- A character as shown between quotes; `isPlain` says which are shown as themselves. -/
def escape (c : Char) : List Char :=
  if c.toNat = 0 then ['\\', '0']
  else if c = '\t' then ['\\', 't']
  else if c = '\r' then ['\\', 'r']
  else if c = '\n' then ['\\', 'n']
  else if c = '\\' then ['\\', '\\']
  else if c = '"' then ['\\', '"']
  else if isPlain c then [c]
  else ['\\', 'u', '{'] ++ hex c.toNat ++ ['}']

/-- A text in quotes, each character by `escape`. -/
def write (s : String) : String :=
  String.ofList ('"' :: (s.toList.flatMap escape ++ ['"']))

end Dbgp.Text.Quoted
