import Dbgp.Xml.Character

/-!
# Markup

The grammar of XML documents without a document type, down to names that may have a qualifier. What
`document?` reads is the tree as it is written; what qualifiers mean is not looked at. Comments and
processing instructions are checked and dropped, references are resolved, line ends are made one
newline each, and the white space of attribute values becomes spaces.

Every function takes the characters that are left and gives back what it has read and the characters
after it, or `none` if the text is not XML.
-/

namespace Dbgp.Xml

/-- A name with the `qualifier` that stands before its colon; the qualifier may be empty. -/
structure QName where
  qualifier : String
  label : String
  deriving DecidableEq, Repr, Inhabited

/-- An attribute as written, with its references resolved in `value`. -/
structure Attribute where
  name : QName
  value : String
  deriving DecidableEq, Repr, Inhabited

/-- An element or a piece of text as written; `toElement?` makes an `Element` of it. -/
inductive Markup where
  | text (s : String)
  | element (name : QName) (attributes : List Attribute) (content : List Markup)
  deriving Repr, Inhabited

namespace Markup

/-! ## Fixed strings and spaces -/

/-- Drops a fixed start `s`, if it is there. -/
def skipText? (s : String) (cs : List Char) : Option (List Char) :=
  if s.toList.isPrefixOf cs then some (cs.drop s.length) else none

/-- Drops white space, as `isSpace` has it. -/
def skipSpaces (cs : List Char) : List Char :=
  cs.dropWhile isSpace

/-- The characters before the first occurrence of `stop`, all of which must pass `isXmlChar`, and what
follows it. -/
def until? (stop : String) : List Char → Option (List Char × List Char)
  | [] => none
  | c :: cs =>
    if stop.toList.isPrefixOf (c :: cs) then some ([], (c :: cs).drop stop.length)
    else if isXmlChar c then (until? stop cs).map fun p => (c :: p.1, p.2)
    else none

/-- Whether `part` occurs in a list without a gap. -/
def occurs (part : List Char) : List Char → Bool
  | [] => part.isEmpty
  | c :: cs => part.isPrefixOf (c :: cs) || occurs part cs

/-! ## Names -/

/-- Whether characters form a part of a qualified name: the first one passes `isNameStart`. -/
def isPart (cs : List Char) : Bool :=
  match cs with
  | [] => false
  | c :: _ => isNameStart c

/-- A name with at most one colon. Both parts start like names; the `qualifier` may be empty. -/
def qname? (cs : List Char) : Option (QName × List Char) :=
  let first := cs.takeWhile isNameChar
  match cs.dropWhile isNameChar with
  | ':' :: rest =>
    let second := rest.takeWhile isNameChar
    let rest := rest.dropWhile isNameChar
    if (first.isEmpty || isPart first) && isPart second && rest.head? ≠ some ':' then
      some (⟨String.ofList first, String.ofList second⟩, rest)
    else none
  | rest => if isPart first then some (⟨"", String.ofList first⟩, rest) else none

/-- A name in which colons are like letters, as in a `reference?` and an `instruction?`. -/
def name? (cs : List Char) : Option (String × List Char) :=
  match cs with
  | c :: _ =>
    if isNameStart c || c = ':' then
      let isTail := fun c => isNameChar c || c = ':'
      some (String.ofList (cs.takeWhile isTail), cs.dropWhile isTail)
    else none
  | [] => none

/-! ## References -/

/-- The value of the digits in a `base` at the start, if it fits 32 bits. -/
def codePoint? (base : Nat) (isDigit : Char → Bool) (cs : List Char) : Option (Nat × List Char) :=
  let ds := cs.takeWhile isDigit
  let value := ds.foldl (fun n c => n * base + digit c) 0
  if ds.isEmpty || UInt32.size ≤ value then none else some (value, cs.dropWhile isDigit)
where
  /-- The value of a digit. -/
  digit (c : Char) : Nat :=
    if c.isDigit then c.toNat - 48 else if 'a' ≤ c then c.toNat - 87 else c.toNat - 55

/-- The character with a number; numbers that are no characters give the replacement character, which
`isXmlChar` accepts. -/
def charOf (n : Nat) : Char :=
  if n.isValidChar then Char.ofNat n else Char.ofNat 0xFFFD

/-- Whether a character is a hexadecimal digit, as a `reference?` with `#x` has. -/
def isHexDigit (c : Char) : Bool :=
  c.isDigit || ('a' ≤ c && c ≤ 'f') || ('A' ≤ c && c ≤ 'F')

/-- The character of a predefined entity, such as `lt`. -/
def entity? (name : String) : Option Char :=
  match name with
  | "lt" => some '<'
  | "gt" => some '>'
  | "amp" => some '&'
  | "quot" => some '"'
  | "apos" => some '\''
  | _ => none

/-- A reference, after its ampersand: a number with `#` or `#x`, or the name of an `entity?`. -/
def reference? (cs : List Char) : Option (Char × List Char) := do
  let (c, rest) ←
    match cs with
    | '#' :: 'x' :: cs => (codePoint? 16 isHexDigit cs).map fun p => (charOf p.1, p.2)
    | '#' :: cs => (codePoint? 10 Char.isDigit cs).map fun p => (charOf p.1, p.2)
    | cs => (name? cs).bind fun p => (entity? p.1).map fun c => (c, p.2)
  match rest with
  | ';' :: rest => if isXmlChar c then some (c, rest) else none
  | _ => none

/-- A character of text or of an attribute value, as itself or by a `reference?`. -/
inductive Piece where
  | literal (c : Char)
  | referred (c : Char)
  deriving DecidableEq, Repr

/-- Resolves the references of a text by `reference?`; `fuel` bounds the number of characters. -/
def pieces? : (fuel : Nat) → List Char → Option (List Piece)
  | _, [] => some []
  | 0, _ => none
  | fuel + 1, '&' :: cs =>
    match reference? cs with
    | some (c, rest) => (pieces? fuel rest).map (.referred c :: ·)
    | none => none
  | fuel + 1, c :: cs => (pieces? fuel cs).map (.literal c :: ·)

/-- Makes line ends one newline each. A carriage return that is `referred` to is not a line end; one
that is written is, unless a reference comes right after it, or right before it and nothing comes
after it. -/
def lineEnds (afterReference : Bool) : List Piece → List Char
  | [] => []
  | .referred c :: rest => c :: lineEnds true rest
  | [.literal c] => if c = '\r' && !afterReference then ['\n'] else [c]
  | .literal c :: .referred d :: rest => c :: d :: lineEnds true rest
  | .literal c :: .literal d :: rest =>
    if c = '\r' then
      if d = '\n' then '\n' :: lineEnds false rest
      else '\n' :: lineEnds false (.literal d :: rest)
    else c :: lineEnds false (.literal d :: rest)

/-- Makes written white space into spaces, and keeps what is `referred` to; a carriage return right
before a newline vanishes. -/
def flatten : List Piece → List Char
  | [] => []
  | .referred c :: rest => c :: flatten rest
  | .literal '\r' :: .literal '\n' :: rest => ' ' :: flatten rest
  | .literal c :: rest => (if isSpace c then ' ' else c) :: flatten rest

/-- The value of an attribute from the characters between its quotes: `pieces?`, then `flatten`. -/
def attributeValue? (cs : List Char) : Option String :=
  (pieces? cs.length cs).map fun ps => String.ofList (flatten ps)

/-- The text that some characters stand for: `pieces?`, then `lineEnds`. The end of a section must not
be among them. -/
def textValue? (cs : List Char) : Option String :=
  if occurs [']', ']', '>'] cs then none
  else (pieces? cs.length cs).map fun ps => String.ofList (lineEnds false ps)

/-! ## Attributes -/

/-- The characters of a value up to its closing `quote`, which must not hold a `<`. -/
def quoted? (quote : Char) : List Char → Option (List Char × List Char)
  | [] => none
  | c :: cs =>
    if c = quote then some ([], cs)
    else if c = '<' || !isXmlChar c then none
    else (quoted? quote cs).map fun p => (c :: p.1, p.2)

/-- Name and characters of the value of an attribute, with the value not yet read by
`attributeValue?`. -/
def rawAttribute? (cs : List Char) : Option (QName × List Char × List Char) := do
  let (name, rest) ← qname? cs
  match skipSpaces rest with
  | '=' :: rest =>
    match skipSpaces rest with
    | quote :: rest =>
      if quote = '"' || quote = '\'' then
        (quoted? quote rest).map fun p => (name, p.1, p.2)
      else none
    | [] => none
  | _ => none

/-- The attributes of a tag up to its end, each after white space, and whether the end is `/>`. -/
def attributes? : (fuel : Nat) → List Char → Option (List Attribute × Bool × List Char)
  | 0, _ => none
  | fuel + 1, cs =>
    match skipSpaces cs with
    | '/' :: '>' :: rest => some ([], true, rest)
    | '>' :: rest => some ([], false, rest)
    | rest =>
      if (cs.head?.map isSpace).getD false then do
        let (name, value, rest) ← rawAttribute? rest
        let value ← attributeValue? value
        let (others, empty, rest) ← attributes? fuel rest
        some (⟨name, value⟩ :: others, empty, rest)
      else none

/-! ## Comments, instructions and sections -/

/-- What follows a comment, after its opening; `--` may stand in it only as part of its end. -/
def comment? (cs : List Char) : Option (List Char) := do
  let (body, rest) ← until? "-->" cs
  if occurs ['-', '-'] body || body.getLast? = some '-' then none else some rest

/-- What follows a processing instruction, after its opening; its name must not be `xml` with a
space. -/
def instruction? (cs : List Char) : Option (List Char) := do
  if (skipText? "xml " cs).isSome then none
  let (_, rest) ← name? cs
  let (_, rest) ← until? "?>" (skipSpaces rest)
  some rest

/-- The text of a section up to `]]>`, after its opening, and what follows it. -/
def section? (cs : List Char) : Option (String × List Char) :=
  (until? "]]>" cs).map fun p => (String.ofList (lineEnds false (p.1.map .literal)), p.2)

/-- What follows an end tag with the given name, after its opening `</`. -/
def endTag? (name : QName) (cs : List Char) : Option (List Char) := do
  let (found, rest) ← qname? cs
  match skipSpaces rest with
  | '>' :: rest => if found = name then some rest else none
  | _ => none

/-! ## Elements -/

mutual

/-- An element, after the opening `<` of its tag. -/
def element? : (fuel : Nat) → List Char → Option (Markup × List Char)
  | 0, _ => none
  | fuel + 1, cs => do
    let (name, rest) ← qname? cs
    let (attributes, empty, rest) ← attributes? fuel rest
    if empty then some (.element name attributes [], rest)
    else
      let (content, rest) ← content? fuel rest
      let rest ← endTag? name rest
      some (.element name attributes content, rest)

/-- The content of an element, and what follows the opening `</` of its end tag. -/
def content? : (fuel : Nat) → List Char → Option (List Markup × List Char)
  | 0, _ => none
  | fuel + 1, cs =>
    match cs with
    | [] => none
    | '<' :: '/' :: rest => some ([], rest)
    | '<' :: '!' :: '-' :: '-' :: rest => do
      let rest ← comment? rest
      content? fuel rest
    | '<' :: '!' :: rest => do
      let rest ← skipText? "[CDATA[" rest
      let (body, rest) ← section? rest
      let (others, rest) ← content? fuel rest
      some (.text body :: others, rest)
    | '<' :: '?' :: rest => do
      let rest ← instruction? rest
      content? fuel rest
    | '<' :: rest => do
      let (inner, rest) ← element? fuel rest
      let (others, rest) ← content? fuel rest
      some (inner :: others, rest)
    | cs => do
      let run := cs.takeWhile (· ≠ '<')
      if run.all isXmlChar then
        let body ← textValue? run
        let (others, rest) ← content? fuel (cs.dropWhile (· ≠ '<'))
        some (.text body :: others, rest)
      else none

end

/-! ## Documents -/

/-- Drops spaces, comments and processing instructions, as they stand around the root `element?`. -/
def misc? : (fuel : Nat) → List Char → Option (List Char)
  | 0, _ => none
  | fuel + 1, cs =>
    match skipSpaces cs with
    | '<' :: '!' :: '-' :: '-' :: rest => (comment? rest).bind (misc? fuel)
    | '<' :: '?' :: rest => (instruction? rest).bind (misc? fuel)
    | rest => some rest

/-- An attribute of the declaration, whose name has to start with `word`; the value may be any. -/
def pseudo? (word : String) (cs : List Char) : Option (List Char) := do
  if (skipText? word cs).isNone then none
  let (_, _, rest) ← rawAttribute? cs
  some rest

/-- Spaces between the attributes of the declaration, of which at least one has to be there unless
`?>` follows. -/
def gap? (cs : List Char) : Option (List Char) :=
  match cs with
  | [] => none
  | c :: _ => if isSpace c || (skipText? "?>" cs).isSome then some (skipSpaces cs) else none

/-- What follows the declaration, after its opening: `version`, then perhaps `encoding` and
`standalone`. -/
def declaration? (cs : List Char) : Option (List Char) := do
  let rest ← pseudo? "version" (skipSpaces cs)
  let rest ← gap? rest
  let rest ←
    if (skipText? "encoding" rest).isSome then (pseudo? "encoding" rest).bind gap? else some rest
  let rest ←
    if (skipText? "standalone" rest).isSome then pseudo? "standalone" rest else some rest
  skipText? "?>" (skipSpaces rest)

/-- Drops the byte order mark `U+FEFF` at the start, once. -/
def dropMark : List Char → List Char
  | [] => []
  | c :: cs => if c.toNat = 0xFEFF then cs else c :: cs

/-- The root element of a document, with nothing but `misc?` around it. -/
def document? (text : String) : Option Markup := do
  let cs := dropMark text.toList
  let rest ←
    match skipText? "<?xml " cs with
    | some rest => declaration? rest
    | none => some cs
  let rest ← misc? (rest.length + 1) rest
  match rest with
  | '<' :: rest =>
    let (root, rest) ← element? (rest.length + 1) rest
    let rest ← misc? (rest.length + 1) rest
    if rest.isEmpty then some root else none
  | _ => none

end Markup

end Dbgp.Xml
