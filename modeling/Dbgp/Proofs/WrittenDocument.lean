import Dbgp.Xml.Character
import Dbgp.Xml.Element
import Mathlib.Data.List.Infix

/-!
# Documents as they are written

A tree of elements with everything that may stand between two tags, and the texts that write it
(`Tree.Written`). Most trees can be written in many ways: a character may be given by its name, by its
number in decimal or hexadecimal digits or, if it is not reserved, by itself; the white space inside
of tags is free, so is the kind of quotes, and an element without content may be written with one tag
or with two. One of these ways is chosen by `Tree.write`.

What a name, a section, a comment or a list of attributes may hold is part of their types, so that
every tree can be written.
-/

namespace Dbgp.Xml

/-! ## Trees -/

/-- A name without a colon, so `Markup.qname?` finds no qualifier in it. -/
structure Name where
  text : String
  starts : text.toList.head?.any isNameStart = true
  holds : ∀ c ∈ text.toList, isNameChar c = true

/-- Text that a document may hold. -/
structure Characters where
  text : String
  valid : ∀ c ∈ text.toList, isXmlChar c = true

/-- The text of a section, which ends at the first occurrence of its closing. -/
structure SectionText extends Characters where
  unclosed : ¬ "]]>".toList <:+: text.toList
  noReturn : '\r' ∉ text.toList

/-- The text of a comment. -/
structure CommentText extends Characters where
  noDashes : ¬ "--".toList <:+: text.toList
  noLastDash : text.toList.getLast? ≠ some '-'

/-- The attributes of an element, none of which is a declaration. -/
structure AttributeList where
  list : List (Name × Characters)
  distinct : (list.map fun a => a.1.text).Nodup
  undeclaring : ∀ a ∈ list, a.1.text ≠ "xmlns"

/-- The names and values of attributes. -/
def AttributeList.values (attributes : AttributeList) : List (String × String) :=
  attributes.list.map fun a => (a.1.text, a.2.text)

/-- What stands between the tags of an element, from one place on. -/
inductive Content where
  | done
  | text (run : Characters) (rest : Content)
  | cdata (body : SectionText) (rest : Content)
  | comment (body : CommentText) (rest : Content)
  | element (name : Name) (attributes : AttributeList) (inner rest : Content)

/-- The text runs and sections of some content, joined. -/
def Content.ownText : Content → String
  | .done => ""
  | .text run rest => run.text ++ rest.ownText
  | .cdata body rest => body.text ++ rest.ownText
  | .comment _ rest => rest.ownText
  | .element _ _ _ rest => rest.ownText

/-- The elements of some content. -/
def Content.children : Content → List Element
  | .done => []
  | .text _ rest => rest.children
  | .cdata _ rest => rest.children
  | .comment _ rest => rest.children
  | .element name attributes inner rest =>
    ⟨name.text, attributes.values, inner.children, inner.ownText⟩ :: rest.children

/-- An element with its content. -/
structure Tree where
  name : Name
  attributes : AttributeList
  content : Content

/-- The `Element` that a tree is, without its comments and with its text joined. -/
def Tree.element (t : Tree) : Element :=
  ⟨t.name.text, t.attributes.values, t.content.children, t.content.ownText⟩

/-! ## Spelling -/

/-- The characters with a name of their own. -/
def predefined : List (String × Char) :=
  [("lt", '<'), ("gt", '>'), ("amp", '&'), ("quot", '"'), ("apos", '\'')]

/-- The references to a character, after their ampersand: one of `predefined`, or decimal or
hexadecimal digits with zeros before them. -/
inductive Refers (c : Char) : List Char → Prop
  | named {name : String} : (name, c) ∈ predefined → Refers c (name.toList ++ [';'])
  | decimal (zeros : Nat) :
      Refers c ('#' :: (List.replicate zeros '0' ++ (Nat.toDigits 10 c.toNat ++ [';'])))
  | hexadecimal (zeros : Nat) {digits : List Char} :
      digits.map Char.toLower = Nat.toDigits 16 c.toNat →
        Refers c ('#' :: 'x' :: (List.replicate zeros '0' ++ (digits ++ [';'])))

/-- The ways to write characters of which the `reserved` ones have to be referred to. -/
inductive Spelled (reserved : Char → Bool) : List Char → List Char → Prop
  | nil : Spelled reserved [] []
  | plain {c : Char} {cs w : List Char} :
      reserved c = false → Spelled reserved cs w → Spelled reserved (c :: cs) (c :: w)
  | referred {c : Char} {cs v w : List Char} :
      Refers c v → Spelled reserved cs w → Spelled reserved (c :: cs) ('&' :: (v ++ w))

/-- The characters that are reserved in text. -/
def isReservedInText (c : Char) : Bool :=
  c = '&' || c = '<' || c = '>' || c = '\r'

/-- The characters that are reserved in a value between quotes of one kind. -/
def isReservedInValue (quote : Char) (c : Char) : Bool :=
  c = '&' || c = '<' || c = '>' || c = '"' || c = quote || c = '\t' || c = '\n' || c = '\r'

/-- White space or nothing. -/
def Blank (w : List Char) : Prop :=
  ∀ c ∈ w, isSpace c = true

/-! ## Writing -/

/-- The ways to write attributes, each after a gap and between quotes of either kind. -/
inductive AttributesWritten : List (Name × Characters) → List Char → Prop
  | nil : AttributesWritten [] []
  | cons {name : Name} {value : Characters} {rest : List (Name × Characters)} {quote : Char}
      {gap before after w v : List Char} :
      gap ≠ [] → Blank gap → Blank before → Blank after → quote = '"' ∨ quote = '\'' →
      Spelled (isReservedInValue quote) value.text.toList w → AttributesWritten rest v →
      AttributesWritten ((name, value) :: rest)
        (gap ++ (name.text.toList ++ (before ++ '=' :: (after ++ quote :: (w ++ quote :: v)))))

/-- The ways to write content. -/
inductive Content.Written : Content → List Char → Prop
  | done : Written .done []
  | text {run : Characters} {rest : Content} {w v : List Char} :
      Spelled isReservedInText run.text.toList w → Written rest v →
      Written (.text run rest) (w ++ v)
  | cdata {body : SectionText} {rest : Content} {v : List Char} : Written rest v →
      Written (.cdata body rest)
        ("<![CDATA[".toList ++ (body.text.toList ++ ("]]>".toList ++ v)))
  | comment {body : CommentText} {rest : Content} {v : List Char} : Written rest v →
      Written (.comment body rest) ("<!--".toList ++ (body.text.toList ++ ("-->".toList ++ v)))
  | element {name : Name} {attributes : AttributeList} {inner rest : Content}
      {a gap w gap' v : List Char} :
      AttributesWritten attributes.list a → Blank gap → Written inner w → Blank gap' →
      Written rest v →
      Written (.element name attributes inner rest)
        ('<' :: (name.text.toList ++ (a ++ (gap ++ '>' :: (w ++
          '<' :: '/' :: (name.text.toList ++ (gap' ++ '>' :: v)))))))
  | empty {name : Name} {attributes : AttributeList} {rest : Content} {a gap v : List Char} :
      AttributesWritten attributes.list a → Blank gap → Written rest v →
      Written (.element name attributes .done rest)
        ('<' :: (name.text.toList ++ (a ++ (gap ++ '/' :: '>' :: v))))

/-- The texts that write a tree. -/
def Tree.Written (t : Tree) (text : String) : Prop :=
  (Content.element t.name t.attributes t.content .done).Written text.toList

/-! ## One way to write -/

/-- A reference to a character: by name if it has one, else in decimal digits. -/
def reference (c : Char) : List Char :=
  match predefined.find? fun p => p.2 = c with
  | some p => p.1.toList ++ [';']
  | none => '#' :: (Nat.toDigits 10 c.toNat ++ [';'])

/-- Refers to the `reserved` characters only. -/
def spell (reserved : Char → Bool) : List Char → List Char
  | [] => []
  | c :: cs =>
    if reserved c then '&' :: (reference c ++ spell reserved cs) else c :: spell reserved cs

/-- Writes attributes with one space before each. -/
def writeAttributes : List (Name × Characters) → List Char
  | [] => []
  | (name, value) :: rest =>
    ' ' :: (name.text.toList ++
      '=' :: '"' :: (spell (isReservedInValue '"') value.text.toList ++ '"' :: writeAttributes rest))

/-- Writes content with two tags for each element. -/
def Content.write : Content → List Char
  | .done => []
  | .text run rest => spell isReservedInText run.text.toList ++ rest.write
  | .cdata body rest => "<![CDATA[".toList ++ (body.text.toList ++ ("]]>".toList ++ rest.write))
  | .comment body rest => "<!--".toList ++ (body.text.toList ++ ("-->".toList ++ rest.write))
  | .element name attributes inner rest =>
    '<' :: (name.text.toList ++ (writeAttributes attributes.list ++ '>' :: (inner.write ++
      '<' :: '/' :: (name.text.toList ++ '>' :: rest.write))))

/-- Writes a tree. -/
def Tree.write (t : Tree) : String :=
  String.ofList (Content.element t.name t.attributes t.content .done).write

theorem blank_nil : Blank [] := by
  simp [Blank]

/-- `reference` is one of the ways to refer to a character. -/
theorem refers_reference (c : Char) : Refers c (reference c) := by
  unfold reference
  split
  case h_1 p hp =>
    have hc : p.2 = c := by simpa using List.find?_some hp
    have hmem : (p.1, c) ∈ predefined := by
      rw [← hc]
      exact List.mem_of_find?_eq_some hp
    exact .named hmem
  case h_2 => exact .decimal 0

/-- `spell` is one of the ways to write characters. -/
theorem spelled_spell (reserved : Char → Bool) (cs : List Char) :
    Spelled reserved cs (spell reserved cs) := by
  induction cs with
  | nil => exact .nil
  | cons c cs ih =>
    rw [spell]
    split
    case isTrue => exact .referred (refers_reference c) ih
    case isFalse h => exact .plain (by simpa using h) ih

/-- `writeAttributes` is one of the ways to write attributes. -/
theorem attributesWritten_writeAttributes (list : List (Name × Characters)) :
    AttributesWritten list (writeAttributes list) := by
  induction list with
  | nil => exact .nil
  | cons a rest ih =>
    have hgap : Blank [' '] := by simp [Blank, isSpace]
    exact .cons (by simp) hgap blank_nil blank_nil (.inl rfl) (spelled_spell _ _) ih

/-- `Content.write` is one of the ways to write content. -/
theorem Content.written_write (c : Content) : c.Written c.write := by
  induction c with
  | done => exact .done
  | text run rest ih => exact .text (spelled_spell _ _) ih
  | cdata body rest ih => exact .cdata ih
  | comment body rest ih => exact .comment ih
  | element name attributes inner rest ihInner ihRest =>
    exact .element (attributesWritten_writeAttributes _) blank_nil ihInner blank_nil ihRest

/-- Every tree can be written: `Tree.write` is one of the ways. -/
theorem Tree.written_write (t : Tree) : t.Written t.write := by
  rw [Tree.Written, Tree.write, String.toList_ofList]
  exact Content.written_write _

/-! ## Properties of spellings -/

/-- Spellings of two texts make one of both. -/
theorem Spelled.append {reserved : Char → Bool} {cs ds w v : List Char}
    (h : Spelled reserved cs w) (h' : Spelled reserved ds v) :
    Spelled reserved (cs ++ ds) (w ++ v) := by
  induction h with
  | nil => exact h'
  | plain hc _ ih => exact .plain hc ih
  | referred hv _ ih =>
    rw [List.cons_append, List.cons_append, List.append_assoc]
    exact .referred hv ih

end Dbgp.Xml
