import Dbgp.Error
import Dbgp.Text.Blank
import Dbgp.Text.Utf8

/-!
# Elements

A packet as a tree of elements. An `Element` has its attributes in order, its child elements in order,
and as its text all the text that stands directly in it, whatever stands between the pieces.
-/

namespace Dbgp.Xml

/-- An element of a packet, as `Element.parse` gives it. -/
structure Element where
  name : String
  attributes : List (String × String)
  children : List Element
  text : String
  deriving Repr, Inhabited

namespace Element

/-- The value of an attribute, if it is among `attributes`. -/
def attr? (e : Element) (name : String) : Option String :=
  (e.attributes.find? fun a => a.1 = name).map (·.2)

/-- The value of an attribute that has to be there; `missingAttribute` names what is not. -/
def attr (e : Element) (name : String) : Except Error String :=
  match e.attr? name with
  | some value => .ok value
  | none => .error (.protocol (.missingAttribute e.name name))

/-- The value of an attribute as read by `read?`, which does not see white space at its ends. -/
def parsed? (e : Element) (name : String) (read? : List Char → Option α) :
    Except Error (Option α) :=
  match e.attr? name with
  | none => .ok none
  | some raw =>
    match read? (Text.trimChars Text.isBlank raw.toList) with
    | some a => .ok (some a)
    | none => .error (.protocol (.badAttribute e.name name raw))

/-- An attribute that is an unsigned word of 32 bits, read by `Text.Numeral.word32?`. -/
def word32? (e : Element) (name : String) : Except Error (Option UInt32) :=
  e.parsed? name Text.Numeral.word32?

/-- An attribute that is a signed word of 32 bits, read by `Text.Numeral.signed32?`. -/
def signed32? (e : Element) (name : String) : Except Error (Option Int32) :=
  e.parsed? name Text.Numeral.signed32?

/-- An attribute that is a word of a `Vocabulary`. Here white space counts. -/
def word? (α : Type) [Vocabulary α] (e : Element) (name : String) : Except Error (Option α) :=
  match e.attr? name with
  | none => .ok none
  | some raw => some <$> readWord α raw

/-- Whether an attribute says yes, by `1` or `true`. -/
def flag (e : Element) (name : String) : Bool :=
  e.attr? name = some "1" || e.attr? name = some "true"

/-- The first of the `children` with a name. -/
def child? (e : Element) (name : String) : Option Element :=
  e.children.find? fun c => c.name = name

/-- The `children` with a name, in order. -/
def childrenNamed (e : Element) (name : String) : List Element :=
  e.children.filter fun c => c.name = name

/-- The text as octets, by the `encoding` that the element names: `base64`, `none`, or no word at
all. -/
def content (e : Element) : Except Error (List UInt8) :=
  match e.attr? "encoding" with
  | none => .ok (Text.Utf8.encode e.text)
  | some encoding =>
    if encoding = "base64" then
      match Text.Base64.decode e.text with
      | .ok bytes => .ok bytes
      | .error f => .error (.protocol (.badBase64 f))
    else if encoding = "none" then .ok (Text.Utf8.encode e.text)
    else .error (.protocol (.unknownEncoding e.name encoding))

end Element

end Dbgp.Xml
