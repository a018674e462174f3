import Dbgp.Xml.Element
import Dbgp.Xml.Markup

/-!
# Qualifiers and elements

An attribute that declares a qualifier binds it to a name space for its element and everything in it,
in a `Scope`. By `toElement?`, elements and attributes lose their qualifiers, once these are known to
be bound and the declarations are known to be allowed; the declarations themselves are not attributes.
Two attributes of one element must differ in their own name or in their name space.
-/

namespace Dbgp.Xml

/-- The name space of the qualifier `xml`, which attributes may always have. -/
def xmlSpace : String := "http://www.w3.org/XML/1998/namespace"

/-- The name space of declarations by `xmlns`, to which nothing may be bound. -/
def xmlnsSpace : String := "http://www.w3.org/2000/xmlns/"

/-- Qualifiers with the name spaces they are bound to, inner ones first; `find?` so sees the
innermost. -/
abbrev Scope := List (String × String)

namespace Scope

/-- The name space that a `qualifier` is bound to. -/
def find? (scope : Scope) (qualifier : String) : Option String :=
  (List.find? (fun b => b.1 = qualifier) scope).map (·.2)

/-- The bindings that an element declares, if they are allowed. Neither a declaration of `xml` nor one
of the name space of names without a qualifier binds anything. -/
def declared? : List Attribute → Option Scope
  | [] => some []
  | a :: rest => do
    let others ← declared? rest
    if a.name.qualifier = "xmlns" then
      if a.value = xmlnsSpace then none
      else if a.name.label = "xml" then if a.value = xmlSpace then some others else none
      else if a.value = xmlSpace || others.any fun b => b.1 = a.name.label then none
      else some ((a.name.label, a.value) :: others)
    else if a.name.label = "xmlns" then
      if a.value = xmlSpace || a.value = xmlnsSpace then none else some others
    else some others

end Scope

/-- Whether an attribute is a declaration: `xmlns` is its qualifier or its own name. -/
def Attribute.isDeclaration (a : Attribute) : Bool :=
  a.name.qualifier = "xmlns" || a.name.label = "xmlns"

/-- The name space of an attribute in a `Scope`. One without a qualifier is in none. -/
def Attribute.space? (scope : Scope) (a : Attribute) : Option (Option String) :=
  if a.name.qualifier = "" then some none
  else if a.name.qualifier = "xml" then some (some xmlSpace)
  else (scope.find? a.name.qualifier).map some

/-- The attributes of an element without qualifiers, if `Attribute.space?` knows all of these and no
two attributes clash. -/
def plainAttributes? (scope : Scope) (attributes : List Attribute) :
    Option (List (String × String)) := do
  let spaces ← attributes.mapM (Attribute.space? scope)
  let keys := spaces.zip (attributes.map (·.name.label))
  if distinct keys then some (attributes.map fun a => (a.name.label, a.value)) else none
where
  /-- Whether no two are equal. -/
  distinct : List (Option String × String) → Bool
    | [] => true
    | k :: ks => !ks.contains k && distinct ks

namespace Markup

/-- The text that stands directly among some content, all pieces of it together; `Element.text` is
made of it. -/
def directText : List Markup → String
  | [] => ""
  | .text s :: rest => s ++ directText rest
  | .element _ _ _ :: rest => directText rest

mutual

/-- The `Element` that markup stands for; text stands for none. -/
def toElement? (scope : Scope) : Markup → Option Element
  | .text _ => none
  | .element name attributes content => do
    let own ← Scope.declared? attributes
    let scope := own ++ scope
    if name.qualifier = "xmlns" then none
    else if name.qualifier ≠ "" && (scope.find? name.qualifier).isNone then none
    else
      let plain ← plainAttributes? scope (attributes.filter fun a => !a.isDeclaration)
      let children ← toElements? scope content
      some ⟨name.label, plain, children, directText content⟩

/-- The child elements among some content, each by `toElement?`. -/
def toElements? (scope : Scope) : List Markup → Option (List Element)
  | [] => some []
  | .text _ :: rest => toElements? scope rest
  | .element name attributes content :: rest => do
    let e ← toElement? scope (.element name attributes content)
    let others ← toElements? scope rest
    some (e :: others)

end

end Markup

/-- Reads the root element of a payload: `Markup.document?`, then `Markup.toElement?`. -/
def Element.parse (text : String) : Except Error Element :=
  match (Markup.document? text).bind (Markup.toElement? []) with
  | some e => .ok e
  | none => .error (.protocol .malformedXml)

end Dbgp.Xml
