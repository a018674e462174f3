import Dbgp.Packet

/-!
# Properties

Variables of the debuggee are trees: an object or a list has its parts as children.
`Property.ofElement` reads a property and all its descendants together or not at all.
-/

namespace Dbgp

open Xml (Element)

/-- A set of variables, such as the local ones, as an element `context` describes it. -/
structure ContextInfo where
  id : UInt32
  name : String
  deriving DecidableEq, Repr, Inhabited

namespace ContextInfo

/-- Reads a context, which has to have an `id` that is a number and a `name`. -/
def ofElement? (e : Element) : Option ContextInfo := do
  let id ← ((e.word32? "id").toOption).join
  let name ← e.attr? "name"
  some ⟨id, name⟩

/-- The contexts that a response lists, as far as `ofElement?` can read them. -/
def ofResponse (r : Response) : List ContextInfo :=
  (r.root.childrenNamed "context").filterMap ofElement?

/-- A context as JSON, with its `id` and its `name`. -/
def toJson (c : ContextInfo) : Json :=
  .object [("id", .nat c.id.toNat), ("name", .str c.name)]

/-- Reads a `ContextInfo` from JSON. -/
def ofJson : Json.Reader ContextInfo :=
  Json.Fields.record "ContextInfo"
    (ContextInfo.mk
      <$> .required "id" Json.Reader.word32
      <*> .required "name" Json.Reader.text)

end ContextInfo

/-- A variable with its parts, as far as the engine has sent them: an element `property`. -/
structure Property where
  name : String
  fullname : Option String
  kind : Option String
  classname : Option String
  constant : Bool
  hasChildren : Bool
  numChildren : Option UInt32
  page : Option UInt32
  pageSize : Option UInt32
  key : Option String
  address : Option String
  encoding : Option String
  value : Option String
  children : List Property
  deriving Repr, Inhabited

namespace Property

/-- The text of an element, decoded by `Element.content` and read as UTF-8. -/
def decodedText (e : Element) : Except Error String :=
  Text.Utf8.lossy <$> e.content

/-- The name: that of a child element `name`, or else an attribute, or else empty. -/
def readName (e : Element) : Except Error String :=
  match e.child? "name" with
  | some c => decodedText c
  | none => .ok ((e.attr? "name").getD "")

/-- The full name, found like the name in `readName`; it may be missing. -/
def readFullname (e : Element) : Except Error (Option String) :=
  match e.child? "fullname" with
  | some c => some <$> decodedText c
  | none => .ok (e.attr? "fullname")

/-- The value: that of a child element `value`, or else the text of the property unless it is
blank. -/
def readValue (e : Element) : Except Error (Option String) :=
  match e.child? "value" with
  | some c => some <$> decodedText c
  | none => if Text.trim e.text = "" then .ok none else some <$> decodedText e

mutual

/-- Reads a property with all its descendants, or fails with the first thing that cannot be read. -/
def ofElement : Element → Except Error Property
  | ⟨tag, attributes, elements, text⟩ => do
    let e : Element := ⟨tag, attributes, elements, text⟩
    let name ← readName e
    let fullname ← readFullname e
    let children ← ofElements elements
    let value ← readValue e
    let numChildren ← e.word32? "numchildren"
    let page ← e.word32? "page"
    let pageSize ← e.word32? "pagesize"
    return {
      name, fullname, numChildren, page, pageSize, value, children
      kind := e.attr? "type"
      classname := e.attr? "classname"
      constant := e.flag "constant"
      hasChildren := e.flag "children" || !children.isEmpty
      key := e.attr? "key"
      address := e.attr? "address"
      encoding := e.attr? "encoding" }

/-- Reads the elements `property` among some elements; what else is there is left out. -/
def ofElements : List Element → Except Error (List Property)
  | [] => .ok []
  | ⟨tag, attributes, elements, text⟩ :: rest =>
    if tag = "property" then do
      let p ← ofElement ⟨tag, attributes, elements, text⟩
      let ps ← ofElements rest
      return p :: ps
    else ofElements rest

end

/-- The first property of a response; without one the fault is `noProperty`. -/
def ofResponse (r : Response) : Except Error Property :=
  match r.root.child? "property" with
  | some e => ofElement e
  | none => .error (.protocol (.noProperty r.command))

/-- The properties of a response that `ofElement` can read. -/
def allOfResponse (r : Response) : List Property :=
  (r.root.childrenNamed "property").filterMap fun e => (ofElement e).toOption

/-! ## Search -/

mutual

/-- The first property with a full name in a tree; a property stands before its `children`. -/
def find? (fullname : String) : Property → Option Property
  | p@⟨_, own, _, _, _, _, _, _, _, _, _, _, _, children⟩ =>
    if own = some fullname then some p else findIn? fullname children

/-- The first property with a full name in a list of trees, each searched by `find?`. -/
def findIn? (fullname : String) : List Property → Option Property
  | [] => none
  | p :: ps =>
    match find? fullname p with
    | some found => some found
    | none => findIn? fullname ps

end

/-! ## JSON -/

mutual

/-- A property as JSON, with its `children` in it. -/
def toJson : Property → Json
  | ⟨name, fullname, kind, classname, constant, hasChildren, numChildren, page, pageSize, key,
      address, encoding, value, children⟩ =>
    .object
      [("name", .str name),
       ("fullname", .optionStr fullname),
       ("property_type", .optionStr kind),
       ("classname", .optionStr classname),
       ("constant", .bool constant),
       ("has_children", .bool hasChildren),
       ("num_children", .option (fun n => .nat n.toNat) numChildren),
       ("page", .option (fun n => .nat n.toNat) page),
       ("page_size", .option (fun n => .nat n.toNat) pageSize),
       ("key", .optionStr key),
       ("address", .optionStr address),
       ("encoding", .optionStr encoding),
       ("value", .optionStr value),
       ("children", .arr (toJsons children))]

/-- Properties as JSON, each by `toJson`. -/
def toJsons : List Property → List Json
  | [] => []
  | p :: ps => toJson p :: toJsons ps

end

/-- The fields of a property whose children are read by `child`. -/
def fields (child : Json.Reader Property) : Json.Fields Property :=
  Property.mk
    <$> .required "name" Json.Reader.text
    <*> .optional "fullname" Json.Reader.text
    <*> .optional "property_type" Json.Reader.text
    <*> .optional "classname" Json.Reader.text
    <*> .required "constant" Json.Reader.bool
    <*> .required "has_children" Json.Reader.bool
    <*> .optional "num_children" Json.Reader.word32
    <*> .optional "page" Json.Reader.word32
    <*> .optional "page_size" Json.Reader.word32
    <*> .optional "key" Json.Reader.text
    <*> .optional "address" Json.Reader.text
    <*> .optional "encoding" Json.Reader.text
    <*> .optional "value" Json.Reader.text
    <*> .required "children" (Json.Reader.list child)

/-- Reads a property in a value that nests at most `depth` deep. -/
def ofJsonWithin : (depth : Nat) → Json.Reader Property
  | 0 => fun v => .error (.kind v "struct Property")
  | depth + 1 => (fields (ofJsonWithin depth)).record "Property"

/-- Reads a `Property` from JSON, of any depth. -/
def ofJson : Json.Reader Property := fun v =>
  ofJsonWithin (v.depth + 1) v

end Property

end Dbgp
