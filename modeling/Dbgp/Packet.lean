import Dbgp.Json.Reading
import Dbgp.Xml.Namespace

/-!
# Packets

Every payload from the engine is a `Response` to a request, a notification `Notify`, or `Output` of
the debuggee; its root element says which. The first packet of a connection is of another kind,
`Init`.
-/

namespace Dbgp

open Xml (Element)

/-- An answer to a request: an element `response` with the `transaction_id` of the request. -/
structure Response where
  transaction : UInt32
  command : String
  root : Element
  deriving Repr, Inhabited

namespace Response

/-- Reads a response. It has to have a `transaction_id`; a `command` may be left out. -/
def ofElement (root : Element) : Except Error Response := do
  match ← root.word32? "transaction_id" with
  | none => .error (.protocol .responseWithoutTransaction)
  | some transaction => .ok ⟨transaction, (root.attr? "command").getD "", root⟩

/-- The code that stands for an `error` without a readable one. -/
def unknownCode : Int32 := 999

/-- The error the engine reports by an element `error`, if it does. An error without a text gets the
`standardText`. -/
def error? (r : Response) : Option Error := do
  let e ← r.root.child? "error"
  let code :=
    match e.signed32? "code" with
    | .ok (some code) => code
    | _ => unknownCode
  let text := (e.child? "message").map fun m => Text.trim m.text
  some (.remote code ((text.filter (· ≠ "")).getD (standardText code)))

/-- Whether the engine reports an error: there is an element `error`. -/
def isError (r : Response) : Bool :=
  (r.root.child? "error").isSome

/-- The response itself, or the error that `error?` finds in it. -/
def check (r : Response) : Except Error Response :=
  match r.error? with
  | some e => .error e
  | none => .ok r

/-- Whether the engine says by `success` that a command did what it should. -/
def isSuccess (r : Response) : Bool :=
  r.root.flag "success"

end Response

/-- A message from the engine that answers no request: an element `notify`. -/
structure Notify where
  name : String
  root : Element
  deriving Repr, Inhabited

/-- Reads a notification, which has to have a `name`. -/
def Notify.ofElement (root : Element) : Except Error Notify := do
  return ⟨← root.attr "name", root⟩

/-- A piece of output of the debuggee: an element `stream`, with its content decoded. -/
structure Output where
  kind : StreamKind
  content : List UInt8
  deriving DecidableEq, Repr, Inhabited

namespace Output

/-- Reads a piece of output, of the kind that `type` says. -/
def ofElement (root : Element) : Except Error Output := do
  let kind ← readWord StreamKind (← root.attr "type")
  return ⟨kind, ← root.content⟩

/-- The output as text, by `Text.Utf8.lossy`. -/
def text (o : Output) : String :=
  Text.Utf8.lossy o.content

end Output

/-- A packet of an established `Session`. -/
inductive Packet where
  | response (r : Response)
  | notify (n : Notify)
  | output (o : Output)
  deriving Repr

namespace Packet

/-- Tells packets apart by the `name` of the root element. -/
def ofElement (root : Element) : Except Error Packet :=
  match root.name with
  | "response" => .response <$> Response.ofElement root
  | "notify" => .notify <$> Notify.ofElement root
  | "stream" => .output <$> Output.ofElement root
  | "init" => .error (.protocol .lateInit)
  | name => .error (.protocol (.unknownPacket name))

/-- Reads a packet: `Element.parse`, then `ofElement`. -/
def parse (payload : String) : Except Error Packet := do
  ofElement (← Element.parse payload)

end Packet

/-! ## The init packet -/

/-- What an engine tells about itself: the attributes of its element `init`, none of which it has to
give. -/
structure Init where
  appid : Option String := none
  idekey : Option String := none
  session : Option String := none
  thread : Option String := none
  parent : Option String := none
  language : Option String := none
  protocolVersion : Option String := none
  fileuri : Option String := none
  deriving DecidableEq, Repr, Inhabited

namespace Init

/-- Reads an init packet, whose root element has to be `init`. -/
def parse (payload : String) : Except Error Init := do
  let root ← Element.parse payload
  if root.name = "init" then
    return {
      appid := root.attr? "appid"
      idekey := root.attr? "idekey"
      session := root.attr? "session"
      thread := root.attr? "thread"
      parent := root.attr? "parent"
      language := root.attr? "language"
      protocolVersion := root.attr? "protocol_version"
      fileuri := root.attr? "fileuri" }
  else .error (.protocol (.notInit root.name))

/-- An init packet as JSON; attributes that were not given are `null`. -/
def toJson (i : Init) : Json :=
  .object
    [("appid", .optionStr i.appid), ("idekey", .optionStr i.idekey),
     ("session", .optionStr i.session), ("thread", .optionStr i.thread),
     ("parent", .optionStr i.parent), ("language", .optionStr i.language),
     ("protocol_version", .optionStr i.protocolVersion), ("fileuri", .optionStr i.fileuri)]

/-- The fields of an init packet, in the order of `toJson`. -/
def fields : Json.Fields Init :=
  Init.mk
    <$> .optional "appid" Json.Reader.text
    <*> .optional "idekey" Json.Reader.text
    <*> .optional "session" Json.Reader.text
    <*> .optional "thread" Json.Reader.text
    <*> .optional "parent" Json.Reader.text
    <*> .optional "language" Json.Reader.text
    <*> .optional "protocol_version" Json.Reader.text
    <*> .optional "fileuri" Json.Reader.text

/-- Reads an `Init` from JSON. -/
def ofJson : Json.Reader Init :=
  fields.record "InitPacket"

end Init

end Dbgp
