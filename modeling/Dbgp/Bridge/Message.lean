import Dbgp.Json.Printer
import Dbgp.Packet

/-!
# Messages

What the bridge and its caller say to each other: each `Call` has an id and gets an `Answer`, while a
`Notice` has no id and is not answered. An answer has the id of its call and either a result or a
`Failure`.
-/

namespace Dbgp.Rpc

open Xml (Element)

/-- A call: a JSON object with `jsonrpc`, `id`, `method` and perhaps `params`. The version is not
looked at. -/
structure Call where
  version : String
  id : Json
  method : String
  params : Option Json
  deriving Repr, Inhabited

namespace Call

/-- Reads a `Call`; `params` may be left out or `null`. -/
def ofJson : Json.Reader Call :=
  Json.Fields.record "JsonRpcRequest"
    (Call.mk
      <$> .required "jsonrpc" Json.Reader.text
      <*> .required "id" Json.Reader.any
      <*> .required "method" Json.Reader.text
      <*> .default "params" none (Json.Reader.nullable Json.Reader.any))

end Call

/-- A notice: a `method` with its `params`, and no id. -/
structure Notice where
  version : String := "2.0"
  method : String
  params : Option Json
  deriving Repr, Inhabited

namespace Notice

/-- A notice as JSON; without parameters it has no field `params`. -/
def toJson (n : Notice) : Json :=
  .object <|
    [("jsonrpc", .str n.version), ("method", .str n.method)] ++
      (n.params.map fun p => ("params", p)).toList

/-- Reads a `Notice`; `params` may be left out or `null`. -/
def ofJson : Json.Reader Notice :=
  Json.Fields.record "JsonRpcNotification"
    (Notice.mk
      <$> .required "jsonrpc" Json.Reader.text
      <*> .required "method" Json.Reader.text
      <*> .default "params" none (Json.Reader.nullable Json.Reader.any))

end Notice

/-! ## Failures -/

/-- Why a call failed: the member `error` of its answer. -/
structure Failure where
  code : Int32
  message : String
  data : Option Json := none
  deriving Repr, Inhabited

namespace Failure

/-- The line is no JSON, of which `Json.parse?` says so. -/
def parse : Failure := { code := -32700, message := "Parse error" }

/-- The JSON is no call, of which `Call.ofJson` says so. -/
def invalidCall : Failure := { code := -32600, message := "Invalid request" }

/-- There is no such method: neither `Action.reader?` nor `Action.ofCall` knows it. -/
def unknownMethod (method : String) : Failure :=
  { code := -32601, message := "Method not found: " ++ method }

/-- The parameters do not fit the method; `message` says which and why. -/
def invalidParams (message : String) : Failure :=
  { code := -32602, message }

/-- There is no session with an `id` that a call names. -/
def noSession (id : Nat) : Failure :=
  { code := -32003, message := s!"No session {id}" }

/-- A call names no session, and the registry has no `current` one that is tracked. -/
def noCurrent : Failure :=
  { code := -32003
    message := "No active debug session. Start an engine against the bridge first." }

/-- The code of an `Error` of a session. -/
def codeOf : Error → Int32
  | .remote .. => -32000
  | .timeout _ => -32001
  | .terminated => -32002
  | .transport _ | .protocol _ => -32603

/-- An `Error` of a session. The caller is told by `recoverable` whether the session can be used
further. -/
def ofError (e : Error) : Failure where
  code := codeOf e
  message := e.message
  data := some <| .object <|
    (match e with
      | .remote code text => [("code", .int code.toInt), ("message", .str text)]
      | _ => []) ++ [("recoverable", .bool e.isRecoverable)]

/-- A failure as JSON; without data it has no field `data`. -/
def toJson (f : Failure) : Json :=
  .object <|
    [("code", .int f.code.toInt), ("message", .str f.message)] ++
      (f.data.map fun d => ("data", d)).toList

/-- Reads a `Failure`; `data` may be left out. -/
def ofJson : Json.Reader Failure :=
  Json.Fields.record "JsonRpcError"
    (Failure.mk
      <$> .required "code" Json.Reader.signed32
      <*> .required "message" Json.Reader.text
      <*> .optional "data" Json.Reader.any)

end Failure

/-- The answer to a call, with the `id` of the call. -/
structure Answer where
  id : Json
  outcome : Except Failure Json

/-- An answer as JSON, with either `result` or `error`. -/
def Answer.toJson (a : Answer) : Json :=
  .object
    [("jsonrpc", .str "2.0"), ("id", a.id),
     match a.outcome with
     | .ok result => ("result", result)
     | .error f => ("error", f.toJson)]

/-- What the bridge says. An `answer` comes with the place of its call among all calls. -/
inductive Message where
  | answer (serial : Nat) (a : Answer)
  | notice (n : Notice)

/-- A message as JSON, by `Answer.toJson` or `Notice.toJson`. -/
def Message.toJson : Message → Json
  | .answer _ a => a.toJson
  | .notice n => n.toJson

/-- The line on which a message is written by `Json.write`. Members stand in the order of these
definitions, and those of objects inside a message by their keys. -/
def Message.line (m : Message) : String :=
  Json.write <|
    match m with
    | .answer _ a =>
      .obj
        [("jsonrpc", .str "2.0"), ("id", a.id),
         match a.outcome with
         | .ok result => ("result", result)
         | .error f =>
           ("error", .obj <|
             [("code", .int f.code.toInt), ("message", .str f.message)] ++
               (f.data.map fun d => ("data", d)).toList)]
    | .notice n => n.toJson

/-! ## Initialization -/

/-- What a caller tells about itself: its `name` and perhaps a `version`. -/
structure ClientInfo where
  name : String
  version : Option String
  deriving DecidableEq, Repr, Inhabited

/-- Reads a `ClientInfo`. -/
def ClientInfo.ofJson : Json.Reader ClientInfo :=
  Json.Fields.record "ClientInfo"
    (ClientInfo.mk
      <$> .required "name" Json.Reader.text
      <*> .optional "version" Json.Reader.text)

/-- The parameters of `initialize`. -/
structure InitializeParams where
  clientInfo : Option ClientInfo
  deriving DecidableEq, Repr, Inhabited

/-- Reads the parameters of `initialize`; `clientInfo` may be left out or `null`. -/
def InitializeParams.ofJson : Json.Reader InitializeParams :=
  Json.Fields.record "InitializeParams"
    (InitializeParams.mk
      <$> .default "clientInfo" none (Json.Reader.nullable ClientInfo.ofJson))

/-! ## Packets -/

/-- The text of an element for a caller: `content` decoded if that is possible, otherwise as it
stands. -/
def elementText (e : Element) : String :=
  match e.content with
  | .ok bytes => Text.Utf8.lossy bytes
  | .error _ => e.text

mutual

/-- An element as JSON: `name`, `attributes`, `text` without blanks around it, and `children`. -/
def elementJson : Element → Json
  | ⟨name, attributes, children, text⟩ =>
    .object
      [("name", .str name),
       ("attributes", .object (attributes.map fun a => (a.1, .str a.2))),
       ("text", .str (Text.trim (elementText ⟨name, attributes, children, text⟩))),
       ("children", .arr (elementJsons children))]

/-- A list of elements as JSON, each by `elementJson`. -/
def elementJsons : List Element → List Json
  | [] => []
  | e :: rest => elementJson e :: elementJsons rest

end

/-- The notice `session/started` of a new session, with its init packet. -/
def started (session : Nat) (init : Option Init) : Notice where
  method := "session/started"
  params := some (.object [("session_id", .nat session), ("init", .option Init.toJson init)])

/-- The notice `session/notify` of a notification from the engine, with the whole packet. -/
def notified (session : Nat) (n : Notify) : Notice where
  method := "session/notify"
  params := some (.object
    [("session_id", .nat session), ("name", .str n.name), ("packet", elementJson n.root)])

/-- The notice `session/output` of output of the debuggee. -/
def printed (session : Nat) (o : Output) : Notice where
  method := "session/output"
  params := some (.object
    [("session_id", .nat session), ("stream", .ofWord o.kind), ("text", .str o.text)])

/-- The notice `session/terminated` of the end of a session, with the failure it ended by, if it
did. -/
def terminated (session : Nat) (error : Option String) : Notice where
  method := "session/terminated"
  params := some (.object [("session_id", .nat session), ("error", .optionStr error)])

end Dbgp.Rpc
