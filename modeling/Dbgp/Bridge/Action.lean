import Dbgp.Bridge.Message
import Dbgp.Command

/-!
# What a call asks for

Method and parameters of a call as an `Action`. All that can be wrong with them is found here, before
anything is done.
-/

namespace Dbgp.Bridge

open Rpc (Failure)

/-- What the answer to a command shows; `Shown.json` makes the JSON of it. -/
inductive Shown where
  /-- What the command came to. -/
  | reply
  /-- Which breakpoint or spawnpoint it was about. -/
  | id (id : String)
  /-- The text it came to, by name. -/
  | source
  deriving DecidableEq, Repr, Inhabited

/-- What a call asks for. A `target` is the number of a session; without it the current one is
meant. -/
inductive Action where
  | describe
  | listSessions
  | select (session : Nat)
  | terminate (target : Option Nat)
  | command (target : Option Nat) (c : Command) (shown : Shown)
  deriving DecidableEq, Repr, Inhabited

namespace Action

/-- The parameter `session_id`, which may be left out in all methods that use this. -/
def targeted : Json.Fields (Option Nat) :=
  (fun id => id.map UInt64.toNat) <$> .optional "session_id" Json.Reader.word64

/-- A command whose method takes no parameter but `session_id`. -/
def plain (c : Command) : Json.Reader Action :=
  Json.Fields.record "TargetParams" ((fun target => .command target c .reply) <$> targeted)

/-- A command about something with an `id`, such as `breakpoint/get` and `spawnpoint/remove`. -/
def aboutId (c : String → Command) (shown : String → Shown) : Json.Reader Action :=
  Json.Fields.record "IdParams"
    ((fun target id => .command target (c id) (shown id))
      <$> targeted
      <*> .required "id" Json.Reader.text)

/-- The parameters of `spawnpoint/set`; `enabled` is true unless given. -/
def setSpawnpoint : Json.Reader Action :=
  Json.Fields.record "SpawnpointSetParams"
    ((fun target file line enabled => .command target (.setSpawnpoint file line enabled) .reply)
      <$> targeted
      <*> .required "uri" Json.Reader.text
      <*> .required "line" Json.Reader.word32
      <*> .default "enabled" true Json.Reader.bool)

/-- The parameters of `spawnpoint/update`; the answer is the `id` that was given. -/
def updateSpawnpoint : Json.Reader Action :=
  Json.Fields.record "SpawnpointUpdateParams"
    ((fun target id enabled line => .command target (.updateSpawnpoint id enabled line) (.id id))
      <$> targeted
      <*> .required "id" Json.Reader.text
      <*> .optional "enabled" Json.Reader.bool
      <*> .optional "line" Json.Reader.word32)

/-- The parameters of `breakpoint/set`, all of which may be left out as far as this reader goes;
`lacking` says what a kind needs. -/
def setBreakpoint : Json.Reader (Option Nat × BreakpointSpec) :=
  Json.Fields.record "BreakpointSetParams"
    ((fun target kind file line function exception expression hitValue hitCondition temporary
        enabled =>
      (target,
        { kind := kind.getD .line, file, line, function, exception, expression, hitValue,
          hitCondition, temporary, enabled }))
      <$> targeted
      <*> .optional "type" (Json.Reader.word BreakpointKind)
      <*> .optional "uri" Json.Reader.text
      <*> .optional "line" Json.Reader.word32
      <*> .optional "function" Json.Reader.text
      <*> .optional "exception" Json.Reader.text
      <*> .optional "expression" Json.Reader.text
      <*> .optional "hit_value" Json.Reader.word32
      <*> .optional "hit_condition" (Json.Reader.word HitCondition)
      <*> .default "temporary" false Json.Reader.bool
      <*> .default "enabled" true Json.Reader.bool)

/-- The first parameter that a breakpoint of its `kind` needs and does not have. -/
def lacking (s : BreakpointSpec) : Option String :=
  match s.kind with
  | .line => if s.file.isNone then some "uri" else if s.line.isNone then some "line" else none
  | .call | .return => if s.function.isNone then some "function" else none
  | .exception => if s.exception.isNone then some "exception" else none
  | .conditional | .watch => if s.expression.isNone then some "expression" else none

/-- The parameters of `breakpoint/update`; the answer is the `id` that was given. -/
def updateBreakpoint : Json.Reader Action :=
  Json.Fields.record "BreakpointUpdateParams"
    ((fun target id enabled line hitValue hitCondition =>
      .command target (.updateBreakpoint id ⟨enabled, line, hitValue, hitCondition⟩) (.id id))
      <$> targeted
      <*> .required "id" Json.Reader.text
      <*> .optional "enabled" Json.Reader.bool
      <*> .optional "line" Json.Reader.word32
      <*> .optional "hit_value" Json.Reader.word32
      <*> .optional "hit_condition" (Json.Reader.word HitCondition))

/-- A command about a frame, such as `stack/get` and `context/names`; `depth` may be left out. -/
def atDepth (c : Option UInt32 → Command) : Json.Reader Action :=
  Json.Fields.record "DepthParams"
    ((fun target depth => .command target (c depth) .reply)
      <$> targeted
      <*> .optional "depth" Json.Reader.word32)

/-- The parameters of `context/get`. -/
def getContext : Json.Reader Action :=
  Json.Fields.record "ContextGetParams"
    ((fun target depth context => .command target (.getContext depth context) .reply)
      <$> targeted
      <*> .optional "depth" Json.Reader.word32
      <*> .optional "context_id" Json.Reader.word32)

/-- The parameters of `property/get`. -/
def getProperty : Json.Reader Action :=
  Json.Fields.record "PropertyGetParams"
    ((fun target name depth context => .command target (.getProperty name depth context) .reply)
      <$> targeted
      <*> .required "name" Json.Reader.text
      <*> .optional "depth" Json.Reader.word32
      <*> .optional "context_id" Json.Reader.word32)

/-- The parameters of `eval`. -/
def evaluate : Json.Reader Action :=
  Json.Fields.record "EvalParams"
    ((fun target expression => .command target (.evaluate expression) .reply)
      <$> targeted
      <*> .required "expression" Json.Reader.text)

/-- The parameters of `source`; the answer has the text under the name `source`. -/
def source : Json.Reader Action :=
  Json.Fields.record "SourceParams"
    ((fun target file first last => .command target (.source file first last) .source)
      <$> targeted
      <*> .optional "uri" Json.Reader.text
      <*> .optional "begin" Json.Reader.word32
      <*> .optional "end" Json.Reader.word32)

/-- The reader of the parameters of a method, for all methods but `breakpoint/set`, which checks more,
and `sessions/list`, which takes none. -/
def reader? (method : String) : Option (Json.Reader Action) :=
  match method with
  | "initialize" => some fun v => (fun _ => .describe) <$> Rpc.InitializeParams.ofJson v
  | "session/select" =>
    some (Json.Fields.record "SelectParams"
      ((fun id => .select (UInt64.toNat id)) <$> .required "session_id" Json.Reader.word64))
  | "session/terminate" => some (Json.Fields.record "TargetParams" (.terminate <$> targeted))
  | "spawnpoint/set" => some setSpawnpoint
  | "spawnpoint/get" => some (aboutId .getSpawnpoint fun _ => .reply)
  | "spawnpoint/list" => some (plain .listSpawnpoints)
  | "spawnpoint/update" => some updateSpawnpoint
  | "spawnpoint/remove" => some (aboutId .removeSpawnpoint .id)
  | "breakpoint/get" => some (aboutId .getBreakpoint fun _ => .reply)
  | "breakpoint/list" => some (plain .listBreakpoints)
  | "breakpoint/update" => some updateBreakpoint
  | "breakpoint/remove" => some (aboutId .removeBreakpoint .id)
  | "status" => some (plain .status)
  | "run" => some (plain (.proceed .run))
  | "step_into" => some (plain (.proceed .stepInto))
  | "step_over" => some (plain (.proceed .stepOver))
  | "step_out" => some (plain (.proceed .stepOut))
  | "stop" => some (plain (.proceed .stop))
  | "detach" => some (plain (.proceed .detach))
  | "stack/get" => some (atDepth .getStack)
  | "context/names" => some (atDepth .contextNames)
  | "context/get" => some getContext
  | "property/get" => some getProperty
  | "eval" => some evaluate
  | "source" => some source
  | _ => none

/-- The failure of parameters that a reader refuses with a `Json.Fault`. -/
def unfit (f : Json.Fault) : Failure :=
  .invalidParams ("Invalid params: " ++ f.message)

/-- What a call asks for. Without `params` an empty object is meant. -/
def ofCall (method : String) (params : Option Json) : Except Failure Action :=
  let given := params.getD (.obj [])
  if method = "sessions/list" then .ok .listSessions
  else if method = "breakpoint/set" then
    match setBreakpoint given with
    | .error f => .error (unfit f)
    | .ok (target, spec) =>
      match lacking spec with
      | some field =>
        .error (.invalidParams
          ("'" ++ Vocabulary.word spec.kind ++ "' breakpoints need '" ++ field ++ "'"))
      | none => .ok (.command target (.setBreakpoint spec) .reply)
  else
    match reader? method with
    | none => .error (.unknownMethod method)
    | some read => (read given).mapError unfit

end Action

end Dbgp.Bridge
