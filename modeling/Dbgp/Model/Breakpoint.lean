import Dbgp.Packet

/-!
# Breakpoints

`BreakpointSpec` says what a breakpoint should be, `Breakpoint` is one that the engine has, and
`BreakpointUpdate` says what to change about it.
-/

namespace Dbgp

open Xml (Element)

/-- What a breakpoint waits for and where; `kind` says which of the other fields matter. -/
structure BreakpointSpec where
  kind : BreakpointKind
  enabled : Bool := true
  file : Option String := none
  line : Option UInt32 := none
  function : Option String := none
  exception : Option String := none
  hitValue : Option UInt32 := none
  hitCondition : Option HitCondition := none
  /-- Whether the engine removes it after the first hit. -/
  temporary : Bool := false
  expression : Option String := none
  deriving DecidableEq, Repr, Inhabited

namespace BreakpointSpec

/-- Stops at a line, which is the kind `line`. -/
def atLine (file : String) (line : UInt32) : BreakpointSpec :=
  { kind := .line, file := some file, line := some line }

/-- Stops when a function is called, which is the kind `call`. -/
def onCall (function : String) : BreakpointSpec :=
  { kind := .call, function := some function }

/-- Stops when a function returns, which is the kind `return`. -/
def onReturn (function : String) : BreakpointSpec :=
  { kind := .return, function := some function }

/-- Stops when an exception is raised, which is the kind `exception`. -/
def onException (name : String) : BreakpointSpec :=
  { kind := .exception, exception := some name }

/-- Stops when an expression is true, which is the kind `conditional`. -/
def whenTrue (expression : String) : BreakpointSpec :=
  { kind := .conditional, expression := some expression }

/-- Stops when the value of an expression changes, which is the kind `watch`. -/
def onChange (expression : String) : BreakpointSpec :=
  { kind := .watch, expression := some expression }

/-- The same breakpoint at a place, by its `file` and `line`. -/
def place (s : BreakpointSpec) (file : String) (line : UInt32) : BreakpointSpec :=
  { s with file := some file, line := some line }

/-- The same breakpoint for some of its hits, by `hitValue` and `hitCondition`. -/
def forHits (s : BreakpointSpec) (value : UInt32) (condition : HitCondition) : BreakpointSpec :=
  { s with hitValue := some value, hitCondition := some condition }

/-- A spec as JSON, with every field of `BreakpointSpec`. -/
def toJson (s : BreakpointSpec) : Json :=
  .object
    [("breakpoint_type", .ofWord s.kind),
     ("enabled", .bool s.enabled),
     ("filename", .optionStr s.file),
     ("line_number", .option (fun n => .nat n.toNat) s.line),
     ("function", .optionStr s.function),
     ("exception", .optionStr s.exception),
     ("hit_value", .option (fun n => .nat n.toNat) s.hitValue),
     ("hit_condition", .option .ofWord s.hitCondition),
     ("temporary", .bool s.temporary),
     ("expression", .optionStr s.expression)]

/-- The fields of a spec, in the order of `toJson`. -/
def fields : Json.Fields BreakpointSpec :=
  BreakpointSpec.mk
    <$> .required "breakpoint_type" (Json.Reader.word BreakpointKind)
    <*> .required "enabled" Json.Reader.bool
    <*> .optional "filename" Json.Reader.text
    <*> .optional "line_number" Json.Reader.word32
    <*> .optional "function" Json.Reader.text
    <*> .optional "exception" Json.Reader.text
    <*> .optional "hit_value" Json.Reader.word32
    <*> .optional "hit_condition" (Json.Reader.word HitCondition)
    <*> .required "temporary" Json.Reader.bool
    <*> .optional "expression" Json.Reader.text

/-- Reads a `BreakpointSpec` from JSON. -/
def ofJson : Json.Reader BreakpointSpec :=
  fields.record "BreakpointSpec"

end BreakpointSpec

/-- A breakpoint of the engine: its spec, its `id`, and how often it was hit if the engine says so. -/
structure Breakpoint extends BreakpointSpec where
  id : String
  hitCount : Option UInt32
  deriving DecidableEq, Repr, Inhabited

namespace Breakpoint

/-- Reads a breakpoint. Without an `id` or a known `type` there is none; other attributes that cannot
be read count as missing. -/
def ofElement? (e : Element) : Option Breakpoint := do
  let id ← e.attr? "id"
  let kind ← (e.attr? "type").bind Vocabulary.find?
  let number := fun name => ((e.word32? name).toOption).join
  some {
    id := id
    kind := kind
    enabled := stateEnabled (e.attr? "state")
    file := e.attr? "filename"
    line := number "lineno"
    function := e.attr? "function"
    exception := e.attr? "exception"
    hitValue := number "hit_value"
    hitCondition := (e.attr? "hit_condition").bind Vocabulary.find?
    hitCount := number "hit_count"
    temporary := e.flag "temporary"
    expression := (e.child? "expression").bind fun c => c.content.toOption.map Text.Utf8.lossy }

/-- The breakpoints that a response lists, as far as `ofElement?` can read them. -/
def ofResponse (r : Response) : List Breakpoint :=
  (r.root.childrenNamed "breakpoint").filterMap ofElement?

/-- A breakpoint as JSON, with every field of `Breakpoint`. -/
def toJson (b : Breakpoint) : Json :=
  .object
    [("id", .str b.id),
     ("breakpoint_type", .ofWord b.kind),
     ("enabled", .bool b.enabled),
     ("filename", .optionStr b.file),
     ("line_number", .option (fun n => .nat n.toNat) b.line),
     ("function", .optionStr b.function),
     ("exception", .optionStr b.exception),
     ("hit_value", .option (fun n => .nat n.toNat) b.hitValue),
     ("hit_condition", .option .ofWord b.hitCondition),
     ("hit_count", .option (fun n => .nat n.toNat) b.hitCount),
     ("temporary", .bool b.temporary),
     ("expression", .optionStr b.expression)]

/-- The fields of a breakpoint, in the order of `toJson`. -/
def fields : Json.Fields Breakpoint :=
  (fun id kind enabled file line function exception hitValue hitCondition hitCount temporary
      expression =>
    { id, kind, enabled, file, line, function, exception, hitValue, hitCondition, hitCount,
      temporary, expression })
    <$> .required "id" Json.Reader.text
    <*> .required "breakpoint_type" (Json.Reader.word BreakpointKind)
    <*> .required "enabled" Json.Reader.bool
    <*> .optional "filename" Json.Reader.text
    <*> .optional "line_number" Json.Reader.word32
    <*> .optional "function" Json.Reader.text
    <*> .optional "exception" Json.Reader.text
    <*> .optional "hit_value" Json.Reader.word32
    <*> .optional "hit_condition" (Json.Reader.word HitCondition)
    <*> .optional "hit_count" Json.Reader.word32
    <*> .required "temporary" Json.Reader.bool
    <*> .optional "expression" Json.Reader.text

/-- Reads a `Breakpoint` from JSON. -/
def ofJson : Json.Reader Breakpoint :=
  fields.record "Breakpoint"

end Breakpoint

/-- What to change about a breakpoint; what is `none` stays. -/
structure BreakpointUpdate where
  enabled : Option Bool := none
  line : Option UInt32 := none
  hitValue : Option UInt32 := none
  hitCondition : Option HitCondition := none
  deriving DecidableEq, Repr, Inhabited

namespace BreakpointUpdate

/-- An update as JSON; what stays is `null`. -/
def toJson (u : BreakpointUpdate) : Json :=
  .object
    [("enabled", .option .bool u.enabled),
     ("line_number", .option (fun n => .nat n.toNat) u.line),
     ("hit_value", .option (fun n => .nat n.toNat) u.hitValue),
     ("hit_condition", .option .ofWord u.hitCondition)]

/-- The fields of an update, in the order of `toJson`. -/
def fields : Json.Fields BreakpointUpdate :=
  BreakpointUpdate.mk
    <$> .optional "enabled" Json.Reader.bool
    <*> .optional "line_number" Json.Reader.word32
    <*> .optional "hit_value" Json.Reader.word32
    <*> .optional "hit_condition" (Json.Reader.word HitCondition)

/-- Reads a `BreakpointUpdate` from JSON. -/
def ofJson : Json.Reader BreakpointUpdate :=
  fields.record "BreakpointUpdate"

end BreakpointUpdate

end Dbgp
