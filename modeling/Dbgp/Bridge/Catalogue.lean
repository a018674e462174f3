import Dbgp.Json.Value

/-!
# The catalogue

What the bridge tells a caller about its methods in answer to `initialize`: for each its name, a
description, and a schema of its parameters. Every method on a session takes a `session_id`; without
it the current session is meant.
-/

namespace Dbgp.Bridge.Catalogue

/-- A schema with a `type` and more. -/
def kindWith (name : String) (more : List (String × Json)) : Json :=
  .object (("type", .str name) :: more)

/-- A schema with a `type` only. -/
def kind (name : String) : Json :=
  kindWith name []

/-- A schema with a `type` and a `description`. -/
def described (name description : String) : Json :=
  kindWith name [("description", .str description)]

/-- The schema of a text that is one of some words, which `enum` lists. -/
def oneOf (words : List String) (more : List (String × Json)) : Json :=
  kindWith "string" (("enum", .arr (words.map .str)) :: more)

/-- The parameter `session_id`. -/
def sessionId : String × Json :=
  ("session_id", described "integer" "Target session (defaults to the current one)")

/-- The parameter `depth` of methods about a frame. -/
def depth : String × Json :=
  ("depth", described "integer" "Stack depth, 0 is the innermost frame")

/-- A schema of parameters under `properties`, none of which has to be given. -/
def params (properties : List (String × Json)) : Json :=
  kindWith "object" [("properties", .object properties)]

/-- A schema of parameters, some of which have to be given: `required` lists them. -/
def needing (required : List String) (properties : List (String × Json)) : Json :=
  kindWith "object" [("properties", .object properties), ("required", .arr (required.map .str))]

/-- Parameters of methods that need only a `session_id`. -/
def target : Json := params [sessionId]

/-- Parameters of methods that need an `id`. -/
def withId : Json := needing ["id"] [sessionId, ("id", kind "string")]

/-- The parameter `hit_condition`, with the words for comparing hits. -/
def hitCondition : String × Json :=
  ("hit_condition", oneOf [">=", "==", "%"] [])

/-- Names, descriptions and schemas of all methods that `Action.ofCall` knows. -/
def entries : List (String × String × Json) :=
  [("initialize", "Handshake; returns this catalogue", kind "object"),
   ("sessions/list", "List connected engine sessions", kind "object"),
   ("session/select", "Make a session current", needing ["session_id"] [sessionId]),
   ("session/terminate", "Close a session's connection", target),
   ("spawnpoint/set", "Stop new execution contexts at a source line",
    needing ["uri", "line"]
      [sessionId,
       ("uri", described "string" "File URI (e.g., 'file:///srv/app.tcl')"),
       ("line", kind "integer"),
       ("enabled", kindWith "boolean" [("default", .bool true)])]),
   ("spawnpoint/get", "Get a spawnpoint by id", withId),
   ("spawnpoint/list", "List spawnpoints", target),
   ("spawnpoint/update", "Enable, disable or move a spawnpoint",
    needing ["id"]
      [sessionId, ("id", kind "string"), ("enabled", kind "boolean"), ("line", kind "integer")]),
   ("spawnpoint/remove", "Remove a spawnpoint", withId),
   ("breakpoint/set", "Set a breakpoint",
    params
      [sessionId,
       ("type", oneOf ["line", "call", "return", "exception", "conditional", "watch"]
         [("default", .str "line")]),
       ("uri", kind "string"),
       ("line", kind "integer"),
       ("function", kind "string"),
       ("exception", kind "string"),
       ("expression", kind "string"),
       ("hit_value", kind "integer"),
       hitCondition,
       ("temporary", kindWith "boolean" [("default", .bool false)]),
       ("enabled", kindWith "boolean" [("default", .bool true)])]),
   ("breakpoint/get", "Get a breakpoint by id", withId),
   ("breakpoint/list", "List breakpoints", target),
   ("breakpoint/update", "Change a breakpoint's state, line or hit condition",
    needing ["id"]
      [sessionId, ("id", kind "string"), ("enabled", kind "boolean"), ("line", kind "integer"),
       ("hit_value", kind "integer"), hitCondition]),
   ("breakpoint/remove", "Remove a breakpoint", withId),
   ("status", "Current engine state", target),
   ("run", "Resume until the next breakpoint or the end", target),
   ("step_into", "Step to the next statement, entering calls", target),
   ("step_over", "Step to the next statement in this frame", target),
   ("step_out", "Run until the current frame returns", target),
   ("stop", "End the debuggee", target),
   ("detach", "Let the debuggee continue without the debugger", target),
   ("stack/get", "Stack frames, all or one depth", params [sessionId, depth]),
   ("context/names", "Variable contexts available at a depth", params [sessionId, depth]),
   ("context/get", "Variables of one context",
    params [sessionId, depth, ("context_id", kindWith "integer" [("default", .int 0)])]),
   ("property/get", "One variable and its children",
    needing ["name"]
      [sessionId, ("name", described "string" "Full property name"), depth,
       ("context_id", kind "integer")]),
   ("eval", "Evaluate an expression in the current frame",
    needing ["expression"] [sessionId, ("expression", kind "string")]),
   ("source", "Source text of a file, optionally a line range",
    params
      [sessionId, ("uri", kind "string"), ("begin", kind "integer"), ("end", kind "integer")])]

/-- The methods of the notices that the bridge sends, such as `session/started`. -/
def notices : List String :=
  ["session/started", "session/notify", "session/output", "session/terminated"]

/-- The answer to `initialize`: the `entries` and the `notices`, and the address where engines
connect. -/
def toJson (address : String) : Json :=
  .object
    [("serverInfo", .object [("name", .str "dbgp-bridge"), ("version", .str "0.1.0")]),
     ("listenAddress", .str address),
     ("methods", .arr (entries.map fun (name, description, schema) =>
       .object
         [("name", .str name), ("description", .str description), ("paramsSchema", schema)])),
     ("notifications", .arr (notices.map .str))]

end Dbgp.Bridge.Catalogue
