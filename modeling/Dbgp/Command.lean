import Dbgp.Config
import Dbgp.Model.Breakpoint
import Dbgp.Model.Engine
import Dbgp.Model.Property
import Dbgp.Model.Spawnpoint
import Dbgp.Model.Stack
import Dbgp.Wire.Request

/-!
# Commands

What can be asked of an engine. A `Command` determines the `request` that is sent, the `patience` with
which its response is awaited, and by `read` what the response means.
-/

namespace Dbgp

/-- Commands that are answered only when the debuggee stops again: `patience` gives them any time. -/
inductive Continuation where
  | run
  | stepInto
  | stepOver
  | stepOut
  | stop
  | detach
  deriving DecidableEq, Repr, Inhabited

/-- The name of a continuation on the wire, such as `step_into`. -/
def Continuation.word : Continuation → String
  | .run => "run"
  | .stepInto => "step_into"
  | .stepOver => "step_over"
  | .stepOut => "step_out"
  | .stop => "stop"
  | .detach => "detach"

/-- A `Request` without its transaction id. -/
structure Draft where
  command : String
  options : List (String × String) := []
  arguments : List String := []
  deriving DecidableEq, Repr, Inhabited

/-- The `Request` that a draft becomes; the transaction id stands before its own options. -/
def Draft.request (d : Draft) (transaction : UInt32) : Request :=
  let r := Request.new d.command transaction
  { r with options := r.options ++ d.options, arguments := d.arguments }

/-- How long an `Exchange` waits for a response. -/
inductive Patience where
  /-- As long as the configuration says. -/
  | configured
  /-- A number of milliseconds. -/
  | millis (n : Nat)
  /-- As long as it takes. -/
  | unbounded
  deriving DecidableEq, Repr, Inhabited

/-- The milliseconds to wait, if there is a bound; `configured` is the `responseTimeout`. -/
def Patience.limit (config : Config) : Patience → Option Nat
  | .configured => some config.responseTimeout.toNat
  | .millis n => some n
  | .unbounded => none

/-- A command for an engine; `request`, `patience` and `read` say all about it. -/
inductive Command where
  | status
  | proceed (how : Continuation)
  | interrupt
  | getFeature (name : String)
  | setFeature (name value : String)
  | setBreakpoint (spec : BreakpointSpec)
  | getBreakpoint (id : String)
  | listBreakpoints
  | updateBreakpoint (id : String) (update : BreakpointUpdate)
  | removeBreakpoint (id : String)
  | setSpawnpoint (file : String) (line : UInt32) (enabled : Bool)
  | getSpawnpoint (id : String)
  | listSpawnpoints
  | updateSpawnpoint (id : String) (enabled : Option Bool) (line : Option UInt32)
  | removeSpawnpoint (id : String)
  | stackDepth
  | getStack (depth : Option UInt32)
  | contextNames (depth : Option UInt32)
  | getContext (depth context : Option UInt32)
  | getProperty (name : String) (depth context : Option UInt32)
  | setProperty (name value : String) (depth context : Option UInt32)
  | propertyValue (name : String) (depth context : Option UInt32)
  | evaluate (expression : String)
  | source (file : Option String) (first last : Option UInt32)
  | redirect (kind : StreamKind) (mode : StreamMode)
  /-- Any request, answered by its response. -/
  | exchange (draft : Draft) (patience : Patience)
  /-- Any request that is not answered. -/
  | send (draft : Draft)
  deriving DecidableEq, Repr, Inhabited

/-- What a `Job` came to. -/
inductive Reply where
  | done
  | status (s : StatusInfo)
  | feature (f : FeatureValue)
  | success (flag : Bool)
  | breakpoint (b : Option Breakpoint)
  | breakpoints (bs : List Breakpoint)
  | spawnpoint (s : Option Spawnpoint)
  | spawnpoints (ss : List Spawnpoint)
  | number (n : UInt32)
  | frames (fs : List StackFrame)
  | contexts (cs : List ContextInfo)
  | property (p : Property)
  | properties (ps : List Property)
  | text (s : String)
  | response (r : Option Response)
  | notify (n : Option Notify)
  | output (o : Option Output)
  deriving Repr

namespace Command

/-- Whether a command has to be preceded by the `negotiation`: all commands about spawnpoints have
to. -/
def negotiates : Command → Bool
  | .setSpawnpoint .. | .getSpawnpoint _ | .listSpawnpoints | .updateSpawnpoint ..
  | .removeSpawnpoint _ => true
  | _ => false

/-- Whether a command is sent without waiting for a response: `interrupt` and `send` are. -/
def isAsync : Command → Bool
  | .interrupt | .send _ => true
  | _ => false

/-- How long a command waits for its response; only `proceed` and `exchange` do not take the
configured time. -/
def patience : Command → Patience
  | .proceed _ => .unbounded
  | .exchange _ p => p
  | _ => .configured

/-! ## Requests -/

/-- A text as an argument of a request: its UTF-8 octets in `Text.Base64`. -/
def argument (s : String) : String :=
  Text.Base64.encode (Text.Utf8.encode s)

/-- Adds the options `-d` and `-c`, which name a frame and a context, as far as they are given. -/
def inFrame (r : Request) (depth context : Option UInt32) : Request :=
  (r.withOptionalNumber "-d" depth).withOptionalNumber "-c" context

/-- Adds a text as `argument`, and the length of the argument as option `-l`. -/
def withText (r : Request) (s : String) : Request :=
  let encoded := argument s
  (r.withOption "-l" (Text.Numeral.write (Text.Utf8.encode encoded).length)).withArgument encoded

/-- The request `breakpoint_set`, with an option for every field that is given and the expression as
argument. -/
def breakpointRequest (t : UInt32) (s : BreakpointSpec) : Request :=
  let r := Request.new "breakpoint_set" t
    |>.withOption "-t" (Vocabulary.word s.kind)
    |>.withOption "-s" (stateWord s.enabled)
    |>.withOptional "-f" s.file
    |>.withOptionalNumber "-n" s.line
    |>.withOptional "-m" s.function
    |>.withOptional "-x" s.exception
    |>.withOptionalNumber "-h" s.hitValue
    |>.withOptional "-o" (s.hitCondition.map Vocabulary.word)
  let r := if s.temporary then r.withOption "-r" "1" else r
  match s.expression with
  | some e => r.withArgument (argument e)
  | none => r

/-- The request of a command with the transaction id `t`. -/
def request (t : UInt32) : Command → Request
  | .status => .new "status" t
  | .proceed how => .new how.word t
  | .interrupt => .newAsync "break" t
  | .getFeature name => (Request.new "feature_get" t).withOption "-n" name
  | .setFeature name value =>
    ((Request.new "feature_set" t).withOption "-n" name).withOption "-v" value
  | .setBreakpoint spec => breakpointRequest t spec
  | .getBreakpoint id => (Request.new "breakpoint_get" t).withOption "-d" id
  | .listBreakpoints => .new "breakpoint_list" t
  | .updateBreakpoint id u =>
    (Request.new "breakpoint_update" t).withOption "-d" id
      |>.withOptional "-s" (u.enabled.map stateWord)
      |>.withOptionalNumber "-n" u.line
      |>.withOptionalNumber "-h" u.hitValue
      |>.withOptional "-o" (u.hitCondition.map Vocabulary.word)
  | .removeBreakpoint id => (Request.new "breakpoint_remove" t).withOption "-d" id
  | .setSpawnpoint file line enabled =>
    (Request.new "spawnpoint_set" t).withOption "-f" file
      |>.withNumber "-n" line
      |>.withOption "-s" (stateWord enabled)
  | .getSpawnpoint id => (Request.new "spawnpoint_get" t).withOption "-d" id
  | .listSpawnpoints => .new "spawnpoint_list" t
  | .updateSpawnpoint id enabled line =>
    (Request.new "spawnpoint_update" t).withOption "-d" id
      |>.withOptional "-s" (enabled.map stateWord)
      |>.withOptionalNumber "-n" line
  | .removeSpawnpoint id => (Request.new "spawnpoint_remove" t).withOption "-d" id
  | .stackDepth => .new "stack_depth" t
  | .getStack depth => (Request.new "stack_get" t).withOptionalNumber "-d" depth
  | .contextNames depth => (Request.new "context_names" t).withOptionalNumber "-d" depth
  | .getContext depth context => inFrame (.new "context_get" t) depth context
  | .getProperty name depth context =>
    inFrame ((Request.new "property_get" t).withOption "-n" name) depth context
  | .setProperty name value depth context =>
    withText (inFrame ((Request.new "property_set" t).withOption "-n" name) depth context) value
  | .propertyValue name depth context =>
    inFrame ((Request.new "property_value" t).withOption "-n" name) depth context
  | .evaluate expression => withText (.new "eval" t) expression
  | .source file first last =>
    (Request.new "source" t).withOptional "-f" file
      |>.withOptionalNumber "-b" first
      |>.withOptionalNumber "-e" last
  | .redirect kind mode =>
    (Request.new (Vocabulary.word kind) t).withOption "-c" (Text.Numeral.write mode.code)
  | .exchange draft _ => draft.request t
  | .send draft => { draft.request t with isAsync := true }

/-! ## Responses -/

/-- Whether a breakpoint or spawnpoint is on after it was set: as the attribute `state` of the
response says, or else as was asked. -/
def enabledAfter (asked : Bool) (r : Response) : Bool :=
  match r.root.attr? "state" with
  | some state => stateEnabled (some state)
  | none => asked

/-- What a response that passed `Response.check` means for a command. -/
def read (r : Response) : Command → Except Error Reply
  | .status | .proceed _ => .status <$> StatusInfo.ofResponse r
  | .getFeature name => .ok (.feature (.ofResponse name r))
  | .setFeature .. | .setProperty .. | .redirect .. => .ok (.success r.isSuccess)
  | .setBreakpoint spec => do
    let id ← r.root.attr "id"
    .ok (.breakpoint
      (some { spec with id := id, hitCount := none, enabled := enabledAfter spec.enabled r }))
  | .getBreakpoint _ => .ok (.breakpoint (Breakpoint.ofResponse r).head?)
  | .listBreakpoints => .ok (.breakpoints (Breakpoint.ofResponse r))
  | .setSpawnpoint file line enabled => do
    let id ← r.root.attr "id"
    .ok (.spawnpoint (some ⟨id, file, line, enabledAfter enabled r⟩))
  | .getSpawnpoint _ => .ok (.spawnpoint (Spawnpoint.ofResponse r).head?)
  | .listSpawnpoints => .ok (.spawnpoints (Spawnpoint.ofResponse r))
  | .stackDepth => do
    match ← r.root.word32? "depth" with
    | some n => .ok (.number n)
    | none => .error (.protocol .noDepth)
  | .getStack _ => .ok (.frames (StackFrame.ofResponse r))
  | .contextNames _ => .ok (.contexts (ContextInfo.ofResponse r))
  | .getContext .. => .ok (.properties (Property.allOfResponse r))
  | .getProperty .. | .evaluate _ => .property <$> Property.ofResponse r
  | .propertyValue .. | .source .. => .text <$> Property.decodedText r.root
  | .exchange .. => .ok (.response (some r))
  | .updateBreakpoint .. | .removeBreakpoint _ | .updateSpawnpoint .. | .removeSpawnpoint _
  | .interrupt | .send _ => .ok .done

/-- The command by which an engine is told that there may be several sessions: `feature_set` of
`multiple_sessions`. -/
def negotiation : Command :=
  .setFeature "multiple_sessions" "1"

end Command

end Dbgp
