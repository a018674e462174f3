/-!
# Words of the protocol

Attribute values and options that come from a fixed list of words. Each list is a type with one
constructor per word; `Vocabulary` ties the type to its words, so that reading and writing cannot
disagree.
-/

namespace Dbgp

/-- A type whose values are written as words of a fixed list. -/
class Vocabulary (α : Type) where
  /-- What the list is called in messages. -/
  title : String
  /-- The values, in the order in which messages list their words. -/
  all : List α
  /-- The word of a value. -/
  word : α → String

namespace Vocabulary

variable {α : Type} [Vocabulary α]

/-- The value whose `word` is the given one. -/
def find? (s : String) : Option α :=
  (all : List α).find? fun a => word a = s

/-- The words of a type, in the order of `all`. -/
def words (α : Type) [Vocabulary α] : List String :=
  (all : List α).map word

end Vocabulary

/-- What an engine is doing, by the attribute `status`. -/
inductive EngineStatus where
  | starting
  | stopping
  | stopped
  | running
  | paused
  deriving DecidableEq, Repr, Inhabited

instance : Vocabulary EngineStatus where
  title := "SessionStatus"
  all := [.starting, .stopping, .stopped, .running, .paused]
  word
    | .starting => "starting"
    | .stopping => "stopping"
    | .stopped => "stopped"
    | .running => "running"
    | .paused => "break"

/-- Why an engine is doing it, by the attribute `reason`. -/
inductive StatusReason where
  | fine
  | failure
  | aborted
  | raised
  deriving DecidableEq, Repr, Inhabited

instance : Vocabulary StatusReason where
  title := "StatusReason"
  all := [.fine, .failure, .aborted, .raised]
  word
    | .fine => "ok"
    | .failure => "error"
    | .aborted => "aborted"
    | .raised => "exception"

/-- Which output of the debuggee an element `stream` carries. -/
inductive StreamKind where
  | stdout
  | stderr
  deriving DecidableEq, Repr, Inhabited

instance : Vocabulary StreamKind where
  title := "StreamKind"
  all := [.stdout, .stderr]
  word
    | .stdout => "stdout"
    | .stderr => "stderr"

/-- What an engine does with output of the debuggee: keep it, `copy` it, or send it only here. -/
inductive StreamMode where
  | disable
  | copy
  | redirect
  deriving DecidableEq, Repr, Inhabited

instance : Vocabulary StreamMode where
  title := "StreamMode"
  all := [.disable, .copy, .redirect]
  word
    | .disable => "disable"
    | .copy => "copy"
    | .redirect => "redirect"

/-- The number that stands for a mode in the option `-c` of `stdout` and `stderr`. -/
def StreamMode.code : StreamMode → Nat
  | .disable => 0
  | .copy => 1
  | .redirect => 2

/-- What a breakpoint waits for, by the option `-t` of `breakpoint_set`. -/
inductive BreakpointKind where
  | line
  | call
  | return
  | exception
  | conditional
  | watch
  deriving DecidableEq, Repr, Inhabited

instance : Vocabulary BreakpointKind where
  title := "BreakpointType"
  all := [.line, .call, .return, .exception, .conditional, .watch]
  word
    | .line => "line"
    | .call => "call"
    | .return => "return"
    | .exception => "exception"
    | .conditional => "conditional"
    | .watch => "watch"

/-- How the number of hits of a breakpoint is compared with its hit value, by the option `-o`. -/
inductive HitCondition where
  | atLeast
  | equal
  | multiple
  deriving DecidableEq, Repr, Inhabited

instance : Vocabulary HitCondition where
  title := "HitCondition"
  all := [.atLeast, .equal, .multiple]
  word
    | .atLeast => ">="
    | .equal => "=="
    | .multiple => "%"

/-- The word for a breakpoint or spawnpoint that is on or off, in the option `-s`. -/
def stateWord (enabled : Bool) : String :=
  if enabled then "enabled" else "disabled"

/-- Only the word `disabled` means off; anything else, and silence, means on. -/
def stateEnabled (word : Option String) : Bool :=
  word != some "disabled"

end Dbgp
