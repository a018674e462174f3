import Dbgp.Error

/-!
# Lifecycle

A session is `connected`, then `terminating`, then `terminated`, and never goes back. Whoever wants to
know of the end registers a listener. Completing the end takes several actions, between which others
may act: the listeners are taken, each is called, and only then the session counts as terminated.
-/

namespace Dbgp

/-- Where a session is on its way to the end: `connected` until the end begins, `terminated` once
every listener has been called. -/
inductive Stage where
  | connected
  | terminating
  | terminated
  deriving DecidableEq, Repr, Inhabited

/-- The name of a stage, as `sessions/list` shows it under `state`. -/
def Stage.word : Stage → String
  | .connected => "connected"
  | .terminating => "terminating"
  | .terminated => "terminated"

/-- The way of a session to its end: its `stage` and the `listeners` that want to know of the end. -/
structure Lifecycle where
  stage : Stage := .connected
  /-- Whether the listeners have been taken to be called. -/
  fired : Bool := false
  listeners : List String := []
  deriving DecidableEq, Repr, Inhabited

/-- A listener was told that the session is over, and why: `error` is `none` after an end without a
failure. -/
structure ListenerCall where
  listener : String
  error : Option Error
  deriving DecidableEq, Repr

namespace Lifecycle

/-- Whether commands are still served, which is in the stage `connected` only. -/
def isConnected (l : Lifecycle) : Bool :=
  l.stage = .connected

/-- Begins the end of a session: `connected` becomes `terminating`, any later stage stays. -/
def begin (l : Lifecycle) : Lifecycle :=
  if l.stage = .connected then { l with stage := .terminating } else l

/-- Takes the listeners and marks the lifecycle as `fired`; the second time there is nothing to
take. -/
def take (l : Lifecycle) : Option (List String) × Lifecycle :=
  if l.fired then (none, l)
  else (some l.listeners, { l with fired := true, listeners := [] })

/-- Completes the end, once all listeners that `take` gave have been called. -/
def settle (l : Lifecycle) : Lifecycle :=
  { l with stage := .terminated }

/-- `begin`, `take`, the calls and `settle`, with nothing in between. -/
def complete (error : Option Error) (l : Lifecycle) : List ListenerCall × Lifecycle :=
  match l.begin.take with
  | (none, l) => ([], l)
  | (some listeners, l) => (listeners.map fun name => ⟨name, error⟩, l.settle)

/-- Registers a listener. One that comes after `take` is called at once, and is not told of an
error. -/
def addListener (name : String) (l : Lifecycle) : List ListenerCall × Lifecycle :=
  if l.fired then ([⟨name, none⟩], l) else ([], { l with listeners := l.listeners ++ [name] })

/-- Removes every registration of a listener from `listeners`. -/
def removeListener (name : String) (l : Lifecycle) : Lifecycle :=
  { l with listeners := l.listeners.filter (· ≠ name) }

end Lifecycle

end Dbgp
