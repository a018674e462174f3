/-!
# The registry

`Registry` says which sessions the bridge has, and which of them is meant when a call names none. A
session that is registered becomes the `current` one; when the current one goes, the youngest of those
that are left takes its place. Sessions are numbered in the order in which they come.
-/

namespace Dbgp.Bridge

/-- The sessions of a bridge: those that are `tracked`, in order of their numbers, and the `current`
one. -/
structure Registry where
  tracked : List Nat := []
  current : Option Nat := none
  deriving DecidableEq, Repr, Inhabited

namespace Registry

/-- Whether a session is among the `tracked` ones. -/
def isTracked (id : Nat) (r : Registry) : Bool :=
  r.tracked.contains id

/-- Puts a session at its place among the others, once: `tracked` stays in order. -/
def insert (id : Nat) : List Nat → List Nat
  | [] => [id]
  | k :: rest => if id < k then id :: k :: rest else if id = k then k :: rest else k :: insert id rest

/-- A session comes: it is `tracked` from now on, and `current` stays as it is. -/
def track (id : Nat) (r : Registry) : Registry :=
  { r with tracked := insert id r.tracked }

/-- A session becomes the `current` one, whether it is tracked or not. -/
def makeCurrent (id : Nat) (r : Registry) : Registry :=
  { r with current := some id }

/-- A session goes. If it was the `current` one, the youngest of those that are left takes its
place. -/
def forget (id : Nat) (r : Registry) : Registry :=
  let tracked := r.tracked.filter (· ≠ id)
  { tracked, current := if r.current = some id then tracked.max? else r.current }

/-- The session that a call means: the one it names or else the `current` one, if that is tracked. -/
def target? (named : Option Nat) (r : Registry) : Option Nat :=
  (named.or r.current).filter fun id => r.isTracked id

/-- `track` and `makeCurrent`, with nothing in between. -/
def register (id : Nat) (r : Registry) : Registry :=
  (r.track id).makeCurrent id

/-- `makeCurrent` for a session that is tracked, with nothing between looking and changing. -/
def select (id : Nat) (r : Registry) : Option Registry :=
  if r.isTracked id then some (r.makeCurrent id) else none

end Registry

end Dbgp.Bridge
