/-!
# Turns

A `Turn` is about a thing that one task at a time may use, in the order in which they asked for it.
The task at the head of the `line` has it.
-/

namespace Dbgp

/-- The tasks that have or want a thing, in a `line` whose head has it. -/
structure Turn where
  line : List Nat := []
  deriving DecidableEq, Repr, Inhabited

namespace Turn

/-- Whether a task has the thing: it is at the head of the `line`. -/
def isHeldBy (task : Nat) (t : Turn) : Bool :=
  t.line.head? = some task

/-- Asks for the thing, at the end of the `line`. -/
def join (task : Nat) (t : Turn) : Turn :=
  ⟨t.line ++ [task]⟩

/-- Gives the thing back, or does not want it any more: the task is nowhere in the `line`
afterwards. -/
def leave (task : Nat) (t : Turn) : Turn :=
  ⟨t.line.filter (· ≠ task)⟩

end Turn

end Dbgp
