import Dbgp.Packet

/-!
# Response slots

A slot for a transaction exists from the time its response is expected until the response is taken or
nobody wants it any more. A response that finds no empty slot is dropped. Whoever waits for a response
listens to a bell that is rung after a slot has been filled and after the slots have been closed;
`rung` counts how often.
-/

namespace Dbgp

/-- The slots of a session: each of the `entries` is a transaction id with the response that has come,
if one has. -/
structure Slots where
  entries : List (UInt32 × Option Response) := []
  closed : Bool := false
  rung : Nat := 0
  deriving Repr, Inhabited

namespace Slots

/-- The slot of a transaction, if there is one; `some none` is an empty slot. -/
def get? (s : Slots) (t : UInt32) : Option (Option Response) :=
  (s.entries.find? fun e => e.1 = t).map (·.2)

/-- How many slots there are in `entries`. -/
def size (s : Slots) : Nat :=
  s.entries.length

/-- Removes the slot of a transaction, with the `Response` that may be in it. -/
def forget (t : UInt32) (s : Slots) : Slots :=
  { s with entries := s.entries.filter fun e => e.1 ≠ t }

/-- Makes an empty slot unless `get?` finds one, empty or not. -/
def register (t : UInt32) (s : Slots) : Slots :=
  if (s.get? t).isSome then s else { s with entries := s.entries ++ [(t, none)] }

/-- Makes a slot for a response that is expected, as `register` does, unless the slots are
`closed`. -/
def expect (t : UInt32) (s : Slots) : Option Slots :=
  if s.closed then none else some (s.register t)

/-- Puts a response into the slot of its `transaction` if that slot is there and empty. -/
def fill (r : Response) (s : Slots) : Option Slots :=
  match s.get? r.transaction with
  | some none =>
    some { s with entries := s.entries.map fun e =>
      if e.1 = r.transaction then (e.1, some r) else e }
  | _ => none

/-- What `look` finds in the slot of a transaction. -/
inductive Look where
  | found (r : Response)
  | closed
  | empty
  deriving Repr

/-- Looks for the response of a transaction. What is `found` is taken; otherwise there is an empty
slot afterwards, unless the slots are `closed`. -/
def look (t : UInt32) (s : Slots) : Look × Slots :=
  match s.get? t with
  | some (some r) => (.found r, s.forget t)
  | _ =>
    let s := s.forget t
    if s.closed then (.closed, s) else (.empty, s.register t)

/-- Closes the slots: `expect` and `look` make none from now on. -/
def close (s : Slots) : Slots :=
  { s with closed := true }

/-- Rings the bell, on which a `Wait` that sleeps looks at its slot again. -/
def ring (s : Slots) : Slots :=
  { s with rung := s.rung + 1 }

end Slots

end Dbgp
