import Dbgp.Session.Turn

/-!
# Mailboxes

A `Mailbox` has the packets of one kind that have arrived and not been received. Packets are received
one at a time and in order of arrival. After the mailbox is closed, those that are in it can still be
received.
-/

namespace Dbgp

/-- The packets of one kind that have arrived, with the `turn` of the tasks that receive them. -/
structure Mailbox (α : Type) where
  items : List α := []
  closed : Bool := false
  turn : Turn := {}
  deriving Repr, Inhabited

namespace Mailbox

/-- A packet arrives, behind the `items` that are there. -/
def put (a : α) (m : Mailbox α) : Mailbox α :=
  { m with items := m.items ++ [a] }

/-- Closes a mailbox: `look` still takes the `items` that are in it. -/
def close (m : Mailbox α) : Mailbox α :=
  { m with closed := true }

/-- What `look` finds in a mailbox; `closed` only if nothing is left in it. -/
inductive Look (α : Type) where
  | item (a : α)
  | closed
  | empty
  deriving Repr

/-- Takes the first of the `items`, if there is one. -/
def look (m : Mailbox α) : Look α × Mailbox α :=
  match m.items with
  | a :: rest => (.item a, { m with items := rest })
  | [] => (if m.closed then .closed else .empty, m)

end Mailbox

end Dbgp
