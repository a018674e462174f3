import Dbgp.Session.Exchange

/-!
# Tasks

A `Task` does one `Job` on one session, action by action. Commands that have to be preceded by a
negotiation see to it first: one task negotiates, the others wait for it, and whatever comes of it
they all go on. Packets are received by one task at a time; a task that has to wait for its turn does
so without limit, and only then the time it was given begins.
-/

namespace Dbgp

/-- What can be done on a session: a `Command` with all that belongs to it, or one of the smaller
operations. -/
inductive Job where
  | command (c : Command)
  | nextNotify (limit : Option Nat)
  | nextOutput (limit : Option Nat)
  | expectResponse (transaction : UInt32)
  | forgetResponse (transaction : UInt32)
  | awaitResponse (transaction : UInt32) (limit : Option Nat)
  | terminate
  | awaitEnd
  deriving DecidableEq, Repr, Inhabited

/-- How far a `Task` has come. -/
inductive Phase where
  | start
  /-- In line for the negotiation. -/
  | cell
  | negotiate (x : Exchange)
  /-- About to make the request of its own command. -/
  | prepare
  | exchange (x : Exchange)
  /-- In line for a mailbox. -/
  | line
  | receive (deadline : Option Nat)
  | await (wait : Wait)
  | finish (r : EndRequest)
  deriving DecidableEq, Repr, Inhabited

/-- A `Job` that is being done on a session. -/
structure Task where
  id : Nat
  session : Nat
  job : Job
  phase : Phase := .start
  deriving DecidableEq, Repr, Inhabited

/-- What an action of a `Task` works on: its session and the next transaction id. -/
structure Ground where
  transaction : UInt32
  session : Session
  deriving Repr, Inhabited

namespace Ground

/-- Takes a transaction id; ids are `UInt32` and come around. -/
def allocate (g : Ground) : UInt32 × Ground :=
  (g.transaction, { g with transaction := g.transaction + 1 })

end Ground

namespace Task

/-- The result of an action of a task, `none` if the task has to wait. -/
abbrev Acted := Option (Progress Phase Reply × Ground)

/-- The task goes on in another `Phase`. -/
def goOn (phase : Phase) (g : Ground) (s : Session) : Acted :=
  some (.ongoing phase, { g with session := s })

/-- The task is over, with its `Reply` or an error. -/
def conclude (result : Except Error Reply) (g : Ground) (s : Session) : Acted :=
  some (.finished result, { g with session := s })

/-- Leaves the negotiation, which is `settled` whatever came of it, and goes on to `prepare`. -/
def settle (task : Nat) (g : Ground) (s : Session) : Acted :=
  goOn .prepare g
    { s with negotiation :=
      { s.negotiation with settled := true, turn := s.negotiation.turn.leave task } }

/-- One action of a task in line for the negotiation: it goes on if that is `settled` or was
`attempted`, and negotiates otherwise. -/
def actCell (task : Nat) (g : Ground) : Acted :=
  let s := g.session
  let n := s.negotiation
  if n.settled then goOn .prepare g { s with negotiation.turn := n.turn.leave task }
  else if n.turn.isHeldBy task then
    if n.attempted then settle task g s
    else
      let (t, g) := g.allocate
      goOn (.negotiate (.new s.config Command.negotiation t)) g
        { s with negotiation.attempted := true }
  else none

/-- One action of a task with a command: it negotiates first if the command `negotiates`, then has its
own exchange and reads the response by `Command.read`. -/
def actCommand (task now : Nat) (c : Command) (phase : Phase) (g : Ground) : Acted :=
  let s := g.session
  match phase with
  | .start =>
    if c.negotiates ∧ ¬s.negotiation.settled then
      goOn .cell g { s with negotiation.turn := s.negotiation.turn.join task }
    else goOn .prepare g s
  | .cell => actCell task g
  | .negotiate x =>
    match x.act task now s with
    | none => none
    | some (.ongoing x, s) => goOn (.negotiate x) g s
    | some (.finished _, s) => settle task g s
  | .prepare =>
    let (t, g) := g.allocate
    goOn (.exchange (.new s.config c t)) g s
  | .exchange x =>
    match x.act task now s with
    | none => none
    | some (.ongoing x, s) => goOn (.exchange x) g s
    | some (.finished (.error e), s) => conclude (.error e) g s
    | some (.finished (.ok none), s) => conclude (.ok .done) g s
    | some (.finished (.ok (some r)), s) => conclude (c.read r) g s
  | _ => none

/-- One action of a task that receives from a mailbox `box`; `put` puts the mailbox back into the
session, and `reply` makes the result of what was received. -/
def actReceive (task now : Nat) (limit : Option Nat) (phase : Phase) (box : Mailbox α)
    (put : Mailbox α → Session) (reply : Option α → Reply) (g : Ground) : Acted :=
  match phase with
  | .start => goOn .line g (put { box with turn := box.turn.join task })
  | .line =>
    if box.turn.isHeldBy task then goOn (.receive (limit.map (now + ·))) g g.session else none
  | .receive deadline =>
    let leave := fun (b : Mailbox α) => put { b with turn := b.turn.leave task }
    match box.look with
    | (.item a, box) => conclude (.ok (reply (some a))) g (leave box)
    | (.closed, box) => conclude (.error .terminated) g (leave box)
    | (.empty, box) => if reached now deadline then conclude (.ok (reply none)) g (leave box) else none
  | _ => none

/-- One action of a task, if it can act now; each `Job` has its own. -/
def act (now : Nat) (t : Task) (g : Ground) : Acted :=
  let s := g.session
  match t.job with
  | .command c => actCommand t.id now c t.phase g
  | .nextNotify limit =>
    actReceive t.id now limit t.phase s.notifies (fun b => { s with notifies := b }) .notify g
  | .nextOutput limit =>
    actReceive t.id now limit t.phase s.outputs (fun b => { s with outputs := b }) .output g
  | .expectResponse transaction =>
    match s.slots.expect transaction with
    | some slots => conclude (.ok .done) g { s with slots }
    | none => conclude (.error .terminated) g s
  | .forgetResponse transaction =>
    conclude (.ok .done) g { s with slots := s.slots.forget transaction }
  | .awaitResponse transaction limit =>
    match t.phase with
    | .start => goOn (.await ⟨transaction, limit.map (now + ·), .listen⟩) g s
    | .await wait =>
      match wait.act now s.slots with
      | none => none
      | some (.ongoing wait, slots) => goOn (.await wait) g { s with slots }
      | some (.finished result, slots) => conclude (.response <$> result) g { s with slots }
    | _ => none
  | .terminate =>
    match t.phase with
    | .start => goOn (.finish .begin) g s
    | .finish r =>
      match r.act t.id s with
      | none => none
      | some (.ongoing r, s) => goOn (.finish r) g s
      | some (.finished _, s) => conclude (.ok .done) g s
    | _ => none
  | .awaitEnd => if s.lifecycle.stage = .terminated then conclude (.ok .done) g s else none

/-- The task is given up: the turns it has or is in line for and the slot of its `Exchange` become
free. -/
def abandon (t : Task) (s : Session) : Session :=
  match t.phase with
  | .cell => { s with negotiation.turn := s.negotiation.turn.leave t.id }
  | .negotiate x =>
    let s := x.abandon t.id s
    { s with negotiation.turn := s.negotiation.turn.leave t.id }
  | .exchange x => x.abandon t.id s
  | .line | .receive _ =>
    { s with notifies.turn := s.notifies.turn.leave t.id, outputs.turn := s.outputs.turn.leave t.id }
  | .finish _ => { s with outlet.turn := s.outlet.turn.leave t.id }
  | .start | .prepare | .await _ => s

/-- When a task acts even if nothing happens, which the `Phase` says. -/
def deadline (t : Task) : Option Nat :=
  match t.phase with
  | .negotiate x | .exchange x => x.deadline
  | .receive deadline => deadline
  | .await wait => wait.deadline
  | _ => none

end Task

end Dbgp
