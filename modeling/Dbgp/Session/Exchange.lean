import Dbgp.Command
import Dbgp.Session.Basic

/-!
# Exchanges

An `Exchange` sends a request and waits for its response, action by action. A slot is made for the
response before the request is sent, and is given up whenever the exchange is over. If writing fails
the session is ended by an `EndRequest`.
-/

namespace Dbgp

/-! ## Waiting for a response -/

/-- How far a wait for a response has come: it listens for the bell, then looks at its slot, then
sleeps. `heard` is how often the bell had been rung when it began to listen. -/
inductive WaitStep where
  | listen
  | look (heard : Nat)
  | sleep (heard : Nat)
  deriving DecidableEq, Repr, Inhabited

/-- A wait for the response of a `transaction`, until the `deadline` if there is one. -/
structure Wait where
  transaction : UInt32
  deadline : Option Nat
  step : WaitStep := .listen
  deriving DecidableEq, Repr, Inhabited

/-- Whether a `deadline` has come; without one, never. -/
def reached (now : Nat) (deadline : Option Nat) : Bool :=
  match deadline with
  | some d => d ≤ now
  | none => false

namespace Wait

/-- One action of a wait, if it can act now. The result is `none` as response when the `deadline` is
reached, and `Error.terminated` when the slots are closed. -/
def act (now : Nat) (w : Wait) (s : Slots) : Option (Progress Wait (Option Response) × Slots) :=
  match w.step with
  | .listen => some (.ongoing { w with step := .look s.rung }, s)
  | .look heard =>
    match s.look w.transaction with
    | (.found r, s) => some (.finished (.ok (some r)), s)
    | (.closed, s) => some (.finished (.error .terminated), s)
    | (.empty, s) => some (.ongoing { w with step := .sleep heard }, s)
  | .sleep heard =>
    if s.rung ≠ heard then some (.ongoing { w with step := .listen }, s)
    else if reached now w.deadline then some (.finished (.ok none), s)
    else none

end Wait

/-! ## Ending a session on request -/

/-- The actions by which a task ends a session: begin the end, ask the receiver to `stop`, get the
turn at the outlet, and `shut` it. -/
inductive EndRequest where
  | begin
  | stop
  | join
  | shut
  deriving DecidableEq, Repr, Inhabited

/-- One action of ending the session by a task; only `shut` may have to wait. -/
def EndRequest.act (task : Nat) (r : EndRequest) (s : Session) :
    Option (Progress EndRequest Unit × Session) :=
  match r with
  | .begin => some (.ongoing .stop, { s with lifecycle := s.lifecycle.begin })
  | .stop => some (.ongoing .join, { s with stop := true })
  | .join => some (.ongoing .shut, { s with outlet.turn := s.outlet.turn.join task })
  | .shut =>
    if s.outlet.turn.isHeldBy task then
      let outlet := s.outlet.close
      some (.finished (.ok ()), { s with outlet := { outlet with turn := outlet.turn.leave task } })
    else none

/-! ## Exchanges -/

/-- How far an `Exchange` has come. -/
inductive ExchangePhase where
  | enter
  | expect
  | announce
  | line
  | write (left : List UInt8)
  | await (wait : Wait)
  | failed (e : Error) (r : EndRequest)
  deriving DecidableEq, Repr, Inhabited

/-- The sending of a `request`, and the waiting for its response if it is `answered`. -/
structure Exchange where
  request : Request
  /-- Whether a response is awaited. -/
  answered : Bool
  /-- How long a response may take. -/
  limit : Option Nat
  phase : ExchangePhase := .enter
  deriving DecidableEq, Repr, Inhabited

namespace Exchange

/-- The exchange of a command: `request`, `isAsync` and `patience` say what is sent and what is
awaited. -/
def new (config : Config) (c : Command) (transaction : UInt32) : Exchange where
  request := c.request transaction
  answered := !c.isAsync
  limit := c.patience.limit config

/-- Gives up the slot of the request, which there is only if the exchange is `answered`. -/
def release (x : Exchange) (s : Session) : Session :=
  if x.answered then { s with slots := s.slots.forget x.request.transaction } else s

/-- The exchange is over with an error, after `release`. -/
def fail (x : Exchange) (e : Error) (s : Session) :
    Progress Exchange (Option Response) × Session :=
  (.finished (.error e), x.release s)

/-- The exchange goes on in another `phase`. -/
def goOn (x : Exchange) (phase : ExchangePhase) (s : Session) :
    Progress Exchange (Option Response) × Session :=
  (.ongoing { x with phase }, s)

/-- Writes what is `left`, by the task that has the outlet. After the last octet the turn is given
back, and an `answered` exchange begins to wait. -/
def actWrite (task now : Nat) (x : Exchange) (left : List UInt8) (s : Session) :
    Option (Progress Exchange (Option Response) × Session) :=
  match s.outlet.write left with
  | none => none
  | some (.part left, outlet) => some (x.goOn (.write left) { s with outlet })
  | some (.failed e, outlet) =>
    some (x.goOn (.failed e .begin)
      { s with outlet := { outlet with turn := outlet.turn.leave task } })
  | some (.all, outlet) =>
    let s := { s with outlet := { outlet with turn := outlet.turn.leave task } }
    if x.answered then
      some (x.goOn (.await ⟨x.request.transaction, x.limit.map (now + ·), .listen⟩) s)
    else some (.finished (.ok none), s)

/-- One action of an exchange, if it can act now; each `ExchangePhase` has one. -/
def act (task now : Nat) (x : Exchange) (s : Session) :
    Option (Progress Exchange (Option Response) × Session) :=
  match x.phase with
  | .enter =>
    if s.lifecycle.isConnected then
      some (x.goOn (if x.answered then .expect else .announce) s)
    else some (.finished (.error .terminated), s)
  | .expect =>
    match s.slots.expect x.request.transaction with
    | some slots => some (x.goOn .announce { s with slots })
    | none => some (.finished (.error .terminated), s)
  | .announce =>
    let s := s.logSent x.request
    some (x.goOn .line { s with outlet.turn := s.outlet.turn.join task })
  | .line =>
    if s.outlet.turn.isHeldBy task then
      if s.outlet.live then some (x.goOn (.write x.request.encode) s)
      else some (x.fail .terminated { s with outlet.turn := s.outlet.turn.leave task })
    else none
  | .write left => x.actWrite task now left s
  | .await wait =>
    match wait.act now s.slots with
    | none => none
    | some (.ongoing wait, slots) => some (x.goOn (.await wait) { s with slots })
    | some (.finished (.error e), slots) => some (x.fail e { s with slots })
    | some (.finished (.ok none), slots) =>
      some (x.fail (.timeout x.request.transaction) { s with slots })
    | some (.finished (.ok (some r)), slots) =>
      some (.finished (some <$> r.check), x.release { s with slots })
  | .failed e r =>
    match r.act task s with
    | none => none
    | some (.ongoing r, s) => some (x.goOn (.failed e r) s)
    | some (.finished _, s) => some (x.fail e s)

/-- The exchange is given up: the turn at the outlet and the slot become free. In `enter` and `expect`
it has neither. -/
def abandon (task : Nat) (x : Exchange) (s : Session) : Session :=
  match x.phase with
  | .enter | .expect => s
  | _ => x.release { s with outlet.turn := s.outlet.turn.leave task }

/-- When an exchange acts even if nothing happens: the deadline of its `Wait`. -/
def deadline (x : Exchange) : Option Nat :=
  match x.phase with
  | .await wait => wait.deadline
  | _ => none

end Exchange

end Dbgp
