import Dbgp.Config
import Dbgp.Session.Lifecycle
import Dbgp.Session.Mailbox
import Dbgp.Session.Outlet
import Dbgp.Session.Slots
import Dbgp.Wire.Inbound

/-!
# Sessions

The state of one connection to an engine, as a `Session`. All that happens to it is done in small
actions by the receiver, which reads packets, and by tasks, which send requests and wait for what
comes back. Every action is a function on the state that either changes it or has to wait, which is
`none`.
-/

namespace Dbgp

/-- Something a logger or a listener was told; the `journal` of a session collects them. -/
inductive Event where
  | sent (logger : String) (request : Request)
  | received (logger : String) (payload : String)
  | ended (call : ListenerCall)
  deriving Repr

/-- The actions by which `endStep` ends a session, in order. -/
inductive EndStage where
  | begin
  | closeSlots
  | ring
  | closeNotifies
  | closeOutputs
  | takeListeners
  | call (left : List String)
  deriving DecidableEq, Repr, Inhabited

/-- What the receiver of a session is doing. -/
inductive Receiver where
  | reading (packet : PacketRead)
  /-- The response of a transaction has been put into its slot, and the bell has not been rung for
  it. -/
  | ringing (transaction : UInt32)
  | ending (stage : EndStage) (failure : Option Error)
  | ended
  deriving DecidableEq, Repr, Inhabited

/-- Whether the engine has been told by `Command.negotiation` that there may be several sessions. It
is told at most once: `attempted` stays even if whoever tells it gives up. -/
structure Negotiation where
  attempted : Bool := false
  settled : Bool := false
  turn : Turn := {}
  deriving DecidableEq, Repr, Inhabited

/-- One connection to an engine, with all that `receiverStep` and `Task.act` read and change. -/
structure Session where
  id : Nat
  /-- The number of the connection it was made on. -/
  connection : Nat
  init : Option Init
  config : Config
  inbound : Inbound
  outlet : Outlet
  receiver : Receiver
  lifecycle : Lifecycle := {}
  slots : Slots := {}
  notifies : Mailbox Notify := {}
  outputs : Mailbox Output := {}
  negotiation : Negotiation := {}
  loggers : List String := []
  /-- Whether the receiver has been asked to stop. -/
  stop : Bool := false
  /-- Whether anyone but running tasks has the session. -/
  owned : Bool := true
  /-- All that loggers and listeners were told. -/
  journal : List Event := []
  deriving Repr, Inhabited

namespace Session

/-- A session on a connection, with the `init` packet that was read on it, if one was; the receiver
begins to read. -/
def new (id connection now : Nat) (init : Option Init) (config : Config) (inbound : Inbound)
    (outlet : Outlet) : Session :=
  { id, connection, init, config, inbound, outlet, receiver := .reading (.start now) }

/-- How packets are read: the `maxPacketSize` and the `readTimeout` of the configuration. -/
def limits (s : Session) : ReadLimits :=
  ⟨s.config.maxPacketSize.toNat, s.config.readTimeout.map (·.toNat)⟩

/-- Writes events down, at the end of the `journal`. -/
def note (s : Session) (events : List Event) : Session :=
  { s with journal := s.journal ++ events }

/-- Tells all `loggers` of a request that is about to be written. -/
def logSent (s : Session) (r : Request) : Session :=
  s.note (s.loggers.map fun l => .sent l r)

/-- Tells all `loggers` of a payload that has been read. -/
def logReceived (s : Session) (payload : String) : Session :=
  s.note (s.loggers.map fun l => .received l payload)

/-- Adds a logger at the end of `loggers`. -/
def addLogger (name : String) (s : Session) : Session :=
  { s with loggers := s.loggers ++ [name] }

/-- Removes every registration of a logger from `loggers`. -/
def removeLogger (name : String) (s : Session) : Session :=
  { s with loggers := s.loggers.filter (· ≠ name) }

/-- Adds a termination listener, by `Lifecycle.addListener`; a call that comes of it is noted. -/
def addListener (name : String) (s : Session) : Session :=
  let (calls, lifecycle) := s.lifecycle.addListener name
  { s with lifecycle }.note (calls.map .ended)

/-- Removes every registration of a termination listener, by `Lifecycle.removeListener`. -/
def removeListener (name : String) (s : Session) : Session :=
  { s with lifecycle := s.lifecycle.removeListener name }

end Session

end Dbgp
