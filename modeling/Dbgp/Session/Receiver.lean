import Dbgp.Session.Basic

/-!
# The receiver

`receiverStep` reads packets one after the other, shows each to the loggers, and puts it where it
belongs. The receiver ends when it is asked to stop, when the connection ends and when reading fails;
then it ends the session by `endStep`. Packets that cannot be read have no effect but to be logged.
-/

namespace Dbgp.Session

/-- Puts a packet where it belongs: a response into its slot, after which the bell is to be rung, a
notification into `notifies`, output into `outputs`. -/
def route (s : Session) : Packet → Session
  | .response r =>
    match s.slots.fill r with
    | some slots => { s with slots, receiver := .ringing r.transaction }
    | none => s
  | .notify n => { s with notifies := s.notifies.put n }
  | .output o => { s with outputs := s.outputs.put o }

/-- What happens to a payload: the loggers see it, and if `Packet.parse` can read it, it is routed. -/
def dispatch (s : Session) (payload : String) : Session :=
  let s := s.logReceived payload
  match Packet.parse payload with
  | .ok packet => s.route packet
  | .error _ => s

/-- One action of ending the session: does what `stage` says and goes on to the next `EndStage`. -/
def endStep (stage : EndStage) (failure : Option Error) (s : Session) : Session :=
  let next := fun stage => Receiver.ending stage failure
  match stage with
  | .begin => { s with lifecycle := s.lifecycle.begin, receiver := next .closeSlots }
  | .closeSlots => { s with slots := s.slots.close, receiver := next .ring }
  | .ring => { s with slots := s.slots.ring, receiver := next .closeNotifies }
  | .closeNotifies => { s with notifies := s.notifies.close, receiver := next .closeOutputs }
  | .closeOutputs => { s with outputs := s.outputs.close, receiver := next .takeListeners }
  | .takeListeners =>
    match s.lifecycle.take with
    | (some listeners, lifecycle) => { s with lifecycle, receiver := next (.call listeners) }
    | (none, lifecycle) => { s with lifecycle, receiver := .ended }
  | .call (listener :: left) =>
    { s with receiver := next (.call left) }.note [.ended ⟨listener, failure⟩]
  | .call [] => { s with lifecycle := s.lifecycle.settle, receiver := .ended }

/-- One action of the receiver, if it can act now. Between two packets and inside of one, a request to
`stop` goes before reading. -/
def receiverStep (now : Nat) (s : Session) : Option Session :=
  match s.receiver with
  | .ended => none
  | .ending stage failure => some (s.endStep stage failure)
  | .ringing _ => some { s with slots := s.slots.ring, receiver := .reading (.start now) }
  | .reading packet =>
    if s.stop then some { s with receiver := .ending .begin none }
    else
      match packet.poll s.limits now s.inbound with
      | (.ongoing packet', inbound) =>
        if packet' = packet ∧ inbound = s.inbound then none
        else some { s with receiver := .reading packet', inbound }
      | (.finished (.ok (some payload)), inbound) =>
        some ({ s with receiver := .reading (.start now), inbound }.dispatch payload)
      | (.finished (.ok none), inbound) =>
        some { s with receiver := .ending .begin none, inbound }
      | (.finished (.error e), inbound) =>
        some { s with receiver := .ending .begin (some e), inbound }

/-- When the receiver acts even if nothing arrives: the deadline of the packet it is `reading`. -/
def receiverDeadline (s : Session) : Option Nat :=
  match s.receiver with
  | .reading packet => packet.deadline
  | _ => none

end Dbgp.Session
