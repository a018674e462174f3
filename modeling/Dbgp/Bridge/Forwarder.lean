import Dbgp.Bridge.Message
import Dbgp.Bridge.Registry
import Dbgp.Session.Basic

/-!
# Forwarding packets

Every session of the bridge has a `Forwarder`, which turns notifications and output into notices. It
looks for notifications first. Once one of the mailboxes is closed it empties both, waits for the end
of the session, takes it out of the `Registry` and says that the session is over.
-/

namespace Dbgp.Bridge

/-- How far a `Forwarder` has come: it polls and sleeps while the session lives, then drains both
mailboxes, waits for the end and announces it. -/
inductive ForwardStep where
  | pollNotify
  | pollOutput
  | sleep
  | drainNotify
  | drainOutput
  | awaitEnd
  | announce
  | gone
  deriving DecidableEq, Repr, Inhabited

/-- The forwarder of a session, at the action `step` says. -/
structure Forwarder where
  session : Nat
  step : ForwardStep := .pollNotify
  deriving DecidableEq, Repr, Inhabited

/-- The name under which the bridge listens for the end of a session, by `Session.addListener`. -/
def listenerName : String := "bridge"

/-- What the listener of the bridge was told about the end of a session, looked up in the
`journal`. -/
def endError (s : Session) : Option String :=
  (s.journal.findSome? fun
    | .ended call => if call.listener = listenerName then some (call.error.map Error.message) else none
    | _ => none).join

/-- What `Forwarder.act` works on: the session, the registry and the outbox of the bridge. -/
structure ForwardGround where
  session : Session
  registry : Registry
  outbox : List Rpc.Message

/-- Puts a notice behind what is in the `outbox`. -/
def ForwardGround.say (n : Rpc.Notice) (g : ForwardGround) : ForwardGround :=
  { g with outbox := g.outbox ++ [.notice n] }

namespace Forwarder

/-- Whether a mailbox has something for `look` to find: a packet, or that it is closed. -/
def stirs (m : Mailbox α) : Bool :=
  !m.items.isEmpty || m.closed

/-- Takes a notification and says it as `Rpc.notified`. The three steps are where the forwarder goes
on if the mailbox is closed, if it is empty, and if there was one. -/
def pollNotify (onClosed onEmpty again : ForwardStep) (g : ForwardGround) :
    ForwardStep × ForwardGround :=
  match g.session.notifies.look with
  | (.item n, box) =>
    (again, { g with session.notifies := box }.say (Rpc.notified g.session.id n))
  | (.closed, _) => (onClosed, g)
  | (.empty, _) => (onEmpty, g)

/-- Takes a piece of output and says it as `Rpc.printed`. The three steps are as in `pollNotify`. -/
def pollOutput (onClosed onEmpty again : ForwardStep) (g : ForwardGround) :
    ForwardStep × ForwardGround :=
  match g.session.outputs.look with
  | (.item o, box) =>
    (again, { g with session.outputs := box }.say (Rpc.printed g.session.id o))
  | (.closed, _) => (onClosed, g)
  | (.empty, _) => (onEmpty, g)

/-- One action of a forwarder, if it can act now; it waits in `sleep` and `awaitEnd` only, and for
good once it is `gone`. -/
def act (f : Forwarder) (g : ForwardGround) : Option (ForwardStep × ForwardGround) :=
  let s := g.session
  match f.step with
  | .pollNotify => some (pollNotify .drainNotify .pollOutput .pollNotify g)
  | .pollOutput => some (pollOutput .drainNotify .sleep .pollNotify g)
  | .sleep => if stirs s.notifies || stirs s.outputs then some (.pollNotify, g) else none
  | .drainNotify => some (pollNotify .drainOutput .drainOutput .drainNotify g)
  | .drainOutput => some (pollOutput .awaitEnd .awaitEnd .drainOutput g)
  | .awaitEnd =>
    if s.lifecycle.stage = .terminated then
      some (.announce, { g with registry := g.registry.forget s.id })
    else none
  | .announce =>
    some (.gone, g.say (Rpc.terminated s.id (endError s)))
  | .gone => none

end Forwarder

end Dbgp.Bridge
