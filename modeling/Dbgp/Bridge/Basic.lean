import Dbgp.Bridge.Action
import Dbgp.Bridge.Catalogue
import Dbgp.Bridge.Forwarder
import Dbgp.Client

/-!
# The bridge

Sessions with engines on one side, a caller on the other. `Bridge.call` turns calls into commands for
a session, which `Bridge.answer` answers when the command is done; what engines say on their own
account is passed on as notices by `Bridge.actForwarder`.
-/

namespace Dbgp

open Rpc (Call Failure Message)

namespace Bridge

/-- A call that waits for a `task` of the client. -/
structure Pending where
  serial : Nat
  task : Nat
  id : Json
  /-- What the result is shown as. -/
  shown : Reply → Json

end Bridge

open Bridge in
/-- The state of a bridge: the `client` with its sessions, the `registry`, a forwarder for each
session, and the calls that are `pending`. -/
structure Bridge where
  /-- Where the bridge listens for engines. -/
  address : String
  client : Client := {}
  registry : Registry := {}
  forwarders : List Forwarder := []
  pending : List Pending := []
  nextSerial : Nat := 0
  /-- What the bridge has said and nobody has taken. -/
  outbox : List Message := []

namespace Bridge

/-! ## Replies -/

/-- What a command came to, as JSON. Packets and `done` are shown as `null`. -/
def replyJson : Reply → Json
  | .status s => s.toJson
  | .feature f => f.toJson
  | .success flag => .bool flag
  | .breakpoint b => .option Breakpoint.toJson b
  | .breakpoints bs => .arr (bs.map Breakpoint.toJson)
  | .spawnpoint s => .option Spawnpoint.toJson s
  | .spawnpoints ss => .arr (ss.map Spawnpoint.toJson)
  | .number n => .nat n.toNat
  | .frames fs => .arr (fs.map StackFrame.toJson)
  | .contexts cs => .arr (cs.map ContextInfo.toJson)
  | .property p => p.toJson
  | .properties ps => .arr (Property.toJsons ps)
  | .text s => .str s
  | .done | .response _ | .notify _ | .output _ => .null

/-- The result of a command as its answer shows it; with `id` the answer repeats an id of the call. -/
def Shown.json (shown : Shown) (r : Reply) : Json :=
  match shown with
  | .reply => replyJson r
  | .id name => .object [("id", .str name)]
  | .source => .object [("source", replyJson r)]

/-- Puts a message behind what is in the `outbox`. -/
def say (m : Message) (b : Bridge) : Bridge :=
  { b with outbox := b.outbox ++ [m] }

/-! ## Sessions -/

/-- A session comes: the bridge listens for its end, tracks it, says so by `Rpc.started`, and begins
to forward its packets. -/
def register (session : Nat) (b : Bridge) : Bridge :=
  let init := (b.client.session? session).bind (·.init)
  let b := { b with
    client := b.client.modifySession session (Session.addListener listenerName)
    registry := b.registry.register session
    forwarders := b.forwarders ++ [Forwarder.mk session .pollNotify] }
  b.say (.notice (Rpc.started session init))

/-- The `tracked` sessions as a list: the answer to `sessions/list`. -/
def listJson (b : Bridge) : Json :=
  .object [("sessions", .arr (b.registry.tracked.filterMap fun id =>
    (b.client.session? id).map fun s =>
      .object
        [("session_id", .nat id),
         ("current", .bool (b.registry.current = some id)),
         ("state", .str s.lifecycle.stage.word),
         ("init", .option Init.toJson s.init)]))]

/-! ## Calls -/

/-- The session that a call is for, which `Registry.target?` finds, or the failure to tell the
caller. -/
def target (named : Option Nat) (b : Bridge) : Except Failure Nat :=
  match b.registry.target? named, named with
  | some id, _ => .ok id
  | none, some id => .error (.noSession id)
  | none, none => .error .noCurrent

/-- What becomes of an action: an answer at once, or a `Job` on a session. -/
inductive Begun where
  | answered (outcome : Except Failure Json) (b : Bridge)
  | started (session : Nat) (job : Job) (shown : Reply → Json)

/-- Begins an action. `describe`, `listSessions` and `select` are answered at once; the others start a
job on their `target`. -/
def begin (action : Action) (b : Bridge) : Begun :=
  match action with
  | .describe => .answered (.ok (Catalogue.toJson b.address)) b
  | .listSessions => .answered (.ok b.listJson) b
  | .select id =>
    match b.registry.select id with
    | some registry => .answered (.ok (.object [("session_id", .nat id)])) { b with registry }
    | none => .answered (.error (.noSession id)) b
  | .terminate named =>
    match b.target named with
    | .error f => .answered (.error f) b
    | .ok id => .started id .terminate fun _ => .object [("session_id", .nat id)]
  | .command named c shown =>
    match b.target named with
    | .error f => .answered (.error f) b
    | .ok id => .started id (.command c) shown.json

/-- Takes a call, which gets the next serial number: it is answered at once or becomes `pending`. -/
def call (c : Call) (b : Bridge) : Bridge :=
  let serial := b.nextSerial
  let b := { b with nextSerial := serial + 1 }
  match Action.ofCall c.method c.params with
  | .error f => b.say (.answer serial ⟨c.id, .error f⟩)
  | .ok action =>
    match b.begin action with
    | .answered outcome b => b.say (.answer serial ⟨c.id, outcome⟩)
    | .started session job shown =>
      let (task, client) := b.client.start session job
      { b with client, pending := b.pending ++ [⟨serial, task, c.id, shown⟩] }

/-! ## Actions and time -/

/-- The first handshake in `greeted`: its session, if there is one, is registered. -/
def greet (b : Bridge) : Option Bridge :=
  match b.client.greeted with
  | [] => none
  | (_, .ok session) :: rest => some ({ b with client.greeted := rest }.register session)
  | (_, .error _) :: rest => some { b with client.greeted := rest }

/-- The first task in `finished`: its call, if one is `pending`, is answered. -/
def answer (b : Bridge) : Option Bridge :=
  match b.client.finished with
  | [] => none
  | (task, result) :: rest =>
    let b := { b with client.finished := rest }
    match b.pending.find? fun p => p.task = task with
    | none => some b
    | some p =>
      let outcome := (result.map p.shown).mapError Failure.ofError
      some ({ b with pending := b.pending.filter fun p => p.task ≠ task }.say
        (.answer p.serial ⟨p.id, outcome⟩))

/-- One action of a forwarder, by `Forwarder.act` on its session. -/
def actForwarder (f : Forwarder) (b : Bridge) : Option Bridge :=
  match b.client.session? f.session with
  | none => none
  | some s =>
    (f.act ⟨s, b.registry, b.outbox⟩).map fun (step, g) =>
      { b with
        client := b.client.putSession g.session
        registry := g.registry
        outbox := g.outbox
        forwarders := b.forwarders.map fun f' => if f'.session = f.session then { f' with step } else f' }

/-- One action of whoever comes first: `greet` and `answer` see to what is over, then the client acts,
then a forwarder. -/
def act (b : Bridge) : Option Bridge :=
  b.greet <|> b.answer <|> (b.client.act.map fun client => { b with client })
    <|> b.forwarders.findSome? fun f => b.actForwarder f

/-- Repeats `act` until all wait, at most `fuel` times. -/
def settleFor : (fuel : Nat) → Bridge → Bridge
  | 0, b => b
  | fuel + 1, b =>
    match b.act with
    | none => b
    | some b => settleFor fuel b

/-- How many actions there can be before all wait: those of the client, by `Client.actionBound`, and
those of the forwarders, which forward each packet once. -/
def actionBound (b : Bridge) : Nat :=
  let waiting :=
    (b.client.sessions.map fun s => s.notifies.items.length + s.outputs.items.length).foldl (· + ·) 0
  4 * b.client.actionBound + 16 * (waiting + b.forwarders.length)

/-- Repeats `act` until all wait; `actionBound` is fuel enough. -/
def settle (b : Bridge) : Bridge :=
  settleFor b.actionBound b

/-- Moves from one `nextDeadline` to the next, at most `fuel` times, and then to the time `target`. -/
def advanceFor : (fuel : Nat) → (target : Nat) → Bridge → Bridge
  | 0, target, b => settle { b with client.now := target }
  | fuel + 1, target, b =>
    match b.client.nextDeadline with
    | none => settle { b with client.now := target }
    | some t =>
      if t ≤ target then
        advanceFor fuel target (settle { b with client.now := max b.client.now t })
      else settle { b with client.now := target }

/-- Lets time pass, with `settle` at every deadline in between and at the end. -/
def advance (millis : Nat) (b : Bridge) : Bridge :=
  advanceFor b.client.actionBound (b.client.now + millis) b

end Bridge

end Dbgp
