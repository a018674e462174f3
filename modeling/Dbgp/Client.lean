import Dbgp.Session.Receiver
import Dbgp.Session.Task

/-!
# The client

All connections of a program, the tasks that work on them, and the time. Time stands still while
anything can act: `settle` lets the receivers and the tasks act until all of them wait, and `advance`
moves from one deadline to the next and settles at each.
-/

namespace Dbgp

/-- A connection whose init packet is being read, until the `deadline`. -/
structure Handshake where
  connection : Nat
  config : Config
  inbound : Inbound := {}
  outlet : Outlet := {}
  packet : PacketRead
  deadline : Nat
  deriving Repr, Inhabited

namespace Handshake

/-- How packets are read: the `maxPacketSize` and the `readTimeout` of the configuration. -/
def limits (h : Handshake) : ReadLimits :=
  ⟨h.config.maxPacketSize.toNat, h.config.readTimeout.map (·.toNat)⟩

/-- What comes of the payload that was read: `Init.parse` reads it, and an end without one is
`closedBeforeInit`. -/
def conclude : Except Error (Option String) → Except Error Init
  | .error e => .error e
  | .ok none => .error (.transport .closedBeforeInit)
  | .ok (some payload) => Init.parse payload

/-- One action of a handshake, if it can act now. Reading goes before the `deadline`. -/
def act (now : Nat) (h : Handshake) : Option (Progress Handshake Init × Handshake) :=
  match h.packet.poll h.limits now h.inbound with
  | (.finished result, inbound) => some (.finished (conclude result), { h with inbound })
  | (.ongoing packet, inbound) =>
    let h' := { h with packet, inbound }
    if h.deadline ≤ now then
      some (.finished (.error (.protocol (.noInitWithin h.config.handshakeTimeout.toNat))), h')
    else if packet = h.packet ∧ inbound = h.inbound then none
    else some (.ongoing h', h')

end Handshake

/-- All connections and what is done on them: `handshakes`, the `sessions` they become, and
`tasks`. -/
structure Client where
  now : Nat := 0
  nextTransaction : UInt32 := 1
  nextSession : Nat := 1
  nextConnection : Nat := 1
  nextTask : Nat := 1
  handshakes : List Handshake := []
  sessions : List Session := []
  tasks : List Task := []
  /-- Handshakes that are over, by connection, with the number of the session. -/
  greeted : List (Nat × Except Error Nat) := []
  /-- Tasks that are over. -/
  finished : List (Nat × Except Error Reply) := []
  deriving Inhabited

namespace Client

/-! ## Connections and tasks -/

/-- Takes a connection whose init packet is to be read: a new `Handshake`. -/
def accept (config : Config) (c : Client) : Nat × Client :=
  let h : Handshake :=
    { connection := c.nextConnection, config, packet := .start c.now
      deadline := c.now + config.handshakeTimeout.toNat }
  (c.nextConnection,
    { c with nextConnection := c.nextConnection + 1, handshakes := c.handshakes ++ [h] })

/-- Takes a connection without an init packet, which has a `Session` at once; the numbers of the
session and of the connection are returned. -/
def attach (config : Config) (c : Client) : Nat × Nat × Client :=
  let s := Session.new c.nextSession c.nextConnection c.now none config {} {}
  (c.nextSession, c.nextConnection,
    { c with
      nextSession := c.nextSession + 1, nextConnection := c.nextConnection + 1
      sessions := c.sessions ++ [s] })

/-- The session with a number, if it is among `sessions`. -/
def session? (id : Nat) (c : Client) : Option Session :=
  c.sessions.find? fun s => s.id = id

/-- Replaces the session that has the `id` of the given one. -/
def putSession (s : Session) (c : Client) : Client :=
  { c with sessions := c.sessions.map fun s' => if s'.id = s.id then s else s' }

/-- Changes the session with a number; `c.session?` tells whether there is one. -/
def modifySession (id : Nat) (f : Session → Session) (c : Client) : Client :=
  { c with sessions := c.sessions.map fun s => if s.id = id then f s else s }

/-- Something happens to what arrives on a connection, whether that is a `Handshake` or a `Session` by
now. -/
def modifyInbound (connection : Nat) (f : Inbound → Inbound) (c : Client) : Client :=
  { c with
    handshakes := c.handshakes.map fun h =>
      if h.connection = connection then { h with inbound := f h.inbound } else h
    sessions := c.sessions.map fun s =>
      if s.connection = connection then { s with inbound := f s.inbound } else s }

/-- Something happens to the other side of an `Outlet`, of a handshake or a session. -/
def modifyOutlet (connection : Nat) (f : Outlet → Outlet) (c : Client) : Client :=
  { c with
    handshakes := c.handshakes.map fun h =>
      if h.connection = connection then { h with outlet := f h.outlet } else h
    sessions := c.sessions.map fun s =>
      if s.connection = connection then { s with outlet := f s.outlet } else s }

/-- Starts a `Job` on a session as a new task, whose number is returned. -/
def start (session : Nat) (job : Job) (c : Client) : Nat × Client :=
  (c.nextTask,
    { c with nextTask := c.nextTask + 1, tasks := c.tasks ++ [⟨c.nextTask, session, job, .start⟩] })

/-- Gives a task up: it leaves `tasks`, and `Task.abandon` frees what it has. -/
def cancel (task : Nat) (c : Client) : Client :=
  match c.tasks.find? fun t => t.id = task with
  | none => c
  | some t =>
    { c with tasks := c.tasks.filter fun t => t.id ≠ task }.modifySession t.session t.abandon

/-- Lets go of a session, which is not `owned` any more; running tasks still have it. -/
def release (session : Nat) (c : Client) : Client :=
  c.modifySession session fun s => { s with owned := false }

/-! ## Actions -/

/-- One action of a handshake, by `Handshake.act`. A session that comes of it has what has arrived
after the init packet. -/
def actHandshake (h : Handshake) (c : Client) : Option Client :=
  let others := c.handshakes.filter fun h' => h'.connection ≠ h.connection
  match h.act c.now with
  | none => none
  | some (.ongoing h', _) =>
    some { c with handshakes := c.handshakes.map fun k =>
      if k.connection = h.connection then h' else k }
  | some (.finished (.error e), _) =>
    some { c with handshakes := others, greeted := c.greeted ++ [(h.connection, .error e)] }
  | some (.finished (.ok init), h') =>
    let s := Session.new c.nextSession h.connection c.now (some init) h.config h'.inbound h'.outlet
    some { c with
      handshakes := others, nextSession := c.nextSession + 1, sessions := c.sessions ++ [s]
      greeted := c.greeted ++ [(h.connection, .ok s.id)] }

/-- One action of a session by itself: its receiver is asked to `stop` once nobody has the session,
and acts by `receiverStep` otherwise. -/
def actSession (s : Session) (c : Client) : Option Client :=
  if ¬s.owned ∧ ¬s.stop ∧ ¬(c.tasks.any fun t => t.session = s.id) then
    some (c.putSession { s with stop := true })
  else (s.receiverStep c.now).map c.putSession

/-- One action of a task, by `Task.act`; when it is over, its result goes to `finished`. -/
def actTask (t : Task) (c : Client) : Option Client :=
  match c.session? t.session with
  | none => none
  | some s =>
    match t.act c.now ⟨c.nextTransaction, s⟩ with
    | none => none
    | some (progress, g) =>
      let c := { c.putSession g.session with nextTransaction := g.transaction }
      match progress with
      | .ongoing phase =>
        some { c with tasks := c.tasks.map fun t' => if t'.id = t.id then { t' with phase } else t' }
      | .finished result =>
        some { c with
          tasks := c.tasks.filter fun t' => t'.id ≠ t.id
          finished := c.finished ++ [(t.id, result)] }

/-- One action of whoever comes first, by `actHandshake`, `actSession` or `actTask`, in this order. -/
def act (c : Client) : Option Client :=
  (c.handshakes.findSome? fun h => c.actHandshake h)
    <|> (c.sessions.findSome? fun s => c.actSession s)
    <|> c.tasks.findSome? fun t => c.actTask t

/-- How many actions there can be before all wait: each octet is read once, each packet wakes each
task once, and a task takes few actions between two waits. -/
def actionBound (c : Client) : Nat :=
  let octets :=
    (c.handshakes.map (·.inbound.pending.length)).foldl (· + ·) 0 +
      (c.sessions.map (·.inbound.pending.length)).foldl (· + ·) 0
  let listeners := (c.sessions.map (·.lifecycle.listeners.length)).foldl (· + ·) 0
  64 * (octets + listeners + c.handshakes.length + c.sessions.length + 4) * (c.tasks.length + 4)

/-- Repeats `act` until all wait, at most `fuel` times. -/
def settleFor : (fuel : Nat) → Client → Client
  | 0, c => c
  | fuel + 1, c =>
    match c.act with
    | none => c
    | some c => settleFor fuel c

/-- Repeats `act` until all wait; `actionBound` is fuel enough. -/
def settle (c : Client) : Client :=
  settleFor c.actionBound c

/-! ## Time -/

/-- The earlier of two times; `none` is later than any. -/
def earlier : Option Nat → Option Nat → Option Nat
  | none, b => b
  | a, none => a
  | some a, some b => some (min a b)

/-- The next time at which something acts even if nothing happens: a `Handshake`, a receiver or a
task. -/
def nextDeadline (c : Client) : Option Nat :=
  let times :=
    (c.handshakes.map fun h => earlier (some h.deadline) h.packet.deadline) ++
      c.sessions.map Session.receiverDeadline ++ c.tasks.map Task.deadline
  times.foldl earlier none

/-- Moves from one `nextDeadline` to the next, at most `fuel` times, and then to the time `target`. -/
def advanceFor (settle : Client → Client) : (fuel : Nat) → (target : Nat) → Client → Client
  | 0, target, c => settle { c with now := target }
  | fuel + 1, target, c =>
    match c.nextDeadline with
    | none => settle { c with now := target }
    | some t =>
      if t ≤ target then advanceFor settle fuel target (settle { c with now := max c.now t })
      else settle { c with now := target }

/-- Lets time pass, with `settle` at every deadline in between and at the end. -/
def advance (millis : Nat) (c : Client) : Client :=
  advanceFor settle c.actionBound (c.now + millis) c

end Client

end Dbgp
