import Dbgp.Proofs.SlotTable
import Dbgp.Session.Receiver
import Dbgp.Session.Task

/-!
# What single actions do

One inversion lemma for each kind of action: `Wait.acted`, `Exchange.acted`, `Task.acted` and
`Session.received` say under which condition an action was possible, how it went on and what became
of the session. Invariants are proved by going through these cases, and the functions themselves are
opened only here.
-/

namespace Dbgp

/-! ## Waiting for a response -/

/-- What `Wait.act` can do: listen for the bell, look into the slot and find a response, closed slots
or nothing, and then sleep until the bell rings or the deadline is reached. -/
inductive Wait.Action (now : Nat) (w : Wait) (s : Slots) :
    Progress Wait (Option Response) → Slots → Prop
  | listened : w.step = .listen → Action now w s (.ongoing { w with step := .look s.rung }) s
  | obtained {heard : Nat} {r : Response} : w.step = .look heard →
      s.get? w.transaction = some (some r) →
      Action now w s (.finished (.ok (some r))) (s.forget w.transaction)
  | refused {heard : Nat} : w.step = .look heard → (∀ r, s.get? w.transaction ≠ some (some r)) →
      s.closed = true → Action now w s (.finished (.error .terminated)) (s.forget w.transaction)
  | parked {heard : Nat} : w.step = .look heard → (∀ r, s.get? w.transaction ≠ some (some r)) →
      s.closed = false →
      Action now w s (.ongoing { w with step := .sleep heard })
        ((s.forget w.transaction).register w.transaction)
  | woken {heard : Nat} : w.step = .sleep heard → s.rung ≠ heard →
      Action now w s (.ongoing { w with step := .listen }) s
  | timedOut {heard : Nat} : w.step = .sleep heard → s.rung = heard → reached now w.deadline →
      Action now w s (.finished (.ok none)) s

/-- Every action of `Wait.act` is one of `Wait.Action`. -/
theorem Wait.acted {now : Nat} {w : Wait} {s s' : Slots} {p : Progress Wait (Option Response)}
    (h : w.act now s = some (p, s')) : w.Action now s p s' := by
  rw [Wait.act] at h
  cases hstep : w.step with
  | listen =>
    simp only [hstep, Option.some.injEq, Prod.mk.injEq] at h
    obtain ⟨rfl, rfl⟩ := h
    exact .listened hstep
  | look heard =>
    simp only [hstep] at h
    have hlook := s.looked w.transaction
    generalize s.look w.transaction = found at h hlook
    cases hlook with
    | found hr =>
      cases h
      exact .obtained hstep hr
    | closed hnone hclosed =>
      cases h
      exact .refused hstep hnone hclosed
    | empty hnone hclosed =>
      cases h
      exact .parked hstep hnone hclosed
  | sleep heard =>
    simp only [hstep] at h
    split at h
    · next hrung =>
      cases h
      exact .woken hstep hrung
    · next hrung =>
      split at h
      · next hreached =>
        cases h
        exact .timedOut hstep (by simpa using hrung) hreached
      · cases h

/-! ## Ending a session on request -/

/-- What `EndRequest.act` can do on the way to the end of a session, one step after the other. -/
inductive EndRequest.Action (task : Nat) (r : EndRequest) (s : Session) :
    Progress EndRequest Unit → Session → Prop
  | begun : r = .begin → Action task r s (.ongoing .stop) { s with lifecycle := s.lifecycle.begin }
  | stopped : r = .stop → Action task r s (.ongoing .join) { s with stop := true }
  | joined : r = .join →
      Action task r s (.ongoing .shut) { s with outlet.turn := s.outlet.turn.join task }
  | shut : r = .shut → s.outlet.turn.isHeldBy task →
      Action task r s (.finished (.ok ()))
        { s with outlet := { s.outlet.close with turn := s.outlet.close.turn.leave task } }

/-- Every action of `EndRequest.act` is one of `EndRequest.Action`. -/
theorem EndRequest.acted {task : Nat} {r : EndRequest} {s s' : Session}
    {p : Progress EndRequest Unit} (h : r.act task s = some (p, s')) : r.Action task s p s' := by
  cases r with
  | begin => cases h; exact .begun rfl
  | stop => cases h; exact .stopped rfl
  | join => cases h; exact .joined rfl
  | shut =>
    rw [EndRequest.act] at h
    split at h
    · next hheld => cases h; exact .shut rfl hheld
    · cases h

/-! ## Exchanges -/

/-- What `Exchange.act` can do, by the phase of the exchange. Writing has four outcomes, and a failure
to write first ends the session. -/
inductive Exchange.Action (task now : Nat) (x : Exchange) (s : Session) :
    Progress Exchange (Option Response) → Session → Prop
  | entered : x.phase = .enter → s.lifecycle.isConnected →
      Action task now x s (.ongoing { x with phase := if x.answered then .expect else .announce }) s
  | turnedAway : x.phase = .enter → s.lifecycle.isConnected = false →
      Action task now x s (.finished (.error .terminated)) s
  | expected : x.phase = .expect → s.slots.closed = false →
      Action task now x s (.ongoing { x with phase := .announce })
        { s with slots := s.slots.register x.request.transaction }
  | unexpected : x.phase = .expect → s.slots.closed = true →
      Action task now x s (.finished (.error .terminated)) s
  | announced : x.phase = .announce →
      Action task now x s (.ongoing { x with phase := .line })
        { s.logSent x.request with outlet.turn := s.outlet.turn.join task }
  | begun : x.phase = .line → s.outlet.turn.isHeldBy task → s.outlet.live →
      Action task now x s (.ongoing { x with phase := .write x.request.encode }) s
  | dead : x.phase = .line → s.outlet.turn.isHeldBy task → s.outlet.live = false →
      Action task now x s (.finished (.error .terminated))
        (x.release { s with outlet.turn := s.outlet.turn.leave task })
  | wrote {left left' : List UInt8} {outlet : Outlet} : x.phase = .write left →
      s.outlet.write left = some (.part left', outlet) →
      Action task now x s (.ongoing { x with phase := .write left' }) { s with outlet }
  | broke {left : List UInt8} {e : Error} {outlet : Outlet} : x.phase = .write left →
      s.outlet.write left = some (.failed e, outlet) →
      Action task now x s (.ongoing { x with phase := .failed e .begin })
        { s with outlet := { outlet with turn := outlet.turn.leave task } }
  | sent {left : List UInt8} {outlet : Outlet} : x.phase = .write left → x.answered →
      s.outlet.write left = some (.all, outlet) →
      Action task now x s
        (.ongoing { x with
          phase := .await ⟨x.request.transaction, x.limit.map (now + ·), .listen⟩ })
        { s with outlet := { outlet with turn := outlet.turn.leave task } }
  | dropped {left : List UInt8} {outlet : Outlet} : x.phase = .write left → x.answered = false →
      s.outlet.write left = some (.all, outlet) →
      Action task now x s (.finished (.ok none))
        { s with outlet := { outlet with turn := outlet.turn.leave task } }
  | waited {w w' : Wait} {slots : Slots} : x.phase = .await w →
      w.act now s.slots = some (.ongoing w', slots) →
      Action task now x s (.ongoing { x with phase := .await w' }) { s with slots }
  | refused {w : Wait} {e : Error} {slots : Slots} : x.phase = .await w →
      w.act now s.slots = some (.finished (.error e), slots) →
      Action task now x s (.finished (.error e)) (x.release { s with slots })
  | timedOut {w : Wait} {slots : Slots} : x.phase = .await w →
      w.act now s.slots = some (.finished (.ok none), slots) →
      Action task now x s (.finished (.error (.timeout x.request.transaction)))
        (x.release { s with slots })
  | obtained {w : Wait} {r : Response} {slots : Slots} : x.phase = .await w →
      w.act now s.slots = some (.finished (.ok (some r)), slots) →
      Action task now x s (.finished (some <$> r.check)) (x.release { s with slots })
  | ending {e : Error} {r r' : EndRequest} {s' : Session} : x.phase = .failed e r →
      r.act task s = some (.ongoing r', s') →
      Action task now x s (.ongoing { x with phase := .failed e r' }) s'
  | ended {e : Error} {r : EndRequest} {result : Except Error Unit} {s' : Session} :
      x.phase = .failed e r → r.act task s = some (.finished result, s') →
      Action task now x s (.finished (.error e)) (x.release s')

/-- What `Exchange.actWrite` makes of the octets that are `left`: all written, some of them, or a
broken outlet. -/
theorem Exchange.acted_write {task now : Nat} {x : Exchange} {left : List UInt8} {s s' : Session}
    {p : Progress Exchange (Option Response)} (hphase : x.phase = .write left)
    (h : x.actWrite task now left s = some (p, s')) : x.Action task now s p s' := by
  rw [Exchange.actWrite] at h
  split at h
  · cases h
  · next left' outlet hwrite => cases h; exact .wrote hphase hwrite
  · next e outlet hwrite => cases h; exact .broke hphase hwrite
  · next outlet hwrite =>
    split at h
    · next hanswered => cases h; exact .sent hphase hanswered hwrite
    · next hanswered => cases h; exact .dropped hphase (by simpa using hanswered) hwrite

/-- Every action of `Exchange.act` is one of `Exchange.Action`. -/
theorem Exchange.acted {task now : Nat} {x : Exchange} {s s' : Session}
    {p : Progress Exchange (Option Response)} (h : x.act task now s = some (p, s')) :
    x.Action task now s p s' := by
  rw [Exchange.act] at h
  cases hphase : x.phase with
  | enter =>
    simp only [hphase] at h
    split at h
    · next hconnected => cases h; exact .entered hphase hconnected
    · next hconnected => cases h; exact .turnedAway hphase (by simpa using hconnected)
  | expect =>
    simp only [hphase] at h
    split at h
    · next slots hslots =>
      obtain ⟨hclosed, rfl⟩ := Slots.expect_eq_some_iff.mp hslots
      cases h
      exact .expected hphase hclosed
    · next hslots =>
      have hclosed : s.slots.closed = true := by simpa [Slots.expect] using hslots
      cases h
      exact .unexpected hphase hclosed
  | announce =>
    simp only [hphase] at h
    cases h
    exact .announced hphase
  | line =>
    simp only [hphase] at h
    split at h
    · next hheld =>
      split at h
      · next hlive => cases h; exact .begun hphase hheld hlive
      · next hlive => cases h; exact .dead hphase hheld (by simpa using hlive)
    · cases h
  | write left =>
    simp only [hphase] at h
    exact acted_write hphase h
  | await w =>
    simp only [hphase] at h
    split at h
    · cases h
    · next w' slots hw => cases h; exact .waited hphase hw
    · next e slots hw => cases h; exact .refused hphase hw
    · next slots hw => cases h; exact .timedOut hphase hw
    · next r slots hw => cases h; exact .obtained hphase hw
  | failed e r =>
    simp only [hphase] at h
    split at h
    · cases h
    · next r' s' hr => cases h; exact .ending hphase hr
    · next result s' hr => cases h; exact .ended hphase hr

/-! ## Tasks with a command -/

/-- What the end of an exchange means for the command it was made for: `Command.read` is asked only if
there is a response. -/
def Command.conclude (c : Command) : Except Error (Option Response) → Except Error Reply
  | .error e => .error e
  | .ok none => .ok .done
  | .ok (some r) => c.read r

/-- A session whose `negotiation` is settled, with a task out of the line for it. -/
def Session.negotiated (task : Nat) (s : Session) : Session :=
  { s with negotiation :=
    { s.negotiation with settled := true, turn := s.negotiation.turn.leave task } }

/-- What `Task.actCommand` can do: the steps of the negotiation, if the command needs one, and those
of its own exchange. -/
inductive Task.CommandAction (task now : Nat) (c : Command) (phase : Phase) (g : Ground) :
    Progress Phase Reply → Ground → Prop
  | queued : phase = .start → c.negotiates → g.session.negotiation.settled = false →
      CommandAction task now c phase g (.ongoing .cell)
        { g with session :=
          { g.session with negotiation.turn := g.session.negotiation.turn.join task } }
  | ready : phase = .start → c.negotiates = false ∨ g.session.negotiation.settled = true →
      CommandAction task now c phase g (.ongoing .prepare) g
  | passed : phase = .cell → g.session.negotiation.settled = true →
      CommandAction task now c phase g (.ongoing .prepare)
        { g with session :=
          { g.session with negotiation.turn := g.session.negotiation.turn.leave task } }
  | skipped : phase = .cell → g.session.negotiation.settled = false →
      g.session.negotiation.turn.isHeldBy task → g.session.negotiation.attempted = true →
      CommandAction task now c phase g (.ongoing .prepare)
        { g with session := g.session.negotiated task }
  | opened : phase = .cell → g.session.negotiation.settled = false →
      g.session.negotiation.turn.isHeldBy task → g.session.negotiation.attempted = false →
      CommandAction task now c phase g
        (.ongoing (.negotiate (.new g.session.config Command.negotiation g.transaction)))
        { transaction := g.transaction + 1
          session := { g.session with negotiation.attempted := true } }
  | negotiating {x x' : Exchange} {s : Session} : phase = .negotiate x →
      x.act task now g.session = some (.ongoing x', s) →
      CommandAction task now c phase g (.ongoing (.negotiate x')) { g with session := s }
  | settled {x : Exchange} {r : Except Error (Option Response)} {s : Session} :
      phase = .negotiate x → x.act task now g.session = some (.finished r, s) →
      CommandAction task now c phase g (.ongoing .prepare) { g with session := s.negotiated task }
  | prepared : phase = .prepare →
      CommandAction task now c phase g (.ongoing (.exchange (.new g.session.config c g.transaction)))
        { g with transaction := g.transaction + 1 }
  | exchanging {x x' : Exchange} {s : Session} : phase = .exchange x →
      x.act task now g.session = some (.ongoing x', s) →
      CommandAction task now c phase g (.ongoing (.exchange x')) { g with session := s }
  | concluded {x : Exchange} {r : Except Error (Option Response)} {s : Session} :
      phase = .exchange x → x.act task now g.session = some (.finished r, s) →
      CommandAction task now c phase g (.finished (c.conclude r)) { g with session := s }

/-- In line for the negotiation `Task.actCell` finds it settled, or settles or attempts it at the head
of the line. -/
theorem Task.actedCell {task now : Nat} {c : Command} {phase : Phase} {g g' : Ground}
    {p : Progress Phase Reply} (hphase : phase = .cell) (h : actCell task g = some (p, g')) :
    CommandAction task now c phase g p g' := by
  rw [actCell] at h
  split at h
  · next hsettled => cases h; exact .passed hphase hsettled
  · next hsettled =>
    have hsettled : g.session.negotiation.settled = false := by simpa using hsettled
    split at h
    · next hheld =>
      split at h
      · next hattempted => cases h; exact .skipped hphase hsettled hheld hattempted
      · next hattempted =>
        cases h
        exact .opened hphase hsettled hheld (by simpa using hattempted)
    · cases h

/-- Every action of `Task.actCommand` is one of `Task.CommandAction`. -/
theorem Task.actedCommand {task now : Nat} {c : Command} {phase : Phase} {g g' : Ground}
    {p : Progress Phase Reply} (h : actCommand task now c phase g = some (p, g')) :
    CommandAction task now c phase g p g' := by
  cases phase with
  | start =>
    simp only [actCommand] at h
    split at h
    · next hneg => cases h; exact .queued rfl hneg.1 (by simpa using hneg.2)
    · next hneg =>
      cases h
      refine .ready rfl ?_
      cases hn : c.negotiates with
      | false => exact .inl rfl
      | true => exact .inr (by simpa [hn] using hneg)
  | cell => exact actedCell rfl h
  | negotiate x =>
    simp only [actCommand] at h
    split at h
    · cases h
    · next x' s hx => cases h; exact .negotiating rfl hx
    · next r s hx => cases h; exact .settled rfl hx
  | prepare =>
    cases h
    exact .prepared rfl
  | exchange x =>
    simp only [actCommand] at h
    split at h
    · cases h
    · next x' s hx => cases h; exact .exchanging rfl hx
    · next e s hx => cases h; exact .concluded rfl hx
    · next s hx => cases h; exact .concluded rfl hx
    · next r s hx => cases h; exact .concluded rfl hx
  | line | receive _ | await _ | finish _ => cases h

/-! ## All tasks -/

/-- What `Task.act` can do, by its `Job`. Actions on a mailbox are not told apart: they touch nothing
but the mailboxes. -/
inductive Task.Action (now : Nat) (t : Task) (g : Ground) : Progress Phase Reply → Ground → Prop
  | command {c : Command} {p : Progress Phase Reply} {g' : Ground} : t.job = .command c →
      CommandAction t.id now c t.phase g p g' → Action now t g p g'
  | mailed {p : Progress Phase Reply} {notifies : Mailbox Notify} {outputs : Mailbox Output} :
      (∃ limit, t.job = .nextNotify limit ∨ t.job = .nextOutput limit) →
      (∀ phase, p = .ongoing phase → phase = .line ∨ ∃ deadline, phase = .receive deadline) →
      Action now t g p { g with session := { g.session with notifies, outputs } }
  | expected {u : UInt32} : t.job = .expectResponse u → g.session.slots.closed = false →
      Action now t g (.finished (.ok .done))
        { g with session := { g.session with slots := g.session.slots.register u } }
  | unexpected {u : UInt32} : t.job = .expectResponse u → g.session.slots.closed = true →
      Action now t g (.finished (.error .terminated)) g
  | forgot {u : UInt32} : t.job = .forgetResponse u →
      Action now t g (.finished (.ok .done))
        { g with session := { g.session with slots := g.session.slots.forget u } }
  | awaiting {u : UInt32} {limit : Option Nat} : t.job = .awaitResponse u limit →
      t.phase = .start → Action now t g (.ongoing (.await ⟨u, limit.map (now + ·), .listen⟩)) g
  | waited {u : UInt32} {limit : Option Nat} {w w' : Wait} {slots : Slots} :
      t.job = .awaitResponse u limit → t.phase = .await w →
      w.act now g.session.slots = some (.ongoing w', slots) →
      Action now t g (.ongoing (.await w')) { g with session := { g.session with slots } }
  | answered {u : UInt32} {limit : Option Nat} {w : Wait}
      {result : Except Error (Option Response)} {slots : Slots} :
      t.job = .awaitResponse u limit → t.phase = .await w →
      w.act now g.session.slots = some (.finished result, slots) →
      Action now t g (.finished (.response <$> result))
        { g with session := { g.session with slots } }
  | terminating : t.job = .terminate → t.phase = .start →
      Action now t g (.ongoing (.finish .begin)) g
  | ending {r r' : EndRequest} {s : Session} : t.job = .terminate → t.phase = .finish r →
      r.act t.id g.session = some (.ongoing r', s) →
      Action now t g (.ongoing (.finish r')) { g with session := s }
  | ended {r : EndRequest} {result : Except Error Unit} {s : Session} : t.job = .terminate →
      t.phase = .finish r → r.act t.id g.session = some (.finished result, s) →
      Action now t g (.finished (.ok .done)) { g with session := s }
  | sawEnd : t.job = .awaitEnd → g.session.lifecycle.stage = .terminated →
      Action now t g (.finished (.ok .done)) g

/-- `Task.actReceive` puts its mailbox back and goes on in line or at the head of it. -/
theorem Task.acted_receive {task now : Nat} {limit : Option Nat} {phase : Phase} {box : Mailbox α}
    {put : Mailbox α → Session} {reply : Option α → Reply} {g g' : Ground}
    {p : Progress Phase Reply} (hbox : g.session = put box)
    (h : actReceive task now limit phase box put reply g = some (p, g')) :
    (∃ box', g' = { g with session := put box' }) ∧
      ∀ phase, p = .ongoing phase → phase = .line ∨ ∃ deadline, phase = .receive deadline := by
  cases phase with
  | start =>
    cases h
    exact ⟨⟨_, rfl⟩, by rintro _ ⟨⟩; exact .inl rfl⟩
  | line =>
    simp only [actReceive] at h
    split at h
    · cases h
      exact ⟨⟨box, by rw [hbox]⟩, by rintro _ ⟨⟩; exact .inr ⟨_, rfl⟩⟩
    · cases h
  | receive deadline =>
    simp only [actReceive] at h
    split at h
    · cases h
      exact ⟨⟨_, rfl⟩, by rintro _ ⟨⟩⟩
    · cases h
      exact ⟨⟨_, rfl⟩, by rintro _ ⟨⟩⟩
    · split at h
      · cases h
        exact ⟨⟨_, rfl⟩, by rintro _ ⟨⟩⟩
      · cases h
  | cell | negotiate _ | prepare | exchange _ | await _ | finish _ => cases h

/-- Every action of `Task.act` is one of `Task.Action`. -/
theorem Task.acted {now : Nat} {t : Task} {g g' : Ground} {p : Progress Phase Reply}
    (h : t.act now g = some (p, g')) : t.Action now g p g' := by
  rw [Task.act] at h
  cases hjob : t.job with
  | command c =>
    simp only [hjob] at h
    exact .command hjob (actedCommand h)
  | nextNotify limit =>
    simp only [hjob] at h
    obtain ⟨⟨box, rfl⟩, hphase⟩ := acted_receive rfl h
    exact .mailed ⟨limit, .inl hjob⟩ hphase
  | nextOutput limit =>
    simp only [hjob] at h
    obtain ⟨⟨box, rfl⟩, hphase⟩ := acted_receive rfl h
    exact .mailed ⟨limit, .inr hjob⟩ hphase
  | expectResponse u =>
    simp only [hjob] at h
    split at h
    · next slots hslots =>
      obtain ⟨hclosed, rfl⟩ := Slots.expect_eq_some_iff.mp hslots
      cases h
      exact .expected hjob hclosed
    · next hslots =>
      have hclosed : g.session.slots.closed = true := by simpa [Slots.expect] using hslots
      cases h
      exact .unexpected hjob hclosed
  | forgetResponse u =>
    simp only [hjob] at h
    cases h
    exact .forgot hjob
  | awaitResponse u limit =>
    simp only [hjob] at h
    split at h
    · next hphase => cases h; exact .awaiting hjob hphase
    · next w hphase =>
      split at h
      · cases h
      · next w' slots hw => cases h; exact .waited hjob hphase hw
      · next result slots hw => cases h; exact .answered hjob hphase hw
    · cases h
  | terminate =>
    simp only [hjob] at h
    split at h
    · next hphase => cases h; exact .terminating hjob hphase
    · next r hphase =>
      split at h
      · cases h
      · next r' s hr => cases h; exact .ending hjob hphase hr
      · next result s hr => cases h; exact .ended hjob hphase hr
    · cases h
  | awaitEnd =>
    simp only [hjob] at h
    split at h
    · next hstage => cases h; exact .sawEnd hjob hstage
    · cases h

/-! ## The receiver -/

/-- The response that `Session.receiverStep` takes from the connection with its next action, if it
takes one. -/
def Session.arriving? (now : Nat) (s : Session) : Option Response :=
  match s.receiver with
  | .reading packet =>
    if s.stop then none
    else
      match packet.poll s.limits now s.inbound with
      | (.finished (.ok (some payload)), _) =>
        match Packet.parse payload with
        | .ok (.response r) => some r
        | _ => none
      | _ => none
  | _ => none

/-- What `Session.receiverStep` can do, told apart by what becomes of the slots. Filling and closing
are the two updates after which the bell is still to be rung. -/
inductive Session.Reception (now : Nat) (s s' : Session) : Prop
  | filled {r : Response} : s.arriving? now = some r → s.slots.fill r = some s'.slots →
      s'.receiver = .ringing r.transaction → Reception now s s'
  | kept : (∀ r, s.arriving? now = some r → s.slots.fill r = none) → s'.slots = s.slots →
      (∀ t, s.receiver ≠ .ringing t) → (∀ failure, s.receiver ≠ .ending .ring failure) →
      Reception now s s'
  | rung : s.arriving? now = none → s'.slots = s.slots.ring → Reception now s s'
  | closed {failure : Option Error} : s.arriving? now = none → s'.slots = s.slots.close →
      s'.receiver = .ending .ring failure → Reception now s s'

/-- On its way to the end the receiver fills no slot: `Session.endStep` closes them, rings, or leaves
them alone. -/
theorem Session.received_ending {now : Nat} {s : Session} {stage : EndStage}
    {failure : Option Error} (h : s.receiver = .ending stage failure) :
    s.Reception now (s.endStep stage failure) := by
  have harriving : s.arriving? now = none := by rw [arriving?, h]
  have hkept : ∀ {s'}, stage ≠ .ring → s'.slots = s.slots → s.Reception now s' := by
    intro s' hstage hslots
    refine .kept (by simp [harriving]) hslots (by simp [h]) ?_
    rw [h]
    rintro e ⟨⟩
    exact hstage rfl
  cases stage with
  | closeSlots => exact .closed harriving rfl rfl
  | ring => exact .rung harriving rfl
  | takeListeners =>
    refine hkept (by simp) ?_
    rw [endStep]
    split <;> rfl
  | call left => cases left <;> exact hkept (by simp) rfl
  | begin | closeNotifies | closeOutputs => exact hkept (by simp) rfl

/-- A payload that has come in goes to a slot if `Session.dispatch` finds it to be a response that is
awaited. -/
theorem Session.received_payload {now : Nat} {s : Session} {packet : PacketRead} {payload : String}
    {inbound : Inbound} (hreading : s.receiver = .reading packet) (hstop : s.stop = false)
    (hpoll : packet.poll s.limits now s.inbound = (.finished (.ok (some payload)), inbound)) :
    s.Reception now
      ({ s with receiver := .reading (.start now), inbound }.dispatch payload) := by
  have hkept : ∀ {s'}, (∀ r, s.arriving? now = some r → s.slots.fill r = none) →
      s'.slots = s.slots → s.Reception now s' :=
    fun hnone hslots => .kept hnone hslots (by simp [hreading]) (by simp [hreading])
  rw [dispatch]
  cases hparse : Packet.parse payload with
  | error e =>
    refine hkept ?_ rfl
    simp [arriving?, hreading, hstop, hpoll, hparse]
  | ok packet' =>
    cases packet' with
    | response r =>
      have harriving : s.arriving? now = some r := by
        simp [arriving?, hreading, hstop, hpoll, hparse]
      simp only [route, logReceived, note]
      split
      · next slots hfill => exact .filled harriving hfill rfl
      · next hfill =>
        refine hkept (fun r' h => ?_) rfl
        rw [harriving, Option.some.injEq] at h
        rw [← h]
        exact hfill
    | notify _ | output _ =>
      refine hkept ?_ rfl
      simp [arriving?, hreading, hstop, hpoll, hparse]

/-- Every action of `Session.receiverStep` is one of `Session.Reception`. -/
theorem Session.received {now : Nat} {s s' : Session} (h : s.receiverStep now = some s') :
    s.Reception now s' := by
  rw [receiverStep] at h
  split at h
  · cases h
  · next stage failure hreceiver => cases h; exact received_ending hreceiver
  · next t hreceiver =>
    cases h
    exact .rung (by rw [arriving?, hreceiver]) rfl
  · next packet hreceiver =>
    have hkept : ∀ {s'}, s.arriving? now = none → s'.slots = s.slots → s.Reception now s' :=
      fun hnone hslots =>
        .kept (by simp [hnone]) hslots (by simp [hreceiver]) (by simp [hreceiver])
    split at h
    · next hstop =>
      cases h
      exact hkept (by simp [arriving?, hreceiver, hstop]) rfl
    · next hstop =>
      have hstop : s.stop = false := by simpa using hstop
      split at h
      · next packet' inbound hpoll =>
        split at h
        · cases h
        · cases h
          exact hkept (by simp [arriving?, hreceiver, hpoll]) rfl
      · next payload inbound hpoll => cases h; exact received_payload hreceiver hstop hpoll
      · next inbound hpoll => cases h; exact hkept (by simp [arriving?, hreceiver, hpoll]) rfl
      · next e inbound hpoll => cases h; exact hkept (by simp [arriving?, hreceiver, hpoll]) rfl

/-- Where a response arrives (`Session.arriving?`), the receiver can act. -/
theorem Session.arriving?_eq_none {now : Nat} {s : Session} (h : s.receiverStep now = none) :
    s.arriving? now = none := by
  rw [receiverStep] at h
  split at h
  · next hreceiver => rw [arriving?, hreceiver]
  · cases h
  · cases h
  · next packet hreceiver =>
    rw [arriving?, hreceiver]
    simp only
    split at h
    · cases h
    · split at h
      · next hpoll => simp [hpoll]
      · cases h
      · cases h
      · cases h

/-! ## What all actions keep

No action changes the number of a session, tasks do not touch the receiver, and what anybody does to
the lifecycle is one of four things, none of which leads back.
-/

/-- What single actions do to a lifecycle: `Lifecycle.begin`, `Lifecycle.take`, `Lifecycle.settle`, or
nothing. -/
inductive Lifecycle.Onward (l : Lifecycle) : Lifecycle → Prop
  | same : Onward l l
  | begun : Onward l l.begin
  | taken : Onward l l.take.2
  | settled : Onward l l.settle

/-- No action brings a lifecycle back to `Lifecycle.isConnected`. -/
theorem Lifecycle.Onward.isConnected_eq_false {l l' : Lifecycle} (h : l.Onward l')
    (hl : l.isConnected = false) : l'.isConnected = false := by
  have hstage : l.stage ≠ .connected := by simpa [isConnected] using hl
  cases h with
  | same => exact hl
  | begun => rwa [begin, if_neg hstage]
  | taken =>
    rw [take]
    split
    · exact hl
    · exact hl
  | settled => rfl

/-- What the action of a task keeps of its session: its number, its receiver, and the order of its
lifecycle (`Lifecycle.Onward`). -/
structure Session.Akin (s s' : Session) : Prop where
  id_eq : s'.id = s.id
  receiver_eq : s'.receiver = s.receiver
  onward : s.lifecycle.Onward s'.lifecycle

/-- Ending a session keeps what `Session.Akin` says. -/
theorem EndRequest.Action.akin {task : Nat} {r : EndRequest} {s s' : Session}
    {p : Progress EndRequest Unit} (h : r.Action task s p s') : s.Akin s' := by
  cases h with
  | begun => exact ⟨rfl, rfl, .begun⟩
  | stopped | joined | shut => exact ⟨rfl, rfl, .same⟩

/-- `Exchange.release` touches slots only. -/
theorem Exchange.akin_release {x : Exchange} {s s' : Session} (h : s.Akin s') :
    s.Akin (x.release s') := by
  rw [release]
  split
  · exact ⟨h.id_eq, h.receiver_eq, h.onward⟩
  · exact h

/-- Exchanges keep what `Session.Akin` says, also those that end the session because they could not
write. -/
theorem Exchange.Action.akin {task now : Nat} {x : Exchange} {s s' : Session}
    {p : Progress Exchange (Option Response)} (h : x.Action task now s p s') : s.Akin s' := by
  cases h with
  | dead | refused | timedOut | obtained => exact akin_release ⟨rfl, rfl, .same⟩
  | ending _ hr => exact (EndRequest.acted hr).akin
  | ended _ hr => exact akin_release (EndRequest.acted hr).akin
  | _ => exact ⟨rfl, rfl, .same⟩

/-- A command keeps what `Session.Akin` says, negotiation included. -/
theorem Task.CommandAction.akin {task now : Nat} {c : Command} {phase : Phase} {g g' : Ground}
    {p : Progress Phase Reply} (h : CommandAction task now c phase g p g') :
    g.session.Akin g'.session := by
  cases h with
  | negotiating _ hx | exchanging _ hx | concluded _ hx => exact (Exchange.acted hx).akin
  | settled _ hx =>
    have h := (Exchange.acted hx).akin
    exact ⟨h.id_eq, h.receiver_eq, h.onward⟩
  | _ => exact ⟨rfl, rfl, .same⟩

/-- All tasks keep what `Session.Akin` says. -/
theorem Task.Action.akin {now : Nat} {t : Task} {g g' : Ground} {p : Progress Phase Reply}
    (h : t.Action now g p g') : g.session.Akin g'.session := by
  cases h with
  | command _ hc => exact hc.akin
  | ending _ _ hr | ended _ _ hr => exact (EndRequest.acted hr).akin
  | _ => exact ⟨rfl, rfl, .same⟩

/-- An exchange that is given up (`Exchange.abandon`) keeps what `Session.Akin` says. -/
theorem Exchange.akin_abandon (task : Nat) (x : Exchange) (s : Session) :
    s.Akin (x.abandon task s) := by
  rw [abandon]
  split
  · exact ⟨rfl, rfl, .same⟩
  · exact ⟨rfl, rfl, .same⟩
  · exact akin_release ⟨rfl, rfl, .same⟩

/-- A task that is given up (`Task.abandon`) keeps what `Session.Akin` says, whatever it was about to
do. -/
theorem Task.akin_abandon (t : Task) (s : Session) : s.Akin (t.abandon s) := by
  rw [abandon]
  split
  case h_2 x _ =>
    have h := Exchange.akin_abandon t.id x s
    exact ⟨h.id_eq, h.receiver_eq, h.onward⟩
  case h_3 x _ => exact Exchange.akin_abandon t.id x s
  all_goals exact ⟨rfl, rfl, .same⟩

/-- `Session.dispatch` files a payload and touches neither number nor lifecycle. -/
theorem Session.dispatch_keeps (s : Session) (payload : String) :
    (s.dispatch payload).id = s.id ∧ (s.dispatch payload).lifecycle = s.lifecycle := by
  rw [dispatch]
  split
  · next packet _ =>
    cases packet with
    | response r =>
      rw [route]
      split <;> exact ⟨rfl, rfl⟩
    | notify _ | output _ => exact ⟨rfl, rfl⟩
  · exact ⟨rfl, rfl⟩

/-- `Session.endStep` takes the lifecycle at most one step further and keeps the number. -/
theorem Session.endStep_keeps (s : Session) (stage : EndStage) (failure : Option Error) :
    (s.endStep stage failure).id = s.id ∧
      s.lifecycle.Onward (s.endStep stage failure).lifecycle := by
  cases stage with
  | begin => exact ⟨rfl, .begun⟩
  | takeListeners =>
    have htaken : (s.endStep .takeListeners failure).id = s.id ∧
        (s.endStep .takeListeners failure).lifecycle = s.lifecycle.take.2 := by
      rw [endStep]
      split
      · next h => exact ⟨rfl, (congrArg Prod.snd h).symm⟩
      · next h => exact ⟨rfl, (congrArg Prod.snd h).symm⟩
    rw [htaken.2]
    exact ⟨htaken.1, .taken⟩
  | call left =>
    cases left with
    | nil => exact ⟨rfl, .settled⟩
    | cons => exact ⟨rfl, .same⟩
  | closeSlots | ring | closeNotifies | closeOutputs => exact ⟨rfl, .same⟩

/-- So does every action of the receiver: the number stays, and the lifecycle goes
`Lifecycle.Onward`. -/
theorem Session.receiverStep_keeps {now : Nat} {s s' : Session}
    (h : s.receiverStep now = some s') : s'.id = s.id ∧ s.lifecycle.Onward s'.lifecycle := by
  rw [receiverStep] at h
  split at h
  · cases h
  · cases h
    exact endStep_keeps ..
  · cases h
    exact ⟨rfl, .same⟩
  · split at h
    · cases h
      exact ⟨rfl, .same⟩
    · split at h
      · split at h
        · cases h
        · cases h
          exact ⟨rfl, .same⟩
      · next payload inbound _ =>
        cases h
        obtain ⟨hid, hlifecycle⟩ := dispatch_keeps
          { s with receiver := .reading (.start now), inbound } payload
        rw [hlifecycle]
        exact ⟨hid, .same⟩
      · cases h
        exact ⟨rfl, .same⟩
      · cases h
        exact ⟨rfl, .same⟩

end Dbgp
