import Dbgp.Proofs.Scheduling

/-!
# What a move does to one connection

Most of what a client does leaves the incoming side of a session alone: its receiver, what has arrived
for it and has not been read, and what loggers were shown. `Session.Kept` says what every such move
keeps. `Client.change` says once what any move does to a session: its receiver acts, something arrives
on its connection, it is told to stop because nobody has it, or all of this is kept. For a handshake
`Client.handshake?_step` says the same.
-/

namespace Dbgp

/-- At most the first packet of a `Mailbox` has been taken, and none has come. -/
def Mailbox.Drained (m m' : Mailbox α) : Prop :=
  m'.items = m.items ∨ ∃ a, m.items = a :: m'.items

theorem Mailbox.Drained.refl (m : Mailbox α) : m.Drained m :=
  .inl rfl

/-- `Mailbox.look` takes no more than the first packet and leaves the mailbox as open as it was. -/
theorem Mailbox.drained_look (m : Mailbox α) :
    m.Drained m.look.2 ∧ m.look.2.closed = m.closed := by
  rw [look]
  split
  · next a rest hitems => exact ⟨.inr ⟨a, hitems⟩, rfl⟩
  · exact ⟨.refl m, rfl⟩

namespace Session

/-- What loggers were shown of the payloads, in order: the `received` entries of the journal. -/
def heard (s : Session) : List (String × String) :=
  s.journal.filterMap fun
    | .received logger payload => some (logger, payload)
    | _ => none

/-- How listeners were called, in order: the `ended` entries of the journal. -/
def told (s : Session) : List ListenerCall :=
  s.journal.filterMap fun
    | .ended call => some call
    | _ => none

/-! ## What is kept -/

/-- What stays as it is while no payload is taken from the connection of a session. -/
structure Quiet (s s' : Session) : Prop where
  id_eq : s'.id = s.id
  connection_eq : s'.connection = s.connection
  init_eq : s'.init = s.init
  config_eq : s'.config = s.config
  heard_eq : s'.heard = s.heard
  notifies : s.notifies.Drained s'.notifies
  outputs : s.outputs.Drained s'.outputs
  stop : s.stop = true → s'.stop = true

/-- What all but the receiver and the connection keep of a session, with all that is `Quiet`. Only
listeners that come too late are called here, and they are told of no error. -/
structure Kept (s s' : Session) : Prop extends Quiet s s' where
  receiver_eq : s'.receiver = s.receiver
  inbound_eq : s'.inbound = s.inbound
  slots_closed : s'.slots.closed = s.slots.closed
  notifies_closed : s'.notifies.closed = s.notifies.closed
  outputs_closed : s'.outputs.closed = s.outputs.closed
  fired_eq : s'.lifecycle.fired = s.lifecycle.fired
  stage : s'.lifecycle.stage = s.lifecycle.stage ∨
    s.lifecycle.stage = .connected ∧ s'.lifecycle.stage = .terminating
  told : ∀ call ∈ s'.told, call ∈ s.told ∨ call.error = none

/-- What tasks keep of a session: with all that is `Kept`, those who listen for its end. -/
structure Spared (s s' : Session) : Prop extends Kept s s' where
  listeners_eq : s'.lifecycle.listeners = s.lifecycle.listeners
  told_eq : s'.told = s.told

variable {s s' : Session}

/-- A session that is past being connected stays at its stage. -/
theorem Kept.stage_eq (h : s.Kept s') (hstage : s.lifecycle.stage ≠ .connected) :
    s'.lifecycle.stage = s.lifecycle.stage :=
  h.stage.resolve_right fun ⟨hconnected, _⟩ => hstage hconnected

/-- What does not belong to the incoming side: the outlet, the negotiation, loggers, whoever has the
session. -/
theorem spared_update (s : Session) (outlet : Outlet) (negotiation : Negotiation)
    (loggers : List String) (owned : Bool) :
    s.Spared { s with outlet, negotiation, loggers, owned } where
  id_eq := rfl
  connection_eq := rfl
  init_eq := rfl
  config_eq := rfl
  heard_eq := rfl
  notifies := .refl _
  outputs := .refl _
  stop hstop := hstop
  receiver_eq := rfl
  inbound_eq := rfl
  slots_closed := rfl
  notifies_closed := rfl
  outputs_closed := rfl
  fired_eq := rfl
  stage := .inl rfl
  told _ hcall := .inl hcall
  listeners_eq := rfl
  told_eq := rfl

theorem Spared.refl (s : Session) : s.Spared s :=
  spared_update s s.outlet s.negotiation s.loggers s.owned

/-- Slots are made and given up, but neither opened nor closed. -/
theorem Spared.slots (h : s.Spared s') {slots : Slots} (hclosed : slots.closed = s'.slots.closed) :
    s.Spared { s' with slots } :=
  { h with slots_closed := hclosed.trans h.slots_closed }

/-- The state of a negotiation is none of what is `Spared`. -/
theorem Spared.negotiation (h : s.Spared s') (negotiation : Negotiation) :
    s.Spared { s' with negotiation } :=
  { h with }

/-- `Lifecycle.begin` takes the stage from connected to terminating, which is allowed. -/
theorem spared_begin (s : Session) : s.Spared { s with lifecycle := s.lifecycle.begin } := by
  by_cases hstage : s.lifecycle.stage = .connected
  · rw [Lifecycle.begin, if_pos hstage]
    exact { Spared.refl s with stage := .inr ⟨hstage, rfl⟩ }
  · rw [Lifecycle.begin, if_neg hstage]
    exact .refl s

/-- `Session.logSent` writes to the journal neither what is `heard` nor what is `told`. -/
theorem spared_logSent (s : Session) (r : Request) : s.Spared (s.logSent r) := by
  have hnone : ∀ {β : Type} (f : Event → Option β), (∀ l, f (.sent l r) = none) →
      (s.loggers.map fun l => Event.sent l r).filterMap f = [] := by
    intro β f hf
    rw [List.filterMap_map]
    exact List.filterMap_eq_nil_iff.mpr fun l _ => hf l
  have hheard : (s.logSent r).heard = s.heard := by
    rw [heard, logSent, note, List.filterMap_append, hnone _ fun l => rfl, List.append_nil, heard]
  have htold : (s.logSent r).told = s.told := by
    rw [told, logSent, note, List.filterMap_append, hnone _ fun l => rfl, List.append_nil, told]
  exact { Spared.refl s with
    heard_eq := hheard, told_eq := htold, told := fun _ hcall => .inl (htold ▸ hcall) }

/-- `Session.addListener` registers a listener, or calls it at once and tells it of no error. -/
theorem kept_addListener (s : Session) (name : String) : s.Kept (s.addListener name) := by
  rw [addListener, Lifecycle.addListener]
  by_cases hfired : s.lifecycle.fired
  · rw [if_pos hfired]
    have hheard : (s.note [.ended ⟨name, none⟩]).heard = s.heard := by
      rw [heard, note, List.filterMap_append]
      exact List.append_nil _
    refine { (Spared.refl s).toKept with heard_eq := hheard, told := fun call hcall => ?_ }
    have hcall : call ∈ (s.note [.ended ⟨name, none⟩]).told := hcall
    rw [told, note, List.filterMap_append, List.mem_append] at hcall
    obtain hcall | hcall := hcall
    · exact .inl hcall
    · rw [List.mem_singleton.mp hcall]
      exact .inr rfl
  · rw [if_neg hfired]
    have hheard : Session.heard { s with
        lifecycle.listeners := s.lifecycle.listeners ++ [name], journal := s.journal ++ [] } =
        s.heard := by
      rw [heard, List.append_nil, heard]
    refine { (Spared.refl s).toKept with heard_eq := hheard, told := fun call hcall => .inl ?_ }
    have hcall : call ∈ (s.note []).told := hcall
    rwa [told, note, List.append_nil] at hcall

/-- `Session.removeListener` changes the listeners only. -/
theorem kept_removeListener (s : Session) (name : String) : s.Kept (s.removeListener name) :=
  { (Spared.refl s).toKept with }

end Session

/-! ## Tasks -/

/-- A wait neither opens nor closes slots. -/
theorem Wait.Action.closed_eq {now : Nat} {w : Wait} {s s' : Slots}
    {p : Progress Wait (Option Response)} (h : w.Action now s p s') : s'.closed = s.closed := by
  cases h with
  | parked => exact Slots.closed_register _ _
  | _ => rfl

/-- `Exchange.release` gives a slot up and does no more. -/
theorem Exchange.spared_release {x : Exchange} {s s' : Session} (h : s.Spared s') :
    s.Spared (x.release s') := by
  rw [release]
  split
  · exact h.slots rfl
  · exact h

/-- Ending a session on request leaves the incoming side to the receiver. -/
theorem EndRequest.Action.spared {task : Nat} {r : EndRequest} {s s' : Session}
    {p : Progress EndRequest Unit} (h : r.Action task s p s') : s.Spared s' := by
  cases h with
  | begun => exact s.spared_begin
  | stopped => exact { Session.Spared.refl s with stop := fun _ => rfl }
  | joined | shut => exact s.spared_update _ s.negotiation s.loggers s.owned

/-- What an exchange does leaves the session `Spared`. -/
theorem Exchange.Action.spared {task now : Nat} {x : Exchange} {s s' : Session}
    {p : Progress Exchange (Option Response)} (h : x.Action task now s p s') : s.Spared s' := by
  have hoff : ∀ outlet, s.Spared { s with outlet } := fun outlet =>
    s.spared_update outlet s.negotiation s.loggers s.owned
  cases h with
  | entered | turnedAway | unexpected | begun => exact .refl s
  | expected => exact (Session.Spared.refl s).slots (Slots.closed_register _ _)
  | announced => exact { s.spared_logSent x.request with }
  | wrote | broke | sent | dropped => exact hoff _
  | dead => exact spared_release (hoff _)
  | waited _ hw => exact (Session.Spared.refl s).slots (Wait.acted hw).closed_eq
  | refused _ hw | timedOut _ hw | obtained _ hw =>
    exact spared_release ((Session.Spared.refl s).slots (Wait.acted hw).closed_eq)
  | ending _ hr => exact (EndRequest.acted hr).spared
  | ended _ hr => exact spared_release (EndRequest.acted hr).spared

/-- So does what a command does, negotiation included. -/
theorem Task.CommandAction.spared {task now : Nat} {c : Command} {phase : Phase} {g g' : Ground}
    {p : Progress Phase Reply} (h : CommandAction task now c phase g p g') :
    g.session.Spared g'.session := by
  cases h with
  | negotiating _ hx | exchanging _ hx | concluded _ hx => exact (Exchange.acted hx).spared
  | settled _ hx => exact (Exchange.acted hx).spared.negotiation _
  | ready | prepared => exact .refl g.session
  | queued | passed | skipped | opened => exact (Session.Spared.refl g.session).negotiation _

/-- `Task.actReceive` takes at most the first packet from its mailbox. -/
theorem Task.drained_receive {task now : Nat} {limit : Option Nat} {phase : Phase} {box : Mailbox α}
    {put : Mailbox α → Session} {reply : Option α → Reply} {g g' : Ground}
    {p : Progress Phase Reply} (hbox : g.session = put box)
    (h : actReceive task now limit phase box put reply g = some (p, g')) :
    ∃ box', (box.Drained box' ∧ box'.closed = box.closed) ∧ g'.session = put box' := by
  have hlook := box.drained_look
  cases phase with
  | start =>
    cases h
    exact ⟨{ box with turn := box.turn.join task }, ⟨.inl rfl, rfl⟩, rfl⟩
  | line =>
    simp only [actReceive] at h
    split at h
    · cases h
      exact ⟨box, ⟨.refl box, rfl⟩, hbox⟩
    · cases h
  | receive deadline =>
    simp only [actReceive] at h
    generalize box.look = looked at h hlook
    obtain ⟨found, box'⟩ := looked
    obtain ⟨hitems, hclosed⟩ := hlook
    have hleft : box.Drained { box' with turn := box'.turn.leave task } := hitems
    cases found with
    | item a | closed =>
      cases h
      exact ⟨_, ⟨hleft, hclosed⟩, rfl⟩
    | empty =>
      simp only at h
      split at h
      · cases h
        exact ⟨_, ⟨hleft, hclosed⟩, rfl⟩
      · cases h
  | cell | negotiate _ | prepare | exchange _ | await _ | finish _ => cases h

/-- Every action of a task leaves its session `Spared`. -/
theorem Task.spared_act {now : Nat} {t : Task} {g g' : Ground} {p : Progress Phase Reply}
    (h : t.act now g = some (p, g')) : g.session.Spared g'.session := by
  cases acted h with
  | command _ hc => exact hc.spared
  | mailed hjob _ =>
    obtain ⟨limit, hjob | hjob⟩ := hjob
    · rw [act, hjob] at h
      obtain ⟨box, ⟨hitems, hclosed⟩, hsession⟩ := drained_receive rfl h
      rw [hsession]
      exact { Session.Spared.refl g.session with notifies := hitems, notifies_closed := hclosed }
    · rw [act, hjob] at h
      obtain ⟨box, ⟨hitems, hclosed⟩, hsession⟩ := drained_receive rfl h
      rw [hsession]
      exact { Session.Spared.refl g.session with outputs := hitems, outputs_closed := hclosed }
  | expected => exact (Session.Spared.refl g.session).slots (Slots.closed_register _ _)
  | forgot => exact (Session.Spared.refl g.session).slots rfl
  | waited _ _ hw | answered _ _ hw =>
    exact (Session.Spared.refl g.session).slots (Wait.acted hw).closed_eq
  | ending _ _ hr | ended _ _ hr => exact (EndRequest.acted hr).spared
  | unexpected | awaiting | terminating | sawEnd => exact .refl g.session

/-- An exchange that is given up leaves its session `Spared`. -/
theorem Exchange.spared_abandon (task : Nat) (x : Exchange) (s : Session) :
    s.Spared (x.abandon task s) := by
  rw [abandon]
  split
  · exact .refl s
  · exact .refl s
  · exact spared_release (s.spared_update _ s.negotiation s.loggers s.owned)

/-- A task that is given up leaves its session `Spared`. -/
theorem Task.spared_abandon (t : Task) (s : Session) : s.Spared (t.abandon s) := by
  rw [abandon]
  split
  · exact (Session.Spared.refl s).negotiation _
  · next x _ => exact (Exchange.spared_abandon t.id x s).negotiation _
  · next x _ => exact Exchange.spared_abandon t.id x s
  · exact { Session.Spared.refl s with notifies := .inl rfl, outputs := .inl rfl }
  · exact { Session.Spared.refl s with notifies := .inl rfl, outputs := .inl rfl }
  · exact s.spared_update _ s.negotiation s.loggers s.owned
  · exact .refl s
  · exact .refl s
  · exact .refl s

/-! ## The receiver -/

namespace Session

/-- What `Session.receiverStep` can do, action by action and with the whole session after it. -/
inductive Receives (now : Nat) (s : Session) : Session → Prop
  | wound {stage : EndStage} {failure : Option Error} : s.receiver = .ending stage failure →
      Receives now s (s.endStep stage failure)
  | rang {t : UInt32} : s.receiver = .ringing t →
      Receives now s { s with slots := s.slots.ring, receiver := .reading (.start now) }
  | stopped {r : PacketRead} : s.receiver = .reading r → s.stop = true →
      Receives now s { s with receiver := .ending .begin none }
  | waited {r r' : PacketRead} {inbound : Inbound} : s.receiver = .reading r → s.stop = false →
      r.poll s.limits now s.inbound = (.ongoing r', inbound) →
      Receives now s { s with receiver := .reading r', inbound }
  | took {r : PacketRead} {payload : String} {inbound : Inbound} : s.receiver = .reading r →
      s.stop = false → r.poll s.limits now s.inbound = (.finished (.ok (some payload)), inbound) →
      Receives now s ({ s with receiver := .reading (.start now), inbound }.dispatch payload)
  | closed {r : PacketRead} {inbound : Inbound} : s.receiver = .reading r → s.stop = false →
      r.poll s.limits now s.inbound = (.finished (.ok none), inbound) →
      Receives now s { s with receiver := .ending .begin none, inbound }
  | failed {r : PacketRead} {e : Error} {inbound : Inbound} : s.receiver = .reading r →
      s.stop = false → r.poll s.limits now s.inbound = (.finished (.error e), inbound) →
      Receives now s { s with receiver := .ending .begin (some e), inbound }

/-- Every action of `Session.receiverStep` is one of `Receives`. -/
theorem receives {now : Nat} {s s' : Session} (h : s.receiverStep now = some s') :
    s.Receives now s' := by
  rw [receiverStep] at h
  split at h
  · cases h
  · next hreceiver => cases h; exact .wound hreceiver
  · next hreceiver => cases h; exact .rang hreceiver
  · next r hreceiver =>
    split at h
    · next hstop => cases h; exact .stopped hreceiver hstop
    · next hstop =>
      have hstop : s.stop = false := by simpa using hstop
      split at h
      · next hpoll =>
        split at h
        · cases h
        · cases h; exact .waited hreceiver hstop hpoll
      · next hpoll => cases h; exact .took hreceiver hstop hpoll
      · next hpoll => cases h; exact .closed hreceiver hstop hpoll
      · next hpoll => cases h; exact .failed hreceiver hstop hpoll

/-- The payload that `Session.receiverStep` takes from the connection with its next action, if it
takes one. -/
def taking? (now : Nat) (s : Session) : Option String :=
  match s.receiver with
  | .reading r =>
    if s.stop then none
    else
      match r.poll s.limits now s.inbound with
      | (.finished (.ok (some payload)), _) => some payload
      | _ => none
  | _ => none

end Session

/-! ## Moves -/

namespace Client

/-- What a move does to those who listen for the end of a session. -/
inductive Audience (m : Move) (s s' : Session) : Prop
  | same : s'.lifecycle.listeners = s.lifecycle.listeners → s'.told = s.told → Audience m s s'
  | joined {name : String} : m = .addListener s.id name → s' = s.addListener name → Audience m s s'
  | left {name : String} : m = .removeListener s.id name → s' = s.removeListener name →
      Audience m s s'

/-- What a move does to a session. Only its own receiver and its own connection do more than leave it
`Kept`. -/
inductive Change (c : Client) (m : Move) (s : Session) : Session → Prop
  | received {s' : Session} : m = .receiver s.id → c.isDeserted s = false →
      s.receiverStep c.now = some s' → Change c m s s'
  | stalled : m = .receiver s.id → c.isDeserted s = false → s.receiverStep c.now = none →
      Change c m s s
  | deserted : m = .receiver s.id → c.isDeserted s = true → Change c m s { s with stop := true }
  | arrived {what : Arrival} : m = .arrive s.connection what →
      Change c m s { s with inbound := s.inbound.receive what }
  | aside {s' : Session} : m ≠ .receiver s.id → (∀ what, m ≠ .arrive s.connection what) →
      s.Kept s' → Audience m s s' → Change c m s s'

variable {c : Client} {n : Nat} {s : Session}

/-- A move that leaves a session `Spared` is a `Change` of it, and none for its listeners. -/
theorem change_of_spared {m : Move} {s' : Session} (hreceiver : m ≠ .receiver s.id)
    (harrive : ∀ what, m ≠ .arrive s.connection what) (h : s.Spared s') : Change c m s s' :=
  .aside hreceiver harrive h.toKept (.same h.listeners_eq h.told_eq)

/-- A `modifySession` that leaves sessions `Kept` is a `Change` of every session, with or without the
number. -/
theorem change_modifySession {m : Move} {f : Session → Session} {j : Nat}
    (hs : c.session? n = some s) (hf : ∀ s : Session, s.Kept (f s)) (hreceiver : m ≠ .receiver s.id)
    (harrive : ∀ what, m ≠ .arrive s.connection what) (haudience : s.id = j → Audience m s (f s)) :
    ∃ s', (c.modifySession j f).session? n = some s' ∧ Change c m s s' := by
  rw [session?_modifySession (fun s => (hf s).id_eq), hs]
  split
  · next hj =>
    exact ⟨f s, rfl, .aside hreceiver harrive (hf s) (haudience ((id_of_session? hs).trans hj))⟩
  · exact ⟨s, rfl, change_of_spared hreceiver harrive (.refl s)⟩

/-- A receiver leaves other sessions alone. -/
theorem session?_receiver_of_ne {j : Nat} (h : n ≠ j) :
    (c.step (.receiver j)).session? n = c.session? n := by
  rw [step]
  cases hs : c.session? j with
  | none => rfl
  | some s =>
    have hput : ∀ s' : Session, s'.id = s.id → (c.putSession s').session? n = c.session? n := by
      intro s' hid
      rw [session?_putSession hs s' (hid.trans (id_of_session? hs)), if_neg h]
    rw [Option.bind_some, actSession]
    split
    · exact hput { s with stop := true } rfl
    · cases hstep : s.receiverStep c.now with
      | none => rfl
      | some s' => exact hput s' (Session.receiverStep_keeps hstep).1

/-- Where the receiver acts, `step` replaces its session and changes nothing else. -/
theorem step_receiver {s' : Session} (hs : c.session? n = some s) (hdeserted : c.isDeserted s = false)
    (hstep : s.receiverStep c.now = some s') : c.step (.receiver n) = c.putSession s' := by
  rw [step, hs, Option.bind_some, actSession, if_neg (by simpa [isDeserted] using hdeserted), hstep]
  rfl

/-- What the own receiver of a session does is a `Change`. -/
theorem change_receiver (hs : c.session? n = some s) :
    ∃ s', (c.step (.receiver n)).session? n = some s' ∧ Change c (.receiver n) s s' := by
  have hid := id_of_session? hs
  rw [step, hs, Option.bind_some, actSession]
  by_cases hdeserted : c.isDeserted s
  · rw [if_pos (by simpa [isDeserted] using hdeserted), Option.getD_some,
      session?_putSession hs { s with stop := true } hid, if_pos rfl]
    exact ⟨_, rfl, .deserted (by rw [hid]) hdeserted⟩
  · have hdeserted : c.isDeserted s = false := by simpa using hdeserted
    rw [if_neg (by simpa [isDeserted] using hdeserted)]
    cases hstep : s.receiverStep c.now with
    | none => exact ⟨s, hs, .stalled (by rw [hid]) hdeserted hstep⟩
    | some s' =>
      have hid' : s'.id = n := (Session.receiverStep_keeps hstep).1.trans hid
      rw [Option.map_some, Option.getD_some, session?_putSession hs s' hid', if_pos rfl]
      exact ⟨s', rfl, .received (by rw [hid]) hdeserted hstep⟩

/-- Every move does one of `Change` to a session that is there. -/
theorem change (hs : c.session? n = some s) (m : Move) :
    ∃ s', (c.step m).session? n = some s' ∧ Change c m s s' := by
  have hsame : ∀ {m}, m ≠ .receiver s.id → (∀ what, m ≠ .arrive s.connection what) →
      (c.step m).session? n = c.session? n → ∃ s', (c.step m).session? n = some s' ∧ Change c m s s' :=
    fun hreceiver harrive heq => ⟨s, heq.trans hs, change_of_spared hreceiver harrive (.refl s)⟩
  have hspared : ∀ {c : Client} {m} {f : Session → Session} {j : Nat}, c.session? n = some s →
      (∀ s : Session, s.Spared (f s)) → m ≠ .receiver s.id → (∀ what, m ≠ .arrive s.connection what) →
      ∃ s', (c.modifySession j f).session? n = some s' ∧ Change c m s s' := fun hs hf hreceiver harrive =>
    change_modifySession hs (fun s => (hf s).toKept) hreceiver harrive fun _ =>
      .same (hf s).listeners_eq (hf s).told_eq
  cases m with
  | accept config | start session job | pass millis => exact hsame (by simp) (by simp) rfl
  | attach config =>
    refine hsame (by simp) (by simp) ?_
    rw [step, attach, session?, List.find?_append, ← session?, hs]
    rfl
  | arrive k what =>
    rw [step, modifyInbound, session?, find?_map_session, ← session?, hs]
    · by_cases hk : s.connection = k
      · subst hk
        exact ⟨_, rfl, by simpa using .arrived rfl⟩
      · exact ⟨s, by simp [hk],
          change_of_spared (by simp) (by simpa using fun h => absurd h.symm hk) (.refl s)⟩
    · intro s
      split <;> rfl
  | gate k fault room =>
    rw [step, modifyOutlet, session?, find?_map_session, ← session?, hs]
    · refine ⟨_, rfl, change_of_spared (by simp) (by simp) ?_⟩
      beta_reduce
      split
      · exact s.spared_update _ s.negotiation s.loggers s.owned
      · exact .refl s
    · intro s
      split <;> rfl
  | cancel k =>
    rw [step, cancel]
    split
    · exact ⟨s, hs, change_of_spared (by simp) (by simp) (.refl s)⟩
    · next t _ =>
      exact hspared (c := { c with tasks := _ }) hs t.spared_abandon (by simp) (by simp)
  | release j =>
    exact hspared hs (fun s => s.spared_update s.outlet s.negotiation s.loggers false)
      (by simp) (by simp)
  | addLogger j name | removeLogger j name =>
    exact hspared hs (fun s => s.spared_update s.outlet s.negotiation _ s.owned)
      (by simp) (by simp)
  | addListener j name =>
    exact change_modifySession hs (fun s => s.kept_addListener name) (by simp) (by simp)
      fun hj => .joined (by rw [hj]) rfl
  | removeListener j name =>
    exact change_modifySession hs (fun s => s.kept_removeListener name) (by simp) (by simp)
      fun hj => .left (by rw [hj]) rfl
  | handshake k =>
    refine hsame (by simp) (by simp) ?_
    rw [step]
    cases c.handshakes.find? fun h => h.connection = k with
    | none => rfl
    | some h =>
      rw [Option.bind_some, actHandshake]
      split
      · rfl
      · rfl
      · rfl
      · rw [Option.getD_some, session?, List.find?_append, ← session?, hs]
        rfl
  | receiver j =>
    by_cases hj : n = j
    · subst hj
      exact change_receiver hs
    · have hne : Move.receiver j ≠ .receiver s.id := by
        rw [id_of_session? hs]
        simpa using Ne.symm hj
      exact hsame hne (by simp) (session?_receiver_of_ne hj)
  | task k =>
    obtain ⟨-, hstep⟩ | ⟨t, s₁, p, g, -, hs₁, hact, -, -, -, hsession, -⟩ := c.step_task k
    · exact hsame (by simp) (by simp) (by rw [hstep])
    · by_cases hn : n = t.session
      · subst hn
        cases hs₁.symm.trans hs
        refine ⟨g.session, by rw [hsession, if_pos rfl], change_of_spared (by simp) (by simp) ?_⟩
        exact Task.spared_act hact
      · exact hsame (by simp) (by simp) (by rw [hsession, if_neg hn])

/-- A session that was not there before a move is still not there after it, or is a `Session.new`. -/
theorem session?_step_of_none (hn : c.session? n = none) (m : Move) :
    (c.step m).session? n = none ∨ ∃ connection init config inbound outlet,
      (c.step m).session? n = some (.new n connection c.now init config inbound outlet) := by
  have hmodified : ∀ {j : Nat} {f : Session → Session}, (∀ s, (f s).id = s.id) →
      (c.modifySession j f).session? n = none := by
    intro j f hf
    rw [session?_modifySession hf, hn]
    split <;> rfl
  have hopened : ∀ {l : List Session} (s : Session), l = c.sessions ++ [s] →
      l.find? (fun s => s.id = n) = none ∨ s.id = n ∧ l.find? (fun s => s.id = n) = some s := by
    rintro l s rfl
    rw [List.find?_append, ← session?, hn, Option.none_or]
    by_cases hid : s.id = n
    · exact .inr ⟨hid, by simp [hid]⟩
    · exact .inl (by simp [hid])
  cases m with
  | accept config | start session job | pass millis => exact .inl hn
  | attach config =>
    obtain h | ⟨rfl, h⟩ := hopened
      (.new c.nextSession c.nextConnection c.now none config {} {}) rfl
    · exact .inl h
    · exact .inr ⟨_, _, _, _, _, h⟩
  | arrive k what | gate k fault room =>
    left
    rw [step, session?]
    refine (find?_map_session (fun s => ?_) n c.sessions).trans ?_
    · split <;> rfl
    · rw [← session?, hn]
      rfl
  | cancel k =>
    left
    rw [step, cancel]
    split
    · exact hn
    · next t _ =>
      rw [session?_modifySession (fun s => (t.spared_abandon s).id_eq)]
      split
      · exact congrArg (Option.map t.abandon) hn
      · exact hn
  | release _ | addLogger _ _ | removeLogger _ _ | addListener _ _ | removeListener _ _ =>
    exact .inl (hmodified fun s => rfl)
  | handshake k =>
    rw [step]
    cases c.handshakes.find? fun h => h.connection = k with
    | none => exact .inl hn
    | some h =>
      rw [Option.bind_some, actHandshake]
      split
      · exact .inl hn
      · exact .inl hn
      · exact .inl hn
      · next init h' _ =>
        obtain h | ⟨rfl, h⟩ := hopened
          (.new c.nextSession h.connection c.now (some init) h.config h'.inbound h'.outlet) rfl
        · exact .inl h
        · exact .inr ⟨_, _, _, _, _, h⟩
  | receiver j =>
    left
    by_cases hj : n = j
    · subst hj
      rw [step, hn]
      exact hn
    · rw [session?_receiver_of_ne hj, hn]
  | task k =>
    left
    obtain ⟨-, hstep⟩ | ⟨t, s, p, g, -, hs, -, -, -, -, hsession, -⟩ := c.step_task k
    · rw [hstep, hn]
    · have hne : n ≠ t.session := by
        rintro rfl
        cases hs.symm.trans hn
      rw [hsession, if_neg hne, hn]

/-! ## Handshakes -/

/-- The handshake on a connection. -/
def handshake? (k : Nat) (c : Client) : Option Handshake :=
  c.handshakes.find? fun h => h.connection = k

variable {k : Nat} {h h' : Handshake}

/-- A handshake that `handshake?` finds is on the connection it was looked for by. -/
theorem connection_of_handshake? (hk : c.handshake? k = some h) : h.connection = k := by
  simpa using List.find?_some hk

/-- Handshakes that are changed in place are found where they were. -/
theorem find?_map_handshake {f : Handshake → Handshake} (hf : ∀ h, (f h).connection = h.connection)
    (k : Nat) (l : List Handshake) :
    (l.map f).find? (fun h => h.connection = k) = (l.find? fun h => h.connection = k).map f := by
  rw [List.find?_map]
  congr 2
  funext h
  simp [hf]

/-- A handshake that is taken out is not found any more, and all others are. -/
theorem find?_filter_handshake (k j : Nat) (l : List Handshake) :
    (l.filter fun h => h.connection ≠ j).find? (fun h => h.connection = k) =
      if k = j then none else l.find? fun h => h.connection = k := by
  rw [List.find?_filter]
  split
  · next hj =>
    rw [List.find?_eq_none]
    simp [hj]
  · next hj =>
    congr 1
    funext h
    by_cases hk : h.connection = k
    · simp [hk, hj]
    · simp [hk]

/-- Without a handshake on a connection, a move of it does nothing. -/
theorem step_handshake_of_none (hk : c.handshake? k = none) : c.step (.handshake k) = c := by
  rw [step, ← handshake?, hk]
  rfl

/-- A handshake that cannot act does nothing. -/
theorem step_handshake_of_stalled (hk : c.handshake? k = some h) (hact : h.act c.now = none) :
    c.step (.handshake k) = c := by
  rw [step, ← handshake?, hk, Option.bind_some, actHandshake, hact]
  rfl

/-- A handshake that goes on is replaced by what it has become. -/
theorem step_handshake_of_ongoing {h'' : Handshake} (hk : c.handshake? k = some h)
    (hact : h.act c.now = some (.ongoing h', h'')) : c.step (.handshake k) =
      { c with handshakes := c.handshakes.map fun d => if d.connection = k then h' else d } := by
  rw [step, ← handshake?, hk, Option.bind_some, actHandshake, hact, connection_of_handshake? hk]
  rfl

/-- A handshake that succeeds opens a session with the next number, and the connection is `greeted`
with it. -/
theorem step_handshake_of_ok {init : Init} (hk : c.handshake? k = some h)
    (hact : h.act c.now = some (.finished (.ok init), h')) : c.step (.handshake k) =
      { c with
        handshakes := c.handshakes.filter fun d => d.connection ≠ k
        nextSession := c.nextSession + 1
        sessions := c.sessions ++
          [.new c.nextSession k c.now (some init) h.config h'.inbound h'.outlet]
        greeted := c.greeted ++ [(k, .ok c.nextSession)] } := by
  rw [step, ← handshake?, hk, Option.bind_some, actHandshake, hact, connection_of_handshake? hk]
  rfl

/-- A handshake that fails opens no session, and the connection is `greeted` with the error. -/
theorem step_handshake_of_error {e : Error} (hk : c.handshake? k = some h)
    (hact : h.act c.now = some (.finished (.error e), h')) : c.step (.handshake k) =
      { c with
        handshakes := c.handshakes.filter fun d => d.connection ≠ k
        greeted := c.greeted ++ [(k, .error e)] } := by
  rw [step, ← handshake?, hk, Option.bind_some, actHandshake, hact, connection_of_handshake? hk]
  rfl

/-- The handshake of another connection leaves `handshake?` and what was `greeted` alone. -/
theorem handshake?_step_of_ne {j : Nat} (hj : j ≠ k) :
    (c.step (.handshake j)).handshake? k = c.handshake? k ∧
      (c.step (.handshake j)).greeted.filter (fun e => e.1 = k) =
        c.greeted.filter fun e => e.1 = k := by
  have hfiltered : (c.handshakes.filter fun d => d.connection ≠ j).find? (fun h => h.connection = k) =
      c.handshake? k := by
    rw [find?_filter_handshake, if_neg (Ne.symm hj), handshake?]
  have hgreeted : ∀ result : Except Error Nat,
      (c.greeted ++ [(j, result)]).filter (fun e => decide (e.1 = k)) =
        c.greeted.filter fun e => e.1 = k := by
    intro result
    rw [List.filter_append, List.filter_cons_of_neg (by simpa using hj)]
    exact List.append_nil _
  cases hh : c.handshake? j with
  | none => rw [step_handshake_of_none hh]; exact ⟨rfl, rfl⟩
  | some h =>
    cases hact : h.act c.now with
    | none => rw [step_handshake_of_stalled hh hact]; exact ⟨rfl, rfl⟩
    | some acted =>
      obtain ⟨progress, h''⟩ := acted
      cases progress with
      | ongoing h' =>
        have hconnection : h'.connection = j :=
          (connection_act hact).trans (connection_of_handshake? hh)
        rw [step_handshake_of_ongoing hh hact]
        refine ⟨(find?_map_handshake (fun d => ?_) k c.handshakes).trans ?_, rfl⟩
        · split
          · next hd => rw [hconnection, hd]
          · rfl
        · rw [← handshake?]
          cases hd : c.handshake? k with
          | none => rfl
          | some d =>
            rw [Option.map_some, if_neg (by rw [connection_of_handshake? hd]; exact Ne.symm hj)]
      | finished result =>
        cases result with
        | error e => rw [step_handshake_of_error hh hact]; exact ⟨hfiltered, hgreeted _⟩
        | ok init => rw [step_handshake_of_ok hh hact]; exact ⟨hfiltered, hgreeted _⟩

/-- What becomes of a handshake, if it is there, with a move that is not its own: octets arrive on its
connection, or at most its outlet changes. -/
inductive HandshakeChange (k : Nat) (m : Move) (h : Option Handshake) : Option Handshake → Prop
  | arrived (what : Arrival) : m = .arrive k what →
      HandshakeChange k m h (h.map fun h => { h with inbound := h.inbound.receive what })
  | aside (f : Outlet → Outlet) : (∀ what, m ≠ .arrive k what) →
      HandshakeChange k m h (h.map fun h => { h with outlet := f h.outlet })

theorem HandshakeChange.refl {m : Move} {h : Option Handshake} (hm : ∀ what, m ≠ .arrive k what) :
    HandshakeChange k m h h := by
  have haside : HandshakeChange k m h (h.map fun h => { h with outlet := id h.outlet }) :=
    .aside id hm
  rwa [show (h.map fun h => { h with outlet := id h.outlet }) = h from Option.map_id'] at haside

/-- No receiver and no task has to do with handshakes. -/
theorem handshakes_step_of_acting {m : Move} (hm : (∃ j, m = .receiver j) ∨ ∃ j, m = .task j) :
    (c.step m).handshakes = c.handshakes ∧ (c.step m).greeted = c.greeted := by
  obtain ⟨j, rfl⟩ | ⟨j, rfl⟩ := hm
  · rw [step]
    cases c.session? j with
    | none => exact ⟨rfl, rfl⟩
    | some s =>
      rw [Option.bind_some, actSession]
      split
      · exact ⟨rfl, rfl⟩
      · cases s.receiverStep c.now <;> exact ⟨rfl, rfl⟩
  · rw [step]
    cases c.task? j with
    | none => exact ⟨rfl, rfl⟩
    | some t =>
      rw [Option.bind_some, actTask]
      cases c.session? t.session with
      | none => exact ⟨rfl, rfl⟩
      | some s =>
        simp only
        cases t.act c.now ⟨c.nextTransaction, s⟩ with
        | none => exact ⟨rfl, rfl⟩
        | some acted =>
          obtain ⟨progress, g⟩ := acted
          cases progress <;> exact ⟨rfl, rfl⟩

/-- Only its own handshake adds to what was `greeted` for a connection. -/
theorem greeted_step {m : Move} (hm : m ≠ .handshake k) :
    (c.step m).greeted.filter (fun e => e.1 = k) = c.greeted.filter fun e => e.1 = k := by
  cases m with
  | handshake j => exact (handshake?_step_of_ne fun hj => hm (by rw [hj])).2
  | receiver j => rw [(handshakes_step_of_acting (.inl ⟨j, rfl⟩)).2]
  | task j => rw [(handshakes_step_of_acting (.inr ⟨j, rfl⟩)).2]
  | cancel j =>
    rw [step, cancel]
    split <;> rfl
  | _ => rfl

/-- Every move but its own does one of `HandshakeChange` to a handshake. -/
theorem handshake?_step {m : Move} (hlt : k < c.nextConnection) (hm : m ≠ .handshake k) :
    HandshakeChange k m (c.handshake? k) ((c.step m).handshake? k) := by
  have hsame : (c.step m).handshakes = c.handshakes → (∀ what, m ≠ .arrive k what) →
      HandshakeChange k m (c.handshake? k) ((c.step m).handshake? k) := by
    intro heq harrive
    rw [handshake?, handshake?, heq]
    exact .refl harrive
  cases m with
  | accept config =>
    have hfound : (c.step (.accept config)).handshake? k = c.handshake? k := by
      rw [step, accept, handshake?, List.find?_append, ← handshake?,
        List.find?_cons_of_neg (by simpa using Nat.ne_of_gt hlt)]
      exact Option.or_none
    rw [hfound]
    exact .refl (by simp)
  | arrive j what =>
    have hstep : (c.step (.arrive j what)).handshake? k = (c.handshake? k).map fun h =>
        if h.connection = j then { h with inbound := h.inbound.receive what } else h :=
      find?_map_handshake (fun h => by split <;> rfl) k c.handshakes
    rw [hstep]
    cases hh : c.handshake? k with
    | none =>
      by_cases hj : j = k
      · exact .arrived what (by rw [hj])
      · exact .refl (by simpa using fun h => absurd h hj)
    | some h =>
      have hconnection := connection_of_handshake? hh
      rw [Option.map_some]
      split
      · next hj => exact .arrived (h := some h) what (by rw [← hj, hconnection])
      · next hj => exact .refl (by simpa using fun h => absurd (hconnection.trans h.symm) hj)
  | gate j fault room =>
    have hstep : (c.step (.gate j fault room)).handshake? k = (c.handshake? k).map fun h =>
        if h.connection = j then { h with outlet := { h.outlet with fault, room } } else h :=
      find?_map_handshake (fun h => by split <;> rfl) k c.handshakes
    rw [hstep]
    cases hh : c.handshake? k with
    | none => exact .refl (by simp)
    | some h =>
      rw [Option.map_some]
      split
      · exact .aside (h := some h) (fun o => { o with fault, room }) (by simp)
      · exact .refl (by simp)
  | handshake j =>
    rw [(handshake?_step_of_ne fun hj => hm (by rw [hj])).1]
    exact .refl (by simp)
  | cancel j =>
    refine hsame ?_ (by simp)
    rw [step, cancel]
    split <;> rfl
  | receiver j => exact hsame (handshakes_step_of_acting (.inl ⟨j, rfl⟩)).1 (by simp)
  | task j => exact hsame (handshakes_step_of_acting (.inr ⟨j, rfl⟩)).1 (by simp)
  | attach _ | start _ _ | release _ | addLogger _ _ | removeLogger _ _ | addListener _ _
  | removeListener _ _ | pass _ => exact hsame rfl (by simp)

end Client

end Dbgp
