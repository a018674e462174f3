import Dbgp.Proofs.BridgeMoves
import Dbgp.Proofs.Outcome
import Dbgp.Proofs.Unwinding

/-!
# Packets that wait to be taken

If no task takes packets of a session, its mailboxes hold what has arrived and only grow.
`Session.Stocked` relates a session to what becomes of it, by the payloads that its receiver takes in
between: they are put into the mailboxes, and there are none once the receiver has begun to end the
session. `Client.restocked` and `Bridge.restocked` give this for every move but the forwarder's own,
for sessions that nobody else receives from (`Client.Untapped`).
-/

namespace Dbgp

/-- The jobs that take packets: `nextNotify` and `nextOutput`. -/
def Job.Takes : Job → Prop
  | .nextNotify _ | .nextOutput _ => True
  | _ => False

/-! ## One session -/

namespace Session

variable {s s' : Session} {now : Nat}

/-- What becomes of a session from which nobody takes packets, while its receiver takes these
`payloads`. -/
structure Stocked (payloads : List String) (s s' : Session) : Prop where
  notifies : s'.notifies.items = s.notifies.items ++ payloads.filterMap Packet.notify?
  outputs : s'.outputs.items = s.outputs.items ++ payloads.filterMap Packet.output?
  rank_le : s.receiver.rank ≤ s'.receiver.rank
  ceased : 1 ≤ s.receiver.rank → payloads = []
  notifies_closed : s'.notifies.closed = true → s.notifies.closed = true ∨ 1 ≤ s'.receiver.rank
  outputs_closed : s'.outputs.closed = true → s.outputs.closed = true ∨ 1 ≤ s'.receiver.rank

/-- Mailboxes are closed on the way to the end only. -/
structure Shut (s : Session) : Prop where
  notifies : s.notifies.closed = true → 1 ≤ s.receiver.rank
  outputs : s.outputs.closed = true → 1 ≤ s.receiver.rank

/-- A session stays `Shut` while it is `Stocked`. -/
theorem Shut.stocked {payloads : List String} (h : s.Shut) (hstocked : s.Stocked payloads s') :
    s'.Shut := by
  refine ⟨fun hclosed => ?_, fun hclosed => ?_⟩
  · obtain hclosed | hrank := hstocked.notifies_closed hclosed
    · exact Nat.le_trans (h.notifies hclosed) hstocked.rank_le
    · exact hrank
  · obtain hclosed | hrank := hstocked.outputs_closed hclosed
    · exact Nat.le_trans (h.outputs hclosed) hstocked.rank_le
    · exact hrank

/-- Nothing happens to the mailboxes, but for who is in line, and the receiver goes no way back. -/
theorem stocked_nil (hnotifies : s'.notifies.items = s.notifies.items)
    (houtputs : s'.outputs.items = s.outputs.items)
    (hrank : s.receiver.rank ≤ s'.receiver.rank)
    (hclosed : s'.notifies.closed = s.notifies.closed ∧ s'.outputs.closed = s.outputs.closed ∨
      1 ≤ s'.receiver.rank) : s.Stocked [] s' := by
  refine ⟨?_, ?_, hrank, fun _ => rfl, fun h => ?_, fun h => ?_⟩
  · rw [hnotifies]
    exact (List.append_nil _).symm
  · rw [houtputs]
    exact (List.append_nil _).symm
  · exact hclosed.imp_left fun hsame => hsame.1.symm.trans h
  · exact hclosed.imp_left fun hsame => hsame.2.symm.trans h

/-- A session that nothing happens to is `Stocked` with nothing. -/
theorem Stocked.refl (s : Session) : s.Stocked [] s :=
  stocked_nil rfl rfl (Nat.le_refl _) (.inl ⟨rfl, rfl⟩)

/-- What happens beside a session (`Session.Beside`) puts nothing into a mailbox. -/
theorem stocked_of_beside (h : s.Beside s') : s.Stocked [] s' := by
  cases h
  exact stocked_nil rfl rfl (Nat.le_refl _) (.inl ⟨rfl, rfl⟩)

/-- Neither does what exchanges do (`Session.Exchanged`). -/
theorem stocked_of_exchanged (h : s.Exchanged s') : s.Stocked [] s' := by
  cases h
  exact stocked_nil rfl rfl (Nat.le_refl _) (.inl ⟨rfl, rfl⟩)

/-- `Session.endStep` goes on and puts nothing into a mailbox. -/
theorem stocked_endStep {stage : EndStage} {failure : Option Error}
    (hreceiver : s.receiver = .ending stage failure) : s.Stocked [] (s.endStep stage failure) := by
  have hrank : ∀ {s' : Session}, s'.notifies.items = s.notifies.items →
      s'.outputs.items = s.outputs.items → stage.rank ≤ s'.receiver.rank → s.Stocked [] s' := by
    intro s' hnotifies houtputs hle
    have hpos : 1 ≤ stage.rank := by cases stage <;> simp [EndStage.rank]
    refine stocked_nil hnotifies houtputs ?_ (.inr (Nat.le_trans hpos hle))
    rw [hreceiver]
    exact hle
  cases stage with
  | takeListeners =>
    rw [endStep]
    split
    · exact hrank rfl rfl (by simp [Receiver.rank, EndStage.rank])
    · exact hrank rfl rfl (by simp [Receiver.rank, EndStage.rank])
  | call left =>
    cases left with
    | nil => exact hrank rfl rfl (by simp [endStep, Receiver.rank, EndStage.rank])
    | cons listener left => exact hrank rfl rfl (by simp [endStep, note, Receiver.rank, EndStage.rank])
  | begin | closeSlots | ring | closeNotifies | closeOutputs =>
    exact hrank rfl rfl (by simp [endStep, Receiver.rank, EndStage.rank])

/-- `Session.dispatch` closes no mailbox. -/
theorem closed_dispatch (s : Session) (payload : String) :
    (s.dispatch payload).notifies.closed = s.notifies.closed ∧
      (s.dispatch payload).outputs.closed = s.outputs.closed := by
  rw [dispatch]
  split
  · next packet _ =>
    cases packet with
    | response r =>
      rw [route]
      split <;> exact ⟨rfl, rfl⟩
    | notify _ | output _ => exact ⟨rfl, rfl⟩
  · exact ⟨rfl, rfl⟩

/-- What the receiver takes (`taking?`) is put into the mailboxes. -/
theorem stocked_receive (h : s.receiverStep now = some s') :
    s.Stocked (s.taking? now).toList s' := by
  have hnone : s.taking? now = none → s.Stocked [] s' → s.Stocked (s.taking? now).toList s' := by
    intro htaking hstocked
    rwa [htaking]
  have hreading : ∀ {r s'}, s.receiver = .reading r → s'.notifies = s.notifies →
      s'.outputs = s.outputs → s.Stocked [] s' := by
    intro r s' hreceiver hnotifies houtputs
    refine stocked_nil (by rw [hnotifies]) (by rw [houtputs]) ?_ (.inl ⟨by rw [hnotifies], by rw [houtputs]⟩)
    rw [hreceiver]
    exact Nat.zero_le _
  cases receives h with
  | wound hreceiver => exact hnone (by rw [taking?, hreceiver]) (stocked_endStep hreceiver)
  | rang hreceiver =>
    refine hnone (by rw [taking?, hreceiver]) (stocked_nil rfl rfl ?_ (.inl ⟨rfl, rfl⟩))
    rw [hreceiver]
    exact Nat.zero_le _
  | stopped hreceiver hstop =>
    exact hnone (by simp [taking?, hreceiver, hstop]) (hreading hreceiver rfl rfl)
  | waited hreceiver hstop hpoll | closed hreceiver hstop hpoll | failed hreceiver hstop hpoll =>
    exact hnone (by simp [taking?, hreceiver, hpoll]) (hreading hreceiver rfl rfl)
  | @took r payload inbound hreceiver hstop hpoll =>
    have htaking : s.taking? now = some payload := by simp [taking?, hreceiver, hstop, hpoll]
    have hrank : s.receiver.rank = 0 := by
      rw [hreceiver]
      rfl
    obtain ⟨-, hnotifies, houtputs⟩ :=
      dispatch_adds { s with receiver := .reading (.start now), inbound } payload
    obtain ⟨hnotified, hprinted⟩ :=
      closed_dispatch { s with receiver := .reading (.start now), inbound } payload
    rw [htaking]
    refine ⟨?_, ?_, by omega, by omega, fun h => .inl (hnotified ▸ h), fun h => .inl (hprinted ▸ h)⟩
    · rw [hnotifies]
      cases hkind : Packet.notify? payload <;> simp [hkind]
    · rw [houtputs]
      cases hkind : Packet.output? payload <;> simp [hkind]

end Session

/-! ## Tasks -/

namespace Task

variable {now : Nat} {t : Task} {g g' : Ground} {p : Progress Phase Reply}

/-- A task whose job is none of `Job.Takes` leaves the mailboxes alone. -/
theorem stocked_act (h : t.act now g = some (p, g')) (hjob : ¬t.job.Takes) :
    g.session.Stocked [] g'.session := by
  cases acted h with
  | command _ hc =>
    cases hc with
    | negotiating _ hx | exchanging _ hx | concluded _ hx =>
      exact Session.stocked_of_exchanged (Exchange.acted hx).exchanged
    | settled _ hx =>
      have hstocked := Session.stocked_of_exchanged (Exchange.acted hx).exchanged
      exact { hstocked with }
    | queued | ready | passed | skipped | opened | prepared =>
      exact Session.stocked_nil rfl rfl (Nat.le_refl _) (.inl ⟨rfl, rfl⟩)
  | mailed htakes =>
    obtain ⟨limit, htakes | htakes⟩ := htakes
    · exact absurd (by rw [htakes]; trivial) hjob
    · exact absurd (by rw [htakes]; trivial) hjob
  | ending _ _ hr | ended _ _ hr => exact Session.stocked_of_exchanged (EndRequest.acted hr).exchanged
  | expected | unexpected | forgot | awaiting | waited | answered | terminating | sawEnd =>
    exact Session.stocked_nil rfl rfl (Nat.le_refl _) (.inl ⟨rfl, rfl⟩)

/-- A task that is given up takes no packet. -/
theorem stocked_abandon (t : Task) (s : Session) : s.Stocked [] (t.abandon s) := by
  rw [abandon]
  split
  · exact Session.stocked_nil rfl rfl (Nat.le_refl _) (.inl ⟨rfl, rfl⟩)
  · next x _ =>
    have hstocked := Session.stocked_of_exchanged (x.exchanged_abandon t.id s)
    exact { hstocked with }
  · next x _ => exact Session.stocked_of_exchanged (x.exchanged_abandon t.id s)
  all_goals exact Session.stocked_nil rfl rfl (Nat.le_refl _) (.inl ⟨rfl, rfl⟩)

end Task

/-! ## Moves -/

namespace Client

variable {c c' : Client} {m : Move} {n : Nat} {s : Session}

/-- No task takes packets of a session: none has a job of `Job.Takes`. -/
def Untapped (n : Nat) (c : Client) : Prop :=
  ∀ k t, c.task? k = some t → t.session = n → ¬t.job.Takes

/-- A session stays `Untapped` unless a task is started that takes its packets. -/
theorem Untapped.outcome (h : c.Untapped n) (houtcome : Outcome c m c')
    (hstart : ∀ job, m = .start n job → ¬job.Takes) : c'.Untapped n := by
  intro k t ht hn
  cases houtcome with
  | aside htask =>
    obtain hsame | ⟨-, session, job, rfl, hstarted⟩ := htask k
    · exact h k t (hsame ▸ ht) hn
    · cases hstarted.symm.trans ht
      subst hn
      exact hstart job rfl
  | received _ _ _ htask | forwarded _ _ htask => exact h k t (htask k ▸ ht) hn
  | @acted j t₀ _ _ _ _ hj _ _ htask =>
    rw [htask] at ht
    split at ht
    · obtain ⟨phase, -, rfl⟩ := Option.map_eq_some_iff.mp ht
      exact h j t₀ hj hn
    · exact h k t ht hn
  | abandoned _ _ htask =>
    rw [htask] at ht
    split at ht
    · cases ht
    · exact h k t ht hn

/-- What becomes of the session with a number, by the payloads that its receiver takes. A session that
was not there is new. -/
inductive Restocked (n : Nat) (payloads : List String) (c c' : Client) : Prop
  | absent : c.session? n = none → payloads = [] → (∀ s, c'.session? n = some s →
      s.notifies.items = [] ∧ s.outputs.items = [] ∧ s.Shut) → Restocked n payloads c c'
  | present {s s' : Session} : c.session? n = some s → c'.session? n = some s' →
      s.Stocked payloads s' → Restocked n payloads c c'

/-- A session that is the same is `Restocked` with nothing. -/
theorem restocked_of_eq (h : c'.session? n = c.session? n) : Restocked n [] c c' := by
  cases hs : c.session? n with
  | none =>
    refine .absent hs rfl fun s hs' => ?_
    rw [h, hs] at hs'
    cases hs'
  | some s => exact .present hs (h.trans hs) (.refl s)

/-- Only the session itself matters. -/
theorem Restocked.of_eq {payloads : List String} {c₀ : Client} (h : Restocked n payloads c c')
    (hc : c₀.session? n = c.session? n) : Restocked n payloads c₀ c' := by
  cases h with
  | absent hs hnone hnew => exact .absent (hc.trans hs) hnone hnew
  | present hs hs' hstocked => exact .present (hc.trans hs) hs' hstocked

/-- Where a session is `Passed`, it is `Restocked` with nothing. -/
theorem restocked_of_beside (h : Passed c n (c.session? n) (c'.session? n)) :
    Restocked n [] c c' := by
  generalize hd : c.session? n = d at h
  generalize hd' : c'.session? n = d' at h
  cases h with
  | absent => exact restocked_of_eq (hd'.trans hd.symm)
  | beside hbeside => exact .present hd hd' (Session.stocked_of_beside hbeside)
  | opened =>
    refine .absent hd rfl fun s hs => ?_
    cases hd'.symm.trans hs
    exact ⟨rfl, rfl, fun h => (nomatch h), fun h => (nomatch h)⟩

/-- The receiver of a session puts into the mailboxes what it takes. -/
theorem restocked_receiver (n : Nat) (c : Client) :
    Restocked n ((c.takings n (.receiver n)).map (·.1)) c (c.step (.receiver n)) := by
  cases hs : c.session? n with
  | none =>
    rw [takings_of_none hs]
    refine restocked_of_eq ?_
    rw [step, hs]
    exact hs
  | some s =>
    obtain ⟨s', hs', hchange⟩ := change hs (.receiver n)
    cases hchange with
    | received _ hdeserted hstep =>
      rw [takings_receiver hs hdeserted]
      refine .present hs hs' ?_
      have hstocked := Session.stocked_receive hstep
      cases htaking : s.taking? c.now with
      | none =>
        rw [htaking] at hstocked
        exact hstocked
      | some payload =>
        rw [htaking] at hstocked
        exact hstocked
    | stalled _ hdeserted hstep =>
      rw [takings_receiver hs hdeserted, Session.taking?_eq_none hstep]
      exact .present hs hs' (.refl s)
    | deserted _ hdeserted =>
      have hnone : c.takings n (.receiver n) = [] := by
        rw [takings, hs]
        simp [hdeserted]
      rw [hnone]
      exact .present hs hs' (Session.stocked_nil rfl rfl (Nat.le_refl _) (.inl ⟨rfl, rfl⟩))
    | arrived hm => cases hm
    | aside hm => exact absurd (by rw [id_of_session? hs]) hm

/-- Every move puts into the mailboxes of a session what its receiver takes (`takings`), if the
session is `Untapped`. -/
theorem restocked (huntapped : c.Untapped n) (m : Move) :
    Restocked n ((c.takings n m).map (·.1)) c (c.step m) := by
  by_cases hm : m = .receiver n
  · subst hm
    exact restocked_receiver n c
  · rw [takings_eq_nil hm, List.map_nil]
    cases c.outcome m with
    | aside _ hsession => exact restocked_of_beside (hsession n)
    | @received j s s' hm' hj hstep _ hsession =>
      refine restocked_of_eq ?_
      rw [hsession, if_neg]
      rintro rfl
      exact hm hm'
    | @acted k t s p g _ hk hj hact _ hsession =>
      by_cases hn : n = t.session
      · subst hn
        exact .present hj (by rw [hsession, if_pos rfl]) (Task.stocked_act hact (huntapped k t hk rfl))
      · exact restocked_of_eq (by rw [hsession, if_neg hn])
    | @abandoned k t _ hk _ hsession =>
      by_cases hn : n = t.session
      · cases hs : c.session? n with
        | none =>
          refine restocked_of_eq ?_
          rw [hsession, if_pos hn, hs, Option.map_none]
        | some s =>
          exact .present hs (by rw [hsession, if_pos hn, hs, Option.map_some]) (t.stocked_abandon s)
      · exact restocked_of_eq (by rw [hsession, if_neg hn])
    | forwarded hm' =>
      subst hm'
      exact restocked_of_eq rfl

/-- `modifySession` puts nothing into a mailbox if it leaves sessions `Session.Beside`. -/
theorem restocked_modifySession {f : Session → Session} (hf : ∀ s : Session, s.Beside (f s)) (j : Nat) :
    Restocked n [] c (c.modifySession j f) := by
  have hsession := session?_modifySession (fun s => (hf s).id_eq) c j n
  by_cases hn : n = j
  · rw [if_pos hn] at hsession
    cases hs : c.session? n with
    | none => exact restocked_of_eq (by rw [hsession, hs, Option.map_none])
    | some s =>
      exact .present hs (by rw [hsession, hs, Option.map_some]) (Session.stocked_of_beside (hf s))
  · exact restocked_of_eq (by rw [hsession, if_neg hn])

end Client

namespace Bridge

open Client (Restocked Untapped)

variable {b : Bridge} {n : Nat}

/-- The payloads that the receiver of a session takes with a move. -/
def payloads (n : Nat) (b : Bridge) : Move → List String
  | .client m => (b.client.takings n m).map (·.1)
  | _ => []

/-- `Bridge.register` puts nothing into a mailbox. -/
theorem restocked_register (session : Nat) : Restocked n [] b.client (b.register session).client :=
  Client.restocked_modifySession (Session.beside_addListener listenerName) session

/-- The same for bridges, apart from what the forwarder of the session itself does. -/
theorem restocked (huntapped : b.client.Untapped n) (m : Move) (hm : ∀ f, m = .forward f → f.session ≠ n) :
    Restocked n (b.payloads n m) b.client (b.step m).client := by
  cases m with
  | client m => exact Client.restocked huntapped m
  | register session => exact restocked_register session
  | call c =>
    obtain ⟨registry, outcome, hcall, -⟩ | ⟨action, j, job, shown, -, -, hcall⟩ := b.called c
    · rw [step, hcall]
      exact Client.restocked_of_eq rfl
    · rw [step, hcall]
      exact Client.restocked_of_eq rfl
  | greet =>
    obtain hgreet | ⟨k, e, rest, -, hgreet⟩ | ⟨k, j, rest, -, hgreet⟩ := b.greeted
    · rw [hgreet]
      exact Client.restocked_of_eq rfl
    · rw [hgreet]
      exact Client.restocked_of_eq rfl
    · rw [hgreet]
      exact (restocked_register j).of_eq rfl
  | answer =>
    obtain hanswer | ⟨k, result, rest, -, hanswer | ⟨p, -, -, hanswer⟩⟩ := b.answered
    · rw [hanswer]
      exact Client.restocked_of_eq rfl
    · rw [hanswer]
      exact Client.restocked_of_eq rfl
    · rw [hanswer]
      exact Client.restocked_of_eq rfl
  | forward f =>
    obtain hforward | ⟨s, step, g, -, hs, haction, hforward⟩ := b.forwarded f
    · rw [hforward]
      exact Client.restocked_of_eq rfl
    · rw [hforward]
      refine Client.restocked_of_eq ?_
      have hid : g.session.id = f.session := haction.id_eq.trans (Client.id_of_session? hs)
      exact (Client.session?_putSession hs g.session hid n).trans (if_neg (hm f rfl).symm)

/-- A session stays `Untapped` in a bridge: forwarders are no tasks. -/
theorem untapped_step (huntapped : b.client.Untapped n) (m : Move)
    (hm : ∀ job, m = .client (.start n job) → ¬job.Takes) : (b.step m).client.Untapped n := by
  have hsame : (b.step m).client.tasks = b.client.tasks → (b.step m).client.Untapped n := by
    intro htasks k t ht
    rw [Client.task?, htasks] at ht
    exact huntapped k t ht
  cases m with
  | client m => exact huntapped.outcome (b.client.outcome m) fun job hjob => hm job (by rw [hjob])
  | register session => exact hsame rfl
  | call c =>
    obtain ⟨registry, outcome, hcall, -⟩ | ⟨action, j, job, shown, -, hbegin, hcall⟩ := b.called c
    · exact hsame (by rw [step, hcall])
    · rw [step, hcall]
      refine huntapped.outcome (Client.outcome_start j job) fun job' hjob htakes => ?_
      cases hjob
      have hcalled := isCalled_of_begin hbegin
      cases job with
      | command _ | terminate => exact htakes.elim
      | _ => exact hcalled.elim
  | greet =>
    obtain hgreet | ⟨k, e, rest, -, hgreet⟩ | ⟨k, j, rest, -, hgreet⟩ := b.greeted
    · exact hsame (by rw [hgreet])
    · exact hsame (by rw [hgreet])
    · exact hsame (by rw [hgreet]; rfl)
  | answer =>
    obtain hanswer | ⟨k, result, rest, -, hanswer | ⟨p, -, -, hanswer⟩⟩ := b.answered
    · exact hsame (by rw [hanswer])
    · exact hsame (by rw [hanswer])
    · exact hsame (by rw [hanswer])
  | forward f =>
    obtain hforward | ⟨s, step, g, -, -, -, hforward⟩ := b.forwarded f
    · exact hsame (by rw [hforward])
    · exact hsame (by rw [hforward]; rfl)

end Bridge

end Dbgp
