import Dbgp.Proofs.ClientRun
import Dbgp.Proofs.CommandRequest
import Mathlib.Tactic.ByContra

/-!
# How slots are used

An exchange has a slot from the action by which it expects its response until it is over. While it has
the slot it is the only one that touches it, the receiver apart: `Exchange.slotActed` says what each
action does to the slots, and `Task.callActed` ties the actions of a task to the exchange it is in.
-/

namespace Dbgp

/-- To forget a slot twice is to forget it once. -/
theorem Slots.forget_forget (s : Slots) (t : UInt32) : (s.forget t).forget t = s.forget t := by
  simp [forget, List.filter_filter]

/-! ## Exchanges -/

/-- Ending a session leaves its slots to the receiver: `EndRequest.Action` touches none. -/
theorem EndRequest.Action.slots_eq {task : Nat} {r : EndRequest} {s s' : Session}
    {p : Progress EndRequest Unit} (h : r.Action task s p s') : s'.slots = s.slots := by
  cases h <;> rfl

namespace Exchange

/-- Whether an exchange has a slot: once it is past `expect`, if it is to be answered. -/
def holds (x : Exchange) : Bool :=
  x.answered &&
    match x.phase with
    | .enter | .expect => false
    | _ => true

/-- An exchange expects a response only if it is to be answered, and its `Wait` is for its own
transaction. -/
structure Aimed (x : Exchange) : Prop where
  expect : x.phase = .expect → x.answered = true
  await : ∀ w, x.phase = .await w → x.answered = true ∧ w.transaction = x.request.transaction

/-- What `Exchange.act` does to the slots: nothing, making its own one, looking at it, or giving it
up. -/
inductive SlotAction (x : Exchange) (s : Slots) :
    Progress Exchange (Option Response) → Slots → Prop
  | passed {x' : Exchange} : x'.request = x.request → x'.Aimed → x'.holds = x.holds →
      SlotAction x s (.ongoing x') s
  | booked {x' : Exchange} : x'.request = x.request → x'.Aimed → x.holds = false →
      x'.holds = true → SlotAction x s (.ongoing x') (s.register x.request.transaction)
  | parked {x' : Exchange} : x'.request = x.request → x'.Aimed → x.holds = true →
      x'.holds = true → (∀ r, s.get? x.request.transaction ≠ some (some r)) →
      SlotAction x s (.ongoing x')
        ((s.forget x.request.transaction).register x.request.transaction)
  | left {result : Except Error (Option Response)} : x.holds = false →
      SlotAction x s (.finished result) s
  | released {result : Except Error (Option Response)} : x.holds = true →
      SlotAction x s (.finished result) (s.forget x.request.transaction)

/-- An exchange that is past expecting its response gives the slot up with its last action
(`Exchange.release`). -/
theorem slotAction_release {x : Exchange} {s : Session} {slots : Slots}
    {result : Except Error (Option Response)} (henter : x.phase ≠ .enter)
    (hexpect : x.phase ≠ .expect)
    (hslots : s.slots = slots ∨ x.answered = true ∧ s.slots = slots.forget x.request.transaction) :
    x.SlotAction slots (.finished result) (x.release s).slots := by
  have hholds : x.holds = x.answered := by
    rw [holds]
    split
    · contradiction
    · contradiction
    · exact Bool.and_true _
  rw [release]
  split
  · next hanswered =>
    have hforget : s.slots.forget x.request.transaction = slots.forget x.request.transaction := by
      rcases hslots with h | ⟨-, h⟩
      · rw [h]
      · rw [h, Slots.forget_forget]
    show x.SlotAction slots _ (s.slots.forget x.request.transaction)
    rw [hforget]
    exact .released (hholds.trans hanswered)
  · next hanswered =>
    rcases hslots with h | ⟨h, -⟩
    · rw [h]
      exact .left (by rw [hholds]; simpa using hanswered)
    · exact absurd h hanswered

/-- An exchange that neither expects nor awaits anything is `Aimed`. -/
theorem aimed_of_phase {x : Exchange} (hexpect : x.phase ≠ .expect)
    (hawait : ∀ w, x.phase ≠ .await w) : x.Aimed :=
  ⟨fun h => absurd h hexpect, fun w h => absurd h (hawait w)⟩

/-- An exchange that awaits the response to its own request is `Aimed`. -/
theorem aimed_of_await {x : Exchange} {w : Wait} (hphase : x.phase = .await w)
    (hanswered : x.answered = true) (hw : w.transaction = x.request.transaction) : x.Aimed := by
  refine ⟨fun _ => hanswered, fun w' h => ⟨hanswered, ?_⟩⟩
  rw [hphase] at h
  cases h
  exact hw

/-- A wait that goes on leaves the slot of its exchange alone, or forgets it and makes it again. -/
theorem slotAction_wait {now : Nat} {x : Exchange} {w w' : Wait} {s s' : Slots} (haimed : x.Aimed)
    (hphase : x.phase = .await w) (h : w.act now s = some (.ongoing w', s')) :
    x.SlotAction s (.ongoing { x with phase := .await w' }) s' := by
  obtain ⟨hanswered, hw⟩ := haimed.await w hphase
  have hholds : x.holds = true := by simp [holds, hanswered, hphase]
  have hholds' : Exchange.holds { x with phase := .await w' } = true := by
    simp [holds, hanswered]
  cases Wait.acted h with
  | listened => exact .passed rfl (aimed_of_await rfl hanswered hw) (by rw [hholds, hholds'])
  | parked _ hnone =>
    have hslots : (s.forget w.transaction).register w.transaction
        = (s.forget x.request.transaction).register x.request.transaction := by rw [hw]
    rw [hslots]
    rw [hw] at hnone
    exact .parked rfl (aimed_of_await rfl hanswered hw) hholds hholds' hnone
  | woken => exact .passed rfl (aimed_of_await rfl hanswered hw) (by rw [hholds, hholds'])

/-- Every action of an exchange that is `Aimed` is a `SlotAction`. -/
theorem slotActed {task now : Nat} {x : Exchange} {s s' : Session}
    {p : Progress Exchange (Option Response)} (haimed : x.Aimed)
    (h : x.act task now s = some (p, s')) : x.SlotAction s.slots p s'.slots := by
  have hfinished : ∀ {w result slots}, x.phase = .await w →
      w.act now s.slots = some (.finished result, slots) →
      slots = s.slots ∨ x.answered = true ∧ slots = s.slots.forget x.request.transaction := by
    intro w result slots hphase hw
    obtain ⟨hanswered, htransaction⟩ := haimed.await w hphase
    cases Wait.acted hw with
    | obtained | refused => exact .inr ⟨hanswered, by rw [htransaction]⟩
    | timedOut => exact .inl rfl
  cases acted h with
  | entered hphase =>
    refine .passed rfl ⟨fun h => ?_, fun w h => ?_⟩ ?_
    · by_contra hanswered
      simp [hanswered] at h
    · cases hanswered : x.answered <;> simp [hanswered] at h
    · cases hanswered : x.answered <;> simp [holds, hphase, hanswered]
  | turnedAway hphase => exact .left (by simp [holds, hphase])
  | unexpected hphase => exact .left (by simp [holds, hphase])
  | expected hphase =>
    have hanswered := haimed.expect hphase
    exact .booked rfl (aimed_of_phase (by simp) (by simp)) (by simp [holds, hphase])
      (by simp [holds, hanswered])
  | announced hphase =>
    exact .passed rfl (aimed_of_phase (by simp) (by simp)) (by simp [holds, hphase])
  | begun hphase =>
    exact .passed rfl (aimed_of_phase (by simp) (by simp)) (by simp [holds, hphase])
  | dead hphase =>
    exact slotAction_release (by simp [hphase]) (by simp [hphase]) (.inl rfl)
  | wrote hphase =>
    exact .passed rfl (aimed_of_phase (by simp) (by simp)) (by simp [holds, hphase])
  | broke hphase =>
    exact .passed rfl (aimed_of_phase (by simp) (by simp)) (by simp [holds, hphase])
  | sent hphase hanswered =>
    exact .passed rfl (aimed_of_await rfl hanswered rfl) (by simp [holds, hphase])
  | dropped hphase hanswered => exact .left (by simp [holds, hanswered])
  | waited hphase hw => exact slotAction_wait haimed hphase hw
  | refused hphase hw | timedOut hphase hw | obtained hphase hw =>
    exact slotAction_release (by simp [hphase]) (by simp [hphase]) (hfinished hphase hw)
  | ending hphase hr =>
    rw [(EndRequest.acted hr).slots_eq]
    exact .passed rfl (aimed_of_phase (by simp) (by simp)) (by simp [holds, hphase])
  | ended hphase hr =>
    exact slotAction_release (by simp [hphase]) (by simp [hphase])
      (.inl ((EndRequest.acted hr).slots_eq))

/-- A `SlotAction` does nothing to the slots of other transactions. -/
theorem SlotAction.get?_of_ne {x : Exchange} {s s' : Slots} {u : UInt32}
    {p : Progress Exchange (Option Response)} (h : x.SlotAction s p s')
    (hu : u ≠ x.request.transaction) : s'.get? u = s.get? u := by
  cases h with
  | passed | left => rfl
  | booked => rw [Slots.get?_register, if_neg hu]
  | parked => rw [Slots.get?_register, if_neg hu, Slots.get?_forget, if_neg hu]
  | released => rw [Slots.get?_forget, if_neg hu]

/-- An exchange keeps its request. -/
theorem SlotAction.request_eq {x x' : Exchange} {s s' : Slots}
    (h : x.SlotAction s (.ongoing x') s') : x'.request = x.request := by
  cases h with
  | passed hrequest | booked hrequest | parked hrequest => exact hrequest

/-- An exchange stays `Aimed`. -/
theorem SlotAction.aimed {x x' : Exchange} {s s' : Slots}
    (h : x.SlotAction s (.ongoing x') s') : x'.Aimed := by
  cases h with
  | passed _ haimed | booked _ haimed | parked _ haimed => exact haimed

/-- An exchange that is given up leaves the slots as its last action would: `Exchange.abandon` is a
`SlotAction`, too. -/
theorem slotAction_abandon (task : Nat) (x : Exchange) (s : Session)
    (result : Except Error (Option Response)) :
    x.SlotAction s.slots (.finished result) (x.abandon task s).slots := by
  rw [abandon]
  split
  · next hphase => exact .left (by simp [holds, hphase])
  · next hphase => exact .left (by simp [holds, hphase])
  · next henter hexpect => exact slotAction_release henter hexpect (.inl rfl)

/-- What `Exchange.obtained?` gives is in the slot of the exchange, and the next action is the last
one and ends with `Response.check` of it. -/
theorem obtained?_eq_some {now : Nat} {x : Exchange} {s : Session} {r : Response}
    (haimed : x.Aimed) (h : x.obtained? now s = some r) :
    x.holds = true ∧ s.slots.get? x.request.transaction = some (some r) ∧
      ∀ task, ∃ s', x.act task now s = some (.finished (some <$> r.check), s') := by
  rw [obtained?] at h
  split at h
  · next w hphase =>
    obtain ⟨hanswered, htransaction⟩ := haimed.await w hphase
    split at h
    · next r' slots hw =>
      cases h
      refine ⟨by simp [holds, hphase, hanswered], ?_, fun task => ?_⟩
      · cases Wait.acted hw with
        | obtained _ hslot => rw [← htransaction, hslot]
      · rw [act, hphase]
        simp only [hw]
        exact ⟨_, rfl⟩
    · cases h
  · cases h

/-- An exchange that ends with a response has taken it from its slot (`Exchange.obtained?`). -/
theorem obtained?_of_act {task now : Nat} {x : Exchange} {s s' : Session} {r : Response}
    (h : x.act task now s = some (.finished (.ok (some r)), s')) :
    x.obtained? now s = some r := by
  generalize hp : (Progress.finished (.ok (some r)) : Progress Exchange _) = p at h
  cases acted h with
  | @obtained w r' slots hphase hw =>
    have hr : r' = r := by
      rw [Response.check] at hp
      split at hp
      · cases hp
      · cases hp
        rfl
    rw [obtained?, hphase, hr.symm]
    simp [hw]
  | _ => cases hp

/-- An exchange about to look at its slot gets the response in it, also when the slots are closed. -/
theorem obtained?_of_look {now heard : Nat} {x : Exchange} {w : Wait} {s : Session} {r : Response}
    (hphase : x.phase = .await w) (hstep : w.step = .look heard)
    (hslot : s.slots.get? w.transaction = some (some r)) : x.obtained? now s = some r := by
  rw [obtained?, hphase]
  simp [Wait.act, hstep, Slots.look_of_get? hslot]

end Exchange

/-! ## Tasks -/

/-- Jobs that use the slots without an exchange: `expectResponse`, `forgetResponse` and
`awaitResponse`. -/
def Job.isRaw : Job → Bool
  | .expectResponse _ | .forgetResponse _ | .awaitResponse .. => true
  | _ => false

/-- What an action of a task means for the exchange it is in (`Phase.exchange?`): there is none, one
begins, it goes on, or it ends. -/
inductive Task.CallAction (now : Nat) (t : Task) (g : Ground) :
    Progress Phase Reply → Ground → Prop
  | apart {p : Progress Phase Reply} {g' : Ground} : t.phase.exchange? = none →
      p.ongoing?.bind Phase.exchange? = none → g'.transaction = g.transaction →
      (t.job.isRaw = false → g'.session.slots = g.session.slots) → CallAction now t g p g'
  | opened {p : Progress Phase Reply} {g' : Ground} {x : Exchange} : t.phase.exchange? = none →
      p.ongoing?.bind Phase.exchange? = some x → x.request.transaction = g.transaction →
      x.phase = .enter → g'.transaction = g.transaction + 1 →
      g'.session.slots = g.session.slots → CallAction now t g p g'
  | exchanged {p : Progress Phase Reply} {g' : Ground} {x : Exchange}
      {q : Progress Exchange (Option Response)} {s : Session} : t.phase.exchange? = some x →
      x.act t.id now g.session = some (q, s) → p.ongoing?.bind Phase.exchange? = q.ongoing? →
      g'.transaction = g.transaction → g'.session.slots = s.slots → CallAction now t g p g'

/-- Every action of a command is a `Task.CallAction`. -/
theorem Task.callActed_command {now : Nat} {t : Task} {c : Command} {g g' : Ground}
    {p : Progress Phase Reply} (h : CommandAction t.id now c t.phase g p g') :
    t.CallAction now g p g' := by
  cases h with
  | queued hphase | ready hphase | passed hphase | skipped hphase =>
    exact .apart (by rw [hphase]; rfl) rfl rfl fun _ => rfl
  | opened hphase | prepared hphase =>
    exact .opened (by rw [hphase]; rfl) rfl (Command.headed_request ..).transaction rfl rfl rfl
  | negotiating hphase hx | settled hphase hx | exchanging hphase hx | concluded hphase hx =>
    exact .exchanged (by rw [hphase]; rfl) hx rfl rfl rfl

/-- A task is in an exchange only with a command, and the exchange is `Exchange.Aimed`. -/
def Task.Sound (t : Task) : Prop :=
  ∀ x, t.phase.exchange? = some x → (∃ c, t.job = .command c) ∧ x.Aimed

/-- A task without a command is in no exchange. -/
theorem Task.Sound.exchange?_eq_none {t : Task} (h : t.Sound) (hjob : ∀ c, t.job ≠ .command c) :
    t.phase.exchange? = none := by
  rw [Option.eq_none_iff_forall_ne_some]
  intro x hx
  obtain ⟨⟨c, hc⟩, -⟩ := h x hx
  exact hjob c hc

/-- Every action of a task that is `Task.Sound` is a `Task.CallAction`. -/
theorem Task.callActed {now : Nat} {t : Task} {g g' : Ground} {p : Progress Phase Reply}
    (hsound : t.Sound) (h : t.act now g = some (p, g')) : t.CallAction now g p g' := by
  have hraw : ∀ {p g'}, t.job.isRaw = true → p.ongoing?.bind Phase.exchange? = none →
      g'.transaction = g.transaction → t.CallAction now g p g' := by
    intro p g' hjob hphase htransaction
    refine .apart (hsound.exchange?_eq_none ?_) hphase htransaction fun h => ?_
    · intro c hc
      simp [hc, Job.isRaw] at hjob
    · rw [h] at hjob
      cases hjob
  cases acted h with
  | command _ hc => exact callActed_command hc
  | mailed hjob hphase =>
    refine .apart (hsound.exchange?_eq_none ?_) ?_ rfl fun _ => rfl
    · intro c hc
      obtain ⟨limit, h | h⟩ := hjob <;> simp [hc] at h
    · cases p with
      | finished _ => rfl
      | ongoing phase => obtain rfl | ⟨deadline, rfl⟩ := hphase phase rfl <;> rfl
  | expected hjob | unexpected hjob | forgot hjob | awaiting hjob | waited hjob
  | answered hjob => exact hraw (by rw [hjob]; rfl) rfl rfl
  | terminating hjob | sawEnd hjob =>
    exact .apart (hsound.exchange?_eq_none (by simp [hjob])) rfl rfl fun _ => rfl
  | ending hjob _ hr | ended hjob _ hr =>
    exact .apart (hsound.exchange?_eq_none (by simp [hjob])) rfl rfl fun _ =>
      (EndRequest.acted hr).slots_eq

/-- A task stays `Task.Sound`. -/
theorem Task.Sound.act {now : Nat} {t : Task} {g g' : Ground} {phase : Phase} (hsound : t.Sound)
    (h : t.act now g = some (.ongoing phase, g')) : Task.Sound { t with phase } := by
  intro x hx
  have hjob : ∃ c, t.job = .command c := by
    cases acted h with
    | command hjob => exact ⟨_, hjob⟩
    | mailed _ hphase => obtain rfl | ⟨_, rfl⟩ := hphase phase rfl <;> cases hx
    | _ => cases hx
  refine ⟨hjob, ?_⟩
  cases callActed hsound h with
  | apart _ hnone => cases hnone.symm.trans hx
  | opened _ hopened _ henter =>
    cases hopened.symm.trans hx
    exact Exchange.aimed_of_phase (by simp [henter]) (by simp [henter])
  | @exchanged _ q _ hphase hact hphase' =>
    cases q with
    | finished _ => cases hphase'.symm.trans hx
    | ongoing x' =>
      cases hphase'.symm.trans hx
      exact (Exchange.slotActed (hsound _ hphase).2 hact).aimed

/-- `Task.abandon` touches no slot of a task that is in no exchange. -/
theorem Task.slots_abandon_of_none {t : Task} (h : t.phase.exchange? = none) (s : Session) :
    (t.abandon s).slots = s.slots := by
  rw [abandon]
  split
  case h_2 hphase | h_3 hphase =>
    rw [hphase] at h
    cases h
  all_goals rfl

/-- `Task.abandon` leaves the slots as `Exchange.abandon` does. -/
theorem Task.slots_abandon_of_some {t : Task} {x : Exchange} (h : t.phase.exchange? = some x)
    (s : Session) : (t.abandon s).slots = (x.abandon t.id s).slots := by
  cases hphase : t.phase with
  | negotiate y | exchange y =>
    rw [hphase] at h
    cases h
    rw [abandon, hphase]
  | start | cell | prepare | line | receive _ | await _ | finish _ =>
    rw [hphase] at h
    cases h

/-- A task whose exchange comes to its end with the next action can act. -/
theorem Task.Sound.act_of_finished {now : Nat} {t : Task} {g : Ground} {x : Exchange}
    {result : Except Error (Option Response)} {s : Session} (hsound : t.Sound)
    (hx : t.phase.exchange? = some x)
    (h : x.act t.id now g.session = some (.finished result, s)) :
    ∃ p s', t.act now g = some (p, { g with session := s' }) := by
  obtain ⟨⟨c, hjob⟩, -⟩ := hsound x hx
  rw [Task.act, hjob]
  cases hphase : t.phase with
  | negotiate y =>
    rw [hphase] at hx
    cases hx
    simp only [actCommand, h]
    exact ⟨_, _, rfl⟩
  | exchange y =>
    rw [hphase] at hx
    cases hx
    simp only [actCommand, h]
    rcases result with e | ⟨⟨⟩ | r⟩ <;> exact ⟨_, _, rfl⟩
  | start | cell | prepare | line | receive _ | await _ | finish _ =>
    rw [hphase] at hx
    cases hx

/-- All tasks of all runs are `Task.Sound`. -/
theorem Client.sound_run {ms : List Client.Move} {k : Nat} {t : Task}
    (h : (run {} ms).task? k = some t) : t.Sound :=
  task_invariant (K := fun _ => True) (fun _ _ _ _ _ hx => nomatch hx) Task.Sound.act (by simp) h

end Dbgp
