import Dbgp.Proofs.Correlation

/-!
# No wake-up is lost

A wait for a response first listens to the bell, then looks at its slot, and only then falls asleep.
The receiver first changes the slots and then rings. So whoever sleeps without having heard the bell
sleeps for a reason: its slot is empty and the slots are open, unless the receiver is just about to
ring for it.

What "empty" means depends on who uses the slots. A slot can be given up by another task under the eyes
of a wait, so in general it is only known that no response is in it; where nobody gives slots up it is
there and empty. Both are instances of one invariant, `Attentive`, for a property of slots that an
empty slot has and a slot with a response does not have.
-/

namespace Dbgp

/-! ## Waits and the bell -/

/-- The `Wait` an exchange is in. -/
def Exchange.wait? (x : Exchange) : Option Wait :=
  match x.phase with
  | .await w => some w
  | _ => none

/-- The `Wait` a task is in, for its exchange or by itself. -/
def Phase.wait? : Phase → Option Wait
  | .negotiate x | .exchange x => x.wait?
  | .await w => some w
  | _ => none

/-- The response of a transaction has been put into its slot, or the slots have been closed, and the
bell has not been rung for it by `Slots.ring`. -/
def Session.AboutToRing (s : Session) (t : UInt32) : Prop :=
  s.receiver = .ringing t ∨ ∃ failure, s.receiver = .ending .ring failure

/-- A `Wait` at `sleep` that has not heard the bell has missed nothing. -/
structure Wait.Attentive (D : Option (Option Response) → Prop) (s : Session) (w : Wait) : Prop where
  heard_le : ∀ heard, w.step = .look heard ∨ w.step = .sleep heard → heard ≤ s.slots.rung
  asleep : w.step = .sleep s.slots.rung →
    s.AboutToRing w.transaction ∨ s.slots.closed = false ∧ D (s.slots.get? w.transaction)

/-- What the tasks do to `Slots`: they neither close them nor ring, and keep a property `D` of the
slots as long as those are open. -/
structure Slots.Respects (D : Option (Option Response) → Prop) (s s' : Slots) : Prop where
  closed : s'.closed = s.closed
  rung : s'.rung = s.rung
  slot : s.closed = false → ∀ t, D (s.get? t) → D (s'.get? t)

variable {D : Option (Option Response) → Prop}

/-- `Respects` holds of slots that nothing happens to. -/
theorem Slots.Respects.refl (s : Slots) : s.Respects D s :=
  ⟨rfl, rfl, fun _ _ h => h⟩

/-- `Slots.register` keeps what is so of an empty slot. -/
theorem Slots.respects_register (hempty : D (some none)) (s : Slots) (t : UInt32) :
    s.Respects D (s.register t) := by
  refine ⟨closed_register s t, rung_register s t, fun _ u hu => ?_⟩
  rw [get?_register]
  split
  · cases hslot : s.get? u with
    | none => exact hempty
    | some slot =>
      rw [hslot] at hu
      exact hu
  · exact hu

/-- `Slots.forget` keeps what is so of no slot. -/
theorem Slots.respects_forget (hnone : D none) (s : Slots) (t : UInt32) :
    s.Respects D (s.forget t) := by
  refine ⟨closed_forget s t, rung_forget s t, fun _ u hu => ?_⟩
  rw [get?_forget]
  split
  · exact hnone
  · exact hu

/-- A `Wait` takes a slot away only if there is a response in it or if the slots are closed. -/
theorem Wait.Action.respects (hempty : D (some none)) (hfull : ∀ r, ¬D (some (some r)))
    {now : Nat} {w : Wait} {s s' : Slots} {p : Progress Wait (Option Response)}
    (h : w.Action now s p s') : s.Respects D s' := by
  cases h with
  | listened | woken | timedOut => exact .refl s
  | obtained _ hslot =>
    refine ⟨rfl, rfl, fun _ u hu => ?_⟩
    rw [Slots.get?_forget]
    split
    · next heq =>
      rw [heq, hslot] at hu
      exact absurd hu (hfull _)
    · exact hu
  | refused _ _ hclosed =>
    refine ⟨rfl, rfl, fun hopen => ?_⟩
    rw [hopen] at hclosed
    cases hclosed
  | parked =>
    refine ⟨by simp, by simp, fun _ u hu => ?_⟩
    rw [Slots.get?_register, Slots.get?_forget]
    split
    · exact hempty
    · exact hu

/-- An `Exchange` gives its slot up when it is over, so `Respects` needs what is so of no slot. -/
theorem Exchange.SlotAction.respects (hempty : D (some none)) (hnone : D none) {x : Exchange}
    {s s' : Slots} {p : Progress Exchange (Option Response)} (h : x.SlotAction s p s') :
    s.Respects D s' := by
  cases h with
  | passed | left => exact .refl s
  | booked => exact Slots.respects_register hempty s _
  | released => exact Slots.respects_forget hnone s _
  | parked =>
    refine ⟨by simp, by simp, fun _ u hu => ?_⟩
    rw [Slots.get?_register, Slots.get?_forget]
    split
    · exact hempty
    · exact hu

/-! ## Actions of tasks -/

/-- Jobs that never give a slot up: neither are they `forgetResponse`, nor commands. -/
def Job.keepsSlots : Job → Bool
  | .command _ | .forgetResponse _ => false
  | _ => true

namespace Task

/-- By `Task.act`, tasks keep such a property of slots, if a slot that is not there has it or if their
job is one that gives no slot up. -/
theorem act_respects (hempty : D (some none)) (hfull : ∀ r, ¬D (some (some r))) {now : Nat}
    {t : Task} {g g' : Ground} {p : Progress Phase Reply} (hsound : t.Sound)
    (hgive : D none ∨ t.job.keepsSlots = true) (h : t.act now g = some (p, g')) :
    g.session.slots.Respects D g'.session.slots := by
  cases acted h with
  | command hjob hc =>
    have hnone : D none := hgive.resolve_right (by simp [hjob, Job.keepsSlots])
    cases callActed_command hc with
    | apart _ _ _ hslots =>
      rw [hslots (by rw [hjob]; rfl)]
      exact .refl _
    | opened _ _ _ _ _ hslots =>
      rw [hslots]
      exact .refl _
    | exchanged hx hact _ _ hslots =>
      rw [hslots]
      exact (Exchange.slotActed (hsound _ hx).2 hact).respects hempty hnone
  | expected => exact Slots.respects_register hempty _ _
  | forgot hjob =>
    exact Slots.respects_forget (hgive.resolve_right (by simp [hjob, Job.keepsSlots])) _ _
  | waited _ _ hw | answered _ _ hw => exact (Wait.acted hw).respects hempty hfull
  | ending _ _ hr | ended _ _ hr =>
    rw [(EndRequest.acted hr).slots_eq]
    exact .refl _
  | mailed | unexpected | awaiting | terminating | sawEnd => exact .refl _

/-- By `Task.abandon`, a task keeps such a property of slots, under the same conditions. -/
theorem abandon_respects (hempty : D (some none)) {t : Task} (hsound : t.Sound)
    (hgive : D none ∨ t.job.keepsSlots = true) (s : Session) :
    s.slots.Respects D (t.abandon s).slots := by
  cases hx : t.phase.exchange? with
  | none =>
    rw [slots_abandon_of_none hx]
    exact .refl _
  | some x =>
    obtain ⟨⟨c, hjob⟩, -⟩ := hsound x hx
    have hnone : D none := hgive.resolve_right (by simp [hjob, Job.keepsSlots])
    rw [slots_abandon_of_some hx]
    exact (Exchange.slotAction_abandon t.id x s (.ok none)).respects hempty hnone

end Task

/-- A `Wait` that an exchange is in after an action has just begun or has acted itself. -/
theorem Exchange.wait?_of_act {task now : Nat} {x x' : Exchange} {s s' : Session} {w' : Wait}
    (h : x.act task now s = some (.ongoing x', s')) (hw' : x'.wait? = some w') :
    w'.step = .listen ∨
      ∃ w, x.wait? = some w ∧ w.act now s.slots = some (.ongoing w', s'.slots) := by
  cases acted h with
  | entered =>
    rw [wait?] at hw'
    cases hanswered : x.answered <;> simp [hanswered] at hw'
  | sent =>
    cases hw'
    exact .inl rfl
  | waited hphase hw =>
    cases hw'
    exact .inr ⟨_, by rw [wait?, hphase], hw⟩
  | expected | announced | begun | wrote | broke | ending => cases hw'

/-- A `Wait` that a task is in after an action has just begun or has acted itself. -/
theorem Task.wait?_of_act {now : Nat} {t : Task} {g g' : Ground} {phase : Phase} {w' : Wait}
    (h : t.act now g = some (.ongoing phase, g')) (hw' : phase.wait? = some w') :
    w'.step = .listen ∨ ∃ w, t.phase.wait? = some w ∧
      w.act now g.session.slots = some (.ongoing w', g'.session.slots) := by
  cases acted h with
  | command _ hc =>
    cases hc with
    | negotiating hphase hx | exchanging hphase hx =>
      rw [hphase]
      exact Exchange.wait?_of_act hx hw'
    | queued | ready | passed | skipped | opened | settled | prepared => cases hw'
  | mailed _ hphase => obtain rfl | ⟨_, rfl⟩ := hphase phase rfl <;> cases hw'
  | awaiting =>
    cases hw'
    exact .inl rfl
  | waited _ hphase hw =>
    cases hw'
    exact .inr ⟨_, by rw [hphase]; rfl, hw⟩
  | terminating | ending => cases hw'

/-! ## One action -/

namespace Wait

variable {s s' : Session} {w w' : Wait}

/-- A wait that is about to listen is `Attentive`. -/
theorem attentive_of_listen (h : w.step = .listen) : w.Attentive D s := by
  constructor <;> simp [h]

/-- The action of another task, which `Respects` the slots. -/
theorem Attentive.respects (h : w.Attentive D s) (hreceiver : s'.receiver = s.receiver)
    (hslots : s.slots.Respects D s'.slots) : w.Attentive D s' := by
  refine ⟨fun heard hstep => ?_, fun hstep => ?_⟩
  · rw [hslots.rung]
    exact h.heard_le heard hstep
  · rw [hslots.rung] at hstep
    rw [Session.AboutToRing, hreceiver, hslots.closed]
    rcases h.asleep hstep with hring | ⟨hopen, hslot⟩
    · exact .inl hring
    · exact .inr ⟨hopen, hslots.slot hopen _ hslot⟩

/-- The action of the wait itself (`Wait.act`). It falls asleep only after a look at its slot. -/
theorem Attentive.act {now : Nat} (hempty : D (some none)) (h : w.Attentive D s)
    (hact : w.act now s.slots = some (.ongoing w', s'.slots)) : w'.Attentive D s' := by
  generalize hafter : s'.slots = slots at hact
  cases acted hact with
  | listened =>
    refine ⟨fun heard hstep => ?_, by simp⟩
    rcases hstep with hstep | hstep
    · cases hstep
      exact Nat.le_of_eq (by rw [hafter])
    · cases hstep
  | parked hlook hnone hopen =>
    have hheard := h.heard_le _ (.inl hlook)
    refine ⟨fun heard hstep => ?_, fun _ => .inr ?_⟩
    · rcases hstep with hstep | hstep
      · cases hstep
      · cases hstep
        rw [hafter]
        simpa using hheard
    · rw [hafter]
      refine ⟨by simpa using hopen, ?_⟩
      rw [Slots.get?_register, if_pos rfl, Slots.get?_forget, if_pos rfl]
      exact hempty
  | woken => exact attentive_of_listen rfl

/-- The action of the receiver. Between a change to the slots and the bell it is `AboutToRing`. -/
theorem Attentive.received {now : Nat} (h : w.Attentive D s)
    (hstep : s.receiverStep now = some s') : w.Attentive D s' := by
  cases Session.received hstep with
  | @filled r harriving hfill hring =>
    obtain ⟨-, hclosed, hrung, hget⟩ := Slots.fill_eq_some hfill
    have hreading : ¬s.AboutToRing w.transaction := by
      rw [Session.AboutToRing]
      rw [Session.arriving?] at harriving
      split at harriving
      · next hreceiver => simp [hreceiver]
      · cases harriving
    refine ⟨fun heard hstep => by rw [hrung]; exact h.heard_le heard hstep, fun hsleep => ?_⟩
    rw [hrung] at hsleep
    obtain ⟨hopen, hslot⟩ := (h.asleep hsleep).resolve_left hreading
    by_cases hw : w.transaction = r.transaction
    · exact .inl (.inl (by rw [hring, hw]))
    · rw [hclosed, hget, if_neg hw]
      exact .inr ⟨hopen, hslot⟩
  | kept _ hslots hringing hending =>
    have hquiet : ¬s.AboutToRing w.transaction := by
      rintro (hring | ⟨failure, hring⟩)
      · exact hringing _ hring
      · exact hending _ hring
    refine ⟨fun heard hstep => by rw [hslots]; exact h.heard_le heard hstep, fun hsleep => ?_⟩
    rw [hslots] at hsleep ⊢
    exact .inr ((h.asleep hsleep).resolve_left hquiet)
  | rung _ hslots =>
    refine ⟨fun heard hstep => ?_, fun hsleep => ?_⟩
    · rw [hslots]
      exact Nat.le_succ_of_le (h.heard_le heard hstep)
    · -- Nobody has heard a bell that is only now rung.
      rw [hslots] at hsleep
      exact absurd (h.heard_le _ (.inr hsleep)) (Nat.not_succ_le_self _)
  | closed _ hslots hring =>
    refine ⟨fun heard hstep => by rw [hslots]; exact h.heard_le heard hstep, fun _ => ?_⟩
    exact .inl (.inr ⟨_, hring⟩)

end Wait

/-! ## All runs -/

namespace Client

/-- All waits on a session are `Wait.Attentive`. -/
def Watchful (D : Option (Option Response) → Prop) (n : Nat) (c : Client) : Prop :=
  ∀ k t w, c.task? k = some t → t.session = n → t.phase.wait? = some w →
    ∃ s, c.session? n = some s ∧ w.Attentive D s

/-- Every move leaves a session `Watchful`. -/
theorem Watchful.step {n : Nat} {c c' : Client} {m : Move} {es : List Happening}
    (h : c.Watchful D n) (hempty : D (some none)) (hfull : ∀ r, ¬D (some (some r)))
    (hsound : ∀ k t, c.task? k = some t → t.Sound)
    (hgive : D none ∨ ∀ k t, c.task? k = some t → t.session = n → t.job.keepsSlots = true)
    (heffect : Effect c m es c') : c'.Watchful D n := by
  intro k t w hk hn hw
  cases heffect with
  | aside _ htask hsession =>
    obtain htask | ⟨-, session, job, -, htask⟩ := htask k
    · obtain ⟨s, hs, hattentive⟩ := h k t w (htask.symm.trans hk) hn hw
      have hunmoved := hsession n
      rw [hs] at hunmoved
      generalize c'.session? n = after at hunmoved
      cases hunmoved with
      | kept hslots hreceiver =>
        refine ⟨_, rfl, hattentive.respects hreceiver ?_⟩
        rw [hslots]
        exact .refl _
    · cases htask.symm.trans hk
      cases hw
  | received hs hstep _ htask hsession =>
    obtain ⟨s, hs', hattentive⟩ := h k t w ((htask k).symm.trans hk) hn hw
    rw [hsession]
    split
    · next hj =>
      rw [hj] at hs'
      cases hs.symm.trans hs'
      exact ⟨_, rfl, hattentive.received hstep⟩
    · exact ⟨s, hs', hattentive⟩
  | @acted j t' s' p g _ hj hs hact _ htask hsession =>
    rw [htask] at hk
    rw [hsession]
    split at hk
    · cases p with
      | finished _ => cases hk
      | ongoing phase =>
        cases hk
        rw [if_pos hn.symm]
        refine ⟨_, rfl, ?_⟩
        -- The wait has only begun, or it is the one that has acted.
        rcases Task.wait?_of_act hact hw with hlisten | ⟨w₀, hw₀, hwact⟩
        · exact Wait.attentive_of_listen hlisten
        · obtain ⟨s₀, hs₀, hattentive⟩ := h j t' w₀ hj hn hw₀
          rw [← hn] at hs₀
          cases hs.symm.trans hs₀
          exact hattentive.act hempty hwact
    -- Another task has acted, perhaps on the same session.
    · obtain ⟨s₀, hs₀, hattentive⟩ := h k t w hk hn hw
      split
      · next hj' =>
        rw [hj'] at hs₀
        cases hs.symm.trans hs₀
        have hgive' := hgive.imp_right fun hkeeps => hkeeps j t' hj hj'.symm
        exact ⟨_, rfl, hattentive.respects (Task.acted hact).akin.receiver_eq
          (Task.act_respects hempty hfull (hsound j t' hj) hgive' hact)⟩
      · exact ⟨s₀, hs₀, hattentive⟩
  | @abandoned j t' _ hj _ htask hsession =>
    rw [htask] at hk
    split at hk
    · cases hk
    · obtain ⟨s₀, hs₀, hattentive⟩ := h k t w hk hn hw
      rw [hsession, hs₀]
      split
      · next hj' =>
        have hgive' := hgive.imp_right fun hkeeps => hkeeps j t' hj hj'.symm
        exact ⟨_, rfl, hattentive.respects (t'.akin_abandon s₀).receiver_eq
          (Task.abandon_respects hempty (hsound j t' hj) hgive' s₀)⟩
      · exact ⟨s₀, rfl, hattentive⟩

/-- All waits on a session are attentive in every run: it is `Watchful`. -/
theorem watchful_run {n : Nat} {ms : List Move} (hempty : D (some none))
    (hfull : ∀ r, ¬D (some (some r)))
    (hgive : D none ∨ ∀ job, .start n job ∈ ms → job.keepsSlots = true) :
    (run {} ms).Watchful D n := by
  induction ms using List.reverseRecOn with
  | nil =>
    rintro k t w ⟨⟩
  | append_singleton ms m ih =>
    have hgive' : D none ∨ ∀ job, .start n job ∈ ms → job.keepsSlots = true :=
      hgive.imp_right fun hjobs job hjob => hjobs job (List.mem_append_left _ hjob)
    rw [run_concat]
    refine (ih hgive').step hempty hfull (fun k t => sound_run) (hgive'.imp_right ?_) (effect _ m)
    intro hjobs k t ht
    exact job_of_started (fun job => job.keepsSlots = true) hjobs ht

/-- Only tasks with the job `awaitResponse` wait without an exchange. -/
theorem job_of_await {ms : List Move} {k : Nat} {t : Task} {w : Wait}
    (ht : (run {} ms).task? k = some t) (hw : t.phase = .await w) :
    ∃ u limit, t.job = .awaitResponse u limit := by
  refine task_invariant (Q := fun t => ∀ w, t.phase = .await w → ∃ u limit, t.job = .awaitResponse u limit)
    (K := fun _ => True) (fun _ _ _ _ _ hphase => nomatch hphase) ?_ (by simp) ht w hw
  intro now t g g' phase _ hact w hphase
  cases Task.acted hact with
  | awaiting hjob | waited hjob => exact ⟨_, _, hjob⟩
  | command _ hc => cases hc <;> cases hphase
  | mailed _ hmail =>
    obtain rfl | ⟨_, rfl⟩ := hmail phase rfl <;> cases hphase
  | terminating | ending => cases hphase

/-- A `Wait` of a call has its slot, with or without a response in it. -/
theorem slot_of_call {n : Nat} {ms : List Move}
    (hcalls : ∀ job, .start n job ∈ ms → job.isRaw = false)
    (hfew : (allocations (history {} ms)).length < UInt32.size) {k : Nat} {t : Task} {w : Wait}
    {s : Session} (hs : (run {} ms).session? n = some s) (hk : (run {} ms).task? k = some t)
    (hn : t.session = n) (hw : t.phase.wait? = some w) :
    s.slots.get? w.transaction = some none ∨ ∃ r, s.slots.get? w.transaction = some (some r) := by
  have hslot : ∀ u, (run {} ms).slot? n u = s.slots.get? u := fun u => by
    rw [slot?, hs, Option.bind_some]
  have hexchange : ∀ x, t.phase.exchange? = some x → x.wait? = some w →
      s.slots.get? w.transaction = some none ∨
        ∃ r, s.slots.get? w.transaction = some (some r) := by
    intro x hx hxw
    obtain ⟨-, haimed⟩ := sound_run hk x hx
    have hphase : x.phase = .await w := by
      rw [Exchange.wait?] at hxw
      split at hxw
      · next hphase =>
        cases hxw
        exact hphase
      · cases hxw
    obtain ⟨hanswered, htransaction⟩ := haimed.await w hphase
    rw [← hslot, htransaction]
    exact (standing_run hcalls hfew _).isSome_slot? ⟨t, hk, hn, hx⟩ rfl
      (by simp [Exchange.holds, hphase, hanswered])
  cases hphase : t.phase with
  | negotiate x | exchange x =>
    rw [hphase] at hw
    exact hexchange x (by rw [hphase]; rfl) hw
  | await w' =>
    obtain ⟨u, limit, hjob⟩ := job_of_await hk hphase
    have hraw := job_of_started (fun job => job.isRaw = false) hcalls hk hn
    rw [hjob] at hraw
    cases hraw
  | start | cell | prepare | line | receive _ | finish _ =>
    rw [hphase] at hw
    cases hw

/-- In every run, a wait that sleeps and has not heard the bell finds the slots open and no response
in its slot, unless the receiver is about to ring for it. If nobody gives slots up, or if all jobs on
the session are calls and the ids do not run out, its slot is also there. -/
theorem slot_of_asleep (ms : List Move) (n k : Nat) (t : Task) (w : Wait) (s : Session)
    (hs : (run {} ms).session? n = some s) (hk : (run {} ms).task? k = some t)
    (hn : t.session = n) (hw : t.phase.wait? = some w)
    (hasleep : w.step = .sleep s.slots.rung) :
    s.AboutToRing w.transaction ∨
      s.slots.closed = false ∧ (∀ r, s.slots.get? w.transaction ≠ some (some r)) ∧
        ((∀ job, .start n job ∈ ms → job.keepsSlots = true) ∨
            (∀ job, .start n job ∈ ms → job.isRaw = false) ∧
              (allocations (history {} ms)).length < UInt32.size →
          s.slots.get? w.transaction = some none) := by
  have hattentive : ∀ {D : Option (Option Response) → Prop}, (run {} ms).Watchful D n →
      s.AboutToRing w.transaction ∨
        s.slots.closed = false ∧ D (s.slots.get? w.transaction) := by
    intro D hwatchful
    obtain ⟨s', hs', hattentive⟩ := hwatchful k t w hk hn hw
    cases hs.symm.trans hs'
    exact hattentive.asleep hasleep
  -- The same invariant twice: for slots without a response, and for slots that are there and empty.
  -- The second needs that nobody takes a slot away under a wait.
  rcases hattentive (watchful_run (D := fun slot => ∀ r, slot ≠ some (some r)) (by simp) (by simp)
    (.inl (by simp))) with hring | ⟨hopen, hvacant⟩
  · exact .inl hring
  refine or_iff_not_imp_left.mpr fun hquiet => ⟨hopen, hvacant, ?_⟩
  rintro (hkeeps | ⟨hcalls, hfew⟩)
  · exact ((hattentive (watchful_run (D := fun slot => slot = some none) rfl (by simp)
      (.inr hkeeps))).resolve_left hquiet).2
  · rcases slot_of_call hcalls hfew hs hk hn hw with hslot | ⟨r, hslot⟩
    · exact hslot
    · exact absurd hslot (hvacant r)

/-- A run with two waits, of which one is woken by the response to the other and goes to `sleep`
again. -/
def disturbed : List Move :=
  [Move.attach {}, .start 1 (.awaitResponse 5 none), .start 1 (.awaitResponse 6 none)] ++
    List.replicate 3 (Move.task 1) ++ List.replicate 3 (Move.task 2) ++
    [Move.arrive 1 (.bytes (Frame.encode "<response transaction_id=\"6\"/>"))] ++
    List.replicate 3 (Move.receiver 1) ++ List.replicate 3 (Move.task 1)

/-- In the run `disturbed` a wait sleeps that has heard one bell, with its slot there and empty. -/
theorem slot_of_asleep_disturbed :
    ∃ s t w, (run {} disturbed).session? 1 = some s ∧ (run {} disturbed).task? 1 = some t ∧
      t.phase.wait? = some w ∧ w.transaction = 5 ∧ w.step = .sleep 1 ∧ s.slots.rung = 1 ∧
      s.slots.closed = false ∧ s.slots.get? 5 = some none := by
  have heval : ((run {} disturbed).session? 1).any (fun s =>
      ((run {} disturbed).task? 1).any fun t => t.phase.wait?.any fun w =>
        t.session = 1 ∧ w.transaction = 5 ∧ w.step = .sleep 1 ∧ s.slots.rung = 1 ∧
          s.receiver = .reading (.start 0)) = true := by decide +kernel
  simp only [Option.any_eq_true, decide_eq_true_eq] at heval
  obtain ⟨s, hs, t, ht, w, hw, hn, htransaction, hstep, hrung, hreceiver⟩ := heval
  have hkeeps : ∀ job, .start 1 job ∈ disturbed → job.keepsSlots = true := by
    simp [disturbed, Job.keepsSlots]
  obtain ⟨hopen, -, hslot⟩ := (slot_of_asleep disturbed 1 1 t w s hs ht hn hw
    (by rw [hstep, hrung])).resolve_left (by simp [Session.AboutToRing, hreceiver])
  rw [htransaction] at hslot
  exact ⟨s, t, w, hs, ht, hw, htransaction, hstep, hrung, hopen, hslot (.inl hkeeps)⟩

end Client

end Dbgp
