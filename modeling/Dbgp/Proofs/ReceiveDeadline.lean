import Dbgp.Proofs.MailLine
import Dbgp.Proofs.NextPacket

/-!
# Receiving in turn

What a limit for receiving is worth depends on who was in the line before. While time passes only when nobody
can act (`Client.Punctual`), the first in line receives and is gone by its deadline, so that each of those in
line is gone when it is due (`Client.InLine.leavesBy_run_le`), and not before that unless there is something to
receive or somebody gives up (`Client.InLine.le_leavesBy_run`).

Main statement: `Client.received_when_due`. `Client.limit_overrun` is a call that outlasts its own limit.
-/

namespace Dbgp.Client

variable {c : Client} {m : Move} {n k : Nat} {t : Task} {s : Session} {b : Tray}

/-! ## Time -/

/-- If time passes with a move, nobody could act before: `Client.act` gives nothing at any moment
until then. -/
def OnTime (c : Client) : Move → Prop
  | .pass millis => ∀ u < millis, act { c with now := c.now + u } = none
  | _ => True

/-- Time passes only while nobody can act: every move of the run is `OnTime`. -/
def Punctual : Client → List Move → Prop
  | _, [] => True
  | c, m :: ms => c.OnTime m ∧ (c.step m).Punctual ms

instance (c : Client) : DecidablePred c.OnTime
  | .pass millis => inferInstanceAs (Decidable (∀ u < millis, act { c with now := c.now + u } = none))
  | .accept _ | .attach _ | .arrive _ _ | .gate _ _ _ | .start _ _ | .cancel _ | .release _
  | .addLogger _ _ | .removeLogger _ _ | .addListener _ _ | .removeListener _ _ | .handshake _
  | .receiver _ | .task _ => inferInstanceAs (Decidable True)

/-- Whether a run is punctual, move by move. -/
def decidePunctual : (c : Client) → (ms : List Move) → Decidable (c.Punctual ms)
  | _, [] => inferInstanceAs (Decidable True)
  | c, m :: ms =>
    have := decidePunctual (c.step m) ms
    inferInstanceAs (Decidable (c.OnTime m ∧ (c.step m).Punctual ms))

instance (c : Client) : DecidablePred c.Punctual :=
  decidePunctual c

/-- A run is `Punctual` if both of its parts are. -/
theorem punctual_append (c : Client) (ms ms' : List Move) :
    c.Punctual (ms ++ ms') ↔ c.Punctual ms ∧ (c.run ms).Punctual ms' := by
  induction ms generalizing c with
  | nil => exact iff_of_eq (true_and _).symm
  | cons m ms ih => rw [List.cons_append, Punctual, ih, Punctual, and_assoc]; rfl

/-- Where nobody can act, no task can. -/
theorem act_eq_none_of_task (h : c.act = none) (hk : c.task? k = some t)
    (hs : c.session? t.session = some s) : t.act c.now ⟨c.nextTransaction, s⟩ = none := by
  have hnone : c.actTask t = none := by
    rw [act] at h
    simp only [Option.orElse_eq_orElse, Option.orElse_eq_or, Option.or_eq_none_iff,
      List.findSome?_eq_none_iff] at h
    exact h.2.2 t (List.mem_of_find?_eq_some hk)
  rw [actTask, hs] at hnone
  simp only at hnone
  split at hnone
  · next hact => exact hact
  · next progress g hact => split at hnone <;> cases hnone

/-- Time passes only while the first in the `queue` receives and has time left. -/
theorem queue_pass {millis : Nat} (hlined : c.Lined n) (hpass : c.OnTime (.pass millis))
    (hpos : 0 < millis) : ∀ t ∈ (c.queue n b).head?, ∃ deadline, t.phase = .receive deadline ∧
      ((c.now + millis : Nat) : ℕ∞) ≤ atLatest deadline := by
  intro t ht
  obtain ⟨hid, hk⟩ := mem_queue.mp (List.mem_of_mem_head? ht)
  obtain ⟨t', ht', hn, hstands⟩ := hlined.exists_task hid
  cases hk.symm.trans ht'
  have hhead : (c.lineFor n b).head? = some t.id := by
    rw [← hlined.map_id_queue, List.head?_map, Option.mem_def.mp ht]
    rfl
  obtain ⟨s, hs⟩ : ∃ s, c.session? n = some s := by
    cases hs : c.session? n with
    | none => simp [lineFor, hs] at hid
    | some s => exact ⟨s, rfl⟩
  rw [lineFor_eq hs, ← Turn.isHeldBy_iff] at hhead
  have hstuck : t.act (c.now + (millis - 1)) ⟨c.nextTransaction, s⟩ = none :=
    act_eq_none_of_task (hpass (millis - 1) (Nat.sub_lt hpos Nat.one_pos)) hk (hn ▸ hs)
  rcases Task.waits_of_stuck hstands.1 (.inr hstands.2) hstuck with
    ⟨-, hwaits⟩ | ⟨deadline, hphase, hbefore⟩
  · cases hwaits.symm.trans hhead
  · refine ⟨deadline, hphase, ?_⟩
    cases deadline with
    | none => exact le_top
    | some d =>
      have hlt : ¬d ≤ c.now + (millis - 1) := of_decide_eq_false hbefore
      exact Nat.cast_le.mpr (by omega)

/-- When time passes, the line stays orderly (`Task.Orderly`) and nobody in it is due at another
time. -/
theorem later_pass {millis : Nat} (hlined : c.Lined n) (h : Task.Orderly c.now (c.queue n b))
    (hpass : c.OnTime (.pass millis)) : Task.Orderly (c.now + millis) (c.queue n b) ∧
      ∀ k, Task.dueOf k (c.now + millis : Nat) (c.queue n b) = Task.dueOf k c.now (c.queue n b) := by
  rcases Nat.eq_zero_or_pos millis with rfl | hpos
  · exact ⟨h, fun _ => rfl⟩
  · exact h.later (queue_pass hlined hpass hpos)

/-- A move that is `OnTime` keeps the line orderly. -/
theorem orderly_step (hlined : c.Lined n) (h : Task.Orderly c.now (c.queue n b)) {m : Move}
    (htime : c.OnTime m) : Task.Orderly (c.step m).now ((c.step m).queue n b) := by
  rcases m.pass_or_ne with ⟨millis, rfl⟩ | hm
  · exact (later_pass hlined h htime).1
  · rw [c.now_step hm]
    exact h.moved (moved hlined h.nodup m hm)

variable {ms : List Move}

/-- The lines of a run that is `Punctual` are orderly. -/
theorem orderly_run (hpunctual : Punctual {} ms) (n : Nat) (b : Tray) :
    Task.Orderly (run {} ms).now ((run {} ms).queue n b) := by
  induction ms using List.reverseRecOn with
  | nil => exact ⟨List.nodup_nil, by rintro t ⟨⟩, by rintro t ⟨⟩⟩
  | append_singleton ms m ih =>
    obtain ⟨hbefore, htime, -⟩ := (punctual_append _ _ _).mp hpunctual
    rw [run_concat]
    exact orderly_step (lined_run n ms) (ih hbefore) htime

/-! ## One task in the line -/

/-- A task has joined the line for a mailbox, and is there until it is over. -/
structure InLine (k n : Nat) (b : Tray) (c : Client) : Prop where
  session : ∃ s, c.session? n = some s
  given : k < c.nextTask
  stands : ∀ t, c.task? k = some t → t.session = n ∧ t.StandsIn (.mail b)

/-- When a task in the line for a mailbox is gone at the latest. -/
def leavesBy (k n : Nat) (b : Tray) (c : Client) : ℕ∞ :=
  Task.dueOf k c.now (c.queue n b)

/-- A task that is `InLine` is in the `queue` exactly as long as it is at work. -/
theorem InLine.mem_queue_iff (h : c.InLine k n b) (hlined : c.Lined n) :
    k ∈ (c.queue n b).map Task.id ↔ ∃ t, c.task? k = some t := by
  obtain ⟨s, hs⟩ := h.session
  rw [hlined.map_id_queue, lineFor_eq hs, hlined s hs (.mail b) k]
  constructor
  · rintro ⟨t, ht, -⟩
    exact ⟨t, ht⟩
  · rintro ⟨t, ht⟩
    exact ⟨t, ht, h.stands t ht⟩

/-- A session is there forever. -/
theorem exists_session?_step (h : ∃ s, c.session? n = some s) (m : Move) :
    ∃ s, (c.step m).session? n = some s := by
  obtain ⟨s, hs⟩ := h
  obtain ⟨s', hs', -⟩ := lasting_true.outcome (c.outcome m) ⟨s, hs, trivial⟩
  exact ⟨s', hs'⟩

/-- A task that is `InLine` is so after a move. -/
theorem InLine.step (h : c.InLine k n b) (m : Move) : (c.step m).InLine k n b := by
  refine ⟨exists_session?_step h.session m, Nat.lt_of_lt_of_le h.given (c.outcome m).nextTask_le, ?_⟩
  intro t ht
  rcases (c.leads m).task_cases h.given ht with hsame | ⟨t₀, s, phase, g, -, ht₀, -, hact, rfl⟩
  · exact h.stands t hsame
  · obtain ⟨hn, hjob, -⟩ := h.stands t₀ ht₀
    refine ⟨hn, hjob, ?_⟩
    exact (Task.acted_limit hjob hact).stands

/-- A task in line becomes due no later with a move: `leavesBy` does not grow. -/
theorem InLine.leavesBy_step_le (h : c.InLine k n b) (hlined : c.Lined n)
    (hlined' : (c.step m).Lined n) (horderly : Task.Orderly c.now (c.queue n b))
    (htime : c.OnTime m) (ht : (c.step m).task? k = some t) :
    (∃ t₀, c.task? k = some t₀) ∧ (c.step m).leavesBy k n b ≤ c.leavesBy k n b := by
  have hbefore : ∃ t₀, c.task? k = some t₀ := by
    rcases (c.leads m).task_cases h.given ht with hsame | ⟨t₀, -, -, -, -, ht₀, -⟩
    · exact ⟨t, hsame⟩
    · exact ⟨t₀, ht₀⟩
  refine ⟨hbefore, ?_⟩
  have hmem := (h.mem_queue_iff hlined).mpr hbefore
  have hmem' := ((h.step m).mem_queue_iff hlined').mpr ⟨t, ht⟩
  rcases m.pass_or_ne with ⟨millis, rfl⟩ | hm
  · exact le_of_eq ((later_pass hlined horderly htime).2 k)
  · rw [leavesBy, c.now_step hm]
    exact horderly.dueOf_le_of_moved (moved hlined horderly.nodup m hm) hmem hmem'

/-- With nothing to receive and nobody given up, a task in line does not become due earlier either,
and is not gone before that. -/
theorem InLine.le_leavesBy_step (h : c.InLine k n b) (hlined : c.Lined n)
    (hlined' : (c.step m).Lined n) (horderly : Task.Orderly c.now (c.queue n b))
    (htime : c.OnTime m) (hcalm : c.Calm n b) (hkept : ∀ j, m ≠ .cancel j)
    (ht : c.task? k = some t) :
    ((c.step m).task? k ≠ none → c.leavesBy k n b ≤ (c.step m).leavesBy k n b) ∧
      ((c.step m).task? k = none → c.leavesBy k n b ≤ (c.step m).now) := by
  have hmem := (h.mem_queue_iff hlined).mpr ⟨t, ht⟩
  have hmem' := (h.step m).mem_queue_iff hlined'
  rcases m.pass_or_ne with ⟨millis, rfl⟩ | hm
  · refine ⟨fun _ => le_of_eq ((later_pass hlined horderly htime).2 k).symm, fun hgone => ?_⟩
    cases hgone.symm.trans ht
  · have hmoved := moved (b := b) hlined horderly.nodup m hm
    obtain ⟨hstays, hgoes⟩ := horderly.le_dueOf_of_moved hmoved hcalm hkept hmem
    rw [leavesBy, leavesBy, c.now_step hm]
    refine ⟨fun hthere => hstays (hmem'.mpr (Option.ne_none_iff_exists'.mp hthere)), ?_⟩
    intro hgone
    refine hgoes fun hstill => ?_
    obtain ⟨t', ht'⟩ := hmem'.mp hstill
    cases hgone.symm.trans ht'

variable {pre : List Move}

/-- A task stays `InLine` in a run. -/
theorem InLine.run (h : (run {} pre).InLine k n b) (ms : List Move) :
    (run {} (pre ++ ms)).InLine k n b := by
  induction ms using List.reverseRecOn with
  | nil => rwa [List.append_nil]
  | append_singleton ms m ih =>
    rw [← List.append_assoc, run_concat]
    exact ih.step m

/-- In a run that is `Punctual`, `leavesBy` does not grow. -/
theorem InLine.leavesBy_run_le (h : (Client.run {} pre).InLine k n b)
    (hpunctual : Punctual {} (pre ++ ms)) (ht : (Client.run {} (pre ++ ms)).task? k = some t) :
    (Client.run {} (pre ++ ms)).leavesBy k n b ≤ (Client.run {} pre).leavesBy k n b := by
  induction ms using List.reverseRecOn generalizing t with
  | nil =>
    rw [List.append_nil]
  | append_singleton ms m ih =>
    rw [← List.append_assoc] at hpunctual ht ⊢
    obtain ⟨hbefore, htime, -⟩ := (punctual_append _ _ _).mp hpunctual
    have hlined' := lined_run n (pre ++ ms ++ [m])
    rw [run_concat] at ht hlined' ⊢
    obtain ⟨⟨t₀, ht₀⟩, hle⟩ := (h.run ms).leavesBy_step_le (lined_run n _) hlined'
      (orderly_run hbefore n b) htime ht
    exact hle.trans (ih hbefore ht₀)

/-- In a calm run in which nobody is given up, `leavesBy` does not shrink, and the task is not gone
before that. -/
theorem InLine.le_leavesBy_run (h : (Client.run {} pre).InLine k n b)
    (hpunctual : Punctual {} (pre ++ ms))
    (hcalm : ∀ ms', ms' <+: ms → (Client.run {} (pre ++ ms')).Calm n b)
    (hkept : ∀ j, .cancel j ∉ ms) (ht : (Client.run {} pre).task? k = some t) :
    ((Client.run {} (pre ++ ms)).task? k ≠ none →
      (Client.run {} pre).leavesBy k n b ≤ (Client.run {} (pre ++ ms)).leavesBy k n b) ∧
    ((Client.run {} (pre ++ ms)).task? k = none →
      (Client.run {} pre).leavesBy k n b ≤ (Client.run {} (pre ++ ms)).now) := by
  induction ms using List.reverseRecOn with
  | nil =>
    rw [List.append_nil]
    exact ⟨fun _ => le_refl _, fun hgone => by cases hgone.symm.trans ht⟩
  | append_singleton ms m ih =>
    rw [← List.append_assoc] at hpunctual ⊢
    obtain ⟨hbefore, htime, -⟩ := (punctual_append _ _ _).mp hpunctual
    obtain ⟨hstays, hgoes⟩ := ih hbefore
      (fun ms' hms' => hcalm ms' (hms'.trans (List.prefix_append _ _)))
      (fun j hj => hkept j (List.mem_append_left _ hj))
    have hlined' := lined_run n (pre ++ ms ++ [m])
    rw [run_concat] at hlined' ⊢
    cases ht₀ : (Client.run {} (pre ++ ms)).task? k with
    | none =>
      have hle := (hgoes ht₀).trans (Nat.cast_le.mpr (now_le_step _ m))
      refine ⟨fun hthere => ?_, fun _ => hle⟩
      obtain ⟨t', ht'⟩ := Option.ne_none_iff_exists'.mp hthere
      rcases (leads _ m).task_cases (h.run ms).given ht' with hsame | ⟨_, _, _, _, _, hsome, _⟩
      · cases ht₀.symm.trans hsame
      · cases ht₀.symm.trans hsome
    | some t₀ =>
      have hle := hstays (by simp [ht₀])
      obtain ⟨hstays', hgoes'⟩ := (h.run ms).le_leavesBy_step (lined_run n _) hlined'
        (orderly_run hbefore n b) htime (hcalm ms (List.prefix_append _ _))
        (fun j hm => hkept j (List.mem_append_right _ (by simp [hm]))) ht₀
      exact ⟨fun hthere => hle.trans (hstays' hthere), fun hgone => hle.trans (hgoes' hgone)⟩

/-- No move of a client takes a result away. -/
theorem finished_subset_step (c : Client) (m : Move) : c.finished ⊆ (c.step m).finished := by
  cases m with
  | task j => exact c.finished_subset_task j
  | cancel task =>
    rw [step, cancel]
    split <;> exact List.Subset.refl _
  | handshake j =>
    rw [step]
    cases c.handshakes.find? fun h => h.connection = j with
    | none => exact List.Subset.refl _
    | some h =>
      rw [Option.bind_some, actHandshake]
      split <;> exact List.Subset.refl _
  | receiver j =>
    rw [step]
    cases c.session? j with
    | none => exact List.Subset.refl _
    | some s =>
      rw [Option.bind_some, actSession]
      split
      · exact List.Subset.refl _
      · cases s.receiverStep c.now <;> exact List.Subset.refl _
  | _ => exact List.Subset.refl _

/-- A task in line that is gone after a move was given up, or has returned. -/
theorem InLine.returns_step (h : c.InLine k n b) (hkept : m ≠ .cancel k) (ht : c.task? k = some t)
    (hgone : (c.step m).task? k = none) :
    ∃ result, (k, result) ∈ (c.step m).finished ∧ b.Returns result := by
  have houtcome := c.outcome m
  generalize c.step m = c' at houtcome hgone ⊢
  cases houtcome with
  | aside htask =>
    rcases htask k with hsame | ⟨hnone, -⟩
    · cases (hsame.symm.trans hgone).symm.trans ht
    · cases hnone.symm.trans ht
  | received _ _ _ htask | forwarded _ _ htask => cases ((htask k).symm.trans hgone).symm.trans ht
  | @acted j t₀ s p g hm hj hs hact htask _ hfinished =>
    rw [htask] at hgone
    split at hgone
    · next hk =>
      subst hk
      cases ht.symm.trans hj
      cases p with
      | ongoing phase => cases hgone
      | finished result =>
        refine ⟨result, ?_, Task.returns_of_act (h.stands t ht).2.1 hact⟩
        rw [hfinished]
        simp [Progress.result?]
    · cases hgone.symm.trans ht
  | abandoned hm _ htask =>
    rw [htask] at hgone
    split at hgone
    · next hk => exact absurd (hk ▸ hm) hkept
    · cases hgone.symm.trans ht

/-- A task in line that is gone after a run was given up, or has returned. -/
theorem InLine.returns_run (h : (Client.run {} pre).InLine k n b) (hkept : .cancel k ∉ ms)
    (ht : (Client.run {} pre).task? k = some t)
    (hgone : (Client.run {} (pre ++ ms)).task? k = none) :
    ∃ result, (k, result) ∈ (Client.run {} (pre ++ ms)).finished ∧ b.Returns result := by
  induction ms using List.reverseRecOn with
  | nil =>
    rw [List.append_nil] at hgone
    cases hgone.symm.trans ht
  | append_singleton ms m ih =>
    rw [← List.append_assoc, run_concat] at hgone ⊢
    cases ht₀ : (Client.run {} (pre ++ ms)).task? k with
    | none =>
      obtain ⟨result, hresult, hreturns⟩ := ih (fun hm => hkept (List.mem_append_left _ hm)) ht₀
      exact ⟨result, finished_subset_step _ m hresult, hreturns⟩
    | some t₀ =>
      refine (h.run ms).returns_step (fun hm => hkept ?_) ht₀ hgone
      rw [hm]
      exact List.mem_append_right _ List.mem_cons_self

/-- A session is there for the rest of a run. -/
theorem exists_session?_run (h : ∃ s, (run {} pre).session? n = some s) (ms : List Move) :
    ∃ s, (run {} (pre ++ ms)).session? n = some s := by
  induction ms using List.reverseRecOn with
  | nil => rwa [List.append_nil]
  | append_singleton ms m ih =>
    rw [← List.append_assoc, run_concat]
    exact exists_session?_step ih m

/-- Numbers of tasks only grow in a run. -/
theorem nextTask_le_run (pre ms : List Move) :
    (run {} pre).nextTask ≤ (run {} (pre ++ ms)).nextTask := by
  induction ms using List.reverseRecOn with
  | nil => rw [List.append_nil]
  | append_singleton ms m ih =>
    rw [← List.append_assoc, run_concat]
    exact Nat.le_trans ih (outcome _ m).nextTask_le

/-- No time passes before a task that receives has joined the line. -/
theorem now_of_start {job : Job} (hs : ∃ s, (run {} pre).session? n = some s)
    (hgiven : k < (run {} pre).nextTask) (hjob : job.tray? = some b)
    (hpunctual : Punctual {} (pre ++ ms))
    (hstart : (run {} (pre ++ ms)).task? k = some ⟨k, n, job, .start⟩) :
    (run {} (pre ++ ms)).now = (run {} pre).now := by
  induction ms using List.reverseRecOn with
  | nil => rw [List.append_nil]
  | append_singleton ms m ih =>
    rw [← List.append_assoc] at hpunctual hstart ⊢
    obtain ⟨hbefore, htime, -⟩ := (punctual_append _ _ _).mp hpunctual
    rw [run_concat] at hstart ⊢
    have hearlier : (run {} (pre ++ ms)).task? k = some ⟨k, n, job, .start⟩ := by
      rcases (leads _ m).task_cases (Nat.lt_of_lt_of_le hgiven (nextTask_le_run pre ms)) hstart with
        hsame | ⟨t₀, s, phase, g, -, ht₀, -, hact, heq⟩
      · exact hsame
      · obtain ⟨id, session, job', phase₀⟩ := t₀
        cases heq
        rcases (Task.acted_limit hjob hact).stands with hline | ⟨deadline, hreceive⟩
        · cases hline
        · cases hreceive
    rw [← ih hbefore hearlier]
    rcases m.pass_or_ne with ⟨millis, rfl⟩ | hm
    · rcases Nat.eq_zero_or_pos millis with rfl | hpos
      · rfl
      · obtain ⟨s, hs'⟩ := exists_session?_run hs ms
        have hstuck := act_eq_none_of_task (htime 0 hpos) hearlier hs'
        rcases Task.waits_of_stuck hjob (.inl rfl) hstuck with ⟨hline, -⟩ | ⟨deadline, hreceive, -⟩
        · cases hline
        · cases hreceive
    · exact now_step _ hm

/-- When those in the line for a mailbox are gone at the latest. -/
def free (n : Nat) (b : Tray) (c : Client) : ℕ∞ :=
  (c.queue n b).foldl Task.goneBy c.now

/-- A task that joins the line is due when the others are gone (`free`) and its own time is over. -/
theorem inLine_joined {job : Job} (hlined : c.Lined n) (hdistinct : c.Distinct)
    (hs : c.session? n = some s) (hjob : job.tray? = some b)
    (hk : c.task? k = some ⟨k, n, job, .start⟩) :
    (c.step (.task k)).InLine k n b ∧ (∃ t, (c.step (.task k)).task? k = some t) ∧
      (c.step (.task k)).leavesBy k n b = c.free n b + atLatest job.limit? := by
  obtain ⟨g, hact, hturn⟩ := Task.act_of_start (t := ⟨k, n, job, .start⟩) hjob rfl c.now
    ⟨c.nextTransaction, s⟩
  obtain ⟨hat, -⟩ := (⟨hk, hs⟩ : c.At k ⟨k, n, job, .start⟩ s).step hact
  have hothers : ∀ j, j ≠ k → (c.step (.task k)).task? j = c.task? j := by
    intro j hj
    obtain ⟨-, hsame⟩ | ⟨t, s', p, g', -, -, -, -, -, htask, -⟩ := c.step_task k
    · rw [hsame]
    · rw [htask, if_neg hj]
  have hnew := hlined.not_mem_of_start (b := b) hk rfl
  have hqueue : (c.step (.task k)).queue n b = c.queue n b ++ [⟨k, n, job, .line⟩] :=
    queue_joined (t := ⟨k, n, job, .line⟩) hnew
      (by rw [lineFor_eq hat.session, hturn, lineFor_eq hs]; rfl) hat.task hothers
  refine ⟨⟨⟨_, hat.session⟩, ?_, ?_⟩, ⟨_, hat.task⟩, ?_⟩
  · exact Nat.lt_of_lt_of_le (hdistinct.lt_nextTask hk) (c.outcome (.task k)).nextTask_le
  · intro t ht
    cases hat.task.symm.trans ht
    exact ⟨rfl, hjob, .inl rfl⟩
  · rw [← hlined.map_id_queue] at hnew
    rw [leavesBy, hqueue, c.now_step (by simp)]
    exact (Task.dueOf_concat (t := ⟨k, n, job, .line⟩) hnew _).trans (Task.goneBy_of_line rfl)

/-- The time that a task is given for receiving begins when those before it in the line are gone,
which is when its own call began only if there are none. It has returned by the end of that time, with
a packet, with none, or with the end of the session. With nothing to receive and nobody given up, it
does not return before. -/
theorem received_when_due (before mid after : List Move) (job : Job) {n : Nat} {b : Tray}
    {s : Session} (hs : (run {} before).session? n = some s) (hjob : job.tray? = some b)
    (hstart : (run {} (before ++ .start n job :: mid)).task? (run {} before).nextTask =
      some ⟨(run {} before).nextTask, n, job, .start⟩)
    (hpunctual : Punctual {}
      (before ++ .start n job :: mid ++ .task (run {} before).nextTask :: after)) :
    let k := (run {} before).nextTask
    let joining := run {} (before ++ .start n job :: mid)
    let due := joining.free n b + atLatest job.limit?
    let c := (joining.step (.task k)).run after
    joining.now = (run {} before).now ∧
    (joining.lineFor n b = [] → due = (run {} before).now + atLatest job.limit?) ∧
    (∀ t, c.task? k = some t → c.now ≤ due) ∧
    (c.task? k = none → .cancel k ∉ after → ∃ result, (k, result) ∈ c.finished ∧ b.Returns result) ∧
    (c.task? k = none → (∀ j, .cancel j ∉ after) →
      (∀ ms, ms <+: after → ((joining.step (.task k)).run ms).Calm n b) → due ≤ c.now) := by
  intro k joining due c
  have hcalled : before ++ .start n job :: mid = before ++ [.start n job] ++ mid := List.append_cons ..
  have hsession := exists_session?_run ⟨s, hs⟩ (.start n job :: mid)
  have hnow : joining.now = (run {} before).now := by
    have hbefore := ((punctual_append _ _ _).mp hpunctual).1
    simp only [joining]
    rw [hcalled] at hbefore hstart ⊢
    rw [now_of_start (exists_session?_run ⟨s, hs⟩ _) ?_ hjob hbefore hstart, run_concat]
    · rfl
    · rw [run_concat]
      exact Nat.lt_succ_self _
  obtain ⟨s', hs'⟩ := hsession
  obtain ⟨hinLine, ⟨t, ht⟩, hdue⟩ := inLine_joined (lined_run n _) (distinct_new.run _) hs' hjob hstart
  have hrun : ∀ ms, (joining.step (.task k)).run ms =
      run {} (before ++ .start n job :: mid ++ [.task k] ++ ms) := by
    intro ms
    rw [run_append, run_concat]
  rw [← run_concat] at hinLine ht hdue
  rw [List.append_cons] at hpunctual
  refine ⟨hnow, ?_, ?_, ?_, ?_⟩
  · intro hnobody
    simp only [due, free, queue, hnobody, hnow, List.filterMap_nil, List.foldl_nil]
  · intro t' ht'
    simp only [c, hrun] at ht' ⊢
    have horderly := orderly_run hpunctual n b
    calc (_ : ℕ∞) ≤ _ := horderly.le_dueOf k
      _ ≤ _ := hinLine.leavesBy_run_le hpunctual ht'
      _ = due := hdue
  · intro hgone hkept
    simp only [c, hrun] at hgone ⊢
    exact hinLine.returns_run hkept ht hgone
  · intro hgone hkept hcalm
    simp only [c, hrun] at hgone hcalm ⊢
    have hle := (hinLine.le_leavesBy_run hpunctual hcalm hkept ht).2 hgone
    rwa [hdue] at hle

/-- One caller has a limit of one, and another one comes with a limit of two. -/
def briefly : List Move :=
  [.attach {}, .start 1 (.nextNotify (some 1)), .task 1, .task 1]

/-- The first caller is told at one that there is nothing, and the other one at three. -/
def inTurn : List Move :=
  [.pass 1, .task 1, .task 2, .pass 2, .task 2]

/-- Nothing comes to be received in the run `inTurn`. -/
theorem calm_inTurn (ms : List Move) (h : ms <+: inTurn) :
    (((run {} (briefly ++ [.start 1 (.nextNotify (some 2))])).step (.task 2)).run ms).Calm 1
      .notifies := by
  simp only [inTurn, List.prefix_cons_iff, List.prefix_nil] at h
  rcases h with rfl | ⟨_, rfl, rfl | ⟨_, rfl, rfl | ⟨_, rfl, rfl | ⟨_, rfl, rfl | ⟨_, rfl, rfl⟩⟩⟩⟩⟩
  all_goals
    rintro s ⟨⟩
    exact ⟨rfl, rfl⟩

/-- The second caller of `inTurn` is told at three, which is its limit of two after the first one is
gone. -/
theorem received_when_due_second :
    let joining := run {} (briefly ++ [.start 1 (.nextNotify (some 2))])
    let c := (joining.step (.task 2)).run inTurn
    Punctual {} (briefly ++ [.start 1 (.nextNotify (some 2))] ++ .task 2 :: inTurn) ∧
      joining.free 1 .notifies + atLatest (some 2) = 3 ∧ c.now = 3 ∧
      (∃ result, (2, result) ∈ c.finished ∧ Tray.Returns .notifies result) ∧ (3 : ℕ∞) ≤ c.now := by
  intro joining c
  have hpunctual : Punctual {} (briefly ++ [.start 1 (.nextNotify (some 2))] ++ .task 2 :: inTurn) := by
    decide
  have hdue : joining.free 1 .notifies + atLatest (some 2) = 3 := rfl
  obtain ⟨-, -, -, hreturns, hearliest⟩ :=
    received_when_due briefly [] inTurn (.nextNotify (some 2)) rfl rfl rfl hpunctual
  refine ⟨hpunctual, hdue, rfl, hreturns rfl (by simp [inTurn]), ?_⟩
  rw [← hdue]
  exact hearliest rfl (by simp [inTurn]) calm_inTurn

/-- A caller waits without limit, and another one comes with a limit of one. -/
def patiently : List Move :=
  [.attach {}, .start 1 (.nextNotify none), .task 1, .task 1]

/-- A limit does not hold for the time before a task is the first in line: a call with a limit of one
is still there after three, and will be as long as nothing happens. -/
theorem limit_overrun :
    let ms := patiently ++ [.start 1 (.nextNotify (some 1)), .task 2, .pass 3]
    Punctual {} ms ∧ (run {} patiently).now = 0 ∧ (run {} ms).now = 3 ∧
      (run {} ms).task? 2 = some ⟨2, 1, .nextNotify (some 1), .line⟩ := by
  refine ⟨by decide, rfl, rfl, rfl⟩

end Dbgp.Client
