import Dbgp.Proofs.LateCommands
import Dbgp.Proofs.Unwinding
import Dbgp.Proofs.WakeUp

/-!
# The end of a session is final

After the receiver of a session has ended, slots only become fewer, and whoever waits for a response is
awake and looks at its slot for the last time: it gets what is there, or is told that the session is
terminated. Whoever receives from a mailbox gets what is in it, in order, and is then told the same.
Neither waits for anything but its turn.

`Client.end_is_final` puts this together with what becomes of commands that come too late.
-/

namespace Dbgp

/-! ## Slots after the end -/

/-- `Slots.forget` leaves some of the slots and makes none. -/
theorem Slots.entries_forget_sublist (s : Slots) (t : UInt32) : (s.forget t).entries.Sublist s.entries :=
  List.filter_sublist

/-- A `Wait` makes no slot where slots are closed. -/
theorem Wait.Action.shrinks {now : Nat} {w : Wait} {s s' : Slots}
    {p : Progress Wait (Option Response)} (h : w.Action now s p s') (hclosed : s.closed = true) :
    s'.entries.Sublist s.entries := by
  cases h with
  | listened | woken | timedOut => exact List.Sublist.refl _
  | obtained | refused => exact s.entries_forget_sublist _
  | parked _ _ hopen => cases hopen.symm.trans hclosed

namespace Exchange

variable {task now : Nat} {x : Exchange} {s s' : Session} {p : Progress Exchange (Option Response)}

/-- `Exchange.release` makes no slot. -/
theorem entries_release_sublist (x : Exchange) (s : Session) :
    (x.release s).slots.entries.Sublist s.slots.entries := by
  rw [release]
  split
  · exact s.slots.entries_forget_sublist _
  · exact List.Sublist.refl _

/-- An `Exchange` makes no slot where slots are closed. -/
theorem Action.shrinks (h : x.Action task now s p s') (hclosed : s.slots.closed = true) :
    s'.slots.entries.Sublist s.slots.entries := by
  cases h with
  | expected _ hopen => cases hopen.symm.trans hclosed
  | waited _ hw => exact (Wait.acted hw).shrinks hclosed
  | refused _ hw | timedOut _ hw | obtained _ hw =>
    exact (x.entries_release_sublist _).trans ((Wait.acted hw).shrinks hclosed)
  | dead => exact x.entries_release_sublist _
  | ending _ hr =>
    rw [(EndRequest.acted hr).slots_eq]
  | ended _ hr =>
    have hslots := (EndRequest.acted hr).slots_eq
    exact (x.entries_release_sublist _).trans (by rw [hslots])
  | entered | turnedAway | unexpected | announced | begun | wrote | broke | sent | dropped =>
    exact List.Sublist.refl _

end Exchange

namespace Task

variable {now : Nat} {t : Task} {g g' : Ground} {p : Progress Phase Reply}

/-- No action of `Task.act` makes a slot where slots are closed. -/
theorem shrinks_act (h : t.act now g = some (p, g')) (hclosed : g.session.slots.closed = true) :
    g'.session.slots.entries.Sublist g.session.slots.entries := by
  cases acted h with
  | command _ hc =>
    cases hc with
    | negotiating _ hx | settled _ hx | exchanging _ hx | concluded _ hx =>
      exact (Exchange.acted hx).shrinks hclosed
    | queued | ready | passed | skipped | opened | prepared => exact List.Sublist.refl _
  | expected _ hopen => cases hopen.symm.trans hclosed
  | forgot => exact Slots.entries_forget_sublist _ _
  | waited _ _ hw | answered _ _ hw => exact (Wait.acted hw).shrinks hclosed
  | ending _ _ hr | ended _ _ hr => rw [(EndRequest.acted hr).slots_eq]
  | mailed | unexpected | awaiting | terminating | sawEnd => exact List.Sublist.refl _

/-- `Task.abandon` makes no slot. -/
theorem shrinks_abandon (t : Task) (s : Session) :
    (t.abandon s).slots.entries.Sublist s.slots.entries := by
  cases hx : t.phase.exchange? with
  | none => rw [slots_abandon_of_none hx]
  | some x =>
    rw [slots_abandon_of_some hx, Exchange.abandon]
    split
    · exact List.Sublist.refl _
    · exact List.Sublist.refl _
    · exact x.entries_release_sublist _

end Task

/-- The receiver has `ended`, and of its slots these or fewer are left. -/
structure Session.LeftWith (entries : List (UInt32 × Option Response)) (s : Session) : Prop where
  ended : s.receiver = .ended
  closed : s.slots.closed = true
  entries : s.slots.entries.Sublist entries

/-- After the receiver has `ended`, slots are only given up: `LeftWith` is `Lasting`. -/
theorem Client.lasting_leftWith (entries : List (UInt32 × Option Response)) :
    Lasting (Session.LeftWith entries) where
  beside hbeside h := by
    cases hbeside
    exact ⟨h.ended, h.closed, h.entries⟩
  mailed _ _ h := ⟨h.ended, h.closed, h.entries⟩
  received hstep h := by
    rw [Session.receiverStep, h.ended] at hstep
    cases hstep
  acted hact h := by
    have hspared := Task.spared_act hact
    exact ⟨hspared.receiver_eq.trans h.ended, hspared.slots_closed.trans h.closed,
      (Task.shrinks_act hact h.closed).trans h.entries⟩
  abandoned t s h := by
    have hspared := t.spared_abandon s
    exact ⟨hspared.receiver_eq.trans h.ended, hspared.slots_closed.trans h.closed,
      (t.shrinks_abandon s).trans h.entries⟩

/-! ## Waits after the end -/

/-- How many actions a `Wait` that is awake has before it looks at its slot. -/
def WaitStep.toLook : WaitStep → Nat
  | .look _ => 0
  | .listen => 1
  | .sleep _ => 2

/-- What a `Wait` comes to where slots are closed: the response in its slot, if there is one, and else
`terminated`. -/
def Slots.verdict (s : Slots) (t : UInt32) : Except Error Response :=
  match s.get? t with
  | some (some r) => .ok r
  | _ => .error .terminated

/-- The `verdict` where there is a response in the slot. -/
theorem Slots.verdict_of_full {s : Slots} {t : UInt32} {r : Response}
    (h : s.get? t = some (some r)) : s.verdict t = .ok r := by
  rw [verdict, h]

/-- The `verdict` where there is none. -/
theorem Slots.verdict_of_not_full {s : Slots} {t : UInt32} (h : ∀ r, s.get? t ≠ some (some r)) :
    s.verdict t = .error .terminated := by
  rw [verdict]
  split
  · next r hr => exact absurd hr (h r)
  · rfl

/-- A wait that is awake does not fall asleep again where slots are closed: it comes nearer to its
look, or ends with `Slots.verdict`. -/
theorem Wait.act_shut (now : Nat) {w : Wait} {s : Slots} (hclosed : s.closed = true)
    (hawake : w.step ≠ .sleep s.rung) :
    (∃ w' s', w.act now s = some (.ongoing w', s') ∧ w'.transaction = w.transaction ∧
        w'.step.toLook < w.step.toLook) ∨
      ∃ s', w.act now s = some (.finished (some <$> s.verdict w.transaction), s') := by
  cases hstep : w.step with
  | listen =>
    refine .inl ⟨{ w with step := .look s.rung }, s, ?_, rfl, Nat.zero_lt_one⟩
    rw [act, hstep]
  | look heard =>
    refine .inr ⟨s.forget w.transaction, ?_⟩
    rw [act, hstep]
    have hlook := s.looked w.transaction
    generalize s.look w.transaction = found at hlook
    cases hlook with
    | found hr =>
      rw [Slots.verdict_of_full hr]
      rfl
    | closed hnone =>
      rw [Slots.verdict_of_not_full hnone]
      rfl
    | empty _ hopen => cases hopen.symm.trans hclosed
  | sleep heard =>
    have hrung : s.rung ≠ heard := by
      rintro rfl
      exact hawake hstep
    refine .inl ⟨{ w with step := .listen }, s, ?_, rfl, Nat.one_lt_two⟩
    rw [act, hstep]
    simp only [hrung, ne_eq, not_false_eq_true, if_true]

/-- The same of the `Wait` of an exchange. -/
theorem Exchange.act_shut (task now : Nat) {x : Exchange} {s : Session} {w : Wait}
    (hw : x.phase = .await w) (hclosed : s.slots.closed = true)
    (hawake : w.step ≠ .sleep s.slots.rung) :
    (∃ w' s', x.act task now s = some (.ongoing { x with phase := .await w' }, s') ∧
        w'.transaction = w.transaction ∧ w'.step.toLook < w.step.toLook) ∨
      ∃ s', x.act task now s =
        some (.finished (s.slots.verdict w.transaction >>= fun r => some <$> r.check), s') := by
  obtain ⟨w', slots, hact, htransaction, hlt⟩ | ⟨slots, hact⟩ := w.act_shut now hclosed hawake
  · refine .inl ⟨w', { s with slots }, ?_, htransaction, hlt⟩
    simp only [act, hw, hact]
    rfl
  · cases hverdict : s.slots.verdict w.transaction with
    | error e =>
      rw [hverdict] at hact
      refine .inr ⟨x.release { s with slots }, ?_⟩
      simp only [act, hw, hact, Functor.map, Except.map]
      rfl
    | ok r =>
      rw [hverdict] at hact
      refine .inr ⟨x.release { s with slots }, ?_⟩
      simp only [act, hw, hact, Functor.map, Except.map]
      rfl

/-- Whether a task is at the `negotiate` ahead of its command. -/
def Phase.isNegotiating : Phase → Bool
  | .negotiate _ => true
  | _ => false

namespace Task

/-- What a `Task` reports once it has got a response, or else an error. -/
def report (t : Task) (verdict : Except Error Response) : Except Error Reply :=
  match t.job with
  | .command c => verdict >>= fun r => r.check >>= c.read
  | _ => (fun r => .response (some r)) <$> verdict

/-- How a task goes on when its wait is over: from the negotiation it goes to its own request, and
otherwise it reports (`report`). -/
def upshot (t : Task) (verdict : Except Error Response) : Progress Phase Reply :=
  if t.phase.isNegotiating then .ongoing .prepare else .finished (t.report verdict)

/-- What `Command.conclude` makes of a verdict: the response is checked and then read. -/
theorem conclude_bind (c : Command) (verdict : Except Error Response) :
    c.conclude (verdict >>= fun r => some <$> r.check) = verdict >>= fun r => r.check >>= c.read := by
  cases verdict with
  | error e => rfl
  | ok r => exact c.conclude_check r

/-- A command whose exchange is over is over with what `Command.conclude` makes of it. -/
theorem actCommand_of_finished {task now : Nat} {c : Command} {x : Exchange} {g : Ground}
    {result : Except Error (Option Response)} {s : Session}
    (h : x.act task now g.session = some (.finished result, s)) :
    actCommand task now c (.exchange x) g =
      some (.finished (c.conclude result), { g with session := s }) := by
  simp only [actCommand, h]
  rcases result with e | _ | r <;> rfl

/-- A task that is awake goes on waiting for few actions (`WaitStep.toLook`), and then gets what is in
its slot. -/
theorem act_shut (now : Nat) {t : Task} {g : Ground} {w : Wait} (hw : t.phase.wait? = some w)
    (hcalled : ∀ x, t.phase.exchange? = some x → ∃ c, t.job = .command c)
    (hraw : ∀ w, t.phase = .await w → ∃ u limit, t.job = .awaitResponse u limit)
    (hclosed : g.session.slots.closed = true) (hawake : w.step ≠ .sleep g.session.slots.rung) :
    (∃ phase w' g', t.act now g = some (.ongoing phase, g') ∧
        phase.isNegotiating = t.phase.isNegotiating ∧ phase.wait? = some w' ∧
        w'.transaction = w.transaction ∧ w'.step.toLook < w.step.toLook) ∨
      ∃ g', t.act now g = some (t.upshot (g.session.slots.verdict w.transaction), g') := by
  obtain ⟨k, n, job, phase⟩ := t
  cases phase with
  | negotiate x =>
    obtain ⟨c, rfl⟩ := hcalled x rfl
    have hx : x.phase = .await w := by
      cases hphase : x.phase <;> simp_all [Phase.wait?, Exchange.wait?]
    obtain ⟨w', s', hact, htransaction, hlt⟩ | ⟨s', hact⟩ := x.act_shut k now hx hclosed hawake
    · refine .inl ⟨.negotiate { x with phase := .await w' }, w', { g with session := s' }, ?_, rfl, rfl,
        htransaction, hlt⟩
      simp only [act, actCommand, hact]
      rfl
    · refine .inr ⟨{ g with session := s'.negotiated k }, ?_⟩
      simp only [act, actCommand, hact]
      rfl
  | exchange x =>
    obtain ⟨c, rfl⟩ := hcalled x rfl
    have hx : x.phase = .await w := by
      cases hphase : x.phase <;> simp_all [Phase.wait?, Exchange.wait?]
    obtain ⟨w', s', hact, htransaction, hlt⟩ | ⟨s', hact⟩ := x.act_shut k now hx hclosed hawake
    · refine .inl ⟨.exchange { x with phase := .await w' }, w', { g with session := s' }, ?_, rfl, rfl,
        htransaction, hlt⟩
      simp only [act, actCommand, hact]
      rfl
    · refine .inr ⟨{ g with session := s' }, ?_⟩
      have hconclude := actCommand_of_finished (c := c) hact
      rw [conclude_bind] at hconclude
      exact hconclude
  | await w₀ =>
    cases hw
    obtain ⟨u, limit, rfl⟩ := hraw w rfl
    obtain ⟨w', slots, hact, htransaction, hlt⟩ | ⟨slots, hact⟩ := w.act_shut now hclosed hawake
    · refine .inl ⟨.await w', w', { g with session := { g.session with slots } }, ?_, rfl, rfl,
        htransaction, hlt⟩
      simp only [act, hact]
      rfl
    · refine .inr ⟨{ g with session := { g.session with slots } }, ?_⟩
      simp only [act, hact]
      cases g.session.slots.verdict w.transaction <;> rfl
  | start | cell | prepare | line | receive _ | finish _ => cases hw

end Task

namespace Client

variable {c c' : Client} {m : Move} {n k : Nat} {t : Task} {s : Session} {w : Wait} {ms : List Move}

/-- A task that others act beside stays as it is, by the `Outcome` of their moves. -/
theorem Outcome.task?_eq (h : Outcome c m c') (hk : c.task? k = some t) (htask : m ≠ .task k)
    (hcancel : m ≠ .cancel k) : c'.task? k = some t := by
  cases h with
  | aside hsame =>
    obtain hsame | ⟨hnone, -⟩ := hsame k
    · exact hsame.trans hk
    · cases hnone.symm.trans hk
  | received _ _ _ hsame | forwarded _ _ hsame => exact (hsame k).trans hk
  | acted hm _ _ _ hsame =>
    rw [hsame, if_neg (by rintro rfl; exact htask hm)]
    exact hk
  | abandoned hm _ hsame =>
    rw [hsame, if_neg (by rintro rfl; exact hcancel hm)]
    exact hk

/-- What the action of a task does by which it stops to wait, with its `verdict`. -/
structure StopsWaiting (k : Nat) (t : Task) (verdict : Except Error Response) (c c' : Client) : Prop where
  task : c'.task? k = (t.upshot verdict).ongoing?.map fun phase => { t with phase }
  finished : c'.finished =
    c.finished ++ ((t.upshot verdict).result?.map fun result => (k, result)).toList

/-- For `StopsWaiting` only the kind of phase matters. -/
theorem StopsWaiting.of_like {phase : Phase} {verdict : Except Error Response}
    (h : StopsWaiting k { t with phase } verdict c c')
    (hkind : phase.isNegotiating = t.phase.isNegotiating) : StopsWaiting k t verdict c c' := by
  have hupshot : ({ t with phase } : Task).upshot verdict = t.upshot verdict := by
    simp only [Task.upshot, Task.report, hkind]
  obtain ⟨htask, hfinished⟩ := h
  rw [hupshot] at htask hfinished
  exact ⟨htask, hfinished⟩

/-- After the receiver has `ended` nobody sleeps: the bell has been rung since the slots were
closed. -/
theorem awake_of_ended (hs : (run {} ms).session? n = some s) (hended : s.receiver = .ended)
    (hk : (run {} ms).task? k = some t) (hn : t.session = n) (hw : t.phase.wait? = some w) :
    w.step ≠ .sleep s.slots.rung := by
  intro hasleep
  have hwatchful : (run {} ms).Watchful (fun slot => ∀ r, slot ≠ some (some r)) n :=
    watchful_run (by simp) (by simp) (.inl (by simp))
  obtain ⟨s', hs', hattentive⟩ := hwatchful k t w hk hn hw
  cases hs.symm.trans hs'
  obtain (hring | ⟨failure, hring⟩) | ⟨hopen, -⟩ := hattentive.asleep hasleep
  · cases hended.symm.trans hring
  · cases hended.symm.trans hring
  · cases hopen.symm.trans ((unwound_run hs).of_ended hended).2.2.1

/-- An action after the end brings a wait nearer to its last look (`WaitStep.toLook`), or is that
look. -/
theorem wait_advances (hs : (run {} ms).session? n = some s) (hended : s.receiver = .ended)
    (hk : (run {} ms).task? k = some t) (hn : t.session = n) (hw : t.phase.wait? = some w) :
    (∃ phase w', (run {} (ms ++ [.task k])).task? k = some { t with phase } ∧
        phase.isNegotiating = t.phase.isNegotiating ∧ phase.wait? = some w' ∧
        w'.transaction = w.transaction ∧ w'.step.toLook < w.step.toLook) ∨
      StopsWaiting k t (s.slots.verdict w.transaction) (run {} ms) (run {} (ms ++ [.task k])) := by
  have hclosed := ((unwound_run hs).of_ended hended).2.2.1
  have hawake := awake_of_ended hs hended hk hn hw
  subst hn
  rw [run_concat]
  obtain ⟨phase, w', g, hact, hkind, hw', htransaction, hlt⟩ | ⟨g, hact⟩ :=
    Task.act_shut (run {} ms).now (g := ⟨(run {} ms).nextTransaction, s⟩) hw
      (fun x hx => (sound_run hk x hx).1) (fun w hw => job_of_await hk hw) hclosed hawake
  · exact .inl ⟨phase, w', task?_task hk hs hact, hkind, hw', htransaction, hlt⟩
  · exact .inr ⟨task?_task hk hs hact, finished_task hk hs hact⟩

/-- The `Move` is an action of a task. -/
def Move.isTask (k : Nat) : Move → Bool
  | .task j => j == k
  | _ => false

/-- After the receiver has `ended` a wait is over as soon as the task has acted often enough to look
at its slot, by `toLook`, whatever else happens, unless the task is given up. -/
theorem wait_ends {later : List Move} (hs : (run {} ms).session? n = some s)
    (hended : s.receiver = .ended) (hk : (run {} ms).task? k = some t) (hn : t.session = n)
    (hw : t.phase.wait? = some w) (hkept : .cancel k ∉ later)
    (hcount : w.step.toLook < later.countP (Move.isTask k)) :
    ∃ l₁ l₂ s₁, later = l₁ ++ .task k :: l₂ ∧ (run {} (ms ++ l₁)).session? n = some s₁ ∧
      StopsWaiting k t (s₁.slots.verdict w.transaction) (run {} (ms ++ l₁))
        (run {} (ms ++ l₁ ++ [.task k])) := by
  induction later generalizing ms t w s with
  | nil => cases hcount
  | cons m later ih =>
    have hclosed := ((unwound_run hs).of_ended hended).2.2.1
    obtain ⟨s', hs', hleft⟩ := (lasting_leftWith s.slots.entries).outcome ((run {} ms).outcome m)
      ⟨s, hs, hended, hclosed, List.Sublist.refl _⟩
    rw [← run_concat] at hs'
    rw [List.mem_cons, not_or] at hkept
    obtain ⟨hcancel, hrest⟩ := hkept
    -- A wait that goes on after the move is over in what follows.
    have hlater : ∀ {phase w'}, phase.isNegotiating = t.phase.isNegotiating →
        w'.transaction = w.transaction → (run {} (ms ++ [m])).task? k = some { t with phase } →
        phase.wait? = some w' → w'.step.toLook < later.countP (Move.isTask k) →
        ∃ l₁ l₂ s₁, m :: later = l₁ ++ .task k :: l₂ ∧ (run {} (ms ++ l₁)).session? n = some s₁ ∧
          StopsWaiting k t (s₁.slots.verdict w.transaction) (run {} (ms ++ l₁))
            (run {} (ms ++ l₁ ++ [.task k])) := by
      intro phase w' hkind htransaction ht' hw' hcount'
      obtain ⟨l₁, l₂, s₁, rfl, hs₁, hstops⟩ := ih hs' hleft.ended ht' hn hw' hrest hcount'
      rw [htransaction, ← List.append_cons] at hstops
      exact ⟨m :: l₁, l₂, s₁, rfl, by rw [List.append_cons]; exact hs₁, hstops.of_like hkind⟩
    by_cases hm : m = .task k
    · subst hm
      have hown : (Move.task k :: later).countP (Move.isTask k) =
          later.countP (Move.isTask k) + 1 := List.countP_cons_of_pos (by simp [Move.isTask])
      obtain ⟨phase, w', ht', hkind, hw', htransaction, hlt⟩ | hstops :=
        wait_advances hs hended hk hn hw
      · exact hlater hkind htransaction ht' hw' (by omega)
      · exact ⟨[], later, s, rfl, by simpa using hs, by simpa using hstops⟩
    · have hother : (m :: later).countP (Move.isTask k) = later.countP (Move.isTask k) := by
        refine List.countP_cons_of_neg fun h => hm ?_
        unfold Move.isTask at h
        split at h
        · rw [eq_of_beq h]
        · cases h
      have ht' := ((run {} ms).outcome m).task?_eq hk hm (Ne.symm hcancel)
      rw [← run_concat] at ht'
      exact @hlater t.phase w rfl rfl ht' hw (by omega)

end Client

/-! ## Mail after the end -/

namespace Mail

/-- What comes of receiving from a closed mailbox with these replies in it: the first of them, or
`terminated`. -/
def first : List Reply → Except Error Reply
  | r :: _ => .ok r
  | [] => .error .terminated

/-- What comes of receiving from it so many times, by `first` each time. -/
def served (held : List Reply) : Nat → List (Except Error Reply)
  | 0 => []
  | count + 1 => first held :: served held.tail count

/-- Receiving some times, and then some more, as `served` counts it. -/
theorem served_add (held : List Reply) (i j : Nat) :
    served held (i + j) = served held i ++ served (held.drop i) j := by
  induction i generalizing held with
  | zero => rw [Nat.zero_add, served, List.nil_append, List.drop_zero]
  | succ i ih =>
    rw [Nat.succ_add, served, served, ih, List.cons_append, List.drop_tail]

end Mail

/-- How many actions a task that receives has left at most, by its `Phase`. -/
def Phase.toReceive : Phase → Nat
  | .start => 3
  | .line => 2
  | .receive _ => 1
  | _ => 0

/-- The phases that `actReceive` goes through. -/
def Phase.IsMail (phase : Phase) : Prop :=
  phase = .start ∨ phase = .line ∨ ∃ deadline, phase = .receive deadline

namespace Task

variable {now : Nat} {t : Task} {g g' : Ground} {p : Progress Phase Reply} {b : Tray}

/-- A task that receives from a closed mailbox goes to the line, then to the mailbox, and then gets
what is `first` in it. -/
theorem MailAction.shut {task : Nat} {limit : Option Nat} {phase : Phase} {held held' : List Reply}
    {turn turn' : Turn} (h : MailAction task now limit phase held true turn p held' turn') :
    (phase = .start ∧ p = .ongoing .line ∧ turn' = turn.join task ∧ held' = held) ∨
      (phase = .line ∧ (∃ deadline, p = .ongoing (.receive deadline)) ∧ held' = held) ∨
      p = .finished (Mail.first held) ∧ held' = held.tail := by
  cases h with
  | joined hphase => exact .inl ⟨hphase, rfl, rfl, rfl⟩
  | called hphase => exact .inr (.inl ⟨hphase, ⟨_, rfl⟩, rfl⟩)
  | took _ hheld | refused _ hheld =>
    subst hheld
    exact .inr (.inr ⟨rfl, rfl⟩)
  | timedOut _ _ hopen => cases hopen

/-- A task that receives goes on receiving (`Phase.IsMail`). -/
theorem MailAction.isMail {task : Nat} {limit : Option Nat} {phase phase' : Phase}
    {held held' : List Reply} {shut : Bool} {turn turn' : Turn}
    (h : MailAction task now limit phase held shut turn (.ongoing phase') held' turn') :
    phase'.IsMail := by
  cases h with
  | joined => exact .inr (.inl rfl)
  | called => exact .inr (.inr ⟨_, rfl⟩)

/-- At a closed mailbox `actReceive` is stuck only before its turn. -/
theorem actReceive_stuck {task : Nat} {limit : Option Nat} {phase : Phase} {box : Mailbox α}
    {put : Mailbox α → Session} {reply : Option α → Reply} (hphase : phase.IsMail)
    (hclosed : box.closed = true)
    (hstuck : actReceive task now limit phase box put reply g = none) :
    phase = .line ∧ box.turn.isHeldBy task = false := by
  obtain rfl | rfl | ⟨deadline, rfl⟩ := hphase
  · cases hstuck
  · rw [actReceive] at hstuck
    split at hstuck
    · cases hstuck
    · next hheld => exact ⟨rfl, by simpa using hheld⟩
  · simp only [actReceive, Mailbox.look] at hstuck
    cases hitems : box.items with
    | nil =>
      simp only [hitems, hclosed, if_true] at hstuck
      cases hstuck
    | cons a rest =>
      simp only [hitems] at hstuck
      cases hstuck

/-- Only the `line` for it keeps a task from a closed mailbox. -/
theorem act_mail_stuck (hjob : t.job.tray? = some b) (hphase : t.phase.IsMail)
    (hshut : g.session.isShut b = true) (hstuck : t.act now g = none) :
    t.phase = .line ∧ (g.session.turnFor (.mail b)).isHeldBy t.id = false := by
  rw [act] at hstuck
  cases hj : t.job with
  | nextNotify limit | nextOutput limit =>
    rw [hj] at hjob hstuck
    cases hjob
    exact actReceive_stuck hphase hshut hstuck
  | command _ | expectResponse _ | forgetResponse _ | awaitResponse _ _ | terminate | awaitEnd =>
    rw [hj] at hjob
    cases hjob

/-- `Task.abandon` takes no packet and closes no mailbox. -/
theorem held_abandon (t : Task) (s : Session) (b : Tray) :
    (t.abandon s).held b = s.held b ∧ (t.abandon s).isShut b = s.isShut b := by
  have hexchanged : ∀ x : Exchange, (x.abandon t.id s).held b = s.held b ∧
      (x.abandon t.id s).isShut b = s.isShut b := fun x =>
    ⟨((Session.sameMail_of_exchanged (x.exchanged_abandon t.id s)).mail b).1,
      ((Session.sameMail_of_exchanged (x.exchanged_abandon t.id s)).mail b).2.1⟩
  cases hphase : t.phase with
  | negotiate x =>
    rw [abandon, hphase]
    cases b <;> exact hexchanged x
  | exchange x =>
    rw [abandon, hphase]
    exact hexchanged x
  | start | cell | prepare | line | receive _ | await _ | finish _ =>
    rw [abandon, hphase]
    cases b <;> exact ⟨rfl, rfl⟩

end Task

namespace Client

variable {c c' : Client} {m : Move} {n k : Nat} {t : Task} {s : Session} {b : Tray} {ms : List Move}

/-- The results of tasks that receive from a mailbox of a session, as they come into `finished`. -/
def receipts (n : Nat) (b : Tray) (c : Client) : Move → List (Except Error Reply)
  | .task k =>
    match c.task? k with
    | some t =>
      if t.session = n ∧ t.job.tray? = some b then
        ((c.step (.task k)).finished.drop c.finished.length).map (·.2)
      else []
    | none => []
  | _ => []

/-- A mailbox after a move: so many replies have been handed out, as `served` says. -/
structure HandedOut (n : Nat) (b : Tray) (s : Session) (results : List (Except Error Reply))
    (c : Client) : Prop where
  inOrder : results = Mail.served (s.held b) results.length
  session : ∃ s', c.session? n = some s' ∧ s'.receiver = .ended ∧ s'.isShut b = true ∧
    s'.held b = (s.held b).drop results.length

/-- `HandedOut` holds of nothing, where the mailbox holds what it held. -/
theorem handedOut_nil {s' : Session} (hs' : c.session? n = some s') (hended : s'.receiver = .ended)
    (hshut : s'.isShut b = true) (hheld : s'.held b = s.held b) : c.HandedOut n b s [] :=
  ⟨rfl, s', hs', hended, hshut, hheld⟩

/-- Where no task is over there are no `receipts`. -/
theorem receipts_eq_nil (h : (c.step m).finished <:+ c.finished) : c.receipts n b m = [] := by
  cases m with
  | task k =>
    rw [receipts]
    split
    · split
      · rw [List.drop_eq_nil_of_le h.length_le]
        rfl
      · rfl
    · rfl
  | _ => rfl

/-- The `receipts` of a move are the result of the task that acts, if it receives from the mailbox and
is over. -/
theorem receipts_task {p : Progress Phase Reply} {g : Ground} (hk : c.task? k = some t)
    (hs : c.session? t.session = some s)
    (hact : t.act c.now ⟨c.nextTransaction, s⟩ = some (p, g)) : c.receipts n b (.task k) =
      if t.session = n ∧ t.job.tray? = some b then p.result?.toList else [] := by
  rw [receipts, hk]
  simp only [finished_task hk hs hact, List.drop_left]
  cases p.result? <;> rfl

/-- Each task that receives after the end gets the next reply (`HandedOut`). -/
theorem handedOut_step (hs : c.session? n = some s) (hended : s.receiver = .ended)
    (hshut : s.isShut b = true) (m : Move) :
    (c.step m).HandedOut n b s (c.receipts n b m) := by
  by_cases hpass : ∃ millis, m = .pass millis
  · obtain ⟨millis, rfl⟩ := hpass
    exact handedOut_nil hs hended hshut rfl
  have houtcome := c.outcome m
  cases houtcome with
  | aside _ hsession hfinished =>
    rw [receipts_eq_nil hfinished]
    have hpassed := hsession n
    rw [hs] at hpassed
    generalize hs' : (c.step m).session? n = o at hpassed
    cases hpassed with
    | beside hbeside =>
      cases hbeside
      exact handedOut_nil hs' hended (by cases b <;> exact hshut) (by cases b <;> rfl)
  | @received j s₀ s₁ _ hs₀ hstep _ hsession hfinished =>
    rw [receipts_eq_nil hfinished]
    refine handedOut_nil ?_ hended hshut rfl
    rw [hsession, if_neg]
    · exact hs
    · rintro rfl
      cases hs.symm.trans hs₀
      rw [Session.receiverStep, hended] at hstep
      cases hstep
  | @acted k t s₀ p g hm hk hs₀ hact _ hsession _ =>
    subst hm
    rw [receipts_task hk hs₀ hact]
    by_cases hn : n = t.session
    · subst hn
      cases hs.symm.trans hs₀
      have hended' : g.session.receiver = .ended := (Task.spared_act hact).receiver_eq.trans hended
      have hs' : (c.step (.task k)).session? t.session = some g.session := by
        rw [hsession, if_pos rfl]
      by_cases hb : t.job.tray? = some b
      · obtain ⟨⟨limit, haction⟩, hshut', -⟩ := Task.acted_mail hb hact
        rw [if_pos ⟨rfl, hb⟩]
        rw [hshut] at haction hshut'
        obtain ⟨-, rfl, -, hheld⟩ | ⟨-, ⟨deadline, rfl⟩, hheld⟩ | ⟨rfl, hheld⟩ := haction.shut
        · exact handedOut_nil hs' hended' hshut' hheld
        · exact handedOut_nil hs' hended' hshut' hheld
        · exact ⟨rfl, g.session, hs', hended', hshut', hheld.trans List.drop_one.symm⟩
      · obtain ⟨hheld, hshut', -⟩ := Task.mail_act hb hact
        rw [if_neg fun h => hb h.2]
        exact handedOut_nil hs' hended' (hshut'.trans hshut) hheld
    · rw [if_neg fun h => hn h.1.symm]
      refine handedOut_nil ?_ hended hshut rfl
      rw [hsession, if_neg hn]
      exact hs
  | @abandoned k t _ _ _ hsession hfinished =>
    rw [receipts_eq_nil hfinished]
    have hs' := hsession n
    split at hs'
    · rw [hs, Option.map_some] at hs'
      obtain ⟨hheld, hshut'⟩ := t.held_abandon s b
      exact handedOut_nil hs' ((t.spared_abandon s).receiver_eq.trans hended) (hshut'.trans hshut)
        hheld
    · exact handedOut_nil (hs'.trans hs) hended hshut rfl
  | forwarded hm => exact absurd ⟨0, hm⟩ hpass

/-- After the receiver has `ended`, what tasks receive is what is in the mailbox, in order, and then
that the session is terminated. -/
theorem handedOut_run (hs : c.session? n = some s) (hended : s.receiver = .ended)
    (hshut : s.isShut b = true) (later : List Move) :
    (c.run later).HandedOut n b s (c.trace (receipts n b) later) := by
  induction later generalizing c s with
  | nil => exact handedOut_nil hs hended hshut rfl
  | cons m later ih =>
    obtain ⟨hresults, s', hs', hended', hshut', hheld⟩ := handedOut_step hs hended hshut m
    obtain ⟨hresults', s'', hs'', hended'', hshut'', hheld'⟩ := ih hs' hended' hshut'
    rw [trace]
    refine ⟨?_, s'', hs'', hended'', hshut'', ?_⟩
    · rw [List.length_append, Mail.served_add, ← hresults, ← hheld, ← hresults']
    · rw [List.length_append, hheld', hheld, List.drop_drop]

/-- A task that receives is always at one of `Phase.IsMail`. -/
theorem isMail_of_tray (hk : (run {} ms).task? k = some t) (htray : t.job.tray? = some b) :
    t.phase.IsMail := by
  refine task_invariant (Q := fun t => ∀ b, t.job.tray? = some b → t.phase.IsMail)
    (K := fun _ => True) (fun _ _ _ _ _ _ => .inl rfl) ?_ (by simp) hk b htray
  intro now t g g' phase _ hact b htray
  obtain ⟨⟨limit, haction⟩, -⟩ := Task.acted_mail (t := t) htray hact
  exact haction.isMail

/-- After the end a task that receives can act, unless it is behind another one in the `line`; and
then the one at the head of the line can act. -/
theorem exists_act_mail (hs : (run {} ms).session? n = some s) (hshut : s.isShut b = true)
    (hk : (run {} ms).task? k = some t) (hn : t.session = n) (htray : t.job.tray? = some b)
    (hstuck : t.act (run {} ms).now ⟨(run {} ms).nextTransaction, s⟩ = none) :
    t.phase = .line ∧ ∃ j t', j ≠ k ∧ (s.turnFor (.mail b)).isHeldBy j = true ∧
      (run {} ms).task? j = some t' ∧ t'.session = n ∧ t'.job.tray? = some b ∧
      t'.act (run {} ms).now ⟨(run {} ms).nextTransaction, s⟩ ≠ none := by
  obtain ⟨hphase, hheld⟩ := Task.act_mail_stuck htray (isMail_of_tray hk htray) hshut hstuck
  obtain ⟨j, t', hj, ht', hn', htray', -⟩ :=
    exists_head (l := .mail b) hs hk hn ⟨htray, .inl hphase⟩
  refine ⟨hphase, j, t', ?_, hj, ht', hn', htray', fun hstuck' => ?_⟩
  · rintro rfl
    rw [id_of_task? hk, hj] at hheld
    cases hheld
  · obtain ⟨-, hheld'⟩ := Task.act_mail_stuck htray' (isMail_of_tray ht' htray') hshut hstuck'
    rw [id_of_task? ht', hj] at hheld'
    cases hheld'

/-- A task that nobody is before in the line gets the `first` reply after few actions. -/
theorem receives_alone {d : Nat} (hs : c.session? n = some s) (hshut : s.isShut b = true)
    (hk : c.task? k = some t) (hn : t.session = n) (htray : t.job.tray? = some b)
    (hphase : t.phase.IsMail) (hstart : t.phase = .start → (s.turnFor (.mail b)).line = [])
    (hline : t.phase = .line → (s.turnFor (.mail b)).isHeldBy k = true)
    (hd : t.phase.toReceive ≤ d) :
    (k, Mail.first (s.held b)) ∈ (c.run (List.replicate d (.task k))).finished := by
  induction d generalizing c t s with
  | zero => obtain h | h | ⟨deadline, h⟩ := hphase <;> rw [h] at hd <;> cases hd
  | succ d ih =>
    have hrun : c.run (List.replicate (d + 1) (.task k)) =
        (c.step (.task k)).run (List.replicate d (.task k)) := rfl
    rw [hrun]
    subst hn
    cases hact : t.act c.now ⟨c.nextTransaction, s⟩ with
    | none =>
      obtain ⟨hphase', hheld⟩ := Task.act_mail_stuck htray hphase hshut hact
      rw [id_of_task? hk, hline hphase'] at hheld
      cases hheld
    | some next =>
      obtain ⟨p, g⟩ := next
      obtain ⟨⟨limit, haction⟩, hshut', -⟩ := Task.acted_mail htray hact
      rw [hshut] at haction hshut'
      obtain ⟨hphase', rfl, hturn, hheld⟩ | ⟨hphase', ⟨deadline, rfl⟩, hheld⟩ | ⟨rfl, -⟩ := haction.shut
      · obtain ⟨hat, -⟩ := (⟨hk, hs⟩ : c.At k t s).step hact
        rw [← hheld]
        refine ih hat.session hshut' hat.task rfl htray (.inr (.inl rfl)) (by simp) (fun _ => ?_) ?_
        · rw [hturn, Turn.isHeldBy_iff, Turn.join, hstart hphase', id_of_task? hk]
          rfl
        · rw [hphase'] at hd
          exact Nat.le_of_succ_le_succ hd
      · obtain ⟨hat, -⟩ := (⟨hk, hs⟩ : c.At k t s).step hact
        rw [← hheld]
        refine ih hat.session hshut' hat.task rfl htray (.inr (.inr ⟨deadline, rfl⟩)) (by simp)
          (by simp) ?_
        rw [hphase'] at hd
        exact Nat.le_of_succ_le_succ hd
      · refine finished_subset_alone _ k d ?_
        rw [finished_task hk hs hact]
        simp [Progress.result?]

/-! ## All together -/

/-- What becomes of a `Command` that is started at the end of a run, on a session that is ending. -/
structure TooLate (ms : List Move) (n : Nat) (s : Session) (cmd : Command) : Prop where
  /-- Whatever follows, it reports nothing else. -/
  verdict : ∀ later r, ((run {} ms).nextTask, r) ∈
    (run {} (ms ++ .start n (.command cmd) :: later)).finished → r = .error .terminated
  /-- Its actions touch nothing of any session but the negotiation. -/
  untouched : ∀ later j s', (run {} (ms ++ .start n (.command cmd) :: later)).session? j = some s' →
    ∃ negotiation, ((run {} (ms ++ .start n (.command cmd) :: later)).step
      (.task (run {} ms).nextTask)).session? j = some { s' with negotiation }
  /-- Each of its actions brings it nearer to its end. It cannot act only if somebody else is before it
  in the line for the negotiation. -/
  progress : ∀ later t s', (run {} (ms ++ .start n (.command cmd) :: later)).task?
      (run {} ms).nextTask = some t →
    (run {} (ms ++ .start n (.command cmd) :: later)).session? n = some s' →
    ((run {} ms).nextTask, .error .terminated) ∈ ((run {} (ms ++ .start n (.command cmd) :: later)).step
        (.task (run {} ms).nextTask)).finished ∨
      (∃ phase, phase.toGo < t.phase.toGo ∧ ((run {} (ms ++ .start n (.command cmd) :: later)).step
        (.task (run {} ms).nextTask)).task? (run {} ms).nextTask = some { t with phase }) ∨
      t.phase = .cell ∧ s'.negotiation.settled = false ∧ ∃ j t', j ≠ (run {} ms).nextTask ∧
        s'.negotiation.turn.isHeldBy j = true ∧
        (run {} (ms ++ .start n (.command cmd) :: later)).task? j = some t' ∧ t'.session = n ∧
        t'.StandsIn .negotiation
  /-- Left alone it ends, unless it needs the negotiation and somebody is in the line for that. -/
  alone : ∀ d, 5 ≤ d → (((run {} ms).nextTask, .error .terminated) ∈ (run {} (ms ++
      .start n (.command cmd) :: List.replicate d (.task (run {} ms).nextTask))).finished ↔
    (cmd.negotiates = true → s.negotiation.settled = true ∨ s.negotiation.turn.line = []))

/-- What holds of a session whose receiver has `ended`. -/
structure AtItsEnd (ms : List Move) (n : Nat) (s : Session) : Prop where
  /-- A task that waits for a response is awake. Once it has acted often enough it gets what is left in its
  slot, and otherwise it is told that the session is terminated. -/
  waits : ∀ k t w later, (run {} ms).task? k = some t → t.session = n → t.phase.wait? = some w →
    .cancel k ∉ later → w.step.toLook < later.countP (Move.isTask k) →
    ∃ l₁ l₂ s₁, later = l₁ ++ .task k :: l₂ ∧ (run {} (ms ++ l₁)).session? n = some s₁ ∧
      StopsWaiting k t (s₁.slots.verdict w.transaction) (run {} (ms ++ l₁))
        (run {} (ms ++ l₁ ++ [.task k]))
  /-- No slot is made. -/
  slots : ∀ later s', (run {} (ms ++ later)).session? n = some s' →
    s'.slots.entries.Sublist s.slots.entries
  /-- Those who receive get what is in the mailbox, in order, and then no more. -/
  mail : ∀ b later, (run {} (ms ++ later)).HandedOut n b s ((run {} ms).trace (receipts n b) later)
  /-- The line for a mailbox does not stop. -/
  line : ∀ b k t, (run {} ms).task? k = some t → t.session = n → t.job.tray? = some b →
    t.act (run {} ms).now ⟨(run {} ms).nextTransaction, s⟩ = none → ∃ j t', j ≠ k ∧
      (s.turnFor (.mail b)).isHeldBy j = true ∧ (run {} ms).task? j = some t' ∧ t'.session = n ∧
      t'.job.tray? = some b ∧ t'.act (run {} ms).now ⟨(run {} ms).nextTransaction, s⟩ ≠ none
  /-- And whoever comes while nobody is in it receives at once. -/
  alone : ∀ b job d, job.tray? = some b → (s.turnFor (.mail b)).line = [] → 3 ≤ d →
    ((run {} ms).nextTask, Mail.first (s.held b)) ∈ (run {} (ms ++ .start n job ::
      List.replicate d (.task (run {} ms).nextTask))).finished

/-- Every command on a session that is ending is `TooLate`. -/
theorem tooLate (hs : (run {} ms).session? n = some s) (hending : s.lifecycle.isConnected = false)
    (cmd : Command) : TooLate ms n s cmd where
  verdict later r hr := (barred_run ⟨s, hs, hending⟩ cmd later).verdict r hr
  untouched later j s' hs' := (barred_run ⟨s, hs, hending⟩ cmd later).untouched hs'
  progress later t s' ht hs' := by
    have hbarred := barred_run ⟨s, hs, hending⟩ cmd later
    obtain ⟨hsession, hjob, -⟩ := hbarred.task t ht
    obtain ⟨hphase, hsettled, hheld, -⟩ | hfinished | ⟨phase, g, hact, hlt⟩ := hbarred.advances ht hs'
    · obtain ⟨j, t', hj, ht', hn', hstands⟩ :=
        exists_head (l := .negotiation) hs' ht hsession ⟨⟨cmd, hjob⟩, .inl hphase⟩
      refine .inr (.inr ⟨hphase, hsettled, j, t', ?_, hj, ht', hn', hstands⟩)
      rintro rfl
      cases hheld.symm.trans hj
    · exact .inl hfinished
    · subst hsession
      exact .inr (.inl ⟨phase, hlt, task?_task ht hs' hact⟩)
  alone d hd := refused_alone_iff hs hending cmd hd

/-- The mailboxes of a session whose receiver has `ended` are closed. -/
theorem isShut_of_ended (hs : (run {} ms).session? n = some s) (hended : s.receiver = .ended)
    (b : Tray) : s.isShut b = true := by
  obtain ⟨-, -, -, hnotifies, houtputs⟩ := (unwound_run hs).of_ended hended
  cases b with
  | notifies => exact hnotifies
  | outputs => exact houtputs

/-- A session whose receiver has ended is `AtItsEnd`. -/
theorem atItsEnd (hs : (run {} ms).session? n = some s) (hended : s.receiver = .ended) :
    AtItsEnd ms n s where
  waits k t w later hk hn hw hkept hcount := wait_ends hs hended hk hn hw hkept hcount
  slots later s' hs' := by
    have hclosed := ((unwound_run hs).of_ended hended).2.2.1
    rw [run_append] at hs'
    obtain ⟨s₁, hs₁, hleft⟩ := kept_run
      (fun hleads h => (lasting_leftWith s.slots.entries).outcome hleads.outcome h)
      ⟨s, hs, hended, hclosed, List.Sublist.refl _⟩ later
    cases hs'.symm.trans hs₁
    exact hleft.entries
  mail b later := by
    rw [run_append]
    exact handedOut_run hs hended (isShut_of_ended hs hended b) later
  line b k t hk hn htray hstuck :=
    (exists_act_mail hs (isShut_of_ended hs hended b) hk hn htray hstuck).2
  alone b job d htray hline hd := by
    have hfresh := (sealed_run ms).ordered.distinct.task?_nextTask
    rw [List.append_cons, run_append, run_concat]
    exact receives_alone hs (isShut_of_ended hs hended b) (task?_start hfresh) rfl htray (.inl rfl)
      (fun _ => hline) (by simp) hd

/-- A command that is started when its session is not connected any more reports that the session is
terminated and nothing else. It writes nothing, shows nothing to loggers and leaves the slots as they
are, and it ends unless it has to wait for somebody else to negotiate. After the receiver has ended,
whoever waits for a response gets what is left in its slot or is told that the session is terminated,
no slot is made, and whoever receives gets what is in the mailbox, in order, and is then told the
same. -/
theorem end_is_final (hs : (run {} ms).session? n = some s) :
    (s.lifecycle.isConnected = false → ∀ cmd, TooLate ms n s cmd) ∧
      (s.receiver = .ended → AtItsEnd ms n s) :=
  ⟨tooLate hs, atItsEnd hs⟩

/-- A run in which a response and a notification arrive before the connection is closed, and the task
that waits for the response is still at `sleep` after all of it. -/
def overslept : List Move :=
  [Move.attach {}, .start 1 (.command .status)] ++ List.replicate 9 (Move.task 1) ++
    [Move.arrive 1 (.bytes (Frame.encode "<response transaction_id=\"1\"/>")),
      .arrive 1 (.bytes (Frame.encode "<notify name=\"a\"/>")), .arrive 1 .ending] ++
    List.replicate 16 (Move.receiver 1)

/-- In the run `overslept` the receiver has ended while a task still sleeps; a command that comes then
is told that the session is terminated. -/
theorem end_is_final_overslept : ∃ s t w, (run {} overslept).session? 1 = some s ∧
    s.lifecycle.isConnected = false ∧ s.receiver = .ended ∧
    (run {} overslept).task? 1 = some t ∧ t.phase.wait? = some w ∧ w.step = .sleep 0 ∧
    (2, .error .terminated) ∈ (run {} (overslept ++ .start 1 (.command .listSpawnpoints) ::
      List.replicate 5 (.task 2))).finished ∧
    (∃ r, s.held .notifies = [r] ∧ (2, .ok r) ∈ (run {} (overslept ++ .start 1 (.nextNotify none) ::
      List.replicate 3 (.task 2))).finished) ∧
    ∃ l₁ l₂ s₁, List.replicate 3 (.task 1) = l₁ ++ .task 1 :: l₂ ∧
      (run {} (overslept ++ l₁)).session? 1 = some s₁ ∧ s₁.slots.entries.Sublist s.slots.entries ∧
      StopsWaiting 1 t (s₁.slots.verdict w.transaction) (run {} (overslept ++ l₁))
        (run {} (overslept ++ l₁ ++ [.task 1])) := by
  have hsession : ((run {} overslept).session? 1).any (fun s => !s.lifecycle.isConnected &&
      decide (s.receiver = .ended) && s.negotiation.turn.line.isEmpty &&
      (s.turnFor (.mail .notifies)).line.isEmpty && s.notifies.items.length == 1) = true := by
    decide +kernel
  have htask : ((run {} overslept).task? 1).any (fun t => t.session == 1 &&
      t.phase.wait?.any fun w => decide (w.step = .sleep 0)) = true := by decide +kernel
  have hnext : (run {} overslept).nextTask = 2 := by decide +kernel
  simp only [Option.any_eq_true, Bool.and_eq_true, Bool.not_eq_true', decide_eq_true_iff,
    List.isEmpty_iff, beq_iff_eq] at hsession htask
  obtain ⟨s, hs, ⟨⟨⟨hending, hended⟩, hcell⟩, hqueue⟩, hlength⟩ := hsession
  obtain ⟨t, ht, hn, w, hw, hasleep⟩ := htask
  obtain ⟨hlate, hend⟩ := end_is_final hs
  have hrefused := ((hlate hending .listSpawnpoints).alone 5 (Nat.le_refl _)).mpr fun _ => .inr hcell
  have hreceived := (hend hended).alone .notifies (.nextNotify none) 3 rfl hqueue (Nat.le_refl _)
  rw [hnext] at hrefused hreceived
  obtain ⟨a, ha⟩ := List.length_eq_one_iff.mp hlength
  have hheld : s.held .notifies = [.notify (some a)] := by rw [Session.held, ha]; rfl
  rw [hheld] at hreceived
  obtain ⟨l₁, l₂, s₁, hl, hs₁, hstops⟩ := (hend hended).waits 1 t w (List.replicate 3 (.task 1)) ht hn hw
    (by simp) (by rw [hasleep]; decide)
  exact ⟨s, t, w, hs, hending, hended, ht, hw, hasleep, hrefused, ⟨_, hheld, hreceived⟩, l₁, l₂, s₁, hl,
    hs₁, (hend hended).slots l₁ s₁ hs₁, hstops⟩

/-- A run in which the other side takes nothing of the negotiation ahead of a command, and the session
is ended from this side by `terminate`. -/
def clogged : List Move :=
  [Move.attach {}, .gate 1 none (some 0), .start 1 (.command .listSpawnpoints)] ++
    List.replicate 8 (Move.task 1) ++ Move.start 1 .terminate :: List.replicate 6 (Move.task 2) ++
    List.replicate 8 (Move.receiver 1)

/-- A command that needs the negotiation is started after the end of the session and waits for the
task that negotiates. Nobody can act, and no time brings anybody to act. -/
theorem late_command_held_up :
    ((run {} clogged).session? 1).any (fun s => decide (s.lifecycle.stage = .terminated) &&
        decide (s.receiver = .ended)) = true ∧
      (run {} clogged).nextTask = 3 ∧
      let c := run {} (clogged ++ .start 1 (.command .listSpawnpoints) :: List.replicate 2 (.task 3))
      c.task? 3 = some ⟨3, 1, .command .listSpawnpoints, .cell⟩ ∧ c.finished.isEmpty = true ∧
        c.act.isNone = true ∧ c.nextDeadline = none := by
  decide +kernel

end Client

end Dbgp
