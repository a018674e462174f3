import Dbgp.Proofs.Negotiation

/-!
# Who stands in line

A task stands in line for the negotiation while it waits for it or makes it, and for a mailbox while it
waits for it or receives from it. Nobody else is in those lines: `Client.Lined` says that the tasks in a
line are exactly those whose phase says so. A line therefore never stops at a task that is over or was
given up, and whoever waits in it waits for a task that is there.

The two mailboxes are used in the same way. `Session.held`, `Session.isShut` and `Session.turnFor` look
at either of them, and `Task.MailAction` is what receiving does to it.
-/

namespace Dbgp

/-- A mailbox of a session. -/
inductive Tray where
  | notifies
  | outputs
  deriving DecidableEq

/-- A line in which tasks wait for one another. -/
inductive Line where
  | negotiation
  | mail (tray : Tray)
  deriving DecidableEq

/-- The mailbox that a job receives from, `nextNotify` or `nextOutput`. -/
def Job.tray? : Job → Option Tray
  | .nextNotify _ => some .notifies
  | .nextOutput _ => some .outputs
  | _ => none

namespace Session

/-- What is in a mailbox, as the `Reply` that is handed to those who receive it. -/
def held (s : Session) : Tray → List Reply
  | .notifies => s.notifies.items.map fun a => .notify (some a)
  | .outputs => s.outputs.items.map fun a => .output (some a)

/-- Whether a mailbox is closed. -/
def isShut (s : Session) : Tray → Bool
  | .notifies => s.notifies.closed
  | .outputs => s.outputs.closed

/-- Whose turn it is: the `Turn` of a line. -/
def turnFor (s : Session) : Line → Turn
  | .negotiation => s.negotiation.turn
  | .mail .notifies => s.notifies.turn
  | .mail .outputs => s.outputs.turn

variable {s s' : Session}

/-- Lines depend on the negotiation and the mailboxes only. -/
theorem turnFor_eq (hnegotiation : s'.negotiation = s.negotiation) (hnotifies : s'.notifies = s.notifies)
    (houtputs : s'.outputs = s.outputs) (l : Line) : s'.turnFor l = s.turnFor l := by
  rcases l with _ | _ | _
  · exact congrArg Negotiation.turn hnegotiation
  · exact congrArg Mailbox.turn hnotifies
  · exact congrArg Mailbox.turn houtputs

/-- What happens beside a session (`Session.Beside`) moves nobody in a line. -/
theorem turnFor_of_beside (h : s.Beside s') (l : Line) : s'.turnFor l = s.turnFor l := by
  cases h
  exact turnFor_eq rfl rfl rfl l

/-- Neither does what exchanges do (`Session.Exchanged`). -/
theorem turnFor_of_exchanged (h : s.Exchanged s') (l : Line) : s'.turnFor l = s.turnFor l := by
  cases h
  exact turnFor_eq rfl rfl rfl l

/-- The mailboxes are the same. -/
structure SameMail (s s' : Session) : Prop where
  notifies : s'.notifies = s.notifies
  outputs : s'.outputs = s.outputs

/-- Exchanges leave the mailboxes alone. -/
theorem sameMail_of_exchanged (h : s.Exchanged s') : s.SameMail s' := by
  cases h
  exact ⟨rfl, rfl⟩

/-- The same mailboxes hold the same, with the same line for each. -/
theorem SameMail.mail (h : s.SameMail s') (b : Tray) : s'.held b = s.held b ∧
    s'.isShut b = s.isShut b ∧ s'.turnFor (.mail b) = s.turnFor (.mail b) := by
  cases b with
  | notifies => simp only [held, isShut, turnFor, h.notifies, and_self]
  | outputs => simp only [held, isShut, turnFor, h.outputs, and_self]

/-- `Session.dispatch` moves nobody in a line. -/
theorem turnFor_dispatch (payload : String) (l : Line) :
    (s.dispatch payload).turnFor l = s.turnFor l := by
  rw [dispatch]
  split
  · next packet _ =>
    cases packet with
    | response r =>
      rw [route]
      split
      · exact turnFor_eq rfl rfl rfl l
      · exact turnFor_eq rfl rfl rfl l
    | notify _ | output _ => rcases l with _ | _ | _ <;> rfl
  · exact turnFor_eq rfl rfl rfl l

/-- The receiver stands in no line: `Session.receiverStep` moves nobody. -/
theorem turnFor_receiverStep {now : Nat} (h : s.receiverStep now = some s') (l : Line) :
    s'.turnFor l = s.turnFor l := by
  cases receives h with
  | @wound stage failure =>
    cases stage with
    | takeListeners =>
      rw [endStep]
      split
      · exact turnFor_eq rfl rfl rfl l
      · exact turnFor_eq rfl rfl rfl l
    | call left => cases left <;> exact turnFor_eq rfl rfl rfl l
    | closeNotifies | closeOutputs => rcases l with _ | _ | _ <;> rfl
    | begin | closeSlots | ring => exact turnFor_eq rfl rfl rfl l
  | took =>
    rw [turnFor_dispatch]
    exact turnFor_eq rfl rfl rfl l
  | rang | stopped | waited | closed | failed => exact turnFor_eq rfl rfl rfl l

end Session

/-! ## Receiving -/

/-- What a task that receives does: how it goes on, what is left in the mailbox and whose turn it is
then. -/
inductive Task.MailAction (task now : Nat) (limit : Option Nat) (phase : Phase) (held : List Reply)
    (shut : Bool) (turn : Turn) : Progress Phase Reply → List Reply → Turn → Prop
  | joined : phase = .start →
      MailAction task now limit phase held shut turn (.ongoing .line) held (turn.join task)
  | called : phase = .line → turn.isHeldBy task →
      MailAction task now limit phase held shut turn (.ongoing (.receive (limit.map (now + ·)))) held
        turn
  | took {deadline : Option Nat} {r : Reply} {rest : List Reply} : phase = .receive deadline →
      held = r :: rest →
      MailAction task now limit phase held shut turn (.finished (.ok r)) rest (turn.leave task)
  | refused {deadline : Option Nat} : phase = .receive deadline → held = [] → shut = true →
      MailAction task now limit phase held shut turn (.finished (.error .terminated)) []
        (turn.leave task)
  | timedOut {deadline : Option Nat} {r : Reply} : phase = .receive deadline → held = [] →
      shut = false → reached now deadline →
      MailAction task now limit phase held shut turn (.finished (.ok r)) [] (turn.leave task)

namespace Task

variable {now : Nat} {t : Task} {g g' : Ground} {p : Progress Phase Reply} {b : Tray}

/-- What `actReceive` does is a `Task.MailAction` on its mailbox, which is put back. -/
theorem acted_box {task : Nat} {limit : Option Nat} {phase : Phase} {box : Mailbox α}
    {put : Mailbox α → Session} {reply : Option α → Reply} (hbox : g.session = put box)
    (h : actReceive task now limit phase box put reply g = some (p, g')) :
    ∃ box' : Mailbox α, g' = { g with session := put box' } ∧ box'.closed = box.closed ∧
      MailAction task now limit phase (box.items.map fun a => reply (some a)) box.closed box.turn p
        (box'.items.map fun a => reply (some a)) box'.turn := by
  cases phase with
  | start =>
    cases h
    exact ⟨_, rfl, rfl, .joined rfl⟩
  | line =>
    simp only [actReceive] at h
    split at h
    · next hheld =>
      cases h
      exact ⟨box, by rw [hbox], rfl, .called rfl hheld⟩
    · cases h
  | receive deadline =>
    simp only [actReceive, Mailbox.look] at h
    cases hitems : box.items with
    | cons a rest =>
      simp only [hitems] at h
      cases h
      exact ⟨_, rfl, rfl, .took rfl rfl⟩
    | nil =>
      simp only [hitems] at h
      cases hclosed : box.closed with
      | true =>
        simp only [hclosed, if_true] at h
        cases h
        refine ⟨_, rfl, rfl, ?_⟩
        simp only [hitems]
        exact .refused rfl rfl rfl
      | false =>
        simp only [hclosed, Bool.false_eq_true, if_false] at h
        split at h
        · next hreached =>
          cases h
          refine ⟨_, rfl, rfl, ?_⟩
          simp only [hitems]
          exact .timedOut rfl rfl rfl hreached
        · cases h
  | cell | negotiate _ | prepare | exchange _ | await _ | finish _ => cases h

/-- A task that receives uses its mailbox, and leaves the other one alone. -/
theorem acted_mail (hjob : t.job.tray? = some b) (h : t.act now g = some (p, g')) :
    (∃ limit, MailAction t.id now limit t.phase (g.session.held b) (g.session.isShut b)
      (g.session.turnFor (.mail b)) p (g'.session.held b) (g'.session.turnFor (.mail b))) ∧
    g'.session.isShut b = g.session.isShut b ∧
    ∀ b', b' ≠ b → g'.session.held b' = g.session.held b' ∧
      g'.session.isShut b' = g.session.isShut b' ∧
      g'.session.turnFor (.mail b') = g.session.turnFor (.mail b') := by
  rw [act] at h
  cases hj : t.job with
  | nextNotify limit =>
    rw [hj] at hjob h
    cases hjob
    obtain ⟨box, rfl, hclosed, haction⟩ := acted_box rfl h
    refine ⟨⟨limit, haction⟩, hclosed, fun b' hb' => ?_⟩
    cases b' with
    | notifies => exact absurd rfl hb'
    | outputs => exact ⟨rfl, rfl, rfl⟩
  | nextOutput limit =>
    rw [hj] at hjob h
    cases hjob
    obtain ⟨box, rfl, hclosed, haction⟩ := acted_box rfl h
    refine ⟨⟨limit, haction⟩, hclosed, fun b' hb' => ?_⟩
    cases b' with
    | notifies => exact ⟨rfl, rfl, rfl⟩
    | outputs => exact absurd rfl hb'
  | command _ | expectResponse _ | forgetResponse _ | awaitResponse _ _ | terminate | awaitEnd =>
    rw [hj] at hjob
    cases hjob

/-! ## Single actions -/

/-- A task is one of those in a line: it waits there, or its turn has come and is not over. -/
def StandsIn : Line → Task → Prop
  | .negotiation, t => (∃ c, t.job = .command c) ∧ (t.phase = .cell ∨ ∃ x, t.phase = .negotiate x)
  | .mail b, t => t.job.tray? = some b ∧ (t.phase = .line ∨ ∃ deadline, t.phase = .receive deadline)

/-- A task that has not begun stands in no line. -/
theorem not_standsIn_start (l : Line) (k n : Nat) (job : Job) : ¬StandsIn l ⟨k, n, job, .start⟩ := by
  rcases l with _ | b
  · rintro ⟨-, h | ⟨x, h⟩⟩ <;> cases h
  · rintro ⟨-, h | ⟨x, h⟩⟩ <;> cases h

end Task

/-- A task comes to a line, stays there or goes from it, and for the others nothing changes in the
`Turn`. -/
def Turn.Shifts (k : Nat) (stands : Prop) (t t' : Turn) : Prop :=
  ∀ j, j ∈ t'.line ↔ j = k ∧ stands ∨ j ≠ k ∧ j ∈ t.line

namespace Turn

variable {k : Nat} {stands : Prop} {t : Turn}

/-- A task that stands in a line has come to it with `Turn.join`. -/
theorem shifts_join (h : stands) : t.Shifts k stands (t.join k) := by
  intro j
  rw [join, List.mem_append, List.mem_singleton]
  by_cases hj : j = k
  · simp [hj, h]
  · simp [hj]

/-- A task that does not stand in a line has gone from it with `Turn.leave`. -/
theorem shifts_leave (h : ¬stands) : t.Shifts k stands (t.leave k) := by
  intro j
  rw [leave, List.mem_filter, decide_eq_true_iff]
  simp [h, and_comm]

/-- Nothing changes if the task is where it should be. -/
theorem shifts_same (h : k ∈ t.line ↔ stands) : t.Shifts k stands t := by
  intro j
  by_cases hj : j = k
  · simp [hj, h]
  · simp [hj]

end Turn

namespace Task

variable {now : Nat} {t : Task} {g g' : Ground} {p : Progress Phase Reply} {b : Tray}

/-- A task with a command leaves the mailboxes alone (`Session.SameMail`). -/
theorem CommandAction.sameMail {task : Nat} {c : Command} {phase : Phase}
    (h : CommandAction task now c phase g p g') : g.session.SameMail g'.session := by
  cases h with
  | negotiating _ hx | exchanging _ hx | concluded _ hx =>
    exact Session.sameMail_of_exchanged (Exchange.acted hx).exchanged
  | settled _ hx =>
    have hmail := Session.sameMail_of_exchanged (Exchange.acted hx).exchanged
    exact ⟨hmail.notifies, hmail.outputs⟩
  | queued | ready | passed | skipped | opened | prepared => exact ⟨rfl, rfl⟩

/-- A command is in the line for the negotiation after an action exactly if it is at it then. -/
theorem CommandAction.shifts {c : Command} (hjob : t.job = .command c)
    (h : CommandAction t.id now c t.phase g p g')
    (ht : t.id ∈ g.session.negotiation.turn.line ↔ t.StandsIn .negotiation) :
    g.session.negotiation.turn.Shifts t.id
      (∃ phase, p = .ongoing phase ∧ StandsIn .negotiation { t with phase })
      g'.session.negotiation.turn := by
  have hstands : ∀ phase, phase = .cell ∨ (∃ x, phase = .negotiate x) ↔
      StandsIn .negotiation { t with phase } := fun phase => ⟨fun h => ⟨⟨c, hjob⟩, h⟩, And.right⟩
  -- Those who neither come nor go stand in line afterwards if they did so before.
  have hsame : ∀ phase, ((t.phase = .cell ∨ ∃ x, t.phase = .negotiate x) ↔
        phase = .cell ∨ ∃ x, phase = .negotiate x) → g.session.negotiation.turn.Shifts t.id
      (∃ phase', Progress.ongoing phase = (.ongoing phase' : Progress Phase Reply) ∧
        StandsIn .negotiation { t with phase := phase' }) g.session.negotiation.turn := by
    intro phase hphase
    refine Turn.shifts_same (ht.trans (((hstands t.phase).symm.trans hphase).trans ?_))
    rw [hstands phase]
    constructor
    · exact fun h => ⟨phase, rfl, h⟩
    · rintro ⟨_, ⟨⟩, h⟩
      exact h
  have hgone : ∀ phase, ¬(phase = .cell ∨ ∃ x, phase = .negotiate x) →
      ¬∃ phase', Progress.ongoing phase = (.ongoing phase' : Progress Phase Reply) ∧
        StandsIn .negotiation { t with phase := phase' } := by
    rintro phase hphase ⟨_, ⟨⟩, h⟩
    exact hphase h.2
  cases h with
  | queued => exact Turn.shifts_join ⟨_, rfl, ⟨c, hjob⟩, .inl rfl⟩
  | passed | skipped => exact Turn.shifts_leave (hgone _ (by simp))
  | settled _ hx =>
    rw [Session.negotiated, (Exchange.acted hx).exchanged.negotiation_eq]
    exact Turn.shifts_leave (hgone _ (by simp))
  | ready hphase | prepared hphase => exact hsame _ (by simp [hphase])
  | opened hphase => exact hsame _ (by simp [hphase])
  | negotiating hphase hx | exchanging hphase hx =>
    rw [(Exchange.acted hx).exchanged.negotiation_eq]
    exact hsame _ (by simp [hphase])
  | concluded hphase hx =>
    rw [(Exchange.acted hx).exchanged.negotiation_eq]
    refine Turn.shifts_same (ht.trans ?_)
    constructor
    · rintro ⟨-, h⟩
      simp [hphase] at h
    · rintro ⟨_, ⟨⟩, -⟩

/-- A task that receives is in the line for its mailbox after an action exactly if it is at it
then. -/
theorem MailAction.shifts {limit : Option Nat} {held held' : List Reply} {shut : Bool}
    {turn turn' : Turn} (hjob : t.job.tray? = some b)
    (h : MailAction t.id now limit t.phase held shut turn p held' turn')
    (ht : t.id ∈ turn.line ↔ t.StandsIn (.mail b)) :
    turn.Shifts t.id (∃ phase, p = .ongoing phase ∧ StandsIn (.mail b) { t with phase }) turn' := by
  cases h with
  | joined => exact Turn.shifts_join ⟨_, rfl, hjob, .inl rfl⟩
  | called hphase =>
    exact Turn.shifts_same (ht.trans ⟨fun _ => ⟨_, rfl, hjob, .inr ⟨_, rfl⟩⟩,
      fun _ => ⟨hjob, .inl hphase⟩⟩)
  | took | refused | timedOut => exact Turn.shifts_leave (by rintro ⟨_, ⟨⟩, -⟩)

/-- Tasks that do not receive leave the mailboxes alone. -/
theorem sameMail_act (hmail : t.job.tray? = none) (h : t.act now g = some (p, g')) :
    g.session.SameMail g'.session := by
  cases acted h with
  | command _ hc => exact hc.sameMail
  | mailed hjob =>
    obtain ⟨limit, hjob | hjob⟩ := hjob
    · rw [hjob] at hmail
      cases hmail
    · rw [hjob] at hmail
      cases hmail
  | ending _ _ hr | ended _ _ hr =>
    exact Session.sameMail_of_exchanged (EndRequest.acted hr).exchanged
  | expected | unexpected | forgot | awaiting | waited | answered | terminating | sawEnd =>
    exact ⟨rfl, rfl⟩

/-- Tasks that do not receive from a mailbox leave it alone. -/
theorem mail_act (hb : t.job.tray? ≠ some b) (h : t.act now g = some (p, g')) :
    g'.session.held b = g.session.held b ∧ g'.session.isShut b = g.session.isShut b ∧
      g'.session.turnFor (.mail b) = g.session.turnFor (.mail b) := by
  cases htray : t.job.tray? with
  | none => exact (sameMail_act htray h).mail b
  | some b' => exact (acted_mail htray h).2.2 b fun heq => hb (heq ▸ htray)

/-- Tasks without a command leave the negotiation alone. -/
theorem negotiation_act (hcommand : ∀ c, t.job ≠ .command c) (h : t.act now g = some (p, g')) :
    g'.session.negotiation = g.session.negotiation := by
  cases acted h with
  | command hjob => exact absurd hjob (hcommand _)
  | ending _ _ hr | ended _ _ hr => exact (EndRequest.acted hr).exchanged.negotiation_eq
  | mailed | expected | unexpected | forgot | awaiting | waited | answered | terminating | sawEnd => rfl

/-- A task is in a line after an action of `Task.act` if it is at it then. -/
theorem shifts_act (h : t.act now g = some (p, g')) (l : Line)
    (ht : t.id ∈ (g.session.turnFor l).line ↔ t.StandsIn l) :
    (g.session.turnFor l).Shifts t.id (∃ phase, p = .ongoing phase ∧ StandsIn l { t with phase })
      (g'.session.turnFor l) := by
  -- Whether a task can stand in a line at all depends on its job only.
  have hapart : (∀ phase, ¬StandsIn l { t with phase }) →
      g'.session.turnFor l = g.session.turnFor l → (g.session.turnFor l).Shifts t.id
        (∃ phase, p = .ongoing phase ∧ StandsIn l { t with phase }) (g'.session.turnFor l) := by
    intro hnever hturn
    rw [hturn]
    refine Turn.shifts_same (ht.trans ⟨fun h => absurd h (hnever t.phase), ?_⟩)
    rintro ⟨phase, -, h⟩
    exact absurd h (hnever phase)
  rcases l with _ | b
  · by_cases hcommand : ∃ c, t.job = .command c
    · obtain ⟨c, hjob⟩ := hcommand
      rw [act, hjob] at h
      exact (actedCommand h).shifts hjob ht
    · refine hapart (fun phase hstands => hcommand hstands.1) ?_
      exact congrArg Negotiation.turn (negotiation_act (fun c hjob => hcommand ⟨c, hjob⟩) h)
  · by_cases hb : t.job.tray? = some b
    · obtain ⟨⟨limit, haction⟩, -⟩ := acted_mail hb h
      exact haction.shifts hb ht
    · exact hapart (fun phase hstands => hb hstands.1) (mail_act hb h).2.2

/-- A task that is given up goes from the line it is in. -/
theorem shifts_abandon (t : Task) (s : Session) (l : Line)
    (ht : t.id ∈ (s.turnFor l).line ↔ t.StandsIn l) :
    (s.turnFor l).Shifts t.id False ((t.abandon s).turnFor l) := by
  have hapart : ¬t.StandsIn l → (t.abandon s).turnFor l = s.turnFor l →
      (s.turnFor l).Shifts t.id False ((t.abandon s).turnFor l) := by
    intro hnot hturn
    rw [hturn]
    exact Turn.shifts_same (ht.trans (iff_false_intro hnot))
  have hleave : (t.abandon s).turnFor l = (s.turnFor l).leave t.id →
      (s.turnFor l).Shifts t.id False ((t.abandon s).turnFor l) := by
    intro hturn
    rw [hturn]
    exact Turn.shifts_leave not_false
  cases hphase : t.phase with
  | cell =>
    rcases l with _ | _ | _
    · exact hleave (by rw [abandon, hphase]; rfl)
    all_goals exact hapart (by simp [StandsIn, hphase]) (by rw [abandon, hphase]; rfl)
  | negotiate x =>
    have hexchanged := x.exchanged_abandon t.id s
    rcases l with _ | _ | _
    · refine hleave ?_
      rw [abandon, hphase]
      exact congrArg (fun o : Negotiation => o.turn.leave t.id) hexchanged.negotiation_eq
    · refine hapart (by simp [StandsIn, hphase]) ?_
      rw [abandon, hphase]
      exact Session.turnFor_of_exchanged hexchanged (.mail .notifies)
    · refine hapart (by simp [StandsIn, hphase]) ?_
      rw [abandon, hphase]
      exact Session.turnFor_of_exchanged hexchanged (.mail .outputs)
  | exchange x =>
    refine hapart ?_ ?_
    · rcases l with _ | _ <;> simp [StandsIn, hphase]
    · rw [abandon, hphase]
      exact Session.turnFor_of_exchanged (x.exchanged_abandon t.id s) l
  | line | receive deadline =>
    rcases l with _ | _ | _
    · exact hapart (by simp [StandsIn, hphase]) (by rw [abandon, hphase]; rfl)
    all_goals exact hleave (by rw [abandon, hphase]; rfl)
  | finish _ =>
    refine hapart ?_ ?_
    · rcases l with _ | _ <;> simp [StandsIn, hphase]
    · rw [abandon, hphase]
      exact Session.turnFor_eq rfl rfl rfl l
  | start | prepare | await _ =>
    refine hapart ?_ (by rw [abandon, hphase])
    rcases l with _ | _ <;> simp [StandsIn, hphase]

end Task

/-! ## Runs -/

namespace Client

/-- The tasks in the lines of a session are those that stand in them (`Task.StandsIn`). -/
def Lined (n : Nat) (c : Client) : Prop :=
  ∀ s, c.session? n = some s → ∀ l j,
    j ∈ (s.turnFor l).line ↔ ∃ t, c.task? j = some t ∧ t.session = n ∧ t.StandsIn l

variable {c c' : Client} {m : Move} {n : Nat}

/-- Before there is a session the tasks on it have done nothing. -/
def Early (n : Nat) (c : Client) : Prop :=
  c.session? n = none → ∀ k t, c.task? k = some t → t.session = n → t.phase = .start

/-- A task that has just been started is in no line. -/
theorem lined_aside (h : c.Lined n) (hearly : c.Early n)
    (htask : ∀ k, c'.task? k = c.task? k ∨ c.task? k = none ∧ ∃ session job,
      m = .start session job ∧ c'.task? k = some ⟨c.nextTask, session, job, .start⟩)
    (hsession : Passed c n (c.session? n) (c'.session? n)) : c'.Lined n := by
  -- Who stands in a line is there before.
  have hstands : ∀ l j, (∃ t, c'.task? j = some t ∧ t.session = n ∧ t.StandsIn l) ↔
      ∃ t, c.task? j = some t ∧ t.session = n ∧ t.StandsIn l := by
    intro l j
    obtain hsame | ⟨hnone, session, job, -, hstarted⟩ := htask j
    · rw [hsame]
    · rw [hnone, hstarted]
      constructor
      · rintro ⟨t, ht, -, hstands⟩
        cases ht
        exact absurd hstands (Task.not_standsIn_start l _ _ _)
      · rintro ⟨t, ht, -⟩
        cases ht
  intro s' hs' l j
  rw [hstands l j]
  rw [hs'] at hsession
  generalize hs : c.session? n = o at hsession
  cases hsession with
  | beside hbeside =>
    rw [Session.turnFor_of_beside hbeside]
    exact h _ hs l j
  | opened =>
    refine ⟨fun hj => ?_, ?_⟩
    · rcases l with _ | _ | _ <;> cases hj
    · rintro ⟨t, ht, hn, hstands⟩
      have hphase := hearly hs j t ht hn
      rcases l with _ | _ <;> simp [Task.StandsIn, hphase] at hstands

/-- One task goes on or is over, and nobody else comes to a line of its session or goes from it. -/
theorem Lined.replace {k : Nat} {t : Task} {o : Option Task} (h : c.Lined n) (hk : c.task? k = some t)
    (htask : ∀ j, c'.task? j = if j = k then o else c.task? j)
    (ho : ∀ t', o = some t' → t'.session = t.session)
    (hsession : ∀ s', c'.session? n = some s' → n ≠ t.session ∧ c.session? n = some s' ∨
      n = t.session ∧ ∃ s, c.session? n = some s ∧ ∀ l,
        (t.id ∈ (s.turnFor l).line ↔ t.StandsIn l) →
        (s.turnFor l).Shifts t.id (∃ t', o = some t' ∧ t'.StandsIn l) (s'.turnFor l)) :
    c'.Lined n := by
  intro s' hs' l i
  rw [htask]
  obtain ⟨hne, hs⟩ | ⟨rfl, s, hs, hshifts⟩ := hsession s' hs'
  · -- On another session the task stands in no line, neither before nor after.
    rw [h s' hs l i]
    split
    · next hi =>
      subst hi
      constructor
      · rintro ⟨t', ht', hn, -⟩
        cases hk.symm.trans ht'
        exact absurd hn.symm hne
      · rintro ⟨t', ht', hn, -⟩
        exact absurd (hn.symm.trans (ho t' ht')) hne
    · exact Iff.rfl
  · have hown : t.id ∈ (s.turnFor l).line ↔ t.StandsIn l := by
      rw [h s hs l t.id, id_of_task? hk, hk]
      constructor
      · rintro ⟨_, ⟨⟩, -, hstands⟩
        exact hstands
      · exact fun hstands => ⟨t, rfl, rfl, hstands⟩
    rw [hshifts l hown i, id_of_task? hk]
    split
    · next hi =>
      subst hi
      constructor
      · rintro (⟨-, t', ht', hstands⟩ | ⟨hne, -⟩)
        · exact ⟨t', ht', ho t' ht', hstands⟩
        · exact absurd rfl hne
      · rintro ⟨t', ht', -, hstands⟩
        exact .inl ⟨rfl, t', ht', hstands⟩
    · next hi => simp [hi, h s hs l i]

/-- One move leaves the lines of a session `Lined`. -/
theorem Lined.step (h : c.Lined n) (hearly : c.Early n) (m : Move) : (c.step m).Lined n := by
  -- Time that passes changes no line, and nothing else that can happen here is like it.
  by_cases hpass : ∃ millis, m = .pass millis
  · obtain ⟨millis, rfl⟩ := hpass
    exact h
  have houtcome := c.outcome m
  generalize c.step m = c' at houtcome
  cases houtcome with
  | aside htask hsession => exact lined_aside h hearly htask (hsession n)
  | @received j s s' _ hs hstep htask hsession =>
    intro s₁ hs₁ l i
    rw [htask]
    rw [hsession] at hs₁
    split at hs₁
    · next hn =>
      cases hs₁
      rw [Session.turnFor_receiverStep hstep]
      exact h s (hn ▸ hs) l i
    · exact h s₁ hs₁ l i
  | @acted k t s p g _ hk hs hact htask hsession =>
    refine h.replace hk htask ?_ fun s₁ hs₁ => ?_
    · intro t' ht'
      obtain ⟨phase, -, rfl⟩ := Option.map_eq_some_iff.mp ht'
      rfl
    · rw [hsession] at hs₁
      split at hs₁
      · next hn =>
        cases hs₁
        refine .inr ⟨hn, s, hn ▸ hs, fun l hown i => (Task.shifts_act hact l hown i).trans ?_⟩
        cases p with
        | ongoing phase =>
          refine or_congr_left (and_congr_right fun _ => ?_)
          constructor
          · rintro ⟨_, ⟨⟩, hstands⟩
            exact ⟨_, rfl, hstands⟩
          · rintro ⟨_, ⟨⟩, hstands⟩
            exact ⟨_, rfl, hstands⟩
        | finished _ => simp [Progress.ongoing?]
      · next hn => exact .inl ⟨hn, hs₁⟩
  | @abandoned k t _ hk htask hsession =>
    refine h.replace hk htask (fun t' ht' => ?_) fun s₁ hs₁ => ?_
    · cases ht'
    · rw [hsession] at hs₁
      split at hs₁
      · next hn =>
        obtain ⟨s, hs, rfl⟩ := Option.map_eq_some_iff.mp hs₁
        refine .inr ⟨hn, s, hs, fun l hown i => (Task.shifts_abandon t s l hown i).trans ?_⟩
        simp
      · next hn => exact .inl ⟨hn, hs₁⟩
  | forwarded hm => exact absurd ⟨0, hm⟩ hpass

/-- Tasks on a session that is still to come have done nothing. -/
theorem early_run (n : Nat) (ms : List Move) : (run {} ms).Early n := by
  intro hs k t ht hn
  subst hn
  exact (agreed_local.run ms).2.early ht hs

/-- The lines of a session are `Lined` after every run. -/
theorem lined_run (n : Nat) (ms : List Move) : (run {} ms).Lined n := by
  induction ms using List.reverseRecOn with
  | nil => rintro s ⟨⟩
  | append_singleton ms m ih =>
    rw [run_concat]
    exact ih.step (early_run n ms) m

/-- Whoever waits in a line waits for a task that is there, at the head of the line and on the same
session. -/
theorem exists_head {ms : List Move} {k : Nat} {t : Task} {s : Session} {l : Line}
    (hs : (run {} ms).session? n = some s) (hk : (run {} ms).task? k = some t) (hn : t.session = n)
    (hstands : t.StandsIn l) : ∃ j t', (s.turnFor l).isHeldBy j = true ∧
      (run {} ms).task? j = some t' ∧ t'.session = n ∧ t'.StandsIn l := by
  have hmem : k ∈ (s.turnFor l).line := (lined_run n ms s hs l k).mpr ⟨t, hk, hn, hstands⟩
  obtain ⟨j, rest, hline⟩ := List.exists_cons_of_ne_nil (List.ne_nil_of_mem hmem)
  have hj : j ∈ (s.turnFor l).line := hline ▸ List.mem_cons_self
  obtain ⟨t', ht', hn', hstands'⟩ := (lined_run n ms s hs l j).mp hj
  exact ⟨j, t', by rw [Turn.isHeldBy_iff, hline, List.head?_cons], ht', hn', hstands'⟩

end Client

end Dbgp
