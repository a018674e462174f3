import Dbgp.Proofs.Lines
import Dbgp.Proofs.OwnRequest

/-!
# Commands that come too late

A command that is started on a session that is ending has no way to its exchange: `Phase.Barred` is what
it can be at, and each of its actions leaves the session as it is, the negotiation apart, until it is told
that the session is terminated. What can hold it up is only the line for the negotiation, in which a task
that came in time may still be.
-/

namespace Dbgp

/-! ## Single actions -/

/-- What a task with a command can be at, if the session was not `connected` any more when it was
started. -/
def Phase.Barred : Phase → Prop
  | .start | .cell | .prepare => True
  | .negotiate x | .exchange x => x.phase = .enter
  | _ => False

/-- How many actions a task with a command has left at most while its phase is `Barred`. -/
def Phase.toGo : Phase → Nat
  | .start => 5
  | .cell => 4
  | .negotiate _ => 3
  | .prepare => 2
  | .exchange _ => 1
  | _ => 0

/-- A command that is `Barred` has an action left. -/
theorem Phase.Barred.toGo_pos {phase : Phase} (h : phase.Barred) : 0 < phase.toGo := by
  cases phase with
  | start | cell | negotiate _ | prepare | exchange _ => exact Nat.succ_pos _
  | line | receive _ | await _ | finish _ => exact h.elim

namespace Task

variable {task now : Nat} {c : Command} {phase : Phase} {g g' : Ground} {p : Progress Phase Reply}

/-- A command that is `Phase.Barred` goes on towards being turned away, and touches nothing of its
session but the negotiation. -/
theorem CommandAction.barred (h : CommandAction task now c phase g p g') (hbarred : phase.Barred)
    (hending : g.session.lifecycle.isConnected = false) :
    g'.session = { g.session with negotiation := g'.session.negotiation } ∧
      ((∃ phase', p = .ongoing phase' ∧ phase'.Barred ∧ phase'.toGo < phase.toGo) ∨
        p = .finished (.error .terminated)) := by
  cases h with
  | queued hphase | ready hphase =>
    subst hphase
    exact ⟨rfl, .inl ⟨_, rfl, trivial, by decide⟩⟩
  | passed hphase | skipped hphase =>
    subst hphase
    exact ⟨rfl, .inl ⟨_, rfl, trivial, by decide⟩⟩
  | opened hphase | prepared hphase =>
    subst hphase
    exact ⟨rfl, .inl ⟨_, rfl, rfl, Nat.lt_succ_self _⟩⟩
  | negotiating hphase hx | exchanging hphase hx =>
    subst hphase
    cases ((Exchange.acted hx).of_enter hbarred hending).1
  | settled hphase hx =>
    subst hphase
    obtain ⟨-, rfl⟩ := (Exchange.acted hx).of_enter hbarred hending
    exact ⟨rfl, .inl ⟨_, rfl, trivial, Nat.lt_succ_self _⟩⟩
  | concluded hphase hx =>
    subst hphase
    obtain ⟨hr, rfl⟩ := (Exchange.acted hx).of_enter hbarred hending
    cases hr
    exact ⟨rfl, .inr rfl⟩

/-- Only the line for the negotiation (`cell`) holds such a command up. -/
theorem actCommand_barred (hbarred : phase.Barred)
    (hending : g.session.lifecycle.isConnected = false)
    (hstuck : actCommand task now c phase g = none) :
    phase = .cell ∧ g.session.negotiation.settled = false ∧
      g.session.negotiation.turn.isHeldBy task = false := by
  have henter : ∀ x : Exchange, x.phase = .enter →
      x.act task now g.session = some (.finished (.error .terminated), g.session) := by
    intro x hx
    simp [Exchange.act, hx, hending]
  cases phase with
  | start =>
    rw [actCommand] at hstuck
    split at hstuck <;> cases hstuck
  | cell =>
    rw [actCommand, actCell] at hstuck
    split at hstuck
    · cases hstuck
    · next hsettled =>
      split at hstuck
      · split at hstuck <;> cases hstuck
      · next hheld => exact ⟨rfl, by simpa using hsettled, by simpa using hheld⟩
  | prepare => cases hstuck
  | negotiate x | exchange x =>
    simp only [actCommand, henter x hbarred] at hstuck
    cases hstuck
  | line | receive _ | await _ | finish _ => exact hbarred.elim

/-- A command takes the line for the negotiation, in `cell`, only from its `start`. -/
theorem CommandAction.of_cell (h : CommandAction task now c phase g (.ongoing .cell) g') :
    phase = .start ∧ c.negotiates = true ∧ g.session.negotiation.settled = false ∧
      g'.session.negotiation.turn = g.session.negotiation.turn.join task := by
  generalize hp : Progress.ongoing Phase.cell = p at h
  cases h with
  | queued hphase hneg hsettled => exact ⟨hphase, hneg, hsettled, rfl⟩
  | ready | passed | skipped | opened | negotiating | settled | prepared | exchanging | concluded =>
    cases hp

/-- No command comes back to its `start`. -/
theorem CommandAction.ne_start (h : CommandAction task now c phase g p g') : p ≠ .ongoing .start := by
  cases h <;> nofun

end Task

/-! ## Runs -/

namespace Client

variable {c c' : Client} {m : Move} {n k : Nat} {cmd : Command} {t : Task} {s : Session}

/-- A task has a `Command` that came too late for its session. -/
structure Barred (n k : Nat) (cmd : Command) (c : Client) : Prop where
  ending : c.IsEnding n
  given : k < c.nextTask
  task : ∀ t, c.task? k = some t → t.session = n ∧ t.job = .command cmd ∧ t.phase.Barred
  verdict : ∀ r, (k, r) ∈ c.finished → r = .error .terminated

/-- A command that is started on a session that is ending is `Barred`. -/
theorem barred_start (hc : c.Ordered) (hending : c.IsEnding n) (cmd : Command) :
    (c.step (.start n (.command cmd))).Barred n c.nextTask cmd := by
  refine ⟨(c.outcome _).isEnding hending, Nat.lt_succ_self _, fun t ht => ?_, fun r hr => ?_⟩
  · rw [step, task?_start hc.distinct.task?_nextTask] at ht
    cases ht
    exact ⟨rfl, rfl, trivial⟩
  · exact absurd (hc.reported _ hr).1 (Nat.lt_irrefl _)

/-- What a `Barred` task does next. -/
theorem Barred.acted (h : c.Barred n k cmd) (hk : c.task? k = some t)
    (hs : c.session? t.session = some s) {p : Progress Phase Reply} {g : Ground}
    (hact : t.act c.now ⟨c.nextTransaction, s⟩ = some (p, g)) :
    g.session = { s with negotiation := g.session.negotiation } ∧
      ((∃ phase, p = .ongoing phase ∧ phase.Barred ∧ phase.toGo < t.phase.toGo) ∨
        p = .finished (.error .terminated)) := by
  obtain ⟨rfl, hjob, hbarred⟩ := h.task t hk
  obtain ⟨s₁, hs₁, hending⟩ := h.ending
  cases hs.symm.trans hs₁
  rw [Task.act, hjob] at hact
  exact (Task.actedCommand hact).barred hbarred hending

/-- One step leaves such a command `Barred`. -/
theorem Barred.leads (h : c.Barred n k cmd) (hleads : Leads c m c') : c'.Barred n k cmd := by
  refine ⟨hleads.outcome.isEnding h.ending, Nat.lt_of_lt_of_le h.given hleads.outcome.nextTask_le,
    fun t ht => ?_, fun r hr => ?_⟩
  · obtain ht | ⟨t₀, s, phase, g, -, ht₀, hs, hact, rfl⟩ := hleads.task_cases h.given ht
    · exact h.task t ht
    · obtain ⟨hsession, hjob, -⟩ := h.task t₀ ht₀
      obtain ⟨-, ⟨_, hp, hbarred, -⟩ | hp⟩ := h.acted ht₀ hs hact
      · cases hp
        exact ⟨hsession, hjob, hbarred⟩
      · cases hp
  · obtain hr | ⟨t, s, g, -, ht, hs, hact, -⟩ := hleads.finished_cases hr
    · exact h.verdict r hr
    · obtain ⟨-, ⟨_, hp, -⟩ | hp⟩ := h.acted ht hs hact
      · cases hp
      · cases hp
        rfl

/-- A command that is started on a session that is ending is `Barred`, whatever follows. -/
theorem barred_run {before : List Move} (hending : (run {} before).IsEnding n) (cmd : Command)
    (after : List Move) : (run {} (before ++ .start n (.command cmd) :: after)).Barred n
      (run {} before).nextTask cmd := by
  rw [run_append]
  exact kept_run (fun hleads h => h.leads hleads)
    (barred_start (sealed_run before).ordered hending cmd) after

/-- All that a `Barred` task does to a session is to its `negotiation`. -/
theorem Barred.untouched (h : c.Barred n k cmd) {j : Nat} (hs : c.session? j = some s) :
    ∃ negotiation, (c.step (.task k)).session? j = some { s with negotiation } := by
  obtain ⟨-, hsame⟩ | ⟨t, s₀, p, g, hk, hs₀, hact, -, -, -, hsession, -⟩ := c.step_task k
  · rw [hsame]
    exact ⟨s.negotiation, hs⟩
  · rw [hsession]
    split
    · next hj =>
      cases hs.symm.trans (hj ▸ hs₀)
      exact ⟨g.session.negotiation, congrArg some (h.acted hk hs₀ hact).1⟩
    · exact ⟨s.negotiation, hs⟩

/-- A `Barred` task is held up in the line for the negotiation, or it is told that the session is
terminated, or it has fewer actions left. -/
theorem Barred.advances (h : c.Barred n k cmd) (hk : c.task? k = some t)
    (hs : c.session? n = some s) :
    (t.phase = .cell ∧ s.negotiation.settled = false ∧ s.negotiation.turn.isHeldBy k = false ∧
        t.act c.now ⟨c.nextTransaction, s⟩ = none) ∨
      (k, .error .terminated) ∈ (c.step (.task k)).finished ∨
      ∃ phase g, t.act c.now ⟨c.nextTransaction, s⟩ = some (.ongoing phase, g) ∧
        phase.toGo < t.phase.toGo := by
  obtain ⟨rfl, hjob, hbarred⟩ := h.task t hk
  obtain ⟨s₁, hs₁, hending⟩ := h.ending
  cases hs.symm.trans hs₁
  cases hact : t.act c.now ⟨c.nextTransaction, s⟩ with
  | none =>
    have hstuck := hact
    rw [Task.act, hjob, id_of_task? hk] at hstuck
    obtain ⟨hphase, hsettled, hheld⟩ := Task.actCommand_barred hbarred hending hstuck
    exact .inl ⟨hphase, hsettled, hheld, rfl⟩
  | some next =>
    obtain ⟨p, g⟩ := next
    obtain ⟨-, ⟨phase, rfl, -, hlt⟩ | rfl⟩ := h.acted hk hs hact
    · exact .inr (.inr ⟨phase, g, rfl, hlt⟩)
    · refine .inr (.inl ?_)
      rw [finished_task hk hs hact]
      simp [Progress.result?]

/-! ## A task that is left alone -/

/-- A task takes no result away from `finished`. -/
theorem finished_subset_task (c : Client) (j : Nat) : c.finished ⊆ (c.step (.task j)).finished := by
  obtain ⟨-, hsame⟩ | ⟨t, s, p, g, hk, hs, hact, -⟩ := c.step_task j
  · rw [hsame]
    exact List.Subset.refl _
  · rw [finished_task hk hs hact]
    exact List.subset_append_left _ _

/-- Neither does it with several actions: `finished` keeps them. -/
theorem finished_subset_alone (c : Client) (j d : Nat) :
    c.finished ⊆ (c.run (List.replicate d (.task j))).finished := by
  induction d generalizing c with
  | zero => exact List.Subset.refl _
  | succ d ih => exact List.Subset.trans (c.finished_subset_task j) (ih (c.step (.task j)))

/-- A task whose `act` is `none` changes nothing, however often it tries. -/
theorem run_of_stuck {d : Nat} (hk : c.task? k = some t) (hs : c.session? t.session = some s)
    (hstuck : t.act c.now ⟨c.nextTransaction, s⟩ = none) : c.run (List.replicate d (.task k)) = c := by
  have hstep : c.step (.task k) = c := by
    rw [step, hk, Option.bind_some, actTask, hs]
    simp only [hstuck, Option.getD_none]
  induction d with
  | zero => rfl
  | succ d ih =>
    have hrun : c.run (List.replicate (d + 1) (.task k)) =
        (c.step (.task k)).run (List.replicate d (.task k)) := rfl
    rw [hrun, hstep, ih]

/-- Nothing holds the task up: nobody is before it in the `turn` of the negotiation. -/
structure Unhindered (cmd : Command) (t : Task) (s : Session) : Prop where
  start : t.phase = .start → cmd.negotiates = true →
    s.negotiation.settled = true ∨ s.negotiation.turn.line = []
  cell : t.phase = .cell → s.negotiation.settled = true ∨ s.negotiation.turn.isHeldBy t.id = true

/-- A task that is `Unhindered` is so after an action. -/
theorem Unhindered.act {phase : Phase} {g : Ground} {now : Nat} {transaction : UInt32}
    (h : Unhindered cmd t s) (hjob : t.job = .command cmd)
    (hact : t.act now ⟨transaction, s⟩ = some (.ongoing phase, g)) :
    Unhindered cmd { t with phase } g.session := by
  rw [Task.act, hjob] at hact
  have haction := Task.actedCommand hact
  refine ⟨?_, ?_⟩
  · rintro rfl
    exact absurd rfl haction.ne_start
  · rintro rfl
    obtain ⟨hphase, hneg, hsettled, hturn⟩ := haction.of_cell
    obtain hsettled' | hline := h.start hphase hneg
    · cases hsettled.symm.trans hsettled'
    · right
      rw [hturn, Turn.isHeldBy_iff, Turn.join, hline]
      rfl

/-- A task that is `Unhindered` is told that the session is terminated, after few actions. -/
theorem Barred.ends_alone {d : Nat} (h : c.Barred n k cmd) (hk : c.task? k = some t)
    (hs : c.session? n = some s) (hfree : Unhindered cmd t s) (hd : t.phase.toGo ≤ d) :
    (k, .error .terminated) ∈ (c.run (List.replicate d (.task k))).finished := by
  induction d generalizing c t s with
  | zero =>
    have hpos := (h.task t hk).2.2.toGo_pos
    omega
  | succ d ih =>
    have hrun : c.run (List.replicate (d + 1) (.task k)) =
        (c.step (.task k)).run (List.replicate d (.task k)) := rfl
    rw [hrun]
    obtain ⟨rfl, hjob, -⟩ := h.task t hk
    obtain ⟨hphase, hsettled, hheld, -⟩ | hfinished | ⟨phase, g, hact, hlt⟩ := h.advances hk hs
    · obtain hsettled' | hheld' := hfree.cell hphase
      · cases hsettled.symm.trans hsettled'
      · rw [id_of_task? hk, hheld] at hheld'
        cases hheld'
    · exact finished_subset_alone _ k d hfinished
    · obtain ⟨hat, -⟩ := (⟨hk, hs⟩ : c.At k t s).step hact
      exact ih (h.leads (c.leads (.task k))) hat.task hat.session (hfree.act hjob hact)
        (Nat.le_of_lt_succ (Nat.lt_of_lt_of_le hlt hd))

/-- A command that is started on a session that is ending and then left alone is told that the session
is terminated, unless it needs the negotiation and somebody is in the line for it. -/
theorem refused_alone_iff {before : List Move} {d : Nat} (hs : (run {} before).session? n = some s)
    (hending : s.lifecycle.isConnected = false) (cmd : Command) (hd : 5 ≤ d) :
    ((run {} before).nextTask, .error .terminated) ∈ (run {} (before ++ .start n (.command cmd) ::
        List.replicate d (.task (run {} before).nextTask))).finished ↔
      (cmd.negotiates = true → s.negotiation.settled = true ∨ s.negotiation.turn.line = []) := by
  set k := (run {} before).nextTask
  have hfresh : (run {} before).task? k = none := (sealed_run before).ordered.distinct.task?_nextTask
  rw [List.append_cons, run_append]
  set c := run {} (before ++ [.start n (.command cmd)]) with hc
  have hat : c.At k ⟨k, n, .command cmd, .start⟩ s := by
    rw [hc, run_concat]
    exact ⟨task?_start hfresh, hs⟩
  have hbarred : c.Barred n k cmd := barred_run ⟨s, hs, hending⟩ cmd []
  constructor
  · intro hfinished hneg
    by_contra hline
    rw [not_or, Bool.not_eq_true] at hline
    obtain ⟨hsettled, hline⟩ := hline
    obtain ⟨d, rfl⟩ : ∃ d', d = d' + 1 := ⟨d - 1, by omega⟩
    -- It takes its place behind those who are there, and stays there.
    have hqueue : ({ id := k, session := n, job := .command cmd, phase := .start } : Task).act
        c.now ⟨c.nextTransaction, s⟩ = some (.ongoing .cell,
          ⟨c.nextTransaction, { s with negotiation.turn := s.negotiation.turn.join k }⟩) := by
      simp only [Task.act, Task.actCommand, hneg, hsettled]
      rfl
    obtain ⟨hat', -⟩ := hat.step hqueue
    have hheld : (s.negotiation.turn.join k).isHeldBy k = false := by
      obtain ⟨j, rest, hjoined⟩ := List.exists_cons_of_ne_nil hline
      have hj : j ∈ (s.turnFor .negotiation).line := by
        rw [Session.turnFor, hjoined]
        exact List.mem_cons_self
      obtain ⟨t', ht', -⟩ := (lined_run n before s hs .negotiation j).mp hj
      rw [← Bool.not_eq_true, Turn.isHeldBy_iff, Turn.join, hjoined]
      rintro ⟨⟩
      cases hfresh.symm.trans ht'
    have hstuck : ({ id := k, session := n, job := .command cmd, phase := .cell } : Task).act
        (c.step (.task k)).now ⟨(c.step (.task k)).nextTransaction,
          { s with negotiation.turn := s.negotiation.turn.join k }⟩ = none := by
      simp [Task.act, Task.actCommand, Task.actCell, hsettled, hheld]
    have hrun : c.run (List.replicate (d + 1) (.task k)) =
        (c.step (.task k)).run (List.replicate d (.task k)) := rfl
    rw [hrun, run_of_stuck hat'.task hat'.session hstuck, hc, ← run_concat] at hfinished
    have hgone := ((sealed_run _).ordered.reported _ hfinished).2
    rw [run_concat, ← hc] at hgone
    cases hgone.symm.trans hat'.task
  · intro hfree
    refine hbarred.ends_alone hat.task hat.session ⟨fun _ hneg => hfree hneg, ?_⟩ hd
    rintro ⟨⟩

end Client

end Dbgp
