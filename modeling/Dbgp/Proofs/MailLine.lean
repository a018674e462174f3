import Dbgp.Proofs.Finality
import Mathlib.Data.ENat.Basic

/-!
# The line for a mailbox

Those who receive from a mailbox do so one after another, and the time that a task is given begins only
when it is the first in line. `Task.goneBy` adds up the limits of a line: whoever receives is gone by its
deadline, and each of the others so long after the one before it as its limit says.

`Task.Moved` is all that a move can do to the line: somebody comes, the first one begins to receive, it goes,
or somebody is given up (`Client.moved`). A line loses only those who are in it, so nobody becomes due later
(`Task.Orderly.dueOf_le_of_moved`); with nothing to receive and nobody given up, nobody becomes due earlier
(`Task.Orderly.le_dueOf_of_moved`).
-/

namespace Dbgp

/-! ## When a line moves on -/

/-- The time by which something is over, where `none` means that it need never be. -/
def atLatest (time : Option Nat) : ℕ∞ :=
  time.elim ⊤ Nat.cast

/-- What receiving from a mailbox can come to: a packet or none, or that the session is
`terminated`. -/
inductive Tray.Returns : Tray → Except Error Reply → Prop
  | notify (o : Option Notify) : Returns .notifies (.ok (.notify o))
  | output (o : Option Output) : Returns .outputs (.ok (.output o))
  | terminated {b : Tray} : Returns b (.error .terminated)

/-- The limit of a job that receives, `nextNotify` or `nextOutput`. -/
def Job.limit? : Job → Option Nat
  | .nextNotify limit | .nextOutput limit => limit
  | _ => none

namespace Task

/-- When a `Task` in a line is gone at the latest, if those before it are gone by the time `start`. -/
def goneBy (start : ℕ∞) (t : Task) : ℕ∞ :=
  match t.phase with
  | .receive deadline => atLatest deadline
  | _ => start + atLatest t.job.limit?

/-- When the task with a number is gone from a line at the latest (`goneBy`), if the line moves from a
time on. -/
def dueOf (k : Nat) (start : ℕ∞) : List Task → ℕ∞
  | [] => ⊤
  | t :: q => if t.id = k then t.goneBy start else dueOf k (t.goneBy start) q

variable {k j now : Nat} {start start' : ℕ∞} {t : Task} {q : List Task}

/-- A task in `line` has all of its limit before it. -/
theorem goneBy_of_line (h : t.phase = .line) : t.goneBy start = start + atLatest t.job.limit? := by
  rw [goneBy, h]

/-- A task in `receive` is gone by its deadline. -/
theorem goneBy_of_receive {deadline : Option Nat} (h : t.phase = .receive deadline) :
    t.goneBy start = atLatest deadline := by
  rw [goneBy, h]

/-- Waiting in `line` takes no time back. -/
theorem le_goneBy_of_line (h : t.phase = .line) (start : ℕ∞) : start ≤ t.goneBy start := by
  rw [goneBy_of_line h]
  exact le_self_add

/-- Those who wait longer are gone later, by `goneBy`. -/
theorem goneBy_mono (h : start ≤ start') (t : Task) : t.goneBy start ≤ t.goneBy start' := by
  unfold goneBy
  split
  · exact le_refl _
  · exact add_le_add_left h _

/-- A line that moves later is due later, by `dueOf`. -/
theorem dueOf_mono (h : start ≤ start') (k : Nat) (q : List Task) :
    dueOf k start q ≤ dueOf k start' q := by
  induction q generalizing start start' with
  | nil => exact le_refl _
  | cons t q ih =>
    unfold dueOf
    split
    · exact goneBy_mono h t
    · exact ih (goneBy_mono h t)

/-- A line in which only the first one may have begun to `receive`, and has time left. -/
structure Orderly (now : Nat) (q : List Task) : Prop where
  nodup : (q.map Task.id).Nodup
  waiting : ∀ t ∈ q.tail, t.phase = .line
  first : ∀ t ∈ q.head?, t.phase = .line ∨
    ∃ deadline, t.phase = .receive deadline ∧ (now : ℕ∞) ≤ atLatest deadline

/-- The first in a line that is `Orderly` has time left. -/
theorem Orderly.le_goneBy (h : Orderly now (t :: q)) : (now : ℕ∞) ≤ t.goneBy now := by
  rcases h.first t rfl with hline | ⟨deadline, hreceive, hle⟩
  · exact le_goneBy_of_line hline now
  · rw [goneBy_of_receive hreceive]
    exact hle

/-- Where all are in `line`, nobody has to be gone already. -/
theorem le_dueOf_of_waiting (h : ∀ t ∈ q, t.phase = .line) (k : Nat) (start : ℕ∞) :
    start ≤ dueOf k start q := by
  induction q generalizing start with
  | nil => exact le_top
  | cons t q ih =>
    have hle := le_goneBy_of_line (h t List.mem_cons_self) start
    unfold dueOf
    split
    · exact hle
    · exact hle.trans (ih (fun t' ht' => h t' (List.mem_cons_of_mem _ ht')) _)

/-- Nobody in a line that is `Orderly` has to be gone already. -/
theorem Orderly.le_dueOf (h : Orderly now q) (k : Nat) : (now : ℕ∞) ≤ dueOf k now q := by
  cases q with
  | nil => exact le_top
  | cons t q =>
    unfold dueOf
    split
    · exact h.le_goneBy
    · exact h.le_goneBy.trans (le_dueOf_of_waiting h.waiting k _)

/-- Those who come later change nothing in `dueOf` for those who are there. -/
theorem dueOf_append (hk : k ∈ q.map Task.id) (start : ℕ∞) (r : List Task) :
    dueOf k start (q ++ r) = dueOf k start q := by
  induction q generalizing start with
  | nil => exact absurd hk List.not_mem_nil
  | cons t q ih =>
    rw [List.cons_append, dueOf, dueOf]
    split
    · rfl
    · next hne =>
      rcases List.mem_cons.mp hk with heq | hmem
      · exact absurd heq.symm hne
      · exact ih hmem _

/-- The last one in a line is due when the others are gone, by `goneBy`, and its own time is over. -/
theorem dueOf_concat (hk : t.id ∉ q.map Task.id) (start : ℕ∞) :
    dueOf t.id start (q ++ [t]) = t.goneBy (q.foldl goneBy start) := by
  induction q generalizing start with
  | nil => exact if_pos rfl
  | cons t' q ih =>
    rw [List.map_cons, List.mem_cons, not_or] at hk
    rw [List.cons_append, dueOf, if_neg (fun h => hk.1 h.symm), ih hk.2, List.foldl_cons]

/-- Whoever goes from a line takes no time from it: nobody's `dueOf` grows. -/
theorem dueOf_filter_cons_le (hne : j ≠ k) (hle : start ≤ t.goneBy start)
    (hrest : ∀ start, dueOf k start (q.filter fun t => t.id ≠ j) ≤ dueOf k start q) :
    dueOf k start ((t :: q).filter fun t => t.id ≠ j) ≤ dueOf k start (t :: q) := by
  by_cases hj : t.id = j
  · rw [List.filter_cons_of_neg (by simp [hj]), dueOf, if_neg (hj ▸ hne)]
    exact (hrest start).trans (dueOf_mono hle k q)
  · rw [List.filter_cons_of_pos (by simp [hj]), dueOf, dueOf]
    split
    · exact le_refl _
    · exact hrest _

/-- While all are in `line`, nobody becomes due later because another one goes. -/
theorem dueOf_filter_le_of_waiting (h : ∀ t ∈ q, t.phase = .line) (hne : j ≠ k) (start : ℕ∞) :
    dueOf k start (q.filter fun t => t.id ≠ j) ≤ dueOf k start q := by
  induction q generalizing start with
  | nil => exact le_refl _
  | cons t q ih =>
    apply dueOf_filter_cons_le hne
    · exact le_goneBy_of_line (h t List.mem_cons_self) start
    · exact ih fun t' ht' => h t' (List.mem_cons_of_mem _ ht')

/-- Nobody in a line that is `Orderly` becomes due later because another one goes. -/
theorem Orderly.dueOf_filter_le (h : Orderly now q) (hne : j ≠ k) :
    dueOf k now (q.filter fun t => t.id ≠ j) ≤ dueOf k now q := by
  cases q with
  | nil => exact le_refl _
  | cons t q => exact dueOf_filter_cons_le hne h.le_goneBy (dueOf_filter_le_of_waiting h.waiting hne)

/-- A line in which all wait is `Orderly`. -/
theorem orderly_of_waiting (hnodup : (q.map Task.id).Nodup) (h : ∀ t ∈ q, t.phase = .line)
    (now : Nat) : Orderly now q := by
  refine ⟨hnodup, fun t ht => h t (List.mem_of_mem_tail ht), fun t ht => .inl (h t ?_)⟩
  exact List.mem_of_mem_head? ht

/-- A line stays `Orderly` when somebody goes. -/
theorem Orderly.filter (h : Orderly now q) (j : Nat) : Orderly now (q.filter fun t => t.id ≠ j) := by
  have hnodup : ((q.filter fun t => t.id ≠ j).map Task.id).Nodup :=
    h.nodup.sublist (List.filter_sublist.map _)
  cases q with
  | nil => exact h
  | cons t q =>
    have hrest : ∀ t' ∈ q.filter fun t => t.id ≠ j, t'.phase = .line :=
      fun t' ht' => h.waiting t' (List.mem_of_mem_filter ht')
    by_cases hj : t.id = j
    · rw [List.filter_cons_of_neg (by simp [hj])] at hnodup ⊢
      exact orderly_of_waiting hnodup hrest now
    · rw [List.filter_cons_of_pos (by simp [hj])] at hnodup ⊢
      exact ⟨hnodup, hrest, h.first⟩

/-- Whoever is in `receive` is the first in an `Orderly` line, and the others follow when it goes. -/
theorem Orderly.of_receive {deadline : Option Nat} (h : Orderly now q) (ht : t ∈ q)
    (hphase : t.phase = .receive deadline) : q = t :: q.filter fun t' => t'.id ≠ t.id := by
  cases q with
  | nil => exact absurd ht List.not_mem_nil
  | cons t' q =>
    rcases List.mem_cons.mp ht with rfl | htail
    · have hnodup := h.nodup
      rw [List.map_cons, List.nodup_cons] at hnodup
      rw [List.filter_cons_of_neg (by simp), List.filter_eq_self.mpr]
      intro t' ht'
      refine decide_eq_true fun heq => hnodup.1 ?_
      exact heq ▸ List.mem_map_of_mem ht'
    · cases (h.waiting t htail).symm.trans hphase

/-- What a move does to a line. `calm` says that there is nothing to receive. -/
inductive Moved (now : Nat) (calm : Prop) (m : Client.Move) : List Task → List Task → Prop
  | same {q : List Task} : Moved now calm m q q
  | joined {q : List Task} {t : Task} : t.id ∉ q.map Task.id → t.phase = .line →
      Moved now calm m q (q ++ [t])
  | called {q : List Task} {t : Task} : t.phase = .line → Moved now calm m (t :: q)
      ({ t with phase := .receive (t.job.limit?.map (now + ·)) } :: q)
  | left {q : List Task} {t : Task} {deadline : Option Nat} : t ∈ q →
      t.phase = .receive deadline → (calm → reached now deadline = true) →
      Moved now calm m q (q.filter fun t' => t'.id ≠ t.id)
  | gaveUp {q : List Task} {j : Nat} : m = .cancel j →
      Moved now calm m q (q.filter fun t => t.id ≠ j)

variable {calm : Prop} {m : Client.Move} {q' : List Task}

/-- A task is `goneBy` the same time when its turn has come. -/
theorem goneBy_called (h : t.phase = .line) : goneBy now
    { t with phase := .receive (t.job.limit?.map (now + ·)) } = t.goneBy now := by
  rw [goneBy_of_line h, goneBy_of_receive rfl]
  cases t.job.limit? with
  | none => rfl
  | some l => exact Nat.cast_add now l

/-- A line that is `Moved` stays `Orderly`. -/
theorem Orderly.moved (h : Orderly now q) (hmoved : Moved now calm m q q') : Orderly now q' := by
  cases hmoved with
  | same => exact h
  | @joined _ t hnew hline =>
    have hnodup : ((q ++ [t]).map Task.id).Nodup := by
      rw [List.map_append, List.map_singleton, List.nodup_append]
      refine ⟨h.nodup, by simp, fun i hi j hj heq => hnew ?_⟩
      rw [← List.mem_singleton.mp hj, ← heq]
      exact hi
    cases q with
    | nil => exact orderly_of_waiting hnodup (by simpa using hline) now
    | cons t' q =>
      refine ⟨hnodup, fun t'' ht'' => ?_, h.first⟩
      rcases List.mem_append.mp ht'' with hold | hnew
      · exact h.waiting t'' hold
      · rw [List.mem_singleton.mp hnew]
        exact hline
  | @called q t hline =>
    refine ⟨h.nodup, h.waiting, ?_⟩
    rintro t' ⟨⟩
    refine .inr ⟨_, rfl, ?_⟩
    have hle := h.le_goneBy
    rw [← goneBy_called hline, goneBy_of_receive rfl] at hle
    exact hle
  | left => exact h.filter _
  | gaveUp => exact h.filter _

/-- Who is still in line is not the one whom `filter` took out. -/
theorem mem_map_filter (hk : k ∈ (q.filter fun t => t.id ≠ j).map Task.id) : j ≠ k := by
  obtain ⟨t, ht, rfl⟩ := List.mem_map.mp hk
  have hne := List.of_mem_filter ht
  exact fun heq => absurd heq.symm (of_decide_eq_true hne)

/-- `dueOf` is the same for everybody when the first one's turn has come. -/
theorem dueOf_called (h : t.phase = .line) (k : Nat) (q : List Task) :
    dueOf k now ({ t with phase := .receive (t.job.limit?.map (now + ·)) } :: q) =
      dueOf k now (t :: q) := by
  rw [dueOf, dueOf, goneBy_called h]

/-- Nobody in line becomes due later when it is `Moved`. -/
theorem Orderly.dueOf_le_of_moved (h : Orderly now q) (hmoved : Moved now calm m q q')
    (hk : k ∈ q.map Task.id) (hk' : k ∈ q'.map Task.id) : dueOf k now q' ≤ dueOf k now q := by
  cases hmoved with
  | same => exact le_refl _
  | joined => exact le_of_eq (dueOf_append hk _ _)
  | called hline => exact le_of_eq (dueOf_called hline k _)
  | left | gaveUp => exact h.dueOf_filter_le (mem_map_filter hk')

/-- With nothing to receive and nobody who gives up, nobody in line becomes due earlier by `dueOf`,
and whoever is gone was due. -/
theorem Orderly.le_dueOf_of_moved (h : Orderly now q) (hmoved : Moved now calm m q q') (hcalm : calm)
    (hkept : ∀ j, m ≠ .cancel j) (hk : k ∈ q.map Task.id) :
    (k ∈ q'.map Task.id → dueOf k now q ≤ dueOf k now q') ∧
      (k ∉ q'.map Task.id → dueOf k now q ≤ now) := by
  cases hmoved with
  | same => exact ⟨fun _ => le_refl _, fun hgone => absurd hk hgone⟩
  | joined =>
    refine ⟨fun _ => le_of_eq (dueOf_append hk _ _).symm, fun hgone => absurd ?_ hgone⟩
    rw [List.map_append]
    exact List.mem_append_left _ hk
  | called hline =>
    exact ⟨fun _ => le_of_eq (dueOf_called hline k _).symm, fun hgone => absurd hk hgone⟩
  | @left _ t deadline ht hphase hreached =>
    have hover : t.goneBy now ≤ now := by
      rw [goneBy_of_receive hphase]
      have hdue := hreached hcalm
      cases deadline with
      | none => cases hdue
      | some d => exact Nat.cast_le.mpr (of_decide_eq_true hdue)
    have hq := h.of_receive ht hphase
    constructor
    · intro hk'
      have hne := mem_map_filter hk'
      conv_lhs => rw [hq, dueOf, if_neg hne]
      exact dueOf_mono hover k _
    · intro hgone
      rw [hq, List.map_cons, List.mem_cons] at hk
      rw [hq, dueOf, if_pos (hk.resolve_right hgone).symm]
      exact hover
  | gaveUp hm => exact absurd hm (hkept _)

/-- While the first one is in `receive` and has time left, time that passes makes nobody due later or
earlier. -/
theorem Orderly.later {now' : Nat} (h : Orderly now q)
    (hfirst : ∀ t ∈ q.head?, ∃ deadline, t.phase = .receive deadline ∧ (now' : ℕ∞) ≤ atLatest deadline) :
    Orderly now' q ∧ ∀ k, dueOf k now' q = dueOf k now q := by
  refine ⟨⟨h.nodup, h.waiting, fun t ht => .inr (hfirst t ht)⟩, fun k => ?_⟩
  cases q with
  | nil => rfl
  | cons t q =>
    obtain ⟨deadline, hphase, -⟩ := hfirst t rfl
    rw [dueOf, dueOf, goneBy_of_receive hphase, goneBy_of_receive hphase]

end Task

namespace Task

variable {now : Nat} {t : Task} {g g' : Ground} {p : Progress Phase Reply} {b : Tray}

/-- The two jobs with a mailbox, `nextNotify` and `nextOutput`, each with its own. -/
theorem tray_cases (hjob : t.job.tray? = some b) :
    (∃ limit, t.job = .nextNotify limit ∧ b = .notifies) ∨
      ∃ limit, t.job = .nextOutput limit ∧ b = .outputs := by
  cases hj : t.job with
  | nextNotify limit | nextOutput limit =>
    rw [hj] at hjob
    cases hjob
    simp
  | command _ | expectResponse _ | forgetResponse _ | awaitResponse _ _ | terminate | awaitEnd =>
    rw [hj] at hjob
    cases hjob

/-- What a task that receives does, as a `MailAction` with its limit. -/
theorem acted_limit (hjob : t.job.tray? = some b) (h : t.act now g = some (p, g')) :
    MailAction t.id now t.job.limit? t.phase (g.session.held b) (g.session.isShut b)
      (g.session.turnFor (.mail b)) p (g'.session.held b) (g'.session.turnFor (.mail b)) := by
  rw [act] at h
  rcases tray_cases hjob with ⟨limit, hj, rfl⟩ | ⟨limit, hj, rfl⟩
  all_goals
    rw [hj] at h ⊢
    obtain ⟨box, rfl, -, haction⟩ := acted_box rfl h
    exact haction

/-- A task that goes on by a `MailAction` is in `line` or at the head of it. -/
theorem MailAction.stands {task : Nat} {limit : Option Nat} {phase phase' : Phase}
    {held held' : List Reply} {shut : Bool} {turn turn' : Turn}
    (h : MailAction task now limit phase held shut turn (.ongoing phase') held' turn') :
    phase' = .line ∨ ∃ deadline, phase' = .receive deadline := by
  cases h with
  | joined => exact .inl rfl
  | called => exact .inr ⟨_, rfl⟩

/-- `actReceive` is stuck only before its turn or before its deadline. -/
theorem actReceive_waits {task : Nat} {limit : Option Nat} {phase : Phase} {box : Mailbox α}
    {put : Mailbox α → Session} {reply : Option α → Reply} (hphase : phase.IsMail)
    (hstuck : actReceive task now limit phase box put reply g = none) :
    phase = .line ∧ box.turn.isHeldBy task = false ∨
      ∃ deadline, phase = .receive deadline ∧ reached now deadline = false := by
  rcases hphase with rfl | rfl | ⟨deadline, rfl⟩
  · cases hstuck
  · rw [actReceive] at hstuck
    split at hstuck
    · cases hstuck
    · next hheld => exact .inl ⟨rfl, by simpa using hheld⟩
  · refine .inr ⟨deadline, rfl, ?_⟩
    simp only [actReceive, Mailbox.look] at hstuck
    split at hstuck
    · cases hstuck
    · cases hstuck
    · split at hstuck
      · cases hstuck
      · next hreached => exact Bool.eq_false_iff.mpr hreached

/-- A task that receives and cannot act is in `line` without the turn, or in `receive` before its
limit. -/
theorem waits_of_stuck (hjob : t.job.tray? = some b) (hphase : t.phase.IsMail)
    (hstuck : t.act now g = none) :
    t.phase = .line ∧ (g.session.turnFor (.mail b)).isHeldBy t.id = false ∨
      ∃ deadline, t.phase = .receive deadline ∧ reached now deadline = false := by
  rw [act] at hstuck
  rcases tray_cases hjob with ⟨limit, hj, rfl⟩ | ⟨limit, hj, rfl⟩
  all_goals
    rw [hj] at hstuck
    exact actReceive_waits hphase hstuck

/-- `Task.abandon` leaves the line for a mailbox if the task is in it. -/
theorem turnFor_abandon (t : Task) (s : Session) (b : Tray) :
    (t.abandon s).turnFor (.mail b) = (s.turnFor (.mail b)).leave t.id ∨
      (t.abandon s).turnFor (.mail b) = s.turnFor (.mail b) ∧ ¬t.StandsIn (.mail b) := by
  cases hphase : t.phase with
  | line | receive deadline =>
    left
    rw [abandon, hphase]
    cases b <;> rfl
  | negotiate x =>
    refine .inr ⟨?_, by simp [StandsIn, hphase]⟩
    rw [abandon, hphase]
    have hsame := ((Session.sameMail_of_exchanged (x.exchanged_abandon t.id s)).mail b).2.2
    cases b <;> exact hsame
  | exchange x =>
    refine .inr ⟨?_, by simp [StandsIn, hphase]⟩
    rw [abandon, hphase]
    exact ((Session.sameMail_of_exchanged (x.exchanged_abandon t.id s)).mail b).2.2
  | cell | finish _ =>
    refine .inr ⟨?_, by simp [StandsIn, hphase]⟩
    rw [abandon, hphase]
    cases b <;> rfl
  | start | prepare | await _ =>
    refine .inr ⟨?_, by simp [StandsIn, hphase]⟩
    rw [abandon, hphase]

/-- A task that receives begins by `join` for its mailbox. -/
theorem act_of_start (hjob : t.job.tray? = some b) (hphase : t.phase = .start) (now : Nat)
    (g : Ground) : ∃ g', t.act now g = some (.ongoing .line, g') ∧
      g'.session.turnFor (.mail b) = (g.session.turnFor (.mail b)).join t.id := by
  rcases tray_cases hjob with ⟨limit, hj, rfl⟩ | ⟨limit, hj, rfl⟩
  all_goals
    rw [act, hj, hphase]
    exact ⟨_, rfl, rfl⟩

/-- `actReceive` ends with the end of the session, or with what is there. -/
theorem actReceive_returns {task : Nat} {limit : Option Nat} {phase : Phase} {box : Mailbox α}
    {put : Mailbox α → Session} {reply : Option α → Reply} {result : Except Error Reply}
    (h : actReceive task now limit phase box put reply g = some (.finished result, g')) :
    result = .error .terminated ∨ ∃ o, result = .ok (reply o) := by
  unfold actReceive at h
  split at h
  · cases h
  · split at h <;> cases h
  · split at h
    · cases h
      exact .inr ⟨_, rfl⟩
    · cases h
      exact .inl rfl
    · split at h
      · cases h
        exact .inr ⟨_, rfl⟩
      · cases h
  · cases h

/-- A task that receives comes to one of `Tray.Returns`. -/
theorem returns_of_act {result : Except Error Reply} (hjob : t.job.tray? = some b)
    (h : t.act now g = some (.finished result, g')) : b.Returns result := by
  rw [act] at h
  rcases tray_cases hjob with ⟨limit, hj, rfl⟩ | ⟨limit, hj, rfl⟩
  · rw [hj] at h
    rcases actReceive_returns h with rfl | ⟨o, rfl⟩
    · exact .terminated
    · exact .notify o
  · rw [hj] at h
    rcases actReceive_returns h with rfl | ⟨o, rfl⟩
    · exact .terminated
    · exact .output o

end Task

namespace Client

variable {c c' : Client} {m : Move} {n j k : Nat} {t : Task} {s : Session} {b : Tray}

/-! ## The line for a mailbox -/

/-- The numbers in the line for a mailbox, by `turnFor`. -/
def lineFor (n : Nat) (b : Tray) (c : Client) : List Nat :=
  ((c.session? n).map fun s => (s.turnFor (.mail b)).line).getD []

/-- The tasks in the line for a mailbox, in the order of `lineFor`. -/
def queue (n : Nat) (b : Tray) (c : Client) : List Task :=
  (c.lineFor n b).filterMap fun j => c.task? j

/-- There is nothing to receive from a mailbox: it is empty and not closed, by `held` and `isShut`. -/
def Calm (n : Nat) (b : Tray) (c : Client) : Prop :=
  ∀ s, c.session? n = some s → s.held b = [] ∧ s.isShut b = false

/-- The numbers in line are those of the `Turn` of the mailbox. -/
theorem lineFor_eq (hs : c.session? n = some s) : c.lineFor n b = (s.turnFor (.mail b)).line := by
  rw [lineFor, hs]
  rfl

/-- Behind each number in `lineFor` there is a task that stands there. -/
theorem Lined.exists_task (h : c.Lined n) (hj : j ∈ c.lineFor n b) :
    ∃ t, c.task? j = some t ∧ t.session = n ∧ t.StandsIn (.mail b) := by
  cases hs : c.session? n with
  | none =>
    rw [lineFor, hs] at hj
    exact absurd hj List.not_mem_nil
  | some s =>
    rw [lineFor_eq hs] at hj
    exact (h s hs (.mail b) j).mp hj

/-- A task in `start` is in no line. -/
theorem Lined.not_mem_of_start (h : c.Lined n) (hk : c.task? k = some t) (hphase : t.phase = .start) :
    t.id ∉ c.lineFor n b := by
  intro hmem
  rw [id_of_task? hk] at hmem
  obtain ⟨t', ht', -, -, hphase' | ⟨deadline, hphase'⟩⟩ := h.exists_task hmem
  all_goals
    cases hk.symm.trans ht'
    cases hphase.symm.trans hphase'

/-- Who is in the `queue`: the tasks whose numbers are in line. -/
theorem mem_queue : t ∈ c.queue n b ↔ t.id ∈ c.lineFor n b ∧ c.task? t.id = some t := by
  rw [queue, List.mem_filterMap]
  constructor
  · rintro ⟨j, hj, ht⟩
    rw [id_of_task? ht]
    exact ⟨hj, ht⟩
  · rintro ⟨hid, ht⟩
    exact ⟨t.id, hid, ht⟩

/-- The `queue` has the numbers of the line, in order. -/
theorem Lined.map_id_queue (h : c.Lined n) : (c.queue n b).map Task.id = c.lineFor n b := by
  have hthere : ∀ line : List Nat, (∀ j ∈ line, ∃ t, c.task? j = some t) →
      (line.filterMap fun j => c.task? j).map Task.id = line := by
    intro line
    induction line with
    | nil => exact fun _ => rfl
    | cons j line ih =>
      intro hline
      obtain ⟨t, ht⟩ := hline j List.mem_cons_self
      have hrest := ih fun i hi => hline i (List.mem_cons_of_mem _ hi)
      simp only [List.filterMap_cons, ht, List.map_cons, id_of_task? ht, hrest]
  apply hthere
  intro j hj
  obtain ⟨t, ht, -⟩ := h.exists_task hj
  exact ⟨t, ht⟩

/-- The same line of the same tasks is the same `queue`. -/
theorem queue_congr (hline : c'.lineFor n b = c.lineFor n b)
    (htask : ∀ j ∈ c.lineFor n b, c'.task? j = c.task? j) : c'.queue n b = c.queue n b := by
  rw [queue, queue, hline]
  exact List.filterMap_congr htask

/-- The `queue` when one task goes from the line, and the others stay as they are. -/
theorem queue_filter (hline : c'.lineFor n b = (c.lineFor n b).filter fun j => j ≠ k)
    (htask : ∀ j, j ≠ k → c'.task? j = c.task? j) :
    c'.queue n b = (c.queue n b).filter fun t => t.id ≠ k := by
  rw [queue, queue, hline]
  generalize c.lineFor n b = line
  induction line with
  | nil => rfl
  | cons j line ih =>
    by_cases hj : j = k
    · rw [List.filter_cons_of_neg (by simp [hj]), ih, List.filterMap_cons]
      cases ht : c.task? j with
      | none => rfl
      | some t => rw [List.filter_cons_of_neg (by simp [id_of_task? ht, hj])]
    · rw [List.filter_cons_of_pos (by simp [hj]), List.filterMap_cons, List.filterMap_cons, htask j hj]
      cases ht : c.task? j with
      | none => exact ih
      | some t => rw [List.filter_cons_of_pos (by simp [id_of_task? ht, hj]), ih]

/-- The `queue` when one task comes to the line, and the others stay as they are. -/
theorem queue_joined (hnew : t.id ∉ c.lineFor n b) (hline : c'.lineFor n b = c.lineFor n b ++ [t.id])
    (htask : c'.task? t.id = some t) (hothers : ∀ j, j ≠ t.id → c'.task? j = c.task? j) :
    c'.queue n b = c.queue n b ++ [t] := by
  rw [queue, hline, List.filterMap_append, queue]
  congr 1
  · refine List.filterMap_congr fun j hj => hothers j ?_
    rintro rfl
    exact hnew hj
  · simp only [List.filterMap_cons, htask, List.filterMap_nil]

/-- What an action of a task that receives from a mailbox does to the line for it is `Task.Moved`. -/
theorem moved_acted {p : Progress Phase Reply} {g : Ground} (hlined : c.Lined n)
    (hnodup : ((c.queue n b).map Task.id).Nodup) (hk : c.task? k = some t)
    (hs : c.session? n = some s) (hn : t.session = n) (hjob : t.job.tray? = some b)
    (hact : t.act c.now ⟨c.nextTransaction, s⟩ = some (p, g))
    (htask : ∀ j, c'.task? j = if j = k then p.ongoing?.map fun phase => { t with phase }
      else c.task? j)
    (hsession : c'.session? n = some g.session) :
    Task.Moved c.now (c.Calm n b) (.task k) (c.queue n b) (c'.queue n b) := by
  obtain rfl := id_of_task? hk
  have hothers : ∀ j, j ≠ t.id → c'.task? j = c.task? j := fun j hj => by rw [htask, if_neg hj]
  have haction := Task.acted_limit hjob hact
  have hline := lineFor_eq (b := b) hs
  have hline' := lineFor_eq (b := b) hsession
  generalize g.session.turnFor (.mail b) = turn at haction hline'
  generalize g.session.held b = held at haction
  rw [hlined.map_id_queue, hline] at hnodup
  -- Whoever has received leaves the line.
  have hgone : ∀ {deadline}, t.phase = .receive deadline →
      turn = (s.turnFor (.mail b)).leave t.id →
      (c.Calm n b → reached c.now deadline = true) →
      Task.Moved c.now (c.Calm n b) (.task t.id) (c.queue n b) (c'.queue n b) := by
    intro deadline hphase hturn hreached
    have hmem : t.id ∈ c.lineFor n b := by
      rw [hline]
      exact (hlined s hs (.mail b) t.id).mpr ⟨t, hk, hn, hjob, .inr ⟨deadline, hphase⟩⟩
    rw [queue_filter (k := t.id) (by rw [hline', hturn, hline]; rfl) hothers]
    exact .left (mem_queue.mpr ⟨hmem, hk⟩) hphase hreached
  cases haction with
  | joined hphase =>
    have hnew := hlined.not_mem_of_start (b := b) hk hphase
    rw [queue_joined (t := { t with phase := .line }) hnew (by rw [hline', hline]; rfl)
      (by rw [htask, if_pos rfl]; rfl) hothers]
    exact .joined (by rw [hlined.map_id_queue]; exact hnew) rfl
  | called hphase hheld =>
    obtain ⟨rest, hrest⟩ : ∃ rest, (s.turnFor (.mail b)).line = t.id :: rest := by
      rw [Turn.isHeldBy_iff] at hheld
      exact List.head?_eq_some_iff.mp hheld
    rw [hrest] at hnodup hline hline'
    have hqueue : c.queue n b = t :: rest.filterMap fun j => c.task? j := by
      simp only [queue, hline, List.filterMap_cons, hk]
    have hqueue' : c'.queue n b =
        { t with phase := .receive (t.job.limit?.map (c.now + ·)) } ::
          rest.filterMap fun j => c.task? j := by
      have hsame : (rest.filterMap fun j => c'.task? j) = rest.filterMap fun j => c.task? j := by
        refine List.filterMap_congr fun j hj => hothers j ?_
        rintro rfl
        exact (List.nodup_cons.mp hnodup).1 hj
      simp only [queue, hline', List.filterMap_cons, htask t.id, if_true, Progress.ongoing?,
        Option.map_some, hsame]
    rw [hqueue, hqueue']
    exact .called hphase
  | took hphase hheld =>
    refine hgone hphase rfl ?_
    intro hcalm
    cases (hcalm s hs).1.symm.trans hheld
  | refused hphase hheld hshut =>
    refine hgone hphase rfl ?_
    intro hcalm
    cases (hcalm s hs).2.symm.trans hshut
  | timedOut hphase hheld hopen hreached => exact hgone hphase rfl fun _ => hreached

/-- What a move does to the line for a mailbox is `Task.Moved`, unless time passes. -/
theorem moved (hlined : c.Lined n) (hnodup : ((c.queue n b).map Task.id).Nodup) (m : Move)
    (hm : ∀ millis, m ≠ .pass millis) :
    Task.Moved c.now (c.Calm n b) m (c.queue n b) ((c.step m).queue n b) := by
  have houtcome := c.outcome m
  generalize c.step m = c' at houtcome
  -- Nobody comes or goes if neither the line nor the tasks in it change.
  have hsame : c'.lineFor n b = c.lineFor n b →
      (∀ j ∈ c.lineFor n b, ∀ t, c.task? j = some t → t.session = n → t.StandsIn (.mail b) →
        c'.task? j = c.task? j) →
      Task.Moved c.now (c.Calm n b) m (c.queue n b) (c'.queue n b) := by
    intro hline htask
    rw [queue_congr hline fun j hj => ?_]
    · exact .same
    · obtain ⟨t, ht, hn, hstands⟩ := hlined.exists_task hj
      exact htask j hj t ht hn hstands
  cases houtcome with
  | aside htask hsession =>
    apply hsame
    · have hpassed := hsession n
      rw [lineFor, lineFor]
      generalize c.session? n = o, c'.session? n = o' at hpassed
      cases hpassed with
      | absent => rfl
      | beside hbeside =>
        rw [Option.map_some, Option.map_some, Session.turnFor_of_beside hbeside]
      | opened => cases b <;> rfl
    · intro j _ t ht _ _
      rcases htask j with hsame | ⟨hnone, -⟩
      · exact hsame
      · cases hnone.symm.trans ht
  | @received j s s' _ hs hstep htask hsession =>
    apply hsame
    · rw [lineFor, lineFor, hsession]
      split
      · next hn =>
        rw [hn, hs, Option.map_some, Option.map_some, Session.turnFor_receiverStep hstep]
      · rfl
    · exact fun j _ _ _ _ _ => htask j
  | @acted k t s p g hm' hk hs hact htask hsession =>
    have hs' := hsession n
    by_cases hn : t.session = n
    · rw [if_pos hn.symm] at hs'
      by_cases hjob : t.job.tray? = some b
      · rw [hm']
        exact moved_acted hlined hnodup hk (hn ▸ hs) hn hjob hact htask hs'
      · apply hsame
        · rw [lineFor_eq hs', lineFor_eq (hn ▸ hs), (Task.mail_act hjob hact).2.2]
        · rintro j - t' ht' - hstands
          rw [htask, if_neg]
          rintro rfl
          cases hk.symm.trans ht'
          exact hjob hstands.1
    · apply hsame
      · rw [lineFor, lineFor, hs', if_neg fun h => hn h.symm]
      · rintro j - t' ht' hn' -
        rw [htask, if_neg]
        rintro rfl
        cases hk.symm.trans ht'
        exact hn hn'
  | @abandoned k t hm' hk htask hsession =>
    have hs' := hsession n
    have hothers : ∀ j, j ≠ k → c'.task? j = c.task? j := fun j hj => by rw [htask, if_neg hj]
    -- Whoever is not in the line does not matter to it.
    have hapart : (t.session = n → ¬t.StandsIn (.mail b)) → ∀ j ∈ c.lineFor n b, ∀ t',
        c.task? j = some t' → t'.session = n → t'.StandsIn (.mail b) → c'.task? j = c.task? j := by
      intro hnot j _ t' ht' hn' hstands
      refine hothers j ?_
      rintro rfl
      cases hk.symm.trans ht'
      exact hnot hn' hstands
    by_cases hn : t.session = n
    · rw [if_pos hn.symm] at hs'
      cases hs : c.session? n with
      | none =>
        rw [hs] at hs'
        apply hsame
        · rw [lineFor, lineFor, hs, hs', Option.map_none]
        · intro j hj
          rw [lineFor, hs] at hj
          exact absurd hj List.not_mem_nil
      | some s =>
        rw [hs, Option.map_some] at hs'
        obtain rfl := id_of_task? hk
        rcases t.turnFor_abandon s b with hleft | ⟨hstays, hnot⟩
        · rw [queue_filter (k := t.id) (by rw [lineFor_eq hs', hleft, lineFor_eq hs]; rfl) hothers]
          exact .gaveUp hm'
        · apply hsame
          · rw [lineFor_eq hs', lineFor_eq hs, hstays]
          · exact hapart fun _ => hnot
    · rw [if_neg fun h => hn h.symm] at hs'
      apply hsame
      · rw [lineFor, lineFor, hs']
      · exact hapart fun h => absurd h hn
  | forwarded hm' => exact absurd hm' (hm 0)

end Client

end Dbgp
