import Dbgp.Proofs.CommandRequest
import Dbgp.Proofs.OwnRequest
import Dbgp.Proofs.RequestStream

/-!
# The stream of commands

Many tasks write on one session, each of them piece by piece as the other side takes it. A task that
writes has the outlet to itself, so what it writes of a request stands together. The stream therefore
falls into segments, one for each request, and each is the start of that request. `Due` is what a task
has still to write of a request, and `Ledger` relates it to the segments so far.

A task that is given up leaves the outlet at once, wherever it was in its request. What it has written
stays, and the next request comes right after it. A stream is whole requests and at most the start of
the one that is being written exactly as long as no task has stopped halfway. After a task has, the next
request is read as the rest of the broken one.
-/

namespace Dbgp

/-! ## Who has the outlet -/

/-- What a task can do to a `Turn`: join it, leave it, or nothing. -/
inductive Turn.Change (k : Nat) (t : Turn) : Turn → Prop
  | same : Change k t t
  | joined : Change k t (t.join k)
  | left : Change k t (t.leave k)

/-- A `Turn.Change` takes nobody else's turn away. -/
theorem Turn.Change.isHeldBy {k j : Nat} {t t' : Turn} (h : t.Change k t') (hne : j ≠ k)
    (hj : t.isHeldBy j = true) : t'.isHeldBy j = true := by
  cases h with
  | same => exact hj
  | joined => exact isHeldBy_join hj
  | left => exact isHeldBy_leave hj hne

/-- `Outlet.write` moves nobody in the line for the outlet. -/
theorem Outlet.turn_write {o o' : Outlet} {bytes : List UInt8} {w : Written}
    (h : o.write bytes = some (w, o')) : o'.turn = o.turn := by
  cases writes h <;> rfl

/-- An action of an `EndRequest` joins or leaves the line for the outlet, if it changes it. -/
theorem EndRequest.Action.turn {task : Nat} {r : EndRequest} {s s' : Session}
    {p : Progress EndRequest Unit} (h : r.Action task s p s') :
    s.outlet.turn.Change task s'.outlet.turn := by
  cases h with
  | begun | stopped => exact .same
  | joined => exact .joined
  | shut =>
    have hturn : s.outlet.close.turn = s.outlet.turn := by
      rw [Outlet.close]
      split <;> rfl
    show s.outlet.turn.Change task (s.outlet.close.turn.leave task)
    rw [hturn]
    exact .left

/-- An action of an `Exchange` joins or leaves the line for the outlet, if it changes it. -/
theorem Exchange.Action.turn {task now : Nat} {x : Exchange} {s s' : Session}
    {p : Progress Exchange (Option Response)} (h : x.Action task now s p s') :
    s.outlet.turn.Change task s'.outlet.turn := by
  cases h with
  | announced => exact .joined
  | wrote _ hwrite =>
    rw [← Outlet.turn_write hwrite]
    exact .same
  | broke _ hwrite | sent _ _ hwrite | dropped _ _ hwrite =>
    rw [← Outlet.turn_write hwrite]
    exact .left
  | dead =>
    rw [(x.release_keeps _).1]
    exact .left
  | refused | timedOut | obtained =>
    rw [(x.release_keeps _).1]
    exact .same
  | ending _ hr => exact (EndRequest.acted hr).turn
  | ended _ hr =>
    rw [(x.release_keeps _).1]
    exact (EndRequest.acted hr).turn
  | entered | turnedAway | expected | unexpected | begun | waited => exact .same

namespace Task

/-- So does every action of a task, by `Task.act`. -/
theorem turn_act {now : Nat} {t : Task} {g g' : Ground} {p : Progress Phase Reply}
    (h : t.act now g = some (p, g')) : g.session.outlet.turn.Change t.id g'.session.outlet.turn := by
  cases acted h with
  | command _ hc =>
    cases hc with
    | negotiating _ hx | settled _ hx | exchanging _ hx | concluded _ hx =>
      exact (Exchange.acted hx).turn
    | queued | ready | passed | skipped | opened | prepared => exact .same
  | ending _ _ hr | ended _ _ hr => exact (EndRequest.acted hr).turn
  | mailed | expected | unexpected | forgot | awaiting | waited | answered | terminating | sawEnd =>
    exact .same

/-- `Task.abandon` at most leaves the line for the outlet. -/
theorem turn_abandon (t : Task) (s : Session) :
    s.outlet.turn.Change t.id (t.abandon s).outlet.turn := by
  have hexchange : ∀ x : Exchange, s.outlet.turn.Change t.id (x.abandon t.id s).outlet.turn := by
    intro x
    rw [Exchange.abandon]
    split
    · exact .same
    · exact .same
    · rw [(x.release_keeps _).1]
      exact .left
  rw [abandon]
  split
  case h_2 x _ | h_3 x _ => exact hexchange x
  case h_6 => exact .left
  all_goals exact .same

end Task

/-! ## What is still to be written -/

/-- What a task has still to write of a request: `all` before it has begun to, then the `rest`, then
`nothing`. -/
inductive Due where
  /-- It has written nothing of it yet, and may never come to it. -/
  | all
  /-- It is writing, and these octets are left. -/
  | rest (r : Request) (left : List UInt8)
  /-- It does not write any more. -/
  | nothing
  deriving DecidableEq

namespace Due

/-- The request is being written: what is due is a `rest`. -/
def IsRest (due : Due) : Prop :=
  ∃ r left, due = .rest r left

/-- Some of the request has been written, and not all: the `rest` is not the whole of it. -/
def isHalfway : Due → Bool
  | .rest r left => left ≠ r.encode
  | _ => false

/-- A request that `isHalfway` is being written. -/
theorem isRest_of_isHalfway {due : Due} (h : due.isHalfway = true) : due.IsRest := by
  cases due with
  | rest r left => exact ⟨r, left, rfl⟩
  | all | nothing => cases h

/-- What becomes of a `Due` when octets are written. -/
inductive Change : Due → List UInt8 → Due → Prop
  | same {due : Due} : Change due [] due
  | skipped : Change .all [] .nothing
  | begun {r : Request} : Change .all [] (.rest r r.encode)
  | wrote {r : Request} {left d left' : List UInt8} : d ++ left' = left → left' ≠ [] →
      Change (.rest r left) d (.rest r left')
  | sent {r : Request} {left : List UInt8} : Change (.rest r left) left .nothing
  | stopped {r : Request} {left : List UInt8} : Change (.rest r left) [] .nothing

/-- A task that is gone writes nothing any more, which is a `Due.Change` too. -/
theorem change_nothing (due : Due) : due.Change [] .nothing := by
  cases due with
  | all => exact .skipped
  | rest => exact .stopped
  | nothing => exact .same

end Due

/-- What is `Due` of the request of an exchange, by its phase. -/
def Exchange.due (x : Exchange) : Due :=
  match x.phase with
  | .enter | .expect | .announce | .line => .all
  | .write left => .rest x.request left
  | .await _ | .failed _ _ => .nothing

/-- What is still to be written of the negotiation `ahead` of a command, or of the request of the
command. -/
def Phase.due (ahead : Bool) : Phase → Due
  | .start | .cell => .all
  | .negotiate x => if ahead then x.due else .all
  | .prepare => if ahead then .nothing else .all
  | .exchange x => if ahead then .nothing else x.due
  | _ => .nothing

/-- What is `Due` of a request of a task: that of its command, or the one `ahead` of it. -/
def Task.due (ahead : Bool) (t : Task) : Due :=
  match t.job with
  | .command _ => t.phase.due ahead
  | _ => .all

/-- What is due after an action; once it is `finished`, nothing. -/
def Progress.due (due : ρ → Due) : Progress ρ α → Due
  | .ongoing state => due state
  | .finished _ => .nothing

/-- A task that writes has a command, and is at the `Exchange` whose request it writes. -/
theorem Task.exchange_of_due {t : Task} {ahead : Bool} {r : Request} {left : List UInt8}
    (h : t.due ahead = .rest r left) :
    ∃ c x, t.job = .command c ∧ t.phase = (if ahead then .negotiate x else .exchange x) ∧
      x.due = .rest r left := by
  unfold due at h
  split at h
  · next c hjob =>
    refine ⟨c, ?_⟩
    cases hphase : t.phase with
    | negotiate x =>
      rw [hphase] at h
      cases ahead with
      | false => cases h
      | true => exact ⟨x, hjob, rfl, h⟩
    | exchange x =>
      rw [hphase] at h
      cases ahead with
      | true => cases h
      | false => exact ⟨x, hjob, rfl, h⟩
    | start | cell | prepare | line | receive _ | await _ | finish _ =>
      rw [hphase] at h
      cases ahead <;> cases h
  · cases h

/-- A task writes one request at a time: its own, or the one `ahead` of it. -/
theorem Task.eq_of_isRest {t : Task} {a b : Bool} (ha : (t.due a).IsRest) (hb : (t.due b).IsRest) :
    a = b := by
  obtain ⟨_, _, ha⟩ := ha
  obtain ⟨_, _, hb⟩ := hb
  obtain ⟨_, x, -, hx, -⟩ := exchange_of_due ha
  obtain ⟨_, y, -, hy, -⟩ := exchange_of_due hb
  have hphase := hx.symm.trans hy
  cases a <;> cases b <;> first | rfl | cases hphase

/-- What an action of an exchange writes. It writes on or comes to the end of its request, unless the
other side has failed with `onWrite`. -/
structure Exchange.Advance (x : Exchange) (o o' : Outlet) (p : Progress Exchange (Option Response))
    (d : List UInt8) : Prop where
  written : o'.written = o.written ++ d
  change : x.due.Change d (p.due Exchange.due)
  writing : d ≠ [] → ∃ left, x.due = .rest x.request left
  fault : ∀ r left, x.due = .rest r left → left ≠ [] →
    (o.fault = some .onWrite ↔ d = [] ∧ p.due Exchange.due = .nothing)

/-- What is due of an exchange in the phase `write` is what is left. -/
theorem Exchange.due_of_write {x : Exchange} {left : List UInt8} (h : x.phase = .write left) :
    x.due = .rest x.request left := by
  rw [due, h]

/-- An action that writes nothing is an `Exchange.Advance`, where nothing is being written. -/
theorem Exchange.advance_quiet {x : Exchange} {o o' : Outlet} {p : Progress Exchange (Option Response)}
    (hwritten : o'.written = o.written) (hchange : x.due.Change [] (p.due Exchange.due))
    (hphase : ∀ r left, x.due ≠ .rest r left) : x.Advance o o' p [] where
  written := by rw [hwritten, List.append_nil]
  change := hchange
  writing h := absurd rfl h
  fault r left hleft := absurd hleft (hphase r left)

/-- One `Outlet.write` of an exchange is an `Exchange.Advance`, whatever it comes to. -/
theorem Exchange.advance_write {x : Exchange} {left : List UInt8} {w : Outlet.Written}
    {o o₁ o' : Outlet} {p : Progress Exchange (Option Response)}
    (hphase : x.phase = .write left) (hwrite : o.write left = some (w, o₁))
    (hwritten : o'.written = o₁.written)
    (hpart : ∀ left', w = .part left' → p.due Exchange.due = .rest x.request left')
    (hall : (∀ left', w ≠ .part left') → p.due Exchange.due = .nothing) :
    ∃ d, x.Advance o o' p d := by
  have hdue := due_of_write hphase
  cases Outlet.writes hwrite with
  | refused hfault =>
    have hp := hall (by simp)
    refine ⟨[], by rw [List.append_nil, ← hwritten], ?_, fun h => absurd rfl h, fun _ _ _ _ => ?_⟩
    · rw [hdue, hp]
      exact .stopped
    · exact iff_of_true hfault ⟨rfl, hp⟩
  | @part d left' room hfault hleft hne =>
    have hp := hpart left' rfl
    refine ⟨d, hwritten, ?_, fun _ => ⟨_, hdue⟩, fun _ _ _ _ => iff_of_false hfault ?_⟩
    · rw [hdue, hp]
      exact .wrote hleft hne
    · rw [hp]
      simp
  | @whole w room hfault hw =>
    have hp := hall fun left' hleft' => by
      obtain hw | hw := hw <;> cases hw.symm.trans hleft'
    refine ⟨left, hwritten, ?_, fun _ => ⟨_, hdue⟩, fun r left' hleft' hne => ?_⟩
    · rw [hdue, hp]
      exact .sent
    · cases hdue.symm.trans hleft'
      exact iff_of_false hfault fun h => hne h.1

/-- Every action of an exchange is an `Exchange.Advance`. -/
theorem Exchange.Action.advance {task now : Nat} {x : Exchange} {s s' : Session}
    {p : Progress Exchange (Option Response)} (h : x.Action task now s p s') :
    ∃ d, x.Advance s.outlet s'.outlet p d := by
  have hover : p.due Exchange.due = .nothing → (∀ r left, x.due ≠ .rest r left) →
      s'.outlet.written = s.outlet.written →
      ∃ d, x.Advance s.outlet s'.outlet p d :=
    fun hp hdue hwritten => ⟨[], advance_quiet hwritten (hp ▸ Due.change_nothing _) hdue⟩
  have hsame : p.due Exchange.due = x.due → (∀ r left, x.due ≠ .rest r left) →
      s'.outlet.written = s.outlet.written →
      ∃ d, x.Advance s.outlet s'.outlet p d :=
    fun hp hdue hwritten => ⟨[], advance_quiet hwritten (hp ▸ .same) hdue⟩
  cases h with
  | wrote hphase hwrite => exact advance_write hphase hwrite rfl (by simp [Progress.due, due]) (by simp)
  | broke hphase hwrite => exact advance_write hphase hwrite rfl (by simp) (fun _ => rfl)
  | sent hphase _ hwrite => exact advance_write hphase hwrite rfl (by simp) (fun _ => rfl)
  | dropped hphase _ hwrite => exact advance_write hphase hwrite rfl (by simp) (fun _ => rfl)
  | begun hphase =>
    refine ⟨[], advance_quiet rfl ?_ (by simp [due, hphase])⟩
    rw [due, hphase]
    exact .begun
  | entered hphase =>
    refine hsame ?_ (by simp [due, hphase]) rfl
    cases x.answered <;> simp [Progress.due, due, hphase]
  | expected hphase | announced hphase | waited hphase =>
    exact hsame (by simp [Progress.due, due, hphase]) (by simp [due, hphase]) rfl
  | ending hphase hr =>
    exact hsame (by simp [Progress.due, due, hphase]) (by simp [due, hphase])
      (EndRequest.acted hr).written_eq
  | turnedAway hphase | unexpected hphase => exact hover rfl (by simp [due, hphase]) rfl
  | dead hphase | refused hphase | timedOut hphase | obtained hphase =>
    exact hover rfl (by simp [due, hphase]) (by rw [(x.release_keeps _).1])
  | ended hphase hr =>
    refine hover rfl (by simp [due, hphase]) ?_
    rw [(x.release_keeps _).1, (EndRequest.acted hr).written_eq]

/-! ## Tasks -/

namespace Task

variable {now : Nat} {t : Task} {g g' : Ground} {p : Progress Phase Reply}

/-- What a task writes with an action, where `after` is what is due after it. While it sends a
request, nothing changes for the other one. -/
inductive Emits (t : Task) (o o' : Outlet) (after : Bool → Due) : Prop
  | quiet : o'.written = o.written → (∀ ahead, (t.due ahead).Change [] (after ahead)) →
      (∀ ahead, ¬(t.due ahead).IsRest) → Emits t o o' after
  | sending {c : Command} {x : Exchange} {ahead : Bool} {q : Progress Exchange (Option Response)}
      {d : List UInt8} : (∀ octets, t.writing? octets = some ⟨t.id, c, ahead, x.request, octets⟩) →
      t.due ahead = x.due → after ahead = q.due Exchange.due → after (!ahead) = t.due (!ahead) →
      ¬(t.due (!ahead)).IsRest → x.Advance o o' q d → Emits t o o' after

/-- A task that is at an `Exchange` writes what the exchange writes. -/
theorem emits_sending {c : Command} {x : Exchange} {q : Progress Exchange (Option Response)}
    {o o' : Outlet} {after : Bool → Due} (ahead : Bool) (hjob : t.job = .command c)
    (hphase : t.phase = if ahead then .negotiate x else .exchange x)
    (hafter : after ahead = q.due Exchange.due)
    (hother : after (!ahead) = if ahead then .all else .nothing) (h : ∃ d, x.Advance o o' q d) :
    t.Emits o o' after := by
  obtain ⟨d, hadvance⟩ := h
  have hdue : ∀ a, t.due a = t.phase.due a := by
    intro a
    rw [due, hjob]
  have hkept : t.due (!ahead) = if ahead then .all else .nothing := by
    rw [hdue, hphase]
    cases ahead <;> rfl
  refine .sending (c := c) (fun octets => ?_) ?_ hafter (hother.trans hkept.symm) ?_ hadvance
  · cases ahead <;> simp [writing?, hjob, hphase]
  · rw [hdue, hphase]
    cases ahead <;> rfl
  · rw [hkept]
    cases ahead <;> rintro ⟨_, _, ⟨⟩⟩

/-- What a command writes with an action is as `Emits` says. -/
theorem emits_command {c : Command} (hjob : t.job = .command c)
    (h : CommandAction t.id now c t.phase g p g') :
    t.Emits g.session.outlet g'.session.outlet fun ahead => p.due (Phase.due ahead) := by
  cases h with
  | queued hphase | ready hphase | passed hphase | skipped hphase | opened hphase | prepared hphase =>
    refine .quiet rfl (fun ahead => ?_) (fun ahead => ?_)
    · rw [due, hjob, hphase]
      cases ahead <;> first | exact .same | exact .skipped
    · rw [due, hjob, hphase]
      cases ahead <;> rintro ⟨_, _, ⟨⟩⟩
  | negotiating hphase hx => exact emits_sending true hjob hphase rfl rfl (Exchange.acted hx).advance
  | settled hphase hx => exact emits_sending true hjob hphase rfl rfl (Exchange.acted hx).advance
  | exchanging hphase hx => exact emits_sending false hjob hphase rfl rfl (Exchange.acted hx).advance
  | concluded hphase hx => exact emits_sending false hjob hphase rfl rfl (Exchange.acted hx).advance

/-- What a task writes with an action is as `Emits` says. -/
theorem emits_act (h : t.act now g = some (p, g')) :
    t.Emits g.session.outlet g'.session.outlet
      fun ahead => p.due fun phase => due ahead { t with phase } := by
  have hsilent : (∀ c, t.job ≠ .command c) →
      g'.session.outlet.written = g.session.outlet.written →
      t.Emits g.session.outlet g'.session.outlet
        fun ahead => p.due fun phase => due ahead { t with phase } := by
    intro hjob hwritten
    have hdue : ∀ ahead phase, due ahead { t with phase } = .all := by
      intro ahead phase
      unfold due
      split
      · next c hc => exact absurd hc (hjob c)
      · rfl
    have hnow : ∀ ahead, t.due ahead = .all := fun ahead => hdue ahead t.phase
    refine .quiet hwritten (fun ahead => ?_) (fun ahead => ?_)
    · rw [hnow]
      cases p with
      | ongoing phase =>
        rw [Progress.due, hdue]
        exact .same
      | finished _ => exact .skipped
    · rw [hnow]
      rintro ⟨_, _, ⟨⟩⟩
  cases acted h with
  | @command c p g' hjob hc =>
    have hafter : (fun ahead => p.due fun phase => due ahead { t with phase }) =
        fun ahead => p.due (Phase.due ahead) := by
      funext ahead
      cases p with
      | ongoing phase => simp only [Progress.due, due, hjob]
      | finished _ => rfl
    rw [hafter]
    exact emits_command hjob hc
  | mailed hjob =>
    obtain ⟨limit, hjob | hjob⟩ := hjob
    · exact hsilent (by simp [hjob]) rfl
    · exact hsilent (by simp [hjob]) rfl
  | expected hjob | unexpected hjob | forgot hjob | awaiting hjob | waited hjob | answered hjob
  | terminating hjob | sawEnd hjob => exact hsilent (by simp [hjob]) rfl
  | ending hjob _ hr | ended hjob _ hr =>
    exact hsilent (by simp [hjob]) (EndRequest.acted hr).written_eq

end Task

/-! ## Writing only in turn -/

/-- An exchange that writes has the outlet: `isHeldBy` stays true as long as there is a rest. -/
theorem Exchange.Action.held {task now : Nat} {x x' : Exchange} {s s' : Session}
    (h : x.Action task now s (.ongoing x') s')
    (hheld : x.due.IsRest → s.outlet.turn.isHeldBy task = true) (hrest : x'.due.IsRest) :
    s'.outlet.turn.isHeldBy task = true := by
  obtain ⟨r, left, hrest⟩ := hrest
  cases h with
  | begun _ hturn => exact hturn
  | wrote hphase hwrite =>
    rw [Outlet.turn_write hwrite]
    exact hheld ⟨_, _, due_of_write hphase⟩
  | entered =>
    cases hanswered : x.answered <;> simp [due, hanswered] at hrest
  | expected | announced | broke | sent | waited | ending => simp [due] at hrest

/-- A task that writes has the outlet, by `Turn.isHeldBy`. -/
def Task.Holds (t : Task) (s : Session) : Prop :=
  ∀ ahead, (t.due ahead).IsRest → s.outlet.turn.isHeldBy t.id = true

/-- A task goes on writing only while it `Holds` the outlet. -/
theorem Task.Holds.act {now : Nat} {t : Task} {g g' : Ground} {phase : Phase}
    (hheld : t.Holds g.session) (h : t.act now g = some (.ongoing phase, g')) :
    Task.Holds { t with phase } g'.session := by
  rintro ahead ⟨r, left, hrest⟩
  obtain ⟨c, x', hjob, hphase', hx'⟩ := exchange_of_due hrest
  simp only at hjob hphase'
  subst hphase'
  rw [Task.act, hjob] at h
  have hc := actedCommand h
  -- The task is at an exchange, so it has gone on with it or has just come to it.
  cases ahead with
  | true =>
    cases hc with
    | opened => cases hx'
    | negotiating hphase hx =>
      refine (Exchange.acted hx).held (fun hrest => hheld true ?_) ⟨r, left, hx'⟩
      rwa [due, hjob, hphase]
  | false =>
    cases hc with
    | prepared => cases hx'
    | exchanging hphase hx =>
      refine (Exchange.acted hx).held (fun hrest => hheld false ?_) ⟨r, left, hx'⟩
      rwa [due, hjob, hphase]

/-- An exchange that writes breaks off if the other side has failed with `onWrite`. -/
theorem Exchange.exists_act_of_fault {x : Exchange} {r : Request} {left : List UInt8} {s : Session}
    (task now : Nat) (hdue : x.due = .rest r left) (hfault : s.outlet.fault = some .onWrite) :
    ∃ x' s', x.act task now s = some (.ongoing x', s') ∧ x'.due = .nothing := by
  unfold due at hdue
  split at hdue <;> cases hdue
  next hphase =>
  simp only [act, hphase, actWrite, Outlet.write, if_pos hfault, goOn]
  exact ⟨_, _, rfl, rfl⟩

/-- A task that writes breaks off if the other side has failed with `onWrite`. -/
theorem Task.exists_act_of_fault {t : Task} {g : Ground} {ahead : Bool} (now : Nat)
    (hrest : (t.due ahead).IsRest) (hfault : g.session.outlet.fault = some .onWrite) :
    ∃ p g', t.act now g = some (p, g') ∧
      (p.due fun phase => due ahead { t with phase }) = .nothing := by
  obtain ⟨r, left, hrest⟩ := hrest
  obtain ⟨c, x, hjob, hphase, hx⟩ := exchange_of_due hrest
  obtain ⟨x', s, hact, hdue⟩ := Exchange.exists_act_of_fault t.id now hx hfault
  refine ⟨.ongoing (if ahead then .negotiate x' else .exchange x'), { g with session := s }, ?_⟩
  cases ahead with
  | true => simp [act, hjob, actCommand, hphase, hact, goOn, Progress.due, due, Phase.due, hdue]
  | false => simp [act, hjob, actCommand, hphase, hact, goOn, Progress.due, due, Phase.due, hdue]

namespace Client

/-- `Task.Holds` is kept by everything that can happen: it is `Local`. -/
theorem held_local : Local (fun _ => True) Task.Holds where
  opened _ := trivial
  beside hbeside _ := by
    cases hbeside
    exact ⟨trivial, fun t h => h⟩
  mailed _ _ _ := ⟨trivial, fun t h => h⟩
  received hstep _ := by
    refine ⟨trivial, fun t h ahead hrest => ?_⟩
    rw [(Session.receiverStep_spares hstep).1]
    exact h ahead hrest
  started _ _ job _ := by
    rintro ahead ⟨r, left, hrest⟩
    cases job <;> cases hrest
  acted hact _ ht := by
    refine ⟨trivial, ?_, fun t' hne h ahead hrest => (Task.turn_act hact).isHeldBy hne (h ahead hrest)⟩
    rintro phase rfl
    exact ht.act hact
  abandoned {t s} _ _ :=
    ⟨trivial, fun t' hne h ahead hrest => (t.turn_abandon s).isHeldBy hne (h ahead hrest)⟩

end Client

/-! ## Segments -/

namespace Writing

/-- Which request the octets of a `Writing` belong to: the task, and whether it is the negotiation
ahead of its command. -/
def call (w : Writing) : Nat × Bool :=
  (w.task, w.ahead)

/-- Segments with one more `Writing`, the latest first. Octets for the request that is being written
go into its segment. -/
def extend (ws : List Writing) (w : Writing) : List Writing :=
  match ws with
  | [] => if w.octets = [] then [] else [w]
  | v :: rest =>
    if w.octets = [] then v :: rest
    else if v.call = w.call then { v with octets := v.octets ++ w.octets } :: rest
    else w :: v :: rest

/-- The segments of what has been written: `extend` over all of it. -/
def segments (ws : List Writing) : List Writing :=
  (ws.foldl extend []).reverse

/-- Without octets, `extend` leaves segments as they are. -/
theorem extend_of_nil {ws : List Writing} {w : Writing} (h : w.octets = []) : extend ws w = ws := by
  cases ws with
  | nil => rw [extend, if_pos h]
  | cons v rest => rw [extend, if_pos h]

/-- The octets that `extend` adds come after those that are there. -/
theorem text_extend (ws : List Writing) (w : Writing) :
    text (extend ws w).reverse = text ws.reverse ++ w.octets := by
  by_cases h : w.octets = []
  · rw [extend_of_nil h, h, List.append_nil]
  · cases ws with
    | nil =>
      rw [extend, if_neg h]
      simp
    | cons v rest =>
      rw [extend, if_neg h]
      split <;> simp [text]

/-- `segments` are what has been written, divided differently. -/
theorem text_segments (ws : List Writing) : text (segments ws) = text ws := by
  rw [segments]
  induction ws using List.reverseRecOn with
  | nil => rfl
  | append_singleton ws w ih =>
    rw [List.foldl_concat, text_extend, ih, text_append, text_singleton]

end Writing

/-- A task that writes nothing adds to no segment by `Writing.extend`. -/
theorem Task.foldl_writing_nil (t : Task) (ws : List Writing) :
    (t.writing? []).toList.foldl Writing.extend ws = ws := by
  unfold writing?
  split
  · exact Writing.extend_of_nil rfl
  · exact Writing.extend_of_nil rfl
  · rfl

/-! ## The ledger -/

/-- What is due of a request, by the segments so far, the latest first: for `all` there is none, for a
`rest` one that lacks what is left, and for `nothing` there may be any. -/
def Due.Fits (ws : List Writing) (call : Nat × Bool) : Due → Prop
  | .all => ∀ w ∈ ws, w.call ≠ call
  | .rest r left => left ≠ [] ∧ ((left = r.encode ∧ ∀ w ∈ ws, w.call ≠ call) ∨
      ∃ w older, ws = w :: older ∧ w.call = call ∧ w.request = r ∧ w.octets ++ left = r.encode)
  | .nothing => True

/-- The segments so far, the latest first, with the requests that have been `broken` off and what is
due of every request. -/
structure Ledger (ws : List Writing) (broken : List (Nat × Bool)) (due : Nat × Bool → Due) : Prop where
  distinct : (ws.map Writing.call).Nodup
  piece : ∀ w ∈ ws, w.octets ≠ [] ∧ w.octets <+: w.request.encode
  fits : ∀ call, (due call).Fits ws call
  incomplete : ∀ w ∈ ws, w.octets ≠ w.request.encode ↔ w.call ∈ broken ∨ (due w.call).IsRest
  broken : ∀ call ∈ broken, due call = .nothing ∧ ∃ w ∈ ws, w.call = call

/-- A `Due.Change` without octets: a request is begun or nothing more is due of it, if anything
changes. -/
theorem Due.Change.of_nil {due due' : Due} (h : due.Change [] due') :
    due' = due ∨ due = .all ∧ (due' = .nothing ∨ ∃ r, due' = .rest r r.encode) ∨
      due.IsRest ∧ due' = .nothing := by
  generalize hd : ([] : List UInt8) = d at h
  cases h with
  | same => exact .inl rfl
  | skipped => exact .inr (.inl ⟨rfl, .inl rfl⟩)
  | begun => exact .inr (.inl ⟨rfl, .inr ⟨_, rfl⟩⟩)
  | wrote hleft =>
    subst hd
    exact .inl (by rw [← hleft, List.nil_append])
  | sent => exact .inr (.inr ⟨⟨_, _, rfl⟩, rfl⟩)
  | stopped => exact .inr (.inr ⟨⟨_, _, rfl⟩, rfl⟩)

/-- Every request has octets: `encode` ends with the NUL. -/
theorem Request.encode_ne_nil (r : Request) : r.encode ≠ [] := by
  rw [encode_eq]
  simp

namespace Ledger

variable {ws : List Writing} {broken fresh : List (Nat × Bool)} {due due' : Nat × Bool → Due}

/-- The `Ledger` before anything is written, when no request is being written. -/
theorem nil (due : Nat × Bool → Due) (h : ∀ call, due call = .all ∨ due call = .nothing) :
    Ledger [] [] due := by
  refine ⟨.nil, by simp, fun call => ?_, by simp, by simp⟩
  obtain hdue | hdue := h call
  · rw [hdue]
    exact fun w hw => nomatch hw
  · rw [hdue]
    trivial

/-- By the `Ledger`, a request is halfway when it has a segment. -/
theorem isHalfway_iff (h : Ledger ws broken due) {call : Nat × Bool} (hrest : (due call).IsRest) :
    (due call).isHalfway = true ↔ ∃ w ∈ ws, w.call = call := by
  obtain ⟨r, left, hrest⟩ := hrest
  have hfits := h.fits call
  rw [hrest] at hfits ⊢
  obtain ⟨-, ⟨hleft, hnone⟩ | ⟨w, older, rfl, hcall, hrequest, hoctets⟩⟩ := hfits
  · refine iff_of_false (by simp [Due.isHalfway, hleft]) ?_
    rintro ⟨w, hw, hcall⟩
    exact hnone w hw hcall
  · refine iff_of_true ?_ ⟨w, List.mem_cons_self, hcall⟩
    rw [Due.isHalfway, decide_eq_true_iff]
    rintro rfl
    exact (h.piece w List.mem_cons_self).1 (List.append_left_eq_self.mp hoctets)

/-- Nothing is written. The requests that nothing more is due of are broken off where they are
`isHalfway`. -/
theorem quiet (h : Ledger ws broken due) (hchange : ∀ call, (due call).Change [] (due' call))
    (hfresh : ∀ call, call ∈ fresh ↔ (due call).isHalfway = true ∧ due' call = .nothing) :
    Ledger ws (broken ++ fresh) due' := by
  refine ⟨h.distinct, h.piece, fun call => ?_, fun w hw => ?_, fun call hcall => ?_⟩
  · obtain hsame | ⟨hall, hnothing | ⟨r, hbegun⟩⟩ | ⟨-, hnothing⟩ := (hchange call).of_nil
    · rw [hsame]
      exact h.fits call
    · rw [hnothing]
      trivial
    · have hnone := h.fits call
      rw [hall] at hnone
      rw [hbegun]
      exact ⟨r.encode_ne_nil, .inl ⟨rfl, hnone⟩⟩
    · rw [hnothing]
      trivial
  · rw [h.incomplete w hw, List.mem_append, hfresh]
    obtain hsame | ⟨hall, -⟩ | ⟨hrest, hnothing⟩ := (hchange w.call).of_nil
    · rw [hsame]
      constructor
      · exact Or.imp_left .inl
      · rintro ((hbroken | ⟨hhalfway, hnothing⟩) | hrest)
        · exact .inl hbroken
        · rw [hnothing] at hhalfway
          cases hhalfway
        · exact .inr hrest
    · have hnone := h.fits w.call
      rw [hall] at hnone
      exact absurd rfl (hnone w hw)
    · have hhalfway := (h.isHalfway_iff hrest).mpr ⟨w, hw, rfl⟩
      exact iff_of_true (.inr hrest) (.inl (.inr ⟨hhalfway, hnothing⟩))
  · obtain hcall | hcall := List.mem_append.mp hcall
    · obtain ⟨hdue, hmem⟩ := h.broken call hcall
      refine ⟨?_, hmem⟩
      obtain hsame | ⟨hall, -⟩ | ⟨-, hnothing⟩ := (hchange call).of_nil
      · rw [hsame, hdue]
      · cases hdue.symm.trans hall
      · exact hnothing
    · obtain ⟨hhalfway, hnothing⟩ := (hfresh call).mp hcall
      exact ⟨hnothing, (h.isHalfway_iff (Due.isRest_of_isHalfway hhalfway)).mp hhalfway⟩

/-- The `Ledger` stays if nothing changes, but that some requests will never be begun. -/
theorem pass (h : Ledger ws broken due)
    (hdue : ∀ call, due' call = due call ∨ due call = .all ∧ due' call = .nothing) :
    Ledger ws broken due' := by
  rw [← List.append_nil broken]
  refine h.quiet (fun call => ?_) (fun call => iff_of_false List.not_mem_nil ?_)
  · obtain hsame | ⟨-, hnothing⟩ := hdue call
    · rw [hsame]
      exact .same
    · rw [hnothing]
      exact Due.change_nothing _
  · rintro ⟨hhalfway, hnothing⟩
    obtain ⟨r, left, hrest⟩ := Due.isRest_of_isHalfway hhalfway
    obtain hsame | ⟨hall, -⟩ := hdue call
    · cases hrest.symm.trans (hsame.symm.trans hnothing)
    · cases hrest.symm.trans hall

/-- What `Writing.extend` does to a `Ledger`: octets for a request that is being written make its
segment or go into it. -/
theorem extend_cases (h : Ledger ws broken due) {w : Writing} {left left' : List UInt8}
    (hw : w.octets ≠ []) (hdue : due w.call = .rest w.request left) (hleft : w.octets ++ left' = left) :
    ∃ v older, Writing.extend ws w = v :: older ∧ v.call = w.call ∧ v.request = w.request ∧
      v.octets ++ left' = w.request.encode ∧ v.octets ≠ [] ∧ (older.map Writing.call).Nodup ∧
      (∀ u ∈ older, u.call ≠ w.call) ∧ ∀ u, u.call ≠ w.call → (u ∈ older ↔ u ∈ ws) := by
  have hfits := h.fits w.call
  rw [hdue] at hfits
  obtain ⟨-, ⟨hall, hnone⟩ | ⟨v, older, rfl, hcall, hrequest, hoctets⟩⟩ := hfits
  · refine ⟨w, ws, ?_, rfl, rfl, hleft.trans hall, hw, h.distinct, hnone, fun u _ => Iff.rfl⟩
    cases ws with
    | nil => rw [Writing.extend, if_neg hw]
    | cons v older => rw [Writing.extend, if_neg hw, if_neg (hnone v List.mem_cons_self)]
  · have hdistinct := h.distinct
    rw [List.map_cons, List.nodup_cons] at hdistinct
    refine ⟨{ v with octets := v.octets ++ w.octets }, older, ?_, hcall, hrequest, ?_, ?_,
      hdistinct.2, fun u hu => ?_, fun u hu => ?_⟩
    · rw [Writing.extend, if_neg hw, if_pos hcall]
    · rw [List.append_assoc, hleft, hoctets]
    · exact List.append_ne_nil_of_right_ne_nil _ hw
    · rintro hsame
      exact hdistinct.1 (List.mem_map.mpr ⟨u, hu, hsame.trans hcall.symm⟩)
    · rw [List.mem_cons, or_iff_right]
      rintro rfl
      exact hu hcall

/-- Octets are written, and nobody else is writing: the `Ledger` has them in the segment of their
request. -/
theorem write (h : Ledger ws broken due) {w : Writing} {left : List UInt8} (hw : w.octets ≠ [])
    (hdue : due w.call = .rest w.request left) (hchange : (due w.call).Change w.octets (due' w.call))
    (hsame : ∀ call, call ≠ w.call → due' call = due call)
    (halone : ∀ call, (due call).IsRest → call = w.call) :
    Ledger (Writing.extend ws w) broken due' := by
  -- What is left is due, or it is nothing and so is what is due.
  obtain ⟨left', hleft, hafter⟩ : ∃ left', w.octets ++ left' = left ∧
      (left' ≠ [] ∧ due' w.call = .rest w.request left' ∨ left' = [] ∧ due' w.call = .nothing) := by
    rw [hdue] at hchange
    generalize hd : w.octets = d at hchange hw
    generalize due' w.call = after at hchange
    cases hchange with
    | same | stopped => exact absurd rfl hw
    | wrote hleft hne => exact ⟨_, hleft, .inl ⟨hne, rfl⟩⟩
    | sent => exact ⟨[], List.append_nil _, .inr ⟨rfl, rfl⟩⟩
  obtain ⟨v, older, hextend, hcall, hrequest, hoctets, hne, hdistinct, hother, holder⟩ :=
    h.extend_cases hw hdue hleft
  have hmem : ∀ u ∈ older, u ∈ ws := fun u hu => (holder u (hother u hu)).mp hu
  have hintact : w.call ∉ broken := by
    intro hbroken
    cases hdue.symm.trans (h.broken _ hbroken).1
  rw [hextend]
  refine ⟨?_, ?_, fun call => ?_, ?_, fun call hbroken => ?_⟩
  · rw [List.map_cons, List.nodup_cons, hcall]
    refine ⟨fun hmem => ?_, hdistinct⟩
    obtain ⟨u, hu, hsame⟩ := List.mem_map.mp hmem
    exact hother u hu hsame
  · rw [List.forall_mem_cons, hrequest]
    exact ⟨⟨hne, left', hoctets⟩, fun u hu => h.piece u (hmem u hu)⟩
  · by_cases hc : call = w.call
    · subst hc
      obtain ⟨hleft', hrest⟩ | ⟨-, hnothing⟩ := hafter
      · rw [hrest]
        exact ⟨hleft', .inr ⟨v, older, rfl, hcall, hrequest, hoctets⟩⟩
      · rw [hnothing]
        trivial
    · rw [hsame call hc]
      have hfits := h.fits call
      cases hcase : due call with
      | all =>
        rw [hcase] at hfits
        show ∀ u ∈ v :: older, u.call ≠ call
        rw [List.forall_mem_cons, hcall]
        exact ⟨Ne.symm hc, fun u hu => hfits u (hmem u hu)⟩
      | rest r left => exact absurd (halone call ⟨r, left, hcase⟩) hc
      | nothing => trivial
  · rw [List.forall_mem_cons, hrequest, hcall, ← hoctets, ne_eq, List.self_eq_append_right]
    refine ⟨?_, fun u hu => ?_⟩
    · obtain ⟨hleft', hrest⟩ | ⟨hleft', hnothing⟩ := hafter
      · exact iff_of_true hleft' (.inr ⟨_, _, hrest⟩)
      · refine iff_of_false (fun h => h hleft') ?_
        rintro (hbroken | ⟨r, left, hrest⟩)
        · exact hintact hbroken
        · cases hnothing.symm.trans hrest
    · rw [hsame u.call (hother u hu)]
      exact h.incomplete u (hmem u hu)
  · obtain ⟨hnothing, u, hu, rfl⟩ := h.broken call hbroken
    have hc : u.call ≠ w.call := by
      intro hc
      exact hintact (hc ▸ hbroken)
    exact ⟨(hsame _ hc).trans hnothing, u, List.mem_cons_of_mem _ ((holder u hc).mpr hu), rfl⟩

end Ledger

/-! ## Runs -/

namespace Client

variable {c c' : Client} {m : Move} {n k : Nat} {ws : List Writing} {broken : List (Nat × Bool)}

/-- What is `Due` of a request on a session, by its task and whether it goes ahead of a command. -/
def due (n : Nat) (c : Client) (call : Nat × Bool) : Due :=
  match c.task? call.1 with
  | some t => if t.session = n then t.due call.2 else .nothing
  | none => if call.1 < c.nextTask then .nothing else .all

/-- The requests of a task on a session for which `isHalfway` holds. -/
def halfway (n k : Nat) (c : Client) : List (Nat × Bool) :=
  [(k, true), (k, false)].filter fun call => (c.due n call).isHalfway

/-- The requests on a session that a `Move` breaks off: the task is given up while it writes, or finds
that the other side has failed. -/
def breaks (n : Nat) (c : Client) : Move → List (Nat × Bool)
  | .cancel k => c.halfway n k
  | .task k =>
    if (c.session? n).any fun s => s.outlet.fault = some .onWrite then c.halfway n k else []
  | _ => []

/-- The requests in `halfway`, by what is due of them. -/
theorem mem_halfway {call : Nat × Bool} :
    call ∈ c.halfway n k ↔ call.1 = k ∧ (c.due n call).isHalfway = true := by
  obtain ⟨j, ahead⟩ := call
  rw [halfway, List.mem_filter]
  cases ahead <;> simp

/-- What is due of a request by `Client.due` is what its task has still to write. -/
theorem due_of_task? {t : Task} (hk : c.task? k = some t) (hn : t.session = n) (ahead : Bool) :
    c.due n (k, ahead) = t.due ahead := by
  simp only [due, hk, if_pos hn]

/-- A request of which there is a `rest` has a task on the session. -/
theorem exists_task?_of_isRest {call : Nat × Bool} (h : (c.due n call).IsRest) :
    ∃ t, c.task? call.1 = some t ∧ t.session = n ∧ c.due n call = t.due call.2 := by
  obtain ⟨r, left, h⟩ := h
  unfold due at h ⊢
  split at h
  · next t hk =>
    split at h
    · next hn => exact ⟨t, hk, hn, if_pos hn⟩
    · cases h
  · split at h <;> cases h

/-- A task that nothing happens to keeps what is `due`. A number that was not given yet may be
given. -/
theorem due_of_same {call : Nat × Bool} (htask : c'.task? call.1 = c.task? call.1)
    (hnext : c.nextTask ≤ c'.nextTask) :
    c'.due n call = c.due n call ∨ c.due n call = .all ∧ c'.due n call = .nothing := by
  unfold due
  rw [htask]
  split
  · exact .inl rfl
  · by_cases hnew : call.1 < c.nextTask
    · rw [if_pos hnew, if_pos (Nat.lt_of_lt_of_le hnew hnext)]
      exact .inl rfl
    · rw [if_neg hnew]
      split
      · exact .inr ⟨rfl, rfl⟩
      · exact .inl rfl

/-- What is `due` does not change in a move with which no task acts and none is given up. -/
theorem due_of_outcome (h : Outcome c m c') (htask : ∀ k, m ≠ .task k) (hcancel : ∀ k, m ≠ .cancel k)
    (call : Nat × Bool) :
    c'.due n call = c.due n call ∨ c.due n call = .all ∧ c'.due n call = .nothing := by
  cases h with
  | aside hsame _ _ hnext =>
    obtain hsame | ⟨hnone, session, job, -, hstarted⟩ := hsame call.1
    · exact due_of_same hsame hnext
    · have hid : c.nextTask = call.1 := id_of_task? hstarted
      have hold : c.due n call = .all := by
        simp only [due, hnone, hid, if_neg (Nat.lt_irrefl _)]
      have hnew : ∀ ahead, Task.due ahead ⟨c.nextTask, session, job, .start⟩ = .all := by
        intro ahead
        cases job <;> rfl
      have hstart : c'.due n call = .all ∨ c'.due n call = .nothing := by
        unfold due
        rw [hstarted]
        simp only [hnew]
        split
        · exact .inl rfl
        · exact .inr rfl
      obtain hstart | hstart := hstart
      · exact .inl (hstart.trans hold.symm)
      · exact .inr ⟨hold, hstart⟩
  | received _ _ _ hsame _ _ hnext | forwarded _ _ hsame _ _ hnext =>
    exact due_of_same (hsame _) hnext
  | acted hm => exact absurd hm (htask _)
  | abandoned hm => exact absurd hm (hcancel _)

/-- `cancel` takes one task away and no other. -/
theorem task?_cancel (c : Client) (k j : Nat) :
    (c.step (.cancel k)).task? j = if j = k then none else c.task? j := by
  rw [step, cancel]
  split
  · next hk =>
    split
    · next hj => exact hj ▸ hk
    · rfl
  · exact find?_filter_task c.tasks k j

/-- The `Ledger` after a task is given up, which breaks off what it is halfway with. -/
theorem ledger_cancel (hc : c.Distinct) (h : Ledger ws broken (c.due n)) (k : Nat) :
    Ledger ws (broken ++ c.breaks n (.cancel k)) ((c.step (.cancel k)).due n) := by
  have hnext : (c.step (.cancel k)).nextTask = c.nextTask := by
    rw [step, cancel]
    split <;> rfl
  have hgone : ∀ {t ahead}, c.task? k = some t → (c.step (.cancel k)).due n (k, ahead) = .nothing := by
    intro t ahead hk
    simp only [due, task?_cancel, if_pos, hnext, hc.lt_nextTask hk]
  have hsame : ∀ call : Nat × Bool, (call.1 = k → c.task? k = none) →
      (c.step (.cancel k)).due n call = c.due n call := by
    intro call hcall
    have htask : (c.step (.cancel k)).task? call.1 = c.task? call.1 := by
      rw [task?_cancel]
      split
      · next hk => rw [hk, hcall hk]
      · rfl
    simp only [due, htask, hnext]
  refine h.quiet (fun call => ?_) (fun call => ?_)
  · cases hk : c.task? k with
    | none =>
      rw [hsame call fun _ => hk]
      exact .same
    | some t =>
      by_cases hcall : call.1 = k
      · subst hcall
        rw [hgone hk]
        exact Due.change_nothing _
      · rw [hsame call fun hk => absurd hk hcall]
        exact .same
  · rw [breaks, mem_halfway]
    constructor
    · rintro ⟨rfl, hhalfway⟩
      obtain ⟨t, hk, -⟩ := exists_task?_of_isRest (Due.isRest_of_isHalfway hhalfway)
      exact ⟨hhalfway, hgone hk⟩
    · rintro ⟨hhalfway, hnothing⟩
      refine ⟨?_, hhalfway⟩
      by_contra hcall
      rw [hsame call fun hk => absurd hk hcall] at hnothing
      rw [hnothing] at hhalfway
      cases hhalfway

section Acting

variable {t : Task} {s : Session} {p : Progress Phase Reply} {g : Ground}

/-- What is `due` of a request after an action of its task. -/
theorem due_task (hc : c.Distinct) (hk : c.task? k = some t) (hs : c.session? t.session = some s)
    (hact : t.act c.now ⟨c.nextTransaction, s⟩ = some (p, g)) (ahead : Bool) :
    (c.step (.task k)).due t.session (k, ahead) = p.due fun phase => Task.due ahead { t with phase } := by
  have hnext : c.nextTask ≤ (c.step (.task k)).nextTask := (c.outcome (.task k)).nextTask_le
  have hlt : k < (c.step (.task k)).nextTask := Nat.lt_of_lt_of_le (hc.lt_nextTask hk) hnext
  have htask := task?_task hk hs hact
  cases p with
  | ongoing phase => exact due_of_task? (t := { t with phase }) htask rfl ahead
  | finished result =>
    simp only [due, htask, Progress.ongoing?, Option.map_none, if_pos hlt, Progress.due]

/-- The `Ledger` after a task acts and writes nothing. It breaks off a request if the other side has
failed. -/
theorem ledger_silent (h : Ledger ws broken (c.due n)) {after : Bool → Due}
    (hother : ∀ call : Nat × Bool, call.1 ≠ k → c'.due n call = c.due n call)
    (hown : ∀ ahead, c'.due n (k, ahead) = after ahead)
    (hchange : ∀ ahead, (c.due n (k, ahead)).Change [] (after ahead))
    (hfault : ∀ ahead, (c.due n (k, ahead)).isHalfway = true →
      (s.outlet.fault = some .onWrite ↔ after ahead = .nothing)) :
    Ledger ws (broken ++ if s.outlet.fault = some .onWrite then c.halfway n k else []) (c'.due n) := by
  refine h.quiet (fun call => ?_) (fun call => ?_)
  · by_cases hcall : call.1 = k
    · subst hcall
      rw [hown]
      exact hchange call.2
    · rw [hother call hcall]
      exact .same
  · have hmem : call ∈ (if s.outlet.fault = some .onWrite then c.halfway n k else []) ↔
        s.outlet.fault = some .onWrite ∧ call.1 = k ∧ (c.due n call).isHalfway = true := by
      split
      · next h => rw [mem_halfway, and_iff_right h]
      · next h => exact iff_of_false List.not_mem_nil fun h' => h h'.1
    rw [hmem]
    by_cases hcall : call.1 = k
    · subst hcall
      rw [hown]
      constructor
      · rintro ⟨hf, -, hhalfway⟩
        exact ⟨hhalfway, (hfault call.2 hhalfway).mp hf⟩
      · rintro ⟨hhalfway, hnothing⟩
        exact ⟨(hfault call.2 hhalfway).mpr hnothing, rfl, hhalfway⟩
    · rw [hother call hcall]
      refine iff_of_false (fun h => hcall h.2.1) ?_
      rintro ⟨hhalfway, hnothing⟩
      rw [hnothing] at hhalfway
      cases hhalfway

/-- What a task does to the requests on its session, entered in the `Ledger`. -/
theorem ledger_acted (hk : c.task? k = some t)
    (hact : t.act c.now ⟨c.nextTransaction, s⟩ = some (p, g))
    (hother : ∀ call : Nat × Bool, call.1 ≠ k → c'.due t.session call = c.due t.session call)
    (hown : ∀ ahead, c'.due t.session (k, ahead) = p.due fun phase => Task.due ahead { t with phase })
    (halone : ∀ ahead call, (t.due ahead).IsRest → (c.due t.session call).IsRest → call = (k, ahead))
    (h : Ledger ws broken (c.due t.session)) :
    Ledger ((t.writing? (g.session.outlet.written.drop s.outlet.written.length)).toList.foldl
        Writing.extend ws)
      (broken ++ if s.outlet.fault = some .onWrite then c.halfway t.session k else [])
      (c'.due t.session) := by
  have hdue : ∀ ahead, c.due t.session (k, ahead) = t.due ahead := due_of_task? hk rfl
  have hid := id_of_task? hk
  cases Task.emits_act hact with
  | quiet hwritten hchange hrest =>
    rw [hwritten, List.drop_length, t.foldl_writing_nil]
    refine ledger_silent h hother hown (fun ahead => ?_) (fun ahead hhalfway => ?_)
    · rw [hdue]
      exact hchange ahead
    · rw [hdue] at hhalfway
      exact absurd (Due.isRest_of_isHalfway hhalfway) (hrest ahead)
  | @sending cmd x ahead q d hwriting hx hafter hkept hrest hadvance =>
    have hcases : ∀ a, a = ahead ∨ a = !ahead := by cases ahead <;> decide
    have hleft : ∀ r left, x.due = .rest r left → left ≠ [] := by
      intro r left hleft
      have hfits := h.fits (k, ahead)
      rw [hdue, hx, hleft] at hfits
      exact hfits.1
    rw [hadvance.written, List.drop_left]
    by_cases hd : d = []
    · subst hd
      rw [t.foldl_writing_nil]
      refine ledger_silent h hother hown (fun a => ?_) (fun a hhalfway => ?_)
      · rw [hdue]
        obtain rfl | rfl := hcases a
        · rw [hx, hafter]
          exact hadvance.change
        · rw [hkept]
          exact .same
      · rw [hdue] at hhalfway
        obtain rfl | rfl := hcases a
        · rw [hx] at hhalfway
          obtain ⟨r, left, hr⟩ := Due.isRest_of_isHalfway hhalfway
          rw [hadvance.fault r left hr (hleft r left hr), hafter]
          exact and_iff_right rfl
        · exact absurd (Due.isRest_of_isHalfway hhalfway) hrest
    · obtain ⟨left, hrest'⟩ := hadvance.writing hd
      have hfault : s.outlet.fault ≠ some .onWrite := by
        intro hf
        exact hd ((hadvance.fault _ left hrest' (hleft _ left hrest')).mp hf).1
      rw [if_neg hfault, List.append_nil, hwriting, hid]
      have hnow : c.due t.session (k, ahead) = .rest x.request left := (hdue ahead).trans (hx.trans hrest')
      refine h.write hd hnow ?_ (fun call hcall => ?_) (fun call hcall => ?_)
      · show (c.due t.session (k, ahead)).Change d (c'.due t.session (k, ahead))
        rw [hdue, hown, hx, hafter]
        exact hadvance.change
      · by_cases hk' : call.1 = k
        · subst hk'
          obtain ha | ha := hcases call.2
          · exact (hcall (Prod.ext rfl ha)).elim
          · rw [show call = (call.1, !ahead) from Prod.ext rfl ha, hown, hdue]
            exact hkept
        · exact hother call hk'
      · exact halone ahead call (hx ▸ ⟨_, _, hrest'⟩) hcall

end Acting

/-- Only one request is being written on a session, as its task `Holds` the outlet. -/
theorem eq_of_isRest (hc : c.Upholds (fun _ => True) Task.Holds)
    {t : Task} {s : Session} (hk : c.task? k = some t) (hs : c.session? t.session = some s)
    {ahead : Bool} (hrest : (t.due ahead).IsRest) {call : Nat × Bool}
    (hcall : (c.due t.session call).IsRest) : call = (k, ahead) := by
  obtain ⟨t', hk', hn', hdue⟩ := exists_task?_of_isRest hcall
  rw [hdue] at hcall
  have hheld := hc.task hk hs ahead hrest
  have hheld' := hc.task hk' (hn' ▸ hs) call.2 hcall
  have hid : call.1 = k := by
    rw [← id_of_task? hk, ← id_of_task? hk']
    exact Turn.isHeldBy_unique hheld' hheld
  subst hid
  cases hk.symm.trans hk'
  exact Prod.ext rfl (Task.eq_of_isRest hcall hrest)

/-- A task that cannot act breaks nothing off: `breaks` is empty. -/
theorem breaks_of_stuck (hc : c.Distinct) (hsame : c.step (.task k) = c) :
    c.breaks n (.task k) = [] := by
  rw [breaks]
  split
  · next hfault =>
    rw [Option.any_eq_true] at hfault
    obtain ⟨s, hs, hfault⟩ := hfault
    rw [decide_eq_true_iff] at hfault
    rw [List.eq_nil_iff_forall_not_mem]
    intro call hcall
    obtain ⟨rfl, hhalfway⟩ := mem_halfway.mp hcall
    have hrest := Due.isRest_of_isHalfway hhalfway
    obtain ⟨t, hk, rfl, hdue⟩ := exists_task?_of_isRest hrest
    obtain ⟨p, g, hact, hnothing⟩ := Task.exists_act_of_fault (g := ⟨c.nextTransaction, s⟩) c.now
      (hdue ▸ hrest) hfault
    have hafter := due_task hc hk hs hact call.2
    rw [hsame, hnothing] at hafter
    obtain ⟨r, left, hrest⟩ := hrest
    cases hafter.symm.trans hrest
  · rfl

/-- A task that cannot act adds to no segment, since it has no `writings`. -/
theorem foldl_writings_of_stuck (hsame : c.step (.task k) = c) :
    (c.writings n (.task k)).foldl Writing.extend ws = ws := by
  rw [writings, hsame, List.drop_length]
  split
  · split
    · exact Task.foldl_writing_nil _ ws
    · rfl
  · rfl

/-- A move of a task keeps the `Ledger`. -/
theorem ledger_task (hc : c.Distinct) (hheld : c.Upholds (fun _ => True) Task.Holds)
    (h : Ledger ws broken (c.due n)) (k : Nat) :
    Ledger ((c.writings n (.task k)).foldl Writing.extend ws) (broken ++ c.breaks n (.task k))
      ((c.step (.task k)).due n) := by
  obtain ⟨-, hsame⟩ | ⟨t, s, p, g, hk, hs, hact, -, -, htask, hsession, hnext⟩ := c.step_task k
  · rw [foldl_writings_of_stuck hsame, breaks_of_stuck hc hsame, List.append_nil, hsame]
    exact h
  have hother : ∀ call : Nat × Bool, call.1 ≠ k → (c.step (.task k)).due n call = c.due n call := by
    intro call hcall
    simp only [due, htask, if_neg hcall, hnext]
  by_cases hn : t.session = n
  · subst hn
    have hs' : (c.step (.task k)).session? t.session = some g.session := by
      rw [hsession, if_pos rfl]
    have hbreaks : c.breaks t.session (.task k) =
        if s.outlet.fault = some .onWrite then c.halfway t.session k else [] := by
      simp [breaks, hs]
    rw [hbreaks, writings, hk]
    simp only [if_true]
    rw [written_of_session? hs, written_of_session? hs']
    exact ledger_acted hk hact hother (due_task hc hk hs hact)
      (fun ahead call hrest hcall => eq_of_isRest hheld hk hs hrest hcall) h
  · -- The task is on another session, and has nothing to write on this one.
    have hdue : ∀ ahead, c.due n (k, ahead) = .nothing := by
      intro ahead
      simp only [due, hk, if_neg hn]
    have hwritings : c.writings n (.task k) = [] := by simp [writings, hk, hn]
    have hbreaks : c.breaks n (.task k) = [] := by
      simp [breaks, halfway, hdue, Due.isHalfway]
    rw [hwritings, hbreaks, List.append_nil]
    refine h.pass fun call => .inl ?_
    by_cases hcall : call.1 = k
    · subst hcall
      rw [show call = (call.1, call.2) from rfl, hdue]
      have hlt := hc.lt_nextTask hk
      cases p with
      | ongoing phase => simp only [due, htask, if_true, Progress.ongoing?, Option.map_some, if_neg hn]
      | finished _ =>
        simp only [due, htask, if_true, Progress.ongoing?, Option.map_none, hnext, if_pos hlt]
    · exact hother call hcall

/-- Every move keeps the `Ledger`. -/
theorem ledger_step (hc : c.Distinct) (hheld : c.Upholds (fun _ => True) Task.Holds)
    (h : Ledger ws broken (c.due n)) (m : Move) :
    Ledger ((c.writings n m).foldl Writing.extend ws) (broken ++ c.breaks n m) ((c.step m).due n) := by
  cases m with
  | task k => exact ledger_task hc hheld h k
  | cancel k => exact ledger_cancel hc h k
  | accept _ | attach _ | arrive _ _ | gate _ _ _ | start _ _ | release _ | addLogger _ _
  | removeLogger _ _ | addListener _ _ | removeListener _ _ | pass _ | handshake _ | receiver _ =>
    rw [breaks, List.append_nil]
    · exact h.pass (due_of_outcome (c.outcome _) (by simp) (by simp))
    all_goals simp

/-- The `Ledger` of a run: its segments, what was broken off, and what is due. -/
theorem ledger_run (n : Nat) (ms : List Move) :
    Ledger ((trace (writings n) {} ms).foldl Writing.extend []) (trace (breaks n) {} ms)
      ((run {} ms).due n) := by
  induction ms using List.reverseRecOn with
  | nil =>
    refine .nil _ fun call => ?_
    have hnone : task? call.1 {} = none := rfl
    simp only [run_nil, due, hnone]
    exact (ite_eq_or_eq _ _ _).symm
  | append_singleton ms m ih =>
    obtain ⟨hordered, hheld⟩ := held_local.run ms
    rw [trace_concat, trace_concat, List.foldl_append, run_concat]
    exact ledger_step hordered.distinct hheld ih m

end Client

/-! ## What the segments are -/

/-- The segment is all of its request: its octets are `encode` of it. -/
def Writing.isComplete (w : Writing) : Bool :=
  w.octets = w.request.encode

/-- The request is that of the command, or the `Command.negotiation` ahead of it. -/
def Writing.IsMeant (w : Writing) : Prop :=
  ∃ u, w.request = (if w.ahead then Command.negotiation else w.command).request u

/-- Whatever does not depend on the octets is so of `segments` if it is so of what has been
written. -/
theorem Writing.forall_mem_segments {P : Writing → Prop} (hP : ∀ w octets, P w → P { w with octets })
    {ws : List Writing} (h : ∀ w ∈ ws, P w) : ∀ w ∈ segments ws, P w := by
  suffices hfold : ∀ w ∈ ws.foldl extend [], P w from
    fun w hw => hfold w (List.mem_reverse.mp hw)
  induction ws using List.reverseRecOn with
  | nil => exact fun w hw => nomatch hw
  | append_singleton ws w ih =>
    rw [List.forall_mem_append, List.forall_mem_singleton] at h
    rw [List.foldl_concat]
    have ih := ih h.1
    by_cases hw : w.octets = []
    · rwa [extend_of_nil hw]
    · generalize ws.foldl extend [] = vs at ih
      cases vs with
      | nil =>
        rw [extend, if_neg hw, List.forall_mem_singleton]
        exact h.2
      | cons v older =>
        rw [List.forall_mem_cons] at ih
        rw [extend, if_neg hw]
        split
        · rw [List.forall_mem_cons]
          exact ⟨hP _ _ ih.1, ih.2⟩
        · rw [List.forall_mem_cons, List.forall_mem_cons]
          exact ⟨h.2, ih⟩

/-- The request that a task with a command sends is that of the command, or of
`Command.negotiation`. -/
def Phase.IsMeant (c : Command) : Phase → Prop
  | .negotiate x => ∃ u, x.request = Command.negotiation.request u
  | .exchange x => ∃ u, x.request = c.request u
  | _ => True

/-- A task sends what is meant, in every phase: `Phase.IsMeant` is kept by `Task.act`. -/
theorem Task.isMeant_act {now : Nat} {t : Task} {g g' : Ground} {phase : Phase}
    (ht : ∀ c, t.job = .command c → t.phase.IsMeant c)
    (h : t.act now g = some (.ongoing phase, g')) (c : Command) (hjob : t.job = .command c) :
    phase.IsMeant c := by
  have ht := ht c hjob
  rw [act, hjob] at h
  generalize hp : Progress.ongoing phase = p at h
  cases actedCommand h with
  | opened | prepared =>
    cases hp
    exact ⟨_, rfl⟩
  | negotiating hphase hx | exchanging hphase hx =>
    cases hp
    rw [hphase] at ht
    obtain ⟨u, hu⟩ := ht
    exact ⟨u, (Exchange.acted hx).same.1.trans hu⟩
  | queued | ready | passed | skipped | settled =>
    cases hp
    trivial
  | concluded => cases hp

namespace Client

variable {n : Nat} {ms : List Move}

/-- All that is written is meant (`Writing.IsMeant`). -/
theorem isMeant_of_mem_trace {w : Writing} (h : w ∈ trace (writings n) {} ms) : w.IsMeant := by
  induction ms using List.reverseRecOn with
  | nil => cases h
  | append_singleton ms m ih =>
    rw [trace_concat, List.mem_append] at h
    obtain h | h := h
    · exact ih h
    · unfold writings at h
      split at h
      · split at h
        · next t hk =>
          have hmeant : ∀ c, t.job = .command c → t.phase.IsMeant c :=
            task_invariant (K := fun _ => True) (fun _ _ _ _ _ _ => trivial) Task.isMeant_act (by simp)
              hk
          split at h
          · rw [Option.mem_toList, Task.writing?.eq_def] at h
            split at h
            · next c x hjob hphase =>
              cases h
              have hmeant := hmeant c hjob
              rwa [hphase] at hmeant
            · next c x hjob hphase =>
              cases h
              have hmeant := hmeant c hjob
              rwa [hphase] at hmeant
            · cases h
          · cases h
        · cases h
      · cases h

/-- The `Writing.segments` of what has been written on a session in a run, in order. -/
def segments (n : Nat) (ms : List Move) : List Writing :=
  Writing.segments (trace (writings n) {} ms)

/-- All `segments` of a run are meant. -/
theorem isMeant_of_mem_segments {w : Writing} (h : w ∈ segments n ms) : w.IsMeant :=
  Writing.forall_mem_segments (fun _ _ h => h) (fun _ h => isMeant_of_mem_trace h) w h

end Client

/-! ## Reading segments -/

namespace Writing

variable {ws : List Writing}

/-- The text of segments that are complete is that of whole requests, each by `Request.encode`. -/
theorem text_of_isComplete (h : ∀ w ∈ ws, w.isComplete = true) :
    text ws = (ws.map (·.request)).flatMap Request.encode := by
  rw [text, List.flatMap_map]
  exact List.flatMap_congr fun w hw => of_decide_eq_true (h w hw)

/-- A request of a command that is `Legible` is read from its octets by `Request.decode`. -/
theorem decode_encode {w : Writing} (hw : w.IsMeant) (hlegible : w.request.Legible) :
    Request.decode w.request.encode = .ok { w.request with isAsync := false } := by
  obtain ⟨u, hu⟩ := hw
  have htagged : w.request.Tagged := hu ▸ (Command.headed_request _ u).tagged
  exact hlegible.1.decode_encode htagged.named?

/-- `Request.decodeAll` reads complete segments one after the other, and then what follows them. -/
theorem decodeAll_text_append (hcomplete : ∀ w ∈ ws, w.isComplete = true)
    (hmeant : ∀ w ∈ ws, w.IsMeant) (hlegible : ∀ w ∈ ws, w.request.Legible) (rest : List UInt8) :
    Request.decodeAll (text ws ++ rest) =
      ws.map (fun w => .ok { w.request with isAsync := false }) ++ Request.decodeAll rest := by
  rw [text_of_isComplete hcomplete, Request.decodeAll_flatMap_append, List.map_map]
  · congr 1
    exact List.map_congr_left fun w hw => decode_encode (hmeant w hw) (hlegible w hw)
  · rw [List.forall_mem_map]
    exact fun w hw => (hlegible w hw).2

end Writing

namespace Client

variable {n : Nat} {ms : List Move}

/-- The octets of a request that a task is writing: its `Writing` is the last segment so far, the task
has the outlet, and it has the rest of the request still to write. -/
structure InHand (n : Nat) (ms : List Move) (w : Writing) : Prop where
  last : ∃ before, segments n ms = before ++ [w]
  holder : ∃ s, (run {} ms).session? n = some s ∧ s.outlet.turn.isHeldBy w.task = true
  rest : ∃ t left, (run {} ms).task? w.task = some t ∧ t.session = n ∧
    t.due w.ahead = .rest w.request left ∧ left ≠ [] ∧ w.octets ++ left = w.request.encode

/-- What has been written is whole requests and at most the start of the one that is `InHand`. -/
def Unbroken (n : Nat) (ms : List Move) : Prop :=
  ∀ w ∈ segments n ms, w.isComplete = true ∨ InHand n ms w

/-- A segment of a request that is being written is `InHand`. -/
theorem inHand_of_isRest {w : Writing} (hw : w ∈ segments n ms)
    (hrest : ((run {} ms).due n w.call).IsRest) : InHand n ms w := by
  have hledger := ledger_run n ms
  obtain ⟨hordered, hheld⟩ := held_local.run ms
  obtain ⟨t, hk, rfl, hdue⟩ := exists_task?_of_isRest hrest
  obtain ⟨r, left, hrest⟩ := hrest
  rw [hdue] at hrest
  -- The segment of the request that is being written is the latest one.
  have hfits := hledger.fits w.call
  rw [hdue, hrest] at hfits
  obtain ⟨hne, ⟨-, hnone⟩ | ⟨v, older, hws, hcall, rfl, hoctets⟩⟩ := hfits
  · exact absurd rfl (hnone w (List.mem_reverse.mp hw))
  have hmem := List.mem_reverse.mp hw
  have hdistinct := hledger.distinct
  rw [hws, List.map_cons, List.nodup_cons] at hdistinct
  rw [hws, List.mem_cons] at hmem
  obtain rfl | hmem := hmem
  · refine ⟨⟨older.reverse, ?_⟩, ?_, t, left, hk, rfl, hrest, hne, hoctets⟩
    · rw [segments, Writing.segments, hws, List.reverse_cons]
    · cases hs : (run {} ms).session? t.session with
      | none =>
        rw [Task.due, hheld.early hk hs] at hrest
        split at hrest <;> cases hrest
      | some s =>
        have hturn := hheld.task hk hs _ ⟨_, _, hrest⟩
        rw [id_of_task? hk] at hturn
        exact ⟨s, rfl, hturn⟩
  · exact absurd (List.mem_map.mpr ⟨w, hmem, hcall.symm⟩) hdistinct.1

/-- A segment that is `InHand` is of a request that is being written. -/
theorem InHand.isRest {w : Writing} (h : InHand n ms w) : ((run {} ms).due n w.call).IsRest := by
  obtain ⟨t, left, hk, hn, hdue, -⟩ := h.rest
  rw [Writing.call, due_of_task? hk hn]
  exact ⟨_, _, hdue⟩

/-- A segment is incomplete exactly if its request has been broken off (`breaks`) or is being written
(`InHand`). -/
theorem isComplete_eq_false_iff {w : Writing} (hw : w ∈ segments n ms) :
    w.isComplete = false ↔ w.call ∈ trace (breaks n) {} ms ∨ InHand n ms w := by
  have hincomplete := (ledger_run n ms).incomplete w (List.mem_reverse.mp hw)
  constructor
  · intro h
    rw [Writing.isComplete, decide_eq_false_iff_not] at h
    exact (hincomplete.mp h).imp_right (inHand_of_isRest hw)
  · rintro (hbroken | hhand)
    · exact decide_eq_false (hincomplete.mpr (.inl hbroken))
    · exact decide_eq_false (hincomplete.mpr (.inr hhand.isRest))

/-- A stream is `Unbroken` exactly if no move has broken a request off. -/
theorem unbroken_iff : Unbroken n ms ↔ trace (breaks n) {} ms = [] := by
  have hledger := ledger_run n ms
  constructor
  · intro h
    rw [List.eq_nil_iff_forall_not_mem]
    intro call hcall
    obtain ⟨hnothing, w, hw, rfl⟩ := hledger.broken call hcall
    have hw : w ∈ segments n ms := List.mem_reverse.mpr hw
    obtain hcomplete | hhand := h w hw
    · cases hcomplete.symm.trans ((isComplete_eq_false_iff hw).mpr (.inl hcall))
    · obtain ⟨r, left, hrest⟩ := hhand.isRest
      cases hnothing.symm.trans hrest
  · intro h w hw
    cases hcomplete : w.isComplete with
    | true => exact .inl rfl
    | false =>
      rw [isComplete_eq_false_iff hw, h] at hcomplete
      exact .inr (hcomplete.resolve_left List.not_mem_nil)

/-- What has been `written` is the text of the segments. -/
theorem written_eq_text_segments (n : Nat) (ms : List Move) :
    (run {} ms).written n = Writing.text (segments n ms) := by
  rw [written_run, segments, Writing.text_segments]

/-- No request has two `segments`. -/
theorem nodup_segments (n : Nat) (ms : List Move) : ((segments n ms).map Writing.call).Nodup := by
  rw [segments, Writing.segments, List.map_reverse]
  exact List.pairwise_reverse.mpr ((ledger_run n ms).distinct.imp Ne.symm)

/-- Each of the `segments` is a start of its request, and not empty. -/
theorem piece_of_mem_segments {w : Writing} (hw : w ∈ segments n ms) :
    w.octets ≠ [] ∧ w.octets <+: w.request.encode :=
  (ledger_run n ms).piece w (List.mem_reverse.mp hw)

/-- A segment of a `Legible` request that is incomplete has no end. -/
theorem not_mem_of_incomplete {w : Writing} (hw : w ∈ segments n ms) (hlegible : w.request.Legible)
    (hincomplete : w.isComplete = false) : 0 ∉ w.octets :=
  hlegible.2.not_mem_of_piece (piece_of_mem_segments hw).2 (of_decide_eq_false hincomplete)

/-- In an `Unbroken` stream all segments before the last one are complete. -/
theorem Unbroken.isComplete_of_last {before : List Writing} {w : Writing} (h : Unbroken n ms)
    (hlast : segments n ms = before ++ [w]) : ∀ v ∈ before, v.isComplete = true := by
  intro v hv
  have hmem : v ∈ segments n ms := hlast ▸ List.mem_append_left _ hv
  refine (h v hmem).resolve_right fun hhand => ?_
  obtain ⟨before', hlast'⟩ := hhand.last
  have hvw : v = w := List.singleton_inj.mp (List.append_inj' (hlast'.symm.trans hlast) rfl).2
  have hnodup := nodup_segments n ms
  rw [hlast, List.map_append, List.nodup_append] at hnodup
  exact hnodup.2.2 _ (List.mem_map_of_mem hv) _ List.mem_cons_self (congrArg Writing.call hvw)

/-- What is `Unbroken` is read back by `Request.decodeAll`, request by request. -/
theorem Unbroken.decodeAll_written (h : Unbroken n ms)
    (hlegible : ∀ w ∈ segments n ms, w.request.Legible) :
    Request.decodeAll ((run {} ms).written n) = ((segments n ms).filter Writing.isComplete).map
      fun w => .ok { w.request with isAsync := false } := by
  have hmeant : ∀ w ∈ segments n ms, w.IsMeant := fun w hw => isMeant_of_mem_segments hw
  rw [written_eq_text_segments]
  by_cases hall : ∀ w ∈ segments n ms, w.isComplete = true
  · have hread := Writing.decodeAll_text_append hall hmeant hlegible []
    have hnone : Request.decodeAll [] = [] := Request.decodeAll_of_none rfl
    rw [List.append_nil, hnone, List.append_nil] at hread
    rw [hread, List.filter_eq_self.mpr hall]
  · simp only [not_forall, Bool.not_eq_true] at hall
    obtain ⟨w, hw, hincomplete⟩ := hall
    have hhand := (h w hw).resolve_left (by simp [hincomplete])
    have hnul := not_mem_of_incomplete hw (hlegible w hw) hincomplete
    obtain ⟨before, hlast⟩ := hhand.last
    have hbefore := h.isComplete_of_last hlast
    rw [hlast, List.forall_mem_append] at hmeant hlegible
    rw [hlast, Writing.text_append, Writing.text_singleton, List.filter_append,
      Writing.decodeAll_text_append hbefore hmeant.1 hlegible.1,
      Request.decodeAll_of_none (Request.takeFrame?_eq_none hnul), List.filter_eq_self.mpr hbefore,
      List.filter_cons_of_neg (by simp [hincomplete]), List.filter_nil, List.append_nil, List.append_nil]

/-- A request that comes after a broken one is read by `decodeAll` together with it, and not as it
is. -/
theorem decodeAll_written_of_break {before after : List Writing} {v w : Writing}
    (hlegible : ∀ w ∈ segments n ms, w.request.Legible)
    (hsegments : segments n ms = before ++ v :: w :: after)
    (hbefore : ∀ u ∈ before, u.isComplete = true) (hv : v.isComplete = false)
    (hw : w.isComplete = true) :
    Request.decodeAll ((run {} ms).written n) =
        before.map (fun u => .ok { u.request with isAsync := false }) ++
          Request.decode (v.octets ++ w.octets) :: Request.decodeAll (Writing.text after) ∧
      Request.decode (v.octets ++ w.octets) ≠ .ok { w.request with isAsync := false } := by
  have hmeant : ∀ w ∈ segments n ms, w.IsMeant := fun w hw => isMeant_of_mem_segments hw
  have hmem : v ∈ segments n ms := by simp [hsegments]
  have hnul := not_mem_of_incomplete hmem (hlegible v hmem) hv
  have hoctets : w.octets = w.request.encode := of_decide_eq_true hw
  have hne := (piece_of_mem_segments hmem).1
  have htext : Writing.text (v :: w :: after) =
      v.octets ++ (w.request.encode ++ Writing.text after) := by
    simp only [Writing.text, List.flatMap_cons, hoctets]
  rw [hsegments, List.forall_mem_append, List.forall_mem_cons, List.forall_mem_cons] at hlegible
  rw [hsegments, List.forall_mem_append] at hmeant
  rw [written_eq_text_segments, hsegments, Writing.text_append,
    Writing.decodeAll_text_append hbefore hmeant.1 hlegible.1, htext,
    hlegible.2.2.1.2.decodeAll_piece_append hnul, hoctets]
  exact ⟨rfl, fun hread => hne (Request.decode_append_encode hread)⟩

/-- What is written on a session falls into segments, one for each request, that are starts of
requests of commands. A segment is incomplete when its request is being written by the task that has
the outlet, and when the task has stopped halfway: it has been given up, or the other side has failed.
So the stream is whole requests and at most the start of the one that is being written exactly as long
as no task has stopped halfway. Until then every request is read back; a request that comes right
after a broken one is not. -/
theorem stream_unbroken_iff (n : Nat) (ms : List Move) :
    ((run {} ms).written n = Writing.text (segments n ms) ∧
      ((segments n ms).map Writing.call).Nodup ∧
      ∀ w ∈ segments n ms, w.IsMeant ∧ w.octets ≠ [] ∧ w.octets <+: w.request.encode ∧
        (w.isComplete = false ↔ w.call ∈ trace (breaks n) {} ms ∨ InHand n ms w)) ∧
    (Unbroken n ms ↔ trace (breaks n) {} ms = []) ∧
    ((∀ w ∈ segments n ms, w.request.Legible) →
      (Unbroken n ms → Request.decodeAll ((run {} ms).written n) =
        ((segments n ms).filter Writing.isComplete).map
          fun w => .ok { w.request with isAsync := false }) ∧
      ∀ before v w after, segments n ms = before ++ v :: w :: after →
        (∀ u ∈ before, u.isComplete = true) → v.isComplete = false → w.isComplete = true →
        Request.decodeAll ((run {} ms).written n) =
            before.map (fun u => .ok { u.request with isAsync := false }) ++
              Request.decode (v.octets ++ w.octets) :: Request.decodeAll (Writing.text after) ∧
          Request.decode (v.octets ++ w.octets) ≠ .ok { w.request with isAsync := false }) := by
  refine ⟨⟨written_eq_text_segments n ms, nodup_segments n ms, fun w hw => ?_⟩, unbroken_iff,
    fun hlegible => ⟨fun h => h.decodeAll_written hlegible, ?_⟩⟩
  · obtain ⟨hne, hstart⟩ := piece_of_mem_segments hw
    exact ⟨isMeant_of_mem_segments hw, hne, hstart, isComplete_eq_false_iff hw⟩
  · intro before v w after hsegments hbefore hv hw
    exact decodeAll_written_of_break hlegible hsegments hbefore hv hw

/-- A run in which a command is given up while it waits for its response. Another one, `stackDepth`,
is sent, and the other side takes three octets of it. -/
def paused : List Move :=
  [Move.attach {}, .start 1 (.command .status)] ++ List.replicate 9 (Move.task 1) ++
    [Move.cancel 1, .gate 1 none (some 3), .start 1 (.command .stackDepth)] ++ List.replicate 7 (Move.task 2)

/-- A run in which the other side takes three octets of the command `status`, and the command is given
up. Another one is sent. -/
def halved : List Move :=
  [Move.attach {}, .gate 1 none (some 3), .start 1 (.command .status)] ++ List.replicate 7 (Move.task 1) ++
    [Move.cancel 1, .gate 1 none none, .start 1 (.command .stackDepth)] ++ List.replicate 7 (Move.task 2)

/-- The run `paused` is unbroken and leaves a request that is being written. The run `halved` breaks
one off. -/
theorem stream_unbroken_iff_paused_halved :
    (trace (breaks 1) {} paused = [] ∧ Unbroken 1 paused ∧
      ((run {} paused).written 1).length = (Command.status.request 1).encode.length + 3 ∧
      Request.decodeAll ((run {} paused).written 1) = [.ok (Command.status.request 1)]) ∧
    trace (breaks 1) {} halved = [(1, false)] ∧ ¬Unbroken 1 halved ∧
      Request.decode ((Command.status.request 1).encode.take 3 ++ (Command.stackDepth.request 2).encode) ≠
        .ok (Command.stackDepth.request 2) := by
  have hpaused : segments 1 paused =
      [⟨1, .status, false, Command.status.request 1, (Command.status.request 1).encode⟩,
        ⟨2, .stackDepth, false, Command.stackDepth.request 2,
          (Command.stackDepth.request 2).encode.take 3⟩] := by decide +kernel
  have hhalved : segments 1 halved =
      [⟨1, .status, false, Command.status.request 1, (Command.status.request 1).encode.take 3⟩,
        ⟨2, .stackDepth, false, Command.stackDepth.request 2,
          (Command.stackDepth.request 2).encode⟩] := by decide +kernel
  have hbreaks : trace (breaks 1) {} halved = [(1, false)] := by decide +kernel
  have hunbroken : trace (breaks 1) {} paused = [] := by decide +kernel
  have hlegible : (Command.status.request 1).Legible ∧ (Command.stackDepth.request 2).Legible :=
    ⟨(Command.legible_request_iff rfl 1).mpr (by decide),
      (Command.legible_request_iff rfl 2).mpr (by decide)⟩
  obtain ⟨⟨hwritten, -⟩, hiff, hread⟩ := stream_unbroken_iff 1 paused
  obtain ⟨-, hiff', hread'⟩ := stream_unbroken_iff 1 halved
  have hintact := hiff.mpr hunbroken
  refine ⟨⟨hunbroken, hintact, ?_, ?_⟩, hbreaks, ?_, ?_⟩
  · rw [hwritten, hpaused]
    decide +kernel
  · rw [(hread (by simpa [hpaused] using hlegible)).1 hintact, hpaused]
    decide +kernel
  · rw [hiff', hbreaks]
    simp
  · exact ((hread' (by simpa [hhalved] using hlegible)).2 [] _ _ [] hhalved (by simp) (by decide +kernel)
      (by decide +kernel)).2

/-- After `halved`, what is left of the command that was given up is nobody's, and is read as the
start of the next. -/
theorem read_after_halved : ¬Unbroken 1 halved ∧
    ((run {} (halved.take 11)).session? 1).any (fun s => s.outlet.turn.line.isEmpty &&
      s.outlet.written == (Command.status.request 1).encode.take 3) = true ∧
    Request.decodeAll ((run {} halved).written 1) =
      [.ok { Command.stackDepth.request 2 with command := "stastack_depth" }] := by
  rw [unbroken_iff]
  decide +kernel

end Client

end Dbgp
