import Dbgp.Proofs.Closing
import Dbgp.Proofs.Dispatch

/-!
# The negotiation goes first and is made once

Tasks with a command that needs the negotiation stand in line for it, and the one at the head of the
line negotiates unless that has been tried before. `Negotiation.Change` is what a task can do to the
line and the two flags, and `Task.Agreed` is what a task can rely on: while it negotiates nobody else
does and nothing is settled, and once it goes on to its own request everything is.

What is written on a session is told apart by whose request it belongs to (`Writing`), and
`Client.Told` is what follows for everything that has been written so far. Writing stops anywhere when
the connection fails or the task is given up, so the octets of the negotiation are the start of one
request rather than a whole one.
-/

namespace Dbgp

/-! ## The line -/

namespace Turn

variable {t : Turn} {k j : Nat}

/-- `isHeldBy` holds of the first in line. -/
theorem isHeldBy_iff : t.isHeldBy k = true ↔ t.line.head? = some k := by
  rw [isHeldBy, decide_eq_true_iff]

/-- Who joins later does not take the turn: `isHeldBy` stays. -/
theorem isHeldBy_join (h : t.isHeldBy k = true) : (t.join j).isHeldBy k = true := by
  rw [isHeldBy_iff] at h ⊢
  rw [join, List.head?_append, h, Option.some_or]

/-- Nobody else takes the turn away by `leave`. -/
theorem isHeldBy_leave (h : t.isHeldBy k = true) (hne : k ≠ j) : (t.leave j).isHeldBy k = true := by
  rw [isHeldBy_iff, List.head?_eq_some_iff] at h
  obtain ⟨rest, hline⟩ := h
  rw [isHeldBy_iff, leave, hline, List.filter_cons_of_pos (by simpa using hne), List.head?_cons]

/-- `isHeldBy` holds of one task only. -/
theorem isHeldBy_unique (hk : t.isHeldBy k = true) (hj : t.isHeldBy j = true) : k = j := by
  rw [isHeldBy_iff] at hk hj
  exact Option.some.inj (hk.symm.trans hj)

end Turn

/-- What a task can do to a `Negotiation`. -/
inductive Negotiation.Change (k : Nat) (n : Negotiation) : Negotiation → Prop
  | same : Change k n n
  | joined : Change k n { n with turn := n.turn.join k }
  | left : Change k n { n with turn := n.turn.leave k }
  | settled : Change k n { n with settled := true, turn := n.turn.leave k }
  | opened : Change k n { n with attempted := true }

/-- By a `Negotiation.Change`, what is `settled` stays so. -/
theorem Negotiation.Change.settled_mono {k : Nat} {n n' : Negotiation} (h : n.Change k n')
    (hn : n.settled = true) : n'.settled = true := by
  cases h with
  | settled => rfl
  | same | joined | left | opened => exact hn

/-- By a `Negotiation.Change`, what was `attempted` stays so. -/
theorem Negotiation.Change.attempted_mono {k : Nat} {n n' : Negotiation} (h : n.Change k n')
    (hn : n.attempted = true) : n'.attempted = true := by
  cases h with
  | opened => rfl
  | same | joined | left | settled => exact hn

/-! ## What tasks rely on -/

/-- A task with a command is at the request of the command, or about to be: in `exchange` or
`prepare`. -/
def Phase.IsOwn : Phase → Prop
  | .prepare | .exchange _ => True
  | _ => False

/-- Whoever is in `negotiate` is so alone and before anything is settled, and whoever is past that has
been told that it is settled. -/
structure Task.Agreed (t : Task) (n : Negotiation) : Prop where
  busy : ∀ x, t.phase = .negotiate x →
    n.turn.isHeldBy t.id = true ∧ n.attempted = true ∧ n.settled = false
  past : ∀ c, t.job = .command c → c.negotiates = true → t.phase.IsOwn → n.settled = true

namespace Task

/-- A task that is neither in `negotiate` nor past it is `Agreed`. -/
theorem agreed_of_apart {t : Task} {n : Negotiation} (hbusy : ∀ x, t.phase ≠ .negotiate x)
    (hpast : ¬t.phase.IsOwn) : t.Agreed n :=
  ⟨fun x hx => absurd hx (hbusy x), fun _ _ _ hown => absurd hown hpast⟩

/-- A task keeps what others rely on (`Agreed`), if it settles nothing out of turn. -/
theorem Agreed.change {t : Task} {k : Nat} {n n' : Negotiation} (h : t.Agreed n)
    (hchange : n.Change k n') (hk : t.id ≠ k)
    (hturn : n'.settled = true → n.settled = true ∨ n.turn.isHeldBy k = true) : t.Agreed n' := by
  refine ⟨fun x hx => ?_, fun c hjob hc hown => hchange.settled_mono (h.past c hjob hc hown)⟩
  obtain ⟨hheld, hattempted, hsettled⟩ := h.busy x hx
  cases hchange with
  | same => exact ⟨hheld, hattempted, hsettled⟩
  | joined => exact ⟨Turn.isHeldBy_join hheld, hattempted, hsettled⟩
  | left => exact ⟨Turn.isHeldBy_leave hheld hk, hattempted, hsettled⟩
  | settled =>
    obtain hsettled' | hheld' := hturn rfl
    · cases hsettled.symm.trans hsettled'
    · exact absurd (Turn.isHeldBy_unique hheld hheld') hk
  | opened => exact ⟨hheld, rfl, hsettled⟩

end Task

/-! ## Single actions -/

/-- Actions of an `Exchange` leave the negotiation alone. -/
theorem Session.Exchanged.negotiation_eq {s s' : Session} (h : s.Exchanged s') :
    s'.negotiation = s.negotiation := by
  cases h
  rfl

namespace Task

variable {now : Nat} {t : Task} {g g' : Ground} {p : Progress Phase Reply}

/-- What a task with a command does to the negotiation is a `Negotiation.Change`, and it settles only
what it holds the turn for or negotiates. -/
theorem CommandAction.change {task : Nat} {c : Command} {phase : Phase}
    (h : CommandAction task now c phase g p g') :
    g.session.negotiation.Change task g'.session.negotiation ∧
      (g'.session.negotiation.settled = true → g.session.negotiation.settled = true ∨
        g.session.negotiation.turn.isHeldBy task = true ∨ ∃ x, phase = .negotiate x) := by
  cases h with
  | queued => exact ⟨.joined, .inl⟩
  | ready | prepared => exact ⟨.same, .inl⟩
  | passed => exact ⟨.left, .inl⟩
  | skipped _ _ hheld => exact ⟨.settled, fun _ => .inr (.inl hheld)⟩
  | opened => exact ⟨.opened, .inl⟩
  | negotiating _ hx | exchanging _ hx | concluded _ hx =>
    rw [(Exchange.acted hx).exchanged.negotiation_eq]
    exact ⟨.same, .inl⟩
  | settled hphase hx =>
    rw [Session.negotiated, (Exchange.acted hx).exchanged.negotiation_eq]
    exact ⟨.settled, fun _ => .inr (.inr ⟨_, hphase⟩)⟩

/-- The same of every action of `Task.act`. -/
theorem change_act (h : t.act now g = some (p, g')) :
    g.session.negotiation.Change t.id g'.session.negotiation ∧
      (g'.session.negotiation.settled = true → g.session.negotiation.settled = true ∨
        g.session.negotiation.turn.isHeldBy t.id = true ∨ ∃ x, t.phase = .negotiate x) := by
  cases acted h with
  | command _ hc => exact hc.change
  | ending _ _ hr | ended _ _ hr =>
    rw [(EndRequest.acted hr).exchanged.negotiation_eq]
    exact ⟨.same, .inl⟩
  | mailed | expected | unexpected | forgot | awaiting | waited | answered | terminating | sawEnd =>
    exact ⟨.same, .inl⟩

/-- A command stays `Agreed` with the negotiation. -/
theorem agreed_command {c : Command} (hjob : t.job = .command c) {phase : Phase}
    (h : CommandAction t.id now c t.phase g (.ongoing phase) g')
    (ht : t.Agreed g.session.negotiation) : ({ t with phase } : Task).Agreed g'.session.negotiation := by
  -- What holds once the task has come to its own request.
  have hown : (c.negotiates = true → g'.session.negotiation.settled = true) → phase.IsOwn →
      ({ t with phase } : Task).Agreed g'.session.negotiation := by
    intro hsettled hphase
    refine ⟨?_, fun c' hjob' hc _ => ?_⟩
    · rintro x rfl
      exact hphase.elim
    · cases hjob.symm.trans hjob'
      exact hsettled hc
  generalize hp : Progress.ongoing phase = p at h
  cases h with
  | queued =>
    cases hp
    exact agreed_of_apart (by simp) fun h => h
  | ready _ hready =>
    cases hp
    refine hown (fun hc => hready.resolve_left ?_) trivial
    simp [hc]
  | passed _ hsettled =>
    cases hp
    exact hown (fun _ => hsettled) trivial
  | skipped | settled =>
    cases hp
    exact hown (fun _ => rfl) trivial
  | opened _ hsettled hheld _ =>
    cases hp
    exact ⟨fun _ _ => ⟨hheld, rfl, hsettled⟩, fun _ _ _ hown => hown.elim⟩
  | negotiating hphase hx =>
    cases hp
    have hbusy := ht.busy _ hphase
    rw [← (Exchange.acted hx).exchanged.negotiation_eq] at hbusy
    exact ⟨fun _ _ => hbusy, fun _ _ _ hown => hown.elim⟩
  | prepared hphase =>
    cases hp
    exact hown (fun hc => ht.past c hjob hc (by rw [hphase]; trivial)) trivial
  | exchanging hphase hx =>
    cases hp
    refine hown (fun hc => ?_) trivial
    rw [(Exchange.acted hx).exchanged.negotiation_eq]
    exact ht.past c hjob hc (by rw [hphase]; trivial)
  | concluded => cases hp

/-- A task stays `Agreed` with the negotiation. -/
theorem agreed_act {phase : Phase} (h : t.act now g = some (.ongoing phase, g'))
    (ht : t.Agreed g.session.negotiation) :
    ({ t with phase } : Task).Agreed g'.session.negotiation := by
  generalize hp : Progress.ongoing phase = p at h
  cases acted h with
  | command hjob hc =>
    subst hp
    exact agreed_command hjob hc ht
  | mailed _ hphase =>
    obtain rfl | ⟨deadline, rfl⟩ := hphase phase hp.symm
    · exact agreed_of_apart (by simp) fun h => h
    · exact agreed_of_apart (by simp) fun h => h
  | awaiting | waited | terminating | ending =>
    cases hp
    exact agreed_of_apart (by simp) fun h => h
  | expected | unexpected | forgot | answered | ended | sawEnd => cases hp

/-- `Task.abandon` settles nothing. -/
theorem change_abandon (t : Task) (s : Session) :
    s.negotiation.Change t.id (t.abandon s).negotiation ∧
      (t.abandon s).negotiation.settled = s.negotiation.settled := by
  rw [abandon]
  split
  · exact ⟨.left, rfl⟩
  · next x _ =>
    rw [← (x.exchanged_abandon t.id s).negotiation_eq]
    exact ⟨.left, rfl⟩
  · next x _ =>
    rw [(x.exchanged_abandon t.id s).negotiation_eq]
    exact ⟨.same, rfl⟩
  all_goals exact ⟨.same, rfl⟩

end Task

/-- `receiverStep` touches neither outlet nor negotiation. -/
theorem Session.receiverStep_spares {now : Nat} {s s' : Session} (h : s.receiverStep now = some s') :
    s'.outlet = s.outlet ∧ s'.negotiation = s.negotiation := by
  cases receives h with
  | @wound stage failure =>
    cases stage with
    | takeListeners =>
      rw [endStep]
      split <;> exact ⟨rfl, rfl⟩
    | call left => cases left <;> exact ⟨rfl, rfl⟩
    | begin | closeSlots | ring | closeNotifies | closeOutputs => exact ⟨rfl, rfl⟩
  | @took r payload inbound =>
    refine ⟨(dispatch_spares _ payload).1, ?_⟩
    rw [dispatch]
    split
    · next packet _ =>
      cases packet with
      | response r =>
        rw [route]
        split <;> rfl
      | notify _ | output _ => rfl
    · rfl
  | rang | stopped | waited | closed | failed => exact ⟨rfl, rfl⟩

/-! ## Runs -/

namespace Client

/-- Tasks can rely on what the negotiation has come to: `Agreed` is `Local`. -/
theorem agreed_local : Local (fun _ => True) fun t s => t.Agreed s.negotiation where
  opened _ := trivial
  beside hbeside _ := by
    cases hbeside
    exact ⟨trivial, fun t h => h⟩
  mailed _ _ _ := ⟨trivial, fun t h => h⟩
  received hstep _ := by
    rw [(Session.receiverStep_spares hstep).2]
    exact ⟨trivial, fun t h => h⟩
  started _ _ _ _ := Task.agreed_of_apart (by simp) fun h => h
  acted {_ t _ _ _} hact _ ht := by
    obtain ⟨hchange, hturn⟩ := Task.change_act hact
    refine ⟨trivial, ?_, fun t' hne h => h.change hchange hne fun hsettled => ?_⟩
    · rintro phase rfl
      exact Task.agreed_act hact ht
    · obtain hsettled | hheld | ⟨x, hx⟩ := hturn hsettled
      · exact .inl hsettled
      · exact .inr hheld
      · exact .inr (ht.busy x hx).1
  abandoned {t s} _ _ := by
    obtain ⟨hchange, hsettled⟩ := t.change_abandon s
    exact ⟨trivial, fun t' hne h => h.change hchange hne fun h => .inl (hsettled ▸ h)⟩

/-- What every `Negotiation.Change` keeps lasts: only tasks touch the negotiation of a session. -/
theorem lasting_negotiation {P : Negotiation → Prop}
    (hP : ∀ {k n n'}, Negotiation.Change k n n' → P n → P n') : Lasting fun s => P s.negotiation where
  beside hbeside h := by
    cases hbeside
    exact h
  mailed _ _ h := h
  received hstep h := by rwa [(Session.receiverStep_spares hstep).2]
  acted hact := hP (Task.change_act hact).1
  abandoned t {s} := hP (t.change_abandon s).1

/-- A negotiation that is `settled` stays so in every run. -/
theorem lasting_settled : Lasting fun s => s.negotiation.settled = true :=
  lasting_negotiation (P := fun n => n.settled = true) fun hchange => hchange.settled_mono

/-- A negotiation that was `attempted` once counts as attempted from then on. -/
theorem lasting_attempted : Lasting fun s => s.negotiation.attempted = true :=
  lasting_negotiation (P := fun n => n.attempted = true) fun hchange => hchange.attempted_mono

end Client

/-! ## Who writes what -/

/-- Octets that a task writes on its session with an action, if any, and the request they belong to:
that of its command, or the negotiation `ahead` of it. -/
structure Writing where
  task : Nat
  command : Command
  ahead : Bool
  request : Request
  octets : List UInt8
  deriving DecidableEq

/-- The `Writing` of a task that writes these octets now. -/
def Task.writing? (octets : List UInt8) (t : Task) : Option Writing :=
  match t.job, t.phase with
  | .command c, .negotiate x => some ⟨t.id, c, true, x.request, octets⟩
  | .command c, .exchange x => some ⟨t.id, c, false, x.request, octets⟩
  | _, _ => none

namespace Writing

/-- All octets of some writings, in order; `Client.written` is what they come to on a session. -/
def text (ws : List Writing) : List UInt8 :=
  ws.flatMap (·.octets)

/-- The writings that belong to negotiations: those that are `ahead`. -/
def negotiations (ws : List Writing) : List Writing :=
  ws.filter (·.ahead)

/-- A `Writing` of a negotiation does not come after the request of a command that it should be ahead
of. -/
def InOrder (w w' : Writing) : Prop :=
  w'.ahead = true → w.ahead = true ∨ w.command.negotiates = false

@[simp] theorem text_nil : text [] = [] := rfl

/-- The `text` of two parts is that of both, one after the other. -/
@[simp] theorem text_append (ws ws' : List Writing) : text (ws ++ ws') = text ws ++ text ws' :=
  List.flatMap_append

/-- The octets of one `Writing`. -/
@[simp] theorem text_singleton (w : Writing) : text [w] = w.octets :=
  List.flatMap_singleton ..

/-- One more `Writing` counts if it is of a negotiation. -/
theorem negotiations_concat {w : Writing} (ws : List Writing) :
    negotiations (ws ++ [w]) = negotiations ws ++ if w.ahead then [w] else [] := by
  rw [negotiations, List.filter_append, List.filter_cons, List.filter_nil, negotiations]

end Writing

/-! ## The account of a session -/

/-- What an action of an `Exchange` does to the connection is to append octets. -/
theorem Exchange.Action.written {task now : Nat} {x : Exchange} {s s' : Session}
    {p : Progress Exchange (Option Response)} (h : x.Action task now s p s') :
    ∃ d, s'.outlet.written = s.outlet.written ++ d := by
  have hnone : s'.outlet.written = s.outlet.written → ∃ d, s'.outlet.written = s.outlet.written ++ d :=
    fun h => ⟨[], by rw [h, List.append_nil]⟩
  cases h with
  | wrote _ hwrite | broke _ hwrite | sent _ _ hwrite | dropped _ _ hwrite =>
    obtain ⟨d, hd, -⟩ := Outlet.written_write hwrite
    exact ⟨d, hd⟩
  | dead | refused | timedOut | obtained => exact hnone (by rw [(x.release_keeps _).1])
  | ending _ hr => exact hnone (EndRequest.acted hr).written_eq
  | ended _ hr => exact hnone (by rw [(x.release_keeps _).1, (EndRequest.acted hr).written_eq])
  | entered | turnedAway | expected | unexpected | announced | begun | waited => exact hnone rfl

namespace Task

variable {now : Nat} {t : Task} {g g' : Ground} {p : Progress Phase Reply}

/-- What an action of `Task.act` appends is what the task writes (`writing?`). -/
theorem written_act (h : t.act now g = some (p, g')) :
    g'.session.outlet.written = g.session.outlet.written ++
      Writing.text (t.writing? (g'.session.outlet.written.drop g.session.outlet.written.length)).toList := by
  have hnone : g'.session.outlet.written = g.session.outlet.written →
      g'.session.outlet.written = g.session.outlet.written ++
        Writing.text (t.writing? (g'.session.outlet.written.drop
          g.session.outlet.written.length)).toList := by
    intro hsame
    rw [hsame, List.drop_length]
    unfold writing?
    split <;> exact (List.append_nil _).symm
  cases acted h with
  | @command c _ _ hjob hc =>
    have hexchange : ∀ {x} {s : Session}, t.phase = .negotiate x ∨ t.phase = .exchange x →
        (∃ d, s.outlet.written = g.session.outlet.written ++ d) →
        s.outlet.written = g.session.outlet.written ++
          Writing.text (t.writing? (s.outlet.written.drop g.session.outlet.written.length)).toList := by
      rintro x s hphase ⟨d, hd⟩
      rw [hd, List.drop_left]
      obtain hphase | hphase := hphase
      · simp [writing?, hjob, hphase]
      · simp [writing?, hjob, hphase]
    cases hc with
    | negotiating hphase hx => exact hexchange (.inl hphase) (Exchange.acted hx).written
    | settled hphase hx => exact hexchange (.inl hphase) (Exchange.acted hx).written
    | exchanging hphase hx => exact hexchange (.inr hphase) (Exchange.acted hx).written
    | concluded hphase hx => exact hexchange (.inr hphase) (Exchange.acted hx).written
    | queued | ready | passed | skipped | opened | prepared => exact hnone rfl
  | ending _ _ hr | ended _ _ hr => exact hnone (EndRequest.acted hr).written_eq
  | mailed | expected | unexpected | forgot | awaiting | waited | answered | terminating | sawEnd =>
    exact hnone rfl

/-- `Task.abandon` writes nothing. -/
theorem written_abandon (t : Task) (s : Session) :
    (t.abandon s).outlet.written = s.outlet.written := by
  have hexchange : ∀ x : Exchange, (x.abandon t.id s).outlet.written = s.outlet.written := by
    intro x
    rw [Exchange.abandon]
    split
    · rfl
    · rfl
    · rw [(x.release_keeps _).1]
  rw [abandon]
  split
  case h_2 x _ | h_3 x _ => exact hexchange x
  all_goals rfl

end Task

namespace Client

variable {c c' : Client} {m : Move} {n k : Nat} {ws : List Writing}

/-- What is written on a session with a `Move`. -/
def writings (n : Nat) (c : Client) : Move → List Writing
  | .task k =>
    match c.task? k with
    | some t =>
      if t.session = n then
        (t.writing? (((c.step (.task k)).written n).drop (c.written n).length)).toList
      else []
    | none => []
  | _ => []

/-- What has been `written` on a session that is there. -/
theorem written_of_session? {s : Session} (hs : c.session? n = some s) :
    c.written n = s.outlet.written := by
  rw [written, hs]
  rfl

/-- Nobody but tasks writes: every other `Outcome` leaves `written` as it is. -/
theorem Outcome.written_eq (h : Outcome c m c') (hc : c.Unwritten) (hm : ∀ k, m ≠ .task k) :
    c'.written n = c.written n := by
  have hreplaced : ∀ {j s s'}, c.session? j = some s →
      (∀ i, c'.session? i = if i = j then some s' else c.session? i) →
      s'.outlet.written = s.outlet.written → c'.written n = c.written n := by
    intro j s s' hj hsession hsame
    by_cases hn : n = j
    · subst hn
      rw [written_of_session? hj, written_of_session? (by rw [hsession, if_pos rfl]), hsame]
    · rw [written, hsession, if_neg hn, written]
  cases h with
  | aside _ hsession =>
    have hpassed := hsession n
    rw [written, written]
    generalize c.session? n = d at hpassed
    generalize c'.session? n = d' at hpassed
    cases hpassed with
    | absent => rfl
    | beside hbeside =>
      cases hbeside
      rfl
    | opened houtlet =>
      obtain rfl | ⟨d, hd, rfl⟩ := houtlet
      · rfl
      · exact (hc d hd).written
  | received _ hj hstep _ hsession =>
    exact hreplaced hj hsession (by rw [(Session.receiverStep_spares hstep).1])
  | acted hm' => exact absurd hm' (hm _)
  | forwarded _ hj _ hsession => exact hreplaced hj hsession rfl
  | @abandoned k t _ _ _ hsession =>
    rw [written, written, hsession]
    split
    · cases c.session? n with
      | none => rfl
      | some s => exact t.written_abandon s
    · rfl

/-- All that is written with a move is some task's, by `writings`. -/
theorem written_step (hc : c.Unwritten) (m : Move) :
    (c.step m).written n = c.written n ++ Writing.text (c.writings n m) := by
  have hnone : (c.step m).written n = c.written n → c.writings n m = [] →
      (c.step m).written n = c.written n ++ Writing.text (c.writings n m) := by
    intro hsame hws
    rw [hsame, hws, Writing.text_nil, List.append_nil]
  cases m with
  | task k =>
    obtain ⟨-, hsame⟩ | ⟨t, s, p, g, hk, hs, hact, -, -, -, hsession, -⟩ := c.step_task k
    · rw [writings, hsame, List.drop_length]
      split
      · next t _ =>
        split
        · rw [Task.writing?]
          split <;> exact (List.append_nil _).symm
        · exact (List.append_nil _).symm
      · exact (List.append_nil _).symm
    · by_cases hn : t.session = n
      · subst hn
        have hs' : (c.step (.task k)).session? t.session = some g.session := by
          rw [hsession, if_pos rfl]
        rw [writings, hk]
        simp only [if_true]
        rw [written_of_session? hs, written_of_session? hs']
        exact Task.written_act hact
      · refine hnone ?_ (by simp [writings, hk, hn])
        rw [written, hsession, if_neg (Ne.symm hn), written]
  | accept _ | attach _ | arrive _ _ | gate _ _ _ | start _ _ | cancel _ | release _ | addLogger _ _
  | removeLogger _ _ | addListener _ _ | removeListener _ _ | pass _ | handshake _ | receiver _ =>
    exact hnone ((c.outcome _).written_eq hc (by simp)) rfl

/-- All that is written in a run is what its `writings` say. -/
theorem written_run (n : Nat) (ms : List Move) :
    (run {} ms).written n = Writing.text (trace (writings n) {} ms) := by
  induction ms using List.reverseRecOn with
  | nil => rfl
  | append_singleton ms m ih =>
    rw [run_concat, trace_concat, Writing.text_append, ← ih]
    exact written_step (agreed_local.run ms).1.unwritten m

/-! ## Once and first -/

/-- What has been written on a session so far: of one negotiation at most, of that only once it was
`attempted`, and of requests that should come after it only once it is `settled`. -/
structure Told (n : Nat) (ws : List Writing) (c : Client) : Prop where
  once : ∃ u, (∀ w ∈ ws, w.ahead = true → w.request = Command.negotiation.request u) ∧
    Writing.text (Writing.negotiations ws) <+: (Command.negotiation.request u).encode ∧
    ∀ k t x, c.task? k = some t → t.session = n → t.phase = .negotiate x →
      x.request = Command.negotiation.request u ∧
        x.Emitted (c.IsEnding n) (Writing.text (Writing.negotiations ws))
  tried : ∀ w ∈ ws, w.ahead = true → ∃ s, c.session? n = some s ∧ s.negotiation.attempted = true
  first : ∀ w ∈ ws, w.ahead = false → w.command.negotiates = true →
    ∃ s, c.session? n = some s ∧ s.negotiation.settled = true
  order : ws.Pairwise Writing.InOrder

/-- Nothing has been written on a session of a new client, so `Told` holds. -/
theorem told_new (n : Nat) : Told n [] {} :=
  ⟨⟨0, fun _ h => (nomatch h), List.nil_prefix, fun _ _ _ h => (nomatch h)⟩, fun _ h => (nomatch h),
    fun _ h => (nomatch h), .nil⟩

/-- `Told` is kept by a move with which nothing is written and nobody begins to negotiate. -/
theorem Told.pass (h : c.Told n ws) (houtcome : Outcome c m c')
    (htask : ∀ k t x, c'.task? k = some t → t.session = n → t.phase = .negotiate x →
      c.task? k = some t) : c'.Told n ws := by
  obtain ⟨u, hrequest, hprefix, hbusy⟩ := h.once
  refine ⟨⟨u, hrequest, hprefix, fun k t x ht hn hx => ?_⟩, fun w hw hahead => ?_,
    fun w hw hown hc => ?_, h.order⟩
  · obtain ⟨hxu, hemitted⟩ := hbusy k t x (htask k t x ht hn hx) hn hx
    exact ⟨hxu, hemitted.mono houtcome.isEnding⟩
  · exact lasting_attempted.outcome houtcome (h.tried w hw hahead)
  · exact lasting_settled.outcome houtcome (h.first w hw hown hc)

/-- `Told` is kept when the request of a command is written, after the negotiation if it has to be. -/
theorem Told.own {w : Writing} (h : c.Told n ws) (hw : w.ahead = false)
    (hsettled : w.command.negotiates = true →
      ∃ s, c.session? n = some s ∧ s.negotiation.settled = true) : c.Told n (ws ++ [w]) := by
  have hsame : Writing.negotiations (ws ++ [w]) = Writing.negotiations ws := by
    rw [Writing.negotiations_concat, hw]
    exact List.append_nil _
  obtain ⟨u, hrequest, hprefix, hbusy⟩ := h.once
  refine ⟨⟨u, fun w' hw' hahead => ?_, hsame ▸ hprefix, hsame ▸ hbusy⟩, fun w' hw' hahead => ?_,
    fun w' hw' hown hc => ?_, ?_⟩
  · obtain hw' | hw' := List.mem_append.mp hw'
    · exact hrequest w' hw' hahead
    · rw [List.mem_singleton.mp hw', hw] at hahead
      cases hahead
  · obtain hw' | hw' := List.mem_append.mp hw'
    · exact h.tried w' hw' hahead
    · rw [List.mem_singleton.mp hw', hw] at hahead
      cases hahead
  · obtain hw' | hw' := List.mem_append.mp hw'
    · exact h.first w' hw' hown hc
    · exact hsettled (List.mem_singleton.mp hw' ▸ hc)
  · refine List.pairwise_append.mpr ⟨h.order, List.pairwise_singleton .., fun w₁ _ w₂ hw₂ hahead => ?_⟩
    rw [List.mem_singleton.mp hw₂, hw] at hahead
    cases hahead

/-- `Told` is kept when the negotiation is written, or goes on. Nobody else negotiates, and no request
that should come after it has been written. -/
theorem Told.ahead {t : Task} {s : Session} {x : Exchange} {w : Writing} (h : c.Told n ws)
    (hagreed : c.Upholds (fun _ => True) fun t s => t.Agreed s.negotiation)
    (houtcome : Outcome c m c') (hk : c.task? k = some t) (hn : t.session = n)
    (hs : c.session? n = some s) (hphase : t.phase = .negotiate x) (hw : w.ahead = true)
    (hwx : w.request = x.request) (hothers : ∀ j, j ≠ k → c'.task? j = c.task? j)
    (hthen : ∀ v, x.Emitted (c.IsEnding n) v → v ++ w.octets <+: x.request.encode ∧
      ∀ t' x', c'.task? k = some t' → t'.phase = .negotiate x' →
        x'.request = x.request ∧ x'.Emitted (c'.IsEnding n) (v ++ w.octets)) :
    c'.Told n (ws ++ [w]) := by
  obtain ⟨u, hrequest, hprefix, hbusy⟩ := h.once
  obtain ⟨hheld, hattempted, hsettled⟩ := (hagreed.task hk (hn ▸ hs)).busy x hphase
  obtain ⟨hxu, hemitted⟩ := hbusy k t x hk hn hphase
  obtain ⟨hprefix', hown⟩ := hthen _ hemitted
  have htext : Writing.text (Writing.negotiations (ws ++ [w])) =
      Writing.text (Writing.negotiations ws) ++ w.octets := by
    rw [Writing.negotiations_concat, hw, if_pos rfl, Writing.text_append, Writing.text_singleton]
  refine ⟨⟨u, fun w' hw' hahead => ?_, ?_, fun j t' x' ht' hn' hx' => ?_⟩, fun w' _ _ => ?_,
    fun w' hw' hown hc => ?_, ?_⟩
  · obtain hw' | hw' := List.mem_append.mp hw'
    · exact hrequest w' hw' hahead
    · rw [List.mem_singleton.mp hw', hwx, hxu]
  · rw [htext, ← hxu]
    exact hprefix'
  · rw [htext]
    by_cases hj : j = k
    · subst hj
      obtain ⟨hsame, hemitted'⟩ := hown t' x' ht' hx'
      exact ⟨hsame.trans hxu, hemitted'⟩
    · rw [hothers j hj] at ht'
      have hheld' := ((hagreed.task ht' (hn' ▸ hs)).busy x' hx').1
      have hid := Turn.isHeldBy_unique hheld' hheld
      rw [id_of_task? ht', id_of_task? hk] at hid
      exact absurd hid hj
  · exact lasting_attempted.outcome houtcome ⟨s, hs, hattempted⟩
  · obtain hw' | hw' := List.mem_append.mp hw'
    · exact lasting_settled.outcome houtcome (h.first w' hw' hown hc)
    · rw [List.mem_singleton.mp hw', hw] at hown
      cases hown
  · refine List.pairwise_append.mpr ⟨h.order, List.pairwise_singleton .., fun w₁ hw₁ w₂ _ _ => ?_⟩
    by_contra hlate
    rw [not_or, Bool.not_eq_true, Bool.not_eq_false] at hlate
    obtain ⟨s', hs', hsettled'⟩ := h.first w₁ hw₁ hlate.1 hlate.2
    cases hs.symm.trans hs'
    cases hsettled.symm.trans hsettled'

/-- Somebody begins to negotiate, for the first time: the negotiation was not `attempted`. -/
theorem Told.opened {s : Session} {u : UInt32} (h : c.Told n ws)
    (hagreed : c.Upholds (fun _ => True) fun t s => t.Agreed s.negotiation)
    (houtcome : Outcome c m c') (hs : c.session? n = some s)
    (hattempted : s.negotiation.attempted = false) (hothers : ∀ j, j ≠ k → c'.task? j = c.task? j)
    (hown : ∀ t x, c'.task? k = some t → t.phase = .negotiate x →
      x.request = Command.negotiation.request u ∧ x.phase = .enter) : c'.Told n ws := by
  have hnone : ∀ w ∈ ws, w.ahead ≠ true := by
    intro w hw hahead
    obtain ⟨s', hs', hattempted'⟩ := h.tried w hw hahead
    cases hs.symm.trans hs'
    cases hattempted.symm.trans hattempted'
  have htext : Writing.text (Writing.negotiations ws) = [] := by
    rw [Writing.negotiations, List.filter_eq_nil_iff.mpr hnone, Writing.text_nil]
  refine ⟨⟨u, fun w hw hahead => absurd hahead (hnone w hw), htext ▸ List.nil_prefix,
    fun j t x ht hn hx => ?_⟩, fun w hw hahead => absurd hahead (hnone w hw), fun w hw hown hc => ?_,
    h.order⟩
  · by_cases hj : j = k
    · subst hj
      obtain ⟨hxu, henter⟩ := hown t x ht hx
      exact ⟨hxu, by rw [Exchange.Emitted, henter]; exact htext⟩
    · rw [hothers j hj] at ht
      cases hattempted.symm.trans ((hagreed.task ht (hn ▸ hs)).busy x hx).2.1
  · exact lasting_settled.outcome houtcome (h.first w hw hown hc)

/-- `Told` is kept by a task that cannot act, as that writes nothing. -/
theorem Told.blocked {t : Task} (h : c.Told n ws)
    (hagreed : c.Upholds (fun _ => True) fun t s => t.Agreed s.negotiation)
    (hk : c.task? k = some t) (hn : t.session = n) : c.Told n (ws ++ (t.writing? []).toList) := by
  have hnone : c.Told n (ws ++ []) := by rwa [List.append_nil]
  cases hs : c.session? n with
  | none =>
    have hstart := hagreed.early hk (hn ▸ hs)
    have hwriting : t.writing? [] = none := by simp [Task.writing?, hstart]
    rwa [hwriting]
  | some s =>
    have hsame : Outcome c (.pass 0) c := outcome_self rfl
    unfold Task.writing?
    split
    · next cmd x _ hphase =>
      refine h.ahead hagreed hsame hk hn hs hphase rfl rfl (fun _ _ => rfl) fun v hv => ?_
      rw [List.append_nil]
      refine ⟨hv.isPrefix, fun t' x' ht' hx' => ?_⟩
      cases hk.symm.trans ht'
      cases hphase.symm.trans hx'
      exact ⟨rfl, hv⟩
    · next cmd x hjob hphase =>
      refine h.own rfl fun hc => ⟨s, hs, ?_⟩
      exact (hagreed.task hk (hn ▸ hs)).past cmd hjob hc (by rw [hphase]; trivial)
    · exact hnone

section Acting

variable {t : Task} {s : Session} {p : Progress Phase Reply} {g : Ground}

/-- A task that has acted and is still there is `ongoing`, where its action has left it. -/
theorem ongoing_of_task? {t' : Task} (htask : ∀ j, c'.task? j =
      if j = k then p.ongoing?.map fun phase => { t with phase } else c.task? j)
    (ht' : c'.task? k = some t') : p = .ongoing t'.phase := by
  rw [htask, if_pos rfl] at ht'
  cases p with
  | ongoing phase =>
    cases ht'
    rfl
  | finished _ => cases ht'

/-- `Told` is kept when a task acts and is not in `negotiate` after that: nobody begins to
negotiate. -/
theorem Told.unmoved (h : c.Told n ws) (houtcome : Outcome c m c') (htask : ∀ j, c'.task? j =
      if j = k then p.ongoing?.map fun phase => { t with phase } else c.task? j)
    (hp : ∀ x, p ≠ .ongoing (.negotiate x)) : c'.Told n ws := by
  refine h.pass houtcome fun j t' x ht' _ hx => ?_
  by_cases hj : j = k
  · subst hj
    exact absurd (ongoing_of_task? htask ht') (hx ▸ hp x)
  · rwa [htask, if_neg hj] at ht'

/-- `Told` is kept by what an `Exchange` does for the negotiation. -/
theorem Told.negotiated {cmd : Command} {x : Exchange} {s₁ : Session}
    {q : Progress Exchange (Option Response)} (h : c.Told n ws)
    (hagreed : c.Upholds (fun _ => True) fun t s => t.Agreed s.negotiation)
    (houtcome : Outcome c m c') (hk : c.task? k = some t) (hn : t.session = n)
    (hs : c.session? n = some s) (htask : ∀ j, c'.task? j =
      if j = k then p.ongoing?.map fun phase => { t with phase } else c.task? j)
    (hs' : c'.session? n = some g.session) (hjob : t.job = .command cmd)
    (hphase : t.phase = .negotiate x) (hx : x.Action t.id c.now s q s₁)
    (houtlet : s₁.outlet = g.session.outlet) (hlifecycle : s₁.lifecycle = g.session.lifecycle)
    (hq : ∀ x', p = .ongoing (.negotiate x') → q = .ongoing x') :
    c'.Told n (ws ++
      (t.writing? (g.session.outlet.written.drop s.outlet.written.length)).toList) := by
  have hending : c.IsEnding n → s.lifecycle.isConnected = false := by
    rintro ⟨s₁, hs₁, hending⟩
    cases hs.symm.trans hs₁
    exact hending
  have hwriting : ∀ d, t.writing? d = some ⟨t.id, cmd, true, x.request, d⟩ := by
    intro d
    rw [Task.writing?, hjob, hphase]
  rw [hwriting]
  refine h.ahead hagreed houtcome hk hn hs hphase rfl rfl
    (fun j hj => by rw [htask, if_neg hj]) fun v hv => ?_
  obtain ⟨d, hd, -, hthen⟩ := Exchange.emitted_act (hv.mono hending) hx
  rw [houtlet] at hd
  rw [hlifecycle] at hthen
  simp only [hd, List.drop_left]
  refine ⟨?_, fun t' x' ht' hx' => ?_⟩
  · cases q with
    | ongoing x' => exact hthen.1 ▸ hthen.2.isPrefix
    | finished _ => exact hthen.isPrefix
  · rw [hq x' (hx' ▸ ongoing_of_task? htask ht')] at hthen
    exact ⟨hthen.1, hthen.2.mono fun h => ⟨g.session, hs', h⟩⟩

/-- `Told` is kept by every action of a task of the session. -/
theorem Told.acted (h : c.Told n ws)
    (hagreed : c.Upholds (fun _ => True) fun t s => t.Agreed s.negotiation)
    (houtcome : Outcome c m c') (hk : c.task? k = some t) (hn : t.session = n)
    (hs : c.session? n = some s) (hact : t.act c.now ⟨c.nextTransaction, s⟩ = some (p, g))
    (htask : ∀ j, c'.task? j = if j = k then p.ongoing?.map fun phase => { t with phase }
      else c.task? j) (hs' : c'.session? n = some g.session) :
    c'.Told n (ws ++
      (t.writing? (g.session.outlet.written.drop s.outlet.written.length)).toList) := by
  have hsilent : (∀ d, t.writing? d = none) → (∀ x, p ≠ .ongoing (.negotiate x)) →
      c'.Told n (ws ++
        (t.writing? (g.session.outlet.written.drop s.outlet.written.length)).toList) := by
    intro hwriting hp
    rw [hwriting, Option.toList_none, List.append_nil]
    exact h.unmoved houtcome htask hp
  cases Task.acted hact with
  | @command cmd _ _ hjob hc =>
    have hwritten : ∀ {x}, t.phase = .exchange x → (∀ x, p ≠ .ongoing (.negotiate x)) →
        c'.Told n (ws ++
          (t.writing? (g.session.outlet.written.drop s.outlet.written.length)).toList) := by
      intro x hphase hp
      rw [Task.writing?, hjob, hphase]
      refine (h.unmoved houtcome htask hp).own rfl fun hc =>
        lasting_settled.outcome houtcome ⟨s, hs, ?_⟩
      exact (hagreed.task hk (hn ▸ hs)).past cmd hjob hc (by rw [hphase]; trivial)
    cases hc with
    | queued hphase | ready hphase | passed hphase | skipped hphase | prepared hphase =>
      exact hsilent (by simp [Task.writing?, hphase]) (by simp)
    | opened hphase _ _ hattempted =>
      rw [Task.writing?, hjob, hphase, Option.toList_none, List.append_nil]
      refine h.opened (u := c.nextTransaction) hagreed houtcome hs hattempted
        (fun j hj => by rw [htask, if_neg hj]) fun t' x' ht' hx' => ?_
      cases hx' ▸ ongoing_of_task? htask ht'
      exact ⟨rfl, rfl⟩
    | negotiating hphase hx =>
      refine h.negotiated hagreed houtcome hk hn hs htask hs' hjob hphase (Exchange.acted hx) rfl rfl ?_
      rintro x' ⟨⟩
      rfl
    | settled hphase hx =>
      refine h.negotiated hagreed houtcome hk hn hs htask hs' hjob hphase (Exchange.acted hx) rfl rfl ?_
      rintro x' ⟨⟩
    | exchanging hphase | concluded hphase => exact hwritten hphase (by simp)
  | mailed hjob hphase =>
    refine hsilent ?_ ?_
    · obtain ⟨limit, hjob | hjob⟩ := hjob <;> simp [Task.writing?, hjob]
    · intro x hp
      obtain h | ⟨deadline, h⟩ := hphase _ hp <;> cases h
  | expected hjob | unexpected hjob | forgot hjob | awaiting hjob | waited hjob | answered hjob
  | terminating hjob | ending hjob | ended hjob | sawEnd hjob =>
    exact hsilent (by simp [Task.writing?, hjob]) (by simp)

end Acting

/-- One move keeps what `Told` says. -/
theorem Told.step (h : c.Told n ws)
    (hagreed : c.Upholds (fun _ => True) fun t s => t.Agreed s.negotiation) (m : Move) :
    (c.step m).Told n (ws ++ c.writings n m) := by
  have houtcome := c.outcome m
  -- Where no task acts, nobody begins to negotiate.
  have hothers : (∀ k, m ≠ .task k) → c.writings n m = [] →
      (c.step m).Told n (ws ++ c.writings n m) := by
    intro hm hnone
    rw [hnone, List.append_nil]
    refine h.pass houtcome fun k t x ht _ hx => ?_
    cases houtcome with
    | aside htask =>
      obtain hsame | ⟨-, session, job, -, hstarted⟩ := htask k
      · exact hsame ▸ ht
      · cases hstarted.symm.trans ht
        cases hx
    | received _ _ _ htask | forwarded _ _ htask => exact htask k ▸ ht
    | acted hm' => exact absurd hm' (hm _)
    | abandoned _ _ htask =>
      rw [htask] at ht
      split at ht
      · cases ht
      · exact ht
  cases m with
  | task k =>
    obtain ⟨-, hsame⟩ | ⟨t, s, p, g, hk, hs, hact, -, -, htask, hsession, -⟩ := c.step_task k
    · rw [writings, hsame, List.drop_length]
      cases hk : c.task? k with
      | none =>
        rw [List.append_nil]
        exact h
      | some t =>
        simp only
        split
        · next hn => exact h.blocked hagreed hk hn
        · rw [List.append_nil]
          exact h
    · by_cases hn : t.session = n
      · subst hn
        have hs' : (c.step (.task k)).session? t.session = some g.session := by
          rw [hsession, if_pos rfl]
        rw [writings, hk]
        simp only [if_true]
        rw [written_of_session? hs, written_of_session? hs']
        exact h.acted hagreed houtcome hk rfl hs hact htask hs'
      · have hnone : c.writings n (.task k) = [] := by simp [writings, hk, hn]
        rw [hnone, List.append_nil]
        refine h.pass houtcome fun j t' x ht' hn' _ => ?_
        rw [htask] at ht'
        split at ht'
        · obtain ⟨phase, -, rfl⟩ := Option.map_eq_some_iff.mp ht'
          exact absurd hn' hn
        · exact ht'
  | accept _ | attach _ | arrive _ _ | gate _ _ _ | start _ _ | cancel _ | release _ | addLogger _ _
  | removeLogger _ _ | addListener _ _ | removeListener _ _ | pass _ | handshake _ | receiver _ =>
    exact hothers (by simp) rfl

/-- What is written in a run is as `Told` says. -/
theorem told_run (n : Nat) (ms : List Move) : (run {} ms).Told n (trace (writings n) {} ms) := by
  induction ms using List.reverseRecOn with
  | nil => exact told_new n
  | append_singleton ms m ih =>
    rw [run_concat, trace_concat]
    exact ih.step (agreed_local.run ms).2 m

end Client

end Dbgp
