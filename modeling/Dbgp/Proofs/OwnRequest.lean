import Dbgp.Proofs.Negotiation
import Dbgp.Proofs.Recoverability

/-!
# The request of a command after the negotiation

Whatever a negotiation comes to, the command it was made for goes on to its own request, and only what
becomes of that decides on the result. Two things are shown for it. A task that reports anything but
the end of its session has written its request whole, and reports what the response to that request
says or that there was none in time (`Client.Answering`). And once the negotiation is over nothing holds
the task up: if the outlet takes what is written and nobody is in line for it, the task's next actions
write the request (`Client.writes_request`). With `Client.Told` this is the main statement,
`Client.negotiated_once_and_first`.
-/

namespace Dbgp

/-! ## Results of exchanges -/

/-- An `Exchange` keeps its request, and whether that is to be answered. -/
theorem Exchange.Action.same {task now : Nat} {x x' : Exchange} {s s' : Session}
    (h : x.Action task now s (.ongoing x') s') : x'.request = x.request ∧ x'.answered = x.answered := by
  cases h <;> exact ⟨rfl, rfl⟩

/-- An `Exchange` breaks off with an error that cannot be got over, or has waited for its response. -/
theorem Exchange.Action.verdict {E : Prop} {task now : Nat} {x : Exchange} {s s' : Session}
    {r : Except Error (Option Response)} (h : x.Action task now s (.finished r) s') (hends : x.Ends E)
    (hanswered : x.answered = true) :
    (∃ e, r = .error e ∧ e.isRecoverable = false) ∨ (∃ w, x.phase = .await w) ∧
      (r = .error (.timeout x.request.transaction) ∨
        ∃ a, x.obtained? now s = some a ∧ r = some <$> a.check) := by
  generalize hp : Progress.finished r = p at h
  cases h with
  | turnedAway | unexpected | dead =>
    cases hp
    exact .inl ⟨.terminated, rfl, rfl⟩
  | dropped _ hanswered' => cases hanswered.symm.trans hanswered'
  | refused _ hw =>
    cases hp
    cases Wait.acted hw with
    | refused => exact .inl ⟨.terminated, rfl, rfl⟩
  | timedOut hphase =>
    cases hp
    exact .inr ⟨⟨_, hphase⟩, .inl rfl⟩
  | @obtained w a slots hphase hw =>
    injection hp with hp
    refine .inr ⟨⟨w, hphase⟩, .inr ⟨a, ?_, hp⟩⟩
    rw [obtained?, hphase]
    simp only [hw]
  | ended hphase =>
    cases hp
    exact .inl ⟨_, rfl, (hends _ _ hphase).1⟩
  | entered | expected | announced | begun | wrote | broke | sent | waited | ending => cases hp

/-- What `Command.conclude` makes of a response: it is checked and then read. -/
theorem Command.conclude_check (cmd : Command) (a : Response) :
    cmd.conclude (some <$> a.check) = a.check >>= fun r => cmd.read r := by
  cases a.check <;> rfl

/-- The commands for which `negotiates` holds are answered. -/
theorem Command.isAsync_of_negotiates {cmd : Command} (h : cmd.negotiates = true) :
    cmd.isAsync = false := by
  cases cmd <;> first | rfl | cases h

/-! ## What a command has written of its own request -/

/-- The `Writing`s of a task that belong to the request of its command. -/
def Writing.own (k : Nat) (ws : List Writing) : List Writing :=
  ws.filter fun w => w.task = k ∧ w.ahead = false

/-- `Writing.own` of two parts. -/
theorem Writing.own_append (k : Nat) (ws ws' : List Writing) :
    own k (ws ++ ws') = own k ws ++ own k ws' :=
  List.filter_append ..

/-- What a task with a command has written of its own request when it comes to a phase, where `E` says
that the session is ending. -/
def Phase.Owes (E : Prop) (cmd : Command) (v : List UInt8) : Phase → Prop
  | .exchange x => (∃ u, x.request = cmd.request u) ∧ x.answered = true ∧ x.Emitted E v
  | _ => v = []

/-- What an action in a `Phase` adds to that, of the octets that it appends to the connection. -/
def Phase.ownPart (d : List UInt8) : Phase → List UInt8
  | .exchange _ => d
  | _ => []

/-- A session that is ending allows more, by `Owes`. -/
theorem Phase.Owes.mono {E E' : Prop} {cmd : Command} {v : List UInt8} {phase : Phase} (hE : E → E')
    (h : phase.Owes E cmd v) : phase.Owes E' cmd v := by
  cases phase with
  | exchange x => exact ⟨h.1, h.2.1, h.2.2.mono hE⟩
  | start | cell | negotiate _ | prepare | line | receive _ | await _ | finish _ => exact h

namespace Task

variable {task now : Nat} {cmd : Command} {phase : Phase} {g g' : Ground} {v : List UInt8}

/-- A task goes on with what it has written of its own request (`Phase.Owes`). -/
theorem owes_act {phase' : Phase} (h : CommandAction task now cmd phase g (.ongoing phase') g')
    (hsync : cmd.isAsync = false)
    (howes : phase.Owes (g.session.lifecycle.isConnected = false) cmd v) :
    phase'.Owes (g'.session.lifecycle.isConnected = false) cmd
      (v ++ phase.ownPart (g'.session.outlet.written.drop g.session.outlet.written.length)) := by
  generalize hp : Progress.ongoing phase' = p at h
  cases h with
  | queued hphase | ready hphase | passed hphase | skipped hphase | opened hphase
  | negotiating hphase | settled hphase =>
    subst hphase
    cases hp
    cases howes
    rfl
  | prepared hphase =>
    subst hphase
    cases hp
    cases howes
    exact ⟨⟨_, rfl⟩, by rw [Exchange.new, hsync]; rfl, rfl⟩
  | exchanging hphase hx =>
    subst hphase
    cases hp
    obtain ⟨⟨u, hu⟩, hanswered, hemitted⟩ := howes
    have hx := Exchange.acted hx
    obtain ⟨d, hd, -, hrequest, hthen⟩ := Exchange.emitted_act hemitted hx
    refine ⟨⟨u, hrequest.trans hu⟩, hx.same.2.trans hanswered, ?_⟩
    rw [Phase.ownPart, hd, List.drop_left]
    exact hthen
  | concluded => cases hp

/-- A `CommandAction` that ends a task reports an error that cannot be got over, or what has become of
its own request. -/
theorem verdict_act {result : Except Error Reply}
    (h : CommandAction task now cmd phase g (.finished result) g')
    (howes : phase.Owes (g.session.lifecycle.isConnected = false) cmd v)
    (hends : phase.Ends (g.session.lifecycle.isConnected = false)) :
    (∃ e, result = .error e ∧ e.isRecoverable = false) ∨ ∃ x u, phase = .exchange x ∧
      x.request = cmd.request u ∧ g'.transaction = g.transaction ∧
      v ++ phase.ownPart (g'.session.outlet.written.drop g.session.outlet.written.length) =
        (cmd.request u).encode ∧
      (result = .error (.timeout u) ∨
        ∃ a, x.obtained? now g.session = some a ∧ result = a.check >>= fun r => cmd.read r) := by
  generalize hp : Progress.finished result = p at h
  cases h with
  | @concluded x r s hphase hx =>
    subst hphase
    injection hp with hp
    obtain ⟨⟨u, hu⟩, hanswered, hemitted⟩ := howes
    have hx := Exchange.acted hx
    obtain ⟨e, rfl, he⟩ | ⟨⟨w, hw⟩, hr⟩ := hx.verdict hends hanswered
    · exact .inl ⟨e, hp, he⟩
    · refine .inr ⟨x, u, rfl, hu, rfl, ?_, ?_⟩
      · -- The request had been written whole, so nothing can have been added to it.
        obtain ⟨d, hd, -, hleft⟩ := Exchange.emitted_act hemitted hx
        rw [Exchange.Emitted, hw] at hemitted
        have hprefix := hleft.isPrefix
        rw [Phase.ownPart, hd, List.drop_left, ← hu]
        exact hprefix.eq_of_length_le (by simp [hemitted])
      · rw [hu, (cmd.headed_request u).transaction] at hr
        obtain rfl | ⟨a, ha, rfl⟩ := hr
        · exact .inl hp
        · exact .inr ⟨a, ha, hp.trans (cmd.conclude_check a)⟩
  | queued | ready | passed | skipped | opened | negotiating | settled | prepared | exchanging =>
    cases hp

end Task

namespace Client

variable {c : Client} {n k : Nat} {cmd : Command} {ms : List Move}

/-- Nobody else's move adds to `Writing.own`. -/
theorem own_writings_of_ne {m : Move} (hm : m ≠ .task k) : Writing.own k (c.writings n m) = [] := by
  unfold writings
  split
  · next j =>
    split
    · next t hj =>
      split
      · unfold Task.writing?
        have hid : t.id ≠ k := by
          rw [id_of_task? hj]
          rintro rfl
          exact hm rfl
        split <;> simp [Writing.own, hid]
      · rfl
    · rfl
  · rfl

/-- What a task with a command writes, as far as it belongs to its own request (`Phase.ownPart`). -/
theorem own_writing {t : Task} (hid : t.id = k) (hjob : t.job = .command cmd) (d : List UInt8) :
    Writing.text (Writing.own k (t.writing? d).toList) = t.phase.ownPart d := by
  unfold Task.writing?
  rw [hjob]
  cases t.phase <;> simp [Writing.own, Writing.text, Phase.ownPart, hid]

/-- Without octets a task writes nothing of its own, by `Writing.own`. -/
theorem own_writing_nil (t : Task) : Writing.text (Writing.own k (t.writing? []).toList) = [] := by
  rw [Writing.text, List.flatMap_eq_nil_iff]
  intro w hw
  have hw := (List.mem_filter.mp hw).1
  unfold Task.writing? at hw
  split at hw
  · rw [List.mem_singleton.mp hw]
  · rw [List.mem_singleton.mp hw]
  · cases hw

/-- The result of a task with a `Command` has come of its own request: that has been written whole,
and there was no response in time, or the result is what `Command.read` makes of the response that it
has obtained. -/
def Decided (n k : Nat) (cmd : Command) (ms : List Move) (result : Except Error Reply) : Prop :=
  ∃ u, Writing.text (Writing.own k (trace (writings n) {} ms)) = (cmd.request u).encode ∧
    (result = .error (.timeout u) ∨ ∃ before a after, ms = before ++ .task k :: after ∧
      (run {} before).happenings (.task k) = [.obtained n u a] ∧
      result = a.check >>= fun r => cmd.read r)

/-- A task with a `Command` on a session, by what it has written and what it has reported. -/
structure Answering (n k : Nat) (cmd : Command) (ms : List Move) : Prop where
  given : k < (run {} ms).nextTask
  task : ∀ t, (run {} ms).task? k = some t → t.session = n ∧ t.job = .command cmd ∧
    t.phase.Owes ((run {} ms).IsEnding n) cmd
      (Writing.text (Writing.own k (trace (writings n) {} ms)))
  result : ∀ r, (k, r) ∈ (run {} ms).finished →
    (∃ e, r = .error e ∧ e.isRecoverable = false) ∨ Decided n k cmd ms r

/-- What is `Decided` stays so while the task writes nothing more of its own. -/
theorem Decided.concat {r : Except Error Reply} {m : Move} (h : Decided n k cmd ms r)
    (hnone : Writing.text (Writing.own k ((run {} ms).writings n m)) = []) :
    Decided n k cmd (ms ++ [m]) r := by
  obtain ⟨u, hwritten, hresult⟩ := h
  refine ⟨u, ?_, hresult.imp_right ?_⟩
  · rw [trace_concat, Writing.own_append, Writing.text_append, hnone, List.append_nil, hwritten]
  · rintro ⟨before, a, after, rfl, hobtained, hr⟩
    exact ⟨before, a, after ++ [m], by simp, hobtained, hr⟩

/-- `Answering` is kept by the moves of others. -/
theorem Answering.concat_of_ne {m : Move} (h : Answering n k cmd ms) (hm : m ≠ .task k) :
    Answering n k cmd (ms ++ [m]) := by
  have hleads := leads (run {} ms) m
  have hnone : Writing.text (Writing.own k ((run {} ms).writings n m)) = [] := by
    rw [own_writings_of_ne hm, Writing.text_nil]
  rw [← run_concat] at hleads
  refine ⟨Nat.lt_of_lt_of_le h.given hleads.outcome.nextTask_le, fun t ht => ?_, fun r hr => ?_⟩
  · obtain ht | ⟨_, _, _, _, hm', -⟩ := hleads.task_cases h.given ht
    · obtain ⟨hn, hjob, howes⟩ := h.task t ht
      refine ⟨hn, hjob, ?_⟩
      rw [trace_concat, Writing.own_append, Writing.text_append, hnone, List.append_nil]
      exact howes.mono hleads.outcome.isEnding
    · exact absurd hm' hm
  · obtain hr | ⟨_, _, _, hm', -⟩ := hleads.finished_cases hr
    · exact (h.result r hr).imp_right fun hr => hr.concat hnone
    · exact absurd hm' hm

/-- `Answering` is kept by a move of the task itself. -/
theorem Answering.concat_task (h : Answering n k cmd ms) (hsync : cmd.isAsync = false) :
    Answering n k cmd (ms ++ [.task k]) := by
  have hsealed := sealed_run ms
  obtain ⟨-, hsame⟩ | ⟨t, s, p, g, hk, hs, hact, hhappens, -, htask, hsession, hnext⟩ :=
    (run {} ms).step_task k
  · have hnone : Writing.text (Writing.own k ((run {} ms).writings n (.task k))) = [] := by
      rw [writings, hsame, List.drop_length]
      split
      · next t _ =>
        split
        · exact own_writing_nil t
        · rfl
      · rfl
    rw [← run_concat] at hsame
    refine ⟨hsame ▸ h.given, fun t ht => ?_, fun r hr => ?_⟩
    · obtain ⟨hn, hjob, howes⟩ := h.task t (hsame ▸ ht)
      refine ⟨hn, hjob, ?_⟩
      rw [hsame, trace_concat, Writing.own_append, Writing.text_append, hnone, List.append_nil]
      exact howes
    · exact (h.result r (hsame ▸ hr)).imp_right fun hr => hr.concat hnone
  · obtain ⟨rfl, hjob, howes⟩ := h.task t hk
    have hid := id_of_task? hk
    have hs' : (run {} (ms ++ [.task k])).session? t.session = some g.session := by
      rw [run_concat, hsession, if_pos rfl]
    have hending : (run {} ms).IsEnding t.session → s.lifecycle.isConnected = false := by
      rintro ⟨s₁, hs₁, hending⟩
      cases hs.symm.trans hs₁
      exact hending
    have hwritten : Writing.text (Writing.own k (trace (writings t.session) {} (ms ++ [.task k]))) =
        Writing.text (Writing.own k (trace (writings t.session) {} ms)) ++
          t.phase.ownPart (g.session.outlet.written.drop s.outlet.written.length) := by
      rw [trace_concat, Writing.own_append, Writing.text_append, writings, hk, ← run_concat]
      simp only [if_true]
      rw [written_of_session? hs, written_of_session? hs', own_writing hid hjob]
    have hcommand := hact
    rw [Task.act, hjob] at hcommand
    have hcommand := Task.actedCommand hcommand
    have howes := howes.mono hending
    refine ⟨by rw [run_concat, hnext]; exact h.given, fun t' ht' => ?_, fun r hr => ?_⟩
    · rw [run_concat, htask, if_pos rfl] at ht'
      cases p with
      | ongoing phase =>
        cases ht'
        refine ⟨rfl, hjob, ?_⟩
        rw [hwritten]
        exact (Task.owes_act hcommand hsync howes).mono fun h => ⟨g.session, hs', h⟩
      | finished _ => cases ht'
    · rw [run_concat, finished_task hk hs hact, List.mem_append] at hr
      obtain hr | hr := hr
      · -- A task that acts has not reported yet.
        cases hk.symm.trans (hsealed.ordered.reported _ hr).2
      · cases p with
        | ongoing phase => cases hr
        | finished result =>
          cases List.mem_singleton.mp hr
          refine (Task.verdict_act hcommand howes (hsealed.upheld.task hk hs)).imp_right ?_
          rintro ⟨x, u, hphase, hu, htransaction, hwhole, hresult⟩
          refine ⟨u, hwritten.trans hwhole, hresult.imp_right ?_⟩
          rintro ⟨a, hobtained, hr⟩
          refine ⟨ms, a, [], rfl, ?_, hr⟩
          rw [hhappens, Task.happenings, hact, Task.obtained?, hphase]
          simp [htransaction, Phase.exchange?, hobtained, hu, (cmd.headed_request u).transaction]

/-- A task that is not started yet has written nothing, so `Writing.own` is empty. -/
theorem own_trace_of_le (h : (run {} ms).nextTask ≤ k) :
    Writing.own k (trace (writings n) {} ms) = [] := by
  induction ms using List.reverseRecOn with
  | nil => rfl
  | append_singleton ms m ih =>
    have hle := (leads (run {} ms) m).outcome.nextTask_le
    rw [run_concat] at h
    rw [trace_concat, Writing.own_append, ih (Nat.le_trans hle h), List.nil_append]
    by_cases hm : m = .task k
    · subst hm
      have hnone : (run {} ms).task? k = none := by
        rw [Option.eq_none_iff_forall_ne_some]
        intro t ht
        have hlt := (sealed_run ms).ordered.distinct.lt_nextTask ht
        omega
      rw [writings, hnone]
      rfl
    · exact own_writings_of_ne hm

/-- `Answering` holds of a task with a command that is answered, whatever comes before and after its
start. -/
theorem answering_run (n : Nat) (hsync : cmd.isAsync = false) (before after : List Move) :
    Answering n (run {} before).nextTask cmd (before ++ .start n (.command cmd) :: after) := by
  induction after using List.reverseRecOn with
  | nil =>
    have hordered := (sealed_run before).ordered
    have hnone : Writing.own (run {} before).nextTask
        (trace (writings n) {} (before ++ [.start n (.command cmd)])) = [] := by
      rw [trace_concat, Writing.own_append, own_trace_of_le (Nat.le_refl _)]
      rfl
    refine ⟨?_, fun t ht => ?_, fun r hr => ?_⟩
    · rw [run_concat]
      exact Nat.lt_succ_self _
    · rw [run_concat, step, task?_start hordered.distinct.task?_nextTask] at ht
      cases ht
      exact ⟨rfl, rfl, by rw [hnone]; rfl⟩
    · rw [run_concat] at hr
      exact absurd (hordered.reported _ hr).1 (Nat.lt_irrefl _)
  | append_singleton after m ih =>
    rw [← List.cons_append, ← List.append_assoc]
    by_cases hm : m = .task (run {} before).nextTask
    · rw [hm]
      exact ih.concat_task hsync
    · exact ih.concat_of_ne hm

end Client

/-! ## Nothing holds a task up -/

/-- The `Outlet` takes whatever is written, and nobody is in line for it. -/
structure Outlet.Ready (o : Outlet) : Prop where
  fault : o.fault = none
  room : o.room = none
  line : o.turn.line = []

/-- `Outlet.write` without fault and limit takes all octets at once. -/
theorem Outlet.write_of_ready {o : Outlet} (hfault : o.fault = none) (hroom : o.room = none)
    (bytes : List UInt8) : o.write bytes = some (.all, { o with written := o.written ++ bytes }) := by
  simp [write, hfault, hroom]

namespace Exchange

variable {k now : Nat} {x : Exchange} {s : Session}

/-- The action of an exchange that is answered in `enter`, while the session is connected. -/
theorem act_of_enter (hphase : x.phase = .enter) (hanswered : x.answered = true)
    (hconnected : s.lifecycle.isConnected = true) :
    x.act k now s = some (.ongoing { x with phase := .expect }, s) := by
  rw [act, hphase]
  simp only [goOn, hconnected, hanswered, if_true]

/-- The action in `expect` makes the slot, while slots are open. -/
theorem act_of_expect (hphase : x.phase = .expect) (hopen : s.slots.closed = false) :
    x.act k now s = some (.ongoing { x with phase := .announce },
      { s with slots := s.slots.register x.request.transaction }) := by
  rw [act, hphase]
  simp only [Slots.expect, hopen]
  rfl

/-- The action in `announce` shows the request to the loggers and joins the line for the outlet. -/
theorem act_of_announce (hphase : x.phase = .announce) :
    x.act k now s = some (.ongoing { x with phase := .line },
      { s.logSent x.request with outlet.turn := s.outlet.turn.join k }) := by
  rw [act, hphase]
  rfl

/-- The action in `line`, with the turn and a live outlet: it begins to write. -/
theorem act_of_line (hphase : x.phase = .line) (hheld : s.outlet.turn.isHeldBy k = true)
    (hlive : s.outlet.live = true) :
    x.act k now s = some (.ongoing { x with phase := .write x.request.encode }, s) := by
  rw [act, hphase]
  simp only [hheld, hlive, if_true]
  rfl

/-- The action in `write`, with an outlet that takes all octets: it has written, and awaits its
response. -/
theorem act_of_write {left : List UInt8} (hphase : x.phase = .write left)
    (hanswered : x.answered = true) (hfault : s.outlet.fault = none) (hroom : s.outlet.room = none) :
    x.act k now s = some
      (.ongoing { x with phase := .await ⟨x.request.transaction, x.limit.map (now + ·), .listen⟩ },
        { s with outlet := { s.outlet with
          written := s.outlet.written ++ left, turn := s.outlet.turn.leave k } }) := by
  rw [act, hphase]
  simp only [actWrite, goOn, Outlet.write_of_ready hfault hroom, hanswered, if_true]

end Exchange

namespace Client

variable {c : Client} {k : Nat} {t : Task} {s s' : Session} {x x' : Exchange} {cmd : Command}

/-- A `Task` and the session it is on. -/
structure At (k : Nat) (t : Task) (s : Session) (c : Client) : Prop where
  task : c.task? k = some t
  session : c.session? t.session = some s

/-- A task that goes on with an action is `At` its next phase. -/
theorem At.step {phase : Phase} {g : Ground} (h : c.At k t s)
    (hact : t.act c.now ⟨c.nextTransaction, s⟩ = some (.ongoing phase, g)) :
    (c.step (.task k)).At k { t with phase } g.session ∧
      (c.step (.task k)).nextTransaction = g.transaction := by
  have hid : g.session.id = t.session :=
    (Task.acted hact).akin.id_eq.trans (id_of_session? h.session)
  obtain rfl := id_of_task? h.task
  rw [Client.step, h.task, Option.bind_some, actTask, h.session]
  simp only [hact, Option.getD_some]
  refine ⟨⟨?_, ?_⟩, trivial⟩
  · exact (find?_map_task h.task t.id).trans (if_pos rfl)
  · have hsession := session?_putSession h.session g.session hid t.session
    rwa [if_pos rfl] at hsession

/-- `Client.step` of a task whose exchange goes on. -/
theorem At.exchange (h : c.At k { t with phase := .exchange x } s) (hjob : t.job = .command cmd)
    (hx : x.act t.id c.now s = some (.ongoing x', s')) :
    (c.step (.task k)).At k { t with phase := .exchange x' } s' := by
  have hact : ({ t with phase := .exchange x } : Task).act c.now ⟨c.nextTransaction, s⟩ =
      some (.ongoing (.exchange x'), ⟨c.nextTransaction, s'⟩) := by
    rw [Task.act]
    simp only [hjob, Task.actCommand, hx]
    rfl
  exact (h.step hact).1

/-- A task that comes to its own request writes it, while the session is connected and the outlet is
`Outlet.Ready`. -/
theorem At.writes (h : c.At k t s) (hjob : t.job = .command cmd) (hphase : t.phase = .prepare)
    (hsync : cmd.isAsync = false) (hsealed : s.Sealed) (hconnected : s.lifecycle.isConnected = true)
    (hready : s.outlet.Ready) : ∃ x w s', x.phase = .await w ∧ w.transaction = c.nextTransaction ∧
      s'.outlet.written = s.outlet.written ++ (cmd.request c.nextTransaction).encode ∧
      (c.run (List.replicate 6 (.task k))).At k { t with phase := .exchange x } s' := by
  have hopen : s.slots.closed = false := by
    cases hclosed : s.slots.closed with
    | false => rfl
    | true => cases hconnected.symm.trans (hsealed.slots hclosed)
  have hlive : s.outlet.live = true := by
    cases hlive : s.outlet.live with
    | true => rfl
    | false => cases hconnected.symm.trans (hsealed.outlet hlive)
  have hprepare : t.act c.now ⟨c.nextTransaction, s⟩ =
      some (.ongoing (.exchange (.new s.config cmd c.nextTransaction)), ⟨c.nextTransaction + 1, s⟩) := by
    rw [Task.act]
    simp only [hjob, hphase, Task.actCommand]
    rfl
  have hanswered : (Exchange.new s.config cmd c.nextTransaction).answered = true := by
    rw [Exchange.new, hsync]
    rfl
  have hheld : (s.outlet.turn.join t.id).isHeldBy t.id = true := by
    rw [Turn.isHeldBy_iff, Turn.join, hready.line]
    rfl
  have h₁ := (h.step hprepare).1
  have h₂ := h₁.exchange hjob (Exchange.act_of_enter rfl hanswered hconnected)
  have h₃ := h₂.exchange hjob (Exchange.act_of_expect rfl hopen)
  have h₄ := h₃.exchange hjob (Exchange.act_of_announce rfl)
  have h₅ := h₄.exchange hjob (Exchange.act_of_line rfl hheld hlive)
  have h₆ := h₅.exchange hjob (Exchange.act_of_write rfl hanswered hready.fault hready.room)
  exact ⟨_, _, _, rfl, (cmd.headed_request c.nextTransaction).transaction, rfl, h₆⟩

/-- A task in `negotiate` goes on to its own request when the negotiation is over, whatever it has
come to, and writes it. -/
theorem At.writes_after {ms : List Move} {outcome : Except Error (Option Response)}
    (h : (run {} ms).At k t s) (hjob : t.job = .command cmd) (hc : cmd.negotiates = true)
    (hphase : t.phase = .negotiate x) (hx : x.act k (run {} ms).now s = some (.finished outcome, s'))
    (hconnected : s'.lifecycle.isConnected = true) (hready : s'.outlet.Ready) :
    ∃ y w s'', y.phase = .await w ∧ w.transaction = (run {} ms).nextTransaction ∧
      s''.outlet.written =
        s'.outlet.written ++ (cmd.request (run {} ms).nextTransaction).encode ∧
      ((run {} ms).run (List.replicate 7 (.task k))).At k { t with phase := .exchange y } s'' := by
  have hact : t.act (run {} ms).now ⟨(run {} ms).nextTransaction, s⟩ =
      some (.ongoing .prepare, ⟨(run {} ms).nextTransaction, s'.negotiated k⟩) := by
    rw [← id_of_task? h.task] at hx ⊢
    rw [Task.act]
    simp only [hjob, hphase, Task.actCommand, hx]
    rfl
  obtain ⟨hat, htransaction⟩ := h.step hact
  have hsealed : (s'.negotiated k).Sealed := by
    have hupheld := (sealed_run (ms ++ [.task k])).upheld
    rw [run_concat] at hupheld
    exact hupheld.session hat.session
  have hwrites := hat.writes hjob rfl (Command.isAsync_of_negotiates hc) hsealed hconnected hready
  rwa [htransaction] at hwrites

/-- On every session, in every run: all that is written is a negotiation's or a command's own request;
of negotiations there is one at most, and it is not written after a request that it should be ahead
of; a command that needs the negotiation reports what comes of its own request, unless the session is
ending; and when its negotiation is over, with whatever outcome, the task goes on to write that
request. -/
theorem negotiated_once_and_first (n : Nat) (ms : List Move) :
    let ws := trace (writings n) {} ms
    (run {} ms).written n = Writing.text ws ∧
    (∃ u, (∀ w ∈ ws, w.ahead = true → w.request = Command.negotiation.request u) ∧
      Writing.text (Writing.negotiations ws) <+: (Command.negotiation.request u).encode) ∧
    ws.Pairwise Writing.InOrder ∧
    (∀ before cmd after, ms = before ++ .start n (.command cmd) :: after → cmd.negotiates = true →
      ∀ r, ((run {} before).nextTask, r) ∈ (run {} ms).finished →
        (∃ e, r = .error e ∧ e.isRecoverable = false ∧ (run {} ms).IsEnding n) ∨
          Decided n (run {} before).nextTask cmd ms r) ∧
    ∀ k t s cmd x outcome s', (run {} ms).At k t s → t.job = .command cmd → cmd.negotiates = true →
      t.phase = .negotiate x → x.act k (run {} ms).now s = some (.finished outcome, s') →
      s'.lifecycle.isConnected = true → s'.outlet.Ready →
      ∃ y w s'', y.phase = .await w ∧ w.transaction = (run {} ms).nextTransaction ∧
        s''.outlet.written =
          s'.outlet.written ++ (cmd.request (run {} ms).nextTransaction).encode ∧
        ((run {} ms).run (List.replicate 7 (.task k))).At k { t with phase := .exchange y } s'' := by
  have htold := told_run n ms
  obtain ⟨u, hrequest, hprefix, -⟩ := htold.once
  refine ⟨written_run n ms, ⟨u, hrequest, hprefix⟩, htold.order, ?_, ?_⟩
  · rintro before cmd after rfl hc r hr
    obtain ⟨e, rfl, he⟩ | hdecided :=
      (answering_run n (Command.isAsync_of_negotiates hc) before after).result r hr
    · exact .inl ⟨e, rfl, he, (pursued_run n cmd before after).severed e hr he⟩
    · exact .inr hdecided
  · intro k t s cmd x outcome s' hat hjob hc hphase hx hconnected hready
    exact hat.writes_after hjob hc hphase hx hconnected hready

end Client

/-- A run with a command that needs the negotiation, which is not answered before the
`responseTimeout`. -/
def ignored : List Client.Move :=
  [.attach {}] ++ .start 1 (.command .listSpawnpoints) :: overdue

/-- The run `ignored`, and then the command itself is not answered in time either. -/
def ignoredTwice : List Client.Move :=
  [.attach {}] ++ .start 1 (.command .listSpawnpoints) :: (overdue ++ overdue ++ [.task 1])

/-- Neither the negotiation nor the command is answered in time: the command is written all the same,
and what it reports is its own timeout. -/
theorem Client.negotiated_once_and_first_ignored :
    Decided 1 1 .listSpawnpoints ignoredTwice (.error (.timeout 2)) ∧
    ∃ y w s, y.phase = .await w ∧ w.transaction = 2 ∧
      s.outlet.written = (Command.negotiation.request 1).encode ++
        (Command.listSpawnpoints.request 2).encode ∧
      ((run {} ignored).run (List.replicate 7 (.task 1))).At 1
        ⟨1, 1, .command .listSpawnpoints, .exchange y⟩ s := by
  have hfirst : (run {} [.attach {}]).nextTask = 1 := rfl
  refine ⟨?_, ?_⟩
  · obtain ⟨-, -, -, hresult, -⟩ := negotiated_once_and_first 1 ignoredTwice
    have hlate : (1, .error (.timeout 2)) ∈ (run {} ignoredTwice).finished :=
      List.mem_singleton.mpr rfl
    have hdecided := hresult [.attach {}] .listSpawnpoints _ rfl rfl
    simp only [hfirst] at hdecided
    obtain ⟨e, he, hsevere, -⟩ | hdecided := hdecided _ hlate
    · cases he
      cases hsevere
    · exact hdecided
  · obtain ⟨-, -, -, -, hwrites⟩ := negotiated_once_and_first 1 ignored
    exact hwrites 1 _ _ .listSpawnpoints _ (.error (.timeout 1)) _ ⟨rfl, rfl⟩ rfl rfl rfl rfl rfl
      ⟨rfl, rfl, rfl⟩

end Dbgp
