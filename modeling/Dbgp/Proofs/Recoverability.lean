import Dbgp.Proofs.BridgeMoves
import Dbgp.Proofs.Closing

/-!
# Errors that can be got over

Some errors leave a session as it was: the engine reports one, a response cannot be read or does not
come in time. Others mean that the session is over, and callers of a bridge are told which is which.

The main statement says that they can rely on it. A command reports an error of the second kind only
when its session is ending, which is for good, and a task that reports one of the first kind has not
changed the stage of its session by any of its own actions. The two halves meet in `Phase.Lost`: a task
that has begun to end the session while it negotiated goes on to its own command, but no exchange is
entered any more, so that all it can report is that the session is over.
-/

namespace Dbgp

open Xml (Element)

/-! ## What can be wrong with a response -/

/-- What goes wrong, if anything does, can be got over: every error is `Error.isRecoverable`. -/
def Mild (x : Except Error α) : Prop :=
  ∀ e, x = .error e → e.isRecoverable = true

theorem mild_ok (a : α) : Mild (.ok a) := by
  rintro e ⟨⟩

/-- A `ProtocolFault` can be got over. -/
theorem mild_protocol (f : ProtocolFault) : Mild (.error (.protocol f) : Except Error α) := by
  rintro e ⟨⟩
  rfl

/-- What is put together from `Mild` readings is `Mild`. -/
theorem Mild.bind {x : Except Error α} {f : α → Except Error β} (hx : Mild x)
    (hf : ∀ a, Mild (f a)) : Mild (x >>= f) := by
  intro e he
  cases x with
  | error =>
    cases he
    exact hx e rfl
  | ok a => exact hf a e he

/-- What is made of a `Mild` reading is `Mild`. -/
theorem Mild.map {x : Except Error α} (hx : Mild x) (f : α → β) : Mild (f <$> x) := by
  intro e he
  cases x with
  | error =>
    cases he
    exact hx e rfl
  | ok a => cases he

/-- `readWord` fails mildly on a word that is not in the vocabulary. -/
theorem mild_readWord (α : Type) [Vocabulary α] (word : String) : Mild (readWord α word) := by
  rw [readWord]
  split
  · exact mild_ok _
  · exact mild_protocol _

namespace Xml.Element

/-- So does `Element.attr` on an attribute that is not there. -/
theorem mild_attr (e : Element) (name : String) : Mild (e.attr name) := by
  rw [attr]
  split
  · exact mild_ok _
  · exact mild_protocol _

/-- So does `Element.parsed?` on what cannot be read. -/
theorem mild_parsed? (e : Element) (name : String) (read? : List Char → Option α) :
    Mild (e.parsed? name read?) := by
  rw [parsed?]
  split
  · exact mild_ok _
  · split
    · exact mild_ok _
    · exact mild_protocol _

/-- So does `Element.word?`. -/
theorem mild_word? (α : Type) [Vocabulary α] (e : Element) (name : String) :
    Mild (e.word? α name) := by
  rw [word?]
  split
  · exact mild_ok _
  · exact (mild_readWord α _).map _

/-- So does `Element.content` on an encoding that cannot be undone. -/
theorem mild_content (e : Element) : Mild e.content := by
  rw [content]
  split
  · exact mild_ok _
  · split
    · split
      · exact mild_ok _
      · exact mild_protocol _
    · split
      · exact mild_ok _
      · exact mild_protocol _

end Xml.Element

/-- `StatusInfo.ofResponse` fails with no error that ends a session. -/
theorem StatusInfo.mild_ofResponse (r : Response) : Mild (ofResponse r) := by
  rw [ofResponse]
  split
  · exact mild_protocol _
  · refine (mild_readWord EngineStatus _).bind fun status => ?_
    refine (Element.mild_word? StatusReason r.root "reason").bind fun reason => ?_
    exact mild_ok _

namespace Property

/-- `decodedText` fails with no error that ends a session. -/
theorem mild_decodedText (e : Element) : Mild (decodedText e) :=
  e.mild_content.map _

/-- `readName` fails with no error that ends a session. -/
theorem mild_readName (e : Element) : Mild (readName e) := by
  rw [readName]
  split
  · exact mild_decodedText _
  · exact mild_ok _

/-- `readFullname` fails with no error that ends a session. -/
theorem mild_readFullname (e : Element) : Mild (readFullname e) := by
  rw [readFullname]
  split
  · exact (mild_decodedText _).map _
  · exact mild_ok _

/-- `readValue` fails with no error that ends a session. -/
theorem mild_readValue (e : Element) : Mild (readValue e) := by
  rw [readValue]
  split
  · exact (mild_decodedText _).map _
  · split
    · exact mild_ok _
    · exact (mild_decodedText _).map _

mutual

/-- `Property.ofElement` fails with no error that ends a session, at any depth. -/
theorem mild_ofElement : (e : Element) → Mild (ofElement e)
  | ⟨tag, attributes, elements, text⟩ => by
    rw [ofElement]
    refine (mild_readName _).bind fun name => (mild_readFullname _).bind fun fullname => ?_
    refine (mild_ofElements elements).bind fun children => (mild_readValue _).bind fun value => ?_
    refine (Element.mild_parsed? _ _ _).bind fun numChildren => ?_
    refine (Element.mild_parsed? _ _ _).bind fun page => ?_
    exact (Element.mild_parsed? _ _ _).bind fun pageSize => mild_ok _

/-- `Property.ofElements` fails with no error that ends a session; other elements are passed by. -/
theorem mild_ofElements : (es : List Element) → Mild (ofElements es)
  | [] => by
    rw [ofElements]
    exact mild_ok _
  | ⟨tag, attributes, elements, text⟩ :: rest => by
    rw [ofElements]
    split
    · refine (mild_ofElement ⟨tag, attributes, elements, text⟩).bind fun p => ?_
      exact (mild_ofElements rest).bind fun ps => mild_ok _
    · exact mild_ofElements rest

end

/-- `Property.ofResponse` fails with no error that ends a session. -/
theorem mild_ofResponse (r : Response) : Mild (ofResponse r) := by
  rw [ofResponse]
  split
  · exact mild_ofElement _
  · exact mild_protocol _

end Property

namespace Command

/-- A response that `Command.read` cannot read does not end the session. -/
theorem mild_read (r : Response) (c : Command) : Mild (c.read r) := by
  cases c with
  | status | proceed _ => exact (StatusInfo.mild_ofResponse r).map _
  | setBreakpoint _ | setSpawnpoint _ _ _ =>
    exact (Element.mild_attr r.root "id").bind fun id => mild_ok _
  | stackDepth =>
    refine (Element.mild_parsed? r.root "depth" _).bind fun depth => ?_
    split
    · exact mild_ok _
    · exact mild_protocol _
  | getProperty _ _ _ | evaluate _ => exact (Property.mild_ofResponse r).map _
  | propertyValue _ _ _ | source _ _ _ => exact (Property.mild_decodedText r.root).map _
  | _ => exact mild_ok _

end Command

/-! ## Single actions -/

namespace Exchange

variable {task now : Nat} {x : Exchange} {s s' : Session} {p : Progress Exchange (Option Response)}

/-- An `Exchange` changes the stage only after a fault, and then it goes on in `failed` to end the
session. -/
theorem Action.transition (h : x.Action task now s p s') : s'.lifecycle = s.lifecycle ∨
    s'.lifecycle.isConnected = false ∧ ∃ x' e r, p = .ongoing x' ∧ x'.phase = .failed e r := by
  cases h with
  | dead | refused | timedOut | obtained => exact .inl (x.release_keeps _).2
  | ending _ hr =>
    cases EndRequest.acted hr with
    | begun => exact .inr ⟨s.lifecycle.isConnected_begin, _, _, _, rfl, rfl⟩
    | stopped | joined => exact .inl rfl
  | ended _ hr =>
    cases EndRequest.acted hr with
    | shut => exact .inl (x.release_keeps _).2
  | entered | turnedAway | expected | unexpected | announced | begun | wrote | broke | sent | dropped
  | waited => exact .inl rfl

/-- An exchange in `failed` has nothing to do but to end the session. -/
theorem Action.of_failed {e : Error} {r : EndRequest} (h : x.Action task now s p s')
    (hphase : x.phase = .failed e r) :
    (∃ x' r', p = .ongoing x' ∧ x'.phase = .failed e r') ∨ p = .finished (.error e) := by
  cases h with
  | ending hfailed =>
    cases hphase.symm.trans hfailed
    exact .inl ⟨_, _, rfl, rfl⟩
  | ended hfailed =>
    cases hphase.symm.trans hfailed
    exact .inr rfl
  | entered h | turnedAway h | expected h | unexpected h | announced h | begun h | dead h | wrote h
  | broke h | sent h | dropped h | waited h | refused h | timedOut h | obtained h =>
    cases hphase.symm.trans h

/-- An exchange does not come past `enter` once the session is ending. -/
theorem Action.of_enter (h : x.Action task now s p s') (hphase : x.phase = .enter)
    (hending : s.lifecycle.isConnected = false) : p = .finished (.error .terminated) ∧ s' = s := by
  cases h with
  | turnedAway => exact ⟨rfl, rfl⟩
  | entered _ hconnected => cases hending.symm.trans hconnected
  | expected h | unexpected h | announced h | begun h | dead h | wrote h | broke h | sent h | dropped h
  | waited h | refused h | timedOut h | obtained h | ending h | ended h =>
    cases hphase.symm.trans h

end Exchange

/-- What a task with a command can be at after it has begun to end the session. None of this leads to
an error that `isRecoverable`, as no exchange comes past `enter` any more. -/
def Phase.Lost : Phase → Prop
  | .negotiate x => ∃ e r, x.phase = .failed e r
  | .prepare => True
  | .exchange x => x.phase = .enter ∨ ∃ e r, x.phase = .failed e r
  | _ => False

namespace Task.CommandAction

variable {task now : Nat} {c : Command} {phase : Phase} {g g' : Ground} {p : Progress Phase Reply}

/-- A task that changes the stage is `Phase.Lost`. -/
theorem transition (h : CommandAction task now c phase g p g') :
    g'.session.lifecycle = g.session.lifecycle ∨ g'.session.lifecycle.isConnected = false ∧
      ∃ phase', p = .ongoing phase' ∧ phase'.Lost := by
  cases h with
  | negotiating hphase hx =>
    obtain h | ⟨hending, x', e, r, hp, hfailed⟩ := (Exchange.acted hx).transition
    · exact .inl h
    · cases hp
      exact .inr ⟨hending, _, rfl, e, r, hfailed⟩
  | exchanging hphase hx =>
    obtain h | ⟨hending, x', e, r, hp, hfailed⟩ := (Exchange.acted hx).transition
    · exact .inl h
    · cases hp
      exact .inr ⟨hending, _, rfl, .inr ⟨e, r, hfailed⟩⟩
  | settled hphase hx | concluded hphase hx =>
    obtain h | ⟨-, x', e, r, hp, -⟩ := (Exchange.acted hx).transition
    · exact .inl h
    · cases hp
  | queued | ready | passed | skipped | opened | prepared => exact .inl rfl

/-- A task that is `Phase.Lost` stays so, until it reports an error that cannot be got over. -/
theorem lost (h : CommandAction task now c phase g p g') (hlost : phase.Lost)
    (hending : g.session.lifecycle.isConnected = false)
    (hends : phase.Ends (g.session.lifecycle.isConnected = false)) :
    (∃ phase', p = .ongoing phase' ∧ phase'.Lost) ∨
      ∃ e, p = .finished (.error e) ∧ e.isRecoverable = false := by
  cases h with
  | queued hphase | ready hphase | passed hphase | skipped hphase | opened hphase =>
    subst hphase
    exact hlost.elim
  | negotiating hphase hx =>
    subst hphase
    obtain ⟨e, r, hfailed⟩ := hlost
    obtain ⟨x', r', hp, hfailed'⟩ | hp := (Exchange.acted hx).of_failed hfailed
    · cases hp
      exact .inl ⟨_, rfl, e, r', hfailed'⟩
    · cases hp
  | settled => exact .inl ⟨.prepare, rfl, trivial⟩
  | prepared => exact .inl ⟨_, rfl, .inl rfl⟩
  | exchanging hphase hx =>
    subst hphase
    obtain henter | ⟨e, r, hfailed⟩ := hlost
    · cases ((Exchange.acted hx).of_enter henter hending).1
    · obtain ⟨x', r', hp, hfailed'⟩ | hp := (Exchange.acted hx).of_failed hfailed
      · cases hp
        exact .inl ⟨_, rfl, .inr ⟨e, r', hfailed'⟩⟩
      · cases hp
  | concluded hphase hx =>
    subst hphase
    obtain henter | ⟨e, r, hfailed⟩ := hlost
    · cases ((Exchange.acted hx).of_enter henter hending).1
      exact .inr ⟨.terminated, rfl, rfl⟩
    · obtain ⟨x', r', hp, -⟩ | hp := (Exchange.acted hx).of_failed hfailed
      · cases hp
      · cases hp
        exact .inr ⟨e, rfl, (hends e r hfailed).1⟩

/-- A command that reports an error that is not `isRecoverable` leaves a session that is ending. -/
theorem severed {e : Error} (h : CommandAction task now c phase g (.finished (.error e)) g')
    (hs : g.session.Sealed) (hends : phase.Ends (g.session.lifecycle.isConnected = false))
    (he : e.isRecoverable = false) : g'.session.lifecycle.isConnected = false := by
  generalize hp : Progress.finished (Except.error e) = p at h
  cases h with
  | @concluded x r s hphase hx =>
    subst hphase
    have hr : c.conclude r = .error e := by
      injection hp with hp
      exact hp.symm
    cases r with
    | error e' =>
      cases hr
      exact (Exchange.acted hx).severed hs hends he
    | ok response =>
      cases response with
      | none => cases hr
      | some response =>
        rw [c.mild_read response e hr] at he
        cases he
  | queued | ready | passed | skipped | opened | negotiating | settled | prepared | exchanging =>
    cases hp

end Task.CommandAction

/-- The job `terminate` ends without an error. -/
theorem Task.ok_of_terminate {now : Nat} {t : Task} {g g' : Ground} {result : Except Error Reply}
    (hjob : t.job = .terminate) (h : t.act now g = some (.finished result, g')) :
    result = .ok .done := by
  generalize hp : Progress.finished result = p at h
  cases acted h with
  | ended =>
    cases hp
    rfl
  | command hjob' | expected hjob' | unexpected hjob' | forgot hjob' | answered hjob' | sawEnd hjob'
  | awaiting hjob' | waited hjob' => cases hjob.symm.trans hjob'
  | mailed hjob' =>
    obtain ⟨limit, hjob' | hjob'⟩ := hjob' <;> cases hjob.symm.trans hjob'
  | terminating | ending => cases hp

/-! ## Runs -/

namespace Client

/-- The `Stage` of a session, if there is one. -/
def stage? (n : Nat) (c : Client) : Option Stage :=
  (c.session? n).map fun s => s.lifecycle.stage

/-- A task was started with a job on a session, and has reported no error that is not `isRecoverable`
unless the session is ending. -/
structure Pursued (n k : Nat) (job : Job) (c : Client) : Prop where
  given : k < c.nextTask
  task : ∀ t, c.task? k = some t → t.session = n ∧ t.job = job
  severed : ∀ e, (k, .error e) ∈ c.finished → e.isRecoverable = false → c.IsEnding n

/-- The session is ending, and a task on it is at a phase that is `Lost` as long as it is there and
has reported nothing but an error that is not `isRecoverable`. -/
structure Doomed (n k : Nat) (c : Client) : Prop where
  ending : c.IsEnding n
  lost : ∀ t, c.task? k = some t → t.phase.Lost
  verdict : ∀ r, (k, r) ∈ c.finished → ∃ e, r = .error e ∧ e.isRecoverable = false

variable {c c' : Client} {m : Move} {n k : Nat} {job : Job} {cmd : Command}

/-- A task that `start` begins is found at its first phase. -/
theorem task?_start (hfresh : c.task? c.nextTask = none) :
    (c.start n job).2.task? c.nextTask = some ⟨c.nextTask, n, job, .start⟩ := by
  rw [task?, start, List.find?_append, ← task?, hfresh, Option.none_or]
  exact List.find?_cons_of_pos (decide_eq_true rfl)

/-- A task that is started is `Pursued`. -/
theorem pursued_start (hc : c.Ordered) (n : Nat) (job : Job) :
    (c.start n job).2.Pursued n c.nextTask job := by
  refine ⟨Nat.lt_succ_self _, fun t ht => ?_, fun e he => ?_⟩
  · rw [task?_start hc.distinct.task?_nextTask] at ht
    cases ht
    exact ⟨rfl, rfl⟩
  · exact absurd (hc.reported _ he).1 (Nat.lt_irrefl _)

/-- A task that is still there after a move was there before, or is the one that `Leads` says acts. -/
theorem Leads.task_cases {t : Task} (h : Leads c m c') (hk : k < c.nextTask)
    (ht : c'.task? k = some t) : c.task? k = some t ∨
      ∃ t₀ s phase g, m = .task k ∧ c.task? k = some t₀ ∧ c.session? t₀.session = some s ∧
        t₀.act c.now ⟨c.nextTransaction, s⟩ = some (.ongoing phase, g) ∧ t = { t₀ with phase } := by
  cases h.outcome with
  | aside htask =>
    obtain hsame | ⟨-, session, job, -, hstarted⟩ := htask k
    · exact .inl (hsame ▸ ht)
    · rw [← id_of_task? hstarted] at hk
      exact absurd hk (Nat.lt_irrefl _)
  | received _ _ _ htask | forwarded _ _ htask => exact .inl (htask k ▸ ht)
  | abandoned _ _ htask =>
    rw [htask] at ht
    split at ht
    · cases ht
    · exact .inl ht
  | @acted j t₀ s p g hm hj hs hact htask =>
    rw [htask] at ht
    split at ht
    · next hkj =>
      subst hkj
      cases p with
      | ongoing phase =>
        cases ht
        exact .inr ⟨t₀, s, phase, g, hm, hj, hs, hact, rfl⟩
      | finished _ => cases ht
    · exact .inl ht

/-- A result in `finished` was there before the move, or is that of the task that acts. -/
theorem Leads.finished_cases {r : Except Error Reply} (h : Leads c m c')
    (hr : (k, r) ∈ c'.finished) : (k, r) ∈ c.finished ∨
      ∃ t s g, m = .task k ∧ c.task? k = some t ∧ c.session? t.session = some s ∧
        t.act c.now ⟨c.nextTransaction, s⟩ = some (.finished r, g) ∧
        c'.session? t.session = some g.session := by
  cases h.outcome with
  | aside _ _ hfinished | received _ _ _ _ _ hfinished | forwarded _ _ _ _ hfinished
  | abandoned _ _ _ _ hfinished => exact .inl (hfinished.subset hr)
  | @acted j t s p g hm hj hs hact _ hsession hfinished =>
    rw [hfinished, List.mem_append] at hr
    obtain hr | hr := hr
    · exact .inl hr
    · cases p with
      | ongoing phase => cases hr
      | finished result =>
        cases List.mem_singleton.mp hr
        exact .inr ⟨t, s, g, hm, hj, hs, hact, by rw [hsession, if_pos rfl]⟩

/-- One step leaves a task `Pursued`: what it reports is no error that cannot be got over, or the
session is ending. -/
theorem Pursued.leads (h : c.Pursued n k job) (hjob : job.IsCalled) (hc : c.Sealed)
    (hleads : Leads c m c') : c'.Pursued n k job := by
  refine ⟨Nat.lt_of_lt_of_le h.given hleads.outcome.nextTask_le, fun t ht => ?_,
    fun e he hsevere => ?_⟩
  · obtain ht | ⟨t₀, s, phase, g, -, ht₀, -, -, rfl⟩ := hleads.task_cases h.given ht
    · exact h.task t ht
    · exact h.task t₀ ht₀
  · obtain he | ⟨t, s, g, -, ht, hs, hact, hs'⟩ := hleads.finished_cases he
    · exact hleads.outcome.isEnding (h.severed e he hsevere)
    · obtain ⟨rfl, rfl⟩ := h.task t ht
      refine ⟨g.session, hs', ?_⟩
      cases hj : t.job with
      | command cmd =>
        rw [Task.act, hj] at hact
        exact (Task.actedCommand hact).severed (hc.upheld.session hs) (hc.upheld.task ht hs) hsevere
      | terminate => cases Task.ok_of_terminate hj hact
      | nextNotify _ | nextOutput _ | expectResponse _ | forgetResponse _ | awaitResponse _ _
      | awaitEnd =>
        rw [hj] at hjob
        exact hjob.elim

/-- One step leaves a task `Doomed`. -/
theorem Doomed.leads (h : c.Doomed n k) (hc : c.Sealed) (hpursued : c.Pursued n k (.command cmd))
    (hleads : Leads c m c') : c'.Doomed n k := by
  -- What the task itself does next, should it be the one that acts.
  have hnext : ∀ {t s p g}, c.task? k = some t → c.session? t.session = some s →
      t.act c.now ⟨c.nextTransaction, s⟩ = some (p, g) →
      (∃ phase, p = .ongoing phase ∧ phase.Lost) ∨
        ∃ e, p = .finished (.error e) ∧ e.isRecoverable = false := by
    intro t s p g ht hs hact
    obtain ⟨rfl, hjob⟩ := hpursued.task t ht
    obtain ⟨s₁, hs₁, hending⟩ := h.ending
    cases hs.symm.trans hs₁
    rw [Task.act, hjob] at hact
    exact (Task.actedCommand hact).lost (h.lost t ht) hending (hc.upheld.task ht hs)
  refine ⟨hleads.outcome.isEnding h.ending, fun t ht => ?_, fun r hr => ?_⟩
  · obtain ht | ⟨t₀, s, phase, g, -, ht₀, hs, hact, rfl⟩ := hleads.task_cases hpursued.given ht
    · exact h.lost t ht
    · obtain ⟨phase', hp, hlost⟩ | ⟨e, hp, -⟩ := hnext ht₀ hs hact
      · cases hp
        exact hlost
      · cases hp
  · obtain hr | ⟨t, s, g, -, ht, hs, hact, -⟩ := hleads.finished_cases hr
    · exact h.verdict r hr
    · obtain ⟨phase', hp, -⟩ | ⟨e, hp, he⟩ := hnext ht hs hact
      · cases hp
      · cases hp
        exact ⟨e, rfl, he⟩

/-- A task that changes the stage of its session is `Doomed` from then on. -/
theorem doomed_of_transition (hc : c.Ordered) (hpursued : c.Pursued n k (.command cmd))
    (hstage : (c.step (.task k)).stage? n ≠ c.stage? n) : (c.step (.task k)).Doomed n k := by
  obtain ⟨-, hsame⟩ | ⟨t, s, p, g, hk, hs, hact, -, -, htask, hsession, -⟩ := c.step_task k
  · rw [hsame] at hstage
    exact absurd rfl hstage
  · obtain ⟨rfl, hjob⟩ := hpursued.task t hk
    have hs' : (c.step (.task k)).session? t.session = some g.session := by
      rw [hsession, if_pos rfl]
    have hact' := hact
    rw [Task.act, hjob] at hact'
    obtain hlifecycle | ⟨hending, phase, rfl, hlost⟩ := (Task.actedCommand hact').transition
    · rw [stage?, stage?, hs, hs', Option.map_some, Option.map_some, hlifecycle] at hstage
      exact absurd rfl hstage
    · refine ⟨⟨g.session, hs', hending⟩, fun t' ht' => ?_, fun r hr => ?_⟩
      · rw [htask, if_pos rfl] at ht'
        cases ht'
        exact hlost
      · rw [finished_task hk hs hact, List.mem_append] at hr
        obtain hr | hr := hr
        · have hnone := (hc.reported _ hr).2
          rw [hk] at hnone
          cases hnone
        · cases hr

end Client

/-! ## Calls -/

/-- What a `Failure` says about the session it is about, under `recoverable`, if it is about one. -/
def Rpc.Failure.recoverable? (f : Rpc.Failure) : Option Bool :=
  match f.data.bind (Json.get? "recoverable") with
  | some (.bool flag) => some flag
  | _ => none

/-- `Rpc.Failure.ofError` says of an error whether it can be got over. -/
theorem Rpc.Failure.recoverable?_ofError (e : Error) :
    (ofError e).recoverable? = some e.isRecoverable := by
  cases e with
  | remote code text =>
    simp [ofError, recoverable?, Json.get?_object, Json.lookup, Error.isRecoverable]
  | transport _ | protocol _ | timeout _ | terminated => rfl

/-- A failure without `data` says nothing about a session. -/
theorem Rpc.Failure.recoverable?_of_data {f : Rpc.Failure} (h : f.data = none) :
    f.recoverable? = none := by
  rw [recoverable?, h]
  rfl

namespace Bridge

/-- The call with a serial number took a `Job` on a session. -/
def Asked (address : String) (ms : List Move) (serial n : Nat) (job : Job) : Prop :=
  ∃ before c after action shown, ms = before ++ .call c :: after ∧
    serial = (run { address } before).nextSerial ∧ Action.ofCall c.method c.params = .ok action ∧
    (run { address } before).begin action = .started n job shown

/-- `Asked` stays true after one more move. -/
theorem Asked.concat {address : String} {ms : List Move} {serial n : Nat} {job : Job}
    (h : Asked address ms serial n job) (m : Move) : Asked address (ms ++ [m]) serial n job := by
  obtain ⟨before, c, after, action, shown, rfl, hserial, hcall, hbegin⟩ := h
  exact ⟨before, c, after ++ [m], action, shown, by simp, hserial, hcall, hbegin⟩

/-- An action of a forwarder adds no `answer` to the outbox. -/
theorem Forwarder.Action.mem_outbox {f : Forwarder} {g g' : ForwardGround} {step : ForwardStep}
    {serial : Nat} {a : Rpc.Answer} (h : f.Action g step g') (ha : .answer serial a ∈ g'.outbox) :
    .answer serial a ∈ g.outbox := by
  cases h with
  | notified | printed | announced =>
    obtain ha | ha := List.mem_append.mp ha
    · exact ha
    · cases List.mem_singleton.mp ha
  | passed | slept | closed | woken | drainedNotifies | drainedOutputs | forgot => exact ha

/-- Every call that is `pending` has its task, and an answer that says that the session cannot be used
any more is the answer to a call on a session that is ending. -/
structure Candid (address : String) (ms : List Move) (b : Bridge) : Prop where
  pending : ∀ p ∈ b.pending, ∃ n job, Asked address ms p.serial n job ∧ job.IsCalled ∧
    b.client.Pursued n p.task job
  answered : ∀ serial a f, .answer serial a ∈ b.outbox → a.outcome = .error f →
    f.recoverable? = some false → ∃ n job, Asked address ms serial n job ∧ b.client.IsEnding n

section Candid

variable {address : String} {ms : List Move} {b b' : Bridge} {m : Move} {m' : Client.Move}

/-- What was so of calls and answers stays so, and it is enough to see to what is new in `pending` and
in the `outbox`. -/
theorem Candid.extend (h : b.Candid address ms) (hsealed : b.client.Sealed)
    (hleads : Client.Leads b.client m' b'.client)
    (hpending : ∀ p ∈ b'.pending, p ∈ b.pending ∨ ∃ n job, Asked address (ms ++ [m]) p.serial n job ∧
      job.IsCalled ∧ b'.client.Pursued n p.task job)
    (hanswered : ∀ serial a f, .answer serial a ∈ b'.outbox → a.outcome = .error f →
      f.recoverable? = some false → .answer serial a ∈ b.outbox ∨
        ∃ n job, Asked address (ms ++ [m]) serial n job ∧ b'.client.IsEnding n) :
    b'.Candid address (ms ++ [m]) := by
  refine ⟨fun p hp => ?_, fun serial a f ha hf hflag => ?_⟩
  · obtain hp | hnew := hpending p hp
    · obtain ⟨n, job, hasked, hcalled, hpursued⟩ := h.pending p hp
      exact ⟨n, job, hasked.concat m, hcalled, hpursued.leads hcalled hsealed hleads⟩
    · exact hnew
  · obtain ha | hnew := hanswered serial a f ha hf hflag
    · obtain ⟨n, job, hasked, hending⟩ := h.answered serial a f ha hf hflag
      exact ⟨n, job, hasked.concat m, hleads.outcome.isEnding hending⟩
    · exact hnew

/-- `Candid` is kept where no answer is new: notices are no answers. -/
theorem Candid.quiet (h : b.Candid address ms) (hsealed : b.client.Sealed)
    (hleads : Client.Leads b.client m' b'.client) (hpending : b'.pending = b.pending)
    (houtbox : ∀ serial a, .answer serial a ∈ b'.outbox → .answer serial a ∈ b.outbox) :
    b'.Candid address (ms ++ [m]) :=
  h.extend hsealed hleads (fun _ hp => .inl (hpending ▸ hp)) fun serial a _ ha _ _ =>
    .inl (houtbox serial a ha)

/-- A `notice` that is added is no answer. -/
theorem mem_of_mem_concat_notice {outbox : List Rpc.Message} {notice : Rpc.Notice} {serial : Nat}
    {a : Rpc.Answer} (ha : .answer serial a ∈ outbox ++ [.notice notice]) :
    .answer serial a ∈ outbox := by
  obtain ha | ha := List.mem_append.mp ha
  · exact ha
  · cases List.mem_singleton.mp ha

/-- A call keeps a bridge `Candid`. -/
theorem Candid.call (h : b.Candid address ms) (hb : b = run { address } ms)
    (hsealed : b.client.Sealed) (c : Rpc.Call) :
    (b.step (.call c)).Candid address (ms ++ [.call c]) := by
  obtain ⟨m', hleads, -⟩ := b.leads (.call c)
  obtain ⟨registry, outcome, hcall, -, hdata⟩ | ⟨action, n, job, shown, hof, hbegin, hcall⟩ :=
    b.called c
  · refine h.extend hsealed hleads (fun p hp => .inl ?_) fun serial a f ha hf hflag => .inl ?_
    · rwa [step, hcall] at hp
    · rw [step, hcall] at ha
      obtain ha | ha := List.mem_append.mp ha
      · exact ha
      · cases List.mem_singleton.mp ha
        rw [Rpc.Failure.recoverable?_of_data (hdata f hf)] at hflag
        cases hflag
  · refine h.extend hsealed hleads (fun p hp => ?_) fun serial a f ha _ _ => .inl ?_
    · have hp' := hp
      rw [step, hcall] at hp'
      obtain hp' | hp' := List.mem_append.mp hp'
      · exact .inl hp'
      · rw [List.mem_singleton.mp hp']
        refine .inr ⟨n, job, ⟨ms, c, [], action, shown, rfl, ?_, hof, ?_⟩, isCalled_of_begin hbegin, ?_⟩
        · rw [hb]
        · rw [← hb]
          exact hbegin
        · rw [step, hcall]
          exact Client.pursued_start hsealed.ordered n job
    · rwa [step, hcall] at ha

/-- Giving an answer keeps a bridge `Candid`. -/
theorem Candid.answer (h : b.Candid address ms) (hsealed : b.client.Sealed) :
    (b.step .answer).Candid address (ms ++ [.answer]) := by
  obtain ⟨m', hleads, -⟩ := b.leads .answer
  obtain hanswer | ⟨k, result, rest, hfinished, hanswer | ⟨p, hp, rfl, hanswer⟩⟩ := b.answered
  · exact h.quiet hsealed hleads (by rw [hanswer]) fun serial a ha => by rwa [hanswer] at ha
  · exact h.quiet hsealed hleads (by rw [hanswer]) fun serial a ha => by rwa [hanswer] at ha
  · refine h.extend hsealed hleads (fun p' hp' => .inl ?_) fun serial a f ha hf hflag => ?_
    · rw [hanswer] at hp'
      exact (List.mem_filter.mp hp').1
    · rw [hanswer] at ha
      obtain ha | ha := List.mem_append.mp ha
      · exact .inl ha
      · cases List.mem_singleton.mp ha
        -- The flag is that of the error the task has reported.
        cases result with
        | ok reply => cases hf
        | error e =>
          cases hf
          rw [Rpc.Failure.recoverable?_ofError, Option.some.injEq] at hflag
          obtain ⟨n, job, hasked, -, hpursued⟩ := h.pending p hp
          have hreported : (p.task, .error e) ∈ b.client.finished := by
            rw [hfinished]
            exact List.mem_cons_self
          refine .inr ⟨n, job, hasked.concat _, ?_⟩
          exact hleads.outcome.isEnding (hpursued.severed e hreported hflag)

/-- Every move keeps a bridge `Candid`. -/
theorem Candid.step (h : b.Candid address ms) (hb : b = run { address } ms)
    (hsealed : b.client.Sealed) (m : Move) : (b.step m).Candid address (ms ++ [m]) := by
  obtain ⟨m', hleads, -⟩ := b.leads m
  cases m with
  | client m => exact h.quiet hsealed hleads rfl fun _ _ ha => ha
  | register n => exact h.quiet hsealed hleads rfl fun _ _ => mem_of_mem_concat_notice
  | call c => exact h.call hb hsealed c
  | greet =>
    obtain hgreet | ⟨k, e, rest, -, hgreet⟩ | ⟨k, n, rest, -, hgreet⟩ := b.greeted
    · exact h.quiet hsealed hleads (by rw [hgreet]) fun serial a ha => by rwa [hgreet] at ha
    · exact h.quiet hsealed hleads (by rw [hgreet]) fun serial a ha => by rwa [hgreet] at ha
    · refine h.quiet hsealed hleads (by rw [hgreet]; rfl) fun serial a ha => ?_
      rw [hgreet] at ha
      exact mem_of_mem_concat_notice ha
  | answer => exact h.answer hsealed
  | forward f =>
    obtain hforward | ⟨s, step, g, -, -, haction, hforward⟩ := b.forwarded f
    · exact h.quiet hsealed hleads (by rw [hforward]) fun serial a ha => by rwa [hforward] at ha
    · refine h.quiet hsealed hleads (by rw [hforward]) fun serial a ha => ?_
      rw [hforward] at ha
      exact haction.mem_outbox ha

end Candid

/-- A bridge is `Candid` after every run. -/
theorem candid_run (address : String) (ms : List Move) :
    (run { address } ms).Candid address ms := by
  induction ms using List.reverseRecOn with
  | nil => exact ⟨fun _ h => (nomatch h), fun _ _ _ h => (nomatch h)⟩
  | append_singleton ms m ih =>
    have hsealed : (run { address } ms).client.Sealed :=
      kept_run (fun h hc => hc.leads h) Client.sealed_new ms
    rw [run_append]
    exact ih.step rfl hsealed m

end Bridge

namespace Client

variable {n : Nat} {cmd : Command} {before : List Move}

/-- A client is `Sealed` after every run. -/
theorem sealed_run (ms : List Move) : (run {} ms).Sealed :=
  kept_run (fun h hc => hc.leads h) sealed_new ms

/-- A task with a command is `Pursued`, whatever follows. -/
theorem pursued_run (n : Nat) (cmd : Command) (before after : List Move) :
    (run {} (before ++ .start n (.command cmd) :: after)).Pursued n (run {} before).nextTask
      (.command cmd) := by
  have hstarted : (run {} (before ++ [.start n (.command cmd)])).Pursued n (run {} before).nextTask
      (.command cmd) := by
    rw [run_concat]
    exact pursued_start (sealed_run before).ordered n (.command cmd)
  have hkept := kept_run (I := fun c => c.Sealed ∧ c.Pursued n (run {} before).nextTask (.command cmd))
    (fun hleads hc => ⟨hc.1.leads hleads, hc.2.leads trivial hc.1 hleads⟩)
    ⟨sealed_run _, hstarted⟩ after
  rw [List.append_cons, run_append]
  exact hkept.2

/-- Once a task has changed the stage, it is `Doomed`, whatever follows. -/
theorem doomed_run {ms₁ : List Move} (hstage :
      let k := (run {} before).nextTask
      let c := run {} (before ++ .start n (.command cmd) :: ms₁)
      (c.step (.task k)).stage? n ≠ c.stage? n) (ms₂ : List Move) :
    (run {} (before ++ .start n (.command cmd) :: (ms₁ ++ .task (run {} before).nextTask :: ms₂))).Doomed
      n (run {} before).nextTask := by
  have hdoomed := doomed_of_transition (sealed_run _).ordered (pursued_run n cmd before ms₁) hstage
  induction ms₂ using List.reverseRecOn with
  | nil =>
    rw [← List.cons_append, ← List.append_assoc, run_concat]
    exact hdoomed
  | append_singleton ms₂ m ih =>
    have hconcat : ∀ k, before ++ .start n (.command cmd) :: (ms₁ ++ .task k :: (ms₂ ++ [m])) =
        before ++ .start n (.command cmd) :: (ms₁ ++ .task k :: ms₂) ++ [m] := by
      simp
    rw [hconcat, run_concat]
    exact ih.leads (sealed_run _) (pursued_run n cmd before _) (Client.leads _ m)

end Client

/-- An error that cannot be got over says that the session is ending, and a task that reports another
error has not changed its stage. So an answer of a bridge says that a session cannot be used any more
only if the session that the call was for is ending for good. -/
theorem errors_tell_of_end :
    (∀ (n : Nat) (cmd : Command) (before after : List Client.Move) (e : Error),
      let k := (Client.run {} before).nextTask
      let moves := before ++ .start n (.command cmd) :: after
      (k, .error e) ∈ (Client.run {} moves).finished →
      (e.isRecoverable = false → ∀ later, (Client.run {} (moves ++ later)).IsEnding n) ∧
      (e.isRecoverable = true → ∀ ms₁ ms₂, after = ms₁ ++ .task k :: ms₂ →
        let c := Client.run {} (before ++ .start n (.command cmd) :: ms₁)
        (c.step (.task k)).stage? n = c.stage? n)) ∧
    ∀ (address : String) (ms : List Bridge.Move) (serial : Nat) (a : Rpc.Answer) (f : Rpc.Failure),
      .answer serial a ∈ (Bridge.run { address } ms).outbox → a.outcome = .error f →
      f.recoverable? = some false →
      ∃ n job, Bridge.Asked address ms serial n job ∧
        ∀ later, (Bridge.run { address } (ms ++ later)).client.IsEnding n := by
  refine ⟨?_, fun address ms serial a f ha hf hflag => ?_⟩
  · intro n cmd before after e k moves herror
    refine ⟨fun hsevere later => ?_, fun hmild ms₁ ms₂ hafter => ?_⟩
    · rw [Client.run_append]
      refine Client.kept_run (I := Client.IsEnding n) (fun h hn => h.outcome.isEnding hn) ?_ later
      exact (Client.pursued_run n cmd before after).severed e herror hsevere
    · intro c
      by_contra hstage
      subst hafter
      obtain ⟨e', he, hsevere⟩ := (Client.doomed_run hstage ms₂).verdict _ herror
      cases he
      cases hmild.symm.trans hsevere
  · obtain ⟨n, job, hasked, hending⟩ := (Bridge.candid_run address ms).answered serial a f ha hf hflag
    refine ⟨n, job, hasked, fun later => ?_⟩
    rw [Bridge.run_append]
    exact Bridge.kept_run (I := Client.IsEnding n) (fun h hn => h.outcome.isEnding hn) hending later

/-! Three runs: writing fails, a response does not come in time, and a call of a bridge meets with the
first of these. -/

/-- A session with an engine that has gone away: its outlet has the fault `onWrite`. -/
def forsaken : List Client.Move :=
  [.attach {}, .gate 1 (some .onWrite) none]

/-- The first task acts `count` times. -/
def attempts (count : Nat) : List Client.Move :=
  List.replicate count (.task 1)

/-- The first task acts until it waits for its response, which does not come before its `deadline`. -/
def overdue : List Client.Move :=
  attempts 9 ++ [.pass 10000]

/-- A call of `status`. -/
def statusCall : Rpc.Call where
  version := "2.0"
  id := .int 1
  method := "status"
  params := none

/-- The call `statusCall` is made on a session whose engine has gone away, and is answered. -/
def forsakenCall : List Bridge.Move :=
  forsaken.map .client ++ [.register 1, .call statusCall] ++ (attempts 11).map .client ++ [.answer]

/-- An engine that has gone away, a response that does not come in time, and the answer to a call on a
session without its engine. -/
theorem errors_tell_of_end_forsaken :
    (∀ later, (Client.run {}
      (forsaken ++ .start 1 (.command .status) :: attempts 11 ++ later)).IsEnding 1) ∧
    ((Client.run {} ([.attach {}] ++ .start 1 (.command .status) :: overdue)).step
        (.task 1)).stage? 1 =
      (Client.run {} ([.attach {}] ++ .start 1 (.command .status) :: overdue)).stage? 1 ∧
    ∃ n job, Bridge.Asked "" forsakenCall 0 n job ∧
      ∀ later, (Bridge.run { address := "" } (forsakenCall ++ later)).client.IsEnding n := by
  obtain ⟨hcommand, hcall⟩ := errors_tell_of_end
  have hfirst : (Client.run {} forsaken).nextTask = 1 ∧ (Client.run {} [.attach {}]).nextTask = 1 :=
    ⟨rfl, rfl⟩
  refine ⟨?_, ?_, ?_⟩
  · have hgone : (1, .error Outlet.gone) ∈ (Client.run {}
        (forsaken ++ .start 1 (.command .status) :: attempts 11)).finished :=
      List.mem_singleton.mpr rfl
    have hsevere := hcommand 1 .status forsaken (attempts 11) Outlet.gone
    simp only [hfirst] at hsevere
    exact (hsevere hgone).1 rfl
  · have hlate : (1, .error (.timeout 1)) ∈ (Client.run {} ([.attach {}] ++
        .start 1 (.command .status) :: (overdue ++ [.task 1]))).finished :=
      List.mem_singleton.mpr rfl
    have hmild := hcommand 1 .status [.attach {}] (overdue ++ [.task 1]) (.timeout 1)
    simp only [hfirst] at hmild
    exact (hmild hlate).2 rfl overdue [] rfl
  · exact hcall "" forsakenCall 0 ⟨.int 1, .error (.ofError Outlet.gone)⟩ (.ofError Outlet.gone)
      (List.mem_cons_of_mem _ (List.mem_singleton.mpr rfl)) rfl rfl

end Dbgp
