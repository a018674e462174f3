import Dbgp.Proofs.Base64
import Dbgp.Proofs.CallerText
import Dbgp.Proofs.Correlation
import Dbgp.Proofs.OwnRequest

/-!
# Breakpoints are listed as they were set

A breakpoint is known in two ways: setting it gives back what was asked for, with the id and the state of
the response, and listing reads it from an element. An engine that reports in that element what the
request said (`Breakpoint.Listed`) makes both agree (`Breakpoint.ofElement?_of_listed`), so that a list
holds exactly the breakpoint that was set (`Client.listed_as_set`).
-/

namespace Dbgp

open Xml (Element)

/-! ## Options by their flags -/

namespace Request

/-- The only option of `Request.new` is its transaction. -/
theorem option?_new (command : String) (t : UInt32) (g : String) :
    (new command t).option? g =
      if transactionFlag = g then some (Text.Numeral.write t.toNat) else none := by
  by_cases h : transactionFlag = g <;> simp [option?, new, h]

/-- `withOption` adds an option after those that are there. -/
theorem option?_withOption (r : Request) (flag value g : String) :
    (r.withOption flag value).option? g =
      (r.option? g).or (if flag = g then some value else none) := by
  rw [option?, options_withOption, List.find?_append, Option.map_or, option?]
  by_cases h : flag = g <;> simp [h]

/-- So does `withOptional`, if there is a value. -/
theorem option?_withOptional (r : Request) (flag : String) (value : Option String) (g : String) :
    (r.withOptional flag value).option? g = (r.option? g).or (if flag = g then value else none) := by
  cases value with
  | none => rw [withOptional, ite_self, Option.or_none]
  | some value => exact option?_withOption r flag value g

end Request

namespace Command

/-- All options of the request `breakpoint_set`, in order. -/
theorem option?_breakpointRequest (t : UInt32) (s : BreakpointSpec) (g : String) :
    (breakpointRequest t s).option? g =
      ((if "-i" = g then some (Text.Numeral.write t.toNat) else none)
        |>.or (if "-t" = g then some (Vocabulary.word s.kind) else none)
        |>.or (if "-s" = g then some (stateWord s.enabled) else none)
        |>.or (if "-f" = g then s.file else none)
        |>.or (if "-n" = g then s.line.map fun n => Text.Numeral.write n.toNat else none)
        |>.or (if "-m" = g then s.function else none)
        |>.or (if "-x" = g then s.exception else none)
        |>.or (if "-h" = g then s.hitValue.map fun n => Text.Numeral.write n.toNat else none)
        |>.or (if "-o" = g then s.hitCondition.map Vocabulary.word else none)
        |>.or (if "-r" = g then if s.temporary then some "1" else none else none)) := by
  have hargument : (breakpointRequest t s).option? g =
      (breakpointRequest t { s with expression := none }).option? g := by
    unfold breakpointRequest
    cases s.expression <;> rfl
  have htemporary : ∀ r : Request, (if s.temporary then r.withOption "-r" "1" else r).option? g =
      (r.option? g).or (if "-r" = g then if s.temporary then some "1" else none else none) := by
    intro r
    cases s.temporary with
    | false => simp
    | true => exact Request.option?_withOption r "-r" "1" g
  rw [hargument]
  refine (htemporary _).trans ?_
  rw [Request.option?_withOptional, Request.withOptionalNumber, Request.option?_withOptional,
    Request.option?_withOptional, Request.option?_withOptional, Request.withOptionalNumber,
    Request.option?_withOptional, Request.option?_withOptional, Request.option?_withOption,
    Request.option?_withOption, Request.option?_new, Request.transactionFlag]

/-- Its only argument is the expression, if there is one. -/
theorem arguments_breakpointRequest (t : UInt32) (s : BreakpointSpec) :
    (breakpointRequest t s).arguments = (s.expression.map argument).toList := by
  have hoptional : ∀ (r : Request) (flag : String) (value : Option String),
      (r.withOptional flag value).arguments = r.arguments := by
    intro r flag value
    cases value <;> rfl
  unfold breakpointRequest
  cases s.expression <;> cases s.temporary <;>
    simp [hoptional, Request.withOptionalNumber, Request.withOption, Request.withArgument,
      Request.new]

end Command

/-! ## Attributes as they were written -/

/-- Every `BreakpointKind` is found by its word. -/
theorem find?_word_breakpointKind (k : BreakpointKind) :
    Vocabulary.find? (Vocabulary.word k) = some k := by
  cases k <;> rfl

/-- Every `HitCondition` is found by its word. -/
theorem find?_word_hitCondition (h : HitCondition) :
    Vocabulary.find? (Vocabulary.word h) = some h := by
  cases h <;> rfl

namespace Xml.Element

variable {e : Element} {name : String}

/-- A number is read back by `Element.word32?`, as is the absence of one. -/
theorem word32?_of_attr? {n : Option UInt32}
    (h : e.attr? name = n.map fun n => Text.Numeral.write n.toNat) : e.word32? name = .ok n := by
  rw [word32?, parsed?, h]
  cases n with
  | none => rfl
  | some n =>
    have hblank : ∀ c ∈ (Text.Numeral.write n.toNat).toList, ¬Text.isBlank c :=
      fun c hc => (Text.not_blank_of_isDigit (Text.Numeral.isDigit_of_mem_write hc)).1
    simp only [Option.map_some, Text.trimChars_of_forall_not hblank, Text.Numeral.word32?_write]

/-- A text that was encoded by `Command.argument` is read back. -/
theorem content_of_argument {text : String} (hencoding : e.attr? "encoding" = some "base64")
    (htext : e.text = Command.argument text) : e.content = .ok (Text.Utf8.encode text) := by
  rw [content, hencoding, htext]
  simp only [Command.argument, Text.Base64.decode_encode, if_true]

end Xml.Element

/-! ## Elements of a list -/

/-- The breakpoint that a spec becomes under an id, in the state that the engine names, or else in the
one that was asked for. -/
def BreakpointSpec.established (s : BreakpointSpec) (id : String) (state : Option String) : Breakpoint :=
  { s with id, hitCount := none, enabled := stateEnabled (state.or (some (stateWord s.enabled))) }

namespace Breakpoint

/-- The attributes under which an engine reports options of the request, with the flags of those. -/
def echoed : List (String × String) :=
  [("type", "-t"), ("filename", "-f"), ("lineno", "-n"), ("function", "-m"), ("exception", "-x"),
    ("hit_value", "-h"), ("hit_condition", "-o"), ("temporary", "-r")]

/-- An element that reports the breakpoint which a request has set: under its id, with the state of
the response, or else the one that was asked for, and in all other things as the request said. -/
structure Listed (r : Request) (id : String) (state : Option String) (e : Element) : Prop where
  id : e.attr? "id" = some id
  state : e.attr? "state" = state.or (r.option? "-s")
  echo : ∀ a ∈ echoed, e.attr? a.1 = r.option? a.2
  unhit : e.attr? "hit_count" = none
  expression : (e.child? "expression").map (fun x => (x.attr? "encoding", x.text)) =
    r.arguments.head?.map fun a => (some "base64", a)

instance (r : Request) (id : String) (state : Option String) (e : Element) :
    Decidable (Listed r id state e) :=
  decidable_of_iff
    (e.attr? "id" = some id ∧ e.attr? "state" = state.or (r.option? "-s") ∧
      (∀ a ∈ echoed, e.attr? a.1 = r.option? a.2) ∧ e.attr? "hit_count" = none ∧
      (e.child? "expression").map (fun x => (x.attr? "encoding", x.text)) =
        r.arguments.head?.map fun a => (some "base64", a))
    ⟨fun ⟨hid, hstate, hecho, hunhit, hexpression⟩ => ⟨hid, hstate, hecho, hunhit, hexpression⟩,
      fun h => ⟨h.id, h.state, h.echo, h.unhit, h.expression⟩⟩

variable {t : UInt32} {spec : BreakpointSpec} {id : String} {state : Option String} {e : Element}

/-- The expression of a breakpoint is read back from its element. -/
theorem Listed.expression_eq (h : Listed (Command.breakpointRequest t spec) id state e) :
    ((e.child? "expression").bind fun c => c.content.toOption.map Text.Utf8.lossy) =
      spec.expression := by
  have hexpression := h.expression
  rw [Command.arguments_breakpointRequest] at hexpression
  cases hspec : spec.expression with
  | none =>
    rw [hspec] at hexpression
    rw [Option.map_eq_none_iff.mp hexpression, Option.bind_none]
  | some text =>
    rw [hspec] at hexpression
    obtain ⟨x, hx, hpair⟩ := Option.map_eq_some_iff.mp hexpression
    obtain ⟨hencoding, htext⟩ := Prod.mk.inj hpair
    rw [hx, Option.bind_some, Element.content_of_argument hencoding htext]
    show some (Text.Utf8.lossy (Text.Utf8.encode text)) = some text
    rw [Text.Utf8.lossy_encode]

/-- An element that reports what a request has set (`Listed`) is read as what the request was made
from. -/
theorem ofElement?_of_listed (h : Listed (Command.breakpointRequest t spec) id state e) :
    ofElement? e = some (spec.established id state) := by
  have hoption := fun a ha => (h.echo a ha).trans (Command.option?_breakpointRequest t spec a.2)
  have hkind : e.attr? "type" = some (Vocabulary.word spec.kind) := hoption ("type", "-t") (by decide)
  have hfile : e.attr? "filename" = spec.file := by
    simpa using hoption ("filename", "-f") (by decide)
  have hline : e.attr? "lineno" = spec.line.map fun n => Text.Numeral.write n.toNat := by
    simpa using hoption ("lineno", "-n") (by decide)
  have hfunction : e.attr? "function" = spec.function := by
    simpa using hoption ("function", "-m") (by decide)
  have hexception : e.attr? "exception" = spec.exception := by
    simpa using hoption ("exception", "-x") (by decide)
  have hvalue : e.attr? "hit_value" = spec.hitValue.map fun n => Text.Numeral.write n.toNat := by
    simpa using hoption ("hit_value", "-h") (by decide)
  have hcondition : e.attr? "hit_condition" = spec.hitCondition.map Vocabulary.word := by
    simpa using hoption ("hit_condition", "-o") (by decide)
  have htemporary : e.attr? "temporary" = if spec.temporary then some "1" else none := by
    simpa using hoption ("temporary", "-r") (by decide)
  have hstate : e.attr? "state" = state.or (some (stateWord spec.enabled)) := by
    rw [h.state, Command.option?_breakpointRequest]
    rfl
  have hunhit : e.word32? "hit_count" = .ok none :=
    Element.word32?_of_attr? (by rw [h.unhit, Option.map_none])
  have hflag : e.flag "temporary" = spec.temporary := by
    rw [Element.flag, htemporary]
    cases spec.temporary <;> rfl
  have hhits : (e.attr? "hit_condition").bind Vocabulary.find? = spec.hitCondition := by
    rw [hcondition]
    cases spec.hitCondition with
    | none => rfl
    | some c => exact find?_word_hitCondition c
  rw [ofElement?, h.id, hkind]
  simp only [Option.bind_some, Option.bind_eq_bind, find?_word_breakpointKind, hstate, hfile,
    hfunction, hexception, hhits, hunhit, hflag, h.expression_eq, Element.word32?_of_attr? hline,
    Element.word32?_of_attr? hvalue]
  rfl

end Breakpoint

/-! ## Responses -/

/-- A response without an error passes `Response.check`. -/
theorem Response.check_of_isError {a : Response} (h : a.isError = false) : a.check = .ok a := by
  rw [isError, Option.isSome_eq_false_iff, Option.isNone_iff_eq_none] at h
  rw [check, error?, h]
  rfl

/-- A response that reports an error gives that error and nothing else. -/
theorem Response.check_eq_error {a : Response} (h : a.isError = true) :
    ∃ e, a.error? = some e ∧ a.check = .error e := by
  obtain ⟨c, hc⟩ := Option.isSome_iff_exists.mp h
  have hsome : a.error?.isSome = true := by
    rw [error?, hc]
    rfl
  obtain ⟨e, he⟩ := Option.isSome_iff_exists.mp hsome
  exact ⟨e, he, by rw [check, he]⟩

/-- The word for a state is read back. -/
theorem stateEnabled_stateWord (b : Bool) : stateEnabled (some (stateWord b)) = b := by
  cases b <;> rfl

/-- A response with an id is read as the breakpoint that the spec becomes. -/
theorem Command.read_setBreakpoint {spec : BreakpointSpec} {a : Response} {id : String}
    (hid : a.root.attr? "id" = some id) :
    (setBreakpoint spec).read a =
      .ok (.breakpoint (some (spec.established id (a.root.attr? "state")))) := by
  have hattr : a.root.attr "id" = .ok id := by rw [Element.attr, hid]
  rw [read, hattr]
  unfold enabledAfter BreakpointSpec.established
  cases a.root.attr? "state" with
  | none =>
    rw [Option.none_or, stateEnabled_stateWord]
    rfl
  | some state => rfl

/-! ## Commands that have their response -/

namespace Client

variable {n k : Nat} {cmd : Command} {a : Response} {ms : List Move}

/-- The last move of a run is the one by which a task, started with a command, takes a response
(`Happening.obtained`). -/
def Concludes (n k : Nat) (cmd : Command) (a : Response) (ms : List Move) : Prop :=
  ∃ before between u, ms = before ++ .start n (.command cmd) :: between ++ [.task k] ∧
    k = (run {} before).nextTask ∧
    (run {} (before ++ .start n (.command cmd) :: between)).happenings (.task k) =
      [.obtained n u a]

/-- A task that is `Accounted` for is so after a run. -/
theorem Accounted.run {c : Client} {job : Job} {v : List UInt8} (h : c.Accounted n k job v)
    (ms : List Move) : ∃ v', (c.run ms).Accounted n k job v' := by
  induction ms using List.reverseRecOn with
  | nil => exact ⟨v, h⟩
  | append_singleton ms m ih =>
    obtain ⟨v', hms⟩ := ih
    rw [run_concat]
    by_cases hm : m = .task k
    · rw [hm]
      exact ⟨_, hms.step_task⟩
    · exact ⟨v', hms.effect (Client.effect _ m) hm⟩

/-- A task that needs no negotiation is in none: its phase is never `negotiate`. -/
theorem not_negotiate (hcmd : cmd.negotiates = false) {before between : List Move} {t : Task}
    (hk : k = (run {} before).nextTask)
    (ht : (run {} (before ++ .start n (.command cmd) :: between)).task? k = some t) (x : Exchange) :
    t.phase ≠ .negotiate x := by
  intro hphase
  have hfresh := (sealed_run before).ordered.distinct.task?_nextTask
  obtain ⟨v, haccounted⟩ := (accounted_start hfresh n (.command cmd)).run between
  rw [← List.singleton_append, ← List.append_assoc, run_append, run_concat] at ht
  obtain ⟨-, -, huttered⟩ := haccounted.uttered t (hk ▸ ht)
  rw [hphase] at huttered
  exact absurd huttered.1 (by rw [hcmd]; decide)

/-- What a task obtains, its exchange takes from its slot. -/
theorem exists_obtained? {now : Nat} {t : Task} {g g' : Ground} {p : Progress Phase Reply} {u : UInt32}
    (hact : t.act now g = some (p, g')) (h : .obtained n u a ∈ t.happenings now g) :
    ∃ x, t.phase.exchange? = some x ∧ x.obtained? now g.session = some a := by
  rw [Task.happenings, hact] at h
  rcases List.mem_append.mp h with h | h
  · split at h <;> simp at h
  · obtain ⟨x, hx, h⟩ := Option.bind_eq_some_iff.mp (Option.mem_toList.mp h)
    obtain ⟨r, hr, h⟩ := Option.map_eq_some_iff.mp h
    cases h
    exact ⟨x, hx, hr⟩

/-- With the response to its command a task is done. -/
theorem result_of_obtained? {now : Nat} {t : Task} {g g' : Ground} {p : Progress Phase Reply}
    {x : Exchange} (hjob : t.job = .command cmd) (hphase : t.phase = .exchange x) (haimed : x.Aimed)
    (htaken : x.obtained? now g.session = some a) (hact : t.act now g = some (p, g')) :
    p = .finished (a.check >>= fun r => cmd.read r) := by
  obtain ⟨-, -, hfinished⟩ := Exchange.obtained?_eq_some haimed htaken
  obtain ⟨s', hfinished⟩ := hfinished t.id
  rw [Task.act, hjob, hphase] at hact
  have hcommand := Task.actedCommand hact
  generalize hp : Phase.exchange x = phase at hcommand
  cases hcommand with
  | exchanging hphase' hx =>
    cases hp.trans hphase'
    cases hx.symm.trans hfinished
  | concluded hphase' hx =>
    cases hp.trans hphase'
    cases hx.symm.trans hfinished
    rw [Command.conclude_check]
  | queued hphase' | ready hphase' | passed hphase' | skipped hphase' | opened hphase'
  | negotiating hphase' | settled hphase' | prepared hphase' => cases hp.trans hphase'

/-- A task that has taken the response to its command has written its request, and reports what the
response says. -/
theorem Concludes.reports (h : Concludes n k cmd a ms) (hsync : cmd.isAsync = false)
    (hcmd : cmd.negotiates = false) :
    (∃ u, Writing.text (Writing.own k (trace (writings n) {} ms)) = (cmd.request u).encode) ∧
      ∀ result, (k, result) ∈ (run {} ms).finished ↔ result = a.check >>= fun r => cmd.read r := by
  obtain ⟨before, between, u, rfl, hk, hobtained⟩ := h
  have hordered := (sealed_run (before ++ .start n (.command cmd) :: between)).ordered
  obtain ⟨hnone, -⟩ | ⟨t, s, p, g, ht, hs, hact, hhappens, -⟩ :=
    (run {} (before ++ .start n (.command cmd) :: between)).step_task k
  · cases hnone.symm.trans hobtained
  have hmem := hhappens ▸ hobtained ▸ List.mem_singleton_self (Happening.obtained n u a)
  obtain ⟨x, hx, htaken⟩ := exists_obtained? hact hmem
  obtain ⟨rfl, hjob, -⟩ := (answering_run n hsync before between).task t (hk ▸ ht)
  have hphase : t.phase = .exchange x := by
    unfold Phase.exchange? at hx
    split at hx
    · next y hphase => exact absurd hphase (not_negotiate hcmd hk ht y)
    · next y hphase =>
      cases hx
      exact hphase
    · cases hx
  have hp := result_of_obtained? hjob hphase (sound_run ht x hx).2 htaken hact
  have hfinished : ∀ result, (k, result) ∈ (run {} (before ++
      .start t.session (.command cmd) :: between ++ [.task k])).finished ↔
        result = a.check >>= fun r => cmd.read r := by
    intro result
    rw [run_concat, finished_task ht hs hact, hp, List.mem_append]
    refine ⟨?_, fun h => .inr (h ▸ List.mem_singleton_self _)⟩
    rintro (hearlier | hnow)
    · -- A task that still acts has not reported before.
      cases ht.symm.trans (hordered.reported _ hearlier).2
    · exact (Prod.mk.inj (List.mem_singleton.mp hnow)).2
  refine ⟨?_, hfinished⟩
  have hmild : Mild (a.check >>= fun r => cmd.read r) :=
    Mild.bind (fun e => Response.isRecoverable_of_check) fun r => cmd.mild_read r
  have hanswering := answering_run t.session hsync before (between ++ [.task k])
  rw [← List.cons_append, ← List.append_assoc, ← hk] at hanswering
  rcases hanswering.result _ ((hfinished _).mpr rfl) with ⟨e, he, hsevere⟩ | ⟨u', hwritten, -⟩
  · cases hsevere.symm.trans (hmild e he)
  · exact ⟨u', hwritten⟩

/-- A task whose response reports no error reports what `Command.read` makes of it. -/
theorem Concludes.reports_reading (h : Concludes n k cmd a ms) (hsync : cmd.isAsync = false)
    (hcmd : cmd.negotiates = false) (hfine : a.isError = false) (result : Except Error Reply) :
    (k, result) ∈ (run {} ms).finished ↔ result = cmd.read a := by
  rw [(h.reports hsync hcmd).2, Response.check_of_isError hfine]
  exact Iff.rfl

/-- A task whose response reports an error reports that error, whatever else the response holds. -/
theorem Concludes.reports_error (h : Concludes n k cmd a ms) (hsync : cmd.isAsync = false)
    (hcmd : cmd.negotiates = false) (herror : a.isError = true) :
    ∃ e, a.error? = some e ∧ ∀ result, (k, result) ∈ (run {} ms).finished ↔ result = .error e := by
  obtain ⟨e, he, hcheck⟩ := Response.check_eq_error herror
  refine ⟨e, he, fun result => ?_⟩
  rw [(h.reports hsync hcmd).2, hcheck]
  exact Iff.rfl

/-- Whatever breakpoint is set, with texts that hold no separator and with any expression, in whatever
run: the request is read back as one, and the task reports what was asked for, under the id and in the
state of the response. A list in which the engine reports that request under that id and in that
state, wherever and whenever it is asked for, holds the same breakpoint and nothing else. -/
theorem listed_as_set {spec : BreakpointSpec} {id : String}
    (hplain : ∀ text ∈ (Command.setBreakpoint spec).texts, Request.Plain text)
    (hset : Concludes n k (.setBreakpoint spec) a ms) (hfine : a.isError = false)
    (hid : a.root.attr? "id" = some id) :
    ∃ r, Request.decodeAll (Writing.text (Writing.own k (trace (writings n) {} ms))) = [.ok r] ∧
      (∀ result, (k, result) ∈ (run {} ms).finished ↔
        result = .ok (.breakpoint (some (spec.established id (a.root.attr? "state"))))) ∧
      ∀ n' k' a' ms' e, Concludes n' k' .listBreakpoints a' ms' → a'.isError = false →
        a'.root.childrenNamed "breakpoint" = [e] →
        Breakpoint.Listed r id (a.root.attr? "state") e →
        ∀ result, (k', result) ∈ (run {} ms').finished ↔
          result = .ok (.breakpoints [spec.established id (a.root.attr? "state")]) := by
  obtain ⟨u, hwritten⟩ := (hset.reports rfl rfl).1
  have hbuilds : (Job.command (.setBreakpoint spec)).Builds [(Command.setBreakpoint spec).request u] :=
    .command .nothing
  have hread := (hbuilds.decodeAll_iff fun c hc => by cases hc; exact ⟨rfl, rfl⟩).mpr hplain
  rw [List.flatMap_singleton, ← hwritten] at hread
  refine ⟨_, hread, fun result => ?_, fun n' k' a' ms' e hlist hfine' honly hlisted result => ?_⟩
  · rw [hset.reports_reading rfl rfl hfine, Command.read_setBreakpoint hid]
  · rw [hlist.reports_reading rfl rfl hfine']
    show result = .ok (.breakpoints (Breakpoint.ofResponse a')) ↔ _
    rw [Breakpoint.ofResponse, honly, List.filterMap_cons,
      Breakpoint.ofElement?_of_listed hlisted, List.filterMap_nil]

/-! A breakpoint with an expression that holds both separators and a function without a name. The engine
sets it and says that it is off, and lists it in another run. -/

def oddBreakpoint : BreakpointSpec where
  kind := .watch
  line := some 0
  function := some ""
  expression := some "\n\x00"

/-- A task does a command up to the look at its slot, and a response comes before that. -/
def responded (cmd : Command) (payload : String) : List Move :=
  [Move.attach {}] ++ Move.start 1 (.command cmd) ::
    (List.replicate 7 (Move.task 1) ++ [Move.arrive 1 (.bytes (Frame.encode payload))] ++
      List.replicate 8 (Move.receiver 1) ++ [Move.task 1])

/-- Whether all that happens is that a response of a kind is obtained on the first session. -/
def obtainsSuch (p : Response → Bool) : List Happening → Bool
  | [.obtained 1 _ a] => p a
  | _ => false

/-- A run of `responded` concludes with the response that is obtained. -/
theorem concludes_responded {payload : String} {p : Response → Bool}
    (h : obtainsSuch p ((run {} (responded cmd payload)).happenings (.task 1)) = true) :
    ∃ a, Concludes 1 1 cmd a (responded cmd payload ++ [.task 1]) ∧ p a = true := by
  unfold obtainsSuch at h
  split at h
  · next u a hobtained => exact ⟨a, ⟨[.attach {}], _, u, rfl, rfl, hobtained⟩, h⟩
  · cases h

def setReply : String :=
  "<response transaction_id=\"1\" id=\"7\" state=\"disabled\"/>"

def listReply : String :=
  "<response transaction_id=\"1\"><breakpoint id=\"7\" type=\"watch\" state=\"disabled\" lineno=\"0\" " ++
    "function=\"\"><expression encoding=\"base64\">CgA=</expression></breakpoint></response>"

/-- A breakpoint with an expression of both separators, which the engine reports as disabled, is
listed as it was set. -/
theorem listed_as_set_odd :
    let b := oddBreakpoint.established "7" (some "disabled")
    b.expression = some "\n\x00" ∧ b.enabled = false ∧
      (1, .ok (.breakpoint (some b))) ∈
        (run {} (responded (.setBreakpoint oddBreakpoint) setReply ++ [.task 1])).finished ∧
      (1, .ok (.breakpoints [b])) ∈
        (run {} (responded .listBreakpoints listReply ++ [.task 1])).finished := by
  have hplain : ∀ text ∈ (Command.setBreakpoint oddBreakpoint).texts, Request.Plain text := by
    decide
  have hset : obtainsSuch
      (fun a => !a.isError && a.root.attr? "id" = some "7" && a.root.attr? "state" = some "disabled")
      ((run {} (responded (.setBreakpoint oddBreakpoint) setReply)).happenings (.task 1)) = true := by
    decide +kernel
  obtain ⟨a, hset, ha⟩ := concludes_responded hset
  simp only [Bool.and_eq_true, Bool.not_eq_true', decide_eq_true_eq] at ha
  obtain ⟨⟨hfine, hid⟩, hstate⟩ := ha
  obtain ⟨r, hread, hresult, hlisted⟩ := listed_as_set hplain hset hfine hid
  rw [hstate] at hresult hlisted
  have hread₀ : Request.decodeAll (Writing.text (Writing.own 1 (trace (writings 1) {}
      (responded (.setBreakpoint oddBreakpoint) setReply ++ [.task 1])))) =
        [.ok ((Command.setBreakpoint oddBreakpoint).request 1)] := by
    decide +kernel
  cases hread.symm.trans hread₀
  have hlist : obtainsSuch
      (fun a => !a.isError && (a.root.childrenNamed "breakpoint").length == 1 &&
        (a.root.childrenNamed "breakpoint").all fun e => Breakpoint.Listed
          ((Command.setBreakpoint oddBreakpoint).request 1) "7" (some "disabled") e)
      ((run {} (responded .listBreakpoints listReply)).happenings (.task 1)) = true := by
    decide +kernel
  obtain ⟨a', hlist, ha'⟩ := concludes_responded hlist
  simp only [Bool.and_eq_true, Bool.not_eq_true', beq_iff_eq, List.length_eq_one_iff] at ha'
  obtain ⟨⟨hfine', e, he⟩, honly⟩ := ha'
  rw [he, List.all_cons, Bool.and_eq_true, decide_eq_true_eq] at honly
  exact ⟨rfl, rfl, (hresult _).mpr rfl,
    (hlisted 1 1 a' _ e hlist hfine' he honly.1 _).mpr rfl⟩

end Client

end Dbgp
