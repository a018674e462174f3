import Dbgp.Command
import Dbgp.Proofs.Base64
import Dbgp.Proofs.RequestStream

/-!
# Requests of commands

Every request of a command starts from `Request.new` and only gains options and arguments, so it
carries the transaction it was made for, in its head and as its first option.

A request is legible when it is read back from a stream as it was written. For a typed command this
depends on the texts that go into the request as they are, and on nothing else: numbers, words and
texts in Base64 never hold a separator.
-/

namespace Dbgp

/-! ## Adding to a request -/

namespace Request

section Added

variable (r : Request) (flag : String)

@[simp] theorem transaction_withOption (value : String) :
    (r.withOption flag value).transaction = r.transaction := rfl

@[simp] theorem options_withOption (value : String) :
    (r.withOption flag value).options = r.options ++ [(flag, value)] := rfl

@[simp] theorem transaction_withOptional (value : Option String) :
    (r.withOptional flag value).transaction = r.transaction := by
  cases value <;> rfl

/-- `withOptional` adds an option exactly if there is a value. -/
@[simp] theorem options_withOptional (value : Option String) :
    (r.withOptional flag value).options = r.options ++ (value.map fun v => (flag, v)).toList := by
  cases value with
  | none => exact (List.append_nil _).symm
  | some v => rfl

@[simp] theorem transaction_withArgument (argument : String) :
    (r.withArgument argument).transaction = r.transaction := rfl

@[simp] theorem options_withArgument (argument : String) :
    (r.withArgument argument).options = r.options := rfl

@[simp] theorem isAsync_withOption (value : String) :
    (r.withOption flag value).isAsync = r.isAsync := rfl

@[simp] theorem isAsync_withOptional (value : Option String) :
    (r.withOptional flag value).isAsync = r.isAsync := by
  cases value <;> rfl

@[simp] theorem isAsync_withArgument (argument : String) :
    (r.withArgument argument).isAsync = r.isAsync := rfl

end Added

/-! ## Legible requests -/

/-- A text that holds neither of the two separators: a line feed would end a line of a `Request`, and
a NUL the whole `Request`. -/
def Plain (s : String) : Prop :=
  '\n' ∉ s.toList ∧ '\x00' ∉ s.toList

instance (s : String) : Decidable (Plain s) :=
  inferInstanceAs (Decidable (_ ∧ _))

/-- A request that is read back from a stream as it was written: read back by itself (`Request.Fits`),
and in its place in the stream (`Request.Whole`). -/
def Legible (r : Request) : Prop :=
  r.Fits ∧ r.Whole

/-- A request is `Legible` exactly if its command is there, options have flags, arguments have none,
and all texts are `Plain`. -/
theorem legible_iff {r : Request} :
    r.Legible ↔ (r.command ≠ "" ∧ Plain r.command) ∧
      (∀ o ∈ r.options, isFlag o.1.toList ∧ Plain o.1 ∧ Plain o.2) ∧
      ∀ a ∈ r.arguments, isFlag a.toList = false ∧ Plain a := by
  constructor
  · rintro ⟨⟨hcommand, hnewline, hflags, harguments⟩, hwhole⟩
    obtain ⟨hc, ho, ha⟩ := forall_mem_lines.mp hnewline
    obtain ⟨hc', ho', ha'⟩ := forall_mem_lines.mp hwhole
    exact ⟨⟨hcommand, hc, hc'⟩,
      fun o h => ⟨hflags o h, ⟨(ho o h).1, (ho' o h).1⟩, ⟨(ho o h).2, (ho' o h).2⟩⟩,
      fun a h => ⟨harguments a h, ha a h, ha' a h⟩⟩
  · rintro ⟨⟨hcommand, hc⟩, ho, ha⟩
    refine ⟨⟨hcommand, forall_mem_lines.mpr ⟨hc.1, ?_, fun a h => (ha a h).2.1⟩,
      fun o h => (ho o h).1, fun a h => (ha a h).1⟩,
      forall_mem_lines.mpr ⟨hc.2, ?_, fun a h => (ha a h).2.2⟩⟩
    · exact fun o h => ⟨(ho o h).2.1.1, (ho o h).2.2.1⟩
    · exact fun o h => ⟨(ho o h).2.1.2, (ho o h).2.2.2⟩

/-- Numerals are `Plain`. -/
theorem plain_write (n : Nat) : Plain (Text.Numeral.write n) :=
  ⟨Text.Numeral.not_mem_write rfl n, Text.Numeral.not_mem_write rfl n⟩

/-- A `Request.new` for a command that is `Plain` is `Legible`: its only option is a number. -/
theorem legible_new {command : String} (h : command ≠ "" ∧ Plain command) (t : UInt32) :
    (new command t).Legible := by
  refine legible_iff.mpr ⟨h, ?_, by simp [new]⟩
  intro o ho
  obtain rfl := List.mem_singleton.mp ho
  have hflag : isFlag transactionFlag.toList = true ∧ Plain transactionFlag := by decide
  exact ⟨hflag.1, hflag.2, plain_write t.toNat⟩

/-- A `Request.newAsync` is `Legible` as a `Request.new` is. -/
theorem legible_newAsync {command : String} (h : command ≠ "" ∧ Plain command) (t : UInt32) :
    (newAsync command t).Legible := by
  have hnew := legible_iff.mp (legible_new h t)
  exact legible_iff.mpr hnew

section Added

variable {flag : String} (hflag : isFlag flag.toList = true ∧ Plain flag) (r : Request)

include hflag

/-- An option whose flag is in order leaves a request `Legible` exactly if its value is `Plain`. -/
theorem legible_withOption (value : String) :
    (r.withOption flag value).Legible ↔ r.Legible ∧ Plain value := by
  rw [legible_iff, legible_iff, withOption]
  simp only [List.forall_mem_append, List.forall_mem_singleton]
  constructor
  · rintro ⟨hc, ⟨ho, -, -, hvalue⟩, ha⟩
    exact ⟨⟨hc, ho, ha⟩, hvalue⟩
  · rintro ⟨⟨hc, ho, ha⟩, hvalue⟩
    exact ⟨hc, ⟨ho, hflag.1, hflag.2, hvalue⟩, ha⟩

/-- A number as the value of an option changes nothing about `Legible`. -/
theorem legible_withNumber (value : UInt32) :
    (r.withNumber flag value).Legible ↔ r.Legible := by
  rw [withNumber, legible_withOption hflag]
  exact and_iff_left (plain_write _)

/-- An option that may be absent leaves a request `Legible` exactly if its value, if there is one, is
`Plain`. -/
theorem legible_withOptional (value : Option String) :
    (r.withOptional flag value).Legible ↔ r.Legible ∧ ∀ s ∈ value, Plain s := by
  cases value with
  | none => simp [withOptional]
  | some s =>
    rw [withOptional, legible_withOption hflag]
    simp

/-- A number that may be absent changes nothing about `Legible`. -/
theorem legible_withOptionalNumber (value : Option UInt32) :
    (r.withOptionalNumber flag value).Legible ↔ r.Legible := by
  rw [withOptionalNumber, legible_withOptional hflag]
  refine and_iff_left ?_
  rintro s hs
  obtain ⟨n, -, rfl⟩ := Option.map_eq_some_iff.mp hs
  exact plain_write _

end Added

/-- An argument that is `Plain` and no flag leaves a request as `Legible` as it was. -/
theorem legible_withArgument (r : Request) {a : String} (ha : isFlag a.toList = false ∧ Plain a) :
    (r.withArgument a).Legible ↔ r.Legible := by
  rw [legible_iff, legible_iff, withArgument]
  simp only [List.forall_mem_append, List.forall_mem_singleton]
  constructor
  · rintro ⟨hc, ho, hargs, -⟩
    exact ⟨hc, ho, hargs⟩
  · rintro ⟨hc, ho, hargs⟩
    exact ⟨hc, ho, hargs, ha⟩

end Request

/-! ## The head of a request -/

namespace Command

/-- What every request of a command has: the transaction it is made for, also as its first option
(`Request.Tagged`), and whether it is sent without waiting for a response. -/
structure Headed (t : UInt32) (isAsync : Bool) (r : Request) : Prop where
  transaction : r.transaction = t
  isAsync : r.isAsync = isAsync
  tagged : r.Tagged

/-- `breakpointRequest` keeps the head, whichever of its options are given. -/
theorem headed_breakpointRequest (t : UInt32) (s : BreakpointSpec) :
    Headed t false (breakpointRequest t s) := by
  rw [breakpointRequest]
  cases s.temporary <;> cases s.expression <;> constructor <;>
    simp [Request.new, Request.withOptionalNumber, Request.Tagged]

/-- Every request of a command is `Headed` by the transaction it was made for. -/
theorem headed_request (c : Command) (t : UInt32) : Headed t c.isAsync (c.request t) := by
  cases c with
  | setBreakpoint spec => exact headed_breakpointRequest t spec
  | _ =>
    constructor <;>
      simp [request, isAsync, withText, inFrame, Draft.request, Request.new, Request.newAsync,
        Request.withNumber, Request.withOptionalNumber, Request.Tagged]

end Command

/-- `Command.argument` makes a text an argument that is no flag and holds no separator. -/
theorem Command.plain_argument (s : String) :
    Request.isFlag (argument s).toList = false ∧ Request.Plain (argument s) := by
  refine ⟨?_, Text.Base64.not_mem_encode (by decide) _, Text.Base64.not_mem_encode (by decide) _⟩
  rw [Request.isFlag, decide_eq_false_iff_not]
  intro hhead
  exact Text.Base64.not_mem_encode (by decide) _ (List.mem_of_head? hhead)

/-! ## Texts of a command -/

namespace Command

open Request (Plain Legible)

/-- A command whose request has a form of its own: all but `exchange` and `send`, which take a request
as it is. -/
def isTyped : Command → Bool
  | .exchange .. | .send _ => false
  | _ => true

/-- The texts that go into the request of a typed command as they are. -/
def texts : Command → List String
  | .getFeature name => [name]
  | .setFeature name value => [name, value]
  | .setBreakpoint s => s.file.toList ++ s.function.toList ++ s.exception.toList
  | .getBreakpoint id | .updateBreakpoint id _ | .removeBreakpoint id => [id]
  | .setSpawnpoint file .. => [file]
  | .getSpawnpoint id | .updateSpawnpoint id .. | .removeSpawnpoint id => [id]
  | .getProperty name .. | .setProperty name .. | .propertyValue name .. => [name]
  | .source file .. => file.toList
  | _ => []

/-- The words for enabled and disabled are `Plain`. -/
theorem plain_stateWord (enabled : Bool) : Plain (stateWord enabled) := by
  cases enabled <;> decide

/-- The words for a `HitCondition` are `Plain`. -/
theorem plain_hitCondition (h : HitCondition) : Plain (Vocabulary.word h) := by
  cases h <;> decide

/-- The words for a `BreakpointKind` are `Plain`. -/
theorem plain_breakpointKind (k : BreakpointKind) : Plain (Vocabulary.word k) := by
  cases k <;> decide

/-- What is written in `Plain` words is so also if it may be absent. -/
theorem plain_of_mem_map {w : α → String} (h : ∀ a, Plain (w a)) (o : Option α) :
    ∀ s ∈ o.map w, Plain s := by
  intro s hs
  obtain ⟨a, -, rfl⟩ := Option.map_eq_some_iff.mp hs
  exact h a

/-- `inFrame` adds numbers only. -/
theorem legible_inFrame (r : Request) (depth context : Option UInt32) :
    (inFrame r depth context).Legible ↔ r.Legible := by
  rw [inFrame, Request.legible_withOptionalNumber (by decide),
    Request.legible_withOptionalNumber (by decide)]

/-- `withText` adds an argument in Base64, which is `Legible` whatever the text is. -/
theorem legible_withText (r : Request) (s : String) : (withText r s).Legible ↔ r.Legible := by
  rw [withText, Request.legible_withArgument _ (plain_argument s),
    Request.legible_withOption (by decide)]
  exact and_iff_left (Request.plain_write _)

/-- Of a breakpoint, file, function and exception go into the request as they are; the expression does
not. -/
theorem legible_breakpointRequest (t : UInt32) (s : BreakpointSpec) :
    (breakpointRequest t s).Legible ↔ ∀ text ∈ (setBreakpoint s).texts, Plain text := by
  have hargument : (breakpointRequest t s).Legible ↔
      (breakpointRequest t { s with expression := none }).Legible := by
    rw [breakpointRequest]
    split
    · next e _ => exact Request.legible_withArgument _ (plain_argument e)
    · rfl
  have htemporary : ∀ r : Request,
      (if s.temporary then r.withOption "-r" "1" else r).Legible ↔ r.Legible := by
    intro r
    split
    · rw [Request.legible_withOption (by decide)]
      exact and_iff_left (by decide)
    · rfl
  refine hargument.trans ((htemporary _).trans ?_)
  rw [Request.legible_withOptional (by decide),
    Request.legible_withOptionalNumber (by decide), Request.legible_withOptional (by decide),
    Request.legible_withOptional (by decide), Request.legible_withOptionalNumber (by decide),
    Request.legible_withOptional (by decide), Request.legible_withOption (by decide),
    Request.legible_withOption (by decide)]
  have hnew : (Request.new "breakpoint_set" t).Legible := Request.legible_new (by decide) t
  simp only [hnew, plain_stateWord, plain_breakpointKind, true_and, and_true, texts,
    List.forall_mem_append, Option.mem_toList]
  exact and_iff_left (plain_of_mem_map plain_hitCondition _)

/-- The request of a typed command is `Legible` exactly when the `texts` it takes as they are hold no
separator. -/
theorem legible_request_iff {c : Command} (hc : c.isTyped = true) (t : UInt32) :
    (c.request t).Legible ↔ ∀ text ∈ c.texts, Plain text := by
  have hnew : ∀ {command : String} {p : Prop}, command ≠ "" ∧ Plain command →
      ((Request.new command t).Legible ∧ p ↔ p) :=
    fun h => and_iff_right (Request.legible_new h t)
  cases c with
  | setBreakpoint spec => exact legible_breakpointRequest t spec
  | exchange | send => cases hc
  | status | listBreakpoints | listSpawnpoints | stackDepth =>
    exact iff_of_true (Request.legible_new (by decide) t) (by simp [texts])
  | interrupt => exact iff_of_true (Request.legible_newAsync (by decide) t) (by simp [texts])
  | proceed how =>
    exact iff_of_true (Request.legible_new (by cases how <;> decide) t) (by simp [texts])
  | getFeature name | getBreakpoint name | removeBreakpoint name | getSpawnpoint name
  | removeSpawnpoint name =>
    rw [request, Request.legible_withOption (by decide), hnew (by decide)]
    simp [texts]
  | setFeature name value =>
    rw [request, Request.legible_withOption (by decide), Request.legible_withOption (by decide),
      hnew (by decide)]
    simp [texts]
  | updateBreakpoint id u =>
    rw [request, Request.legible_withOptional (by decide),
      Request.legible_withOptionalNumber (by decide), Request.legible_withOptionalNumber (by decide),
      Request.legible_withOptional (by decide), Request.legible_withOption (by decide),
      hnew (by decide), and_iff_left (plain_of_mem_map plain_hitCondition _),
      and_iff_left (plain_of_mem_map plain_stateWord _)]
    simp [texts]
  | setSpawnpoint file line enabled =>
    rw [request, Request.legible_withOption (by decide), Request.legible_withNumber (by decide),
      Request.legible_withOption (by decide), hnew (by decide), and_iff_left (plain_stateWord _)]
    simp [texts]
  | updateSpawnpoint id enabled line =>
    rw [request, Request.legible_withOptionalNumber (by decide),
      Request.legible_withOptional (by decide), Request.legible_withOption (by decide),
      hnew (by decide), and_iff_left (plain_of_mem_map plain_stateWord _)]
    simp [texts]
  | getStack depth | contextNames depth =>
    rw [request, Request.legible_withOptionalNumber (by decide)]
    exact iff_of_true (Request.legible_new (by decide) t) (by simp [texts])
  | getContext depth context =>
    rw [request, legible_inFrame]
    exact iff_of_true (Request.legible_new (by decide) t) (by simp [texts])
  | getProperty name depth context | propertyValue name depth context =>
    rw [request, legible_inFrame, Request.legible_withOption (by decide), hnew (by decide)]
    simp [texts]
  | setProperty name value depth context =>
    rw [request, legible_withText, legible_inFrame, Request.legible_withOption (by decide),
      hnew (by decide)]
    simp [texts]
  | evaluate expression =>
    rw [request, legible_withText]
    exact iff_of_true (Request.legible_new (by decide) t) (by simp [texts])
  | source file first last =>
    rw [request, Request.legible_withOptionalNumber (by decide),
      Request.legible_withOptionalNumber (by decide), Request.legible_withOptional (by decide),
      hnew (by decide)]
    simp [texts]
  | redirect kind mode =>
    rw [request, Request.legible_withOption (by decide)]
    exact iff_of_true ⟨Request.legible_new (by cases kind <;> decide) t, Request.plain_write _⟩
      (by simp [texts])

end Command

end Dbgp
