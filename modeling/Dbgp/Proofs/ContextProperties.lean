import Dbgp.Proofs.BreakpointListing
import Dbgp.Proofs.PropertyTree

/-!
# The properties of a context

`Command.getContext` returns the properties of a context. A property is a tree, and one element of it that
cannot be read spoils the whole tree, but no other one: what comes back mirrors exactly those properties of
the response that can be read as a whole (`Property.Mirrors`, `Element.LocallyReadable`), unless the response
reports an error, which is what comes back then.

Main statement: `Client.properties_read_whole_or_not`.
-/

namespace Dbgp.Client

open Xml (Element)

variable {n k : Nat} {depth context : Option UInt32} {a : Response} {ms : List Move}

/-- Without an error the call returns what `Property.allOfResponse` reads. -/
theorem Concludes.reports_properties (h : Concludes n k (.getContext depth context) a ms)
    (hfine : a.isError = false) (result : Except Error Reply) :
    (k, result) ∈ (run {} ms).finished ↔ result = .ok (.properties (Property.allOfResponse a)) :=
  h.reports_reading rfl rfl hfine result

/-- A property is read whole or not at all. It is read exactly if every element that reading comes to is
locally readable, and then it mirrors these elements: their shape, their order and what each of them says
by itself. A node with children says that it has some.

A call for the properties of a context, in whatever run and whoever else is at work, returns the error that
its response reports. If it reports none, the call returns, in order, the properties that can be read,
whatever the others are like. -/
theorem properties_read_whole_or_not (depth context : Option UInt32) :
    (∀ e : Element,
      ((∃ p, Property.ofElement e = .ok p) ↔ ∀ d, e.Reaches d → d.LocallyReadable) ∧
      (∀ p, Property.ofElement e = .ok p ↔ Property.Mirrors e p) ∧
      ∀ p, Property.ofElement e = .ok p → ∀ q, p.Node q →
        (∃ d, e.Reaches d ∧ Property.Tells d q) ∧ (q.children ≠ [] → q.hasChildren = true)) ∧
    ∀ (n k : Nat) (a : Response) (ms : List Move), Concludes n k (.getContext depth context) a ms →
      (a.isError = true → ∃ e, a.error? = some e ∧
        ∀ result, (k, result) ∈ (run {} ms).finished ↔ result = .error e) ∧
      (a.isError = false → ∃ ps,
        List.Forall₂ Property.Mirrors ((a.root.childrenNamed "property").filter fun c =>
          ∀ d, c.Reaches d → d.LocallyReadable) ps ∧
        ∀ result, (k, result) ∈ (run {} ms).finished ↔ result = .ok (.properties ps)) := by
  refine ⟨fun e => ⟨Property.exists_ofElement_iff e, Property.ofElement_eq_ok_iff_mirrors e,
    fun p hp q => Property.tells_of_node hp⟩, fun n k a ms hget => ?_⟩
  exact ⟨hget.reports_error rfl rfl, fun hfine =>
    ⟨_, Property.mirrors_allOfResponse a, hget.reports_properties hfine⟩⟩

/-- A response to `context_get`: three properties with something else between them. The second one has
a property two levels down whose Base64 is broken. -/
def contextReply : String :=
  "<response transaction_id=\"1\"><property name=\"a\"/><note/><property name=\"b\"><property><property " ++
    "encoding=\"base64\">?</property></property></property><property name=\"c\"><property/></property>" ++
    "</response>"

/-- A response to `context_get` with an `error`, and a property after it. -/
def contextReplyRefused : String :=
  "<response transaction_id=\"1\"><error code=\"5\"/><property name=\"a\"/></response>"

/-- Of `contextReply` the first and the third property are returned, the third with its child. -/
theorem properties_read_whole_or_not_sifted :
    ∃ ps, (1, .ok (.properties ps)) ∈
        (run {} (responded (.getContext none none) contextReply ++ [.task 1])).finished ∧
      ps.map (fun p => (p.name, p.hasChildren, p.children.length)) = [("a", false, 0), ("c", true, 1)] := by
  have h : obtainsSuch
      (fun a => !a.isError && (Property.allOfResponse a).map
        (fun p => (p.name, p.hasChildren, p.children.length)) = [("a", false, 0), ("c", true, 1)])
      ((run {} (responded (.getContext none none) contextReply)).happenings (.task 1)) = true := by
    decide +kernel
  obtain ⟨a, hget, ha⟩ := concludes_responded h
  simp only [Bool.and_eq_true, Bool.not_eq_true', decide_eq_true_eq] at ha
  obtain ⟨hfine, hread⟩ := ha
  obtain ⟨ps, -, hresult⟩ := ((properties_read_whole_or_not none none).2 1 1 a _ hget).2 hfine
  have hps := (hget.reports_properties hfine _).mp ((hresult (.ok (.properties ps))).mpr rfl)
  cases hps
  exact ⟨_, (hresult _).mpr rfl, hread⟩

/-- In `contextReplyRefused` the error keeps back a property that can be read. -/
theorem properties_withheld_on_error : ∃ a e,
    Concludes 1 1 (.getContext none none) a
      (responded (.getContext none none) contextReplyRefused ++ [.task 1]) ∧
    a.root.childrenNamed "property" = [e] ∧ (∀ d, e.Reaches d → d.LocallyReadable) ∧
    ∀ result, (1, result) ∈
        (run {} (responded (.getContext none none) contextReplyRefused ++ [.task 1])).finished ↔
      result = .error (.remote 5 "command is not available") := by
  have h : obtainsSuch
      (fun a => (a.root.childrenNamed "property").length == 1 &&
        ((a.root.childrenNamed "property").all fun e => ∀ d, e.Reaches d → d.LocallyReadable) &&
        a.error? = some (.remote 5 "command is not available"))
      ((run {} (responded (.getContext none none) contextReplyRefused)).happenings (.task 1)) = true := by
    decide +kernel
  obtain ⟨a, hget, ha⟩ := concludes_responded h
  simp only [Bool.and_eq_true, beq_iff_eq, List.length_eq_one_iff, decide_eq_true_eq] at ha
  obtain ⟨⟨⟨e, he⟩, hreadable⟩, herror⟩ := ha
  rw [he, List.all_cons, Bool.and_eq_true, decide_eq_true_eq] at hreadable
  refine ⟨a, e, hget, he, hreadable.1, fun result => ?_⟩
  rw [(hget.reports rfl rfl).2, Response.check, herror]
  exact Iff.rfl

end Dbgp.Client
