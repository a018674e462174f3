import Dbgp.Bridge.Message
import Dbgp.Proofs.PropertyTree

/-!
# What notices say

A caller knows a notice by its method and its parameters. `Rpc.Notice.About` is what all notices about a
session have in common, and one structure for each kind says what else there is in it:
`Rpc.Notice.TellsStart`, `Rpc.Notice.TellsNotify`, `Rpc.Notice.TellsOutput` and `Rpc.Notice.TellsEnd`.
They speak of `Json.get?` only, and so hold of a notice however its members are ordered.

The packet of a notification is passed on as a tree: `Rpc.Shows` relates an element to the JSON that shows
it, node by node, and `Rpc.shows_elementJson` says that `Rpc.elementJson` is such JSON.
-/

namespace Dbgp

open Xml (Element)

namespace Rpc

/-! ## Elements as JSON -/

/-- JSON that shows an element: its name, its attributes (the last one of each name), its text without
the white space around it, and its children in their order. Text is shown decoded if it can be decoded
(`Property.Says`), and as it stands otherwise. -/
inductive Shows : Element → Json → Prop
  | node {e : Element} {j attributes : Json} {text : String} {children : List Json} :
      j.get? "name" = some (.str e.name) →
      j.get? "attributes" = some attributes →
      (∀ key, attributes.get? key =
        (e.attributes.reverse.find? fun a => a.1 = key).map fun a => .str a.2) →
      Property.Says e text ∨ ¬e.Decodes ∧ text = e.text →
      j.get? "text" = some (.str (Text.trim text)) →
      j.get? "children" = some (.arr children) →
      List.Forall₂ Shows e.children children → Shows e j

/-- `elementText` is the decoded text of an element, or its text as it stands. -/
theorem says_elementText (e : Element) :
    Property.Says e (elementText e) ∨ ¬e.Decodes ∧ elementText e = e.text := by
  rw [elementText]
  cases hcontent : e.content with
  | ok bytes => exact .inl ⟨bytes, Element.content_eq_ok_iff.mp hcontent, rfl⟩
  | error fault =>
    refine .inr ⟨?_, rfl⟩
    rintro ⟨bytes, hbytes⟩
    cases hcontent.symm.trans (Element.content_eq_ok_iff.mpr hbytes)

/-- `elementJsons` takes the elements of a list one by one. -/
theorem elementJsons_eq_map (es : List Element) : elementJsons es = es.map elementJson := by
  induction es with
  | nil => rw [elementJsons, List.map_nil]
  | cons e es ih => rw [elementJsons, ih, List.map_cons]

/-- The members that `elementJson` gives an element. -/
theorem elementJson_eq (e : Element) : elementJson e = .object
    [("name", .str e.name), ("attributes", .object (e.attributes.map fun a => (a.1, .str a.2))),
      ("text", .str (Text.trim (elementText e))), ("children", .arr (e.children.map elementJson))] := by
  obtain ⟨name, attributes, children, text⟩ := e
  rw [elementJson, elementJsons_eq_map]

/-- Among the attributes in `elementJson` the last one of a name counts. -/
theorem get?_attributes (key : String) (attributes : List (String × String)) :
    (Json.object (attributes.map fun a => (a.1, Json.str a.2))).get? key =
      (attributes.reverse.find? fun a => a.1 = key).map fun a => .str a.2 := by
  rw [Json.get?_object, ← List.map_reverse, Json.lookup, List.find?_map, Option.map_map]
  rfl

/-- `elementJson` shows an element and everything below it. -/
theorem shows_elementJson (e : Element) : Shows e (elementJson e) := by
  induction e using Element.induction with
  | h e ih =>
    have hchildren : List.Forall₂ Shows e.children (e.children.map elementJson) :=
      List.forall₂_map_right_iff.mpr (List.forall₂_same.mpr ih)
    rw [elementJson_eq]
    refine .node ?_ ?_ (get?_attributes · e.attributes) (says_elementText e) ?_ ?_ hchildren <;>
      simp [Json.get?_object, Json.lookup]

/-! ## Notices about a session -/

/-- The session that a message is about, if it is a notice about one. -/
def Message.session? : Message → Option Nat
  | .notice x =>
    match x.params.bind (Json.get? "session_id") with
    | some (.int n) => some n.toNat
    | _ => none
  | .answer _ _ => none

namespace Notice

/-- A notice about a session, with the method by which callers know what it is about. -/
structure About (n : Nat) (method : String) (x : Notice) : Prop where
  version_eq : x.version = "2.0"
  method_eq : x.method = method
  session_eq : x.params.bind (Json.get? "session_id") = some (.nat n)

/-- The notice of a new session, with the first packet of the engine if there was one. -/
structure TellsStart (n : Nat) (init : Option Init) (x : Notice) : Prop extends
    x.About n "session/started" where
  init_eq : x.params.bind (Json.get? "init") = some (.option Init.toJson init)

/-- The notice of a notification: its name, and the whole packet as a tree. -/
structure TellsNotify (n : Nat) (notify : Notify) (x : Notice) : Prop extends
    x.About n "session/notify" where
  name_eq : x.params.bind (Json.get? "name") = some (.str notify.name)
  packet_shown : ∃ j, x.params.bind (Json.get? "packet") = some j ∧ Shows notify.root j

/-- The notice of output of the debuggee: which stream it is of, and its text. -/
structure TellsOutput (n : Nat) (kind : StreamKind) (text : String) (x : Notice) : Prop extends
    x.About n "session/output" where
  stream_eq : x.params.bind (Json.get? "stream") = some (.str (Vocabulary.word kind))
  text_eq : x.params.bind (Json.get? "text") = some (.str text)

/-- The notice of the end of a session, with the reason if there is one to tell. -/
structure TellsEnd (n : Nat) (error : Option String) (x : Notice) : Prop extends
    x.About n "session/terminated" where
  error_eq : x.params.bind (Json.get? "error") = some (.option .str error)

/-- The notice of a packet, be it a notification or output, which is told as text. -/
def TellsPacket (n : Nat) : Notify ⊕ Output → Notice → Prop
  | .inl notify => TellsNotify n notify
  | .inr o => TellsOutput n o.kind (Text.Utf8.lossy o.content)

end Notice

/-- `started` says that a session has come. -/
theorem tellsStart_started (n : Nat) (init : Option Init) : (started n init).TellsStart n init := by
  refine ⟨⟨rfl, rfl, ?_⟩, ?_⟩ <;> simp [started, Json.get?_object, Json.lookup]

/-- `notified` carries the name and the packet of a notification. -/
theorem tellsNotify_notified (n : Nat) (x : Notify) : (notified n x).TellsNotify n x := by
  refine ⟨⟨rfl, rfl, ?_⟩, ?_, elementJson x.root, ?_, shows_elementJson x.root⟩ <;>
    simp [notified, Json.get?_object, Json.lookup]

/-- `printed` carries the stream and the text of output. -/
theorem tellsOutput_printed (n : Nat) (o : Output) :
    (printed n o).TellsOutput n o.kind (Text.Utf8.lossy o.content) := by
  refine ⟨⟨rfl, rfl, ?_⟩, ?_, ?_⟩ <;>
    simp [printed, Json.get?_object, Json.lookup, Json.ofWord, Output.text]

/-- `terminated` says that a session is over, and why. -/
theorem tellsEnd_terminated (n : Nat) (error : Option String) :
    (terminated n error).TellsEnd n error := by
  refine ⟨⟨rfl, rfl, ?_⟩, ?_⟩ <;> simp [terminated, Json.get?_object, Json.lookup, Json.optionStr]

/-- The notice by which a packet is passed on. -/
def passedOn (n : Nat) : Notify ⊕ Output → Notice
  | .inl x => notified n x
  | .inr x => printed n x

/-- Whatever its kind, the notice of a packet tells what is in the packet. -/
theorem tellsPacket_passedOn (n : Nat) (packet : Notify ⊕ Output) :
    (passedOn n packet).TellsPacket n packet := by
  cases packet with
  | inl x => exact tellsNotify_notified n x
  | inr x => exact tellsOutput_printed n x

/-- Packets that are passed on one by one are told one by one. -/
theorem tellsPackets_passedOn (n : Nat) (packets : List (Notify ⊕ Output)) :
    List.Forall₂ (Notice.TellsPacket n) packets (packets.map (passedOn n)) :=
  List.forall₂_map_right_iff.mpr (List.forall₂_same.mpr fun packet _ => tellsPacket_passedOn n packet)

/-- `Message.session?` finds the session of every notice about one. -/
theorem Notice.About.session? {n : Nat} {method : String} {x : Notice} (h : x.About n method) :
    (Message.notice x).session? = some n := by
  rw [Message.session?, h.session_eq]
  rfl

@[simp] theorem session?_started (n : Nat) (init : Option Init) :
    (Message.notice (started n init)).session? = some n :=
  (tellsStart_started n init).session?

@[simp] theorem session?_notified (n : Nat) (x : Notify) :
    (Message.notice (notified n x)).session? = some n :=
  (tellsNotify_notified n x).session?

@[simp] theorem session?_printed (n : Nat) (x : Output) :
    (Message.notice (printed n x)).session? = some n :=
  (tellsOutput_printed n x).session?

@[simp] theorem session?_terminated (n : Nat) (error : Option String) :
    (Message.notice (terminated n error)).session? = some n :=
  (tellsEnd_terminated n error).session?

@[simp] theorem session?_passedOn (n : Nat) (packet : Notify ⊕ Output) :
    (Message.notice (passedOn n packet)).session? = some n := by
  cases packet <;> simp [passedOn]

end Rpc

end Dbgp
