import Dbgp.Proofs.BreakpointListing
import Dbgp.Proofs.JsonTolerance
import Dbgp.Proofs.PropertyTree

/-!
# Value objects as JSON

What the client hands out and takes in can be written as JSON. Here every `ofJson` is shown to read
back what its `toJson` writes: the members that are written for a value are those of the declared
fields, so whatever is added to them or left out because it is null, the reading gives the same value
again. A property is a tree, and is read back at every depth.
-/

namespace Dbgp

open Json (Faithful Survives Writes faithful_text faithful_bool faithful_word32 faithful_word64
  faithful_size faithful_word Reads)

/-! ## Records -/

/-- Every `EngineStatus` is found by its word. -/
theorem find?_word_engineStatus (s : EngineStatus) :
    Vocabulary.find? (Vocabulary.word s) = some s := by
  cases s <;> rfl

/-- Every `StatusReason` is found by its word. -/
theorem find?_word_statusReason (r : StatusReason) :
    Vocabulary.find? (Vocabulary.word r) = some r := by
  cases r <;> rfl

theorem BreakpointSpec.survives : Survives toJson ofJson := fun _ =>
  (Writes.map (.required (faithful_word find?_word_breakpointKind))
    |>.seq (.required faithful_bool)
    |>.seq (.optional faithful_text)
    |>.seq (.optional faithful_word32)
    |>.seq (.optional faithful_text)
    |>.seq (.optional faithful_text)
    |>.seq (.optional faithful_word32)
    |>.seq (.optional (faithful_word find?_word_hitCondition))
    |>.seq (.required faithful_bool)
    |>.seq (.optional faithful_text)).record _ (by decide)

theorem Breakpoint.survives : Survives toJson ofJson := fun _ =>
  (Writes.map (.required faithful_text)
    |>.seq (.required (faithful_word find?_word_breakpointKind))
    |>.seq (.required faithful_bool)
    |>.seq (.optional faithful_text)
    |>.seq (.optional faithful_word32)
    |>.seq (.optional faithful_text)
    |>.seq (.optional faithful_text)
    |>.seq (.optional faithful_word32)
    |>.seq (.optional (faithful_word find?_word_hitCondition))
    |>.seq (.optional faithful_word32)
    |>.seq (.required faithful_bool)
    |>.seq (.optional faithful_text)).record _ (by decide)

theorem BreakpointUpdate.survives : Survives toJson ofJson := fun _ =>
  (Writes.map (.optional faithful_bool)
    |>.seq (.optional faithful_word32)
    |>.seq (.optional faithful_word32)
    |>.seq (.optional (faithful_word find?_word_hitCondition))).record _ (by decide)

theorem Spawnpoint.survives : Survives toJson ofJson := fun _ =>
  (Writes.map (.required faithful_text)
    |>.seq (.required faithful_text)
    |>.seq (.required faithful_word32)
    |>.seq (.required faithful_bool)).record _ (by decide)

theorem StackFrame.survives : Survives toJson ofJson := fun _ =>
  (Writes.map (.required faithful_word32)
    |>.seq (.required faithful_text)
    |>.seq (.required faithful_text)
    |>.seq (.required faithful_word32)
    |>.seq (.optional faithful_text)
    |>.seq (.optional faithful_text)
    |>.seq (.optional faithful_text)).record _ (by decide)

theorem ContextInfo.survives : Survives toJson ofJson := fun _ =>
  (Writes.map (.required faithful_word32) |>.seq (.required faithful_text)).record _ (by decide)

theorem StatusInfo.survives : Survives toJson ofJson := fun _ =>
  (Writes.map (.required (faithful_word find?_word_engineStatus))
    |>.seq (.required (faithful_word find?_word_statusReason))).record _ (by decide)

theorem FeatureValue.survives : Survives toJson ofJson := fun _ =>
  (Writes.map (.required faithful_text)
    |>.seq (.required faithful_bool)
    |>.seq (.required faithful_text)).record _ (by decide)

theorem Init.survives : Survives toJson ofJson := fun _ =>
  (Writes.map (.optional faithful_text)
    |>.seq (.optional faithful_text)
    |>.seq (.optional faithful_text)
    |>.seq (.optional faithful_text)
    |>.seq (.optional faithful_text)
    |>.seq (.optional faithful_text)
    |>.seq (.optional faithful_text)
    |>.seq (.optional faithful_text)).record _ (by decide)

/-- A `Config` has defaults for all its fields, of which only that of the read timeout counts when
something is left out. -/
theorem Config.survives : Survives toJson ofJson := fun _ =>
  (Writes.map (.default faithful_word64)
    |>.seq (.nullable faithful_word64)
    |>.seq (.default faithful_size)
    |>.seq (.default faithful_word64)).record _ (by decide)

/-! ## Trees

The reading of a property is bounded by the depth of the JSON value. The bound is never reached, so the
reading is what its fields say, with the same reading for the children. -/

namespace Json

/-- An item is no deeper than all items together. -/
theorem depth_le_depthItems {v : Json} {items : List Json} (h : v ∈ items) :
    v.depth ≤ depthItems items := by
  induction items with
  | nil => cases h
  | cons w items ih =>
    rw [depthItems]
    rcases List.mem_cons.mp h with rfl | h
    · exact Nat.le_max_left _ _
    · exact Nat.le_trans (ih h) (Nat.le_max_right _ _)

/-- A member is no deeper than all members together. -/
theorem depth_le_depthMembers {m : String × Json} {members : List (String × Json)} (h : m ∈ members) :
    m.2.depth ≤ depthMembers members := by
  induction members with
  | nil => cases h
  | cons n members ih =>
    rw [depthMembers]
    rcases List.mem_cons.mp h with rfl | h
    · exact Nat.le_max_left _ _
    · exact Nat.le_trans (ih h) (Nat.le_max_right _ _)

/-- The items of a list are less deep than the list. -/
theorem depth_lt_of_mem {v : Json} {items : List Json} (h : v ∈ items) :
    v.depth < (Json.arr items).depth := by
  rw [depth]
  exact Nat.lt_succ_of_le (depth_le_depthItems h)

/-- What `lookup` finds in an object is less deep than the object. -/
theorem depth_lt_of_lookup {key : String} {v : Json} {members : List (String × Json)}
    (h : lookup key members = some v) : v.depth < (Json.obj members).depth := by
  obtain ⟨m, hm, rfl⟩ := Option.map_eq_some_iff.mp h
  rw [depth]
  exact Nat.lt_succ_of_le (depth_le_depthMembers (List.mem_of_find?_eq_some hm))

/-- What `Fields.positional` takes from a list is less deep than the list. -/
theorem depth_lt_of_positional {name : String} {v : Json} {items : List Json}
    {declared : List (String × Bool)} (h : Fields.positional items declared name = some v) :
    v.depth < (Json.arr items).depth := by
  obtain ⟨m, hm, rfl⟩ := Option.map_eq_some_iff.mp h
  exact depth_lt_of_mem (List.of_mem_zip (List.mem_of_find?_eq_some hm)).2

/-- A list is read by its items only. -/
theorem mapM_congr {read read' : Reader α} {items : List Json} (h : ∀ v ∈ items, read v = read' v) :
    items.mapM read = items.mapM read' := by
  induction items with
  | nil => rfl
  | cons v items ih =>
    rw [List.forall_mem_cons] at h
    rw [List.mapM_cons, List.mapM_cons, h.1, ih h.2]

/-- Fields are read alike if their last part is. -/
theorem seq_read_congr {f : Fields (α → β)} {x x' : Fields α} {given : String → Option Json}
    (h : x.read given = x'.read given) : (f <*> x).read given = (f <*> x').read given := by
  show (Fields.seq f x).read given = (Fields.seq f x').read given
  simp only [Fields.seq, h]

/-- Only what is below a value matters for the reading of it as a record. -/
theorem record_congr {fields fields' : Fields α} {w : Json} (name : String)
    (hdeclared : fields.declared = fields'.declared)
    (h : ∀ given, (∀ key v, given key = some v → v.depth < w.depth) →
      fields.read given = fields'.read given) :
    fields.record name w = fields'.record name w := by
  cases w with
  | obj members =>
    rw [Fields.record, h _ fun key v => depth_lt_of_lookup, Fields.record]
  | arr items =>
    simp only [Fields.record, hdeclared]
    rw [h _ fun key v => depth_lt_of_positional]
  | null | bool _ | int _ | double _ | str _ => rfl

end Json

namespace Property

/-- The fields of a property depend on the reader for children only through the items of
`children`. -/
theorem fields_read_congr {child child' : Json.Reader Property} {given : String → Option Json}
    (h : ∀ items, given "children" = some (.arr items) → ∀ v ∈ items, child v = child' v) :
    (fields child).read given = (fields child').read given := by
  have hlist : ∀ v, given "children" = some v →
      Json.Reader.list child v = Json.Reader.list child' v := by
    intro v hv
    cases v with
    | arr items => exact Json.mapM_congr (h items hv)
    | null | bool _ | int _ | double _ | str _ | obj _ => rfl
  refine Json.seq_read_congr ?_
  cases hgiven : given "children" with
  | none => simp only [Json.Fields.required, hgiven]
  | some v => simp only [Json.Fields.required, hgiven, hlist v hgiven]

/-- A deeper bound changes nothing: `ofJsonWithin` is `ofJson` for every bound above the depth of the
value. -/
theorem ofJsonWithin_eq {depth : Nat} {w : Json} (h : w.depth < depth) :
    ofJsonWithin depth w = ofJson w := by
  induction depth using Nat.strongRecOn generalizing w with
  | ind depth ih =>
    obtain ⟨bound, rfl⟩ := Nat.exists_eq_succ_of_ne_zero (Nat.ne_zero_of_lt h)
    refine Json.record_congr "Property" rfl fun given hbelow => fields_read_congr fun items hitems v hv => ?_
    have hv : v.depth < w.depth :=
      Nat.lt_trans (Json.depth_lt_of_mem hv) (hbelow "children" _ hitems)
    rw [ih bound (Nat.lt_succ_self bound) (by omega), ih w.depth h hv]

/-- `Property.ofJson` satisfies the equation that the bound is there to make well founded. -/
theorem ofJson_eq (w : Json) : ofJson w = (fields ofJson).record "Property" w := by
  refine Json.record_congr "Property" rfl fun given hbelow => fields_read_congr fun items hitems v hv => ?_
  exact ofJsonWithin_eq (Nat.lt_trans (Json.depth_lt_of_mem hv) (hbelow "children" _ hitems))

/-- Children are written one by one, with `toJson`. -/
theorem toJsons_eq_map (ps : List Property) : toJsons ps = ps.map toJson := by
  induction ps with
  | nil => rw [toJsons, List.map_nil]
  | cons p ps ih => rw [toJsons, ih, List.map_cons]

/-- Every property survives, by induction on the tree: its children are read by the reader that reads
itself (`ofJson_eq`). -/
theorem survives : Survives toJson ofJson := by
  intro p
  induction p using Property.induction with
  | h p ih =>
    obtain ⟨name, fullname, kind, classname, constant, hasChildren, numChildren, page, pageSize, key,
      address, encoding, value, children⟩ := p
    have hchildren : Reads (Json.Reader.list ofJson) (.arr (toJsons children)) children := by
      refine Reads.list ?_
      rw [toJsons_eq_map, List.forall₂_map_left_iff]
      exact List.forall₂_same.mpr ih
    intro w hw
    rw [ofJson_eq]
    rw [toJson] at hw
    exact (Writes.map (.required faithful_text)
      |>.seq (.optional faithful_text)
      |>.seq (.optional faithful_text)
      |>.seq (.optional faithful_text)
      |>.seq (.required faithful_bool)
      |>.seq (.required faithful_bool)
      |>.seq (.optional faithful_word32)
      |>.seq (.optional faithful_word32)
      |>.seq (.optional faithful_word32)
      |>.seq (.optional faithful_text)
      |>.seq (.optional faithful_text)
      |>.seq (.optional faithful_text)
      |>.seq (.optional faithful_text)
      |>.seq (.of_reads hchildren (by simp))).record _ (by decide) w hw

end Property

/-- Every value object is read back from the JSON that is written for it, also when members with other
keys are added to its objects and members that are null are left out, at any depth. -/
theorem values_survive_json :
    Survives Property.toJson Property.ofJson ∧
    Survives Breakpoint.toJson Breakpoint.ofJson ∧
    Survives BreakpointSpec.toJson BreakpointSpec.ofJson ∧
    Survives BreakpointUpdate.toJson BreakpointUpdate.ofJson ∧
    Survives Spawnpoint.toJson Spawnpoint.ofJson ∧
    Survives StackFrame.toJson StackFrame.ofJson ∧
    Survives ContextInfo.toJson ContextInfo.ofJson ∧
    Survives StatusInfo.toJson StatusInfo.ofJson ∧
    Survives FeatureValue.toJson FeatureValue.ofJson ∧
    Survives Init.toJson Init.ofJson ∧
    Survives Config.toJson Config.ofJson :=
  ⟨Property.survives, Breakpoint.survives, BreakpointSpec.survives, BreakpointUpdate.survives,
    Spawnpoint.survives, StackFrame.survives, ContextInfo.survives, StatusInfo.survives,
    FeatureValue.survives, Init.survives, Config.survives⟩

/-- A frame without a location is read back if that is not written at all, and if there is something
that frames do not have. -/
theorem values_survive_json_frame :
    let frame : StackFrame := ⟨2, "eval", "a.tcl", 7, none, none, some "7:4"⟩
    ∃ members, frame.toJson = .obj members ∧
      StackFrame.ofJson (.obj (members.filter (·.1 ≠ "location"))) = .ok frame ∧
      StackFrame.ofJson (.obj (Json.insert "column" (.nat 4) members)) = .ok frame := by
  intro frame
  have hframe := values_survive_json.2.2.2.2.2.1 frame
  have hlookup := fun key => (Json.get?_object key _ : frame.toJson.get? key = _)
  refine ⟨_, rfl, hframe _ (Json.loosened_erase ?_), hframe _ (Json.loosened_insert ?_ _)⟩
  · exact (hlookup "location").trans (by simp [Json.lookup, frame, Json.optionStr, Json.option])
  · exact (hlookup "column").trans (by simp [Json.lookup])

/-- In a tree, the same goes for what is nested. -/
example :
    ((Property.ofJson (.object [("name", .str "a"), ("constant", .bool true), ("has_children", .bool true),
      ("children", .arr [.object [("name", .str "b"), ("size", .nat 3), ("constant", .bool false),
        ("has_children", .bool false), ("page", .null), ("children", .arr [])]])])).toOption.map
      fun p => (p.name, p.fullname, p.children.map (·.name))) = some ("a", none, ["b"]) := by
  decide +kernel

end Dbgp
