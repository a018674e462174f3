import Dbgp.Json.Reading
import Mathlib.Data.List.Forall2
import Mathlib.Data.List.Nodup

/-!
# Tolerant reading

A value that travels as JSON may come back with members that nobody asked for and without those that were
null. `Json.Loosened` is what may happen to it on the way. A reader tolerates that if it gives the same
value for everything that a JSON value can be loosened to (`Json.Reads`).

Whether a record is read back is a matter of its fields one by one. `Json.Writes` ties a description of
fields to the members that are written for them; it is put together in the same way as the description,
and `Json.Writes.record` is what follows for the record.
-/

namespace Dbgp.Json

/-! ## What happens on the way -/

/-- A value with members added to its objects, and with members that are null left out, at any
depth. -/
inductive Loosened : Json → Json → Prop
  | same (v : Json) : Loosened v v
  | arr {items items' : List Json} :
      List.Forall₂ Loosened items items' → Loosened (.arr items) (.arr items')
  | obj {members members' : List (String × Json)} :
      (∀ key v, lookup key members = some v → lookup key members' = none → v = .null) →
      (∀ key v w, lookup key members = some v → lookup key members' = some w → Loosened v w) →
      Loosened (.obj members) (.obj members')

/-- What may have become of a member with a value: it is `Loosened`, or it was null and is gone. -/
def Kept (v : Json) : Option Json → Prop
  | some w => Loosened v w
  | none => v = .null

/-- A member may be added if its key is new. -/
theorem loosened_insert {key : String} {members : List (String × Json)}
    (h : lookup key members = none) (value : Json) :
    Loosened (.obj members) (.obj (insert key value members)) := by
  have hother : ∀ k v, lookup k members = some v → lookup k (insert key value members) = some v := by
    intro k v hv
    rw [lookup_insert, if_neg, hv]
    rintro rfl
    cases h.symm.trans hv
  refine .obj (fun k v hv hnone => ?_) fun k v w hv hw => ?_
  · cases (hother k v hv).symm.trans hnone
  · cases (hother k v hv).symm.trans hw
    exact .same v

/-- A member may be left out if it is null. -/
theorem loosened_erase {key : String} {members : List (String × Json)}
    (h : lookup key members = some .null) :
    Loosened (.obj members) (.obj (members.filter (·.1 ≠ key))) := by
  have hother : ∀ k, k ≠ key → lookup k (members.filter (·.1 ≠ key)) = lookup k members := by
    intro k hk
    rw [lookup, List.find?_filter, lookup]
    congr 2
    funext m
    by_cases hm : m.1 = k <;> simp [hm, hk]
  have hgone : lookup key (members.filter (·.1 ≠ key)) = none := by
    rw [lookup, List.find?_filter, Option.map_eq_none_iff, List.find?_eq_none]
    simp
  refine .obj (fun k v hv hnone => ?_) fun k v w hv hw => ?_
  · by_cases hk : k = key
    · subst hk
      cases h.symm.trans hv
      rfl
    · cases hv.symm.trans ((hother k hk).symm.trans hnone)
  · by_cases hk : k = key
    · subst hk
      cases hgone.symm.trans hw
    · cases hv.symm.trans ((hother k hk).symm.trans hw)
      exact .same v

/-- A list is `Loosened` item by item. -/
theorem Loosened.exists_items {items : List Json} {w : Json} (h : Loosened (.arr items) w) :
    ∃ items', w = .arr items' ∧ List.Forall₂ Loosened items items' := by
  cases h with
  | same => exact ⟨items, rfl, List.forall₂_same.mpr fun v _ => .same v⟩
  | arr h => exact ⟨_, rfl, h⟩

/-- An object is `Loosened` to an object in which every member is `Kept`. -/
theorem Loosened.exists_members {members : List (String × Json)} {w : Json}
    (h : Loosened (.obj members) w) : ∃ members', w = .obj members' ∧
      ∀ key v, lookup key members = some v → Kept v (lookup key members') := by
  cases h with
  | same =>
    refine ⟨members, rfl, fun key v hv => ?_⟩
    rw [hv]
    exact .same v
  | @obj _ members' hgone hkept =>
    refine ⟨members', rfl, fun key v hv => ?_⟩
    cases hw : lookup key members' with
    | none => exact hgone key v hv hw
    | some w => exact hkept key v w hv hw

/-- Nothing but null is `Loosened` to null. -/
theorem Loosened.ne_null {v w : Json} (h : Loosened v w) (hv : v ≠ .null) : w ≠ .null := by
  cases h with
  | same => exact hv
  | arr _ | obj _ _ => simp

/-! ## Readers -/

/-- A reader gives a value for all that a JSON value can be `Loosened` to. -/
def Reads (reader : Reader α) (v : Json) (a : α) : Prop :=
  ∀ w, Loosened v w → reader w = .ok a

/-- What is written for the values of a type is read back, `Loosened` or not. -/
def Survives (write : α → Json) (reader : Reader α) : Prop :=
  ∀ a, Reads reader (write a) a

/-- Values that `Survives` holds of and that are never written as null. -/
structure Faithful (write : α → Json) (reader : Reader α) : Prop where
  survives : Survives write reader
  ne_null : ∀ a, write a ≠ .null

theorem faithful_text : Faithful .str Reader.text where
  survives := by
    rintro s w ⟨⟩
    rfl
  ne_null _ := by simp

theorem faithful_bool : Faithful .bool Reader.bool where
  survives := by
    rintro b w ⟨⟩
    rfl
  ne_null _ := by simp

/-- Words of a width are written as numbers below a bound, which `Reader.integer` checks. -/
theorem faithful_natural {wanted : String} {bound : Nat} {toNat : α → Nat} {ofNat : Nat → α}
    (hbound : ∀ a, toNat a < bound) (hback : ∀ a, ofNat (toNat a) = a) :
    Faithful (fun a => .nat (toNat a))
      (fun v => (fun n => ofNat n.toNat) <$> Reader.integer wanted 0 bound v) where
  survives := by
    rintro a w ⟨⟩
    have hread : Reader.integer wanted 0 bound (.nat (toNat a)) = .ok (toNat a : Int) := by
      rw [nat, Reader.integer, if_pos ⟨Int.natCast_nonneg _, Int.ofNat_lt.mpr (hbound a)⟩]
    simp only [hread]
    show Except.ok (ofNat (toNat a : Int).toNat) = _
    rw [Int.toNat_natCast, hback]
  ne_null _ := by simp [nat]

theorem faithful_word32 : Faithful (fun n : UInt32 => .nat n.toNat) Reader.word32 :=
  faithful_natural UInt32.toNat_lt fun _ => UInt32.ofNat_toNat

theorem faithful_word64 : Faithful (fun n : UInt64 => .nat n.toNat) Reader.word64 :=
  faithful_natural UInt64.toNat_lt fun _ => UInt64.ofNat_toNat

theorem faithful_size : Faithful (fun n : UInt64 => .nat n.toNat) Reader.size :=
  faithful_natural UInt64.toNat_lt fun _ => UInt64.ofNat_toNat

/-- A word is read back by `Reader.word` if the `Vocabulary` finds it. -/
theorem faithful_word [Vocabulary α] (h : ∀ a : α, Vocabulary.find? (Vocabulary.word a) = some a) :
    Faithful ofWord (Reader.word α) where
  survives := by
    rintro a w ⟨⟩
    rw [ofWord, Reader.word, Reader.variant, h]
  ne_null _ := by simp [ofWord]

/-- A value that may be absent is null then, and `Reader.nullable` tells the two apart because no
value is null itself. -/
theorem Faithful.option {write : α → Json} {reader : Reader α} (h : Faithful write reader) :
    Survives (Json.option write) (Reader.nullable reader) := by
  intro o w hw
  cases o with
  | none =>
    cases hw
    rfl
  | some a =>
    rw [Reader.nullable, h.survives a w hw]
    · rfl
    · exact hw.ne_null (h.ne_null a)

/-- A list is read item by item. -/
theorem Reads.list {reader : Reader α} {items : List Json} {as : List α}
    (h : List.Forall₂ (Reads reader) items as) : Reads (Reader.list reader) (.arr items) as := by
  intro w hw
  obtain ⟨items', rfl, hitems⟩ := hw.exists_items
  clear hw
  rw [Reader.list]
  induction hitems generalizing as with
  | nil =>
    cases h
    rfl
  | cons hvw _ ih =>
    obtain ⟨a, as, ha, has, rfl⟩ := List.forall₂_cons_left_iff.mp h
    rw [List.mapM_cons, ha _ hvw, ih has]
    rfl

/-! ## Records -/

/-- What is written for fields: a member for each field that is declared, from which the value is read
back whatever has become of it (`Kept`). -/
structure Writes (fields : Fields α) (members : List (String × Json)) (a : α) : Prop where
  keys : members.map (·.1) = fields.declared.map (·.1)
  read : ∀ given, (∀ m ∈ members, Kept m.2 (given m.1)) → fields.read given = .ok a

namespace Writes

variable {name : String}

/-- A field that is `required` may be written as anything but null. -/
theorem of_reads {reader : Reader α} {v : Json} {a : α} (h : Reads reader v a) (hv : v ≠ .null) :
    Writes (.required name reader) [(name, v)] a where
  keys := rfl
  read given hgiven := by
    have hkept := hgiven _ (List.mem_singleton_self _)
    cases hname : given name with
    | none =>
      rw [hname] at hkept
      exact absurd hkept hv
    | some w =>
      rw [hname] at hkept
      simp only [Fields.required, hname, h w hkept]

/-- A `required` field is written as it is. -/
theorem required {write : α → Json} {reader : Reader α} (h : Faithful write reader) {a : α} :
    Writes (.required name reader) [(name, write a)] a :=
  of_reads (h.survives a) (h.ne_null a)

/-- A field that is not given has to have the value that null stands for. -/
theorem of_default {reader : Reader α} {v : Json} {a value : α} (h : Reads reader v a)
    (hnull : v = .null → value = a) : Writes (.default name value reader) [(name, v)] a where
  keys := rfl
  read given hgiven := by
    have hkept := hgiven _ (List.mem_singleton_self _)
    cases hname : given name with
    | none =>
      rw [hname] at hkept
      simp only [Fields.default, hname, hnull hkept]
    | some w =>
      rw [hname] at hkept
      simp only [Fields.default, hname, h w hkept]

/-- A `default` counts only for what is written as null, which a `Faithful` value never is. -/
theorem default {write : α → Json} {reader : Reader α} (h : Faithful write reader) {a value : α} :
    Writes (.default name value reader) [(name, write a)] a :=
  of_default (h.survives a) fun hnull => absurd hnull (h.ne_null a)

/-- A value that may be absent, in a field that is `none` by default. -/
theorem nullable {write : α → Json} {reader : Reader α} (h : Faithful write reader) {o : Option α} :
    Writes (.default name none (Reader.nullable reader)) [(name, Json.option write o)] o := by
  refine of_default (h.option o) fun hnull => ?_
  cases o with
  | none => rfl
  | some a => exact absurd hnull (h.ne_null a)

/-- A field that is `optional` is written as null when there is no value. -/
theorem optional {write : α → Json} {reader : Reader α} (h : Faithful write reader) {o : Option α} :
    Writes (.optional name reader) [(name, Json.option write o)] o :=
  ⟨rfl, (nullable h).read⟩

/-- Nothing is written for no field. -/
theorem pure {a : α} : Writes (Pure.pure a) [] a :=
  ⟨rfl, fun _ _ => rfl⟩

/-- Fields are written one after the other. -/
theorem seq {f : Fields (α → β)} {x : Fields α} {members members' : List (String × Json)}
    {g : α → β} {a : α} (hf : Writes f members g) (hx : Writes x members' a) :
    Writes (f <*> x) (members ++ members') (g a) where
  keys := by
    rw [List.map_append, hf.keys, hx.keys, ← List.map_append]
    rfl
  read given hgiven := by
    rw [List.forall_mem_append] at hgiven
    show (Fields.seq f x).read given = _
    simp only [Fields.seq, hf.read given hgiven.1, hx.read given hgiven.2]

/-- The members of a value that is made from fields are those of the fields. -/
theorem map {x : Fields α} {members : List (String × Json)} {g : α → β} {a : α}
    (hx : Writes x members a) : Writes (g <$> x) members (g a) :=
  pure.seq hx

end Writes

/-- Where keys are distinct, every member is found by its own. -/
theorem lookup_of_mem {members : List (String × Json)} (hdistinct : (members.map (·.1)).Nodup)
    {m : String × Json} (hm : m ∈ members) : lookup m.1 members = some m.2 := by
  induction members with
  | nil => cases hm
  | cons head rest ih =>
    rw [List.map_cons, List.nodup_cons] at hdistinct
    rcases List.mem_cons.mp hm with rfl | hrest
    · rw [lookup, List.find?_cons_of_pos (by simp), Option.map_some]
    · have hne : head.1 ≠ m.1 := fun h => hdistinct.1 (h ▸ List.mem_map_of_mem hrest)
      rw [lookup, List.find?_cons_of_neg (by simpa using hne)]
      exact ih hdistinct.2 hrest

/-- A record that is written with all its fields is read back by `Fields.record`, `Loosened` or
not. -/
theorem Writes.record {fields : Fields α} {members : List (String × Json)} {a : α} (name : String)
    (h : Writes fields members a) (hdistinct : (fields.declared.map (·.1)).Nodup) :
    Reads (fields.record name) (.object members) a := by
  intro w hw
  obtain ⟨members', rfl, hkept⟩ := hw.exists_members
  have hread : fields.read (fun key => lookup key members') = .ok a := by
    refine h.read _ fun m hm => hkept m.1 m.2 ((get?_object m.1 members).trans ?_)
    refine lookup_of_mem ?_ (List.mem_reverse.mpr hm)
    rw [List.map_reverse, List.nodup_reverse, h.keys]
    exact hdistinct
  rw [Fields.record, hread]

end Dbgp.Json
