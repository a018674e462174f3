import Dbgp.Session.Exchange

/-!
# The table of slots

What each operation on `Slots` does to the slot of every transaction, to the flag that no slot is made
any more, and to the bell. Everything else about slots is proved from these lemmas, so the list behind
the table is looked at only here.
-/

namespace Dbgp.Slots

/-! ## Single operations -/

/-- `Slots.forget` takes one slot away and no other. -/
theorem get?_forget (s : Slots) (t u : UInt32) :
    (s.forget t).get? u = if u = t then none else s.get? u := by
  rw [get?, forget, List.find?_filter]
  split
  · next h =>
    subst h
    rw [Option.map_eq_none_iff, List.find?_eq_none]
    simp
  · next h =>
    have hkey : (fun e : UInt32 × Option Response =>
        decide (decide (e.1 ≠ t) = true ∧ decide (e.1 = u) = true)) = fun e => decide (e.1 = u) := by
      funext e
      by_cases he : e.1 = u
      · simp [he, h]
      · simp [he]
    rw [hkey, get?]

/-- `Slots.register` makes one slot, empty if it was not there, and touches no other. -/
theorem get?_register (s : Slots) (t u : UInt32) :
    (s.register t).get? u = if u = t then (s.get? u).or (some none) else s.get? u := by
  rw [register]
  split
  · next h =>
    split
    · next hu => rw [hu, Option.or_of_isSome h]
    · rfl
  · next h =>
    rw [Bool.not_eq_true, Option.isSome_eq_false_iff, Option.isNone_iff_eq_none] at h
    rw [get?, List.find?_append, Option.map_or, ← get?]
    split
    · next hu =>
      subst hu
      simp
    · next hu =>
      have hsingle : List.find? (fun e : UInt32 × Option Response => decide (e.1 = u)) [(t, none)]
          = none := by simp [Ne.symm hu]
      rw [hsingle, Option.map_none, Option.or_none]

@[simp] theorem get?_close (s : Slots) (t : UInt32) : s.close.get? t = s.get? t := rfl

@[simp] theorem get?_ring (s : Slots) (t : UInt32) : s.ring.get? t = s.get? t := rfl

@[simp] theorem closed_forget (s : Slots) (t : UInt32) : (s.forget t).closed = s.closed := rfl

@[simp] theorem rung_forget (s : Slots) (t : UInt32) : (s.forget t).rung = s.rung := rfl

/-- `Slots.register` opens nothing that is closed. -/
@[simp] theorem closed_register (s : Slots) (t : UInt32) : (s.register t).closed = s.closed := by
  rw [register]
  split <;> rfl

/-- `Slots.register` does not ring. -/
@[simp] theorem rung_register (s : Slots) (t : UInt32) : (s.register t).rung = s.rung := by
  rw [register]
  split <;> rfl

/-- `Slots.expect` makes a slot exactly as long as slots are made at all. -/
theorem expect_eq_some_iff {s s' : Slots} {t : UInt32} :
    s.expect t = some s' ↔ s.closed = false ∧ s' = s.register t := by
  rw [expect]
  cases s.closed <;> simp [eq_comm]

/-- `Slots.fill` puts a response into its slot and nowhere else, and only if the slot is there and
empty. -/
theorem fill_eq_some {s s' : Slots} {r : Response} (h : s.fill r = some s') :
    s.get? r.transaction = some none ∧ s'.closed = s.closed ∧ s'.rung = s.rung ∧
      ∀ u, s'.get? u = if u = r.transaction then some (some r) else s.get? u := by
  rw [fill] at h
  split at h
  · next hslot =>
    rw [Option.some.injEq] at h
    subst h
    refine ⟨hslot, rfl, rfl, fun u => ?_⟩
    have hkey : ((fun e : UInt32 × Option Response => decide (e.1 = u)) ∘ fun e =>
        if e.1 = r.transaction then (e.1, some r) else e) = fun e => decide (e.1 = u) := by
      funext e
      simp only [Function.comp_apply]
      split <;> rfl
    rw [get?, List.find?_map, hkey, get?]
    rw [get?, Option.map_eq_some_iff] at hslot
    obtain ⟨e, hfound, he⟩ := hslot
    split
    · next hu =>
      have hkeyed : e.1 = r.transaction := by simpa using List.find?_some hfound
      rw [hu, hfound, Option.map_some, if_pos hkeyed, Option.map_some]
    · next hu =>
      cases hfind : s.entries.find? fun e => decide (e.1 = u) with
      | none => rfl
      | some d =>
        have hd : d.1 = u := by simpa using List.find?_some hfind
        rw [Option.map_some, if_neg (by rw [hd]; exact hu)]
  · cases h

/-- `Slots.fill` refuses a response exactly if there is no empty slot for it. -/
theorem fill_eq_none_iff {s : Slots} {r : Response} :
    s.fill r = none ↔ s.get? r.transaction ≠ some none := by
  rw [fill]
  split
  · next h => simp [h]
  · next h => simpa using h

/-! ## Looking -/

/-- What `Slots.look` finds, and what it leaves: a slot with a response is gone, an empty one is made
again unless slots are closed. -/
inductive Looked (t : UInt32) (s : Slots) : Look × Slots → Prop
  | found {r : Response} : s.get? t = some (some r) → Looked t s (.found r, s.forget t)
  | closed : (∀ r, s.get? t ≠ some (some r)) → s.closed = true → Looked t s (.closed, s.forget t)
  | empty : (∀ r, s.get? t ≠ some (some r)) → s.closed = false →
      Looked t s (.empty, (s.forget t).register t)

/-- Every look is one of `Looked`. -/
theorem looked (t : UInt32) (s : Slots) : Looked t s (s.look t) := by
  rw [look]
  split
  · next r h => exact .found h
  · next h =>
    have hnone : ∀ r, s.get? t ≠ some (some r) := h
    show Looked t s (if s.closed then (.closed, s.forget t) else (.empty, (s.forget t).register t))
    split
    · next hclosed => exact .closed hnone hclosed
    · next hclosed => exact .empty hnone (by simpa using hclosed)

/-- A response in the slot is found by `Slots.look`, also when no slot is made any more. -/
theorem look_of_get? {s : Slots} {t : UInt32} {r : Response} (h : s.get? t = some (some r)) :
    s.look t = (.found r, s.forget t) := by
  rw [look, h]

end Dbgp.Slots
