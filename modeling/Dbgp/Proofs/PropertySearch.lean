import Dbgp.Proofs.PropertyTree

/-!
# Search in a property

A search by full name stops at the first property that has it. `Property.preorder` lists the nodes of a
property in the order of the document, and the search is the search in that list
(`Property.find?_eq_find?_preorder`). Full names need not be unique: of several nodes with one name, on
whatever branches they are, the search gives the one that is listed first.
-/

namespace Dbgp.Property

mutual

/-- The nodes of a property in the order of the document: a node before its children. -/
def preorder : Property → List Property
  | p@⟨_, _, _, _, _, _, _, _, _, _, _, _, _, children⟩ => p :: preorderIn children

/-- The nodes of some properties, one property after the other. -/
def preorderIn : List Property → List Property
  | [] => []
  | p :: ps => preorder p ++ preorderIn ps

end

/-- `preorderIn` lists the properties one after the other. -/
theorem preorderIn_eq_flatMap (ps : List Property) : preorderIn ps = ps.flatMap preorder := by
  induction ps with
  | nil => rw [preorderIn, List.flatMap_nil]
  | cons p ps ih => rw [preorderIn, ih, List.flatMap_cons]

/-- One step of `preorder`: the node, and then what is below it. -/
theorem preorder_eq (p : Property) : p.preorder = p :: p.children.flatMap preorder := by
  obtain ⟨⟩ := p
  rw [preorder, preorderIn_eq_flatMap]

/-- `findIn?` in a list of trees, if it is search in the listing of each of them. -/
theorem findIn?_eq_find?_preorderIn {n : String} {ps : List Property}
    (h : ∀ p ∈ ps, p.find? n = p.preorder.find? fun q => q.fullname = some n) :
    findIn? n ps = (preorderIn ps).find? fun q => q.fullname = some n := by
  induction ps with
  | nil => rw [findIn?, preorderIn, List.find?_nil]
  | cons p ps ih =>
    rw [List.forall_mem_cons] at h
    rw [findIn?, preorderIn, List.find?_append, ← h.1, ih h.2]
    cases find? n p <;> rfl

/-- `Property.find?`, which stops early, branch by branch, is search in the list of all nodes. -/
theorem find?_eq_find?_preorder (n : String) (p : Property) :
    p.find? n = p.preorder.find? fun q => q.fullname = some n := by
  induction p using Property.induction with
  | h p ih =>
    obtain ⟨_, own, _, _, _, _, _, _, _, _, _, _, _, children⟩ := p
    rw [find?, preorder, List.find?_cons, findIn?_eq_find?_preorderIn ih]
    by_cases hown : own = some n <;> simp [hown]

/-- `preorder` holds the property and everything below it, at any depth, and nothing else. -/
theorem mem_preorder_iff {p q : Property} : q ∈ p.preorder ↔ p.Node q := by
  induction p using Property.induction with
  | h p ih =>
    rw [preorder_eq, List.mem_cons, List.mem_flatMap]
    constructor
    · rintro (rfl | ⟨c, hc, hq⟩)
      · exact .self q
      · exact .down hc ((ih c hc).mp hq)
    · intro h
      cases h with
      | self => exact .inl rfl
      | down hc hq => exact .inr ⟨_, hc, (ih _ hc).mpr hq⟩

/-- A search gives the first node, in the order of the document, that has the full name, and gives
none exactly if no node at any depth has it. -/
theorem find?_gives_first (p : Property) (n : String) :
    (∀ q, p.find? n = some q ↔ ∃ before after, p.preorder = before ++ q :: after ∧
      q.fullname = some n ∧ ∀ r ∈ before, r.fullname ≠ some n) ∧
    (p.find? n = none ↔ ∀ q, p.Node q → q.fullname ≠ some n) := by
  rw [find?_eq_find?_preorder]
  constructor
  · intro q
    rw [List.find?_eq_some_iff_append]
    simp only [decide_eq_true_eq, Bool.not_eq_true', decide_eq_false_iff_not]
    constructor
    · rintro ⟨hq, before, after, hsplit, hbefore⟩
      exact ⟨before, after, hsplit, hq, hbefore⟩
    · rintro ⟨before, after, hsplit, hq, hbefore⟩
      exact ⟨hq, before, after, hsplit, hbefore⟩
  · simp only [List.find?_eq_none, decide_eq_true_eq, mem_preorder_iff, ne_eq]

/-- A node two levels down on the first branch stands before one right below the root. -/
example :
    let node (name : String) (fullname : Option String) (children : List Property) : Property :=
      { (default : Property) with name, fullname, children }
    ((node "root" none
      [node "a" (some "m") [node "deep" (some "n") []], node "near" (some "n") []]).find? "n").map
        (·.name) = some "deep" := by
  decide +kernel

end Dbgp.Property
