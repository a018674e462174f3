import Dbgp.Proofs.SlotUse
import Mathlib.Tactic.Choose

/-!
# Responses and calls

A call is an exchange that a task is in. The life of a transaction, seen from one session, goes through
a few standings: it has not been issued; its call has no slot yet; the slot is empty; the first
response is in the slot; the call is over, with that response or without. `Standing` says what each of
them means for the calls, the slot and the history, and `Standing.step` that no move leads out of them.
Everything about which response a call gets is read off the standing at the end of the run.
-/

namespace Dbgp

namespace Client

/-! ## Calls and slots -/

/-- A task on a session is in an exchange (`Phase.exchange?`). -/
def Calling (c : Client) (n k : Nat) (x : Exchange) : Prop :=
  ∃ t, c.task? k = some t ∧ t.session = n ∧ t.phase.exchange? = some x

/-- The slot of a transaction on a session, with what is in it, by `Slots.get?`. -/
def slot? (c : Client) (n : Nat) (u : UInt32) : Option (Option Response) :=
  (c.session? n).bind fun s => s.slots.get? u

/-- A transaction has no call: nobody is `Calling` with it. -/
def Idle (c : Client) (u : UInt32) : Prop :=
  ∀ j k x, c.Calling j k x → x.request.transaction ≠ u

/-- A transaction has exactly one call, which is the `Exchange` of a task. -/
structure Sole (c : Client) (u : UInt32) (j k : Nat) (x : Exchange) : Prop where
  calling : c.Calling j k x
  transaction : x.request.transaction = u
  eq : ∀ j' k' x', c.Calling j' k' x' → x'.request.transaction = u → j' = j ∧ k' = k ∧ x' = x

/-- One task has come to another `Exchange` or to none; the calls of the others are as they were. -/
def Continued (c c' : Client) (j k : Nat) (next : Option Exchange) : Prop :=
  ∀ j' k' x, c'.Calling j' k' x ↔ if k' = k then j' = j ∧ next = some x else c.Calling j' k' x

variable {c c' : Client}

/-- A call that is `Sole` and goes on still is. -/
theorem Sole.next {u : UInt32} {j k : Nat} {x x' : Exchange} (h : c.Sole u j k x)
    (hrequest : x'.request = x.request) (hnext : c.Continued c' j k (some x')) :
    c'.Sole u j k x' := by
  refine ⟨?_, by rw [hrequest, h.transaction], fun j' k' y hy hu => ?_⟩
  · rw [hnext, if_pos rfl]
    exact ⟨rfl, rfl⟩
  · rw [hnext] at hy
    split at hy
    · next hk =>
      obtain ⟨hj, hx⟩ := hy
      cases hx
      exact ⟨hj, hk, rfl⟩
    · next hk => exact absurd (h.eq j' k' y hy hu).2.1 hk

/-- When the only call is over, its transaction is `Idle`. -/
theorem Sole.idle {u : UInt32} {j k : Nat} {x : Exchange} (h : c.Sole u j k x)
    (hnext : c.Continued c' j k none) : c'.Idle u := by
  intro j' k' y hy hu
  rw [hnext] at hy
  split at hy
  · cases hy.2
  · next hk => exact hk (h.eq j' k' y hy hu).2.1

/-! ## Positions in the history -/

/-- No response of a transaction was `delivered` while there was a slot for it. -/
def Unanswered (n : Nat) (u : UInt32) (es : List Happening) : Prop :=
  ∀ r, .delivered n r true ∈ es → r.transaction ≠ u

/-- No call has `obtained` a response as that of a transaction. -/
def Unobtained (n : Nat) (u : UInt32) (es : List Happening) : Prop :=
  ∀ r, .obtained n u r ∉ es

/-- The first response of a transaction that was `delivered` while there was a slot for it. -/
structure First (n : Nat) (u : UInt32) (es : List Happening) (r : Response) (i : Nat) : Prop where
  delivered : es[i]? = some (.delivered n r true)
  transaction : r.transaction = u
  least : ∀ i' r', i' < i → es[i']? = some (.delivered n r' true) → r'.transaction ≠ u

variable {n : Nat} {u : UInt32} {es es' : List Happening} {r : Response} {i : Nat}

/-- `Unanswered` in both parts of a history. -/
theorem Unanswered.append (h : Unanswered n u es) (h' : Unanswered n u es') :
    Unanswered n u (es ++ es') := by
  intro r hr
  rcases List.mem_append.mp hr with hr | hr
  · exact h r hr
  · exact h' r hr

/-- `Unobtained` in both parts of a history. -/
theorem Unobtained.append (h : Unobtained n u es) (h' : Unobtained n u es') :
    Unobtained n u (es ++ es') := by
  intro r hr
  rcases List.mem_append.mp hr with hr | hr
  · exact h r hr
  · exact h' r hr

/-- The `First` response stays the first. -/
theorem First.append (h : First n u es r i) (es' : List Happening) :
    First n u (es ++ es') r i := by
  obtain ⟨hlt, -⟩ := List.getElem?_eq_some_iff.mp h.delivered
  refine ⟨by rw [List.getElem?_append_left hlt, h.delivered], h.transaction, ?_⟩
  intro i' r' hi' hr'
  rw [List.getElem?_append_left (Nat.lt_trans hi' hlt)] at hr'
  exact h.least i' r' hi' hr'

/-- A response that is delivered where all is `Unanswered` is the `First`. -/
theorem Unanswered.first (h : Unanswered n u es) (hr : r.transaction = u) :
    First n u (es ++ [.delivered n r true]) r es.length := by
  refine ⟨by simp, hr, fun i' r' hi' hr' => ?_⟩
  rw [List.getElem?_append_left hi'] at hr'
  exact h r' (List.mem_of_getElem? hr')

/-- There is one `First` response. -/
theorem First.unique {r' : Response} {i' : Nat} (h : First n u es r i) (h' : First n u es r' i') :
    r' = r ∧ i' = i := by
  have hi : i' = i := by
    rcases Nat.lt_trichotomy i' i with hlt | heq | hlt
    · exact absurd h'.transaction (h.least i' r' hlt h'.delivered)
    · exact heq
    · exact absurd h.transaction (h'.least i r hlt h.delivered)
  subst hi
  have hr := h.delivered.symm.trans h'.delivered
  cases hr
  exact ⟨rfl, rfl⟩

/-- A transaction with a `First` response is answered. -/
theorem First.not_unanswered (h : First n u es r i) : ¬Unanswered n u es :=
  fun hnone => hnone r (List.mem_of_getElem? h.delivered) h.transaction

/-! ## The life of a transaction -/

/-- How a transaction stands on a session, by the client and what has happened: a `Happening` each. -/
inductive Standing (n : Nat) (u : UInt32) (c : Client) (es : List Happening) : Prop
  | unissued : .allocated u ∉ es → c.Idle u → c.slot? n u = none → Unanswered n u es →
      Unobtained n u es → Standing n u c es
  /-- Its call has no slot on this session, now or ever before. -/
  | early {j k : Nat} {x : Exchange} : .allocated u ∈ es → c.Sole u j k x →
      ¬(j = n ∧ x.holds = true) → c.slot? n u = none → Unanswered n u es → Unobtained n u es →
      Standing n u c es
  | waiting {k : Nat} {x : Exchange} : .allocated u ∈ es → c.Sole u n k x → x.holds = true →
      c.slot? n u = some none → Unanswered n u es → Unobtained n u es → Standing n u c es
  | answered {k : Nat} {x : Exchange} {r : Response} {i : Nat} : .allocated u ∈ es →
      c.Sole u n k x → x.holds = true → c.slot? n u = some (some r) → First n u es r i →
      Unobtained n u es → Standing n u c es
  | dropped : .allocated u ∈ es → c.Idle u → c.slot? n u = none → Unobtained n u es →
      Standing n u c es
  | obtained {r : Response} {i j : Nat} : .allocated u ∈ es → c.Idle u → c.slot? n u = none →
      First n u es r i → i < j → es[j]? = some (.obtained n u r) →
      (∀ j' r', es[j']? = some (.obtained n u r') → j' = j) → Standing n u c es

/-- `Standing` is kept by a move that has nothing to do with a transaction, and at most brings a
response for which the slot is no longer empty. -/
theorem Standing.untouched (h : Standing n u c es)
    (hcalling : ∀ j k x, x.request.transaction = u → (c'.Calling j k x ↔ c.Calling j k x))
    (hslot : c'.slot? n u = c.slot? n u) (hallocated : .allocated u ∉ es')
    (hdelivered : ∀ r, .delivered n r true ∈ es' → r.transaction = u →
      ∃ r', c.slot? n u = some (some r'))
    (hobtained : Unobtained n u es') : Standing n u c' (es ++ es') := by
  have hidle : c.Idle u → c'.Idle u := fun hc j k x hx hu => hc j k x ((hcalling j k x hu).mp hx) hu
  have hsole : ∀ {j k x}, c.Sole u j k x → c'.Sole u j k x := fun hc =>
    ⟨(hcalling _ _ _ hc.transaction).mpr hc.calling, hc.transaction,
      fun j' k' x' hx' hu => hc.eq j' k' x' ((hcalling j' k' x' hu).mp hx') hu⟩
  have hunanswered : (∀ r', c.slot? n u ≠ some (some r')) → Unanswered n u es' := by
    intro hempty r hr hu
    obtain ⟨r', hr'⟩ := hdelivered r hr hu
    exact hempty r' hr'
  have hmem : .allocated u ∈ es → .allocated u ∈ es ++ es' := List.mem_append_left _
  cases h with
  | unissued hnew hcalls hnone hun hob =>
    refine .unissued ?_ (hidle hcalls) (hslot.trans hnone)
      (hun.append (hunanswered (by simp [hnone]))) (hob.append hobtained)
    rw [List.mem_append, not_or]
    exact ⟨hnew, hallocated⟩
  | early hissued hcall hheld hnone hun hob =>
    exact .early (hmem hissued) (hsole hcall) hheld (hslot.trans hnone)
      (hun.append (hunanswered (by simp [hnone]))) (hob.append hobtained)
  | waiting hissued hcall hheld hempty hun hob =>
    exact .waiting (hmem hissued) (hsole hcall) hheld (hslot.trans hempty)
      (hun.append (hunanswered (by simp [hempty]))) (hob.append hobtained)
  | answered hissued hcall hheld hfull hfirst hob =>
    exact .answered (hmem hissued) (hsole hcall) hheld (hslot.trans hfull) (hfirst.append es')
      (hob.append hobtained)
  | dropped hissued hcalls hnone hob =>
    exact .dropped (hmem hissued) (hidle hcalls) (hslot.trans hnone) (hob.append hobtained)
  | @obtained r i j hissued hcalls hnone hfirst hlt hj hunique =>
    obtain ⟨hjlt, -⟩ := List.getElem?_eq_some_iff.mp hj
    refine .obtained (hmem hissued) (hidle hcalls) (hslot.trans hnone) (hfirst.append es') hlt
      (by rw [List.getElem?_append_left hjlt, hj]) fun j' r' hr' => ?_
    rcases Nat.lt_or_ge j' es.length with hj' | hj'
    · rw [List.getElem?_append_left hj'] at hr'
      exact hunique j' r' hr'
    · rw [List.getElem?_append_right hj'] at hr'
      exact absurd (List.mem_of_getElem? hr') (hobtained r')

/-- `Standing` is kept when a response comes and finds the slot empty. -/
theorem Standing.filled (h : Standing n u c es) (hcalling : ∀ j k x, c'.Calling j k x ↔ c.Calling j k x)
    (hu : r.transaction = u) (hempty : c.slot? n u = some none)
    (hslot : c'.slot? n u = some (some r)) :
    Standing n u c' (es ++ [.delivered n r true]) := by
  -- Only the slot of a call that waits is empty.
  cases h with
  | waiting hissued hcall hheld _ hun hob =>
    have hcall' : c'.Sole u n _ _ :=
      ⟨(hcalling _ _ _).mpr hcall.calling, hcall.transaction,
        fun j' k' x' hx' => hcall.eq j' k' x' ((hcalling j' k' x').mp hx')⟩
    refine .answered (List.mem_append_left _ hissued) hcall' hheld hslot (hun.first hu)
      (hob.append ?_)
    simp [Unobtained]
  | unissued _ _ hslot' | early _ _ _ hslot' | answered _ _ _ hslot' | dropped _ _ hslot'
  | obtained _ _ hslot' => cases hslot'.symm.trans hempty

/-- `Standing` is kept when a call begins. -/
theorem Standing.opened {j k : Nat} {x : Exchange} (h : Standing n u c es)
    (hnext : c.Continued c' j k (some x)) (hu : x.request.transaction = u) (hheld : x.holds = false)
    (hslot : c'.slot? n u = c.slot? n u) (hnew : .allocated u ∉ es) :
    Standing n u c' (es ++ [.allocated u]) := by
  cases h with
  | unissued _ hcalls hnone hun hob =>
    have hsole : c'.Sole u j k x := by
      refine ⟨?_, hu, fun j' k' x' hx' hu' => ?_⟩
      · rw [hnext, if_pos rfl]
        exact ⟨rfl, rfl⟩
      · rw [hnext] at hx'
        split at hx'
        · next hk =>
          obtain ⟨hj, hx⟩ := hx'
          cases hx
          exact ⟨hj, hk, rfl⟩
        · exact absurd hu' (hcalls j' k' x' hx')
    exact .early (by simp) hsole (by simp [hheld]) (hslot.trans hnone)
      (hun.append (by simp [Unanswered])) (hob.append (by simp [Unobtained]))
  | early hissued | waiting hissued | answered hissued | dropped hissued | obtained hissued =>
    exact absurd hissued hnew

/-- `Standing` is kept when the call of a transaction goes on. -/
theorem Standing.ongoing {j k : Nat} {x x' : Exchange} {slots slots' : Slots}
    (h : Standing n u c es) (hcall : c.Calling j k x) (hu : x.request.transaction = u)
    (haction : x.SlotAction slots (.ongoing x') slots') (hnext : c.Continued c' j k (some x'))
    (hslots : c.slot? j u = slots.get? u)
    (hslot : c'.slot? n u = if n = j then slots'.get? u else c.slot? n u) :
    Standing n u c' es := by
  cases h with
  | unissued _ hcalls | dropped _ hcalls | obtained _ hcalls => exact absurd hu (hcalls j k x hcall)
  | @early j₀ k₀ x₀ hissued hsole hheld hnone hun hob =>
    obtain ⟨rfl, rfl, rfl⟩ := hsole.eq j k x hcall hu
    -- On another session the call makes no slot here, however far it gets.
    by_cases hn : n = j
    · subst hn
      rw [if_pos rfl] at hslot
      rw [hnone] at hslots
      have hheld : x.holds = false := by simpa using hheld
      cases haction with
      | passed hrequest _ hholds =>
        exact .early hissued (hsole.next hrequest hnext) (by simp [hholds, hheld])
          (hslot.trans hslots.symm) hun hob
      | booked hrequest _ _ hholds =>
        refine .waiting hissued (hsole.next hrequest hnext) hholds (hslot.trans ?_) hun hob
        rw [Slots.get?_register, if_pos hu.symm, ← hslots]
        rfl
      | parked _ _ hholds => cases hheld.symm.trans hholds
    · rw [if_neg hn] at hslot
      exact .early hissued (hsole.next haction.request_eq hnext) (fun h => hn h.1.symm)
        (hslot.trans hnone) hun hob
  | @waiting k₀ x₀ hissued hsole hheld hempty hun hob =>
    obtain ⟨rfl, rfl, rfl⟩ := hsole.eq j k x hcall hu
    rw [if_pos rfl] at hslot
    rw [hempty] at hslots
    cases haction with
    | passed hrequest _ hholds =>
      exact .waiting hissued (hsole.next hrequest hnext) (hholds.trans hheld)
        (hslot.trans hslots.symm) hun hob
    | booked _ _ hholds => cases hholds.symm.trans hheld
    | parked hrequest _ _ hholds =>
      refine .waiting hissued (hsole.next hrequest hnext) hholds (hslot.trans ?_) hun hob
      rw [Slots.get?_register, if_pos hu.symm, Slots.get?_forget, if_pos hu.symm]
      rfl
  | @answered k₀ x₀ r i hissued hsole hheld hfull hfirst hob =>
    obtain ⟨rfl, rfl, rfl⟩ := hsole.eq j k x hcall hu
    rw [if_pos rfl] at hslot
    rw [hfull] at hslots
    cases haction with
    | passed hrequest _ hholds =>
      exact .answered hissued (hsole.next hrequest hnext) (hholds.trans hheld)
        (hslot.trans hslots.symm) hfirst hob
    | booked _ _ hholds => cases hholds.symm.trans hheld
    | parked _ _ _ _ hnone =>
      -- A response in the slot keeps its call from falling asleep.
      rw [hu] at hnone
      exact absurd hslots.symm (hnone r)

/-- `Standing` is kept when the call of a transaction ends, perhaps with the response in its slot. -/
theorem Standing.finished {j k : Nat} {x : Exchange} {slots slots' : Slots}
    {result : Except Error (Option Response)} (h : Standing n u c es) (hcall : c.Calling j k x)
    (hu : x.request.transaction = u) (haction : x.SlotAction slots (.finished result) slots')
    (hnext : c.Continued c' j k none) (hslots : c.slot? j u = slots.get? u)
    (hslot : c'.slot? n u = if n = j then slots'.get? u else c.slot? n u)
    (hes : es' = [] ∨ ∃ r, es' = [.obtained j u r] ∧ slots.get? u = some (some r)) :
    Standing n u c' (es ++ es') := by
  -- Whatever the slot was, it is gone once its call is over.
  have hgone : n = j → slots.get? u = none ∨ x.holds = true → c'.slot? n u = none := by
    intro hn hfree
    rw [hslot, if_pos hn]
    cases haction with
    | left hheld => exact hfree.resolve_right (by simp [hheld])
    | released => rw [Slots.get?_forget, if_pos hu.symm]
  have hunobtained : (n = j → ∀ r, slots.get? u ≠ some (some r)) → Unobtained n u es' := by
    rintro hempty r hr
    rcases hes with rfl | ⟨r', rfl, hr'⟩
    · cases hr
    · cases List.mem_singleton.mp hr
      exact hempty rfl r hr'
  cases h with
  | unissued _ hcalls | dropped _ hcalls | obtained _ hcalls => exact absurd hu (hcalls j k x hcall)
  | @early j₀ k₀ x₀ hissued hsole hheld hnone hun hob =>
    obtain ⟨rfl, rfl, rfl⟩ := hsole.eq j k x hcall hu
    refine .dropped (List.mem_append_left _ hissued) (hsole.idle hnext) ?_
      (hob.append (hunobtained ?_))
    · by_cases hn : n = j
      · subst hn
        exact hgone rfl (.inl (hslots.symm.trans hnone))
      · rw [hslot, if_neg hn, hnone]
    · rintro rfl r hr
      cases hnone.symm.trans (hslots.trans hr)
  | @waiting k₀ x₀ hissued hsole hheld hempty hun hob =>
    obtain ⟨rfl, rfl, rfl⟩ := hsole.eq j k x hcall hu
    refine .dropped (List.mem_append_left _ hissued) (hsole.idle hnext) (hgone rfl (.inr hheld))
      (hob.append (hunobtained fun _ r hr => ?_))
    cases hempty.symm.trans (hslots.trans hr)
  | @answered k₀ x₀ r i hissued hsole hheld hfull hfirst hob =>
    obtain ⟨rfl, rfl, rfl⟩ := hsole.eq j k x hcall hu
    have hidle := hsole.idle hnext
    have hnone := hgone rfl (.inr hheld)
    rcases hes with rfl | ⟨r', rfl, hr'⟩
    · exact .dropped (List.mem_append_left _ hissued) hidle hnone
        (hob.append (by simp [Unobtained]))
    · cases hfull.symm.trans (hslots.trans hr')
      obtain ⟨hlt, -⟩ := List.getElem?_eq_some_iff.mp hfirst.delivered
      refine .obtained (List.mem_append_left _ hissued) hidle hnone (hfirst.append _) hlt
        (by simp) fun j' r' hj' => ?_
      rcases Nat.lt_trichotomy j' es.length with hlt' | heq | hgt
      · rw [List.getElem?_append_left hlt'] at hj'
        exact absurd (List.mem_of_getElem? hj') (hob r')
      · exact heq
      · rw [List.getElem?_eq_none (by simp; omega)] at hj'
        cases hj'

/-! ## One move -/

/-- The slots of a session that is `Unmoved` are the same. -/
theorem slot?_of_unmoved (h : Unmoved (c.session? n) (c'.session? n)) (u : UInt32) :
    c'.slot? n u = c.slot? n u := by
  rw [slot?, slot?]
  generalize c.session? n = before, c'.session? n = after at h
  cases h with
  | absent => rfl
  | kept hslots => rw [Option.bind_some, Option.bind_some, hslots]
  | opened hslots =>
    rw [Option.bind_some, hslots]
    rfl

/-- `slot?` after a session is replaced. -/
theorem slot?_of_session? {j : Nat} {s : Session}
    (h : ∀ m, c'.session? m = if m = j then some s else c.session? m) (n : Nat) (u : UInt32) :
    c'.slot? n u = if n = j then s.slots.get? u else c.slot? n u := by
  rw [slot?, h]
  split
  · rfl
  · rfl

/-- The same tasks are `Calling` with the same exchanges. -/
theorem calling_of_task? (h : ∀ k, c'.task? k = c.task? k) (j k : Nat) (x : Exchange) :
    c'.Calling j k x ↔ c.Calling j k x := by
  rw [Calling, h, Calling]

/-- Where one task goes on, the calls of the others are `Continued`. -/
theorem continued_of_task? {t : Task} {k : Nat} {f : Option Phase}
    (h : ∀ j, c'.task? j = if j = k then f.map fun phase => { t with phase } else c.task? j) :
    c.Continued c' t.session k (f.bind Phase.exchange?) := by
  intro j' k' x
  rw [Calling, h]
  split
  · cases f with
    | none => simp
    | some phase =>
      constructor
      · rintro ⟨t', ht, rfl, hx⟩
        cases ht
        exact ⟨rfl, hx⟩
      · rintro ⟨rfl, hx⟩
        exact ⟨_, rfl, rfl, hx⟩
  · rfl

/-- All that happens with an action of a receiver is that a response is `delivered`. -/
theorem mem_session_happenings {now : Nat} {s : Session} {e : Happening}
    (h : e ∈ s.happenings now) :
    ∃ r, s.arriving? now = some r ∧ e = .delivered s.id r (s.slots.get? r.transaction).isSome := by
  rw [Session.happenings] at h
  split at h
  · next r hr => exact ⟨r, hr, List.mem_singleton.mp h⟩
  · cases h

/-- An action of a receiver keeps the `Standing` of a transaction. -/
theorem Standing.received {j : Nat} {s s' : Session} (h : Standing n u c es)
    (hs : c.session? j = some s) (hstep : s.receiverStep c.now = some s')
    (htask : ∀ k, c'.task? k = c.task? k)
    (hsession : ∀ m, c'.session? m = if m = j then some s' else c.session? m) :
    Standing n u c' (es ++ s.happenings c.now) := by
  have hcalling := calling_of_task? htask
  have hid := id_of_session? hs
  have hslot' := slot?_of_session? hsession n u
  -- An action that does not fill the slot at most brings a response the slot is not empty for.
  have huntouched : c'.slot? n u = c.slot? n u →
      (∀ r, s.arriving? c.now = some r → n = j → r.transaction = u →
        s.slots.get? u ≠ some none) →
      Standing n u c' (es ++ s.happenings c.now) := by
    intro hslot hfull
    refine h.untouched (fun j k x _ => hcalling j k x) hslot ?_ ?_ ?_
    · intro he
      obtain ⟨r, -, he⟩ := mem_session_happenings he
      cases he
    · intro r he hu
      obtain ⟨r', harriving, he⟩ := mem_session_happenings he
      cases hu
      injection he with hn hr hawaited
      subst hr
      have hn : n = j := hn.trans hid
      subst hn
      obtain ⟨found, hfound⟩ := Option.isSome_iff_exists.mp hawaited.symm
      rw [slot?, hs, Option.bind_some, hfound]
      cases found with
      | none => exact absurd hfound (hfull r harriving rfl rfl)
      | some r' => exact ⟨r', rfl⟩
    · intro r he
      obtain ⟨r, -, he⟩ := mem_session_happenings he
      cases he
  by_cases hn : n = j
  · subst hn
    rw [if_pos rfl] at hslot'
    have hslot : c.slot? n u = s.slots.get? u := by rw [slot?, hs, Option.bind_some]
    cases Session.received hstep with
    | @filled r harriving hfill =>
      obtain ⟨hempty, -, -, hget⟩ := Slots.fill_eq_some hfill
      by_cases hu : r.transaction = u
      · rw [Session.happenings, harriving]
        simp only [hempty, hid, Option.isSome_some]
        refine h.filled hcalling hu (by rw [hslot, ← hu, hempty]) ?_
        rw [hslot', hget, if_pos hu.symm]
      · refine huntouched ?_ fun r' hr' _ hu' => ?_
        · rw [hslot', hget, if_neg (Ne.symm hu), hslot]
        · cases harriving.symm.trans hr'
          exact absurd hu' hu
    | kept hnone hslots =>
      refine huntouched (by rw [hslot', hslots, hslot]) fun r hr _ hu => ?_
      rw [← hu]
      exact Slots.fill_eq_none_iff.mp (hnone r hr)
    | rung hnone hslots | closed hnone hslots =>
      refine huntouched (by rw [hslot', hslots, hslot]; rfl) fun r hr => ?_
      cases hnone.symm.trans hr
  · rw [if_neg hn] at hslot'
    exact huntouched hslot' fun r _ hn' => absurd hn' hn

/-- A call that is `Continued` is none of another transaction's. -/
theorem Continued.calling_iff {j k : Nat} {next : Option Exchange} (h : c.Continued c' j k next)
    (hbefore : ∀ j' x, c.Calling j' k x → x.request.transaction ≠ u)
    (hafter : ∀ x, next = some x → x.request.transaction ≠ u) (j' k' : Nat) (x : Exchange)
    (hu : x.request.transaction = u) : c'.Calling j' k' x ↔ c.Calling j' k' x := by
  rw [h]
  split
  · next hk =>
    subst hk
    exact ⟨fun hx => absurd hu (hafter x hx.2), fun hx => absurd hu (hbefore j' x hx)⟩
  · rfl

/-- A task that is `Calling` is in that exchange. -/
theorem exchange?_of_calling {j k : Nat} {t : Task} {x : Exchange} (hk : c.task? k = some t)
    (h : c.Calling j k x) : t.phase.exchange? = some x := by
  obtain ⟨t', hk', -, hx⟩ := h
  cases hk.symm.trans hk'
  exact hx

/-- `Standing` is kept when the exchange of a task goes on or ends. -/
theorem Standing.exchanged {k : Nat} {t : Task} {x : Exchange} {slots slots' : Slots}
    {q : Progress Exchange (Option Response)} (h : Standing n u c es) (hk : c.task? k = some t)
    (hx : t.phase.exchange? = some x) (haction : x.SlotAction slots q slots')
    (hnext : c.Continued c' t.session k q.ongoing?)
    (hslots : ∀ u, c.slot? t.session u = slots.get? u)
    (hslot : c'.slot? n u = if n = t.session then slots'.get? u else c.slot? n u)
    (hes : es' = [] ∨ ∃ r result, es' = [.obtained t.session x.request.transaction r] ∧
      q = .finished result ∧ slots.get? x.request.transaction = some (some r)) :
    Standing n u c' (es ++ es') := by
  have hcall : c.Calling t.session k x := ⟨t, hk, rfl, hx⟩
  by_cases hu : x.request.transaction = u
  · subst hu
    cases q with
    | ongoing x' =>
      rcases hes with rfl | ⟨r, result, hes, hq, hr⟩
      · rw [List.append_nil]
        exact h.ongoing hcall rfl haction hnext (hslots _) hslot
      · cases hq
    | finished result =>
      refine h.finished hcall rfl haction hnext (hslots _) hslot ?_
      rcases hes with hes | ⟨r, -, hes, -, hr⟩
      · exact .inl hes
      · exact .inr ⟨r, hes, hr⟩
  · refine h.untouched (hnext.calling_iff ?_ ?_) ?_ ?_ ?_ ?_
    · intro j' y hy
      cases hx.symm.trans (exchange?_of_calling hk hy)
      exact hu
    · intro y hy
      cases q with
      | finished _ => cases hy
      | ongoing x' =>
        cases hy
        rw [haction.request_eq]
        exact hu
    · rw [hslot]
      split
      · next hn =>
        subst hn
        rw [hslots, haction.get?_of_ne (Ne.symm hu)]
      · rfl
    · rcases hes with rfl | ⟨r, -, rfl, -⟩ <;> simp
    · rcases hes with rfl | ⟨r, -, rfl, -⟩ <;> simp
    · rcases hes with rfl | ⟨r, -, rfl, -⟩
      · simp [Unobtained]
      · simp [Unobtained, Ne.symm hu]

/-- An action of a task keeps the `Standing` of a transaction. -/
theorem Standing.acted {k : Nat} {t : Task} {s : Session} {p : Progress Phase Reply} {g : Ground}
    (h : Standing n u c es) (hk : c.task? k = some t) (hs : c.session? t.session = some s)
    (hact : t.act c.now ⟨c.nextTransaction, s⟩ = some (p, g))
    (htask : ∀ j, c'.task? j = if j = k then p.ongoing?.map fun phase => { t with phase }
      else c.task? j)
    (hsession : ∀ j, c'.session? j = if j = t.session then some g.session else c.session? j)
    (hsound : t.Sound) (hraw : t.session = n → t.job.isRaw = false)
    (hfresh : .allocated u ∈ t.happenings c.now ⟨c.nextTransaction, s⟩ → .allocated u ∉ es) :
    Standing n u c' (es ++ t.happenings c.now ⟨c.nextTransaction, s⟩) := by
  have hnext := continued_of_task? htask
  have hslot := slot?_of_session? hsession n u
  have hslots : ∀ u, c.slot? t.session u = s.slots.get? u := fun u => by
    rw [slot?, hs, Option.bind_some]
  have hsame : (t.session = n → g.session.slots = s.slots) → c'.slot? n u = c.slot? n u := by
    intro heq
    rw [hslot]
    split
    · next hn => rw [heq hn.symm, hn, hslots]
    · rfl
  have hbefore : t.phase.exchange? = none → ∀ j' x, ¬c.Calling j' k x := by
    intro hx j' x hcall
    cases hx.symm.trans (exchange?_of_calling hk hcall)
  rw [Task.happenings, hact] at hfresh ⊢
  cases Task.callActed hsound hact with
  | apart hx hx' htransaction hslots' =>
    rw [hx'] at hnext
    have hes : t.obtained? c.now s = none := by rw [Task.obtained?, hx, Option.bind_none]
    simp only [htransaction, hes, if_true, Option.toList_none, List.append_nil]
    rw [← List.append_nil es]
    exact h.untouched (hnext.calling_iff (fun j' x hcall => absurd hcall (hbefore hx j' x))
      (by simp)) (hsame fun hn => hslots' (hraw hn)) (by simp) (by simp) (by simp [Unobtained])
  | @opened x hx hx' htransaction henter hcounter hslots' =>
    rw [hx'] at hnext
    have hne : g.transaction ≠ c.nextTransaction := by
      rw [hcounter]
      simp
    have hes : t.obtained? c.now s = none := by rw [Task.obtained?, hx, Option.bind_none]
    simp only [hne, hes, if_false, Option.toList_none, List.append_nil] at hfresh ⊢
    have hheld : x.holds = false := by simp [Exchange.holds, henter]
    simp only at htransaction
    by_cases hu : c.nextTransaction = u
    · subst hu
      exact h.opened hnext htransaction hheld (hsame fun _ => hslots') (hfresh (by simp))
    · refine h.untouched (hnext.calling_iff (fun j' x hcall => absurd hcall (hbefore hx j' x)) ?_)
        (hsame fun _ => hslots') (by simp [Ne.symm hu]) (by simp) (by simp [Unobtained])
      rintro y ⟨⟩
      rw [htransaction]
      exact hu
  | @exchanged x q s' hx hxact hx' htransaction hslots' =>
    rw [hx'] at hnext
    rw [hslots'] at hslot
    obtain ⟨-, haimed⟩ := hsound x hx
    refine h.exchanged hk hx (Exchange.slotActed haimed hxact) hnext hslots hslot ?_
    simp only [htransaction, if_true, List.nil_append, Task.obtained?, hx, Option.bind_some]
    cases hr : x.obtained? c.now s with
    | none => exact .inl rfl
    | some r =>
      obtain ⟨-, hslot, hfinished⟩ := Exchange.obtained?_eq_some haimed hr
      obtain ⟨s'', hfinished⟩ := hfinished t.id
      cases hxact.symm.trans hfinished
      exact .inr ⟨r, _, rfl, rfl, hslot⟩

/-- What `Task.abandon` does to the slots, also if the session should be gone. -/
theorem slots_abandoned {t : Task} (hsession : ∀ j, c'.session? j =
      if j = t.session then (c.session? j).map t.abandon else c.session? j) :
    ∃ slots slots' : Slots, (∀ u, c.slot? t.session u = slots.get? u) ∧
      (∀ n u, c'.slot? n u = if n = t.session then slots'.get? u else c.slot? n u) ∧
      (t.phase.exchange? = none → slots' = slots) ∧
      ∀ x, t.phase.exchange? = some x → x.SlotAction slots (.finished (.ok none)) slots' := by
  cases hs : c.session? t.session with
  | none =>
    -- Without a session there are no slots, and the empty table does for both.
    refine ⟨{}, {}, fun u => by rw [slot?, hs]; rfl, fun n u => ?_, fun _ => rfl, fun x _ => ?_⟩
    · rw [slot?, hsession]
      split
      · next hn =>
        rw [hn, hs]
        rfl
      · rfl
    · cases hheld : x.holds with
      | false => exact .left hheld
      | true => exact .released hheld
  | some s =>
    refine ⟨s.slots, (t.abandon s).slots, fun u => by rw [slot?, hs, Option.bind_some],
      slot?_of_session? fun j => ?_, fun hx => t.slots_abandon_of_none hx s, fun x hx => ?_⟩
    · rw [hsession]
      split
      · next hj => rw [hj, hs, Option.map_some]
      · rfl
    · rw [Task.slots_abandon_of_some hx]
      exact Exchange.slotAction_abandon t.id x s (.ok none)

/-- `Standing` is kept when a task is given up. -/
theorem Standing.abandoned {k : Nat} {t : Task} (h : Standing n u c es) (hk : c.task? k = some t)
    (htask : ∀ j, c'.task? j = if j = k then none else c.task? j)
    (hsession : ∀ j, c'.session? j = if j = t.session then (c.session? j).map t.abandon
      else c.session? j) : Standing n u c' (es ++ []) := by
  have hnext : c.Continued c' t.session k none :=
    continued_of_task? (f := none) htask
  obtain ⟨slots, slots', hslots, hslot, hnone, haction⟩ := slots_abandoned hsession
  cases hx : t.phase.exchange? with
  | some x => exact h.exchanged hk hx (haction x hx) hnext hslots (hslot n u) (.inl rfl)
  | none =>
    refine h.untouched (hnext.calling_iff (fun j' y hy => ?_) (by simp)) ?_ (by simp) (by simp)
      (by simp [Unobtained])
    · cases hx.symm.trans (exchange?_of_calling hk hy)
    · rw [hslot, hnone hx]
      split
      · next hn => rw [hn, hslots]
      · rfl

/-- No move leads out of the standings, by its `Effect`. -/
theorem Standing.step {m : Move} (h : Standing n u c es) (heffect : Effect c m es' c')
    (hsound : ∀ k t, c.task? k = some t → t.Sound)
    (hraw : ∀ k t, c.task? k = some t → t.session = n → t.job.isRaw = false)
    (hfresh : .allocated u ∈ es' → .allocated u ∉ es) : Standing n u c' (es ++ es') := by
  cases heffect with
  | aside _ htask hsession =>
    refine h.untouched (fun j k x _ => ?_) (slot?_of_unmoved (hsession n) u) (by simp) (by simp)
      (by simp [Unobtained])
    rw [Calling, Calling]
    obtain htask | ⟨hnone, session, job, -, htask⟩ := htask k
    · rw [htask]
    · rw [htask, hnone]
      constructor
      · rintro ⟨t, ht, -, hx⟩
        cases ht
        cases hx
      · rintro ⟨t, ht, -⟩
        cases ht
  | received hs hstep _ htask hsession => exact h.received hs hstep htask hsession
  | acted hk hs hact _ htask hsession =>
    exact h.acted hk hs hact htask hsession (hsound _ _ hk) (hraw _ _ hk) hfresh
  | abandoned hk _ htask hsession => exact h.abandoned hk htask hsession

/-! ## Transaction ids -/

/-- The transaction ids that were `allocated`, in order. -/
def allocations (es : List Happening) : List UInt32 :=
  es.filterMap fun
    | .allocated u => some u
    | _ => none

/-- The `allocations` of a history are the ids it allocates. -/
theorem mem_allocations : u ∈ allocations es ↔ .allocated u ∈ es := by
  rw [allocations, List.mem_filterMap]
  constructor
  · rintro ⟨e, he, hu⟩
    cases e with
    | allocated v => cases hu; exact he
    | delivered | obtained => cases hu
  · exact fun h => ⟨_, h, rfl⟩

/-- The `allocations` of a history in two parts. -/
theorem allocations_append (es es' : List Happening) :
    allocations (es ++ es') = allocations es ++ allocations es' :=
  List.filterMap_append

/-- A move issues at most one id, which is `nextTransaction`. -/
theorem Effect.allocations {m : Move} (h : Effect c m es' c')
    (hsound : ∀ k t, c.task? k = some t → t.Sound) :
    Client.allocations es' = [] ∧ c'.nextTransaction = c.nextTransaction ∨
      Client.allocations es' = [c.nextTransaction] ∧
        c'.nextTransaction = c.nextTransaction + 1 := by
  have hnone : ∀ {es}, (∀ u, .allocated u ∉ es) → Client.allocations es = [] := by
    intro es hes
    rw [List.eq_nil_iff_forall_not_mem]
    exact fun u hu => hes u (mem_allocations.mp hu)
  cases h with
  | aside hnext => exact .inl ⟨rfl, hnext⟩
  | received _ _ hnext =>
    refine .inl ⟨hnone fun u hu => ?_, hnext⟩
    obtain ⟨r, -, he⟩ := mem_session_happenings hu
    cases he
  | abandoned _ hnext => exact .inl ⟨rfl, hnext⟩
  | @acted k t s p g _ hk hs hact hnext =>
    rw [Task.happenings, hact, allocations_append, hnext]
    have hobtained : Client.allocations (t.obtained? c.now s).toList = [] := by
      refine hnone fun u hu => ?_
      simp [Task.obtained?, Option.bind_eq_some_iff] at hu
    rw [hobtained, List.append_nil]
    cases Task.callActed (hsound k t hk) hact with
    | apart _ _ htransaction =>
      exact .inl ⟨by rw [if_pos htransaction]; rfl, htransaction⟩
    | exchanged _ _ _ htransaction =>
      exact .inl ⟨by rw [if_pos htransaction]; rfl, htransaction⟩
    | opened _ _ _ _ htransaction =>
      refine .inr ⟨?_, htransaction⟩
      rw [if_neg (by rw [htransaction]; simp)]
      rfl

/-- Ids are issued from one upwards, and `nextTransaction` is the one after the last. -/
theorem allocations_run (ms : List Move) :
    let ids := allocations (history {} ms)
    ids = (List.range ids.length).map (fun i => UInt32.ofNat (i + 1)) ∧
      (run {} ms).nextTransaction = UInt32.ofNat (ids.length + 1) := by
  induction ms using List.reverseRecOn with
  | nil => exact ⟨rfl, rfl⟩
  | append_singleton ms m ih =>
    obtain ⟨hids, hnext⟩ := ih
    rw [history_concat, run_concat, allocations_append]
    rcases (effect (run {} ms) m).allocations fun k t => sound_run with ⟨hnew, hstep⟩ | ⟨hnew, hstep⟩
    · rw [hnew, List.append_nil, hstep]
      exact ⟨hids, hnext⟩
    · rw [hnew, hstep, hnext]
      simp only [List.length_append, List.length_singleton, List.range_succ, List.map_append,
        List.map_singleton]
      refine ⟨by rw [← hids], ?_⟩
      rw [UInt32.ofNat_add (_ + 1)]
      rfl

/-- An id that is `allocated` is new as long as they do not run out. -/
theorem not_mem_allocations {ms : List Move} {m : Move}
    (hfew : (allocations (history {} (ms ++ [m]))).length < UInt32.size)
    (hu : .allocated u ∈ (run {} ms).happenings m) : .allocated u ∉ history {} ms := by
  obtain ⟨hids, hnext⟩ := allocations_run ms
  intro hold
  rw [history_concat, allocations_append, List.length_append] at hfew
  rcases (effect (run {} ms) m).allocations fun k t => sound_run with ⟨hnew, -⟩ | ⟨hnew, -⟩
  · rw [← mem_allocations, hnew] at hu
    cases hu
  · rw [← mem_allocations, hnew, List.mem_singleton] at hu
    rw [← mem_allocations, hids, List.mem_map] at hold
    obtain ⟨i, hi, heq⟩ := hold
    rw [List.mem_range] at hi
    rw [hnew, List.length_singleton] at hfew
    rw [hu, hnext] at heq
    have hnat := congrArg UInt32.toNat heq
    rw [UInt32.toNat_ofNat_of_lt' (show _ < UInt32.size by omega),
      UInt32.toNat_ofNat_of_lt' (show _ < UInt32.size by omega)] at hnat
    omega

/-- Every transaction has a `Standing` after every run. -/
theorem standing_run {ms : List Move} (hcalls : ∀ job, .start n job ∈ ms → job.isRaw = false)
    (hfew : (allocations (history {} ms)).length < UInt32.size) (u : UInt32) :
    Standing n u (run {} ms) (history {} ms) := by
  induction ms using List.reverseRecOn with
  | nil =>
    refine .unissued (by simp [history]) ?_ rfl (by simp [Unanswered, history])
      (by simp [Unobtained, history])
    rintro j k x ⟨t, ht, -⟩
    cases ht
  | append_singleton ms m ih =>
    have hcalls' : ∀ job, .start n job ∈ ms → job.isRaw = false :=
      fun job hjob => hcalls job (List.mem_append_left _ hjob)
    have hfew' := hfew
    rw [history_concat, allocations_append, List.length_append] at hfew'
    rw [run_concat, history_concat]
    exact (ih hcalls' (by omega)).step (effect _ m) (fun k t => sound_run)
      (fun k t => job_of_started (fun job => job.isRaw = false) hcalls') (not_mem_allocations hfew)

/-! ## What a call gets -/

/-- The position of the response that was `obtained` at a position. -/
theorem exists_source {ms : List Move} (hstanding : ∀ u, Standing n u (run {} ms) (history {} ms))
    (j : Nat) : ∃ i, ∀ t r, (history {} ms)[j]? = some (.obtained n t r) →
      i < j ∧ First n t (history {} ms) r i ∧
        ∀ j' r', (history {} ms)[j']? = some (.obtained n t r') → j' = j := by
  by_cases h : ∃ t r, (history {} ms)[j]? = some (.obtained n t r)
  · obtain ⟨t, r, hj⟩ := h
    have hmem := List.mem_of_getElem? hj
    cases hstanding t with
    | unissued _ _ _ _ hnone | early _ _ _ _ _ hnone | waiting _ _ _ _ _ hnone
    | answered _ _ _ _ _ hnone | dropped _ _ _ hnone => exact absurd hmem (hnone r)
    | @obtained r₀ i j₀ _ _ _ hfirst hlt hj₀ hunique =>
      obtain rfl := hunique j r hj
      refine ⟨i, fun t' r' hj' => ?_⟩
      cases hj₀.symm.trans hj
      cases hj.symm.trans hj'
      exact ⟨hlt, hfirst, hunique⟩
  · exact ⟨0, fun t r hj => absurd ⟨t, r, hj⟩ h⟩

/-- A response in its slot is the `First` that came while there was one. -/
theorem Standing.first_of_slot? (h : Standing n u c es) (hslot : c.slot? n u = some (some r)) :
    .allocated u ∈ es ∧ ∃ i, First n u es r i := by
  cases h with
  | unissued _ _ hslot' | early _ _ _ hslot' | waiting _ _ _ hslot' | dropped _ _ hslot'
  | obtained _ _ hslot' => cases hslot'.symm.trans hslot
  | answered hissued _ _ hslot' hfirst =>
    cases hslot'.symm.trans hslot
    exact ⟨hissued, _, hfirst⟩

/-- While a call goes on, the `First` response that came for it is in its slot. -/
theorem Standing.slot?_of_first {k : Nat} {x : Exchange} (h : Standing n u c es)
    (hcall : c.Calling n k x) (hu : x.request.transaction = u) (hfirst : First n u es r i) :
    c.slot? n u = some (some r) := by
  cases h with
  | unissued _ hidle | dropped _ hidle | obtained _ hidle => exact absurd hu (hidle n k x hcall)
  | early _ _ _ _ hnone | waiting _ _ _ _ hnone => exact absurd hnone hfirst.not_unanswered
  | answered _ _ _ hslot hfirst' =>
    obtain ⟨rfl, -⟩ := hfirst.unique hfirst'
    exact hslot

/-- A call that `holds` its slot has it, by its `Standing`. -/
theorem Standing.isSome_slot? {k : Nat} {x : Exchange} (h : Standing n u c es)
    (hcall : c.Calling n k x) (hu : x.request.transaction = u) (hheld : x.holds = true) :
    c.slot? n u = some none ∨ ∃ r, c.slot? n u = some (some r) := by
  cases h with
  | unissued _ hidle | dropped _ hidle | obtained _ hidle => exact absurd hu (hidle n k x hcall)
  | early _ hsole hfree =>
    obtain ⟨rfl, rfl, rfl⟩ := hsole.eq n k x hcall hu
    exact absurd ⟨rfl, hheld⟩ hfree
  | waiting _ _ _ hslot => exact .inl hslot
  | answered _ _ _ hslot => exact .inr ⟨_, hslot⟩

/-- A call that takes a response from its slot is recorded as `obtained`. -/
theorem happenings_of_obtained? {k : Nat} {x : Exchange} {s : Session}
    (hsound : ∀ k t, c.task? k = some t → t.Sound) (hcall : c.Calling n k x)
    (hs : c.session? n = some s) (hr : x.obtained? c.now s = some r) :
    c.happenings (.task k) = [.obtained n x.request.transaction r] := by
  obtain ⟨t, hk, rfl, hx⟩ := hcall
  obtain ⟨-, haimed⟩ := hsound k t hk x hx
  obtain ⟨-, -, hfinished⟩ := Exchange.obtained?_eq_some haimed hr
  obtain ⟨s', hfinished⟩ := hfinished t.id
  obtain ⟨p, s'', hact⟩ :=
    (hsound k t hk).act_of_finished (g := ⟨c.nextTransaction, s⟩) hx hfinished
  simp [happenings, hk, hs, Task.happenings, hact, Task.obtained?, hx, hr]

/-- In every run of calls on a session, in any order and with whatever comes from the engine, in which
the ids do not run out:

* a call that gets a response gets the first one of its transaction that came while it had a slot;
* no response is given to two calls, and no call gets two;
* a response in its slot stays there as long as the call goes on, also when the connection ends;
* a call that looks at its slot then gets that response, and what a call gets is in the history. -/
theorem calls_get_first_response (n : Nat) (ms : List Move)
    (hcalls : ∀ job, .start n job ∈ ms → job.isRaw = false)
    (hfew : (allocations (history {} ms)).length < UInt32.size) :
    (∃ source : Nat → Nat, ∀ j t r, (history {} ms)[j]? = some (.obtained n t r) →
      source j < j ∧ First n t (history {} ms) r (source j) ∧
        ∀ j' t' r', (history {} ms)[j']? = some (.obtained n t' r') →
          t' = t ∨ source j' = source j → j' = j) ∧
    (∀ ms₁ ms₂ t r k x, ms = ms₁ ++ ms₂ → (run {} ms₁).slot? n t = some (some r) →
      (run {} ms).Calling n k x → x.request.transaction = t →
      (run {} ms).slot? n t = some (some r)) ∧
    ∀ k x s, (run {} ms).Calling n k x → (run {} ms).session? n = some s →
      (∀ w heard r, x.phase = .await w → w.step = .look heard →
        s.slots.get? x.request.transaction = some (some r) →
        ∃ s', x.act k (run {} ms).now s = some (.finished (some <$> r.check), s')) ∧
      ∀ r s', x.act k (run {} ms).now s = some (.finished (.ok (some r)), s') →
        (run {} ms).happenings (.task k) = [.obtained n x.request.transaction r] := by
  have hstanding := standing_run hcalls hfew
  refine ⟨?_, ?_, fun k x s hcall hs => ⟨?_, ?_⟩⟩
  · choose source hsource using exists_source hstanding
    refine ⟨source, fun j t r hj => ?_⟩
    obtain ⟨hlt, hfirst, hunique⟩ := hsource j t r hj
    refine ⟨hlt, hfirst, fun j' t' r' hj' heq => ?_⟩
    have ht : t' = t := by
      rcases heq with heq | heq
      · exact heq
      · -- One delivery is of one transaction.
        obtain ⟨-, hfirst', -⟩ := hsource j' t' r' hj'
        have hdelivered := hfirst'.delivered
        rw [heq] at hdelivered
        cases hfirst.delivered.symm.trans hdelivered
        exact hfirst'.transaction.symm.trans hfirst.transaction
    subst ht
    exact hunique j' r' hj'
  · rintro ms₁ ms₂ t r k x rfl hslot hcall hu
    have hfew₁ := hfew
    rw [history_append, allocations_append, List.length_append] at hfew₁
    obtain ⟨-, i, hfirst⟩ :=
      (standing_run (fun job hjob => hcalls job (List.mem_append_left _ hjob)) (by omega)
        t).first_of_slot? hslot
    refine (hstanding t).slot?_of_first (i := i) hcall hu ?_
    rw [history_append]
    exact hfirst.append _
  · intro w heard r hphase hstep hslot
    obtain ⟨t, hk, -, hx⟩ := hcall
    obtain ⟨-, haimed⟩ := sound_run hk x hx
    rw [← (haimed.await w hphase).2] at hslot
    obtain ⟨-, -, hfinished⟩ :=
      Exchange.obtained?_eq_some haimed (Exchange.obtained?_of_look hphase hstep hslot)
    exact hfinished k
  · intro r s' hact
    exact happenings_of_obtained? (fun k t => sound_run) hcall hs (Exchange.obtained?_of_act hact)

/-- A run of two calls whose responses come in the other order, one of them twice and after one that
nobody asked for; the connection has ended before the calls take them by `Slots.look`. -/
def crossed : List Move :=
  [Move.attach {}, .start 1 (.command .status), .start 1 (.command .stackDepth)] ++
    List.replicate 7 (Move.task 1) ++ List.replicate 7 (Move.task 2) ++
    ["<response transaction_id=\"7\"/>", "<response transaction_id=\"2\" command=\"first\"/>",
      "<response transaction_id=\"2\" command=\"second\"/>",
      "<response transaction_id=\"1\"/>"].map (fun p => Move.arrive 1 (.bytes (Frame.encode p))) ++
    [Move.arrive 1 .ending] ++ List.replicate 24 (Move.receiver 1) ++
    [Move.task 1, .task 2, .task 2, .task 1]

/-- Whether a call has `obtained` a response that names a command. -/
def obtains (n : Nat) (u : UInt32) (command : String) : Happening → Bool
  | .obtained n' u' r => n' = n ∧ u' = u ∧ r.command = command
  | _ => false

/-- `obtains` decides what was obtained. -/
theorem eq_of_obtains {command : String} {e : Happening} (h : obtains n u command e = true) :
    ∃ r, e = .obtained n u r ∧ r.command = command := by
  cases e with
  | obtained n' u' r =>
    obtain ⟨rfl, rfl, hcommand⟩ := of_decide_eq_true h
    exact ⟨r, rfl, hcommand⟩
  | allocated | delivered => cases h

/-- In the run `crossed` the second call obtains the first of the two responses that came for it. -/
theorem calls_get_first_response_crossed :
    (∀ job, .start 1 job ∈ crossed → job.isRaw = false) ∧
      (allocations (history {} crossed)).length < UInt32.size ∧
      ∃ i r, i < 6 ∧ (history {} crossed)[6]? = some (.obtained 1 2 r) ∧ r.command = "first" ∧
        First 1 2 (history {} crossed) r i := by
  have hcalls : ∀ job, .start 1 job ∈ crossed → job.isRaw = false := by simp [crossed, Job.isRaw]
  have heval : (allocations (history {} crossed)).length < UInt32.size ∧
      (history {} crossed)[6]?.any (obtains 1 2 "first") = true := by decide +kernel
  obtain ⟨hfew, hsixth⟩ := heval
  refine ⟨hcalls, hfew, ?_⟩
  obtain ⟨⟨source, hsource⟩, -⟩ := calls_get_first_response 1 crossed hcalls hfew
  rw [Option.any_eq_true] at hsixth
  obtain ⟨e, he, hobtained⟩ := hsixth
  obtain ⟨r, rfl, hcommand⟩ := eq_of_obtains hobtained
  obtain ⟨hlt, hfirst, -⟩ := hsource 6 2 r he
  exact ⟨source 6, r, hlt, he, hcommand, hfirst⟩

end Client

end Dbgp
