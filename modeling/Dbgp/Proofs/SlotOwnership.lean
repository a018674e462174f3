import Dbgp.Proofs.Correlation
import Dbgp.Proofs.Scheduling
import Mathlib.Data.List.Nodup

/-!
# Who owns the slots

A slot is there for the sake of a call: it is made when the call expects its response and is gone when
the call is over, however it ends. `Owned` says so of a client, with the slots of a session on one side
and the calls that hold one on the other, and `Owned.step` that every move keeps it so.

Nothing here rests on where transaction ids come from. `runAs` lets somebody else choose the id of each
request, and all that is asked of the choice is that no id is used twice on the session.
-/

namespace Dbgp

/-! ## Transactions with a slot -/

namespace Slots

/-- The transactions that have a slot, in the order of `entries`. -/
def transactions (s : Slots) : List UInt32 :=
  s.entries.map (·.1)

/-- The `transactions` of slots, by `Slots.get?`. -/
theorem mem_transactions {s : Slots} {u : UInt32} :
    u ∈ s.transactions ↔ (s.get? u).isSome = true := by
  rw [transactions, get?, Option.isSome_map, List.find?_isSome, List.mem_map]
  simp

/-- `Slots.forget` makes no second slot. -/
theorem nodup_forget {s : Slots} (h : s.transactions.Nodup) (t : UInt32) :
    (s.forget t).transactions.Nodup :=
  h.sublist (List.filter_sublist.map _)

/-- `Slots.register` makes no second slot. -/
theorem nodup_register {s : Slots} (h : s.transactions.Nodup) (t : UInt32) :
    (s.register t).transactions.Nodup := by
  rw [register]
  split
  · exact h
  · next hnone =>
    rw [← mem_transactions] at hnone
    rw [transactions, List.map_append, List.map_singleton]
    exact List.nodup_append_comm.mp (List.nodup_cons.mpr ⟨hnone, h⟩)

/-- `Slots.fill` makes no slot and gives none up. -/
theorem transactions_fill {s s' : Slots} {r : Response} (h : s.fill r = some s') :
    s'.transactions = s.transactions := by
  rw [fill] at h
  split at h
  · cases h
    rw [transactions, List.map_map, transactions]
    refine List.map_congr_left fun e _ => ?_
    simp only [Function.comp_apply]
    split <;> rfl
  · cases h

end Slots

/-- No `SlotAction` makes a second slot for a transaction. -/
theorem Exchange.SlotAction.nodup {x : Exchange} {s s' : Slots}
    {p : Progress Exchange (Option Response)} (h : x.SlotAction s p s')
    (hs : s.transactions.Nodup) : s'.transactions.Nodup := by
  cases h with
  | passed | left => exact hs
  | booked => exact Slots.nodup_register hs _
  | parked => exact Slots.nodup_register (Slots.nodup_forget hs _) _
  | released => exact Slots.nodup_forget hs _

/-- The slot of an exchange is there after a `SlotAction` if the exchange still `holds` one. -/
theorem Exchange.SlotAction.isSome_get? {x : Exchange} {s s' : Slots}
    {p : Progress Exchange (Option Response)} (h : x.SlotAction s p s')
    (hs : (s.get? x.request.transaction).isSome = x.holds) :
    (s'.get? x.request.transaction).isSome = p.ongoing?.any Exchange.holds := by
  cases h with
  | passed _ _ hholds => exact hs.trans hholds.symm
  | booked _ _ _ hholds => simp [Slots.get?_register, Progress.ongoing?, hholds]
  | parked _ _ _ hholds => simp [Slots.get?_register, Progress.ongoing?, hholds]
  | left hholds => exact hs.trans hholds
  | released => simp [Slots.get?_forget, Progress.ongoing?]

namespace Client

/-! ## Requests with any id -/

/-- The client after a `Move` in which a request, if one is made, gets a given id. -/
def stepAs (c : Client) (m : UInt32 × Move) : Client :=
  step { c with nextTransaction := m.1 } m.2

/-- The client after some moves by `stepAs`, each with the id of the request made by it. -/
def runAs (c : Client) (moves : List (UInt32 × Move)) : Client :=
  moves.foldl stepAs c

/-- The ids that are `allocated` to requests by a move on a session. -/
def issuing (n : Nat) (c : Client) : Move → List UInt32
  | .task k =>
    match c.task? k with
    | some t => if t.session = n then allocations (c.happenings (.task k)) else []
    | none => []
  | _ => []

/-- The ids of the requests made on a session in a run, in order, by `issuing`. -/
def issued (n : Nat) (c : Client) : List (UInt32 × Move) → List UInt32
  | [] => []
  | m :: ms => issuing n { c with nextTransaction := m.1 } m.2 ++ issued n (c.stepAs m) ms

/-- The last move of `runAs` is one `stepAs`. -/
theorem runAs_concat (c : Client) (ms : List (UInt32 × Move)) (m : UInt32 × Move) :
    c.runAs (ms ++ [m]) = (c.runAs ms).stepAs m := by
  rw [runAs, List.foldl_append, runAs]
  rfl

/-- The last move of a run adds to `issued` what it issues. -/
theorem issued_concat (n : Nat) (c : Client) (ms : List (UInt32 × Move)) (m : UInt32 × Move) :
    c.issued n (ms ++ [m]) =
      c.issued n ms ++ issuing n { c.runAs ms with nextTransaction := m.1 } m.2 := by
  induction ms generalizing c with
  | nil => exact List.append_nil _
  | cons m' ms ih =>
    rw [List.cons_append, issued, ih, issued, List.append_assoc]
    rfl

/-- Ids that are counted up are one way to choose them: a `run` is a `runAs`. -/
theorem exists_run_eq_runAs (c : Client) (ms : List Move) :
    ∃ ms', ms'.map Prod.snd = ms ∧ c.run ms = c.runAs ms' := by
  induction ms generalizing c with
  | nil => exact ⟨[], rfl, rfl⟩
  | cons m ms ih =>
    obtain ⟨ms', hms, hrun⟩ := ih (c.step m)
    exact ⟨(c.nextTransaction, m) :: ms', by rw [List.map_cons, hms], hrun⟩

/-! ## Calls that hold a slot -/

/-- The id of the call a task is in, if the call `holds` a slot on a session. -/
def heldBy? (n : Nat) (t : Task) : Option UInt32 :=
  if t.session = n then
    (t.phase.exchange?.filter Exchange.holds).map fun x => x.request.transaction
  else none

/-- The ids of the calls on a session that hold a slot, by `heldBy?`. -/
def holders (n : Nat) (c : Client) : List UInt32 :=
  c.tasks.filterMap (heldBy? n)

/-- A call on a session `holds` the slot of a transaction. -/
def Holding (c : Client) (n : Nat) (u : UInt32) : Prop :=
  ∃ k x, c.Calling n k x ∧ x.holds = true ∧ x.request.transaction = u

/-- When `heldBy?` finds a task to hold the slot of a transaction on a session. -/
theorem heldBy?_eq_some {n : Nat} {t : Task} {u : UInt32} :
    heldBy? n t = some u ↔ t.session = n ∧ ∃ x, t.phase.exchange? = some x ∧ x.holds = true ∧
      x.request.transaction = u := by
  rw [heldBy?]
  split
  · next hn => simp [hn, Option.map_eq_some_iff, Option.filter_eq_some_iff, and_assoc]
  · next hn => simp [hn]

variable {n : Nat} {c c' : Client} {ids : List UInt32}

/-- The `holders` are those who hold a slot, as numbers differ. -/
theorem mem_holders (hc : c.Distinct) {u : UInt32} : u ∈ c.holders n ↔ c.Holding n u := by
  rw [holders, List.mem_filterMap]
  constructor
  · rintro ⟨t, ht, hu⟩
    obtain ⟨hn, x, hx, hholds, hu⟩ := heldBy?_eq_some.mp hu
    exact ⟨t.id, x, ⟨t, find?_of_nodup hc.tasks.nodup ht, hn, hx⟩, hholds, hu⟩
  · rintro ⟨k, x, ⟨t, ht, hn, hx⟩, hholds, hu⟩
    exact ⟨t, List.mem_of_find?_eq_some ht, heldBy?_eq_some.mpr ⟨hn, x, hx, hholds, hu⟩⟩

/-- The slots of a session are those of its `holders`, and the calls have ids of their own, out of
those that were issued. -/
structure Owned (n : Nat) (c : Client) (ids : List UInt32) : Prop where
  issued : ∀ k x, c.Calling n k x → x.request.transaction ∈ ids
  sole : ∀ k k' x x', c.Calling n k x → c.Calling n k' x' →
    x.request.transaction = x'.request.transaction → k = k'
  slot_iff : ∀ u, (c.slot? n u).isSome = true ↔ c.Holding n u
  nodup : ∀ s, c.session? n = some s → s.slots.transactions.Nodup

/-- A new client owns nothing, so `Owned` holds. -/
theorem owned_new (n : Nat) : Owned n {} [] := by
  have hcalling : ∀ k x, ¬Calling {} n k x := by
    rintro k x ⟨t, ht, -⟩
    cases ht
  constructor
  case issued => exact fun k x hx => absurd hx (hcalling k x)
  case sole => exact fun k k' x x' hx => absurd hx (hcalling k x)
  case slot_iff =>
    refine fun u => iff_of_false (by simp [slot?, session?]) ?_
    rintro ⟨k, x, hx, -⟩
    exact hcalling k x hx
  case nodup =>
    intro s hs
    cases hs

/-- `Owned` allows for more ids to have been issued. -/
theorem Owned.mono {ids' : List UInt32} (h : c.Owned n ids) (hids : ids ⊆ ids') :
    c.Owned n ids' :=
  { h with issued := fun k x hx => hids (h.issued k x hx) }

/-- A call has its slot exactly if it `holds` one. -/
theorem Owned.isSome_slot? {k : Nat} {x : Exchange} (h : c.Owned n ids) (hx : c.Calling n k x) :
    (c.slot? n x.request.transaction).isSome = x.holds := by
  rw [Bool.eq_iff_iff, h.slot_iff]
  constructor
  · rintro ⟨k', x', hx', hholds, hu⟩
    obtain rfl := h.sole k' k x' x hx' hx hu
    obtain ⟨t, ht, -, hphase⟩ := hx
    cases hphase.symm.trans (exchange?_of_calling ht hx')
    exact hholds
  · exact fun hholds => ⟨k, x, hx, hholds, rfl⟩

/-- Each of the `holders` has an id of its own. -/
theorem Owned.nodup_holders (h : c.Owned n ids) (hc : c.Distinct) : (c.holders n).Nodup := by
  have hids : c.tasks.Pairwise fun t t' => t.id ≠ t'.id := List.pairwise_map.mp hc.tasks.nodup
  rw [holders, List.Nodup, List.pairwise_filterMap]
  refine hids.imp_of_mem fun {t t'} ht ht' hne u hu u' hu' heq => hne ?_
  obtain ⟨hn, x, hx, -, hxu⟩ := heldBy?_eq_some.mp hu
  obtain ⟨hn', x', hx', -, hxu'⟩ := heldBy?_eq_some.mp hu'
  exact h.sole t.id t'.id x x' ⟨t, find?_of_nodup hc.tasks.nodup ht, hn, hx⟩
    ⟨t', find?_of_nodup hc.tasks.nodup ht', hn', hx'⟩ (by rw [hxu, hxu', heq])

/-- The slots of a session are those of its `holders`. -/
theorem Owned.perm_holders (h : c.Owned n ids) (hc : c.Distinct) {s : Session}
    (hs : c.session? n = some s) : s.slots.transactions.Perm (c.holders n) := by
  rw [List.perm_ext_iff_of_nodup (h.nodup s hs) (h.nodup_holders hc)]
  intro u
  rw [Slots.mem_transactions, mem_holders hc, ← h.slot_iff, slot?, hs, Option.bind_some]

/-! ## One move -/

/-- `Owned` is kept by a move that leaves the calls on a session as they are, and makes and gives up
no slots. -/
theorem Owned.untouched (h : c.Owned n ids) (hcalling : ∀ k x, c'.Calling n k x ↔ c.Calling n k x)
    (hslot : ∀ u, (c'.slot? n u).isSome = (c.slot? n u).isSome)
    (hnodup : ∀ s, c'.session? n = some s → s.slots.transactions.Nodup) : c'.Owned n ids := by
  constructor
  case issued => exact fun k x hx => h.issued k x ((hcalling k x).mp hx)
  case sole =>
    exact fun k k' x x' hx hx' => h.sole k k' x x' ((hcalling k x).mp hx) ((hcalling k' x').mp hx')
  case slot_iff =>
    intro u
    rw [hslot, h.slot_iff, Holding, Holding]
    simp only [hcalling]
  case nodup => exact hnodup

/-- `Owned` is kept when a call begins, with an id that no other has had. -/
theorem Owned.opened {k : Nat} {x : Exchange} (h : c.Owned n ids)
    (hnext : c.Continued c' n k (some x)) (hbefore : ∀ y, ¬c.Calling n k y)
    (hheld : x.holds = false) (hnew : x.request.transaction ∉ ids)
    (hslot : ∀ u, c'.slot? n u = c.slot? n u)
    (hnodup : ∀ s, c'.session? n = some s → s.slots.transactions.Nodup) :
    c'.Owned n (ids ++ [x.request.transaction]) := by
  have hcalling : ∀ k' y, c'.Calling n k' y ↔ k' = k ∧ y = x ∨ k' ≠ k ∧ c.Calling n k' y := by
    intro k' y
    rw [hnext]
    by_cases hk : k' = k
    · simp [hk, eq_comm]
    · simp [hk]
  have hother : ∀ k' y, c.Calling n k' y → y.request.transaction ≠ x.request.transaction :=
    fun k' y hy heq => hnew (heq ▸ h.issued k' y hy)
  constructor
  case issued =>
    intro k' y hy
    obtain ⟨-, rfl⟩ | ⟨-, hy⟩ := (hcalling k' y).mp hy
    · exact List.mem_append_right _ (List.mem_singleton_self _)
    · exact List.mem_append_left _ (h.issued k' y hy)
  case sole =>
    intro k₁ k₂ y₁ y₂ hy₁ hy₂ heq
    obtain ⟨rfl, rfl⟩ | ⟨-, hy₁⟩ := (hcalling k₁ y₁).mp hy₁
    · obtain ⟨rfl, -⟩ | ⟨-, hy₂⟩ := (hcalling k₂ y₂).mp hy₂
      · rfl
      · exact absurd heq.symm (hother k₂ y₂ hy₂)
    · obtain ⟨-, rfl⟩ | ⟨-, hy₂⟩ := (hcalling k₂ y₂).mp hy₂
      · exact absurd heq (hother k₁ y₁ hy₁)
      · exact h.sole k₁ k₂ y₁ y₂ hy₁ hy₂ heq
  case slot_iff =>
    intro u
    rw [hslot, h.slot_iff]
    constructor
    · rintro ⟨k', y, hy, hholds, hu⟩
      have hk : k' ≠ k := by
        rintro rfl
        exact hbefore y hy
      exact ⟨k', y, (hcalling k' y).mpr (.inr ⟨hk, hy⟩), hholds, hu⟩
    · rintro ⟨k', y, hy, hholds, hu⟩
      obtain ⟨-, rfl⟩ | ⟨-, hy⟩ := (hcalling k' y).mp hy
      · cases hheld.symm.trans hholds
      · exact ⟨k', y, hy, hholds, hu⟩
  case nodup => exact hnodup

/-- `Owned` is kept when a call goes on or ends. -/
theorem Owned.exchanged {k : Nat} {x : Exchange} {slots slots' : Slots}
    {q : Progress Exchange (Option Response)} (h : c.Owned n ids) (hx : c.Calling n k x)
    (haction : x.SlotAction slots q slots') (hnext : c.Continued c' n k q.ongoing?)
    (hslots : ∀ u, c.slot? n u = slots.get? u) (hslot : ∀ u, c'.slot? n u = slots'.get? u)
    (hnodup : ∀ s, c'.session? n = some s → s.slots.transactions.Nodup) : c'.Owned n ids := by
  have hrequest : ∀ y, q.ongoing? = some y → y.request = x.request := by
    intro y hy
    cases q with
    | finished _ => cases hy
    | ongoing x' =>
      cases hy
      exact haction.request_eq
  have hcalling : ∀ j y, c.Calling j k y → y = x := by
    intro j y hy
    obtain ⟨t, ht, -, hphase⟩ := hx
    cases hphase.symm.trans (exchange?_of_calling ht hy)
    rfl
  -- A call after the action was there before, with the same id.
  have hback : ∀ k' y, c'.Calling n k' y →
      ∃ y', c.Calling n k' y' ∧ y'.request.transaction = y.request.transaction := by
    intro k' y hy
    rw [hnext] at hy
    split at hy
    · next hk => exact ⟨x, hk ▸ hx, by rw [hrequest y hy.2]⟩
    · exact ⟨y, hy, rfl⟩
  constructor
  case issued =>
    intro k' y hy
    obtain ⟨y', hy', heq⟩ := hback k' y hy
    exact heq ▸ h.issued k' y' hy'
  case sole =>
    intro k₁ k₂ y₁ y₂ hy₁ hy₂ heq
    obtain ⟨z₁, hz₁, heq₁⟩ := hback k₁ y₁ hy₁
    obtain ⟨z₂, hz₂, heq₂⟩ := hback k₂ y₂ hy₂
    exact h.sole k₁ k₂ z₁ z₂ hz₁ hz₂ (by rw [heq₁, heq, heq₂])
  case slot_iff =>
    intro u
    rw [hslot]
    by_cases hu : x.request.transaction = u
    · subst hu
      rw [haction.isSome_get? (by rw [← hslots, h.isSome_slot? hx]), Option.any_eq_true]
      constructor
      · rintro ⟨y, hy, hholds⟩
        exact ⟨k, y, by rw [hnext, if_pos rfl]; exact ⟨rfl, hy⟩, hholds, by rw [hrequest y hy]⟩
      · rintro ⟨k', y, hy, hholds, hu⟩
        obtain ⟨y', hy', heq⟩ := hback k' y hy
        obtain rfl := h.sole k' k y' x hy' hx (heq.trans hu)
        rw [hnext, if_pos rfl] at hy
        exact ⟨y, hy.2, hholds⟩
    · rw [haction.get?_of_ne (Ne.symm hu), ← hslots, h.slot_iff]
      have hiff := hnext.calling_iff (u := u) (fun j y hy => hcalling j y hy ▸ hu)
        fun y hy => hrequest y hy ▸ hu
      constructor
      · rintro ⟨k', y, hy, hholds, hyu⟩
        exact ⟨k', y, (hiff n k' y hyu).mpr hy, hholds, hyu⟩
      · rintro ⟨k', y, hy, hholds, hyu⟩
        exact ⟨k', y, (hiff n k' y hyu).mp hy, hholds, hyu⟩
  case nodup => exact hnodup

/-- `receiverStep` at most fills slots: it makes none and gives none up. -/
theorem nodup_receiverStep {now : Nat} {s s' : Session} (h : s.receiverStep now = some s')
    (hs : s.slots.transactions.Nodup) :
    s'.slots.transactions.Nodup ∧ ∀ u, (s'.slots.get? u).isSome = (s.slots.get? u).isSome := by
  have hsame : ∀ {slots : Slots}, slots.transactions = s.slots.transactions →
      slots.transactions.Nodup ∧ ∀ u, (slots.get? u).isSome = (s.slots.get? u).isSome := by
    intro slots heq
    refine ⟨heq ▸ hs, fun u => ?_⟩
    rw [Bool.eq_iff_iff, ← Slots.mem_transactions, heq, Slots.mem_transactions]
  cases Session.received h with
  | filled _ hfill => exact hsame (Slots.transactions_fill hfill)
  | kept _ hslots => exact hsame (by rw [hslots])
  | rung _ hslots | closed _ hslots => exact hsame (by rw [hslots]; rfl)

/-- `Task.abandon` makes no second slot. -/
theorem nodup_abandon {t : Task} {s : Session} (hs : s.slots.transactions.Nodup) :
    (t.abandon s).slots.transactions.Nodup := by
  cases hx : t.phase.exchange? with
  | none => rwa [t.slots_abandon_of_none hx]
  | some x =>
    rw [t.slots_abandon_of_some hx]
    exact (x.slotAction_abandon t.id s (.ok none)).nodup hs

/-- What a task on another session does is nothing to who is `Calling` on this one. -/
theorem Continued.calling_of_ne {j k : Nat} {next : Option Exchange} {t : Task}
    (h : c.Continued c' j k next) (hk : c.task? k = some t) (ht : t.session = j) (hj : j ≠ n)
    (k' : Nat) (x : Exchange) : c'.Calling n k' x ↔ c.Calling n k' x := by
  rw [h]
  split
  · next hk' =>
    subst hk'
    refine iff_of_false (fun hx => hj hx.1.symm) ?_
    rintro ⟨t', ht', hn, -⟩
    cases hk.symm.trans ht'
    exact hj (ht.symm.trans hn)
  · rfl

/-- Nor is what a task does that is in no `Exchange`. -/
theorem Continued.calling_of_none {j k : Nat} {t : Task} (h : c.Continued c' j k none)
    (hk : c.task? k = some t) (hx : t.phase.exchange? = none) (k' : Nat) (x : Exchange) :
    c'.Calling n k' x ↔ c.Calling n k' x := by
  rw [h]
  split
  · next hk' =>
    subst hk'
    refine iff_of_false (by simp) fun hy => ?_
    cases hx.symm.trans (exchange?_of_calling hk hy)
  · rfl

/-- `Owned` is kept by an action of a task. -/
theorem Owned.acted {k : Nat} {t : Task} {s : Session} {p : Progress Phase Reply} {g : Ground}
    (h : c.Owned n ids) (hk : c.task? k = some t) (hs : c.session? t.session = some s)
    (hact : t.act c.now ⟨c.nextTransaction, s⟩ = some (p, g))
    (htask : ∀ j, c'.task? j = if j = k then p.ongoing?.map fun phase => { t with phase }
      else c.task? j)
    (hsession : ∀ j, c'.session? j = if j = t.session then some g.session else c.session? j)
    (hsound : t.Sound) (hraw : t.session = n → t.job.isRaw = false)
    (hnew : (ids ++ c.issuing n (.task k)).Nodup) : c'.Owned n (ids ++ c.issuing n (.task k)) := by
  have hnext := continued_of_task? htask
  by_cases hn : t.session = n
  · subst hn
    have hslots : ∀ u, c.slot? t.session u = s.slots.get? u := fun u => by
      rw [slot?, hs, Option.bind_some]
    have hslot : ∀ u, c'.slot? t.session u = g.session.slots.get? u := fun u => by
      rw [slot?_of_session? hsession, if_pos rfl]
    have hnodup : g.session.slots.transactions.Nodup → ∀ s, c'.session? t.session = some s →
        s.slots.transactions.Nodup := by
      intro hg s' hs'
      rw [hsession, if_pos rfl] at hs'
      cases hs'
      exact hg
    cases Task.callActed hsound hact with
    | apart hx hx' _ hsame =>
      rw [hx'] at hnext
      rw [hsame (hraw rfl)] at hslot hnodup
      refine (h.untouched (hnext.calling_of_none hk hx) (fun u => ?_) ?_).mono
        (List.subset_append_left _ _)
      · rw [hslot, hslots]
      · exact hnodup (h.nodup s hs)
    | @opened x hx hx' htransaction henter hcounter hsame =>
      rw [hx'] at hnext
      rw [hsame] at hslot hnodup
      have hissuing : c.issuing t.session (.task k) = [x.request.transaction] := by
        have hobtained : t.obtained? c.now s = none := by
          rw [Task.obtained?, hx, Option.bind_none]
        simp [issuing, happenings, Task.happenings, hk, hs, hact, hcounter, hobtained, htransaction,
          allocations]
      rw [hissuing] at hnew ⊢
      refine h.opened hnext (fun y hy => ?_) (by simp [Exchange.holds, henter]) ?_ (fun u => ?_) ?_
      · cases hx.symm.trans (exchange?_of_calling hk hy)
      · exact fun hmem => (List.nodup_append.mp hnew).2.2 _ hmem _ (List.mem_singleton_self _) rfl
      · rw [hslot, hslots]
      · exact hnodup (h.nodup s hs)
    | @exchanged x q s' hx hxact hx' htransaction hsame =>
      rw [hx'] at hnext
      rw [hsame] at hslot hnodup
      have haction := Exchange.slotActed (hsound x hx).2 hxact
      refine (h.exchanged ⟨t, hk, rfl, hx⟩ haction hnext hslots hslot ?_).mono
        (List.subset_append_left _ _)
      exact hnodup (haction.nodup (h.nodup s hs))
  · refine (h.untouched (hnext.calling_of_ne hk rfl hn) (fun u => ?_) ?_).mono
      (List.subset_append_left _ _)
    · rw [slot?_of_session? hsession, if_neg (Ne.symm hn)]
    · rw [hsession, if_neg (Ne.symm hn)]
      exact h.nodup

/-- `Owned` is kept when a task is given up. -/
theorem Owned.abandoned {k : Nat} {t : Task} (h : c.Owned n ids) (hk : c.task? k = some t)
    (htask : ∀ j, c'.task? j = if j = k then none else c.task? j)
    (hsession : ∀ j, c'.session? j = if j = t.session then (c.session? j).map t.abandon
      else c.session? j) : c'.Owned n ids := by
  have hnext : c.Continued c' t.session k none := continued_of_task? (f := none) htask
  have hnodup : ∀ s, c'.session? n = some s → s.slots.transactions.Nodup := by
    intro s hs
    rw [hsession] at hs
    split at hs
    · obtain ⟨s', hs', rfl⟩ := Option.map_eq_some_iff.mp hs
      exact nodup_abandon (h.nodup s' hs')
    · exact h.nodup s hs
  obtain ⟨slots, slots', hslots, hslot, hnone, haction⟩ := slots_abandoned hsession
  by_cases hn : t.session = n
  · subst hn
    have hslot' : ∀ u, c'.slot? t.session u = slots'.get? u := fun u => by rw [hslot, if_pos rfl]
    cases hx : t.phase.exchange? with
    | some x => exact h.exchanged ⟨t, hk, rfl, hx⟩ (haction x hx) hnext hslots hslot' hnodup
    | none =>
      refine h.untouched (hnext.calling_of_none hk hx) (fun u => ?_) hnodup
      rw [hslot', hnone hx, hslots]
  · refine h.untouched (hnext.calling_of_ne hk rfl hn) (fun u => ?_) hnodup
    rw [hslot, if_neg (Ne.symm hn)]

/-- `Owned` is kept by every move, if it gives a new call an id of its own. -/
theorem Owned.step {m : Move} {es : List Happening} (h : c.Owned n ids) (heffect : Effect c m es c')
    (hsound : ∀ k t, c.task? k = some t → t.Sound)
    (hraw : ∀ k t, c.task? k = some t → t.session = n → t.job.isRaw = false)
    (hnew : (ids ++ c.issuing n m).Nodup) : c'.Owned n (ids ++ c.issuing n m) := by
  cases heffect with
  | aside _ htask hsession =>
    refine (h.untouched (fun k x => ?_) (fun u => ?_) ?_).mono (List.subset_append_left _ _)
    · rw [Calling, Calling]
      obtain htask | ⟨hnone, session, job, -, htask⟩ := htask k
      · rw [htask]
      · rw [htask, hnone]
        refine iff_of_false ?_ ?_
        · rintro ⟨t, ht, -, hx⟩
          cases ht
          cases hx
        · rintro ⟨t, ht, -⟩
          cases ht
    · rw [slot?_of_unmoved (hsession n)]
    · intro s' hs'
      have hunmoved := hsession n
      rw [hs'] at hunmoved
      generalize hs : c.session? n = before at hunmoved
      cases hunmoved with
      | kept hslots => exact hslots ▸ h.nodup _ hs
      | opened hslots => exact hslots ▸ List.nodup_nil
  | @received j s s' _ hs hstep _ htask hsession =>
    refine (h.untouched (calling_of_task? htask n) (fun u => ?_) ?_).mono
      (List.subset_append_left _ _)
    · rw [slot?_of_session? hsession]
      split
      · next hn =>
        subst hn
        rw [slot?, hs, Option.bind_some, (nodup_receiverStep hstep (h.nodup s hs)).2]
      · rfl
    · intro s'' hs''
      rw [hsession] at hs''
      split at hs''
      · next hn =>
        subst hn
        cases hs''
        exact (nodup_receiverStep hstep (h.nodup s hs)).1
      · exact h.nodup s'' hs''
  | acted hk hs hact _ htask hsession _ hm =>
    subst hm
    exact h.acted hk hs hact htask hsession (hsound _ _ hk) (hraw _ _ hk) hnew
  | abandoned hk _ htask hsession =>
    exact (h.abandoned hk htask hsession).mono (List.subset_append_left _ _)

/-! ## Runs -/

/-- `Distinct` is kept whatever ids are chosen. -/
theorem Distinct.runAs (hc : c.Distinct) (ms : List (UInt32 × Move)) : (c.runAs ms).Distinct := by
  induction ms generalizing c with
  | nil => exact hc
  | cons m ms ih =>
    have hc' : Distinct { c with nextTransaction := m.1 } :=
      ⟨hc.connections, hc.sessions, hc.tasks⟩
    exact ih (hc'.follows (follows_step _ m.2))

/-- What holds of tasks when they start, and is kept by `Task.act`, holds of all tasks of `runAs`. -/
theorem tasks_runAs {Q : Task → Prop} (ms : List (UInt32 × Move))
    (hstart : ∀ u k session job, (u, .start session job) ∈ ms → Q ⟨k, session, job, .start⟩)
    (hact : ∀ {now t g g' phase}, Q t → t.act now g = some (.ongoing phase, g') →
      Q { t with phase }) {k : Nat} {t : Task} (ht : (runAs {} ms).task? k = some t) : Q t := by
  induction ms using List.reverseRecOn generalizing k t with
  | nil => cases ht
  | append_singleton ms m ih =>
    rw [runAs_concat] at ht
    refine (effect { runAs {} ms with nextTransaction := m.1 } m.2).tasks ?_ hact
      (fun k t ht => ih ?_ ht) ht
    · rintro k session job hm
      exact hstart m.1 k session job (by simp [← hm])
    · exact fun u k session job hm => hstart u k session job (List.mem_append_left _ hm)

/-- In every run with distinct ids slots are `Owned`. -/
theorem owned_runAs {ms : List (UInt32 × Move)}
    (hcalls : ∀ u job, (u, .start n job) ∈ ms → job.isRaw = false)
    (hids : (issued n {} ms).Nodup) : (runAs {} ms).Owned n (issued n {} ms) := by
  induction ms using List.reverseRecOn with
  | nil => exact owned_new n
  | append_singleton ms m ih =>
    have hcalls' : ∀ u job, (u, .start n job) ∈ ms → job.isRaw = false :=
      fun u job hm => hcalls u job (List.mem_append_left _ hm)
    rw [issued_concat] at hids ⊢
    rw [runAs_concat]
    have howned := ih hcalls' (List.nodup_append.mp hids).1
    have howned' : Owned n { runAs {} ms with nextTransaction := m.1 } (issued n {} ms) :=
      ⟨howned.issued, howned.sole, howned.slot_iff, howned.nodup⟩
    refine howned'.step (effect _ m.2) (fun k t => ?_) (fun k t => ?_) hids
    · exact tasks_runAs ms (fun _ _ _ _ _ x hx => nomatch hx) Task.Sound.act
    · refine tasks_runAs ms (Q := fun t => t.session = n → t.job.isRaw = false) ?_ ?_
      · rintro u k session job hm rfl
        exact hcalls' u job hm
      · exact fun hjob _ => hjob

/-- In every run of calls on a session, in any order, with whatever ids as long as no two calls have
the same, and with whatever comes from the engine, the transactions that have a slot are those of the
calls that expect their response and are not over. So there are no slots when no call is going on. -/
theorem transactions_perm_holders (n : Nat) (ms : List (UInt32 × Move))
    (hcalls : ∀ u job, (u, .start n job) ∈ ms → job.isRaw = false)
    (hids : (issued n {} ms).Nodup) (s : Session) (hs : (runAs {} ms).session? n = some s) :
    s.slots.transactions.Perm ((runAs {} ms).holders n) ∧
      ((∀ k x, ¬(runAs {} ms).Calling n k x) → s.slots.size = 0) := by
  have hperm := (owned_runAs hcalls hids).perm_holders (distinct_new.runAs ms) hs
  refine ⟨hperm, fun hidle => ?_⟩
  have hnone : (runAs {} ms).holders n = [] := by
    rw [List.eq_nil_iff_forall_not_mem]
    intro u hu
    obtain ⟨k, x, hx, -⟩ := (mem_holders (distinct_new.runAs ms)).mp hu
    exact hidle k x hx
  have hlength := hperm.length_eq
  rw [hnone, Slots.transactions, List.length_map] at hlength
  exact hlength

/-- A run of three calls: one has its response in the slot, one is dropped by `cancel` while it waits
for its own, which comes all the same, and one has only just begun. The connection has ended. -/
def strayed : List (UInt32 × Move) :=
  [(0, Move.attach {}), (0, .start 1 (.command .status)), (0, .start 1 (.command .stackDepth)),
    (0, .start 1 (.command .status))] ++
    List.replicate 7 (30, Move.task 1) ++ List.replicate 7 (10, Move.task 2) ++
    List.replicate 2 (20, Move.task 3) ++ [(0, Move.cancel 2)] ++
    ["<response transaction_id=\"10\"/>", "<response transaction_id=\"30\"/>"].map
      (fun p => (0, Move.arrive 1 (.bytes (Frame.encode p)))) ++
    [(0, Move.arrive 1 .ending)] ++ List.replicate 16 (0, Move.receiver 1)

/-- In the run `strayed` one slot is left, that of the call whose response is in it. -/
theorem transactions_perm_holders_strayed :
    (∀ u job, (u, .start 1 job) ∈ strayed → job.isRaw = false) ∧
      issued 1 {} strayed = [30, 10, 20] ∧ (issued 1 {} strayed).Nodup ∧
      ∃ s, (runAs {} strayed).session? 1 = some s ∧ s.slots.closed = true ∧
        s.slots.transactions = [30] := by
  have hcalls : ∀ u job, (u, .start 1 job) ∈ strayed → job.isRaw = false := by
    intro u job hjob
    simp [strayed] at hjob
    obtain ⟨-, rfl⟩ | ⟨-, rfl⟩ | ⟨-, rfl⟩ := hjob <;> rfl
  have hissued : issued 1 {} strayed = [30, 10, 20] := by decide +kernel
  have hids : (issued 1 {} strayed).Nodup := by
    rw [hissued]
    decide
  have hsession : ((runAs {} strayed).session? 1).any (fun s => s.slots.closed) = true := by
    decide +kernel
  obtain ⟨s, hs, hclosed⟩ := Option.any_eq_true _ _ |>.mp hsession
  have hholders : (runAs {} strayed).holders 1 = [30] := by decide +kernel
  have hperm := (transactions_perm_holders 1 strayed hcalls hids s hs).1
  rw [hholders, List.perm_singleton] at hperm
  exact ⟨hcalls, hissued, hids, s, hs, hclosed, hperm⟩

end Client

end Dbgp
