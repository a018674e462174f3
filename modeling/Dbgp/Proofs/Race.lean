import Dbgp.Session.Lifecycle
import Mathlib.Data.List.Induction

/-!
# Calls that race on a lifecycle

Many may ask something of one lifecycle at the same time: to begin the end, to complete it, to
register a listener or to remove one. `Race` runs any number of such calls, one atomic action after the
other in any order. The actions are those of `Lifecycle`; the calls of listeners are actions of their
own, with nothing locked. Every action leaves an `Event` in the log.

Two invariants are kept by every action. `Trail` is what one call has done so far, which is known from
the point it has come to. `Course` is what all calls together have done: the log has at most one place
where the listeners were taken, and what was taken there is what was registered before.
-/

namespace Dbgp

/-- The place of a `Stage` on the way to the end. -/
def Stage.rank : Stage → Nat
  | .connected => 0
  | .terminating => 1
  | .terminated => 2

namespace Race

/-! ## Calls -/

/-- What is asked of a `Lifecycle`. -/
inductive Request where
  | begin
  | complete (error : Option Error)
  | add (listener : String)
  | remove (listener : String)
  deriving DecidableEq, Repr

/-- A listener, with the number of the `Call` that registered it. -/
structure Registration where
  call : Nat
  listener : String
  deriving DecidableEq, Repr

/-- What a `Call` is about to do. -/
inductive Point where
  | begin
  /-- To begin the end before completing it. -/
  | enter (error : Option Error)
  | take (error : Option Error)
  | tell (error : Option Error) (left : List Registration)
  | announce
  | add (listener : String)
  /-- To tell a listener that has come too late to be registered. -/
  | greet (call : ListenerCall)
  | remove (listener : String)
  | done
  deriving DecidableEq, Repr

/-- The first `Point` of a call. -/
def Request.point : Request → Point
  | .begin => .begin
  | .complete error => .enter error
  | .add listener => .add listener
  | .remove listener => .remove listener

/-- A call of a `Request`, with how far it has come. -/
structure Call where
  request : Request
  point : Point
  deriving DecidableEq, Repr

/-- What a `Call` has done, as the log of a `Race` has it. -/
inductive Event where
  | began (call : Nat) (won : Bool)
  | took (call : Nat) (error : Option Error) (listeners : List Registration)
  /-- The listeners had been taken, and the call was over. -/
  | skipped (call : Nat)
  | told (call : Nat) (r : Registration) (error : Option Error)
  | settled (call : Nat)
  | announced (call : Nat)
  | added (r : Registration)
  | late (r : Registration)
  | removed (call : Nat) (listener : String)
  deriving DecidableEq, Repr

/-- The number of the call that an `Event` belongs to. -/
def Event.call : Event → Nat
  | .began k _ | .took k _ _ | .skipped k | .told k _ _ | .settled k | .announced k
  | .removed k _ => k
  | .added r | .late r => r.call

/-! ## Actions -/

/-- What all calls act on: the `lifecycle`, with the owners of its listeners. -/
structure Shared where
  lifecycle : Lifecycle := {}
  /-- Whether those who wait for the end have been let go. -/
  isOver : Bool := false
  /-- The calls that registered the listeners, in their order. -/
  owners : List Nat := []
  deriving DecidableEq, Repr

/-- Those of the `owners` that are left when a listener is removed. -/
def Shared.remaining (listener : String) (s : Shared) : List Nat :=
  ((s.owners.zip s.lifecycle.listeners).filter fun o => o.2 ≠ listener).map (·.1)

/-- One atomic action of a call at a `Point`, if it has not returned. -/
def Point.act (k : Nat) (s : Shared) : Point → Option (Event × Point × Shared)
  | .begin =>
    some (.began k s.lifecycle.isConnected, .done, { s with lifecycle := s.lifecycle.begin })
  | .enter error =>
    some (.began k s.lifecycle.isConnected, .take error, { s with lifecycle := s.lifecycle.begin })
  | .take error =>
    match s.lifecycle.take with
    | (none, lifecycle) => some (.skipped k, .done, { s with lifecycle })
    | (some listeners, lifecycle) =>
      let taken := List.zipWith Registration.mk s.owners listeners
      some (.took k error taken, .tell error taken, { s with lifecycle, owners := [] })
  | .tell error (r :: left) => some (.told k r error, .tell error left, s)
  | .tell _ [] => some (.settled k, .announce, { s with lifecycle := s.lifecycle.settle })
  | .announce => some (.announced k, .done, { s with isOver := true })
  | .add listener =>
    match s.lifecycle.addListener listener with
    | ([], lifecycle) =>
      some (.added ⟨k, listener⟩, .done, { s with lifecycle, owners := s.owners ++ [k] })
    | (call :: _, lifecycle) => some (.late ⟨k, listener⟩, .greet call, { s with lifecycle })
  | .greet call => some (.told k ⟨k, call.listener⟩ call.error, .done, s)
  | .remove listener =>
    some (.removed k listener, .done,
      { s with lifecycle := s.lifecycle.removeListener listener, owners := s.remaining listener })
  | .done => none

/-- What `Point.act` can do, with a constructor for each `Point`. -/
inductive Action (k : Nat) (s : Shared) : Point → Event → Point → Shared → Prop
  | begun : Action k s .begin (.began k s.lifecycle.isConnected) .done
      { s with lifecycle := s.lifecycle.begin }
  | entered {error : Option Error} : Action k s (.enter error)
      (.began k s.lifecycle.isConnected) (.take error) { s with lifecycle := s.lifecycle.begin }
  | skipped {error : Option Error} : s.lifecycle.fired = true →
      Action k s (.take error) (.skipped k) .done s
  | took {error : Option Error} {taken : List Registration} : s.lifecycle.fired = false →
      taken = List.zipWith Registration.mk s.owners s.lifecycle.listeners →
      Action k s (.take error) (.took k error taken) (.tell error taken)
        { s with lifecycle := { s.lifecycle with fired := true, listeners := [] }, owners := [] }
  | told {error : Option Error} {r : Registration} {left : List Registration} :
      Action k s (.tell error (r :: left)) (.told k r error) (.tell error left) s
  | settled {error : Option Error} : Action k s (.tell error []) (.settled k) .announce
      { s with lifecycle := s.lifecycle.settle }
  | announced : Action k s .announce (.announced k) .done { s with isOver := true }
  | added {listener : String} : s.lifecycle.fired = false →
      Action k s (.add listener) (.added ⟨k, listener⟩) .done
        { s with
          lifecycle := { s.lifecycle with listeners := s.lifecycle.listeners ++ [listener] }
          owners := s.owners ++ [k] }
  | late {listener : String} : s.lifecycle.fired = true →
      Action k s (.add listener) (.late ⟨k, listener⟩) (.greet ⟨listener, none⟩) s
  | greeted {call : ListenerCall} :
      Action k s (.greet call) (.told k ⟨k, call.listener⟩ call.error) .done s
  | removed {listener : String} : Action k s (.remove listener) (.removed k listener) .done
      { s with
        lifecycle := s.lifecycle.removeListener listener
        owners := s.remaining listener }

/-- Every action of `Point.act` is one of `Action`. -/
theorem Point.acted {k : Nat} {s s' : Shared} {p p' : Point} {e : Event}
    (h : p.act k s = some (e, p', s')) : Action k s p e p' s' := by
  cases p with
  | begin =>
    cases h
    exact .begun
  | enter error =>
    cases h
    exact .entered
  | take error =>
    rw [Point.act, Lifecycle.take] at h
    by_cases hfired : s.lifecycle.fired = true
    · rw [if_pos hfired] at h
      cases h
      exact .skipped hfired
    · rw [if_neg hfired] at h
      cases h
      exact .took (by simpa using hfired) rfl
  | tell error left =>
    cases left with
    | nil =>
      cases h
      exact .settled
    | cons r left =>
      cases h
      exact .told
  | announce =>
    cases h
    exact .announced
  | add listener =>
    rw [Point.act, Lifecycle.addListener] at h
    by_cases hfired : s.lifecycle.fired = true
    · rw [if_pos hfired] at h
      cases h
      exact .late hfired
    · rw [if_neg hfired] at h
      cases h
      exact .added (by simpa using hfired)
  | greet call =>
    cases h
    exact .greeted
  | remove listener =>
    cases h
    exact .removed
  | done => cases h

/-! ## What one call has done -/

/-- What a call has done (its `Event`s) when it has come to a `Point`. -/
inductive Trail (k : Nat) : Request → List Event → Point → Prop
  | begin : Trail k .begin [] .begin
  | begun {won : Bool} : Trail k .begin [.began k won] .done
  | enter {error : Option Error} : Trail k (.complete error) [] (.enter error)
  | entered {error : Option Error} {won : Bool} :
      Trail k (.complete error) [.began k won] (.take error)
  | skipped {error : Option Error} {won : Bool} :
      Trail k (.complete error) [.began k won, .skipped k] .done
  | telling {error : Option Error} {won : Bool} {told left : List Registration} :
      Trail k (.complete error)
        ([.began k won, .took k error (told ++ left)] ++ told.map (.told k · error))
        (.tell error left)
  | settled {error : Option Error} {won : Bool} {taken : List Registration} :
      Trail k (.complete error)
        ([.began k won, .took k error taken] ++ taken.map (.told k · error) ++ [.settled k])
        .announce
  | announced {error : Option Error} {won : Bool} {taken : List Registration} :
      Trail k (.complete error)
        ([.began k won, .took k error taken] ++ taken.map (.told k · error) ++
          [.settled k, .announced k]) .done
  | add {listener : String} : Trail k (.add listener) [] (.add listener)
  | added {listener : String} : Trail k (.add listener) [.added ⟨k, listener⟩] .done
  | late {listener : String} :
      Trail k (.add listener) [.late ⟨k, listener⟩] (.greet ⟨listener, none⟩)
  | greeted {listener : String} :
      Trail k (.add listener) [.late ⟨k, listener⟩, .told k ⟨k, listener⟩ none] .done
  | remove {listener : String} : Trail k (.remove listener) [] (.remove listener)
  | removed {listener : String} : Trail k (.remove listener) [.removed k listener] .done

/-- A call that has done nothing is at its first `Point`, with an empty `Trail`. -/
theorem trail_new (k : Nat) (request : Request) : Trail k request [] request.point := by
  cases request with
  | begin => exact .begin
  | complete error => exact .enter
  | add listener => exact .add
  | remove listener => exact .remove

/-- An `Action` is recorded under the call that does it. -/
theorem Action.call_eq {k : Nat} {s s' : Shared} {p p' : Point} {e : Event}
    (h : Action k s p e p' s') : e.call = k := by
  cases h <;> rfl

/-- An `Action` goes on with the `Trail` of its call. -/
theorem Trail.next {k : Nat} {request : Request} {es : List Event} {s s' : Shared} {p p' : Point}
    {e : Event} (h : Trail k request es p) (hact : Action k s p e p' s') :
    Trail k request (es ++ [e]) p' := by
  cases hact with
  | begun => cases h; exact .begun
  | entered => cases h; exact .entered
  | skipped => cases h; exact .skipped
  | took =>
    cases h
    exact @Trail.telling k _ _ [] _
  | @told error r left =>
    cases h with
    | @telling _ won told =>
      have htelling := @Trail.telling k error won (told ++ [r]) left
      simpa using htelling
  | settled =>
    cases h with
    | telling => simpa using Trail.settled
  | announced =>
    cases h with
    | settled => simpa using Trail.announced
  | added => cases h; exact .added
  | late => cases h; exact .late
  | greeted => cases h; exact .greeted
  | removed => cases h; exact .removed

/-! ## What all calls have done -/

/-- What an `Event` does to the registered listeners. -/
def Event.register (rs : List Registration) : Event → List Registration
  | .added r => rs ++ [r]
  | .removed _ listener => rs.filter fun r => r.listener ≠ listener
  | _ => rs

/-- The listeners that have been `added` and not `removed`, in order of registration. -/
def registered (log : List Event) : List Registration :=
  log.foldl Event.register []

/-- One more event, by `Event.register`. -/
@[simp] theorem registered_concat (log : List Event) (e : Event) :
    registered (log ++ [e]) = e.register (registered log) := by
  rw [registered, List.foldl_append, ← registered]
  rfl

/-- A listener that is `registered` was registered before, or has been added since. -/
theorem mem_registered_append {log log' : List Event} {r : Registration}
    (h : r ∈ registered (log ++ log')) : r ∈ registered log ∨ .added r ∈ log' := by
  induction log' using List.reverseRecOn with
  | nil => exact .inl (by rwa [List.append_nil] at h)
  | append_singleton log' e ih =>
    rw [← List.append_assoc, registered_concat] at h
    have hold : r ∈ registered (log ++ log') → r ∈ registered log ∨ .added r ∈ log' ++ [e] :=
      fun h => (ih h).imp_right (List.mem_append_left _)
    cases e with
    | added r' =>
      rcases List.mem_append.mp h with h | h
      · exact hold h
      · rw [List.mem_singleton.mp h]
        exact .inr (List.mem_append_right _ (List.mem_singleton_self _))
    | removed => exact hold (List.mem_filter.mp h).1
    | began | took | skipped | told | settled | announced | late => exact hold h

/-- A listener that is `registered` has been added. -/
theorem added_of_mem_registered {log : List Event} {r : Registration} (h : r ∈ registered log) :
    .added r ∈ log :=
  (@mem_registered_append [] log r h).resolve_left List.not_mem_nil

/-- A listener is `registered` no more often than it has been added. -/
theorem count_registered_le (log : List Event) (r : Registration) :
    (registered log).count r ≤ log.count (.added r) := by
  induction log using List.reverseRecOn with
  | nil => exact Nat.le_refl _
  | append_singleton log e ih =>
    rw [registered_concat, List.count_append]
    cases e with
    | added r' =>
      rw [Event.register, List.count_append]
      refine Nat.add_le_add ih (Nat.le_of_eq ?_)
      simp [List.count_singleton]
    | removed k listener =>
      exact Nat.le_trans (List.filter_sublist.count_le r) (Nat.le_trans ih (Nat.le_add_right _ _))
    | began | took | skipped | told | settled | announced | late =>
      exact Nat.le_trans ih (Nat.le_add_right _ _)

/-- What can happen before the event `took`. -/
def Event.isEarly : Event → Bool
  | .took .. | .skipped _ | .late _ => false
  | _ => true

/-- What can happen after the event `took`. -/
def Event.isLate : Event → Bool
  | .took .. | .added _ => false
  | _ => true

/-- Owners and listeners side by side are the registrations, each a `Registration`. -/
theorem zipWith_registrations (rs : List Registration) :
    List.zipWith Registration.mk (rs.map (·.call)) (rs.map (·.listener)) = rs := by
  rw [List.zipWith_map, List.zipWith_self]
  exact List.map_id' _

/-- Either the listeners have not been taken, and are those that are `registered`, or they have been
taken once, and were those that were registered by then. -/
inductive Course (s : Shared) (log : List Event) : Prop
  | pending : s.lifecycle.fired = false → (∀ e ∈ log, e.isEarly = true) →
      s.owners = (registered log).map (·.call) →
      s.lifecycle.listeners = (registered log).map (·.listener) → Course s log
  | taken {before after : List Event} {k : Nat} {error : Option Error} :
      s.lifecycle.fired = true → log = before ++ .took k error (registered before) :: after →
      (∀ e ∈ before, e.isEarly = true) → (∀ e ∈ after, e.isLate = true) → Course s log

variable {k : Nat} {s s' : Shared} {p p' : Point} {e : Event} {log : List Event}

/-- What holds of a log and of one more `Event` holds of both. -/
theorem forall_mem_concat {P : Event → Prop} (h : ∀ e ∈ log, P e) (he : P e) :
    ∀ e' ∈ log ++ [e], P e' := by
  intro e' he'
  rcases List.mem_append.mp he' with he' | he'
  · exact h e' he'
  · rwa [List.mem_singleton.mp he']

/-- The `Course` goes on with an action on which the listeners do not depend. -/
theorem Course.aside (h : Course s log) (hfired : s'.lifecycle.fired = s.lifecycle.fired)
    (howners : s'.owners = s.owners) (hlisteners : s'.lifecycle.listeners = s.lifecycle.listeners)
    (hearly : s.lifecycle.fired = false → e.isEarly = true) (hlate : e.isLate = true)
    (hregister : ∀ rs, e.register rs = rs) : Course s' (log ++ [e]) := by
  cases h with
  | pending hopen hlog howners' hlisteners' =>
    refine .pending (hfired.trans hopen) (forall_mem_concat hlog (hearly hopen)) ?_ ?_
    · rw [howners, howners', registered_concat, hregister]
    · rw [hlisteners, hlisteners', registered_concat, hregister]
  | taken hshut hlog hbefore hafter =>
    rw [hlog, List.append_assoc, List.cons_append]
    exact .taken (hfired.trans hshut) rfl hbefore (forall_mem_concat hafter hlate)

/-- `Lifecycle.begin` touches no listener. -/
theorem fired_begin (l : Lifecycle) :
    l.begin.fired = l.fired ∧ l.begin.listeners = l.listeners := by
  rw [Lifecycle.begin]
  split
  · exact ⟨rfl, rfl⟩
  · exact ⟨rfl, rfl⟩

/-- Every action stays on the `Course`. -/
theorem Course.next (h : Course s log) (hact : Action k s p e p' s') : Course s' (log ++ [e]) := by
  cases hact with
  | begun | entered =>
    obtain ⟨hfired, hlisteners⟩ := fired_begin s.lifecycle
    exact h.aside hfired rfl hlisteners (fun _ => rfl) rfl fun _ => rfl
  | skipped hfired | late hfired =>
    exact h.aside rfl rfl rfl (fun hopen => by simp [hopen] at hfired) rfl fun _ => rfl
  | told | greeted | settled | announced =>
    exact h.aside rfl rfl rfl (fun _ => rfl) rfl fun _ => rfl
  | @took error taken hfired htaken =>
    cases h with
    | taken hshut => simp [hshut] at hfired
    | pending _ hlog howners hlisteners =>
      rw [htaken, howners, hlisteners, zipWith_registrations]
      exact .taken rfl rfl hlog (by simp)
  | @added listener hfired =>
    cases h with
    | taken hshut => simp [hshut] at hfired
    | pending _ hlog howners hlisteners =>
      refine .pending hfired (forall_mem_concat hlog rfl) ?_ ?_
      · simp [howners, Event.register]
      · simp [hlisteners, Event.register]
  | @removed listener =>
    cases h with
    | taken hshut hlog hbefore hafter =>
      rw [hlog, List.append_assoc, List.cons_append]
      exact .taken hshut rfl hbefore (forall_mem_concat hafter rfl)
    | pending hopen hlog howners hlisteners =>
      refine .pending hopen (forall_mem_concat hlog rfl) ?_ ?_
      · simp [Shared.remaining, howners, hlisteners, Event.register, List.zip_map', List.filter_map,
          Function.comp_def]
      · simp [Lifecycle.removeListener, hlisteners, Event.register, List.filter_map,
          Function.comp_def]

/-! ## Stages -/

/-- Whether this is the `began` of the call that has begun the end. -/
def Event.isWin : Event → Bool
  | .began _ won => won
  | _ => false

/-- What the `stage` tells of the log. -/
structure Staged (s : Shared) (log : List Event) : Prop where
  wins_le_one : log.countP Event.isWin ≤ 1
  wins_eq_zero : s.lifecycle.stage = .connected → log.countP Event.isWin = 0
  settled : s.lifecycle.stage = .terminated → ∃ k, .settled k ∈ log
  announced : s.isOver = true → ∃ k, .announced k ∈ log

/-- No `Action` takes the stage back. -/
theorem Action.rank_le (h : Action k s p e p' s') :
    s.lifecycle.stage.rank ≤ s'.lifecycle.stage.rank := by
  cases h with
  | begun | entered =>
    show s.lifecycle.stage.rank ≤ s.lifecycle.begin.stage.rank
    rw [Lifecycle.begin]
    split
    · next hstage =>
      rw [hstage]
      exact Nat.zero_le _
    · exact Nat.le_refl _
  | settled =>
    show s.lifecycle.stage.rank ≤ Stage.rank .terminated
    cases s.lifecycle.stage <;> decide
  | skipped | took | told | announced | added | late | greeted | removed => exact Nat.le_refl _

/-- `Staged` goes on with an action that is no part of the way to the end. -/
theorem Staged.aside (h : Staged s log) (hstage : s'.lifecycle.stage = s.lifecycle.stage)
    (hover : s'.isOver = s.isOver) (hwin : e.isWin = false) : Staged s' (log ++ [e]) := by
  have hwins : (log ++ [e]).countP Event.isWin = log.countP Event.isWin := by
    simp [hwin]
  refine ⟨hwins ▸ h.wins_le_one, fun h' => ?_, fun h' => ?_, fun h' => ?_⟩
  · rw [hwins]
    exact h.wins_eq_zero (hstage ▸ h')
  · obtain ⟨j, hj⟩ := h.settled (hstage ▸ h')
    exact ⟨j, List.mem_append_left _ hj⟩
  · obtain ⟨j, hj⟩ := h.announced (hover ▸ h')
    exact ⟨j, List.mem_append_left _ hj⟩

/-- `Staged` goes on with `began`: only one can begin the end, because it is begun then. -/
theorem Staged.begun (h : Staged s log) :
    Staged { s with lifecycle := s.lifecycle.begin }
      (log ++ [.began k s.lifecycle.isConnected]) := by
  by_cases hstage : s.lifecycle.stage = .connected
  · have hbegin : s.lifecycle.begin.stage = .terminating := by
      rw [Lifecycle.begin, if_pos hstage]
    refine ⟨?_, fun h' => ?_, fun h' => ?_, fun h' => ?_⟩
    · rw [List.countP_append, h.wins_eq_zero hstage, Nat.zero_add]
      exact List.countP_le_length
    · cases hbegin.symm.trans h'
    · cases hbegin.symm.trans h'
    · obtain ⟨j, hj⟩ := h.announced h'
      exact ⟨j, List.mem_append_left _ hj⟩
  · rw [Lifecycle.begin, if_neg hstage]
    exact h.aside rfl rfl (by simp [Event.isWin, Lifecycle.isConnected, hstage])

/-- Every action keeps what `Staged` says. -/
theorem Staged.next (h : Staged s log) (hact : Action k s p e p' s') : Staged s' (log ++ [e]) := by
  cases hact with
  | begun | entered => exact h.begun
  | skipped | took | told | added | late | greeted | removed => exact h.aside rfl rfl rfl
  | settled =>
    refine ⟨?_, fun h' => ?_, fun _ => ⟨k, by simp⟩, fun h' => ?_⟩
    · rw [List.countP_append]
      exact h.wins_le_one
    · cases h'
    · obtain ⟨j, hj⟩ := h.announced h'
      exact ⟨j, List.mem_append_left _ hj⟩
  | announced =>
    have hwins : (log ++ [Event.announced k]).countP Event.isWin = log.countP Event.isWin := by
      rw [List.countP_append]
      rfl
    refine ⟨hwins ▸ h.wins_le_one, fun h' => hwins ▸ h.wins_eq_zero h', fun h' => ?_,
      fun _ => ⟨k, by simp⟩⟩
    obtain ⟨j, hj⟩ := h.settled h'
    exact ⟨j, List.mem_append_left _ hj⟩

end Race

/-! ## Runs -/

/-- Calls that race on one `Lifecycle`. A call is known by its place in the list. -/
structure Race extends Race.Shared where
  calls : List Race.Call := []
  log : List Race.Event := []
  deriving DecidableEq, Repr

namespace Race

/-- Somebody makes a `call`, or a call does its next action. -/
inductive Move where
  | call (request : Request)
  | act (call : Nat)
  deriving DecidableEq, Repr

/-- The race after a `Move`. -/
def step (s : Race) : Move → Race
  | .call request => { s with calls := s.calls ++ [⟨request, request.point⟩] }
  | .act k =>
    match s.calls[k]?.bind fun c => c.point.act k s.toShared with
    | none => s
    | some (e, point, shared) =>
      { toShared := shared
        calls := s.calls.modify k fun c => { c with point }
        log := s.log ++ [e] }

/-- The race after some moves, by `step`. -/
def run (s : Race) (moves : List Move) : Race :=
  moves.foldl step s

/-- A call has returned: it is at the point `done`. -/
def Returned (s : Race) (k : Nat) (request : Request) : Prop :=
  s.calls[k]? = some ⟨request, .done⟩

instance (s : Race) (k : Nat) (request : Request) : Decidable (s.Returned k request) :=
  inferInstanceAs (Decidable (_ = _))

/-- What a call has done, by `Event.call`. -/
def eventsOf (k : Nat) (log : List Event) : List Event :=
  log.filter fun e => e.call = k

/-- What a call has done is among its `eventsOf`. -/
theorem mem_eventsOf {log : List Event} {e : Event} {k : Nat} (h : e ∈ log) (hk : e.call = k) :
    e ∈ eventsOf k log :=
  List.mem_filter.mpr ⟨h, decide_eq_true hk⟩

/-- All that holds of a race at every moment: `Trail`, `Course` and `Staged`. -/
structure Sound (s : Race) : Prop where
  trail : ∀ k c, s.calls[k]? = some c → Trail k c.request (eventsOf k s.log) c.point
  called : ∀ e ∈ s.log, e.call < s.calls.length
  course : Course s.toShared s.log
  staged : Staged s.toShared s.log

variable {s s' : Race}

/-- Before the first call a race is `Sound`. -/
theorem sound_new : Sound {} := by
  constructor
  case trail =>
    intro k c hk
    cases hk
  case called =>
    intro e he
    cases he
  case course => exact .pending rfl (by simp) rfl rfl
  case staged => exact ⟨Nat.zero_le _, fun _ => rfl, by simp, by simp⟩

/-- A race stays `Sound` with a new call, which has done nothing yet. -/
theorem Sound.call (h : s.Sound) (request : Request) : (s.step (.call request)).Sound := by
  refine { h with trail := fun k c hk => ?_, called := fun e he => ?_ }
  · rw [step, List.getElem?_append] at hk
    split at hk
    · exact h.trail k c hk
    · next hlength =>
      have hnone : eventsOf k s.log = [] := by
        rw [eventsOf, List.filter_eq_nil_iff]
        intro e he
        have hlt := h.called e he
        simp
        omega
      obtain ⟨hzero, rfl⟩ : k - s.calls.length = 0 ∧ c = ⟨request, request.point⟩ := by
        rw [List.getElem?_singleton] at hk
        split at hk
        · next hzero =>
          cases hk
          exact ⟨hzero, rfl⟩
        · cases hk
      show Trail k request (eventsOf k s.log) request.point
      rw [hnone]
      exact trail_new k request
  · rw [step, List.length_append]
    exact Nat.lt_of_lt_of_le (h.called e he) (Nat.le_add_right _ _)

/-- A race stays `Sound` with an `Action`, which adds one event to the log and moves one call. -/
theorem Sound.acted {k : Nat} {c : Call} {e : Event} {point : Point} {shared : Shared}
    (h : s.Sound) (hk : s.calls[k]? = some c)
    (hact : Action k s.toShared c.point e point shared) :
    Sound { toShared := shared
            calls := s.calls.modify k fun c => { c with point }
            log := s.log ++ [e] } := by
  have htrail := h.trail k c hk
  have hlength : k < s.calls.length := (List.getElem?_eq_some_iff.mp hk).1
  constructor
  case trail =>
    intro j d hj
    rw [List.getElem?_modify] at hj
    rw [eventsOf, List.filter_append, ← eventsOf]
    by_cases hjk : k = j
    · subst hjk
      rw [hk] at hj
      simp only [Option.map_eq_map, Option.map_some, if_true, Option.some.injEq] at hj
      subst hj
      rw [List.filter_cons_of_pos (by simp [hact.call_eq]), List.filter_nil]
      exact htrail.next hact
    · rw [List.filter_cons_of_neg (by simp [hact.call_eq, hjk]), List.filter_nil, List.append_nil]
      simp only [hjk, if_false, Option.map_eq_map, Option.map_id'] at hj
      exact h.trail j d hj
  case called =>
    refine forall_mem_concat (fun e he => ?_) ?_
    · rw [List.length_modify]
      exact h.called e he
    · rw [List.length_modify, hact.call_eq]
      exact hlength
  case course => exact h.course.next hact
  case staged => exact h.staged.next hact

/-- One move keeps a race `Sound`. -/
theorem Sound.step (h : s.Sound) (m : Move) : (s.step m).Sound := by
  cases m with
  | call request => exact h.call request
  | act k =>
    rw [Race.step]
    split
    · exact h
    · next e point shared hact =>
      obtain ⟨c, hk, hact⟩ := Option.bind_eq_some_iff.mp hact
      exact h.acted hk (Point.acted hact)

/-- A whole run keeps a race `Sound`. -/
theorem Sound.run (h : s.Sound) (ms : List Move) : (s.run ms).Sound := by
  induction ms generalizing s with
  | nil => exact h
  | cons m ms ih => exact ih (h.step m)

/-- One `step` does not take the stage back. -/
theorem rank_step (s : Race) (m : Move) :
    s.lifecycle.stage.rank ≤ (s.step m).lifecycle.stage.rank := by
  cases m with
  | call request => exact Nat.le_refl _
  | act k =>
    rw [step]
    split
    · exact Nat.le_refl _
    · next e point shared hact =>
      obtain ⟨c, -, hact⟩ := Option.bind_eq_some_iff.mp hact
      exact (Point.acted hact).rank_le

/-- A lifecycle never goes back: its `Stage.rank` only grows. -/
theorem rank_run (s : Race) (ms : List Move) :
    s.lifecycle.stage.rank ≤ (s.run ms).lifecycle.stage.rank := by
  induction ms generalizing s with
  | nil => exact Nat.le_refl _
  | cons m ms ih => exact Nat.le_trans (s.rank_step m) (ih (s.step m))

end Race

end Dbgp
