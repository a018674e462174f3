import Dbgp.Proofs.BridgeMoves
import Mathlib.Data.List.Nodup

/-!
# Calls that race on the registry

Sessions come, are selected and go at the same time. The sessions that are tracked and the current one are
locked separately, so that a call to register or to select a session does two things one after the other:
it puts the session there or finds it, and then makes it the current one. A call to remove a session keeps the
tracked sessions locked while it repairs the current one. `RegistryRace` runs any number of such calls, one of
these actions after the other in any order. Every action leaves an `Event` in the log.

A call that is alone leaves a current session that is tracked, whenever there is one (`Registry.Live`). When
calls race, one of them may have found a session that is gone by the time at which it becomes the current one.
This is the only way in which the registry can be wrong once all calls have returned (`Overtaken`).
-/

namespace Dbgp.Bridge

/-! ## One call after the other -/

namespace Registry

variable {r : Registry}

/-- There is a `current` session if there are sessions at all, and it is one of them. -/
structure Live (r : Registry) : Prop where
  none_iff : r.current = none ↔ r.tracked = []
  tracked : ∀ i, r.current = some i → i ∈ r.tracked

/-- Takes a session from `tracked`. The current one may be wrong after that, until `repair`. -/
def drop (id : Nat) (r : Registry) : Registry :=
  { r with tracked := r.tracked.filter (· ≠ id) }

/-- If a session that has gone was the current one, the youngest of `tracked` takes its place. -/
def repair (id : Nat) (r : Registry) : Registry :=
  { r with current := if r.current = some id then r.tracked.max? else r.current }

/-- `Registry.forget` is `drop` and then `repair`. -/
theorem repair_drop (id : Nat) (r : Registry) : (r.drop id).repair id = r.forget id :=
  rfl

/-- `isTracked` decides whether a session is among `tracked`. -/
theorem isTracked_iff {id : Nat} : r.isTracked id = true ↔ id ∈ r.tracked :=
  List.contains_iff_mem

/-- A registry is `Live` if it has a current session that is tracked. -/
theorem live_of_current {i : Nat} (hcurrent : r.current = some i) (hi : i ∈ r.tracked) : r.Live := by
  refine ⟨?_, fun j hj => ?_⟩
  · rw [hcurrent]
    exact iff_of_false (by simp) (List.ne_nil_of_mem hi)
  · cases hcurrent.symm.trans hj
    exact hi

/-- After `repair` the current session is tracked, or is the one from before and not the one that has
gone. -/
theorem mem_of_repair {i j : Nat} (h : (r.repair i).current = some j) :
    j ∈ r.tracked ∨ r.current = some j ∧ j ≠ i := by
  rw [repair] at h
  split at h
  · exact .inl (List.max?_mem h)
  · next hi =>
    refine .inr ⟨h, ?_⟩
    rintro rfl
    exact hi h

/-- After `repair` there is no current session only if there are no sessions, or there was none
before. -/
theorem tracked_of_repair {i : Nat} (h : (r.repair i).current = none) :
    r.tracked = [] ∨ r.current = none := by
  rw [repair] at h
  split at h
  · exact .inl (List.max?_eq_none_iff.mp h)
  · exact .inr h

/-- `Registry.forget` leaves a registry `Live`. -/
theorem Live.forget (h : r.Live) (id : Nat) : (r.forget id).Live := by
  rw [← repair_drop]
  cases hcurrent : ((r.drop id).repair id).current with
  | none =>
    refine ⟨iff_of_true hcurrent ?_, fun j hj => by cases hcurrent.symm.trans hj⟩
    obtain hnone | hnone := tracked_of_repair hcurrent
    · exact hnone
    · exact List.filter_eq_nil_iff.mpr fun j hj => by simp [h.none_iff.mp hnone] at hj
  | some j =>
    refine live_of_current hcurrent ?_
    obtain hj | ⟨hj, hne⟩ := mem_of_repair hcurrent
    · exact hj
    · exact List.mem_filter.mpr ⟨h.tracked j hj, by simpa using hne⟩

end Registry

/-- What is asked of a `Registry`. -/
inductive RegistryRequest where
  | register (id : Nat)
  | select (id : Nat)
  | remove (id : Nat)
  deriving DecidableEq, Repr

/-- What becomes of the `Registry` if nobody else acts meanwhile. -/
def RegistryRequest.outcome (r : Registry) : RegistryRequest → Registry
  | .register id => r.register id
  | .select id => (r.select id).getD r
  | .remove id => r.forget id

/-- Calls one after the other leave a registry `Registry.Live`. -/
theorem Registry.Live.outcome {r : Registry} (h : r.Live) (request : RegistryRequest) :
    (request.outcome r).Live := by
  cases request with
  | register id => exact live_of_current rfl (mem_insert.mpr (.inl rfl))
  | select id =>
    rw [RegistryRequest.outcome, select]
    split
    · next hid => exact live_of_current rfl (isTracked_iff.mp hid)
    · exact h
  | remove id => exact h.forget id

/-- A `Forwarder` leaves the registry alone, or does what one of the requests does. -/
theorem Forwarder.Action.registry {f : Forwarder} {g g' : ForwardGround} {step : ForwardStep}
    (h : f.Action g step g') :
    g'.registry = g.registry ∨ ∃ request : RegistryRequest, g'.registry = request.outcome g.registry := by
  cases h with
  | forgot => exact .inr ⟨.remove _, rfl⟩
  | notified | printed | passed | slept | closed | woken | drainedNotifies | drainedOutputs
  | announced => exact .inl rfl

/-- A move of a bridge leaves its registry alone, or does to it what one `RegistryRequest` does. -/
theorem registry_step (b : Bridge) (m : Move) : (b.step m).registry = b.registry ∨
    ∃ request : RegistryRequest, (b.step m).registry = request.outcome b.registry := by
  cases m with
  | client m => exact .inl rfl
  | register session => exact .inr ⟨.register session, rfl⟩
  | call c =>
    obtain ⟨registry, outcome, hcall, rfl | ⟨id, hselect⟩, -⟩ | ⟨action, j, job, shown, -, -, hcall⟩ :=
      b.called c
    · exact .inl (by rw [step, hcall])
    · refine .inr ⟨.select id, ?_⟩
      rw [step, hcall, RegistryRequest.outcome, hselect, Option.getD_some]
    · exact .inl (by rw [step, hcall])
  | greet =>
    obtain hgreet | ⟨k, e, rest, -, hgreet⟩ | ⟨k, j, rest, -, hgreet⟩ := b.greeted
    · exact .inl (by rw [hgreet])
    · exact .inl (by rw [hgreet])
    · exact .inr ⟨.register j, by rw [hgreet]; rfl⟩
  | answer =>
    obtain hanswer | ⟨k, result, rest, -, hanswer | ⟨p, -, -, hanswer⟩⟩ := b.answered
    · exact .inl (by rw [hanswer])
    · exact .inl (by rw [hanswer])
    · exact .inl (by rw [hanswer])
  | forward f =>
    obtain hforward | ⟨s, step, g, -, -, haction, hforward⟩ := b.forwarded f
    · exact .inl (by rw [hforward])
    · rw [hforward]
      exact haction.registry

/-- The registry of a bridge is `Registry.Live` after every run. -/
theorem live_run (address : String) (ms : List Move) : (run { address } ms).registry.Live := by
  have hnew : Registry.Live {} := ⟨iff_of_true rfl rfl, fun i hi => (nomatch hi)⟩
  suffices h : ∀ b : Bridge, b.registry.Live → (b.run ms).registry.Live from h _ hnew
  induction ms with
  | nil => exact fun b h => h
  | cons m ms ih =>
    intro b h
    refine ih (b.step m) ?_
    obtain hsame | ⟨request, hrequest⟩ := b.registry_step m
    · exact hsame ▸ h
    · exact hrequest ▸ h.outcome request

/-! ## Calls -/

namespace RegistryRace

/-- What a call is about to do. Each `RegistryRequest` takes two of these actions, unless `check`
finds nothing. -/
inductive Point where
  | track (id : Nat)
  | check (id : Nat)
  | choose (id : Nat)
  | drop (id : Nat)
  | repair (id : Nat)
  | done
  deriving DecidableEq, Repr

/-- A call, with how far it has come (`Point`). -/
structure Call where
  request : RegistryRequest
  point : Point
  deriving DecidableEq, Repr

/-- What a `Call` has done, as the log of the race has it. -/
inductive Event where
  | tracked (call id : Nat)
  | found (call id : Nat)
  | missed (call id : Nat)
  | chose (call id : Nat)
  | dropped (call id : Nat)
  | repaired (call id : Nat)
  deriving DecidableEq, Repr

/-- What all calls act on: the registry, and the lock on its `tracked` sessions. -/
structure Shared where
  registry : Registry := {}
  /-- The call that has locked the tracked sessions. -/
  holder : Option Nat := none
  deriving DecidableEq, Repr

/-- One action of a call, if it can act now: all but `choose` and `repair` have to find the lock
free. -/
def Point.act (k : Nat) (s : Shared) : Point → Option (Event × Point × Shared)
  | .track id =>
    if s.holder = none then
      some (.tracked k id, .choose id, { s with registry := s.registry.track id })
    else none
  | .check id =>
    if s.holder = none then
      if s.registry.isTracked id then some (.found k id, .choose id, s)
      else some (.missed k id, .done, s)
    else none
  | .choose id => some (.chose k id, .done, { s with registry := s.registry.makeCurrent id })
  | .drop id =>
    if s.holder = none then
      some (.dropped k id, .repair id, { registry := s.registry.drop id, holder := some k })
    else none
  | .repair id =>
    some (.repaired k id, .done, { registry := s.registry.repair id, holder := none })
  | .done => none

/-- What an action of `Point.act` can be, and what it does. -/
inductive Action (k : Nat) (s : Shared) : Point → Event → Point → Shared → Prop
  | tracked {id : Nat} : Action k s (.track id) (.tracked k id) (.choose id)
      { s with registry := s.registry.track id }
  | found {id : Nat} : id ∈ s.registry.tracked →
      Action k s (.check id) (.found k id) (.choose id) s
  | missed {id : Nat} : Action k s (.check id) (.missed k id) .done s
  | chose {id : Nat} : Action k s (.choose id) (.chose k id) .done
      { s with registry := s.registry.makeCurrent id }
  | dropped {id : Nat} : Action k s (.drop id) (.dropped k id) (.repair id)
      { registry := s.registry.drop id, holder := some k }
  | repaired {id : Nat} : Action k s (.repair id) (.repaired k id) .done
      { registry := s.registry.repair id, holder := none }

/-- Every action of `Point.act` is one of `Action`. -/
theorem Point.acted {k : Nat} {s s' : Shared} {p p' : Point} {e : Event}
    (h : p.act k s = some (e, p', s')) : Action k s p e p' s' := by
  cases p with
  | track id =>
    rw [act] at h
    split at h
    · cases h
      exact .tracked
    · cases h
  | check id =>
    rw [act] at h
    split at h
    · split at h
      · next hid =>
        cases h
        exact .found (Registry.isTracked_iff.mp hid)
      · cases h
        exact .missed
    · cases h
  | choose id =>
    cases h
    exact .chose
  | drop id =>
    rw [act] at h
    split at h
    · cases h
      exact .dropped
    · cases h
  | repair id =>
    cases h
    exact .repaired
  | done => cases h

end RegistryRace

/-- The first `Point` of a call. -/
def RegistryRequest.point : RegistryRequest → RegistryRace.Point
  | .register id => .track id
  | .select id => .check id
  | .remove id => .drop id

/-- The session that is registered by the request, if it is a `register`. -/
def RegistryRequest.registers? : RegistryRequest → Option Nat
  | .register id => some id
  | _ => none

/-- Calls that act on one `Registry`. -/
structure RegistryRace extends RegistryRace.Shared where
  calls : List RegistryRace.Call := []
  /-- What they have done, the first thing first. -/
  log : List RegistryRace.Event := []
  deriving DecidableEq, Repr

namespace RegistryRace

/-- Somebody makes a `call`, or a call does its next action. -/
inductive Move where
  | call (request : RegistryRequest)
  | act (call : Nat)
  deriving DecidableEq, Repr

/-- The race after a `Move`. -/
def step (s : RegistryRace) : Move → RegistryRace
  | .call request => { s with calls := s.calls ++ [⟨request, request.point⟩] }
  | .act k =>
    match s.calls[k]?.bind fun c => c.point.act k s.toShared with
    | none => s
    | some (e, point, shared) =>
      { toShared := shared
        calls := s.calls.modify k fun c => { c with point }
        log := s.log ++ [e] }

/-- The race after some moves, by `step`. -/
def run (s : RegistryRace) (moves : List Move) : RegistryRace :=
  moves.foldl step s

/-- All calls have returned: they are at `done`. -/
def AtRest (s : RegistryRace) : Prop :=
  ∀ c ∈ s.calls, c.point = .done

instance (s : RegistryRace) : Decidable s.AtRest :=
  inferInstanceAs (Decidable (∀ c ∈ s.calls, c.point = .done))

/-- What has been asked, one `RegistryRequest` for each call. -/
def requests (s : RegistryRace) : List RegistryRequest :=
  s.calls.map (·.request)

/-- No session is registered twice: calls of `register` have sessions of their own. -/
def Fresh (s : RegistryRace) : Prop :=
  (s.requests.filterMap RegistryRequest.registers?).Nodup

instance (s : RegistryRace) : Decidable s.Fresh :=
  inferInstanceAs (Decidable (List.Nodup _))

/-- Whether the event is `chose`, by which a session became the current one. -/
def Event.isChoice : Event → Bool
  | .chose _ _ => true
  | _ => false

/-- A call has seen that a session is tracked: it has put it there (`tracked`) or found it
(`found`). -/
inductive Event.Sees (k id : Nat) : Event → Prop
  | tracked : Sees k id (.tracked k id)
  | found : Sees k id (.found k id)

/-- A session was `dropped` after a call had seen it, and before the call made it the current one.
Nobody has made another session the current one since. -/
def Overtaken (id : Nat) (log : List Event) : Prop :=
  ∃ k j e before between after later,
    log = before ++ e :: (between ++ .dropped j id :: (after ++ .chose k id :: later)) ∧
      e.Sees k id ∧ ∀ e' ∈ later, e'.isChoice = false

/-! ## What is known of a race -/

variable {s : RegistryRace} {k j : Nat} {c : Call} {p p' : Point} {e : Event} {shared : Shared}
  {log : List Event} {id : Nat}

/-- The `Point` a call is at, by its number. -/
def point? (k : Nat) (s : RegistryRace) : Option Point :=
  s.calls[k]?.map (·.point)

/-- The race after an `Action`. -/
def acted (s : RegistryRace) (k : Nat) (e : Event) (point : Point) (shared : Shared) : RegistryRace where
  toShared := shared
  calls := s.calls.modify k fun c => { c with point }
  log := s.log ++ [e]

/-- An `Action` asks nothing new. -/
theorem requests_acted (s : RegistryRace) (k : Nat) (e : Event) (p' : Point) (shared : Shared) :
    (s.acted k e p' shared).requests = s.requests := by
  refine List.ext_getElem? fun j => ?_
  rw [requests, requests, acted, List.getElem?_map, List.getElem?_modify, List.getElem?_map]
  by_cases hj : k = j <;> simp [hj, Function.comp_def]

/-- After an `Action` one call has come further, and all others are where they were. -/
theorem point?_acted (hk : s.point? k = some p) (j : Nat) :
    (s.acted k e p' shared).point? j = if j = k then some p' else s.point? j := by
  rw [point?, acted, List.getElem?_modify]
  by_cases hj : k = j
  · subst hj
    obtain ⟨c, hc, -⟩ := Option.map_eq_some_iff.mp hk
    simp [hc]
  · simp [hj, Ne.symm hj, point?]

/-- A new `call` adds its request. -/
theorem requests_call (s : RegistryRace) (request : RegistryRequest) :
    (s.step (.call request)).requests = s.requests ++ [request] :=
  List.map_append

/-- A new call is about to do the first thing of its request, `RegistryRequest.point`. -/
theorem point?_call (request : RegistryRequest) (j : Nat) :
    (s.step (.call request)).point? j =
      if j = s.calls.length then some request.point else s.point? j := by
  rw [point?, step, List.getElem?_append, point?]
  obtain hlt | rfl | hgt := Nat.lt_trichotomy j s.calls.length
  · rw [if_pos hlt, if_neg (by omega)]
  · simp
  · rw [if_neg (by omega), if_neg (by omega), List.getElem?_eq_none (by simp; omega),
      List.getElem?_eq_none (by omega)]

/-- In a race that is `Fresh` only one call registers a session. -/
theorem Fresh.eq (h : s.Fresh) (hj : s.requests[j]? = some (.register id))
    (hk : s.requests[k]? = some (.register id)) : j = k := by
  rw [Fresh, List.Nodup, List.pairwise_filterMap, List.pairwise_iff_getElem] at h
  obtain ⟨hj, hj'⟩ := List.getElem?_eq_some_iff.mp hj
  obtain ⟨hk, hk'⟩ := List.getElem?_eq_some_iff.mp hk
  have hne : ∀ {i i'} (hi : i < s.requests.length) (hi' : i' < s.requests.length), i < i' →
      s.requests[i] = .register id → s.requests[i'] = .register id → False := by
    intro i i' hi hi' hlt hreq hreq'
    exact h i i' hi hi' hlt id (by rw [hreq]; rfl) id (by rw [hreq']; rfl) rfl
  obtain hlt | heq | hgt := Nat.lt_trichotomy j k
  · exact (hne hj hk hlt hj' hk').elim
  · exact heq
  · exact (hne hk hj hgt hk' hj').elim

/-- A session went after somebody had seen it. Unlike `Overtaken` this does not ask what the call did
next. -/
def Lost (id : Nat) (log : List Event) : Prop :=
  ∃ k j e before after, log = before ++ e :: after ∧ e.Sees k id ∧ .dropped j id ∈ after

/-- Where a call was overtaken the session is `Lost`. -/
theorem Overtaken.lost (h : Overtaken id log) : Lost id log := by
  obtain ⟨k, j, e, before, between, after, later, rfl, hsees, -⟩ := h
  exact ⟨k, j, e, before, _, rfl, hsees, by simp⟩

/-- `Overtaken` stays so until another session becomes the current one. -/
theorem Overtaken.concat (h : Overtaken id log) (he : e.isChoice = false) :
    Overtaken id (log ++ [e]) := by
  obtain ⟨k, j, e', before, between, after, later, rfl, hsees, hlater⟩ := h
  refine ⟨k, j, e', before, between, after, later ++ [e], by simp, hsees, fun e₁ he₁ => ?_⟩
  obtain he₁ | he₁ := List.mem_append.mp he₁
  · exact hlater e₁ he₁
  · rw [List.mem_singleton.mp he₁]
    exact he

/-- A session is `Lost` by the last event only if this event drops it. -/
theorem lost_concat (h : Lost id (log ++ [e])) : Lost id log ∨ ∃ j, e = .dropped j id := by
  obtain ⟨k, j, e', before, after, hlog, hsees, hdropped⟩ := h
  obtain rfl | ⟨after, last, rfl⟩ := List.eq_nil_or_concat' after
  · cases hdropped
  · rw [← List.cons_append, ← List.append_assoc] at hlog
    obtain ⟨rfl, hlast⟩ := List.append_inj' hlog rfl
    cases hlast
    obtain hdropped | hdropped := List.mem_append.mp hdropped
    · exact .inl ⟨k, j, e', before, after, rfl, hsees, hdropped⟩
    · exact .inr ⟨j, (List.mem_singleton.mp hdropped).symm⟩

/-! ### What the log records -/

/-- A session that is tracked after an `Action` was so before, or has come now. -/
theorem Action.tracked_or {s : Shared} (h : Action k s p e p' shared)
    (hid : id ∈ shared.registry.tracked) : id ∈ s.registry.tracked ∨ e = .tracked k id := by
  cases h with
  | tracked => exact (Registry.mem_insert.mp hid).symm.imp_right fun h => by rw [h]
  | dropped => exact .inl (List.mem_filter.mp hid).1
  | found | missed | chose | repaired => exact .inl hid

/-- A session that was tracked before an `Action` is so still, or has gone now. -/
theorem Action.tracked_or_dropped {s : Shared} (h : Action k s p e p' shared)
    (hid : id ∈ s.registry.tracked) : id ∈ shared.registry.tracked ∨ e = .dropped k id := by
  cases h with
  | tracked => exact .inl (Registry.mem_insert.mpr (.inr hid))
  | @dropped id' =>
    by_cases hne : id = id'
    · exact .inr (by rw [hne])
    · exact .inl (List.mem_filter.mpr ⟨hid, by simpa using hne⟩)
  | found | missed | chose | repaired => exact .inl hid

/-- A call that has acted is not at `track`: that is always the first thing to do. -/
theorem Action.point_ne_track {s : Shared} (h : Action k s p e p' shared) (id : Nat) :
    p' ≠ .track id := by
  cases h <;> simp

/-- What the log says about the sessions that are tracked. A session that is `Lost` does not come
back, if the race is `Fresh`. -/
structure Recorded (s : RegistryRace) : Prop where
  tracking : ∀ k id, s.point? k = some (.track id) → s.requests[k]? = some (.register id)
  tracked : ∀ k id, .tracked k id ∈ s.log →
    s.requests[k]? = some (.register id) ∧ ∀ j, s.point? k ≠ some (.track j)
  found : ∀ k id, .found k id ∈ s.log → ∃ j, .tracked j id ∈ s.log
  known : ∀ id ∈ s.registry.tracked, ∃ j, .tracked j id ∈ s.log
  lost : s.Fresh → ∀ id, Lost id s.log → id ∉ s.registry.tracked

/-- A session that is `Lost` was tracked once. -/
theorem Recorded.tracked_of_lost (h : s.Recorded) (hlost : Lost id s.log) :
    ∃ j, .tracked j id ∈ s.log := by
  obtain ⟨k, j, e, before, after, hlog, hsees, -⟩ := hlost
  have hmem : e ∈ s.log := by simp [hlog]
  cases hsees with
  | tracked => exact ⟨k, hmem⟩
  | found => exact h.found k id hmem

/-- A new call keeps what is `Recorded`. -/
theorem Recorded.call (h : s.Recorded) (request : RegistryRequest) :
    (s.step (.call request)).Recorded := by
  have hlength : s.requests.length = s.calls.length := List.length_map _
  refine ⟨fun k id hk => ?_, fun k id hk => ?_, h.found, h.known, fun hfresh => h.lost ?_⟩
  · rw [point?_call] at hk
    rw [requests_call]
    split at hk
    · next hkl =>
      rw [List.getElem?_append_right (by omega), hkl, hlength, Nat.sub_self]
      cases request <;> cases hk
      rfl
    · have hreq := h.tracking k id hk
      rw [List.getElem?_append_left (List.getElem?_eq_some_iff.mp hreq).1]
      exact hreq
  · obtain ⟨hreq, hpoint⟩ := h.tracked k id hk
    have hlt := (List.getElem?_eq_some_iff.mp hreq).1
    rw [requests_call, List.getElem?_append_left hlt, point?_call, if_neg (by omega)]
    exact ⟨hreq, hpoint⟩
  · rw [Fresh, requests_call, List.filterMap_append] at hfresh
    exact hfresh.of_append_left

/-- An action keeps what is `Recorded`. -/
theorem Recorded.acted (h : s.Recorded) (hk : s.point? k = some p)
    (hact : Action k s.toShared p e p' shared) : (s.acted k e p' shared).Recorded := by
  have hlog : ∀ {e'}, e' ∈ s.log → e' ∈ s.log ++ [e] := fun he' => List.mem_append_left _ he'
  refine ⟨fun j id hj => ?_, fun j id hj => ?_, fun j id hj => ?_, fun id hid => ?_,
    fun hfresh id hlost hid => ?_⟩
  · rw [point?_acted hk] at hj
    rw [requests_acted]
    split at hj
    · cases hj
      exact absurd rfl (hact.point_ne_track id)
    · exact h.tracking j id hj
  · rw [requests_acted, point?_acted hk]
    obtain hj | hj := List.mem_append.mp hj
    · obtain ⟨hreq, hpoint⟩ := h.tracked j id hj
      refine ⟨hreq, fun i => ?_⟩
      split
      · simpa using hact.point_ne_track i
      · exact hpoint i
    · cases List.mem_singleton.mp hj
      cases hact
      rw [if_pos rfl]
      exact ⟨h.tracking k id hk, by simp⟩
  · obtain hj | hj := List.mem_append.mp hj
    · obtain ⟨i, hi⟩ := h.found j id hj
      exact ⟨i, hlog hi⟩
    · cases List.mem_singleton.mp hj
      cases hact with
      | found hid =>
        obtain ⟨i, hi⟩ := h.known id hid
        exact ⟨i, hlog hi⟩
  · obtain hid | rfl := hact.tracked_or hid
    · obtain ⟨i, hi⟩ := h.known id hid
      exact ⟨i, hlog hi⟩
    · exact ⟨k, List.mem_append_right _ (List.mem_singleton_self _)⟩
  · rw [Fresh, requests_acted] at hfresh
    obtain hbefore | ⟨j, rfl⟩ := lost_concat hlost
    · obtain hid | rfl := hact.tracked_or hid
      · exact h.lost hfresh id hbefore hid
      · -- It would come a second time, by the same call.
        cases hact
        obtain ⟨j, hj⟩ := h.tracked_of_lost hbefore
        obtain ⟨hreq, hpoint⟩ := h.tracked j id hj
        cases Fresh.eq hfresh hreq (h.tracking k id hk)
        exact hpoint id hk
    · cases hact
      simp [RegistryRace.acted, Registry.drop] at hid

/-! ### Where the current session comes from -/

/-- Why the current session is the one that it is, or why there is none: somebody is about to change
it, it is tracked, or `Overtaken` holds of it. -/
structure Chosen (s : RegistryRace) : Prop where
  unset : s.registry.current = none → ∀ id ∈ s.registry.tracked, ∃ k, s.point? k = some (.choose id)
  set : ∀ id, s.registry.current = some id →
    id ∈ s.registry.tracked ∨ (∃ k, s.point? k = some (.repair id)) ∨ Overtaken id s.log
  choosing : ∀ k id, s.point? k = some (.choose id) → ∃ e before after,
    s.log = before ++ e :: after ∧ e.Sees k id ∧
      (id ∈ s.registry.tracked ∨ ∃ j, .dropped j id ∈ after)

/-- A new call keeps what `Chosen` says. -/
theorem Chosen.call (h : s.Chosen) (request : RegistryRequest) : (s.step (.call request)).Chosen := by
  have hkeep : ∀ {k p}, s.point? k = some p → (s.step (.call request)).point? k = some p := by
    intro k p hk
    obtain ⟨c, hc, -⟩ := Option.map_eq_some_iff.mp hk
    have hlt := (List.getElem?_eq_some_iff.mp hc).1
    rw [point?_call, if_neg (by omega)]
    exact hk
  refine ⟨fun hnone id hid => ?_, fun id hid => ?_, fun k id hk => ?_⟩
  · obtain ⟨k, hk⟩ := h.unset hnone id hid
    exact ⟨k, hkeep hk⟩
  · obtain htracked | ⟨k, hk⟩ | hovertaken := h.set id hid
    · exact .inl htracked
    · exact .inr (.inl ⟨k, hkeep hk⟩)
    · exact .inr (.inr hovertaken)
  · rw [point?_call] at hk
    split at hk
    · cases request <;> cases hk
    · exact h.choosing k id hk

/-- The session that a call at `choose` makes the current one is tracked, or the call has been
`Overtaken`. -/
theorem Chosen.overtaken (h : s.Chosen) (hk : s.point? k = some (.choose id)) :
    id ∈ s.registry.tracked ∨ Overtaken id (s.log ++ [.chose k id]) := by
  obtain ⟨e, before, after, hlog, hsees, htracked | ⟨j, hj⟩⟩ := h.choosing k id hk
  · exact .inl htracked
  · -- It has gone since the call saw it.
    obtain ⟨between, after, rfl⟩ := List.append_of_mem hj
    exact .inr ⟨k, j, e, before, between, after, [], by simp [hlog], hsees, by simp⟩

/-- The call that has `acted` is where its action took it. -/
theorem point?_acted_self (hk : s.point? k = some p) :
    (s.acted k e p' shared).point? k = some p' := by
  rw [point?_acted hk, if_pos rfl]

/-- A call that is not at the `Point` of the action stays where it is. -/
theorem point?_acted_of_ne {q : Point} (hk : s.point? k = some p) (hj : s.point? j = some q)
    (hq : q ≠ p) : (s.acted k e p' shared).point? j = some q := by
  rw [point?_acted hk, if_neg]
  · exact hj
  · rintro rfl
    exact hq (Option.some.inj (hj.symm.trans hk))

/-- While there is no `current` session after an action, somebody is about to choose each session that
is tracked. -/
theorem Chosen.unset_acted (h : s.Chosen) (hk : s.point? k = some p)
    (hact : Action k s.toShared p e p' shared) (hnone : shared.registry.current = none)
    (hid : id ∈ shared.registry.tracked) :
    ∃ j, (s.acted k e p' shared).point? j = some (.choose id) := by
  obtain hbefore | rfl := hact.tracked_or hid
  · have hkept : s.registry.current = none → (∀ i, p ≠ .choose i) →
        ∃ j, (s.acted k e p' shared).point? j = some (.choose id) := by
      intro hnone hp
      obtain ⟨j, hj⟩ := h.unset hnone id hbefore
      exact ⟨j, point?_acted_of_ne hk hj (hp id).symm⟩
    cases hact with
    | tracked | found | missed | dropped => exact hkept hnone (by simp)
    -- Whoever makes a session the current one is no longer needed to say why there is none.
    | chose => cases hnone
    | repaired =>
      obtain hnil | hnone := Registry.tracked_of_repair hnone
      · rw [hnil] at hbefore
        cases hbefore
      · exact hkept hnone (by simp)
  · cases hact
    exact ⟨k, point?_acted_self hk⟩

/-- The current session after an action is tracked, about to be repaired, or `Overtaken` holds of
it. -/
theorem Chosen.set_acted (h : s.Chosen) (hk : s.point? k = some p)
    (hact : Action k s.toShared p e p' shared) (hid : shared.registry.current = some id) :
    id ∈ shared.registry.tracked ∨ (∃ j, (s.acted k e p' shared).point? j = some (.repair id)) ∨
      Overtaken id (s.log ++ [e]) := by
  have hkept : s.registry.current = some id → p ≠ .repair id → e.isChoice = false →
      id ∈ shared.registry.tracked ∨ (∃ j, (s.acted k e p' shared).point? j = some (.repair id)) ∨
        Overtaken id (s.log ++ [e]) := by
    intro hid hp he
    obtain htracked | ⟨j, hj⟩ | hovertaken := h.set id hid
    · refine (hact.tracked_or_dropped htracked).imp_right fun hdropped => .inl ⟨k, ?_⟩
      subst hdropped
      cases hact
      exact point?_acted_self hk
    · exact .inr (.inl ⟨j, point?_acted_of_ne hk hj hp.symm⟩)
    · exact .inr (.inr (hovertaken.concat he))
  cases hact with
  | tracked | found | missed | dropped => exact hkept hid (by simp) rfl
  | chose =>
    cases hid
    exact (h.overtaken hk).imp_right .inr
  | repaired =>
    -- What takes the place is tracked; otherwise the repair was for another session.
    obtain htracked | ⟨hid, hne⟩ := Registry.mem_of_repair hid
    · exact .inl htracked
    · exact hkept hid (by simpa using hne.symm) rfl

/-- An action keeps what `Chosen` says. -/
theorem Chosen.acted (h : s.Chosen) (hk : s.point? k = some p)
    (hact : Action k s.toShared p e p' shared) : (s.acted k e p' shared).Chosen := by
  refine ⟨fun hnone id => h.unset_acted hk hact hnone, fun id => h.set_acted hk hact,
    fun j id hj => ?_⟩
  rw [point?_acted hk] at hj
  split at hj
  · next hjk =>
    subst hjk
    cases hj
    cases hact with
    | tracked =>
      exact ⟨_, s.log, [], rfl, .tracked, .inl (Registry.mem_insert.mpr (.inl rfl))⟩
    | found hid => exact ⟨_, s.log, [], rfl, .found, .inl hid⟩
  · -- Another call has seen it before. If it goes now, the log says so after that place.
    obtain ⟨e', before, after, hlog, hsees, hlater⟩ := h.choosing j id hj
    refine ⟨e', before, after ++ [e], by simp [RegistryRace.acted, hlog], hsees, ?_⟩
    obtain hid | ⟨i, hi⟩ := hlater
    · obtain hid | rfl := hact.tracked_or_dropped hid
      · exact .inl hid
      · exact .inr ⟨k, List.mem_append_right _ (List.mem_singleton_self _)⟩
    · exact .inr ⟨i, List.mem_append_left _ hi⟩

/-! ## All races -/

/-- A call that can act takes the race to `acted`. -/
theorem step_of_act (hk : s.calls[k]? = some c) (hact : c.point.act k s.toShared = some (e, p', shared)) :
    s.step (.act k) = s.acted k e p' shared := by
  rw [step, hk, Option.bind_some, hact]
  rfl

/-- A move of a call does nothing, or is an `Action`. -/
theorem step_act (s : RegistryRace) (k : Nat) : s.step (.act k) = s ∨
    ∃ p e p' shared, s.point? k = some p ∧ Action k s.toShared p e p' shared ∧
      s.step (.act k) = s.acted k e p' shared := by
  rw [step]
  split
  · exact .inl rfl
  · next e p' shared hact =>
    obtain ⟨c, hc, hact⟩ := Option.bind_eq_some_iff.mp hact
    exact .inr ⟨c.point, e, p', shared, by rw [point?, hc]; rfl, Point.acted hact, rfl⟩

/-- All that holds of a race at every moment: `Recorded` and `Chosen`. -/
structure Sound (s : RegistryRace) : Prop where
  recorded : s.Recorded
  chosen : s.Chosen

/-- Before the first call a race is `Sound`. -/
theorem sound_new : Sound {} := by
  have hnone : ∀ {k p}, ¬point? k {} = some p := fun h => by cases h
  refine ⟨⟨fun k id hk => (hnone hk).elim, fun k id hk => ?_, fun k id hk => ?_, fun id hid => ?_,
    fun _ id _ hid => ?_⟩, ⟨fun _ id hid => ?_, fun id hid => ?_, fun k id hk => (hnone hk).elim⟩⟩
  · cases hk
  · cases hk
  · cases hid
  · cases hid
  · cases hid
  · cases hid

/-- One move keeps a race `Sound`. -/
theorem Sound.step (h : s.Sound) (m : Move) : (s.step m).Sound := by
  cases m with
  | call request => exact ⟨h.recorded.call request, h.chosen.call request⟩
  | act k =>
    obtain hsame | ⟨p, e, p', shared, hk, hact, hstep⟩ := s.step_act k
    · rw [hsame]
      exact h
    · rw [hstep]
      exact ⟨h.recorded.acted hk hact, h.chosen.acted hk hact⟩

/-- A whole run keeps a race `Sound`. -/
theorem Sound.run (h : s.Sound) (ms : List Move) : (s.run ms).Sound := by
  induction ms generalizing s with
  | nil => exact h
  | cons m ms ih => exact ih (h.step m)

/-- In a race that is `AtRest` every call is at `done`. -/
theorem AtRest.point?_eq (h : s.AtRest) (hk : s.point? k = some p) : p = .done := by
  obtain ⟨c, hc, rfl⟩ := Option.map_eq_some_iff.mp hk
  exact h c (List.mem_of_getElem? hc)

/-- In a race that is `AtRest` there is no current session only if there are no sessions. -/
theorem Sound.tracked_eq_nil (h : s.Sound) (hrest : s.AtRest) (hnone : s.registry.current = none) :
    s.registry.tracked = [] := by
  refine List.eq_nil_iff_forall_not_mem.mpr fun id hid => ?_
  obtain ⟨k, hk⟩ := h.chosen.unset hnone id hid
  cases hrest.point?_eq hk

/-- At rest the current session is tracked exactly if `Overtaken` does not hold of it. -/
theorem Sound.mem_tracked_iff (h : s.Sound) (hfresh : s.Fresh) (hrest : s.AtRest)
    (hid : s.registry.current = some id) :
    id ∈ s.registry.tracked ↔ ¬Overtaken id s.log := by
  refine ⟨fun htracked hovertaken => h.recorded.lost hfresh id hovertaken.lost htracked, fun hnot => ?_⟩
  obtain htracked | ⟨k, hk⟩ | hovertaken := h.chosen.set id hid
  · exact htracked
  · cases hrest.point?_eq hk
  · exact absurd hovertaken hnot

/-- At rest a registry is `Registry.Live` exactly if nobody was overtaken on the way to its current
session. -/
theorem Sound.live_iff (h : s.Sound) (hfresh : s.Fresh) (hrest : s.AtRest) :
    s.registry.Live ↔ ∀ id, s.registry.current = some id → ¬Overtaken id s.log := by
  constructor
  · intro hlive id hid
    exact (h.mem_tracked_iff hfresh hrest hid).mp (hlive.tracked id hid)
  · intro hnone
    cases hcurrent : s.registry.current with
    | none =>
      refine ⟨iff_of_true hcurrent (h.tracked_eq_nil hrest hcurrent), fun id hid => ?_⟩
      cases hcurrent.symm.trans hid
    | some id =>
      exact Registry.live_of_current hcurrent
        ((h.mem_tracked_iff hfresh hrest hcurrent).mpr (hnone id hcurrent))

/-! ## Calls without a race -/

/-- After `acted` the call has come further and keeps its request. -/
theorem getElem?_acted (hk : s.calls[k]? = some c) :
    (s.acted k e p' shared).calls[k]? = some { c with point := p' } := by
  rw [acted, List.getElem?_modify, hk]
  simp

/-- The `run` of two actions of a call, after which it has returned. -/
theorem run_twice {e' : Event} {shared' : Shared} (hk : s.calls[k]? = some c)
    (hact : c.point.act k s.toShared = some (e, p', shared))
    (hact' : p'.act k shared = some (e', .done, shared')) :
    (s.run [.act k, .act k]).registry = shared'.registry ∧
      (s.run [.act k, .act k]).calls[k]? = some ⟨c.request, .done⟩ := by
  have hk' : (s.acted k e p' shared).calls[k]? = some { c with point := p' } := getElem?_acted hk
  rw [run, List.foldl_cons, List.foldl_cons, List.foldl_nil, step_of_act hk hact,
    step_of_act hk' hact']
  have hdone := @getElem?_acted (s.acted k e p' shared) k _ .done e' shared' hk'
  exact ⟨rfl, hdone⟩

/-- A call has the `outcome` of its request if nobody else acts meanwhile. -/
theorem run_alone {request : RegistryRequest} (hholder : s.holder = none)
    (hk : s.calls[k]? = some ⟨request, request.point⟩) :
    (s.run [.act k, .act k]).registry = request.outcome s.registry ∧
      (s.run [.act k, .act k]).calls[k]? = some ⟨request, .done⟩ := by
  cases request with
  | register id => exact run_twice hk (if_pos hholder) rfl
  | remove id => exact run_twice hk (if_pos hholder) rfl
  | select id =>
    rw [RegistryRequest.outcome, Registry.select]
    split
    · next hid => exact run_twice hk ((if_pos hholder).trans (if_pos hid)) rfl
    · next hid =>
      have hk' : (s.acted k (.missed k id) .done s.toShared).calls[k]? = some ⟨.select id, .done⟩ :=
        getElem?_acted hk
      have hstop : ((s.acted k (.missed k id) .done s.toShared).step (.act k)) =
          s.acted k (.missed k id) .done s.toShared := by
        rw [step, hk']
        rfl
      rw [run, List.foldl_cons, List.foldl_cons, List.foldl_nil,
        step_of_act hk ((if_pos hholder).trans (if_neg hid)), hstop]
      exact ⟨rfl, hk'⟩

/-! ## The current session -/

/-- When all calls have returned and no session has been registered twice, there is no current session
only if there are no sessions, and the current session is one of them unless a call has been
overtaken: it had seen the session, which went before the call made it the current one. A call that
nobody interferes with has the outcome of its request, and a bridge whose calls do not race always has
a current session that is live, if it has sessions. -/
theorem live_iff_not_overtaken (ms : List Move) :
    ((run {} ms).Fresh → (run {} ms).AtRest →
      let s := run {} ms
      (s.registry.current = none → s.registry.tracked = []) ∧
      (∀ id, s.registry.current = some id → (id ∈ s.registry.tracked ↔ ¬Overtaken id s.log)) ∧
      (s.registry.Live ↔ ∀ id, s.registry.current = some id → ¬Overtaken id s.log)) ∧
    (∀ (k : Nat) (request : RegistryRequest), (run {} ms).holder = none →
      (run {} ms).calls[k]? = some ⟨request, request.point⟩ →
      let s := run {} (ms ++ [.act k, .act k])
      s.registry = request.outcome (run {} ms).registry ∧ s.calls[k]? = some ⟨request, .done⟩) ∧
    ∀ (address : String) (moves : List Bridge.Move), (Bridge.run { address } moves).registry.Live := by
  have hsound := sound_new.run ms
  refine ⟨fun hfresh hrest => ?_, fun k request hholder hk => ?_, live_run⟩
  · exact ⟨hsound.tracked_eq_nil hrest, fun id => hsound.mem_tracked_iff hfresh hrest,
      hsound.live_iff hfresh hrest⟩
  · rw [run, List.foldl_append]
    exact run_alone hholder hk

/-- A session is registered, and a call of `select` finds it. The session is removed before the call
makes it the current one. -/
def overtaken : List Move :=
  [.call (.register 1), .act 0, .act 0, .call (.select 1), .act 1, .call (.remove 1), .act 2, .act 2,
    .act 1]

/-- The current session is not tracked, and nobody is about to change that. -/
theorem not_live_overtaken : (run {} overtaken).Fresh ∧ (run {} overtaken).AtRest ∧
    (run {} overtaken).registry = ⟨[], some 1⟩ ∧ ¬(run {} overtaken).registry.Live := by
  refine ⟨by decide, by decide, by decide, fun hlive => ?_⟩
  exact absurd (hlive.tracked 1 (by decide)) (by decide)

/-- The run `overtaken` meets the hypotheses, and a call was overtaken in it. A call to register that
is alone after that and a bridge are as the theorem says. -/
theorem live_iff_not_overtaken_selected :
    (run {} overtaken).Fresh ∧ (run {} overtaken).AtRest ∧ Overtaken 1 (run {} overtaken).log ∧
      (run {} (overtaken ++ [.call (.register 2)] ++ [.act 3, .act 3])).registry = ⟨[2], some 2⟩ ∧
      (Bridge.run { address := "" } [.register 1, .register 2]).registry.Live := by
  have hfresh : (run {} overtaken).Fresh := by decide
  have hrest : (run {} overtaken).AtRest := by decide
  refine ⟨hfresh, hrest, ?_, ?_, (live_iff_not_overtaken []).2.2 "" _⟩
  · have hrace := (live_iff_not_overtaken overtaken).1 hfresh hrest
    exact not_not.mp fun hnot => absurd ((hrace.2.1 1 (by decide)).mpr hnot) (by decide)
  · exact ((live_iff_not_overtaken (overtaken ++ [.call (.register 2)])).2.1 3 (.register 2)
      (by decide) (by decide)).1

end RegistryRace

end Dbgp.Bridge
