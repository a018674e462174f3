import Dbgp.Proofs.Race
import Mathlib.Data.List.Nodup

/-!
# The end of a session is told once

Whom a call of a `Race` tells is read off its `Trail`, and who has told a listener off the one place
in the log where the listeners were taken. Together they say that every listener is told of the end
exactly once, by the call that has taken it or by the one that came with it too late.
-/

namespace Dbgp.Race

/-! ## Who is told -/

/-- Whom a call has `told`, in order. -/
def toldBy (k : Nat) (log : List Event) : List (Registration × Option Error) :=
  log.filterMap fun
    | .told j r error => if j = k then some (r, error) else none
    | _ => none

/-- Who has `told` a listener, in order. -/
def tellings (r : Registration) (log : List Event) : List (Nat × Option Error) :=
  log.filterMap fun
    | .told k r' error => if r' = r then some (k, error) else none
    | _ => none

variable {k j : Nat} {r : Registration} {error : Option Error} {rs : List Registration}
  {log before after : List Event}

/-- Whom a call has told is among its `eventsOf`. -/
theorem toldBy_eventsOf (k : Nat) (log : List Event) : toldBy k (eventsOf k log) = toldBy k log := by
  rw [toldBy, eventsOf, List.filterMap_filter, toldBy]
  refine List.filterMap_congr fun e _ => ?_
  by_cases he : e.call = k
  · rw [if_pos (decide_eq_true he)]
  · cases e with
    | told j r error => simp_all [Event.call]
    | began | took | skipped | settled | announced | added | late | removed => simp

/-- If only one call has told a listener, its `eventsOf` say how. -/
theorem tellings_eventsOf (h : ∀ j error, .told j r error ∈ log → j = k) :
    tellings r (eventsOf k log) = tellings r log := by
  rw [tellings, eventsOf, List.filterMap_filter, tellings]
  refine List.filterMap_congr fun e he => ?_
  by_cases hk : e.call = k
  · rw [if_pos (decide_eq_true hk)]
  · cases e with
    | told j r' error =>
      have hr : r' ≠ r := by
        rintro rfl
        exact hk (h j error he)
      simp [hr]
    | began | took | skipped | settled | announced | added | late | removed => simp

/-- Whom nobody has `told` has no `tellings`. -/
theorem tellings_eq_nil (h : ∀ j error, .told j r error ∉ log) : tellings r log = [] := by
  rw [tellings, List.filterMap_eq_nil_iff]
  intro e he
  cases e with
  | told j r' error =>
    refine if_neg ?_
    rintro rfl
    exact h j error he
  | began | took | skipped | settled | announced | added | late | removed => rfl

/-- `toldBy` of a log in two parts. -/
theorem toldBy_append (k : Nat) (log log' : List Event) :
    toldBy k (log ++ log') = toldBy k log ++ toldBy k log' :=
  List.filterMap_append

/-- `tellings` of a log in two parts. -/
theorem tellings_append (r : Registration) (log log' : List Event) :
    tellings r (log ++ log') = tellings r log ++ tellings r log' :=
  List.filterMap_append

/-- A call that has `told` some listeners has told them in this order. -/
theorem toldBy_map_told (k : Nat) (error : Option Error) (rs : List Registration) :
    toldBy k (rs.map (.told k · error)) = rs.map (·, error) := by
  rw [toldBy, List.filterMap_map]
  simp

/-- Each of the listeners that a call has `told` is told as often as it is there. -/
theorem tellings_map_told (r : Registration) (k : Nat) (error : Option Error)
    (rs : List Registration) :
    tellings r (rs.map (.told k · error)) = (rs.filter (· = r)).map fun _ => (k, error) := by
  induction rs with
  | nil => rfl
  | cons r' rs ih =>
    rw [List.map_cons, tellings, List.filterMap_cons, ← tellings, ih, List.filter_cons]
    by_cases hr : r' = r
    · simp [hr]
    · simp [hr]

/-! ### Trails -/

variable {request : Request} {es : List Event} {point : Point}

/-- Who has taken the listeners (`took`) tells them in order, and has told all of them when the
session counts as over. -/
theorem Trail.of_took (h : Trail k request es point) (htook : .took j error rs ∈ es) :
    request = .complete error ∧ ∃ told left, rs = told ++ left ∧ toldBy k es = told.map (·, error) ∧
      (∀ r, tellings r es = (told.filter (· = r)).map fun _ => (k, error)) ∧
      (point = .done ∨ .settled k ∈ es → left = []) := by
  cases h with
  | @telling _ won told left =>
    simp at htook
    obtain ⟨-, rfl, rfl⟩ := htook
    exact ⟨rfl, told, left, rfl, toldBy_map_told k error told, (tellings_map_told · k error told),
      by simp⟩
  | settled | announced =>
    simp at htook
    obtain ⟨-, rfl, rfl⟩ := htook
    refine ⟨rfl, rs, [], by simp, ?_, fun r => ?_, fun _ => rfl⟩
    · rw [toldBy_append, toldBy_append, toldBy_map_told]
      exact List.append_nil _
    · rw [tellings_append, tellings_append, tellings_map_told]
      exact List.append_nil _
  | begin | begun | enter | entered | skipped | add | added | late | greeted | remove | removed =>
    simp at htook

/-- By its `Trail`, who has settled the end has taken the listeners. -/
theorem Trail.of_settled (h : Trail k request es point)
    (hend : .settled j ∈ es ∨ .announced j ∈ es) :
    .settled k ∈ es ∧ ∃ error rs, .took k error rs ∈ es := by
  cases h with
  | settled | announced => simp
  | begin | begun | enter | entered | skipped | telling | add | added | late | greeted | remove
  | removed => simp at hend

/-- By its `Trail`, who has told a listener has taken it, or has come with it too late. -/
theorem Trail.of_told (h : Trail k request es point) (htold : .told j r error ∈ es) :
    (∃ rs, .took j error rs ∈ es ∧ r ∈ rs) ∨ .late r ∈ es ∧ r.call = j ∧ error = none := by
  cases h with
  | telling | settled | announced =>
    left
    simp at htold
    obtain ⟨hr, rfl, rfl⟩ := htold
    refine ⟨_, by simp; rfl, ?_⟩
    simp [hr]
  | greeted =>
    right
    simp at htold
    obtain ⟨rfl, rfl, rfl⟩ := htold
    simp
  | begin | begun | enter | entered | skipped | add | added | late | remove | removed =>
    simp at htold

/-- By its `Trail`, a call that has registered a listener has done nothing else. -/
theorem Trail.of_added (h : Trail k request es point) (hadded : .added r ∈ es) :
    es = [.added r] := by
  cases h with
  | added =>
    rw [List.mem_singleton] at hadded
    rw [hadded]
  | begin | begun | enter | entered | skipped | telling | settled | announced | add | late
  | greeted | remove | removed => simp at hadded

/-- By its `Trail`, a call that has come too late tells its listener, and does nothing else. -/
theorem Trail.of_late (h : Trail k request es point) (hlate : .late r ∈ es) :
    es = [.late r] ∧ point = .greet ⟨r.listener, none⟩ ∨
      es = [.late r, .told r.call r none] := by
  cases h with
  | late =>
    simp at hlate
    subst hlate
    exact .inl ⟨rfl, rfl⟩
  | greeted =>
    simp at hlate
    subst hlate
    exact .inr rfl
  | begin | begun | enter | entered | skipped | telling | settled | announced | add | added
  | remove | removed => simp at hlate

/-! ### Races -/

/-- Whether the event is `took`. -/
def Event.isTaking : Event → Bool
  | .took .. => true
  | _ => false

/-- The one place where the listeners have been taken, with what can be before it (`Event.isEarly`)
and after it (`Event.isLate`). -/
theorem Course.of_took {s : Shared} (h : Course s log)
    (hlog : log = before ++ .took k error rs :: after) :
    rs = registered before ∧ (∀ e ∈ before, e.isEarly = true) ∧ ∀ e ∈ after, e.isLate = true := by
  cases h with
  | pending _ hearly => simpa [Event.isEarly] using hearly (.took k error rs) (by simp [hlog])
  | @taken before' after' k' error' _ hlog' hbefore hafter =>
    rw [hlog', List.append_eq_append_iff] at hlog
    obtain ⟨between, hb, ha⟩ | ⟨between, hb, ha⟩ := hlog
    · cases between with
      | nil =>
        cases ha
        rw [List.append_nil] at hb
        subst hb
        exact ⟨rfl, hbefore, hafter⟩
      | cons e between =>
        cases ha
        simpa [Event.isLate] using hafter (.took k error rs) (by simp)
    · cases between with
      | nil =>
        cases ha
        rw [List.append_nil] at hb
        subst hb
        exact ⟨rfl, hbefore, hafter⟩
      | cons e between =>
        cases ha
        simpa [Event.isEarly] using hbefore (.took k error rs) (by simp [hb])

/-- By the `Course`, the listeners are taken once. -/
theorem Course.eq_of_took {s : Shared} {k' : Nat} {error' : Option Error} {rs' : List Registration}
    (h : Course s log) (htook : .took k error rs ∈ log) (htook' : .took k' error' rs' ∈ log) :
    k' = k ∧ error' = error ∧ rs' = rs := by
  obtain ⟨before, after, hlog⟩ := List.append_of_mem htook
  obtain ⟨-, hbefore, hafter⟩ := h.of_took hlog
  rw [hlog, List.mem_append, List.mem_cons] at htook'
  rcases htook' with hmem | heq | hmem
  · simpa [Event.isEarly] using hbefore _ hmem
  · cases heq
    exact ⟨rfl, rfl, rfl⟩
  · simpa [Event.isLate] using hafter _ hmem

/-- What `isEarly` is not `took`. -/
theorem Event.isTaking_of_isEarly {e : Event} (h : e.isEarly = true) : e.isTaking = false := by
  cases e with
  | took => cases h
  | _ => rfl

/-- What `isLate` is not `took`. -/
theorem Event.isTaking_of_isLate {e : Event} (h : e.isLate = true) : e.isTaking = false := by
  cases e with
  | took => cases h
  | _ => rfl

/-- Something that is not `isEarly` has happened, so the listeners were taken once. -/
theorem Course.countP_isTaking {s : Shared} {e : Event} (h : Course s log) (he : e ∈ log)
    (hearly : e.isEarly = false) : log.countP Event.isTaking = 1 := by
  cases h with
  | pending _ hlog => simp [hlog e he] at hearly
  | @taken before after k error _ hlog hbefore hafter =>
    have hnone : ∀ log : List Event, (∀ e ∈ log, e.isTaking = false) →
        log.countP Event.isTaking = 0 := by
      intro log hlog
      simpa [List.countP_eq_zero] using hlog
    rw [hlog, List.countP_append, List.countP_cons, hnone before, hnone after]
    · rfl
    · exact fun e he => Event.isTaking_of_isLate (hafter e he)
    · exact fun e he => Event.isTaking_of_isEarly (hbefore e he)

namespace Sound

variable {s : Race} {e : Event} {listener : String} (h : s.Sound)
include h

/-- Behind every event there is a call with its `Trail`. -/
theorem trail_of_mem (he : e ∈ s.log) (hk : e.call = k) :
    ∃ c, s.calls[k]? = some c ∧ Trail k c.request (eventsOf k s.log) c.point := by
  have hlt := h.called e he
  rw [hk] at hlt
  have hfound := List.getElem?_eq_getElem hlt
  exact ⟨_, hfound, h.trail k _ hfound⟩

/-- Who tells a listener has taken it (`took`), or has come with it too late (`late`). -/
theorem told_cases (htold : .told j r error ∈ s.log) :
    (∃ rs, .took j error rs ∈ s.log ∧ r ∈ rs) ∨ .late r ∈ s.log ∧ r.call = j ∧ error = none := by
  obtain ⟨c, -, htrail⟩ := h.trail_of_mem (k := j) htold rfl
  obtain ⟨rs, htook, hr⟩ | ⟨hlate, hr⟩ := htrail.of_told (mem_eventsOf htold rfl)
  · exact .inl ⟨rs, (List.mem_filter.mp htook).1, hr⟩
  · exact .inr ⟨(List.mem_filter.mp hlate).1, hr⟩

/-- The call that has `added` a listener has done nothing else. -/
theorem eventsOf_of_added (hadded : .added r ∈ s.log) : eventsOf r.call s.log = [.added r] := by
  obtain ⟨c, -, htrail⟩ := h.trail_of_mem (k := r.call) hadded rfl
  exact htrail.of_added (mem_eventsOf hadded rfl)

/-- A listener that was `added` was not `late`. -/
theorem not_late_of_added (hadded : .added r ∈ s.log) : .late r ∉ s.log := by
  intro hlate
  have hmem : .late r ∈ eventsOf r.call s.log := mem_eventsOf hlate rfl
  rw [h.eventsOf_of_added hadded] at hmem
  simp at hmem

/-- A call has `added` its listener once at most. -/
theorem count_added_le_one (r : Registration) : s.log.count (.added r) ≤ 1 := by
  by_cases hadded : .added r ∈ s.log
  · have hcount : (eventsOf r.call s.log).count (.added r) = s.log.count (.added r) :=
      List.count_filter (decide_eq_true rfl)
    rw [← hcount, h.eventsOf_of_added hadded]
    exact List.count_le_length
  · rw [List.count_eq_zero.mpr hadded]
    exact Nat.zero_le _

/-- At no time is a listener `registered` twice by one call. -/
theorem nodup_registered (hlog : s.log = before ++ after) : (registered before).Nodup := by
  rw [List.nodup_iff_count_le_one]
  intro r
  have hle : before.count (.added r) ≤ s.log.count (.added r) := by
    rw [hlog, List.count_append]
    exact Nat.le_add_right _ _
  exact Nat.le_trans (count_registered_le before r) (Nat.le_trans hle (h.count_added_le_one r))

/-- Who `took` the listeners tells each of them once, in order, and nobody else does. -/
theorem taker (hlog : s.log = before ++ .took k error rs :: after) :
    (∃ point, s.calls[k]? = some ⟨.complete error, point⟩) ∧
      ∃ told left, rs = told ++ left ∧ toldBy k s.log = told.map (·, error) ∧
      (∀ r ∈ rs, tellings r s.log = List.replicate (told.count r) (k, error)) ∧
      (s.Returned k (.complete error) ∨ .settled k ∈ s.log → left = []) := by
  have htook : .took k error rs ∈ s.log := by simp [hlog]
  obtain ⟨hrs, -⟩ := h.course.of_took hlog
  obtain ⟨c, hk, htrail⟩ := h.trail_of_mem (k := k) htook rfl
  obtain ⟨hrequest, told, left, hsplit, htold, htellings, hleft⟩ :=
    htrail.of_took (mem_eventsOf htook rfl)
  refine ⟨⟨c.point, hrequest ▸ hk⟩, told, left, hsplit, ?_, fun r hr => ?_, fun hend => hleft ?_⟩
  · rw [← toldBy_eventsOf, htold]
  · have hadded : .added r ∈ s.log := by
      rw [hlog]
      exact List.mem_append_left _ (added_of_mem_registered (hrs ▸ hr))
    rw [← tellings_eventsOf (k := k), htellings, List.filter_eq, List.map_replicate]
    intro j error' htold'
    obtain ⟨rs', htook', -⟩ | ⟨hlate, -⟩ := h.told_cases htold'
    · exact (h.course.eq_of_took htook htook').1
    · exact absurd hlate (h.not_late_of_added hadded)
  · rcases hend with hdone | hsettled
    · cases hk.symm.trans hdone
      exact .inl rfl
    · exact .inr (mem_eventsOf hsettled rfl)

/-- A listener that is `removed` before the listeners are taken is not told. -/
theorem tellings_of_removed (hlog : s.log = before ++ .removed k r.listener :: after)
    (hadded : .added r ∈ before) (huntaken : ∀ j error rs, .took j error rs ∉ before) :
    tellings r s.log = [] := by
  have hadded' : .added r ∈ s.log := hlog ▸ List.mem_append_left _ hadded
  refine tellings_eq_nil fun j error htold => ?_
  obtain ⟨rs, htook, hmem⟩ | ⟨hlate, -⟩ := h.told_cases htold
  · rw [hlog, List.mem_append, List.mem_cons] at htook
    have htook := (htook.resolve_left (huntaken j error rs)).resolve_left (by simp)
    obtain ⟨between, rest, hafter⟩ := List.append_of_mem htook
    have hlog' : s.log =
        (before ++ [Event.removed k r.listener]) ++ between ++ Event.took j error rs :: rest := by
      simp [hlog, hafter]
    obtain ⟨rfl, -⟩ := h.course.of_took hlog'
    obtain hmem | hagain := mem_registered_append hmem
    · simp [Event.register] at hmem
    · -- To be taken all the same it would have to be registered again, by the same call.
      have hcount := h.count_added_le_one r
      have hbefore := List.count_pos_iff.mpr hadded
      have hbetween := List.count_pos_iff.mpr hagain
      simp only [hlog', List.count_append] at hcount
      omega
  · exact h.not_late_of_added hadded' hlate

/-- Who comes with a listener too `late` tells it once, and nobody else does. -/
theorem latecomer (hlate : .late r ∈ s.log) :
    tellings r s.log = [(r.call, none)] ∨
      tellings r s.log = [] ∧ ¬s.Returned r.call (.add r.listener) := by
  obtain ⟨c, hk, htrail⟩ := h.trail_of_mem (k := r.call) hlate rfl
  have htellings : tellings r (eventsOf r.call s.log) = tellings r s.log := by
    refine tellings_eventsOf fun j error htold => ?_
    obtain ⟨rs, htook, hr⟩ | ⟨-, hj, -⟩ := h.told_cases htold
    · obtain ⟨before, after, hlog⟩ := List.append_of_mem htook
      obtain ⟨rfl, -⟩ := h.course.of_took hlog
      refine absurd hlate (h.not_late_of_added ?_)
      rw [hlog]
      exact List.mem_append_left _ (added_of_mem_registered hr)
    · exact hj.symm
  rw [← htellings]
  obtain ⟨hes, hpoint⟩ | hes := htrail.of_late (mem_eventsOf hlate rfl)
  · refine .inr ⟨?_, fun hdone => ?_⟩
    · rw [hes]
      rfl
    · cases hk.symm.trans hdone
      cases hpoint
  · left
    rw [hes]
    simp [tellings]

/-- A lifecycle is `terminated`, and those who wait for that are let go, only when all listeners that
were taken have been told. -/
theorem told_of_ended (hend : s.lifecycle.stage = .terminated ∨ s.isOver = true) :
    s.log.countP Event.isTaking = 1 ∧
      ∃ k error rs, .took k error rs ∈ s.log ∧ toldBy k s.log = rs.map (·, error) := by
  obtain ⟨k, hk⟩ : ∃ k, .settled k ∈ s.log ∨ .announced k ∈ s.log := by
    rcases hend with hstage | hover
    · exact (h.staged.settled hstage).imp fun k hk => .inl hk
    · exact (h.staged.announced hover).imp fun k hk => .inr hk
  obtain ⟨c, -, htrail⟩ : ∃ c, s.calls[k]? = some c ∧
      Trail k c.request (eventsOf k s.log) c.point := by
    rcases hk with hk | hk
    · exact h.trail_of_mem hk rfl
    · exact h.trail_of_mem hk rfl
  obtain ⟨hsettled, error, rs, htook⟩ :=
    htrail.of_settled (j := k) (hk.imp (mem_eventsOf · rfl) (mem_eventsOf · rfl))
  have htook' := (List.mem_filter.mp htook).1
  obtain ⟨before, after, hlog⟩ := List.append_of_mem htook'
  obtain ⟨-, told, left, hsplit, htold, -, hleft⟩ := h.taker hlog
  rw [hleft (.inr (List.mem_filter.mp hsettled).1), List.append_nil] at hsplit
  exact ⟨h.course.countP_isTaking htook' rfl, k, error, rs, htook', hsplit ▸ htold⟩

/-- Once a call of `complete` has returned, the listeners have been taken. -/
theorem countP_of_returned (hk : s.Returned k (.complete error)) :
    s.log.countP Event.isTaking = 1 := by
  have hearly : ∃ e ∈ eventsOf k s.log, e.isEarly = false := by
    have htrail := h.trail k _ hk
    generalize eventsOf k s.log = es at htrail
    cases htrail with
    | skipped => exact ⟨.skipped k, by simp, rfl⟩
    | announced => exact ⟨.took k error _, by simp; rfl, rfl⟩
  obtain ⟨e, he, hearly⟩ := hearly
  exact h.course.countP_isTaking (List.mem_filter.mp he).1 hearly

/-- A call of `add` that has returned has registered its listener or has come too late. -/
theorem added_or_late (hk : s.Returned k (.add listener)) :
    .added ⟨k, listener⟩ ∈ s.log ∨ .late ⟨k, listener⟩ ∈ s.log := by
  have hes : .added ⟨k, listener⟩ ∈ eventsOf k s.log ∨ .late ⟨k, listener⟩ ∈ eventsOf k s.log := by
    have htrail := h.trail k _ hk
    generalize eventsOf k s.log = es at htrail
    cases htrail with
    | added => exact .inl (List.mem_singleton_self _)
    | greeted => exact .inr List.mem_cons_self
  exact hes.imp (fun h => (List.mem_filter.mp h).1) fun h => (List.mem_filter.mp h).1

end Sound

/-! ## Calls without a race -/

/-- The `step` of a call that can act takes the race to what its action says. -/
theorem step_act {s : Race} {c : Call} {e : Event} {point : Point} {shared : Shared}
    (hk : s.calls[k]? = some c) (hact : c.point.act k s.toShared = some (e, point, shared)) :
    (s.step (.act k)).toShared = shared ∧ (s.step (.act k)).log = s.log ++ [e] ∧
      (s.step (.act k)).calls[k]? = some { c with point } := by
  rw [step, hk, Option.bind_some, hact]
  simp [hk]

/-- A call at `tell` tells all listeners that are left, if nobody interferes. -/
theorem run_tell {s : Race} {left : List Registration}
    (hk : s.calls[k]? = some ⟨request, .tell error left⟩) :
    let s' := s.run (List.replicate (left.length + 2) (.act k))
    s'.Returned k request ∧ s'.lifecycle = s.lifecycle.settle ∧
      toldBy k s'.log = toldBy k s.log ++ left.map (·, error) := by
  induction left generalizing s with
  | nil =>
    obtain ⟨hshared, hlog, hk'⟩ := step_act hk rfl
    obtain ⟨hshared', hlog', hk''⟩ := step_act hk' rfl
    refine ⟨hk'', ?_, ?_⟩
    · show ((s.step (.act k)).step (.act k)).lifecycle = _
      rw [hshared', hshared]
    · show toldBy k ((s.step (.act k)).step (.act k)).log = _
      rw [hlog', hlog, toldBy_append, toldBy_append]
      exact List.append_nil _
  | cons r left ih =>
    obtain ⟨hshared, hlog, hk'⟩ := step_act hk rfl
    obtain ⟨hdone, hlifecycle, htold⟩ := ih hk'
    refine ⟨hdone, ?_, ?_⟩
    · rw [hshared] at hlifecycle
      exact hlifecycle
    · have hone : toldBy k [.told k r error] = [(r, error)] := by simp [toldBy]
      rw [hlog, toldBy_append, hone, List.append_assoc] at htold
      exact htold

/-- A call to complete the end that nobody interferes with does all that `Lifecycle.complete` does. -/
theorem Sound.run_complete {s : Race} (h : s.Sound)
    (hk : s.calls[k]? = some ⟨.complete error, .enter error⟩) :
    ∃ n, let s' := s.run (List.replicate n (.act k))
      s'.Returned k (.complete error) ∧ s'.lifecycle = (s.lifecycle.complete error).2 ∧
        (toldBy k s'.log).map (fun t => ⟨t.1.listener, t.2⟩) = (s.lifecycle.complete error).1 := by
  have hnone : toldBy k s.log = [] := by
    have htrail := h.trail k _ hk
    rw [← toldBy_eventsOf]
    generalize eventsOf k s.log = es at htrail
    cases htrail
    rfl
  obtain ⟨hshared, hlog, hk'⟩ := step_act hk rfl
  have hcourse := (h.step (.act k)).course
  by_cases hfired : s.lifecycle.begin.fired = true
  · have hact : (Point.take error).act k (s.step (.act k)).toShared =
        some (.skipped k, .done, (s.step (.act k)).toShared) := by
      rw [hshared, Point.act, Lifecycle.take, if_pos hfired]
    obtain ⟨hshared', hlog', hk''⟩ := step_act hk' hact
    have hcomplete : s.lifecycle.complete error = ([], s.lifecycle.begin) := by
      rw [Lifecycle.complete, Lifecycle.take, if_pos hfired]
    refine ⟨2, hk'', ?_, ?_⟩
    · show ((s.step (.act k)).step (.act k)).lifecycle = _
      rw [hshared', hshared, hcomplete]
    · show (toldBy k ((s.step (.act k)).step (.act k)).log).map _ = _
      rw [hlog', hlog, toldBy_append, toldBy_append, hnone, hcomplete]
      rfl
  · -- What is told are the listeners themselves, because all of them have an owner.
    have htaken : (List.zipWith Registration.mk s.owners s.lifecycle.begin.listeners).map
        (·.listener) = s.lifecycle.begin.listeners := by
      rw [hshared] at hcourse
      cases hcourse with
      | taken hshut => exact absurd hshut hfired
      | pending _ _ howners hlisteners =>
        change s.owners = _ at howners
        change s.lifecycle.begin.listeners = _ at hlisteners
        rw [howners, hlisteners, zipWith_registrations]
    generalize htaken' : List.zipWith Registration.mk s.owners s.lifecycle.begin.listeners = taken
      at htaken
    have hact : (Point.take error).act k (s.step (.act k)).toShared =
        some (.took k error taken, .tell error taken,
          { s.toShared with
            lifecycle := { s.lifecycle.begin with fired := true, listeners := [] }
            owners := [] }) := by
      rw [hshared, Point.act, Lifecycle.take, if_neg hfired, ← htaken']
    obtain ⟨hshared', hlog', hk''⟩ := step_act hk' hact
    obtain ⟨hdone, hlifecycle, htold⟩ := run_tell hk''
    have hcomplete : s.lifecycle.complete error =
        (s.lifecycle.begin.listeners.map fun name => ⟨name, error⟩,
          Lifecycle.settle { s.lifecycle.begin with fired := true, listeners := [] }) := by
      rw [Lifecycle.complete, Lifecycle.take, if_neg hfired]
    refine ⟨taken.length + 2 + 2, hdone, ?_, ?_⟩
    · rw [hshared'] at hlifecycle
      rw [hcomplete]
      exact hlifecycle
    · rw [hlog', hlog, toldBy_append, toldBy_append, hnone] at htold
      change toldBy k (s.run (List.replicate (taken.length + 2 + 2) (.act k))).log =
        taken.map (·, error) at htold
      rw [htold, hcomplete, ← htaken, List.map_map, List.map_map]
      rfl

/-- However calls on one lifecycle race:

* the stage never goes back, and at most one of them begins the end;
* once a call to complete the end has returned, exactly one call has taken the listeners;
* what it has taken are the listeners registered by then and not removed; it tells them in the order of
  their registration and with its error, and has told all of them when it returns; each of them is told
  at most once by anybody, and a listener that was removed before is not told at all;
* a listener that comes after that moment is told once, by the call that came with it;
* the session counts as over only after all listeners that were taken have been told. -/
theorem listeners_told_once (ms : List Move) :
    let s := run {} ms
    (∀ ms', s.lifecycle.stage.rank ≤ (s.run ms').lifecycle.stage.rank) ∧
    s.log.countP Event.isWin ≤ 1 ∧
    (∀ k error, s.Returned k (.complete error) → s.log.countP Event.isTaking = 1) ∧
    (∀ before k error rs after, s.log = before ++ .took k error rs :: after →
      (∃ point, s.calls[k]? = some ⟨.complete error, point⟩) ∧ rs = registered before ∧
      toldBy k s.log <+: rs.map (·, error) ∧
      (∀ r ∈ rs, tellings r s.log <+: [(k, error)]) ∧
      (s.Returned k (.complete error) →
        toldBy k s.log = rs.map (·, error) ∧ ∀ r ∈ rs, tellings r s.log = [(k, error)]) ∧
      ∀ r, .added r ∉ after ∧ .late r ∉ before) ∧
    (∀ before k r after, s.log = before ++ .removed k r.listener :: after → .added r ∈ before →
      (∀ j error rs, .took j error rs ∉ before) → tellings r s.log = []) ∧
    (∀ k listener, s.Returned k (.add listener) → .added ⟨k, listener⟩ ∈ s.log ∨
      .late ⟨k, listener⟩ ∈ s.log ∧ tellings ⟨k, listener⟩ s.log = [(k, none)]) ∧
    (∀ r, .late r ∈ s.log → tellings r s.log <+: [(r.call, none)]) ∧
    (s.lifecycle.stage = .terminated ∨ s.isOver = true →
      s.log.countP Event.isTaking = 1 ∧
        ∃ k error rs, .took k error rs ∈ s.log ∧ toldBy k s.log = rs.map (·, error)) := by
  intro s
  have h : s.Sound := sound_new.run ms
  refine ⟨rank_run s, h.staged.wins_le_one, fun k error => h.countP_of_returned, ?_,
    fun before k r after => h.tellings_of_removed, ?_, ?_, h.told_of_ended⟩
  · intro before k error rs after hlog
    obtain ⟨hrs, hbefore, hafter⟩ := h.course.of_took hlog
    obtain ⟨hcall, told, left, hsplit, htold, htellings, hleft⟩ := h.taker hlog
    have hnodup : rs.Nodup := hrs ▸ h.nodup_registered hlog
    refine ⟨hcall, hrs, ?_, fun r hr => ?_, fun hdone => ?_, fun r => ⟨?_, ?_⟩⟩
    · rw [htold, hsplit, List.map_append]
      exact List.prefix_append _ _
    · have hle : told.count r ≤ 1 := by
        rw [hsplit] at hnodup
        exact List.nodup_iff_count_le_one.mp hnodup.of_append_left r
      rw [htellings r hr]
      obtain hzero | hone := Nat.le_one_iff_eq_zero_or_eq_one.mp hle
      · rw [hzero]
        exact List.nil_prefix
      · rw [hone]
        exact List.prefix_rfl
    · rw [hleft (.inl hdone), List.append_nil] at hsplit
      subst hsplit
      refine ⟨htold, fun r hr => ?_⟩
      rw [htellings r hr, List.count_eq_one_of_mem hnodup hr]
      rfl
    · intro hmem
      simpa [Event.isLate] using hafter _ hmem
    · intro hmem
      simpa [Event.isEarly] using hbefore _ hmem
  · intro k listener hdone
    refine (h.added_or_late hdone).imp_right fun hlate => ⟨hlate, ?_⟩
    exact (h.latecomer hlate).resolve_right fun hnone => hnone.2 hdone
  · intro r hlate
    obtain hone | ⟨hnone, -⟩ := h.latecomer hlate
    · exact hone ▸ List.prefix_rfl
    · rw [hnone]
      exact List.nil_prefix

/-- A race of two calls of `complete`, of which the second to begin takes the listeners. One listener
has been registered twice and one has been removed, and one comes while the others are told. -/
def contended : List Move :=
  [.call (.add "a"), .call (.add "b"), .call (.add "a"), .call (.remove "b"),
    .call (.complete (some .terminated)), .call (.complete none), .call (.add "c")] ++
    [0, 1, 2, 3, 5, 4, 4, 5, 6, 4, 6, 4, 4, 4].map .act

/-- In the run `contended` the call that takes the listeners tells two of them, in order. The one that
was removed is not told. -/
theorem listeners_told_once_contended :
    let s := run {} contended
    s.Returned 5 (.complete none) ∧ s.log.countP Event.isTaking = 1 ∧
      s.Returned 4 (.complete (some .terminated)) ∧
      toldBy 4 s.log = [(⟨0, "a"⟩, some .terminated), (⟨2, "a"⟩, some .terminated)] ∧
      tellings ⟨0, "a"⟩ s.log = [(4, some .terminated)] ∧ tellings ⟨1, "b"⟩ s.log = [] ∧
      s.Returned 6 (.add "c") ∧ tellings ⟨6, "c"⟩ s.log = [(6, none)] := by
  intro s
  obtain ⟨-, -, htaken, htook, hremoved, hadded, -, -⟩ := listeners_told_once contended
  have hlog : (run {} contended).log =
      [.added ⟨0, "a"⟩, .added ⟨1, "b"⟩, .added ⟨2, "a"⟩, .removed 3 "b", .began 5 true,
        .began 4 false] ++
      .took 4 (some .terminated) [⟨0, "a"⟩, ⟨2, "a"⟩] ::
      [.skipped 5, .late ⟨6, "c"⟩, .told 4 ⟨0, "a"⟩ (some .terminated), .told 6 ⟨6, "c"⟩ none,
        .told 4 ⟨2, "a"⟩ (some .terminated), .settled 4, .announced 4] := by decide
  have hfour : s.Returned 4 (.complete (some .terminated)) := by decide
  have hfive : s.Returned 5 (.complete none) := by decide
  have hsix : s.Returned 6 (.add "c") := by decide
  obtain ⟨-, -, -, -, hdone, -⟩ := htook _ _ _ _ _ hlog
  obtain ⟨htold, htellings⟩ := hdone hfour
  refine ⟨hfive, htaken 5 none hfive, hfour, htold, htellings _ (by simp), ?_, hsix, ?_⟩
  · refine hremoved [.added ⟨0, "a"⟩, .added ⟨1, "b"⟩, .added ⟨2, "a"⟩] 3 ⟨1, "b"⟩ _ hlog ?_ ?_
    · simp
    · simp
  · exact ((hadded 6 "c" hsix).resolve_left (by simp [hlog])).2

end Dbgp.Race
