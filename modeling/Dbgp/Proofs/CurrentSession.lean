import Dbgp.Proofs.Outcome
import Dbgp.Proofs.RegistryRace

/-!
# The current session and what was asked before

A registry keeps one number for its current session and mends it when that session goes. It has no memory of
what was asked, and still what was asked decides the current session: it is the session that was registered or
selected last, or the youngest one if that session is gone (`Registry.Tells`, kept by every request). A
selection counts only if the session is there, which is a matter of what was asked before it.

In a bridge the requests are made by calls, handshakes and forwarders (`Bridge.asks`), and the answer to
`sessions/list` shows the registry that they lead to (`Registry.Lists`).
-/

namespace Dbgp.Bridge

namespace Registry

variable {history since : List RegistryRequest} {request : RegistryRequest} {id : Nat} {r : Registry}

/-! ## Histories -/

/-- The `Registry` after some requests, each of which was done before the next was made. -/
def after (history : List RegistryRequest) : Registry :=
  history.foldl RegistryRequest.outcome {}

/-- A session was registered, and nobody has removed it since, by the `history` alone. -/
def Present (history : List RegistryRequest) (id : Nat) : Prop :=
  ∃ before later, history = before ++ .register id :: later ∧ .remove id ∉ later

/-- By a `RegistryRequest` a session is chosen: it is registered, or it is selected while it is
there. -/
inductive Chooses (before : List RegistryRequest) (id : Nat) : RegistryRequest → Prop
  | registered : Chooses before id (.register id)
  | selected : Present before id → Chooses before id (.select id)

/-- A session was chosen, and by nothing that was asked `since` was any session chosen. -/
def LastChosen (history : List RegistryRequest) (id : Nat) (since : List RegistryRequest) : Prop :=
  ∃ before request, history = before ++ request :: since ∧ Chooses before id request ∧
    ∀ earlier request' later id', since = earlier ++ request' :: later →
      ¬Chooses (before ++ request :: earlier) id' request'

/-- A list with one more item, split at an item. -/
theorem concat_eq_append_cons {l before later : List α} {a b : α} :
    l ++ [a] = before ++ b :: later ↔
      (l = before ∧ a = b ∧ later = []) ∨
        ∃ later', l = before ++ b :: later' ∧ later = later' ++ [a] := by
  constructor
  · intro h
    obtain rfl | ⟨later', last, rfl⟩ := later.eq_nil_or_concat
    · obtain ⟨rfl, hlast⟩ := List.append_inj' h rfl
      exact .inl ⟨rfl, List.singleton_inj.mp hlast, rfl⟩
    · rw [List.concat_eq_append, ← List.cons_append, ← List.append_assoc] at h
      obtain ⟨rfl, hlast⟩ := List.append_inj' h rfl
      exact .inr ⟨later', rfl, by rw [List.concat_eq_append, hlast]⟩
  · rintro (⟨rfl, rfl, rfl⟩ | ⟨later', rfl, rfl⟩)
    · rfl
    · simp

/-- Who is `Present` after one more request. -/
theorem present_concat :
    Present (history ++ [request]) id ↔
      request = .register id ∨ Present history id ∧ request ≠ .remove id := by
  constructor
  · rintro ⟨before, later, hhistory, hlater⟩
    obtain ⟨-, rfl, -⟩ | ⟨later', rfl, rfl⟩ := concat_eq_append_cons.mp hhistory
    · exact .inl rfl
    · rw [List.mem_append, List.mem_singleton, not_or] at hlater
      exact .inr ⟨⟨before, later', rfl, hlater.1⟩, Ne.symm hlater.2⟩
  · rintro (rfl | ⟨⟨before, later, rfl, hlater⟩, hrequest⟩)
    · exact ⟨history, [], rfl, List.not_mem_nil⟩
    · refine ⟨before, later ++ [request], by simp, ?_⟩
      rw [List.mem_append, List.mem_singleton, not_or]
      exact ⟨hlater, Ne.symm hrequest⟩

/-- Who was `LastChosen` after one more request. -/
theorem lastChosen_concat :
    LastChosen (history ++ [request]) id since ↔
      (since = [] ∧ Chooses history id request) ∨
        ∃ since', since = since' ++ [request] ∧ LastChosen history id since' ∧
          ∀ id', ¬Chooses history id' request := by
  constructor
  · rintro ⟨before, chosen, hhistory, hchosen, hsince⟩
    -- The choice is the last request, or that is one of those since.
    obtain ⟨rfl, rfl, rfl⟩ | ⟨since', rfl, rfl⟩ := concat_eq_append_cons.mp hhistory
    · exact .inl ⟨rfl, hchosen⟩
    · refine .inr ⟨since', rfl, ⟨before, chosen, rfl, hchosen, ?_⟩, fun id' => ?_⟩
      · rintro earlier request' later id' rfl
        exact hsince earlier request' (later ++ [request]) id' (by simp)
      · exact hsince since' request [] id' rfl
  · rintro (⟨rfl, hchosen⟩ | ⟨since', rfl, ⟨before, chosen, rfl, hchosen, hsince⟩, hunchosen⟩)
    · exact ⟨history, request, rfl, hchosen, by simp⟩
    · refine ⟨before, chosen, by simp, hchosen, fun earlier request' later id' hearlier => ?_⟩
      obtain ⟨rfl, rfl, -⟩ | ⟨later', rfl, -⟩ := concat_eq_append_cons.mp hearlier
      · exact hunchosen id'
      · exact hsince earlier request' later' id' rfl

/-- A request that `Chooses` a session makes it the `LastChosen`. -/
theorem lastChosen_of_chooses (h : Chooses history id request) :
    LastChosen (history ++ [request]) id [] :=
  lastChosen_concat.mpr (.inl ⟨rfl, h⟩)

/-! ## What a history tells -/

/-- `Registry.insert` keeps the order of numbers. -/
theorem pairwise_insert {l : List Nat} (h : l.Pairwise (· < ·)) (id : Nat) :
    (insert id l).Pairwise (· < ·) := by
  induction l with
  | nil => exact List.pairwise_singleton _ id
  | cons k rest ih =>
    obtain ⟨hk, hrest⟩ := List.pairwise_cons.mp h
    rw [insert]
    split
    · next hlt =>
      refine List.pairwise_cons.mpr ⟨fun j hj => ?_, h⟩
      obtain rfl | hj := List.mem_cons.mp hj
      · exact hlt
      · exact Nat.lt_trans hlt (hk j hj)
    · split
      · exact h
      · next hle hne =>
        refine List.pairwise_cons.mpr ⟨fun j hj => ?_, ih hrest⟩
        obtain rfl | hj := mem_insert.mp hj
        · omega
        · exact hk j hj

/-- The youngest session, by `max?`, stays the youngest if another one goes. -/
theorem max?_filter_ne {l : List Nat} (h : l.max? ≠ some id) :
    (l.filter (· ≠ id)).max? = l.max? := by
  cases hmax : l.max? with
  | none =>
    rw [List.max?_eq_none_iff.mp hmax]
    rfl
  | some k =>
    have hne : k ≠ id := fun heq => h (heq ▸ hmax)
    obtain ⟨hk, hle⟩ := List.max?_eq_some_iff.mp hmax
    refine List.max?_eq_some_iff.mpr ⟨List.mem_filter.mpr ⟨hk, by simpa using hne⟩, fun j hj => ?_⟩
    exact hle j (List.mem_filter.mp hj).1

/-- What is known of a `Registry` from the requests that led to it. -/
structure Tells (history : List RegistryRequest) (r : Registry) : Prop where
  ordered : r.tracked.Pairwise (· < ·)
  mem_iff : ∀ id, id ∈ r.tracked ↔ Present history id
  current_eq : ∀ id since, LastChosen history id since →
    r.current = if .remove id ∈ since then r.tracked.max? else some id
  unchosen : (∀ id since, ¬LastChosen history id since) → r.current = none

/-- A session that a request `Chooses` now is the current one, whatever was asked before. -/
theorem tells_of_chooses (hchosen : Chooses history id request) {tracked : List Nat}
    (ordered : tracked.Pairwise (· < ·))
    (mem_iff : ∀ id, id ∈ tracked ↔ Present (history ++ [request]) id) :
    Tells (history ++ [request]) ⟨tracked, some id⟩ where
  ordered := ordered
  mem_iff := mem_iff
  current_eq id' since hlast := by
    obtain ⟨rfl, hchosen'⟩ | ⟨-, -, -, hunchosen⟩ := lastChosen_concat.mp hlast
    · have hid : id' = id := by cases hchosen <;> cases hchosen' <;> rfl
      simp [hid]
    · exact absurd hchosen (hunchosen id)
  unchosen hnone := absurd (lastChosen_of_chooses hchosen) (hnone id [])

/-- A request that `Chooses` no session leaves no current session where none was ever chosen. -/
theorem Tells.current_of_unchosen (h : Tells history r) (hunchosen : ∀ id, ¬Chooses history id request)
    (hnone : ∀ id since, ¬LastChosen (history ++ [request]) id since) : r.current = none := by
  refine h.unchosen fun id since hlast => ?_
  exact hnone id (since ++ [request]) (lastChosen_concat.mpr (.inr ⟨since, rfl, hlast, hunchosen⟩))

/-- A session that is removed, by `Registry.forget`. -/
theorem Tells.remove (h : Tells history r) (id : Nat) :
    Tells (history ++ [.remove id]) (r.forget id) := by
  have hunchosen : ∀ id', ¬Chooses history id' (.remove id) := by rintro id' ⟨⟩
  refine ⟨h.ordered.filter _, fun id' => ?_, fun id' since hlast => ?_, fun hnone => ?_⟩
  · have hsame : RegistryRequest.remove id ≠ .remove id' ↔ id' ≠ id := by
      rw [ne_eq, RegistryRequest.remove.injEq, eq_comm]
    rw [present_concat, ← h.mem_iff, forget, List.mem_filter, hsame]
    simp
  · obtain ⟨-, hchosen⟩ | ⟨since, rfl, hlast, -⟩ := lastChosen_concat.mp hlast
    · exact absurd hchosen (hunchosen id')
    · have hcurrent := h.current_eq id' since hlast
      rw [forget]
      by_cases hgone : .remove id' ∈ since
      · -- The youngest session was the current one before, and the youngest of the others is it now.
        rw [if_pos hgone] at hcurrent
        rw [if_pos (List.mem_append_left _ hgone), hcurrent]
        split
        · rfl
        · next hmax => exact (max?_filter_ne hmax).symm
      · rw [if_neg hgone] at hcurrent
        simp [hcurrent, hgone]
  · have hcurrent := h.current_of_unchosen hunchosen hnone
    rw [forget, hcurrent, if_neg (by simp)]

/-- Every request keeps what `Tells` says, with one more request in the history. -/
theorem Tells.outcome (h : Tells history r) (request : RegistryRequest) :
    Tells (history ++ [request]) (request.outcome r) := by
  cases request with
  | register id =>
    refine tells_of_chooses .registered (pairwise_insert h.ordered id) fun id' => ?_
    have hsame : RegistryRequest.register id = .register id' ↔ id' = id := by
      rw [RegistryRequest.register.injEq, eq_comm]
    show id' ∈ insert id r.tracked ↔ _
    rw [mem_insert, present_concat, h.mem_iff, hsame]
    simp
  | select id =>
    have hmem : ∀ id', id' ∈ r.tracked ↔ Present (history ++ [.select id]) id' := by
      simpa [present_concat] using h.mem_iff
    rw [RegistryRequest.outcome, select]
    split
    · next hid =>
      exact tells_of_chooses (.selected ((h.mem_iff id).mp (isTracked_iff.mp hid))) h.ordered hmem
    · next hid =>
      have hunchosen : ∀ id', ¬Chooses history id' (.select id) := by
        rintro id' (_ | hpresent)
        exact hid (isTracked_iff.mpr ((h.mem_iff id).mpr hpresent))
      refine ⟨h.ordered, hmem, fun id' since hlast => ?_, h.current_of_unchosen hunchosen⟩
      obtain ⟨-, hchosen⟩ | ⟨since, rfl, hlast, -⟩ := lastChosen_concat.mp hlast
      · exact absurd hchosen (hunchosen id')
      · simpa using h.current_eq id' since hlast
  | remove id => exact h.remove id

/-- The registry `after` a history is what the history `Tells`, however long that is. -/
theorem tells_after (history : List RegistryRequest) : Tells history (after history) := by
  -- What is told is about the end of the history, so the induction moves requests there one by one.
  have hrun : ∀ later before r, Tells before r →
      Tells (before ++ later) (later.foldl RegistryRequest.outcome r) := by
    intro later
    induction later with
    | nil =>
      intro before r h
      rwa [List.append_nil]
    | cons request later ih =>
      intro before r h
      rw [List.append_cons]
      exact ih _ _ (h.outcome request)
  refine hrun history [] {} ⟨.nil, ?_, ?_, fun _ => rfl⟩
  · simp [Present]
  · rintro id since ⟨before, request, hhistory, -⟩
    simp at hhistory

/-- A registry is `Live` after every history. -/
theorem live_after (history : List RegistryRequest) : (after history).Live := by
  have hrun : ∀ r : Registry, r.Live → (history.foldl RegistryRequest.outcome r).Live := by
    induction history with
    | nil => exact fun r h => h
    | cons request history ih => exact fun r h => ih _ (h.outcome request)
  exact hrun {} ⟨iff_of_true rfl rfl, fun i hi => (nomatch hi)⟩

/-- The session that is meant if none is named is the current one, also for `Registry.target?`. -/
theorem Live.target?_none (h : r.Live) : r.target? none = r.current := by
  rw [target?, Option.none_or]
  cases hcurrent : r.current with
  | none => rfl
  | some id => exact Option.filter_some_pos (isTracked_iff.mpr (h.tracked id hcurrent))

/-! ## The list of sessions -/

/-- What is shown of a `Registry`: every tracked session once, the oldest first, and exactly one of
them is marked as the current one if there are any. -/
structure Lists (r : Registry) (entries : List Json) : Prop where
  ordered : r.tracked.Pairwise (· < ·)
  ids : entries.map (Json.get? "session_id") = r.tracked.map fun id => some (.nat id)
  marked : entries ≠ [] → ∃ before entry later, entries = before ++ entry :: later ∧
    entry.get? "current" = some (.bool true) ∧ entry.get? "session_id" = r.current.map Json.nat ∧
    ∀ other ∈ before ++ later, other.get? "current" = some (.bool false)

/-- Entries of the tracked sessions are `Lists` of them if the current session is tracked. -/
theorem lists_map (hordered : r.tracked.Pairwise (· < ·)) (hlive : r.Live) {entry : Nat → Json}
    (hid : ∀ id, (entry id).get? "session_id" = some (.nat id))
    (hmark : ∀ id, (entry id).get? "current" = some (.bool (r.current = some id))) :
    r.Lists (r.tracked.map entry) where
  ordered := hordered
  ids := by simp [hid]
  marked hne := by
    obtain ⟨id, hcurrent⟩ : ∃ id, r.current = some id := by
      refine Option.ne_none_iff_exists'.mp fun hnone => hne ?_
      rw [hlive.none_iff.mp hnone, List.map_nil]
    obtain ⟨before, later, htracked⟩ := List.append_of_mem (hlive.tracked id hcurrent)
    refine ⟨before.map entry, entry id, later.map entry, by simp [htracked], ?_, ?_, fun other hother => ?_⟩
    · simp [hmark, hcurrent]
    · rw [hid, hcurrent, Option.map_some]
    · rw [← List.map_append, List.mem_map] at hother
      obtain ⟨id', hid', rfl⟩ := hother
      -- No session is tracked twice.
      have hne : id' ≠ id := by
        have hnodup : (before ++ id :: later).Nodup := htracked ▸ hordered.imp Nat.ne_of_lt
        rintro rfl
        exact (List.nodup_cons.mp (List.nodup_middle.mp hnodup)).1 hid'
      simp [hmark, hcurrent, Ne.symm hne]

end Registry

/-! ## What a bridge asks of its registry -/

/-- What a move asks of the registry, as a `RegistryRequest`. -/
def asks (b : Bridge) : Move → Option RegistryRequest
  | .register session => some (.register session)
  | .call c =>
    match Action.ofCall c.method c.params with
    | .ok (.select session) => some (.select session)
    | _ => none
  | .greet =>
    match b.client.greeted with
    | (_, .ok session) :: _ => some (.register session)
    | _ => none
  | .forward f =>
    if f ∈ b.forwarders ∧ f.step = .awaitEnd ∧
        (b.client.session? f.session).any (·.lifecycle.stage = .terminated) then
      some (.remove f.session)
    else none
  | .client _ | .answer => none

/-- What some moves ask of the registry, one after the other, by `asks`. -/
def asked (b : Bridge) : List Move → List RegistryRequest
  | [] => []
  | m :: ms => (b.asks m).toList ++ (b.step m).asked ms

/-- No session is registered that `session?` does not find. -/
def RegistersOpened (b : Bridge) : List Move → Prop
  | [] => True
  | m :: ms => (∀ n ∈ (b.asks m).bind RegistryRequest.registers?, (b.client.session? n).isSome = true) ∧
      (b.step m).RegistersOpened ms

instance decidableRegistersOpened (b : Bridge) : (ms : List Move) → Decidable (b.RegistersOpened ms)
  | [] => .isTrue trivial
  | m :: ms =>
    have := decidableRegistersOpened (b.step m) ms
    inferInstanceAs (Decidable (_ ∧ _))

/-- What a call does to the registry is what it `asks`. -/
theorem registry_call (b : Bridge) (c : Rpc.Call) :
    (b.call c).registry = (b.asks (.call c)).toList.foldl RegistryRequest.outcome b.registry := by
  rw [call, asks]
  cases hcall : Action.ofCall c.method c.params with
  | error f => rfl
  | ok action =>
    cases action with
    | describe | listSessions => rfl
    | select session =>
      show _ = (b.registry.select session).getD b.registry
      simp only [begin]
      cases b.registry.select session <;> rfl
    | terminate named | command named cmd shown =>
      simp only [begin]
      cases target named { b with nextSerial := b.nextSerial + 1 } <;> rfl

/-- What a forwarder does to the registry is what it `asks`. -/
theorem registry_forward (b : Bridge) (f : Forwarder) :
    (b.step (.forward f)).registry =
      (b.asks (.forward f)).toList.foldl RegistryRequest.outcome b.registry := by
  rw [step, asks]
  by_cases hmem : f ∈ b.forwarders
  · rw [if_pos hmem, actForwarder]
    cases hs : b.client.session? f.session with
    | none => simp
    | some s =>
      have hid : s.id = f.session := Client.id_of_session? hs
      cases hact : f.act ⟨s, b.registry, b.outbox⟩ with
      | none =>
        -- A forwarder that is to remove its session can act.
        have hnot : ¬(f.step = .awaitEnd ∧ s.lifecycle.stage = .terminated) := by
          rintro ⟨hstep, hstage⟩
          simp [Forwarder.act, hstep, hstage] at hact
        simp [hact, hnot]
      | some acted =>
        have haction := Forwarder.acted hact
        simp only [hact, Option.map_some, Option.getD_some]
        generalize acted.1 = step, acted.2 = g at haction ⊢
        cases haction with
        | forgot hstep hstage =>
          have hstage : s.lifecycle.stage = .terminated := hstage
          simp [hmem, hstep, hstage, hid, RegistryRequest.outcome]
        | notified hstep | printed hstep | closed hstep =>
          have hne : f.step ≠ .awaitEnd := by
            intro heq
            simp [heq] at hstep
          simp [hne, ForwardGround.say]
        | passed hstep | slept hstep | woken hstep | drainedNotifies hstep | drainedOutputs hstep
        | announced hstep => simp [hstep, ForwardGround.say]
  · rw [if_neg hmem, if_neg fun h => hmem h.1]
    rfl

/-- What any move does to the registry is what it `asks`. -/
theorem registry_asks (b : Bridge) (m : Move) :
    (b.step m).registry = (b.asks m).toList.foldl RegistryRequest.outcome b.registry := by
  cases m with
  | client m | register session => rfl
  | call c => exact b.registry_call c
  | greet =>
    rw [step, greet, asks]
    cases b.client.greeted with
    | nil => rfl
    | cons first rest =>
      obtain ⟨k, result⟩ := first
      cases result <;> rfl
  | answer =>
    rw [step, answer]
    split
    · rfl
    · simp only
      split <;> rfl
  | forward f => exact b.registry_forward f

/-- The registry of a bridge is what the moves have `asked` for. -/
theorem registry_run (b : Bridge) (ms : List Move) :
    (b.run ms).registry = (b.asked ms).foldl RegistryRequest.outcome b.registry := by
  induction ms generalizing b with
  | nil => rfl
  | cons m ms ih =>
    rw [asked, List.foldl_append, ← registry_asks]
    exact ih (b.step m)

/-- Sessions that are tracked are found by `session?`. -/
def Backed (b : Bridge) : Prop :=
  ∀ id ∈ b.registry.tracked, (b.client.session? id).isSome = true

/-- A session that `session?` finds is there forever. -/
theorem isSome_session?_step {b : Bridge} {n : Nat} (h : (b.client.session? n).isSome = true) (m : Move) :
    ((b.step m).client.session? n).isSome = true := by
  obtain ⟨s, hs⟩ := Option.isSome_iff_exists.mp h
  obtain ⟨m', houtcome, -⟩ := b.outcome m
  obtain ⟨s', hs', -⟩ := Client.lasting_true.outcome houtcome ⟨s, hs, trivial⟩
  exact Option.isSome_iff_exists.mpr ⟨s', hs'⟩

/-- Only what is registered becomes `tracked`. -/
theorem mem_tracked_outcome {r : Registry} {request : RegistryRequest} {id : Nat}
    (h : id ∈ (request.outcome r).tracked) : id ∈ r.tracked ∨ request.registers? = some id := by
  cases request with
  | register session =>
    exact (Registry.mem_insert.mp h).symm.imp_right fun heq => by rw [heq, RegistryRequest.registers?]
  | select session =>
    rw [RegistryRequest.outcome] at h
    cases hselect : r.select session with
    | none => exact .inl (by rwa [hselect] at h)
    | some r' => exact .inl (Registry.tracked_select hselect ▸ by rwa [hselect] at h)
  | remove session => exact .inl (Registry.mem_of_mem_forget h)

/-- A bridge stays `Backed` by a move that registers only sessions that are there. -/
theorem Backed.step {b : Bridge} (h : b.Backed) {m : Move}
    (hopened : ∀ n ∈ (b.asks m).bind RegistryRequest.registers?, (b.client.session? n).isSome = true) :
    (b.step m).Backed := by
  intro id hid
  refine isSome_session?_step ?_ m
  rw [registry_asks] at hid
  cases hasks : b.asks m with
  | none =>
    rw [hasks] at hid
    exact h id hid
  | some request =>
    rw [hasks] at hid
    obtain htracked | hregisters := mem_tracked_outcome hid
    · exact h id htracked
    · exact hopened id (by rw [hasks]; exact hregisters)

/-- A bridge stays `Backed` in a run that `RegistersOpened` sessions only. -/
theorem Backed.run {b : Bridge} (h : b.Backed) {ms : List Move} (hopened : b.RegistersOpened ms) :
    (b.run ms).Backed := by
  induction ms generalizing b with
  | nil => exact h
  | cons m ms ih => exact ih (h.step hopened.1) hopened.2

/-- The answer to a call of `sessions/list`. -/
theorem outbox_call_list {b : Bridge} {c : Rpc.Call} (hmethod : c.method = "sessions/list")
    (hordered : b.registry.tracked.Pairwise (· < ·)) (hlive : b.registry.Live) (hbacked : b.Backed) :
    ∃ entries, (b.call c).outbox =
        b.outbox ++ [.answer b.nextSerial ⟨c.id, .ok (.object [("sessions", .arr entries)])⟩] ∧
      b.registry.Lists entries := by
  -- Every tracked session is there, so it does not matter what these fields are without one.
  let entry (id : Nat) : Json := .object
    [("session_id", .nat id), ("current", .bool (b.registry.current = some id)),
      ("state", .option (fun s => .str s.lifecycle.stage.word) (b.client.session? id)),
      ("init", .option (fun s => .option Init.toJson s.init) (b.client.session? id))]
  have hlist : b.listJson = .object [("sessions", .arr (b.registry.tracked.map entry))] := by
    rw [listJson, ← List.filterMap_eq_map]
    congr 4
    refine List.filterMap_congr fun id hid => ?_
    obtain ⟨s, hs⟩ := Option.isSome_iff_exists.mp (hbacked id hid)
    simp [entry, hs, Json.option]
  refine ⟨b.registry.tracked.map entry, ?_, Registry.lists_map hordered hlive ?_ ?_⟩
  · rw [call, hmethod, ← hlist]
    rfl
  · simp [entry, Json.get?_object, Json.lookup]
  · simp [entry, Json.get?_object, Json.lookup]

open Registry (Present LastChosen)

/-- What was asked of a registry decides which sessions are tracked and which of them is the current
one: the one that was registered or selected last, or the youngest if that one has been removed since.
If no session is named there is one that is meant whenever there are sessions. Every bridge with that
registry, all of whose tracked sessions are there, shows it if it is asked for its sessions. A bridge
has the registry that its moves have asked for, and its tracked sessions are there if it registers
only sessions that are. -/
theorem current_session_of_history (history : List RegistryRequest) :
    let r := Registry.after history
    (∀ id, id ∈ r.tracked ↔ Present history id) ∧
    (∀ id since, LastChosen history id since →
      r.current = if .remove id ∈ since then r.tracked.max? else some id) ∧
    ((∀ id since, ¬LastChosen history id since) → r = {}) ∧
    r.target? none = r.current ∧ ((r.target? none).isSome ↔ r.tracked ≠ []) ∧
    (∀ b : Bridge, b.registry = r → b.Backed → ∀ c : Rpc.Call, c.method = "sessions/list" →
      ∃ entries, (b.call c).outbox =
          b.outbox ++ [.answer b.nextSerial ⟨c.id, .ok (.object [("sessions", .arr entries)])⟩] ∧
        r.Lists entries) ∧
    ∀ (address : String) (ms : List Move), asked { address } ms = history →
      (run { address } ms).registry = r ∧
        (RegistersOpened { address } ms → (run { address } ms).Backed) := by
  intro r
  have htells : Registry.Tells history r := Registry.tells_after history
  have hlive : r.Live := Registry.live_after history
  refine ⟨htells.mem_iff, htells.current_eq, fun hnone => ?_, hlive.target?_none, ?_, ?_,
    fun address ms hms => ⟨?_, fun hopened => ?_⟩⟩
  · have hcurrent : r.current = none := htells.unchosen hnone
    exact congr (congrArg Registry.mk (hlive.none_iff.mp hcurrent)) hcurrent
  · rw [hlive.target?_none, Option.isSome_iff_ne_none, ne_eq, hlive.none_iff]
  · intro b hb hbacked c hmethod
    rw [← hb] at htells hlive ⊢
    exact outbox_call_list hmethod htells.ordered hlive hbacked
  · rw [registry_run, hms]
    rfl
  · exact Backed.run (by simp [Backed]) hopened

/-- A run in which three sessions come. The first is selected, a fourth is not there to be selected,
and when the connection of the first breaks it is removed by its forwarder at `awaitEnd`. -/
def firstLost : List Move :=
  let select (id : Int) := Move.call ⟨"2.0", .null, "session/select", some (.obj [("session_id", .int id)])⟩
  [Move.client (.attach {}), .register 1, .client (.attach {}), .register 2, .client (.attach {}),
      .register 3, select 1, select 4, .client (.arrive 1 (.failure "reset"))] ++
    List.replicate 9 (Move.client (.receiver 1)) ++
    [ForwardStep.pollNotify, .drainNotify, .drainOutput, .awaitEnd].map fun step => Move.forward ⟨1, step⟩

/-- A bridge whose `registry` was asked to remove a session that nobody knows, and then the current
one. -/
def strayed : Bridge where
  address := ""
  client := Client.run {} [.attach {}, .attach {}]
  registry := Registry.after [.register 1, .register 2, .remove 7, .remove 2]

/-- The history of `firstLost`, which a bridge leads to in a run, and the bridge `strayed`. -/
theorem current_session_of_history_firstLost :
    let history : List RegistryRequest :=
      [.register 1, .register 2, .register 3, .select 1, .select 4, .remove 1]
    let b := run { address := "" } firstLost
    asked { address := "" } firstLost = history ∧ RegistersOpened { address := "" } firstLost ∧
      LastChosen history 1 [.select 4, .remove 1] ∧ b.registry.current = some 3 ∧
      b.registry.tracked = [2, 3] ∧
      (∃ entries, (b.call ⟨"2.0", .null, "sessions/list", none⟩).outbox =
          b.outbox ++ [.answer b.nextSerial ⟨.null, .ok (.object [("sessions", .arr entries)])⟩] ∧
        b.registry.Lists entries) ∧
      strayed.registry = ⟨[1], some 1⟩ ∧
      ∃ entries, (strayed.call ⟨"2.0", .null, "sessions/list", none⟩).outbox =
          strayed.outbox ++
            [.answer strayed.nextSerial ⟨.null, .ok (.object [("sessions", .arr entries)])⟩] ∧
        strayed.registry.Lists entries := by
  intro history b
  have hasked : asked { address := "" } firstLost = history := by decide +kernel
  have hopened : RegistersOpened { address := "" } firstLost := by decide +kernel
  have hlast : LastChosen history 1 [.select 4, .remove 1] := by
    let before : List RegistryRequest := [.register 1, .register 2, .register 3]
    have hselected : LastChosen (before ++ [.select 1]) 1 [] :=
      Registry.lastChosen_of_chooses (.selected ⟨[], _, rfl, by simp⟩)
    have hmissed : ∀ id, ¬Registry.Chooses (before ++ [.select 1]) id (.select 4) := by
      rintro id (_ | hpresent)
      exact absurd (((Registry.tells_after _).mem_iff 4).mpr hpresent) (by decide)
    have hkept : LastChosen (before ++ [.select 1] ++ [.select 4]) 1 [.select 4] :=
      Registry.lastChosen_concat.mpr (.inr ⟨[], rfl, hselected, hmissed⟩)
    exact Registry.lastChosen_concat.mpr (.inr ⟨[.select 4], rfl, hkept, by rintro id ⟨⟩⟩)
  obtain ⟨-, hcurrent, -, -, -, hlist, hbridge⟩ := current_session_of_history history
  obtain ⟨hregistry, hbacked⟩ := hbridge "" firstLost hasked
  have hstrayed : strayed.registry = ⟨[1], some 1⟩ := by decide
  have hthere : strayed.Backed := by
    intro id hid
    rw [hstrayed, List.mem_singleton] at hid
    rw [hid]
    decide +kernel
  obtain ⟨-, -, -, -, -, hlist', -⟩ :=
    current_session_of_history [.register 1, .register 2, .remove 7, .remove 2]
  refine ⟨hasked, hopened, hlast, ?_, ?_, ?_, hstrayed, ?_⟩
  · exact hregistry ▸ hcurrent 1 _ hlast
  · rw [hregistry]
    decide
  · rw [hregistry]
    exact hlist b hregistry (hbacked hopened) _ rfl
  · exact hlist' strayed rfl hthere _ rfl

end Dbgp.Bridge
