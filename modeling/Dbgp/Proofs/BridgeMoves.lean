import Dbgp.Proofs.BridgeRun

/-!
# What a bridge says and does

One inversion lemma for each thing a bridge does on its own account, as `SessionActions` has them for
sessions: `Forwarder.acted` for the actions of a forwarder, and `Bridge.called`, `Bridge.answered` and
`Bridge.greeted` for calls, results and handshakes. Everything else about what a bridge has said, which
sessions it tracks and which calls are pending is proved from these cases.
-/

namespace Dbgp

/-- The jobs that a call can take. -/
def Job.IsCalled : Job → Prop
  | .command _ | .terminate => True
  | _ => False

namespace Bridge

open Rpc (Call Failure Message)

/-! ## Tracked sessions -/

namespace Registry

variable {r r' : Registry} {n j : Nat}

/-- What is tracked after `insert`. -/
theorem mem_insert {l : List Nat} : n ∈ insert j l ↔ n = j ∨ n ∈ l := by
  induction l with
  | nil => simp [insert]
  | cons k rest ih =>
    rw [insert]
    split
    · simp
    · split
      · next hjk =>
        subst hjk
        simp
      · rw [List.mem_cons, ih, List.mem_cons]
        exact or_left_comm

/-- A session that is forgotten is not tracked. -/
theorem not_mem_forget (r : Registry) (n : Nat) : n ∉ (r.forget n).tracked := by
  simp [forget]

/-- `Registry.forget` tracks nothing new. -/
theorem mem_of_mem_forget (h : n ∈ (r.forget j).tracked) : n ∈ r.tracked :=
  (List.mem_filter.mp h).1

/-- `Registry.select` changes the current session only. -/
theorem tracked_select (h : r.select j = some r') : r'.tracked = r.tracked := by
  rw [select] at h
  split at h
  · cases h
    rfl
  · cases h

end Registry

/-! ## Forwarders -/

/-- What `Forwarder.act` can do, by the step it is at. -/
inductive Forwarder.Action (f : Forwarder) (g : ForwardGround) : ForwardStep → ForwardGround → Prop
  | notified {n : Notify} {rest : List Notify} : f.step = .pollNotify ∨ f.step = .drainNotify →
      g.session.notifies.items = n :: rest →
      Action f g f.step
        ({ g with session.notifies.items := rest }.say (Rpc.notified g.session.id n))
  | printed {o : Output} {rest : List Output} {step : ForwardStep} :
      f.step = .pollOutput ∧ step = .pollNotify ∨ f.step = .drainOutput ∧ step = .drainOutput →
      g.session.outputs.items = o :: rest →
      Action f g step
        ({ g with session.outputs.items := rest }.say (Rpc.printed g.session.id o))
  | passed : f.step = .pollNotify → g.session.notifies.items = [] →
      g.session.notifies.closed = false → Action f g .pollOutput g
  | slept : f.step = .pollOutput → g.session.outputs.items = [] →
      g.session.outputs.closed = false → Action f g .sleep g
  | closed : f.step = .pollNotify ∧ g.session.notifies.closed = true ∨
        f.step = .pollOutput ∧ g.session.outputs.closed = true → Action f g .drainNotify g
  | woken : f.step = .sleep → Action f g .pollNotify g
  | drainedNotifies : f.step = .drainNotify → g.session.notifies.items = [] →
      Action f g .drainOutput g
  | drainedOutputs : f.step = .drainOutput → g.session.outputs.items = [] → Action f g .awaitEnd g
  | forgot : f.step = .awaitEnd → g.session.lifecycle.stage = .terminated →
      Action f g .announce { g with registry := g.registry.forget g.session.id }
  | announced : f.step = .announce →
      Action f g .gone (g.say (Rpc.terminated g.session.id (endError g.session)))

/-- `Mailbox.look` takes the first packet, if there is one. -/
theorem look_eq (box : Mailbox α) :
    (∃ a rest, box.items = a :: rest ∧ box.look = (.item a, { box with items := rest })) ∨
      box.items = [] ∧ (box.closed = true ∧ box.look = (.closed, box) ∨
        box.closed = false ∧ box.look = (.empty, box)) := by
  rw [Mailbox.look]
  cases hitems : box.items with
  | cons a rest => exact .inl ⟨a, rest, rfl, rfl⟩
  | nil =>
    refine .inr ⟨rfl, ?_⟩
    cases hclosed : box.closed with
    | true => exact .inl ⟨rfl, rfl⟩
    | false => exact .inr ⟨rfl, rfl⟩

/-- Every action of `Forwarder.act` is one of `Forwarder.Action`. -/
theorem Forwarder.acted {f : Forwarder} {g g' : ForwardGround} {step : ForwardStep}
    (h : f.act g = some (step, g')) : f.Action g step g' := by
  rw [act] at h
  cases hstep : f.step with
  | pollNotify =>
    simp only [hstep, pollNotify] at h
    obtain ⟨n, rest, hitems, hlook⟩ | ⟨hitems, ⟨hclosed, hlook⟩ | ⟨hclosed, hlook⟩⟩ :=
      look_eq g.session.notifies
    · rw [hlook] at h
      cases h
      exact hstep ▸ .notified (.inl hstep) hitems
    · rw [hlook] at h
      cases h
      exact .closed (.inl ⟨hstep, hclosed⟩)
    · rw [hlook] at h
      cases h
      exact .passed hstep hitems hclosed
  | pollOutput =>
    simp only [hstep, pollOutput] at h
    obtain ⟨o, rest, hitems, hlook⟩ | ⟨hitems, ⟨hclosed, hlook⟩ | ⟨hclosed, hlook⟩⟩ :=
      look_eq g.session.outputs
    · rw [hlook] at h
      cases h
      exact .printed (.inl ⟨hstep, rfl⟩) hitems
    · rw [hlook] at h
      cases h
      exact .closed (.inr ⟨hstep, hclosed⟩)
    · rw [hlook] at h
      cases h
      exact .slept hstep hitems hclosed
  | sleep =>
    simp only [hstep] at h
    split at h
    · cases h
      exact .woken hstep
    · cases h
  | drainNotify =>
    simp only [hstep, pollNotify] at h
    obtain ⟨n, rest, hitems, hlook⟩ | ⟨hitems, ⟨-, hlook⟩ | ⟨-, hlook⟩⟩ :=
      look_eq g.session.notifies
    · rw [hlook] at h
      cases h
      exact hstep ▸ .notified (.inr hstep) hitems
    · rw [hlook] at h
      cases h
      exact .drainedNotifies hstep hitems
    · rw [hlook] at h
      cases h
      exact .drainedNotifies hstep hitems
  | drainOutput =>
    simp only [hstep, pollOutput] at h
    obtain ⟨o, rest, hitems, hlook⟩ | ⟨hitems, ⟨-, hlook⟩ | ⟨-, hlook⟩⟩ :=
      look_eq g.session.outputs
    · rw [hlook] at h
      cases h
      exact .printed (.inr ⟨hstep, rfl⟩) hitems
    · rw [hlook] at h
      cases h
      exact .drainedOutputs hstep hitems
    · rw [hlook] at h
      cases h
      exact .drainedOutputs hstep hitems
  | awaitEnd =>
    simp only [hstep] at h
    split at h
    · next hstage =>
      cases h
      exact .forgot hstep hstage
    · cases h
  | announce =>
    simp only [hstep] at h
    cases h
    exact .announced hstep
  | gone =>
    simp only [hstep] at h
    cases h

/-- A forwarder leaves the number of its session alone. -/
theorem Forwarder.Action.id_eq {f : Forwarder} {g g' : ForwardGround} {step : ForwardStep}
    (h : f.Action g step g') : g'.session.id = g.session.id := by
  cases h <;> rfl

variable {b : Bridge}

/-- What a move of a forwarder does to the bridge. -/
theorem forwarded (b : Bridge) (f : Forwarder) : b.step (.forward f) = b ∨
    ∃ s step g, f ∈ b.forwarders ∧ b.client.session? f.session = some s ∧
      f.Action ⟨s, b.registry, b.outbox⟩ step g ∧
      b.step (.forward f) = { b with
        client := b.client.putSession g.session
        registry := g.registry
        outbox := g.outbox
        forwarders := b.forwarders.map fun f' =>
          if f'.session = f.session then { f' with step } else f' } := by
  rw [step]
  split
  · next hmem =>
    rw [actForwarder]
    cases hs : b.client.session? f.session with
    | none => exact .inl rfl
    | some s =>
      simp only
      cases hact : f.act ⟨s, b.registry, b.outbox⟩ with
      | none => exact .inl rfl
      | some acted => exact .inr ⟨s, acted.1, acted.2, hmem, rfl, Forwarder.acted hact, rfl⟩
  · exact .inl rfl

/-! ## Calls and results -/

/-- Failures that have nothing to do with a session carry no data. -/
theorem data_of_ofCall {method : String} {params : Option Json} {f : Failure}
    (h : Action.ofCall method params = .error f) : f.data = none := by
  rw [Action.ofCall] at h
  split at h
  · cases h
  · split at h
    · split at h
      · cases h
        rfl
      · split at h
        · cases h
          rfl
        · cases h
    · split at h
      · cases h
        rfl
      · next read _ =>
        cases hread : read (params.getD (.obj [])) with
        | ok action =>
          rw [hread] at h
          cases h
        | error fault =>
          rw [hread] at h
          cases h
          rfl

/-- A target that is not there is a failure without data. -/
theorem data_of_target {named : Option Nat} {f : Failure} (h : b.target named = .error f) :
    f.data = none := by
  unfold target at h
  split at h <;> cases h <;> rfl

/-- An action that `Bridge.begin` answers at once leaves all but the registry alone. -/
theorem begin_eq_answered {action : Action} {outcome : Except Failure Json} {b' : Bridge}
    (h : b.begin action = .answered outcome b') :
    (∃ registry, b' = { b with registry } ∧
      (registry = b.registry ∨ ∃ id, b.registry.select id = some registry)) ∧
      ∀ f, outcome = .error f → f.data = none := by
  unfold begin at h
  split at h
  · cases h
    exact ⟨⟨b.registry, rfl, .inl rfl⟩, by rintro f ⟨⟩⟩
  · cases h
    exact ⟨⟨b.registry, rfl, .inl rfl⟩, by rintro f ⟨⟩⟩
  · split at h
    · next registry hselect =>
      cases h
      exact ⟨⟨registry, rfl, .inr ⟨_, hselect⟩⟩, by rintro f ⟨⟩⟩
    · cases h
      exact ⟨⟨b.registry, rfl, .inl rfl⟩, by rintro f ⟨⟩; rfl⟩
  · split at h
    · next htarget =>
      cases h
      exact ⟨⟨b.registry, rfl, .inl rfl⟩, by rintro f ⟨⟩; exact data_of_target htarget⟩
    · cases h
  · split at h
    · next htarget =>
      cases h
      exact ⟨⟨b.registry, rfl, .inl rfl⟩, by rintro f ⟨⟩; exact data_of_target htarget⟩
    · cases h

/-- A call takes a job of `Job.IsCalled`. -/
theorem isCalled_of_begin {b : Bridge} {action : Action} {n : Nat} {job : Job} {shown : Reply → Json}
    (h : b.begin action = .started n job shown) : job.IsCalled := by
  unfold begin at h
  split at h
  · cases h
  · cases h
  · split at h <;> cases h
  · split at h <;> cases h
    trivial
  · split at h <;> cases h
    trivial

/-- A call is answered at once, or it is pending with a task of its own. -/
theorem called (b : Bridge) (c : Call) :
    (∃ registry outcome, b.call c = { b with
        nextSerial := b.nextSerial + 1, registry
        outbox := b.outbox ++ [.answer b.nextSerial ⟨c.id, outcome⟩] } ∧
      (registry = b.registry ∨ ∃ id, b.registry.select id = some registry) ∧
      ∀ f, outcome = .error f → f.data = none) ∨
    ∃ action n job shown, Action.ofCall c.method c.params = .ok action ∧
      b.begin action = .started n job shown ∧ b.call c = { b with
        nextSerial := b.nextSerial + 1
        client := (b.client.start n job).2
        pending := b.pending ++ [⟨b.nextSerial, b.client.nextTask, c.id, shown⟩] } := by
  rw [call]
  cases hcall : Action.ofCall c.method c.params with
  | error f =>
    refine .inl ⟨b.registry, .error f, rfl, .inl rfl, ?_⟩
    rintro f ⟨⟩
    exact data_of_ofCall hcall
  | ok action =>
    simp only
    cases hbegin : Bridge.begin action { b with nextSerial := b.nextSerial + 1 } with
    | answered outcome b' =>
      obtain ⟨⟨registry, rfl, hregistry⟩, hdata⟩ := begin_eq_answered hbegin
      exact .inl ⟨registry, outcome, rfl, hregistry, hdata⟩
    | started n job shown =>
      refine .inr ⟨action, n, job, shown, rfl, ?_, rfl⟩
      -- The number of the next call has no part in what an action begins.
      have hnumber : ∀ k, Bridge.begin action { b with nextSerial := k } = .started n job shown →
          b.begin action = .started n job shown := by
        intro k h
        unfold begin at h ⊢
        split at h
        · cases h
        · cases h
        · split at h <;> cases h
        · next named =>
          split at h
          · cases h
          · next htarget =>
            cases h
            have htarget : b.target named = .ok n := htarget
            simp only [htarget]
        · next named c s =>
          split at h
          · cases h
          · next htarget =>
            cases h
            have htarget : b.target named = .ok n := htarget
            simp only [htarget]
      exact hnumber _ hbegin

/-- What `Bridge.answer` makes of the first result. -/
theorem answered (b : Bridge) : b.step .answer = b ∨
    ∃ k result rest, b.client.finished = (k, result) :: rest ∧
      (b.step .answer = { b with client.finished := rest } ∨
        ∃ p ∈ b.pending, p.task = k ∧ b.step .answer = { b with
          client.finished := rest
          pending := b.pending.filter fun p => p.task ≠ k
          outbox := b.outbox ++
            [.answer p.serial ⟨p.id, (result.map p.shown).mapError Failure.ofError⟩] }) := by
  rw [step, answer]
  cases hfinished : b.client.finished with
  | nil => exact .inl rfl
  | cons first rest =>
    obtain ⟨k, result⟩ := first
    refine .inr ⟨k, result, rest, rfl, ?_⟩
    simp only
    cases hfound : b.pending.find? fun p => p.task = k with
    | none => exact .inl rfl
    | some p =>
      refine .inr ⟨p, List.mem_of_find?_eq_some hfound, ?_, rfl⟩
      simpa using List.find?_some hfound

/-- What `Bridge.greet` makes of the first handshake that is over. -/
theorem greeted (b : Bridge) : b.step .greet = b ∨
    (∃ k e rest, b.client.greeted = (k, .error e) :: rest ∧
      b.step .greet = { b with client.greeted := rest }) ∨
    ∃ k n rest, b.client.greeted = (k, .ok n) :: rest ∧
      b.step .greet = { b with client.greeted := rest }.register n := by
  rw [step, greet]
  cases hgreeted : b.client.greeted with
  | nil => exact .inl rfl
  | cons first rest =>
    obtain ⟨k, result⟩ := first
    cases result with
    | error e => exact .inr (.inl ⟨k, e, rest, rfl, rfl⟩)
    | ok n => exact .inr (.inr ⟨k, n, rest, rfl, rfl⟩)

end Bridge

end Dbgp
