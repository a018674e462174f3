import Dbgp.Proofs.Dispatch

/-!
# The end of a session

The receiver ends its session in a fixed order of actions: the stage is changed, the slots and then the
mailboxes are closed, the listeners are taken and called, and only then the session counts as
terminated. `Receiver.rank` says how far it has come, and `Session.Unwound` what has been done by then,
whoever else has acted on the session in between.
-/

namespace Dbgp

/-- The place of an action of `Session.endStep` in the order in which a session is ended. -/
def EndStage.rank : EndStage → Nat
  | .begin => 1
  | .closeSlots => 2
  | .ring => 3
  | .closeNotifies => 4
  | .closeOutputs => 5
  | .takeListeners => 6
  | .call _ => 7

/-- How far the receiver has come with ending its session. -/
def Receiver.rank : Receiver → Nat
  | .reading _ | .ringing _ => 0
  | .ending stage _ => stage.rank
  | .ended => 8

/-- The last rank is that of a receiver that has `ended`. -/
theorem Receiver.eq_ended {r : Receiver} (h : 8 ≤ r.rank) : r = .ended := by
  cases r with
  | ended => rfl
  | reading _ | ringing _ => simp [rank] at h
  | ending stage _ => cases stage <;> simp [rank, EndStage.rank] at h

namespace Session

variable {s s' : Session} {now rank : Nat}

/-- What has been done when the receiver has come to a `rank`. -/
structure UnwoundTo (s : Session) (rank : Nat) : Prop where
  begun : 2 ≤ rank → s.lifecycle.stage ≠ .connected
  slots : 3 ≤ rank → s.slots.closed = true
  notifies : 5 ≤ rank → s.notifies.closed = true
  outputs : 6 ≤ rank → s.outputs.closed = true
  fired : s.lifecycle.fired = true ↔ 7 ≤ rank
  terminated : s.lifecycle.stage = .terminated ↔ 8 ≤ rank

/-- What had to be done so far has been done: `UnwoundTo` at the rank of the receiver. -/
def Unwound (s : Session) : Prop :=
  s.UnwoundTo s.receiver.rank

/-- Before the end has begun nothing has to be done. -/
theorem unwoundTo_of_le_one (hrank : rank ≤ 1) (hfired : s.lifecycle.fired = false)
    (hstage : s.lifecycle.stage ≠ .terminated) : s.UnwoundTo rank where
  begun h := by omega
  slots h := by omega
  notifies h := by omega
  outputs h := by omega
  fired := by
    rw [hfired]
    exact iff_of_false nofun (by omega)
  terminated := iff_of_false hstage (by omega)

/-- Listeners are not taken before the rank of calling them. -/
theorem UnwoundTo.fired_eq_false (h : s.UnwoundTo rank) (hrank : rank < 7) :
    s.lifecycle.fired = false := by
  cases hfired : s.lifecycle.fired with
  | false => rfl
  | true =>
    have hle := h.fired.mp hfired
    omega

/-- A session is not terminated before the last rank. -/
theorem UnwoundTo.not_terminated (h : s.UnwoundTo rank) (hrank : rank < 8) :
    s.lifecycle.stage ≠ .terminated := by
  intro hstage
  have hle := h.terminated.mp hstage
  omega

/-- Whoever leaves a session `Kept` leaves it `Unwound`. -/
theorem Unwound.kept (h : s.Unwound) (hkept : s.Kept s') : s'.Unwound := by
  obtain ⟨hbegun, hslots, hnotifies, houtputs, hfired, hterminated⟩ := h
  rw [Unwound, hkept.receiver_eq]
  refine ⟨fun hrank => ?_, fun hrank => ?_, fun hrank => ?_, fun hrank => ?_, ?_, ?_⟩
  · rw [hkept.stage_eq (hbegun hrank)]
    exact hbegun hrank
  · rw [hkept.slots_closed, hslots hrank]
  · rw [hkept.notifies_closed, hnotifies hrank]
  · rw [hkept.outputs_closed, houtputs hrank]
  · rw [hkept.fired_eq, hfired]
  · rcases hkept.stage with hstage | ⟨hconnected, hstage⟩
    · rw [hstage, hterminated]
    · rw [hstage, ← hterminated, hconnected]
      exact iff_of_false nofun nofun

/-- Neither what arrives nor the wish to stop undoes anything. -/
theorem Unwound.incoming (h : s.Unwound) (inbound : Inbound) (stop : Bool) :
    { s with inbound, stop }.Unwound :=
  { (h : s.UnwoundTo s.receiver.rank) with }

/-- After `Lifecycle.begin` a session is not connected. -/
theorem stage_begin_ne (l : Lifecycle) : l.begin.stage ≠ .connected := by
  rw [Lifecycle.begin]
  split
  · simp
  · assumption

/-- Each action of `Session.endStep` does what has to be done next. -/
theorem UnwoundTo.endStep {stage : EndStage} {failure : Option Error}
    (h : s.UnwoundTo stage.rank) : (s.endStep stage failure).Unwound := by
  have hlow := h.fired_eq_false
  have hstage := h.not_terminated
  obtain ⟨hbegun, hslots, hnotifies, houtputs, hfired, hterminated⟩ := h
  cases stage with
  | begin =>
    have hfired' : s.lifecycle.begin.fired = false := s.spared_begin.fired_eq.trans (hlow (by decide))
    show UnwoundTo _ 2
    refine ⟨fun _ => stage_begin_ne s.lifecycle, ?_, ?_, ?_, ?_, ?_⟩
    · omega
    · omega
    · omega
    · exact iff_of_false (by simp [Session.endStep, hfired']) (by omega)
    · refine iff_of_false (fun hended => ?_) (by omega)
      rcases s.spared_begin.stage with hsame | ⟨-, hbegun⟩
      · exact hstage (by decide) (hsame.symm.trans hended)
      · cases hbegun.symm.trans hended
  | closeSlots =>
    show UnwoundTo _ 3
    refine ⟨fun _ => hbegun (by decide), fun _ => rfl, ?_, ?_, hfired.trans (by decide),
      hterminated.trans (by decide)⟩
    · omega
    · omega
  | ring =>
    show UnwoundTo _ 4
    refine ⟨fun _ => hbegun (by decide), fun _ => hslots (by decide), ?_, ?_,
      hfired.trans (by decide), hterminated.trans (by decide)⟩
    · omega
    · omega
  | closeNotifies =>
    show UnwoundTo _ 5
    refine ⟨fun _ => hbegun (by decide), fun _ => hslots (by decide), fun _ => rfl, ?_,
      hfired.trans (by decide), hterminated.trans (by decide)⟩
    omega
  | closeOutputs =>
    show UnwoundTo _ 6
    exact ⟨fun _ => hbegun (by decide), fun _ => hslots (by decide), fun _ => hnotifies (by decide),
      fun _ => rfl, hfired.trans (by decide), hterminated.trans (by decide)⟩
  | takeListeners =>
    have htake : s.lifecycle.take =
        (some s.lifecycle.listeners, { s.lifecycle with fired := true, listeners := [] }) := by
      rw [Lifecycle.take, hlow (by decide)]
      rfl
    rw [Session.endStep, htake]
    show UnwoundTo _ 7
    exact ⟨fun _ => hbegun (by decide), fun _ => hslots (by decide), fun _ => hnotifies (by decide),
      fun _ => houtputs (by decide), iff_of_true rfl (by decide), hterminated.trans (by decide)⟩
  | call names =>
    have hrank : (EndStage.call names).rank = 7 := rfl
    rw [hrank] at hbegun hslots hnotifies houtputs hfired hterminated
    cases names with
    | nil =>
      show UnwoundTo _ 8
      have hsettled : Stage.terminated ≠ .connected := by decide
      exact ⟨fun _ => hsettled, fun _ => hslots (by decide), fun _ => hnotifies (by decide),
        fun _ => houtputs (by decide), hfired.trans (by decide), iff_of_true rfl (by decide)⟩
    | cons name names =>
      exact ⟨hbegun, hslots, hnotifies, houtputs, hfired, hterminated⟩

/-- `Session.dispatch` does not begin the end. -/
theorem rank_dispatch (s : Session) (payload : String) (hrank : s.receiver.rank = 0) :
    (s.dispatch payload).receiver.rank = 0 := by
  rw [dispatch]
  split
  · next packet _ =>
    cases packet with
    | response r =>
      rw [route]
      split
      · rfl
      · exact hrank
    | notify n | output o => exact hrank
  · exact hrank

/-- Every action of the receiver leaves a session `Unwound`. -/
theorem Unwound.receives (h : s.Unwound) (hstep : s.receiverStep now = some s') : s'.Unwound := by
  have hearly : s.receiver.rank = 0 →
      s.lifecycle.fired = false ∧ s.lifecycle.stage ≠ .terminated := fun hrank =>
    ⟨h.fired_eq_false (by omega), h.not_terminated (by omega)⟩
  cases Session.receives hstep with
  | wound hreceiver =>
    rw [Unwound, hreceiver] at h
    exact UnwoundTo.endStep h
  | rang hreceiver | waited hreceiver =>
    obtain ⟨hfired, hstage⟩ := hearly (by rw [hreceiver]; rfl)
    exact unwoundTo_of_le_one (Nat.zero_le 1) hfired hstage
  | stopped hreceiver | closed hreceiver | failed hreceiver =>
    obtain ⟨hfired, hstage⟩ := hearly (by rw [hreceiver]; rfl)
    exact unwoundTo_of_le_one (Nat.le_refl 1) hfired hstage
  | @took r payload inbound hreceiver =>
    obtain ⟨hfired, hstage⟩ := hearly (by rw [hreceiver]; rfl)
    rw [Unwound, rank_dispatch _ payload rfl]
    apply unwoundTo_of_le_one (Nat.zero_le 1)
    · rw [(dispatch_keeps _ payload).2]
      exact hfired
    · rw [(dispatch_keeps _ payload).2]
      exact hstage

/-- A `Session.new` is `Unwound`: nothing had to be done. -/
theorem unwound_new (id connection : Nat) (init : Option Init) (config : Config) (inbound : Inbound)
    (outlet : Outlet) : (Session.new id connection now init config inbound outlet).Unwound :=
  unwoundTo_of_le_one (Nat.zero_le 1) rfl nofun

/-- A session whose receiver is through has all that belongs to its end behind it. -/
theorem Unwound.of_ended (h : s.Unwound) (hended : s.receiver = .ended) :
    s.lifecycle.stage = .terminated ∧ s.lifecycle.fired = true ∧ s.slots.closed = true ∧
      s.notifies.closed = true ∧ s.outputs.closed = true := by
  rw [Unwound, hended] at h
  exact ⟨h.terminated.mpr (by decide), h.fired.mpr (by decide), h.slots (by decide),
    h.notifies (by decide), h.outputs (by decide)⟩

/-- A session that is terminated has a receiver that is through. -/
theorem Unwound.of_terminated (h : s.Unwound) (hstage : s.lifecycle.stage = .terminated) :
    s.receiver = .ended :=
  Receiver.eq_ended (h.terminated.mp hstage)

end Session

/-- In every run, a session is `Session.Unwound` as far as its receiver has come. -/
theorem Client.unwound_run {n : Nat} {ms : List Client.Move} {s : Session}
    (hs : (Client.run {} ms).session? n = some s) : s.Unwound := by
  induction ms using List.reverseRecOn generalizing s with
  | nil => cases hs
  | append_singleton ms m ih =>
    rw [Client.run_concat] at hs
    cases hbefore : (Client.run {} ms).session? n with
    | none =>
      obtain hnone | ⟨connection, init, config, inbound, outlet, hnew⟩ :=
        Client.session?_step_of_none hbefore m
      · cases hnone.symm.trans hs
      · cases hnew.symm.trans hs
        exact Session.unwound_new n connection init config inbound outlet
    | some s₀ =>
      obtain ⟨s', hs', hchange⟩ := Client.change hbefore m
      cases hs'.symm.trans hs
      cases hchange with
      | received _ _ hstep => exact (ih hbefore).receives hstep
      | stalled => exact ih hbefore
      | deserted => exact (ih hbefore).incoming s₀.inbound true
      | arrived => exact (ih hbefore).incoming _ s₀.stop
      | aside _ _ hkept => exact (ih hbefore).kept hkept

end Dbgp
