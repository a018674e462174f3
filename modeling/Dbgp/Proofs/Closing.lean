import Dbgp.Proofs.Emission
import Dbgp.Proofs.Outcome
import Dbgp.Proofs.Unwinding

/-!
# Closing is ending

Slots are closed by the receiver and the outlet by whoever ends the session from this side, and both
change the stage before they close anything. So a session whose slots are closed or whose outlet is
gone is on its way to the end (`Session.Sealed`), and the same holds while a task is at ending it
(`Phase.Ends`). `Client.sealed_local` is about single actions, and `Client.Sealed` is what all runs
keep. What follows for an exchange is that it breaks
off with an error that cannot be got over only if the session is ending by then (`Exchange.Action.severed`).
-/

namespace Dbgp

/-! ## Single operations -/

/-- `Outlet.write` does not close the outlet. -/
theorem Outlet.live_write {bytes : List UInt8} {o o' : Outlet} {w : Written}
    (h : o.write bytes = some (w, o')) : o'.live = o.live := by
  cases writes h <;> rfl

/-- Whatever goes wrong with `Outlet.write` cannot be got over. -/
theorem Outlet.isRecoverable_of_write {bytes : List UInt8} {o o' : Outlet} {e : Error}
    (h : o.write bytes = some (.failed e, o')) : e.isRecoverable = false := by
  cases writes h with
  | refused => rfl
  | whole _ hw =>
    obtain hw | hw := hw
    · cases hw
    · cases hw
      rfl

/-- `Slots.fill` closes nothing. -/
theorem Slots.closed_fill {s s' : Slots} {r : Response} (h : s.fill r = some s') :
    s'.closed = s.closed := by
  rw [fill] at h
  split at h
  · cases h
    rfl
  · cases h

/-- `Session.dispatch` touches no outlet and closes no slots. -/
theorem Session.dispatch_spares (s : Session) (payload : String) :
    (s.dispatch payload).outlet = s.outlet ∧
      (s.dispatch payload).slots.closed = s.slots.closed := by
  rw [dispatch]
  split
  · next packet _ =>
    cases packet with
    | response r =>
      rw [route]
      split
      · next hfill => exact ⟨rfl, Slots.closed_fill hfill⟩
      · exact ⟨rfl, rfl⟩
    | notify _ | output _ => exact ⟨rfl, rfl⟩
  · exact ⟨rfl, rfl⟩

/-- After `Lifecycle.begin` a session is not connected. -/
theorem Lifecycle.isConnected_begin (l : Lifecycle) : l.begin.isConnected = false := by
  simpa [isConnected] using Session.stage_begin_ne l

/-! ## The property of a session -/

/-- What is closed has been closed by somebody who had begun to end the session. -/
structure Session.Sealed (s : Session) : Prop where
  begun : 2 ≤ s.receiver.rank → s.lifecycle.isConnected = false
  slots : s.slots.closed = true → s.lifecycle.isConnected = false
  outlet : s.outlet.live = false → s.lifecycle.isConnected = false

namespace Session

variable {s s' : Session}

/-- A session that is ending is `Sealed`, whatever is closed. -/
theorem sealed_of_ending (h : s.lifecycle.isConnected = false) : s.Sealed :=
  ⟨fun _ => h, fun _ => h, fun _ => h⟩

/-- Tasks neither move the receiver nor close slots, so a session stays `Sealed`. -/
theorem Sealed.kept (h : s.Sealed) (hkept : s.Kept s') (honward : s.lifecycle.Onward s'.lifecycle)
    (hlive : s'.outlet.live = s.outlet.live ∨ s'.lifecycle.isConnected = false) : s'.Sealed := by
  refine ⟨fun hrank => ?_, fun hclosed => ?_, fun hdead => ?_⟩
  · rw [hkept.receiver_eq] at hrank
    exact honward.isConnected_eq_false (h.begun hrank)
  · rw [hkept.slots_closed] at hclosed
    exact honward.isConnected_eq_false (h.slots hclosed)
  · obtain hlive | hending := hlive
    · exact honward.isConnected_eq_false (h.outlet (hlive ▸ hdead))
    · exact hending

/-- The receiver leaves a session `Sealed`: it begins to end it before it closes anything. -/
theorem Sealed.receives {now : Nat} (h : s.Sealed) (hstep : s.receiverStep now = some s') :
    s'.Sealed := by
  cases hconnected : s.lifecycle.isConnected with
  | false => exact sealed_of_ending ((receiverStep_keeps hstep).2.isConnected_eq_false hconnected)
  | true =>
    -- While the session is connected nothing is closed, and the only way to close something goes
    -- through the action that begins the end.
    have hrank : s.receiver.rank < 2 := by
      rw [← Nat.not_le]
      intro hrank
      cases hconnected.symm.trans (h.begun hrank)
    have hslots : s.slots.closed ≠ true := by
      intro hclosed
      cases hconnected.symm.trans (h.slots hclosed)
    have houtlet : s.outlet.live ≠ false := by
      intro hdead
      cases hconnected.symm.trans (h.outlet hdead)
    have hopen : s'.receiver.rank < 2 → s'.slots.closed = s.slots.closed →
        s'.outlet = s.outlet → s'.Sealed := by
      intro hrank hclosed hlive
      refine ⟨fun h => ?_, fun h => ?_, fun h => ?_⟩
      · omega
      · exact absurd (hclosed ▸ h) hslots
      · exact absurd (hlive ▸ h) houtlet
    cases Session.receives hstep with
    | @wound stage failure hreceiver =>
      rw [hreceiver] at hrank
      cases stage with
      | begin => exact sealed_of_ending s.lifecycle.isConnected_begin
      | _ => simp [Receiver.rank, EndStage.rank] at hrank
    | rang | waited => exact hopen (Nat.zero_lt_two) rfl rfl
    | stopped | closed | failed => exact hopen (Nat.one_lt_two) rfl rfl
    | @took r payload inbound =>
      obtain ⟨hlive, hclosed⟩ :=
        dispatch_spares { s with receiver := .reading (.start now), inbound } payload
      refine hopen ?_ hclosed hlive
      rw [rank_dispatch _ payload rfl]
      exact Nat.zero_lt_two

end Session

/-! ## The property of a task -/

/-- An exchange that ends the session has a reason to, and has begun to if it is past its first
action, where `E` says that the session is ending. -/
def Exchange.Ends (E : Prop) (x : Exchange) : Prop :=
  ∀ e r, x.phase = .failed e r → e.isRecoverable = false ∧ (r = .begin ∨ E)

/-- The same of whatever a task is at. -/
def Phase.Ends (E : Prop) : Phase → Prop
  | .negotiate x | .exchange x => x.Ends E
  | .finish r => r = .begin ∨ E
  | _ => True

/-- A session that is ending allows more. -/
theorem Phase.Ends.mono {E E' : Prop} (hE : E → E') {phase : Phase} (h : phase.Ends E) :
    phase.Ends E' := by
  cases phase with
  | negotiate x | exchange x =>
    intro e r hphase
    exact ⟨(h e r hphase).1, (h e r hphase).2.imp_right hE⟩
  | finish r => exact h.imp_right hE
  | start | cell | prepare | line | receive _ | await _ => trivial

/-- Every action of ending a session leaves it ending. -/
theorem EndRequest.Action.isConnected_eq_false {task : Nat} {r : EndRequest} {s s' : Session}
    {p : Progress EndRequest Unit} (h : r.Action task s p s')
    (hr : r = .begin ∨ s.lifecycle.isConnected = false) : s'.lifecycle.isConnected = false := by
  cases h with
  | begun => exact s.lifecycle.isConnected_begin
  | stopped hphase | joined hphase | shut hphase =>
    subst hphase
    exact hr.resolve_left (by simp)

namespace Exchange

variable {task now : Nat} {x x' : Exchange} {s s' : Session} {p : Progress Exchange (Option Response)}

/-- Only an exchange that ends the session closes the outlet (`Exchange.Ends`). -/
theorem Action.live (h : x.Action task now s p s') (hends : x.Ends (s.lifecycle.isConnected = false)) :
    s'.outlet.live = s.outlet.live ∨ s'.lifecycle.isConnected = false := by
  cases h with
  | wrote _ hwrite | broke _ hwrite | sent _ _ hwrite | dropped _ _ hwrite =>
    have hlive := Outlet.live_write hwrite
    exact .inl hlive
  | dead | refused | timedOut | obtained => exact .inl (by rw [(x.release_keeps _).1])
  | ending hphase hr =>
    exact .inr ((EndRequest.acted hr).isConnected_eq_false (hends _ _ hphase).2)
  | ended hphase hr =>
    rw [(x.release_keeps _).2]
    exact .inr ((EndRequest.acted hr).isConnected_eq_false (hends _ _ hphase).2)
  | entered | turnedAway | expected | unexpected | announced | begun | waited => exact .inl rfl

/-- An exchange keeps what `Ends` says of it. -/
theorem Ends.act (h : x.Action task now s (.ongoing x') s')
    (hends : x.Ends (s.lifecycle.isConnected = false)) :
    x'.Ends (s'.lifecycle.isConnected = false) := by
  intro e r hphase
  generalize hp : Progress.ongoing x' = p at h
  cases h with
  | broke _ hwrite =>
    cases hp
    cases hphase
    exact ⟨Outlet.isRecoverable_of_write hwrite, .inl rfl⟩
  | ending hfailed hr =>
    cases hp
    cases hphase
    obtain ⟨he, hr'⟩ := hends _ _ hfailed
    exact ⟨he, .inr ((EndRequest.acted hr).isConnected_eq_false hr')⟩
  | entered =>
    cases hp
    dsimp only at hphase
    split at hphase <;> cases hphase
  | expected | announced | begun | wrote | sent | waited =>
    cases hp
    cases hphase
  | turnedAway | unexpected | dead | dropped | refused | timedOut | obtained | ended => cases hp

end Exchange

/-- The errors that engines report (`Response.check`) can be got over. -/
theorem Response.isRecoverable_of_check {r : Response} {e : Error} (h : r.check = .error e) :
    e.isRecoverable = true := by
  unfold check at h
  split at h
  · next e' he =>
    cases h
    unfold error? at he
    cases hchild : r.root.child? "error" with
    | none => simp [hchild] at he
    | some child =>
      rw [hchild] at he
      cases he
      rfl
  · cases h

/-- An exchange that breaks off with an error that cannot be got over leaves a session that is
ending. -/
theorem Exchange.Action.severed {task now : Nat} {x : Exchange} {s s' : Session} {e : Error}
    (h : x.Action task now s (.finished (.error e)) s') (hs : s.Sealed)
    (hends : x.Ends (s.lifecycle.isConnected = false)) (he : e.isRecoverable = false) :
    s'.lifecycle.isConnected = false := by
  generalize hp : Progress.finished (Except.error e) = p at h
  cases h with
  | turnedAway _ hending => exact hending
  | unexpected _ hclosed => exact hs.slots hclosed
  | dead _ _ hdead =>
    rw [(x.release_keeps _).2]
    exact hs.outlet hdead
  | refused _ hw =>
    rw [(x.release_keeps _).2]
    cases Wait.acted hw with
    | refused _ _ hclosed => exact hs.slots hclosed
  | timedOut =>
    cases hp
    cases he
  | @obtained w r slots _ hw =>
    cases hcheck : r.check with
    | ok r' =>
      rw [hcheck] at hp
      cases hp
    | error e' =>
      rw [hcheck] at hp
      cases hp
      rw [Response.isRecoverable_of_check hcheck] at he
      cases he
  | ended hphase hr =>
    rw [(x.release_keeps _).2]
    exact (EndRequest.acted hr).isConnected_eq_false (hends _ _ hphase).2
  | entered | expected | announced | begun | wrote | broke | sent | dropped | waited | ending =>
    cases hp

namespace Task

variable {now : Nat} {t : Task} {g g' : Ground} {p : Progress Phase Reply}

/-- A command closes the outlet only if the session is ending, and keeps what `Phase.Ends` says of
it. -/
theorem ends_command {task : Nat} {c : Command} {phase : Phase}
    (h : CommandAction task now c phase g p g')
    (hends : phase.Ends (g.session.lifecycle.isConnected = false)) :
    (g'.session.outlet.live = g.session.outlet.live ∨ g'.session.lifecycle.isConnected = false) ∧
      ∀ phase', p = .ongoing phase' → phase'.Ends (g'.session.lifecycle.isConnected = false) := by
  cases h with
  | queued | ready | passed | skipped =>
    refine ⟨.inl rfl, ?_⟩
    rintro phase' ⟨⟩
    trivial
  | opened | prepared =>
    refine ⟨.inl rfl, ?_⟩
    rintro phase' ⟨⟩ e r hphase
    cases hphase
  | negotiating hphase hx | exchanging hphase hx =>
    subst hphase
    have hx := Exchange.acted hx
    refine ⟨hx.live hends, ?_⟩
    rintro phase' ⟨⟩
    exact Exchange.Ends.act hx hends
  | settled hphase hx =>
    subst hphase
    refine ⟨(Exchange.acted hx).live hends, ?_⟩
    rintro phase' ⟨⟩
    trivial
  | concluded hphase hx =>
    subst hphase
    refine ⟨(Exchange.acted hx).live hends, ?_⟩
    rintro phase' ⟨⟩

/-- So does every task. -/
theorem ends_act (h : t.act now g = some (p, g'))
    (hends : t.phase.Ends (g.session.lifecycle.isConnected = false)) :
    (g'.session.outlet.live = g.session.outlet.live ∨ g'.session.lifecycle.isConnected = false) ∧
      ∀ phase, p = .ongoing phase → phase.Ends (g'.session.lifecycle.isConnected = false) := by
  cases acted h with
  | command _ hc => exact ends_command hc hends
  | mailed _ hphase =>
    refine ⟨.inl rfl, fun phase hp => ?_⟩
    obtain rfl | ⟨deadline, rfl⟩ := hphase phase hp <;> trivial
  | ending _ hphase hr =>
    rw [hphase] at hends
    have hending := (EndRequest.acted hr).isConnected_eq_false hends
    refine ⟨.inr hending, ?_⟩
    rintro phase ⟨⟩
    exact .inr hending
  | ended _ hphase hr =>
    rw [hphase] at hends
    refine ⟨.inr ((EndRequest.acted hr).isConnected_eq_false hends), ?_⟩
    rintro phase ⟨⟩
  | awaiting | waited =>
    refine ⟨.inl rfl, ?_⟩
    rintro phase ⟨⟩
    trivial
  | terminating =>
    refine ⟨.inl rfl, ?_⟩
    rintro phase ⟨⟩
    exact .inl rfl
  | expected | unexpected | forgot | answered | sawEnd =>
    refine ⟨.inl rfl, ?_⟩
    rintro phase ⟨⟩

/-- A task that is given up does not close the outlet. -/
theorem live_abandon (t : Task) (s : Session) : (t.abandon s).outlet.live = s.outlet.live := by
  have hexchange : ∀ x : Exchange, (x.abandon t.id s).outlet.live = s.outlet.live := by
    intro x
    rw [Exchange.abandon]
    split
    · rfl
    · rfl
    · rw [(x.release_keeps _).1]
  rw [abandon]
  split
  case h_2 x _ | h_3 x _ => exact hexchange x
  all_goals rfl

end Task

/-! ## Runs -/

namespace Client

/-- Whoever has closed something has begun to end the session: `Session.Sealed` is `Local`. -/
theorem sealed_local :
    Local Session.Sealed fun t s => t.phase.Ends (s.lifecycle.isConnected = false) where
  opened hunused := by
    refine ⟨fun hrank => ?_, fun hclosed => ?_, fun hdead => ?_⟩
    · exact absurd hrank (Nat.not_le.mpr Nat.zero_lt_two)
    · exact absurd hclosed Bool.false_ne_true
    · cases hunused.live.symm.trans hdead
  beside hbeside hs := by
    cases hbeside
    exact ⟨⟨hs.begun, hs.slots, hs.outlet⟩, fun t h => h⟩
  mailed notifies outputs hs := ⟨⟨hs.begun, hs.slots, hs.outlet⟩, fun t h => h⟩
  received hstep hs := by
    have honward := (Session.receiverStep_keeps hstep).2
    exact ⟨hs.receives hstep, fun t h => h.mono honward.isConnected_eq_false⟩
  started k n job hs := trivial
  acted hact hs hends := by
    have honward := (Task.acted hact).akin.onward
    obtain ⟨hlive, hown⟩ := Task.ends_act hact hends
    exact ⟨hs.kept (Task.spared_act hact).toKept honward hlive, hown,
      fun t' _ h => h.mono honward.isConnected_eq_false⟩
  abandoned {t s} hs _ := by
    have honward := (t.akin_abandon s).onward
    exact ⟨hs.kept (t.spared_abandon s).toKept honward (.inl (t.live_abandon s)),
      fun t' _ h => h.mono honward.isConnected_eq_false⟩

/-- The books are in order (`Ordered`), and what is closed has been closed on the way to the end. -/
structure Sealed (c : Client) : Prop where
  ordered : c.Ordered
  upheld : c.Upholds Session.Sealed fun t s => t.phase.Ends (s.lifecycle.isConnected = false)

/-- A new client is `Sealed`. -/
theorem sealed_new : Sealed {} :=
  ⟨ordered_new, upholds_new⟩

/-- Every step keeps a client `Sealed`. -/
theorem Sealed.leads {c c' : Client} {m : Move} (hc : c.Sealed) (h : Leads c m c') : c'.Sealed :=
  ⟨hc.ordered.leads h, sealed_local.leads h hc.ordered hc.upheld⟩

end Client

end Dbgp
