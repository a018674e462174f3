import Dbgp.Proofs.Dispatch
import Dbgp.Proofs.PacketFraming
import Dbgp.Proofs.Scheduling
import Dbgp.Proofs.Unwinding

/-!
# Receiving payloads

The receiver of a session on a stream of packets that all fit. `Inbound.Bears` says which octets are
unread or still to come, and `Session.Intake` says which payloads the receiver has still to take: each
of its actions takes the first of them or none (`Session.Intake.receives`), whatever arrives in between.
Once nothing more is to come the receiver never waits, and each action leaves less to do
(`Session.Intake.toDo_lt`).
-/

namespace Dbgp

/-! ## Packets one after the other -/

namespace PacketRead

variable {maxSize : Nat} {r : PacketRead} {bytes rest : List UInt8} {payload : String}

/-- Read from its start, a stream of frames gives the first payload and leaves the others. -/
theorem outcome_start_cons (hsize : maxSize < 10 ^ Frame.fieldWidth)
    (hpayload : (Text.Utf8.encode payload).length ≤ maxSize) (now : Nat) (left : List String) :
    (start now).outcome maxSize ((payload :: left).flatMap Frame.encode) =
      (.ok (some payload), left.flatMap Frame.encode) := by
  have hnext := Frame.next_encode hsize hpayload (left.flatMap Frame.encode)
  rw [outcome_start, List.flatMap_cons, hnext, ← (Frame.rest_of_next hnext).1]
  rfl

/-- An empty stream gives no packet. -/
theorem outcome_start_nil (maxSize now : Nat) :
    (start now).outcome maxSize [] = (.ok none, []) := by
  rw [outcome_start, List.drop_nil]
  rfl

/-- A payload is not there before all octets that are missing are: what is `Wanting` takes some. -/
theorem Wanting.rest_length_lt (hr : r.Wanting)
    (h : r.outcome maxSize bytes = (.ok (some payload), rest)) : rest.length < bytes.length := by
  have hfill : ∀ {f : Fill} {text : String} {rest : List UInt8},
      f.outcome bytes = (.ok (some text), rest) →
      rest.length + (f.want - f.got.length) = bytes.length := by
    intro f text rest hf
    simp only [Fill.outcome, Prod.mk.injEq, Except.ok.injEq] at hf
    obtain ⟨hsome, rfl⟩ := hf
    split at hsome
    · next hle =>
      rw [List.length_drop]
      omega
    · cases hsome
  cases r with
  | payload f =>
    have hmissing : f.got.length < f.want := hr.length_lt
    have hlength := hfill h
    omega
  | header f =>
    have hmissing : f.got.length < f.want := hr.length_lt
    rw [outcome] at h
    split at h
    · next field rest' hfield =>
      have hlength := hfill hfield
      split at h
      · cases h
      · split at h
        · cases h
        · have hle : rest.length ≤ rest'.length := by
            rw [Fill.outcome, Prod.mk.injEq] at h
            rw [← h.2]
            exact (List.drop_sublist _ _).length_le
          omega
    · next other rest' hother hfield =>
      cases h
      exact (hother payload rfl).elim

end PacketRead

/-- Payloads that can be read under a configuration, however long they take to come. -/
structure Config.Admits (config : Config) (payloads : List String) : Prop where
  size_lt : config.maxPacketSize.toNat < 10 ^ Frame.fieldWidth
  readTimeout_eq : config.readTimeout = none
  length_le : ∀ payload ∈ payloads, (Text.Utf8.encode payload).length ≤ config.maxPacketSize.toNat

/-! ## The receiver -/

namespace Session

/-- The payloads that the receiver has still to take. Only where it was asked to stop does it leave
any. -/
inductive Intake (s : Session) (coming : List Arrival) (left : List String) : Prop
  | reading {r : PacketRead} {bytes : List UInt8} : s.receiver = .reading r → r.Wanting →
      s.inbound.Bears coming bytes →
      r.outcome s.config.maxPacketSize.toNat bytes =
        (PacketRead.start 0).outcome s.config.maxPacketSize.toNat (left.flatMap Frame.encode) →
      Intake s coming left
  | ringing {t : UInt32} : s.receiver = .ringing t →
      s.inbound.Bears coming (left.flatMap Frame.encode) → Intake s coming left
  | ending {stage : EndStage} : s.receiver = .ending stage none → (s.stop = false → left = []) →
      Intake s coming left
  | ended : s.receiver = .ended → (s.stop = false → left = []) → Intake s coming left

variable {s s' : Session} {coming : List Arrival} {left : List String} {now : Nat}

/-- The receiver is about to read the next packet. -/
theorem Intake.of_start (hreceiver : s.receiver = .reading (.start now))
    (hbears : s.inbound.Bears coming (left.flatMap Frame.encode)) : s.Intake coming left :=
  .reading hreceiver (PacketRead.wanting_start now) hbears
    (by rw [PacketRead.outcome_start, PacketRead.outcome_start])

/-- Whoever leaves a session `Session.Kept` leaves its payloads to it. -/
theorem Intake.kept (h : s.Intake coming left) (hkept : s.Kept s') : s'.Intake coming left := by
  have hstop : s'.stop = false → s.stop = false := by
    intro hstop'
    cases hstop : s.stop with
    | false => rfl
    | true => exact hstop'.symm.trans (hkept.stop hstop) |>.symm
  cases h with
  | reading hreceiver hr hbears houtcome =>
    refine .reading (hkept.receiver_eq.trans hreceiver) hr (hkept.inbound_eq ▸ hbears) ?_
    rw [hkept.config_eq, houtcome]
  | ringing hreceiver hbears =>
    exact .ringing (hkept.receiver_eq.trans hreceiver) (hkept.inbound_eq ▸ hbears)
  | ending hreceiver hleft =>
    exact .ending (hkept.receiver_eq.trans hreceiver) fun h => hleft (hstop h)
  | ended hreceiver hleft =>
    exact .ended (hkept.receiver_eq.trans hreceiver) fun h => hleft (hstop h)

/-- What arrives was still to come. -/
theorem Intake.arrived {what : Arrival} (h : s.Intake (what :: coming) left) :
    { s with inbound := s.inbound.receive what }.Intake coming left := by
  cases h with
  | reading hreceiver hr hbears houtcome => exact .reading hreceiver hr hbears houtcome
  | ringing hreceiver hbears => exact .ringing hreceiver hbears
  | ending hreceiver hleft => exact .ending hreceiver hleft
  | ended hreceiver hleft => exact .ended hreceiver hleft

/-- A session that is asked to stop keeps its account. -/
theorem Intake.stopped (h : s.Intake coming left) : { s with stop := true }.Intake coming left := by
  cases h with
  | reading hreceiver hr hbears houtcome => exact .reading hreceiver hr hbears houtcome
  | ringing hreceiver hbears => exact .ringing hreceiver hbears
  | ending hreceiver _ => exact .ending hreceiver nofun
  | ended hreceiver _ => exact .ended hreceiver nofun

/-- After `Session.dispatch` the receiver reads on, or is about to ring. -/
theorem receiver_dispatch (s : Session) (payload : String) :
    (s.dispatch payload).receiver = s.receiver ∨ ∃ t, (s.dispatch payload).receiver = .ringing t := by
  rw [dispatch]
  split
  · next packet _ =>
    cases packet with
    | response r =>
      rw [route]
      split
      · exact .inr ⟨_, rfl⟩
      · exact .inl rfl
    | notify n | output o => exact .inl rfl
  · exact .inl rfl

/-- Once a payload is dealt with (`Session.dispatch`), the next one is read. -/
theorem intake_dispatch {inbound : Inbound} (payload : String)
    (hbears : inbound.Bears coming (left.flatMap Frame.encode)) :
    ({ s with receiver := .reading (.start now), inbound }.dispatch payload).Intake coming left := by
  obtain ⟨-, -, -, hinbound, -⟩ :=
    dispatch_leaves { s with receiver := .reading (.start now), inbound } payload
  obtain hreceiver | ⟨t, hreceiver⟩ :=
    receiver_dispatch { s with receiver := .reading (.start now), inbound } payload
  · exact .of_start hreceiver (hinbound ▸ hbears)
  · exact .ringing hreceiver (hinbound ▸ hbears)

/-- `Session.endStep` keeps the account of a receiver that leaves payloads only where it was asked to
stop. -/
theorem intake_endStep {stage : EndStage} (hleft : s.stop = false → left = []) :
    (s.endStep stage none).Intake coming left := by
  cases stage with
  | takeListeners =>
    rw [endStep]
    split
    · exact .ending rfl hleft
    · exact .ended rfl hleft
  | call calls =>
    cases calls with
    | nil => exact .ended rfl hleft
    | cons => exact .ending rfl hleft
  | begin | closeSlots | ring | closeNotifies | closeOutputs => exact .ending rfl hleft

/-- Without a timeout only the size of packets is limited. -/
theorem limits_eq (h : s.config.readTimeout = none) :
    s.limits = ⟨s.config.maxPacketSize.toNat, none⟩ := by
  rw [limits, h]
  rfl

/-- What a receiver that reads takes is what `PacketRead.poll` gives. -/
theorem taking?_of_poll {r : PacketRead} (hreceiver : s.receiver = .reading r)
    (hstop : s.stop = false) : s.taking? now =
      match r.poll s.limits now s.inbound with
      | (.finished (.ok (some payload)), _) => some payload
      | _ => none := by
  rw [taking?, hreceiver]
  simp only [hstop]
  rfl

/-- With an action of the receiver, it takes the first payload that is left or none, as `taking?`
says. -/
theorem Intake.receives (h : s.Intake coming left) (hadmits : s.config.Admits left)
    (hstep : s.receiverStep now = some s') :
    ∃ left', left = (s.taking? now).toList ++ left' ∧ s'.Intake coming left' := by
  cases h with
  | ringing hreceiver hbears =>
    cases Session.receives hstep with
    | rang =>
      exact ⟨left, by rw [taking?, hreceiver]; rfl, .of_start rfl hbears⟩
    | wound h | stopped h | waited h | took h | closed h | failed h => cases hreceiver.symm.trans h
  | ending hreceiver hleft =>
    cases Session.receives hstep with
    | wound h =>
      cases hreceiver.symm.trans h
      exact ⟨left, by rw [taking?, hreceiver]; rfl, intake_endStep hleft⟩
    | rang h | stopped h | waited h | took h | closed h | failed h => cases hreceiver.symm.trans h
  | ended hreceiver =>
    rw [receiverStep, hreceiver] at hstep
    cases hstep
  | @reading r bytes hreceiver hr hbears houtcome =>
    have hpolled := PacketRead.polled s.config.maxPacketSize.toNat now hr hbears
    rw [← limits_eq hadmits.readTimeout_eq] at hpolled
    cases Session.receives hstep with
    | wound h | rang h => cases hreceiver.symm.trans h
    | stopped _ hstop =>
      refine ⟨left, ?_, .ending rfl ?_⟩
      · simp [taking?, hreceiver, hstop]
      · intro hstop'
        cases hstop.symm.trans hstop'
    | waited h hstop hpoll =>
      cases hreceiver.symm.trans h
      refine ⟨left, by rw [taking?_of_poll hreceiver hstop, hpoll]; rfl, ?_⟩
      rw [hpoll] at hpolled
      cases hpolled with
      | ongoing _ hr' hbears' houtcome' =>
        exact .reading rfl hr' hbears' (houtcome'.trans houtcome)
    | @took _ payload inbound h hstop hpoll =>
      cases hreceiver.symm.trans h
      rw [hpoll] at hpolled
      obtain ⟨hresult, hrest⟩ := hpolled.outcome_eq
      rw [taking?_of_poll hreceiver hstop, hpoll]
      cases left with
      | nil =>
        rw [houtcome, List.flatMap_nil, PacketRead.outcome_start_nil] at hresult
        cases hresult
      | cons first left =>
        have hfirst := hadmits.length_le first List.mem_cons_self
        rw [houtcome, PacketRead.outcome_start_cons hadmits.size_lt hfirst] at hresult hrest
        cases hresult
        exact ⟨left, rfl, intake_dispatch payload hrest⟩
    | @closed _ inbound h hstop hpoll =>
      cases hreceiver.symm.trans h
      rw [hpoll] at hpolled
      obtain ⟨hresult, -⟩ := hpolled.outcome_eq
      rw [taking?_of_poll hreceiver hstop, hpoll]
      refine ⟨left, rfl, .ending rfl fun _ => ?_⟩
      cases left with
      | nil => rfl
      | cons first left =>
        have hfirst := hadmits.length_le first List.mem_cons_self
        rw [houtcome, PacketRead.outcome_start_cons hadmits.size_lt hfirst] at hresult
        cases hresult
    | @failed _ e inbound h hstop hpoll =>
      cases hreceiver.symm.trans h
      rw [hpoll] at hpolled
      obtain ⟨hresult, -⟩ := hpolled.outcome_eq
      cases left with
      | nil =>
        rw [houtcome, List.flatMap_nil, PacketRead.outcome_start_nil] at hresult
        cases hresult
      | cons first left =>
        have hfirst := hadmits.length_le first List.mem_cons_self
        rw [houtcome, PacketRead.outcome_start_cons hadmits.size_lt hfirst] at hresult
        cases hresult

/-- Listeners are told of no error. -/
theorem Intake.told (h : s.Intake coming left)
    (hstep : s.receiverStep now = some s') :
    ∀ call ∈ s'.told, call ∈ s.told ∨ call.error = none := by
  intro call hcall
  cases Session.receives hstep with
  | @wound stage failure hreceiver =>
    have hfailure : failure = none := by
      cases h with
      | ending h => cases hreceiver.symm.trans h; rfl
      | reading h | ringing h | ended h => cases hreceiver.symm.trans h
    subst hfailure
    cases stage with
    | takeListeners =>
      rw [endStep] at hcall
      split at hcall
      · exact .inl hcall
      · exact .inl hcall
    | call names =>
      cases names with
      | nil => exact .inl hcall
      | cons name names =>
        rw [endStep, Session.told, note, List.filterMap_append, List.mem_append] at hcall
        obtain hcall | hcall := hcall
        · exact .inl hcall
        · rw [List.mem_singleton.mp hcall]
          exact .inr rfl
    | begin | closeSlots | ring | closeNotifies | closeOutputs => exact .inl hcall
  | @took r payload inbound hreceiver =>
    obtain ⟨-, -, -, -, -, -, htold⟩ :=
      dispatch_leaves { s with receiver := .reading (.start now), inbound } payload
    rw [htold] at hcall
    exact .inl hcall
  | rang | stopped | waited | closed | failed => exact .inl hcall

/-! ## Coming to the end -/

/-- How many actions are left for the receiver at most, once nothing more is to come. -/
def toDo (left : List String) (s : Session) : Nat :=
  match s.receiver with
  | .reading _ => 2 * left.length + s.lifecycle.listeners.length + 9
  | .ringing _ => 2 * left.length + s.lifecycle.listeners.length + 10
  | .ending (.call names) _ => names.length + 2
  | .ending stage _ => s.lifecycle.listeners.length + (9 - stage.rank)
  | .ended => 0

/-- Once all has arrived, the receiver never waits: it can act until it has ended. -/
theorem Intake.exists_receiverStep (h : s.Intake [] left) (hadmits : s.config.Admits left)
    (hended : s.receiver ≠ .ended) (now : Nat) : ∃ s', s.receiverStep now = some s' := by
  cases h with
  | ringing hreceiver | ending hreceiver => exact ⟨_, by rw [receiverStep, hreceiver]⟩
  | ended hreceiver => exact absurd hreceiver hended
  | reading hreceiver hr hbears =>
    have hpolled := PacketRead.polled s.config.maxPacketSize.toNat now hr hbears
    rw [← limits_eq hadmits.readTimeout_eq] at hpolled
    rw [receiverStep, hreceiver]
    simp only
    generalize PacketRead.poll s.limits now _ s.inbound = polled at hpolled
    split
    · exact ⟨_, rfl⟩
    · cases hpolled with
      | ongoing hlive => exact absurd rfl (hbears.coming_ne_nil hlive)
      | finished _ _ =>
        generalize (PacketRead.outcome _ _ _).1 = result
        obtain e | payload := result
        · exact ⟨_, rfl⟩
        · cases payload <;> exact ⟨_, rfl⟩

/-- Each action of `Session.endStep` leaves less to do. -/
theorem toDo_endStep {stage : EndStage} {failure : Option Error}
    (hreceiver : s.receiver = .ending stage failure) (left : List String) :
    (s.endStep stage failure).toDo left < s.toDo left := by
  have hbegin : s.lifecycle.begin.listeners = s.lifecycle.listeners := by
    rw [Lifecycle.begin]
    split <;> rfl
  rw [toDo.eq_def left s, hreceiver]
  cases stage with
  | begin =>
    show s.lifecycle.begin.listeners.length + 7 < s.lifecycle.listeners.length + 8
    rw [hbegin]
    omega
  | takeListeners =>
    rw [endStep, Lifecycle.take]
    split
    · next htake =>
      split at htake
      · cases htake
      · cases htake
        show s.lifecycle.listeners.length + 2 < s.lifecycle.listeners.length + 3
        omega
    · show 0 < s.lifecycle.listeners.length + 3
      omega
  | call names =>
    cases names with
    | nil =>
      show 0 < 2
      omega
    | cons name names =>
      show names.length + 2 < (name :: names).length + 2
      rw [List.length_cons]
      omega
  | closeSlots =>
    show s.lifecycle.listeners.length + 6 < s.lifecycle.listeners.length + 7
    omega
  | ring =>
    show s.lifecycle.listeners.length + 5 < s.lifecycle.listeners.length + 6
    omega
  | closeNotifies =>
    show s.lifecycle.listeners.length + 4 < s.lifecycle.listeners.length + 5
    omega
  | closeOutputs =>
    show s.lifecycle.listeners.length + 3 < s.lifecycle.listeners.length + 4
    omega

/-- With each action there is less left to do, by `toDo`. -/
theorem Intake.toDo_lt {left' : List String} (h : s.Intake [] left) (hadmits : s.config.Admits left)
    (hstep : s.receiverStep now = some s') (hleft : left = (s.taking? now).toList ++ left') :
    s'.toDo left' < s.toDo left := by
  have hnone : s.taking? now = none → left' = left := by
    intro htaking
    rw [hleft, htaking]
    rfl
  have hreading : ∀ {r}, s.receiver = .reading r →
      s.toDo left = 2 * left.length + s.lifecycle.listeners.length + 9 := by
    intro r hreceiver
    rw [toDo, hreceiver]
  cases Session.receives hstep with
  | wound hreceiver =>
    rw [hnone (by rw [taking?, hreceiver])]
    exact toDo_endStep hreceiver left
  | rang hreceiver =>
    rw [hnone (by rw [taking?, hreceiver]), toDo.eq_def left s, hreceiver]
    exact Nat.lt_succ_self _
  | stopped hreceiver =>
    rw [hreading hreceiver]
    show s.lifecycle.listeners.length + 8 < _
    omega
  | waited hreceiver hstop hpoll =>
    cases h with
    | reading hreceiver' hr hbears =>
      cases hreceiver'.symm.trans hreceiver
      have hpolled := PacketRead.polled s.config.maxPacketSize.toNat now hr hbears
      rw [← limits_eq hadmits.readTimeout_eq, hpoll] at hpolled
      cases hpolled with
      | ongoing hlive => exact absurd rfl (hbears.coming_ne_nil hlive)
    | ringing h | ending h | ended h => cases hreceiver.symm.trans h
  | @took r payload inbound hreceiver hstop hpoll =>
    rw [taking?_of_poll hreceiver hstop, hpoll] at hleft
    have hlength : left.length = left'.length + 1 := by
      rw [hleft]
      exact List.length_cons
    have hlifecycle :=
      (dispatch_keeps { s with receiver := .reading (.start now), inbound } payload).2
    rw [hreading hreceiver, toDo, hlifecycle]
    obtain heq | ⟨t, heq⟩ :=
      receiver_dispatch { s with receiver := .reading (.start now), inbound } payload
    · rw [heq]
      show 2 * left'.length + s.lifecycle.listeners.length + 9 < _
      omega
    · rw [heq]
      show 2 * left'.length + s.lifecycle.listeners.length + 10 < _
      omega
  | closed hreceiver | failed hreceiver =>
    rw [hreading hreceiver]
    show s.lifecycle.listeners.length + 8 < _
    omega

end Session

end Dbgp
