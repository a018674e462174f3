import Dbgp.Proofs.Forwarding
import Dbgp.Proofs.Race
import Dbgp.Proofs.Unwinding

/-!
# What listeners are told of the reason for an end

A listener that is registered when the listeners of a session are taken is told what ended it; one that
comes later is called at once and told of no error, whatever the reason was. `Lifecycle.callsOf_complete`
says so for any sequence of requests. The listener of a bridge is no exception: what the notice of an end
says is the failure of the receiver if the session was registered before its listeners were taken, and
nothing otherwise. `Bridge.reason_told_in_time` puts both together.

For the bridge the argument is on one session and one name. `Session.Informed` is how a listener in time
comes to its call, `Session.Bypassed` is that nobody with the name is waiting for one, and
`Session.Unaware` is what all moves but those of the receiver and the registration leave alone.
-/

namespace Dbgp

/-! ## Sequences of requests -/

namespace Lifecycle

/-- One `Race.Request` with nothing in between: whoever is called, and the lifecycle after it. -/
def serve (l : Lifecycle) : Race.Request → List ListenerCall × Lifecycle
  | .begin => ([], l.begin)
  | .complete error => l.complete error
  | .add name => l.addListener name
  | .remove name => ([], l.removeListener name)

/-- The calls of listeners that a sequence of requests leads to by `Lifecycle.serve`, in order. -/
def callsOf (l : Lifecycle) : List Race.Request → List ListenerCall
  | [] => []
  | r :: rs => (l.serve r).1 ++ callsOf (l.serve r).2 rs

/-- Those who listen after a request, as long as there has been no `complete`. -/
def enlist (names : List String) : Race.Request → List String
  | .add name => names ++ [name]
  | .remove name => names.filter (· ≠ name)
  | .begin | .complete _ => names

/-- Those who ask to be called, by `add`. -/
def comers (rs : List Race.Request) : List String :=
  rs.filterMap fun
    | .add name => some name
    | _ => none

variable {l : Lifecycle} {error : Option Error}

/-- Before the first `complete` nobody is called; it calls those who are enlisted by then. -/
theorem callsOf_append_complete {before : List Race.Request}
    (hfirst : ∀ e, .complete e ∉ before) (hfired : l.fired = false) (after : List Race.Request) :
    ∃ l' : Lifecycle, l'.fired = true ∧ l.callsOf (before ++ .complete error :: after) =
      (before.foldl enlist l.listeners).map (⟨·, error⟩) ++ l'.callsOf after := by
  induction before generalizing l with
  | nil =>
    have hbegin := Race.fired_begin l
    refine ⟨(l.complete error).2, ?_, ?_⟩
    · simp [complete, take, hbegin.1, hfired, settle]
    · simp [callsOf, serve, complete, take, hbegin, hfired]
  | cons r before ih =>
    have hrest : ∀ e, .complete e ∉ before := fun e he => hfirst e (List.mem_cons_of_mem _ he)
    cases r with
    | begin =>
      obtain ⟨hfired', hlisteners⟩ := Race.fired_begin l
      have hnext := ih hrest (hfired'.trans hfired)
      rw [hlisteners] at hnext
      exact hnext
    | complete e => exact absurd List.mem_cons_self (hfirst e)
    | add name =>
      have hadd : l.addListener name = ([], { l with listeners := l.listeners ++ [name] }) := by
        rw [addListener, hfired]
        rfl
      simpa [callsOf, serve, hadd, enlist] using
        ih (l := { l with listeners := l.listeners ++ [name] }) hrest hfired
    | remove name => exact ih (l := l.removeListener name) hrest hfired

/-- Once a lifecycle is `fired`, everybody who comes is called at once, with no error. -/
theorem callsOf_of_fired (hfired : l.fired = true) (rs : List Race.Request) :
    l.callsOf rs = (comers rs).map (⟨·, none⟩) := by
  induction rs generalizing l with
  | nil => rfl
  | cons r rs ih =>
    have hbegin := (Race.fired_begin l).1.trans hfired
    cases r with
    | begin => exact ih hbegin
    | complete e =>
      have hcomplete : l.complete e = ([], l.begin) := by
        simp [complete, take, hbegin]
      simpa [callsOf, serve, hcomplete, comers] using ih hbegin
    | add name =>
      have hadd : l.addListener name = ([⟨name, none⟩], l) := by
        rw [addListener, hfired]
        rfl
      simpa [callsOf, serve, hadd, comers] using ih hfired
    | remove name => exact ih (l := l.removeListener name) hfired

/-- Whoever is registered at the first `complete` is told its error, and whoever comes later is told
of none. -/
theorem callsOf_complete {before : List Race.Request} (hfirst : ∀ e, .complete e ∉ before)
    (after : List Race.Request) :
    callsOf {} (before ++ .complete error :: after) =
      (before.foldl enlist []).map (⟨·, error⟩) ++ (comers after).map (⟨·, none⟩) := by
  obtain ⟨l', hfired, hcalls⟩ := callsOf_append_complete (l := {}) hfirst rfl after
  rw [hcalls, callsOf_of_fired hfired]

/-- Everybody is told the error of the first `complete` exactly if that is none, or if nobody comes
after it. -/
theorem forall_callsOf_iff {before after : List Race.Request} (hfirst : ∀ e, .complete e ∉ before) :
    (∀ call ∈ callsOf {} (before ++ .complete error :: after), call.error = error) ↔
      error = none ∨ comers after = [] := by
  rw [callsOf_complete hfirst]
  simp only [List.mem_append, List.mem_map]
  constructor
  · intro hall
    cases hcomers : comers after with
    | nil => exact .inr rfl
    | cons name names =>
      exact .inl (hall ⟨name, none⟩ (.inr ⟨name, by rw [hcomers]; exact List.mem_cons_self, rfl⟩)).symm
  · rintro hcase call (⟨name, -, rfl⟩ | ⟨name, hname, rfl⟩)
    · rfl
    · rcases hcase with rfl | hnone
      · rfl
      · rw [hnone] at hname
        cases hname

end Lifecycle

/-! ## One name on one session -/

namespace Session

variable {s s' : Session} {l : String} {now : Nat} {F : Option Error → Prop}

/-- What those with a name were told, in order, by the `journal`. -/
def callsTo (l : String) (s : Session) : List (Option Error) :=
  (s.told.filter fun call => call.listener = l).map (·.error)

/-- What those with a name were told is decided by what all were `told`. -/
theorem callsTo_of_told (h : s'.told = s.told) : s'.callsTo l = s.callsTo l := by
  rw [callsTo, h, callsTo]

/-- One more call in the `journal` counts if it is for the name. -/
theorem callsTo_note (s : Session) (call : ListenerCall) :
    (s.note [.ended call]).callsTo l =
      s.callsTo l ++ if call.listener = l then [call.error] else [] := by
  rw [callsTo, told, note, List.filterMap_append, List.filter_append, List.map_append]
  by_cases h : call.listener = l <;> simp [callsTo, told, h]

/-- `Session.endStep` calls the next listener with the failure. -/
theorem callsTo_call (s : Session) (name : String) (left : List String) (failure : Option Error) :
    (s.endStep (.call (name :: left)) failure).callsTo l =
      s.callsTo l ++ if name = l then [failure] else [] :=
  callsTo_note { s with receiver := .ending (.call left) failure } ⟨name, failure⟩

/-- `addListener` calls a listener that comes too late at once, with no error. -/
theorem addListener_of_fired (h : s.lifecycle.fired = true) (name : String) :
    s.addListener name = s.note [.ended ⟨name, none⟩] := by
  rw [addListener, Lifecycle.addListener, if_pos h]
  rfl

/-- `addListener` puts a listener in time on the list. -/
theorem addListener_of_not_fired (h : s.lifecycle.fired = false) (name : String) :
    s.addListener name = { s with lifecycle.listeners := s.lifecycle.listeners ++ [name] } := by
  rw [addListener, Lifecycle.addListener, if_neg (by rw [h]; decide)]
  simp [note]

/-- A change of a session that leaves the `listeners` with a name, and what they were told, alone. -/
structure Unaware (l : String) (s s' : Session) : Prop where
  receiver_eq : s'.receiver = s.receiver
  fired_eq : s'.lifecycle.fired = s.lifecycle.fired
  listed_iff : l ∈ s'.lifecycle.listeners ↔ l ∈ s.lifecycle.listeners
  callsTo_eq : s'.callsTo l = s.callsTo l
  unwound : s.Unwound → s'.Unwound

/-- Whoever leaves all `listeners` alone leaves those with a name alone. -/
theorem unaware_of_same (hkept : s.Kept s') (hlisteners : s'.lifecycle.listeners = s.lifecycle.listeners)
    (htold : s'.told = s.told) : s.Unaware l s' where
  receiver_eq := hkept.receiver_eq
  fired_eq := hkept.fired_eq
  listed_iff := by rw [hlisteners]
  callsTo_eq := callsTo_of_told htold
  unwound h := h.kept hkept

/-- `Unaware` holds where nothing happens. -/
theorem Unaware.refl (l : String) (s : Session) : s.Unaware l s :=
  unaware_of_same (Spared.refl s).toKept rfl rfl

/-- Listeners with another name may come by `addListener`, and be called. -/
theorem unaware_addListener {name : String} (hname : name ≠ l) (s : Session) :
    s.Unaware l (s.addListener name) := by
  have hkept := s.kept_addListener name
  refine ⟨hkept.receiver_eq, hkept.fired_eq, ?_, ?_, fun h => h.kept hkept⟩
  · cases hfired : s.lifecycle.fired with
    | true => rw [addListener_of_fired hfired, note]
    | false => simp [addListener_of_not_fired hfired, hname.symm]
  · cases hfired : s.lifecycle.fired with
    | true => simp [addListener_of_fired hfired, callsTo_note, hname]
    | false =>
      rw [addListener_of_not_fired hfired]
      rfl

/-- Listeners with another name may go by `removeListener`. -/
theorem unaware_removeListener {name : String} (hname : name ≠ l) (s : Session) :
    s.Unaware l (s.removeListener name) where
  receiver_eq := rfl
  fired_eq := rfl
  listed_iff := by simp [removeListener, Lifecycle.removeListener, hname.symm]
  callsTo_eq := rfl
  unwound h := h.kept (s.kept_removeListener name)

/-- Nobody with the name is waiting to be called: neither in `listeners`, nor with a receiver that
calls them. -/
structure Bypassed (l : String) (s : Session) : Prop where
  unlisted : l ∉ s.lifecycle.listeners
  undue : ∀ left failure, s.receiver = .ending (.call left) failure → l ∉ left

/-- A listener that was there when the listeners were taken, or still is: it waits, is due for its
call, or has been told what ended the session, of which `F` holds. -/
inductive Informed (F : Option Error → Prop) (l : String) (s : Session) : Prop
  | waiting : s.lifecycle.fired = false → l ∈ s.lifecycle.listeners → s.callsTo l = [] →
      Informed F l s
  | due {left : List String} {failure : Option Error} : s.receiver = .ending (.call left) failure →
      l ∈ left → s.callsTo l = [] → Informed F l s
  | told {left : List String} {failure : Option Error} : s.receiver = .ending (.call left) failure →
      (s.callsTo l).head? = some failure → Informed F l s
  | past {failure : Option Error} : s.receiver = .ended → F failure →
      (s.callsTo l).head? = some failure → Informed F l s

/-- Who is `Bypassed` is so still if nothing happens to those with the name. -/
theorem Bypassed.unaware (h : s.Bypassed l) (hunaware : s.Unaware l s') : s'.Bypassed l where
  unlisted := hunaware.listed_iff.not.mpr h.unlisted
  undue left failure hreceiver := h.undue left failure (hunaware.receiver_eq.symm.trans hreceiver)

/-- Who is `Informed` is so still if nothing happens to those with the name. -/
theorem Informed.unaware (h : s.Informed F l) (hunaware : s.Unaware l s') : s'.Informed F l := by
  obtain ⟨hreceiver, hfired, hlisted, hcalls, -⟩ := hunaware
  cases h with
  | waiting hfired' hlisted' hcalls' =>
    exact .waiting (hfired.trans hfired') (hlisted.mpr hlisted') (hcalls.trans hcalls')
  | due hreceiver' hmem hcalls' =>
    exact .due (hreceiver.trans hreceiver') hmem (hcalls.trans hcalls')
  | told hreceiver' hhead => exact .told (hreceiver.trans hreceiver') (hcalls ▸ hhead)
  | past hreceiver' hF hhead => exact .past (hreceiver.trans hreceiver') hF (hcalls ▸ hhead)

/-- `Informed` stays true if more may be so of what ended the session. -/
theorem Informed.mono {F' : Option Error → Prop} (hF : ∀ failure, F failure → F' failure)
    (h : s.Informed F l) : s.Informed F' l := by
  cases h with
  | waiting hfired hlisted hcalls => exact .waiting hfired hlisted hcalls
  | due hreceiver hmem hcalls => exact .due hreceiver hmem hcalls
  | told hreceiver hhead => exact .told hreceiver hhead
  | past hreceiver hfailure hhead => exact .past hreceiver (hF _ hfailure) hhead

/-- Up to the moment when the listeners are taken, `Session.receiverStep` neither lists nor calls
anyone. -/
theorem receiverStep_before_call (hstep : s.receiverStep now = some s')
    (hearly : ∀ failure, s.receiver ≠ .ending .takeListeners failure)
    (huncalled : ∀ left failure, s.receiver ≠ .ending (.call left) failure) :
    s'.lifecycle.fired = s.lifecycle.fired ∧ s'.lifecycle.listeners = s.lifecycle.listeners ∧
      s'.told = s.told ∧ (∀ left failure, s'.receiver ≠ .ending (.call left) failure) := by
  cases receives hstep with
  | @wound stage failure hreceiver =>
    cases stage with
    | begin =>
      have hbegin := s.spared_begin
      exact ⟨hbegin.fired_eq, hbegin.listeners_eq, rfl, by simp [endStep]⟩
    | closeSlots | ring | closeNotifies | closeOutputs => exact ⟨rfl, rfl, rfl, by simp [endStep]⟩
    | takeListeners => exact absurd hreceiver (hearly failure)
    | call left => exact absurd hreceiver (huncalled left failure)
  | rang | stopped | waited | closed | failed => exact ⟨rfl, rfl, rfl, by simp⟩
  | @took r payload inbound hreceiver =>
    have hlifecycle := (dispatch_keeps { s with receiver := .reading (.start now), inbound } payload).2
    obtain ⟨-, -, -, -, -, -, htold⟩ :=
      dispatch_leaves { s with receiver := .reading (.start now), inbound } payload
    have hrank := rank_dispatch { s with receiver := .reading (.start now), inbound } payload rfl
    refine ⟨by rw [hlifecycle], by rw [hlifecycle], htold, fun left failure hcall => ?_⟩
    rw [hcall] at hrank
    cases hrank

/-- `receiverStep` calls nobody who does not wait for it. -/
theorem Bypassed.receives (h : s.Bypassed l) (hstep : s.receiverStep now = some s') :
    s'.Bypassed l ∧ s'.callsTo l = s.callsTo l := by
  by_cases htake : ∃ failure, s.receiver = .ending .takeListeners failure
  · obtain ⟨failure, hreceiver⟩ := htake
    rw [receiverStep, hreceiver] at hstep
    cases hstep
    rw [endStep]
    cases hfired : s.lifecycle.fired with
    | true =>
      simp only [Lifecycle.take, hfired, if_true]
      exact ⟨⟨h.unlisted, by simp⟩, rfl⟩
    | false =>
      simp only [Lifecycle.take, hfired]
      refine ⟨⟨by simp, fun left failure' hcall => ?_⟩, rfl⟩
      cases hcall
      exact h.unlisted
  by_cases hcall : ∃ left failure, s.receiver = .ending (.call left) failure
  · obtain ⟨left, failure, hreceiver⟩ := hcall
    have hundue := h.undue left failure hreceiver
    rw [receiverStep, hreceiver] at hstep
    cases hstep
    cases left with
    | nil => exact ⟨⟨h.unlisted, by simp [endStep]⟩, rfl⟩
    | cons name left =>
      obtain ⟨hname, hleft⟩ := not_or.mp (List.mem_cons.not.mp hundue)
      refine ⟨⟨h.unlisted, fun left' failure' hcall => ?_⟩, ?_⟩
      · cases hcall
        exact hleft
      · rw [callsTo_call, if_neg (Ne.symm hname), List.append_nil]
  · obtain ⟨-, hlisteners, htold, huncalled⟩ := receiverStep_before_call hstep
      (fun failure h => htake ⟨failure, h⟩) (fun left failure h => hcall ⟨left, failure, h⟩)
    exact ⟨⟨hlisteners ▸ h.unlisted, fun left failure h => absurd h (huncalled left failure)⟩,
      callsTo_of_told htold⟩

/-- By `receiverStep` a listener in time is called once the listeners have been taken, and told what
the receiver has failed with. -/
theorem Informed.receives (h : s.Informed F l) (hunwound : s.Unwound)
    (hF : ∀ stage failure, s.receiver = .ending stage failure → F failure)
    (hstep : s.receiverStep now = some s') : s'.Informed F l := by
  cases h with
  | waiting hfired hlisted hcalls =>
    by_cases htake : ∃ failure, s.receiver = .ending .takeListeners failure
    · obtain ⟨failure, hreceiver⟩ := htake
      rw [receiverStep, hreceiver] at hstep
      cases hstep
      simp only [endStep, Lifecycle.take, hfired]
      exact .due rfl hlisted hcalls
    · obtain ⟨hfired', hlisteners, htold, -⟩ := receiverStep_before_call hstep
        (fun failure h => htake ⟨failure, h⟩) fun left failure h => by
          -- Once somebody is called the listeners have been taken.
          rw [Unwound, h] at hunwound
          cases hfired.symm.trans (hunwound.fired.mpr (Nat.le_refl 7))
      exact .waiting (hfired'.trans hfired) (hlisteners ▸ hlisted)
        ((callsTo_of_told htold).trans hcalls)
  | @due left failure hreceiver hmem hcalls =>
    rw [receiverStep, hreceiver] at hstep
    cases hstep
    cases left with
    | nil => cases hmem
    | cons name left =>
      by_cases hname : name = l
      · exact .told rfl (by rw [callsTo_call, if_pos hname, hcalls]; rfl)
      · exact .due rfl ((List.mem_cons.mp hmem).resolve_left (Ne.symm hname))
          (by rw [callsTo_call, if_neg hname, hcalls]; rfl)
  | @told left failure hreceiver hhead =>
    have hfailure := hF _ _ hreceiver
    rw [receiverStep, hreceiver] at hstep
    cases hstep
    cases left with
    | nil => exact .past rfl hfailure hhead
    | cons name left =>
      exact .told rfl (by rw [callsTo_call, List.head?_append, hhead]; rfl)
  | past hreceiver =>
    rw [receiverStep, hreceiver] at hstep
    cases hstep

/-- A receiver that is `ending` goes on with the same failure, and becomes `ended` in no other way. -/
theorem receiver_of_receiverStep (hstep : s.receiverStep now = some s') :
    s.receiver ≠ .ended ∧
      (∀ stage failure, s.receiver = .ending stage failure →
        (∃ stage', s'.receiver = .ending stage' failure) ∨ s'.receiver = .ended) ∧
      (s'.receiver = .ended → ∃ stage failure, s.receiver = .ending stage failure) := by
  cases receives hstep with
  | @wound stage failure hreceiver =>
    refine ⟨by simp [hreceiver], fun stage' failure' h => ?_, fun _ => ⟨stage, failure, hreceiver⟩⟩
    cases hreceiver.symm.trans h
    cases stage with
    | begin | closeSlots | ring | closeNotifies | closeOutputs => exact .inl ⟨_, rfl⟩
    | takeListeners =>
      rw [endStep]
      split
      · exact .inl ⟨_, rfl⟩
      · exact .inr rfl
    | call left =>
      cases left with
      | nil => exact .inr rfl
      | cons name left => exact .inl ⟨_, rfl⟩
  | rang hreceiver | stopped hreceiver | waited hreceiver | closed hreceiver | failed hreceiver =>
    refine ⟨by simp [hreceiver], fun stage failure h => ?_, by simp⟩
    cases hreceiver.symm.trans h
  | @took r payload inbound hreceiver =>
    refine ⟨by simp [hreceiver], fun stage failure h => ?_, fun hended => ?_⟩
    · cases hreceiver.symm.trans h
    · have hrank := rank_dispatch { s with receiver := .reading (.start now), inbound } payload rfl
      rw [hended] at hrank
      cases hrank

end Session

/-! ## The listener of a bridge -/

namespace Bridge

variable {b b' : Bridge} {n : Nat} {m : Move} {s s' : Session}

/-- The first call of the listener decides what the notice says (`endError`). -/
theorem endError_eq (s : Session) :
    endError s = (s.callsTo listenerName).head?.join.map Error.message := by
  have hjournal : ∀ events : List Event, endError { s with journal := events } =
      (Session.callsTo listenerName { s with journal := events }).head?.join.map Error.message := by
    intro events
    induction events with
    | nil => rfl
    | cons e events ih =>
      unfold endError Session.callsTo Session.told at ih ⊢
      cases e with
      | sent | received => simpa using ih
      | ended call =>
        by_cases h : call.listener = listenerName
        · simp [h]
        · simpa [h] using ih
  exact hjournal s.journal

/-- What a move does to the listener of the bridge on a session, which is `none` where there is
none. -/
inductive Heeded (n : Nat) (b b' : Bridge) : Option Session → Option Session → Prop
  | absent : Heeded n b b' none none
  | opened {connection now : Nat} {init : Option Init} {config : Config} {inbound : Inbound}
      {outlet : Outlet} : Heeded n b b' none (some (.new n connection now init config inbound outlet))
  | registered {s : Session} : b'.forwardersOf n = b.forwardersOf n ++ [⟨n, .pollNotify⟩] →
      Heeded n b b' (some s) (some (s.addListener listenerName))
  | received {now : Nat} {s s' : Session} : (b'.forwardersOf n).length = (b.forwardersOf n).length →
      s.receiverStep now = some s' → Heeded n b b' (some s) (some s')
  | unaware {s s' : Session} : (b'.forwardersOf n).length = (b.forwardersOf n).length →
      s.Unaware listenerName s' → Heeded n b b' (some s) (some s')

/-- A `Move` by which nobody else registers or removes the listener of the bridge. -/
def Move.Spares (n : Nat) (m : Move) : Prop :=
  m ≠ .client (.addListener n listenerName) ∧ m ≠ .client (.removeListener n listenerName)

/-- A session that nothing happens to is `Heeded`. -/
theorem heeded_refl (h : (b'.forwardersOf n).length = (b.forwardersOf n).length) (o : Option Session) :
    Heeded n b b' o o := by
  cases o with
  | none => exact .absent
  | some s => exact .unaware h (.refl _ s)

/-- A move that leaves sessions and forwarders alone is `Heeded`. -/
theorem heeded_of_same (hforwarders : b'.forwarders = b.forwarders)
    (hsessions : b'.client.sessions = b.client.sessions) :
    Heeded n b b' (b.client.session? n) (b'.client.session? n) := by
  have hsame : b'.client.session? n = b.client.session? n := by
    rw [Client.session?, hsessions, Client.session?]
  rw [hsame]
  exact heeded_refl (by rw [forwardersOf, hforwarders, forwardersOf]) _

/-- A move of the client that `Spares` the listener of the bridge. -/
theorem heeded_client {m : Client.Move} (hm : Move.Spares n (.client m))
    (hforwarders : (b'.forwardersOf n).length = (b.forwardersOf n).length) :
    Heeded n b b' (b.client.session? n) ((b.client.step m).session? n) := by
  cases hs : b.client.session? n with
  | none =>
    rcases Client.session?_step_of_none hs m with hnone | ⟨_, _, _, _, _, hnew⟩
    · rw [hnone]
      exact .absent
    · rw [hnew]
      exact .opened
  | some s =>
    have hid := Client.id_of_session? hs
    obtain ⟨s', hs', hchange⟩ := Client.change hs m
    rw [hs']
    cases hchange with
    | received _ _ hstep => exact .received hforwarders hstep
    | stalled => exact .unaware hforwarders (.refl _ s)
    | deserted | arrived =>
      exact .unaware hforwarders
        { Session.Unaware.refl listenerName s with unwound := fun h => h.incoming _ _ }
    | aside _ _ hkept haudience =>
      cases haudience with
      | same hlisteners htold =>
        exact .unaware hforwarders (Session.unaware_of_same hkept hlisteners htold)
      | joined hjoined heq =>
        rw [heq]
        refine .unaware hforwarders (Session.unaware_addListener ?_ s)
        rintro rfl
        exact hm.1 (by rw [hjoined, hid])
      | left hleft heq =>
        rw [heq]
        refine .unaware hforwarders (Session.unaware_removeListener ?_ s)
        rintro rfl
        exact hm.2 (by rw [hleft, hid])

/-- `Bridge.register` adds the listener to its session. -/
theorem heeded_register (j : Nat) {client : Client} (hsessions : client.sessions = b.client.sessions)
    (hforwarders : b'.forwarders = b.forwarders ++ [⟨j, .pollNotify⟩]) :
    Heeded n b b' (b.client.session? n)
      ((client.modifySession j (Session.addListener listenerName)).session? n) := by
  have hsame : client.session? n = b.client.session? n := by
    rw [Client.session?, hsessions, Client.session?]
  have hid : ∀ s : Session, (s.addListener listenerName).id = s.id := fun s =>
    (s.kept_addListener listenerName).id_eq
  rw [Client.session?_modifySession hid, hsame]
  split
  · next hj =>
    subst hj
    cases b.client.session? n with
    | none => exact .absent
    | some s =>
      refine .registered ?_
      rw [forwardersOf, hforwarders, List.filter_append, forwardersOf]
      simp
  · next hj =>
    refine heeded_refl ?_ _
    rw [forwardersOf, hforwarders, List.filter_append, forwardersOf]
    simp [Ne.symm hj]

/-- An action of a forwarder leaves the listener `listenerName` alone. -/
theorem Forwarder.Action.unaware {f : Forwarder} {g g' : ForwardGround} {step : ForwardStep}
    (h : f.Action g step g') : g.session.Unaware listenerName g'.session := by
  have hmailed : ∀ {s : Session} {notifies outputs}, notifies.closed = s.notifies.closed →
      outputs.closed = s.outputs.closed →
      s.Unaware listenerName { s with notifies, outputs } := by
    intro s notifies outputs hnotifies houtputs
    refine { Session.Unaware.refl listenerName s with unwound := fun h => ?_ }
    exact ⟨h.begun, h.slots, fun hrank => hnotifies.trans (h.notifies hrank),
      fun hrank => houtputs.trans (h.outputs hrank), h.fired, h.terminated⟩
  cases h with
  | notified | printed => exact hmailed rfl rfl
  | _ => exact .refl _ _

/-- Every move that `Spares` the listener of the bridge is `Heeded`. -/
theorem heeded (n : Nat) (b : Bridge) (hm : Move.Spares n m) :
    Heeded n b (b.step m) (b.client.session? n) ((b.step m).client.session? n) := by
  cases m with
  | client m => exact heeded_client hm rfl
  | register j => exact heeded_register j rfl rfl
  | call c =>
    rcases called b c with ⟨_, _, heq, -⟩ | ⟨_, _, _, _, -, -, heq⟩
    · rw [step, heq]
      exact heeded_of_same rfl rfl
    · rw [step, heq]
      exact heeded_of_same rfl rfl
  | greet =>
    rcases greeted b with heq | ⟨_, _, _, -, heq⟩ | ⟨_, j, _, -, heq⟩
    · rw [heq]
      exact heeded_of_same rfl rfl
    · rw [heq]
      exact heeded_of_same rfl rfl
    · rw [heq]
      exact heeded_register j rfl rfl
  | answer =>
    rcases answered b with heq | ⟨_, _, _, -, heq | ⟨_, -, -, heq⟩⟩
    · rw [heq]
      exact heeded_of_same rfl rfl
    · rw [heq]
      exact heeded_of_same rfl rfl
    · rw [heq]
      exact heeded_of_same rfl rfl
  | forward f =>
    rcases forwarded b f with heq | ⟨s, _, g, -, hs, haction, heq⟩
    · rw [heq]
      exact heeded_of_same rfl rfl
    · have hforwarders : ((b.step (.forward f)).forwardersOf n).length = (b.forwardersOf n).length := by
        rw [heq, forwardersOf_eq_map rfl]
        split
        · exact List.length_map ..
        · rfl
      rw [heq] at hforwarders ⊢
      have hid : g.session.id = f.session := haction.id_eq.trans (Client.id_of_session? hs)
      show Heeded n b _ _ ((b.client.putSession g.session).session? n)
      rw [Client.session?_putSession hs g.session hid]
      split
      · next hn =>
        subst hn
        rw [hs]
        exact .unaware hforwarders haction.unaware
      · exact heeded_refl hforwarders _

/-! ## Notices of an end -/

/-- A notice `Rpc.terminated` tells its error: two that are equal tell the same. -/
theorem error_of_terminated {n n' : Nat} {error error' : Option String}
    (h : Rpc.terminated n error = Rpc.terminated n' error') : error = error' := by
  have hparam : Json.optionStr error = Json.optionStr error' := by
    simpa [Rpc.terminated, Json.get?_object, Json.lookup] using
      congrArg (fun x => x.params.bind (Json.get? "error")) h
  cases error <;> cases error' <;> simp_all [Json.optionStr, Json.option]

/-- A notice with another method is no `Rpc.terminated`. -/
theorem terminated_ne {error : Option String} {x : Rpc.Notice}
    (h : x.method ≠ "session/terminated") : Rpc.terminated n error ≠ x := by
  rintro rfl
  exact h rfl

/-- Only a forwarder at `announce` gives notice of the end, and it tells the `endError`. -/
theorem Forwarder.Action.notice {f : Forwarder} {g g' : ForwardGround} {step : ForwardStep}
    (h : f.Action g step g') {error : Option String}
    (herror : .notice (Rpc.terminated n error) ∈ g'.outbox) :
    .notice (Rpc.terminated n error) ∈ g.outbox ∨ f.step = .announce ∧ error = endError g.session := by
  have hsaid : ∀ {g₀ : ForwardGround} {x : Rpc.Notice}, g₀.outbox = g.outbox →
      .notice (Rpc.terminated n error) ∈ (g₀.say x).outbox →
      .notice (Rpc.terminated n error) ∈ g.outbox ∨ Rpc.terminated n error = x := by
    intro g₀ x houtbox hmem
    rw [ForwardGround.say, houtbox, List.mem_append] at hmem
    exact hmem.imp_right fun hmem => by cases List.mem_singleton.mp hmem; rfl
  cases h with
  | notified => exact .inl ((hsaid rfl herror).resolve_right (terminated_ne (by simp [Rpc.notified])))
  | printed => exact .inl ((hsaid rfl herror).resolve_right (terminated_ne (by simp [Rpc.printed])))
  | announced hstep =>
    exact (hsaid rfl herror).imp_right fun h => ⟨hstep, error_of_terminated h⟩
  | passed | slept | closed | woken | drainedNotifies | drainedOutputs | forgot => exact .inl herror

/-- A forwarder comes past `awaitEnd` only once the session is `terminated`. -/
theorem Forwarder.Action.awaited {f : Forwarder} {g g' : ForwardGround} {step : ForwardStep}
    (h : f.Action g step g') (hpast : 4 ≤ step.rank) :
    4 ≤ f.step.rank ∨ g.session.lifecycle.stage = .terminated := by
  cases h with
  | notified hstep => exact .inl hpast
  | printed hstep =>
    rcases hstep with ⟨-, rfl⟩ | ⟨-, rfl⟩
    · exact absurd hpast (by decide)
    · exact absurd hpast (by decide)
  | forgot _ hstage => exact .inr hstage
  | announced hstep => exact .inl (by rw [hstep]; decide)
  | passed | slept | closed | woken | drainedNotifies | drainedOutputs => exact absurd hpast (by decide)

/-- Every `Rpc.terminated` about a session tells the `endError` of it, and that does not change any
more. -/
structure Reporting (n : Nat) (b : Bridge) : Prop where
  unwound : ∀ s, b.client.session? n = some s → s.Unwound
  awaited : ∀ f ∈ b.forwardersOf n, 4 ≤ f.step.rank →
    ∃ s, b.client.session? n = some s ∧ s.receiver = .ended
  said : ∀ error, .notice (Rpc.terminated n error) ∈ b.outbox →
    ∃ s, b.client.session? n = some s ∧ s.receiver = .ended ∧ error = endError s

/-- A session stays `Session.Unwound`. -/
theorem Heeded.unwound {o : Option Session} (h : Heeded n b b' o (some s'))
    (hunwound : ∀ s, o = some s → s.Unwound) : s'.Unwound := by
  cases h with
  | opened => exact Session.unwound_new ..
  | @registered s => exact (hunwound s rfl).kept (s.kept_addListener listenerName)
  | received _ hstep => exact (hunwound _ rfl).receives hstep
  | unaware _ hunaware => exact hunaware.unwound (hunwound _ rfl)

/-- Once the receiver has `ended`, the `endError` stays: whoever comes after the end is told nothing
that counts. -/
theorem Heeded.ended {o : Option Session} (h : Heeded n b b' (some s) o) (hunwound : s.Unwound)
    (hended : s.receiver = .ended) :
    ∃ s', o = some s' ∧ s'.receiver = .ended ∧ endError s' = endError s := by
  cases h with
  | registered =>
    obtain ⟨-, hfired, -⟩ := hunwound.of_ended hended
    refine ⟨_, rfl, ((s.kept_addListener listenerName).receiver_eq).trans hended, ?_⟩
    rw [endError_eq, endError_eq, Session.addListener_of_fired hfired, Session.callsTo_note, if_pos rfl]
    cases s.callsTo listenerName <;> rfl
  | received _ hstep => exact absurd hended (Session.receiver_of_receiverStep hstep).1
  | @unaware _ s' _ hunaware =>
    exact ⟨s', rfl, hunaware.receiver_eq.trans hended, by
      rw [endError_eq, endError_eq, hunaware.callsTo_eq]⟩

/-- A notice `Rpc.terminated` in the outbox is among what was `said` about the session. -/
theorem mem_outbox_iff {error : Option String} :
    .notice (Rpc.terminated n error) ∈ b.outbox ↔ .notice (Rpc.terminated n error) ∈ b.said n := by
  rw [said, List.mem_filter]
  simp

/-- One move keeps what `Reporting` says. -/
theorem Reporting.step (h : b.Reporting n) (hm : m.Spares n) : (b.step m).Reporting n := by
  have hheeded := heeded n b hm
  have hended : (∃ s, b.client.session? n = some s ∧ s.receiver = .ended) →
      ∃ s, (b.step m).client.session? n = some s ∧ s.receiver = .ended := by
    rintro ⟨s, hs, hended⟩
    rw [hs] at hheeded
    obtain ⟨s', hs', hended', -⟩ := hheeded.ended (h.unwound s hs) hended
    exact ⟨s', hs', hended'⟩
  have hsaid : ∀ error, .notice (Rpc.terminated n error) ∈ b.outbox →
      ∃ s, (b.step m).client.session? n = some s ∧ s.receiver = .ended ∧ error = endError s := by
    intro error herror
    obtain ⟨s, hs, hended, rfl⟩ := h.said error herror
    rw [hs] at hheeded
    obtain ⟨s', hs', hended', heq⟩ := hheeded.ended (h.unwound s hs) hended
    exact ⟨s', hs', hended', heq.symm⟩
  refine ⟨fun s hs => ?_, fun f hf hpast => ?_, fun error herror => ?_⟩
  · rw [hs] at hheeded
    exact hheeded.unwound h.unwound
  · cases attended n b m with
    | aside _ hforwarders => exact hended (h.awaited f (hforwarders ▸ hf) hpast)
    | registered _ hforwarders =>
      rw [hforwarders, List.mem_append] at hf
      rcases hf with hf | hf
      · exact hended (h.awaited f hf hpast)
      · rw [List.mem_singleton.mp hf] at hpast
        simp [ForwardStep.rank] at hpast
    | @forwarded f₀ s step g hf₀ hs haction _ _ _ hforwarders =>
      rw [hforwarders] at hf
      obtain ⟨_, -, rfl⟩ := List.mem_map.mp hf
      rcases haction.awaited hpast with hpast₀ | hstage
      · exact hended (h.awaited f₀ hf₀ hpast₀)
      · exact hended ⟨s, hs, (h.unwound s hs).of_terminated hstage⟩
  · cases attended n b m with
    | aside hsame => exact hsaid error (mem_outbox_iff.mpr (hsame ▸ mem_outbox_iff.mp herror))
    | registered hstarted =>
      have hmem := mem_outbox_iff.mp herror
      rw [hstarted, List.mem_append] at hmem
      rcases hmem with hmem | hmem
      · exact hsaid error (mem_outbox_iff.mpr hmem)
      · exact absurd (Rpc.Message.notice.inj (List.mem_singleton.mp hmem))
          (terminated_ne (by simp [Rpc.started]))
    | @forwarded f₀ s step g hf₀ hs haction hs' _ houtbox =>
      rw [houtbox] at herror
      rcases haction.notice herror with hearlier | ⟨hannounce, rfl⟩
      · exact hsaid error hearlier
      · obtain ⟨s₀, hs₀, hended₀⟩ := h.awaited f₀ hf₀ (by rw [hannounce]; decide)
        cases hs.symm.trans hs₀
        have hunaware := haction.unaware
        refine ⟨g.session, hs', hunaware.receiver_eq.trans hended₀, ?_⟩
        rw [endError_eq, endError_eq, hunaware.callsTo_eq]

/-! ## Runs -/

section Runs

variable {address : String} {ms : List Move} {failure : Option Error}

/-- The last move of a run is one `step`. -/
theorem run_concat (b : Bridge) (ms : List Move) (m : Move) : b.run (ms ++ [m]) = (b.run ms).step m := by
  rw [run_append]
  rfl

/-- The receiver of a session was `ending` with a failure, or with none, after some start of the
run. -/
def EndedBy (address : String) (n : Nat) (ms : List Move) (failure : Option Error) : Prop :=
  ∃ before after s stage, ms = before ++ after ∧
    (run { address } before).client.session? n = some s ∧ s.receiver = .ending stage failure

/-- `EndedBy` stays true after one more move. -/
theorem EndedBy.concat (h : EndedBy address n ms failure) (m : Move) :
    EndedBy address n (ms ++ [m]) failure := by
  obtain ⟨before, after, s, stage, rfl, hs, hreceiver⟩ := h
  exact ⟨before, after ++ [m], s, stage, List.append_assoc .., hs, hreceiver⟩

/-- A session that is ending now was `EndedBy` its failure. -/
theorem endedBy_of_session? {stage : EndStage} (hs : (run { address } ms).client.session? n = some s)
    (hreceiver : s.receiver = .ending stage failure) : EndedBy address n ms failure :=
  ⟨ms, [], s, stage, (List.append_nil ms).symm, hs, hreceiver⟩

/-- A session was `EndedBy` a failure before the last move, or is ending with it now. -/
theorem EndedBy.of_concat (h : EndedBy address n (ms ++ [m]) failure) :
    EndedBy address n ms failure ∨ ∃ s stage,
      (run { address } (ms ++ [m])).client.session? n = some s ∧ s.receiver = .ending stage failure := by
  obtain ⟨before, after, s, stage, happend, hs, hreceiver⟩ := h
  rcases List.eq_nil_or_concat after with rfl | ⟨after, m', rfl⟩
  · rw [List.append_nil] at happend
    exact .inr ⟨s, stage, happend ▸ hs, hreceiver⟩
  · rw [List.concat_eq_append, ← List.append_assoc] at happend
    exact .inl ⟨before, after, s, stage, (List.append_inj' happend rfl).1, hs, hreceiver⟩

/-- A session that is `ending`, or has `ended`, does not go back. -/
theorem Heeded.receiver {o : Option Session} (h : Heeded n b b' (some s) o) :
    ∃ s', o = some s' ∧ (s.receiver = .ended → s'.receiver = .ended) ∧
      (∀ stage failure, s.receiver = .ending stage failure →
        (∃ stage', s'.receiver = .ending stage' failure) ∨ s'.receiver = .ended) ∧
      (s'.receiver = .ended → s.receiver = .ended ∨ ∃ stage failure, s.receiver = .ending stage failure) := by
  have hsame : ∀ {s' : Session}, s'.receiver = s.receiver →
      (s.receiver = .ended → s'.receiver = .ended) ∧
      (∀ stage failure, s.receiver = .ending stage failure →
        (∃ stage', s'.receiver = .ending stage' failure) ∨ s'.receiver = .ended) ∧
      (s'.receiver = .ended →
        s.receiver = .ended ∨ ∃ stage failure, s.receiver = .ending stage failure) := by
    intro s' heq
    rw [heq]
    exact ⟨id, fun stage failure hreceiver => .inl ⟨stage, hreceiver⟩, .inl⟩
  cases h with
  | registered => exact ⟨_, rfl, hsame (s.kept_addListener listenerName).receiver_eq⟩
  | @received _ _ s' _ hstep =>
    obtain ⟨hlive, hgoesOn, hends⟩ := Session.receiver_of_receiverStep hstep
    exact ⟨s', rfl, fun hended => absurd hended hlive, hgoesOn, fun hended => .inr (hends hended)⟩
  | @unaware _ s' _ hunaware => exact ⟨s', rfl, hsame hunaware.receiver_eq⟩

/-- A session whose receiver has `ended` was `EndedBy` something. -/
theorem exists_endedBy (hms : ∀ m ∈ ms, m.Spares n)
    (hs : (run { address } ms).client.session? n = some s) (hended : s.receiver = .ended) :
    ∃ failure, EndedBy address n ms failure := by
  induction ms using List.reverseRecOn generalizing s with
  | nil => cases hs
  | append_singleton ms m ih =>
    have hheeded := heeded n (run { address } ms) (hms m (by simp))
    rw [run_concat] at hs
    cases hbefore : (run { address } ms).client.session? n with
    | none =>
      rw [hbefore, hs] at hheeded
      cases hheeded
      cases hended
    | some s₀ =>
      rw [hbefore, hs] at hheeded
      obtain ⟨s', heq, -, -, hends⟩ := hheeded.receiver
      cases heq
      rcases hends hended with hended₀ | ⟨stage, failure, hending⟩
      · obtain ⟨failure, hfailure⟩ := ih (fun m hm => hms m (by simp [hm])) hbefore hended₀
        exact ⟨failure, hfailure.concat m⟩
      · exact ⟨failure, (endedBy_of_session? hbefore hending).concat m⟩

/-- What ended a session stays what it was: after `EndedBy` the receiver has that failure, or has
ended. -/
theorem EndedBy.receiver (h : EndedBy address n ms failure) (hms : ∀ m ∈ ms, m.Spares n) :
    ∃ s, (run { address } ms).client.session? n = some s ∧
      ((∃ stage, s.receiver = .ending stage failure) ∨ s.receiver = .ended) := by
  induction ms using List.reverseRecOn with
  | nil =>
    obtain ⟨before, after, s, stage, happend, hs, hreceiver⟩ := h
    obtain ⟨rfl, rfl⟩ := List.append_eq_nil_iff.mp happend.symm
    exact ⟨s, hs, .inl ⟨stage, hreceiver⟩⟩
  | append_singleton ms m ih =>
    rcases h.of_concat with hearlier | ⟨s, stage, hs, hreceiver⟩
    · obtain ⟨s, hs, hreceiver⟩ := ih hearlier fun m hm => hms m (by simp [hm])
      have hheeded := heeded n (run { address } ms) (hms m (by simp))
      rw [hs, ← run_concat] at hheeded
      obtain ⟨s', hs', hended, hending, -⟩ := hheeded.receiver
      refine ⟨s', hs', ?_⟩
      rcases hreceiver with ⟨stage, hreceiver⟩ | hreceiver
      · exact hending stage failure hreceiver
      · exact .inr (hended hreceiver)
    · exact ⟨s, hs, .inl ⟨stage, hreceiver⟩⟩

/-- A session is `EndedBy` one failure only, or by none. -/
theorem EndedBy.unique {failure' : Option Error} (h : EndedBy address n ms failure)
    (h' : EndedBy address n ms failure') (hms : ∀ m ∈ ms, m.Spares n) : failure = failure' := by
  induction ms using List.reverseRecOn with
  | nil =>
    obtain ⟨before, after, s, stage, happend, hs, hreceiver⟩ := h
    obtain ⟨rfl, rfl⟩ := List.append_eq_nil_iff.mp happend.symm
    cases hs
  | append_singleton ms m ih =>
    have hearlier : ∀ {s : Session} {stage : EndStage} {f f' : Option Error},
        (run { address } (ms ++ [m])).client.session? n = some s → s.receiver = .ending stage f →
        EndedBy address n (ms ++ [m]) f' → f = f' := by
      intro s stage f f' hs hreceiver hf'
      obtain ⟨s', hs', ⟨stage', hreceiver'⟩ | hended⟩ := hf'.receiver hms
      · cases hs.symm.trans hs'
        cases hreceiver.symm.trans hreceiver'
        rfl
      · cases hs.symm.trans hs'
        cases hreceiver.symm.trans hended
    rcases h.of_concat with hbefore | ⟨s, stage, hs, hreceiver⟩
    · rcases h'.of_concat with hbefore' | ⟨s, stage, hs, hreceiver⟩
      · exact ih hbefore hbefore' fun m hm => hms m (by simp [hm])
      · exact (hearlier hs hreceiver h).symm
    · exact hearlier hs hreceiver h'

/-- The bridge is `Reporting` after every run that spares its listener. -/
theorem reporting_run (hms : ∀ m ∈ ms, m.Spares n) : (run { address } ms).Reporting n := by
  induction ms using List.reverseRecOn with
  | nil =>
    refine ⟨fun s hs => ?_, fun f hf => ?_, fun error herror => ?_⟩
    · cases hs
    · cases hf
    · cases herror
  | append_singleton ms m ih =>
    rw [run_concat]
    exact (ih fun m hm => hms m (by simp [hm])).step (hms m (by simp))

/-- The listener of the bridge is `Bypassed` on a session that is not registered. -/
theorem bypassed_of_unregistered (hms : ∀ m ∈ ms, m.Spares n)
    (hnone : (run { address } ms).forwardersOf n = []) :
    ∀ s, (run { address } ms).client.session? n = some s →
      s.Bypassed listenerName ∧ s.callsTo listenerName = [] := by
  induction ms using List.reverseRecOn with
  | nil =>
    intro s hs
    cases hs
  | append_singleton ms m ih =>
    intro s' hs'
    have hle := length_forwardersOf_step n (run { address } ms) m
    have hheeded := heeded n (run { address } ms) (hms m (by simp))
    rw [run_concat] at hnone hs'
    rw [hnone, List.length_nil] at hle
    have ih := ih (fun m hm => hms m (by simp [hm])) (List.eq_nil_of_length_eq_zero (by omega))
    rw [hs'] at hheeded
    generalize (run { address } ms).client.session? n = o at hheeded ih
    cases hheeded with
    | opened => exact ⟨⟨by simp [Session.new], by simp [Session.new]⟩, rfl⟩
    | registered hgrown =>
      rw [hnone] at hgrown
      exact absurd hgrown.symm (by simp)
    | received _ hstep =>
      obtain ⟨hbypassed, hcalls⟩ := ih _ rfl
      obtain ⟨hbypassed', hcalls'⟩ := hbypassed.receives hstep
      exact ⟨hbypassed', hcalls'.trans hcalls⟩
    | unaware _ hunaware =>
      obtain ⟨hbypassed, hcalls⟩ := ih _ rfl
      exact ⟨hbypassed.unaware hunaware, hunaware.callsTo_eq.trans hcalls⟩

/-- A listener that was registered in time stays `Informed`, for as long as it is not registered
again. -/
theorem informed_append {later : List Move} (hms : ∀ m ∈ ms ++ later, m.Spares n)
    (honce : ((run { address } (ms ++ later)).forwardersOf n).length =
      ((run { address } ms).forwardersOf n).length)
    (h : ∃ s, (run { address } ms).client.session? n = some s ∧
      s.Informed (EndedBy address n ms) listenerName) :
    ∃ s, (run { address } (ms ++ later)).client.session? n = some s ∧
      s.Informed (EndedBy address n (ms ++ later)) listenerName := by
  induction later using List.reverseRecOn with
  | nil => simpa using h
  | append_singleton later m ih =>
    rw [← List.append_assoc] at hms honce ⊢
    have hgrows := length_forwardersOf_run n (run { address } ms) later
    have hle := length_forwardersOf_step n (run { address } (ms ++ later)) m
    rw [← run_append] at hgrows
    rw [run_concat] at honce
    obtain ⟨s, hs, hinformed⟩ := ih (fun m' hm' => hms m' (List.mem_append_left [m] hm')) (by omega)
    have hheeded := heeded n (run { address } (ms ++ later)) (hms m (by simp))
    have hreporting : (run { address } (ms ++ later)).Reporting n :=
      reporting_run fun m' hm' => hms m' (List.mem_append_left [m] hm')
    have hunwound := hreporting.unwound s hs
    have hinformed := hinformed.mono fun failure hfailure => hfailure.concat m
    rw [hs, ← run_concat] at hheeded
    generalize (run { address } (ms ++ later ++ [m])).client.session? n = o at hheeded
    cases hheeded with
    | registered hgrown =>
      rw [run_concat] at hgrown
      rw [hgrown, List.length_append, List.length_singleton] at honce
      omega
    | received _ hstep =>
      exact ⟨_, rfl, hinformed.receives hunwound
        (fun stage failure hreceiver => (endedBy_of_session? hs hreceiver).concat m) hstep⟩
    | unaware _ hunaware => exact ⟨_, rfl, hinformed.unaware hunaware⟩

/-- A listener that came too late, or before there was a session, stays `Bypassed`. -/
theorem bypassed_append {later : List Move} (hms : ∀ m ∈ ms ++ later, m.Spares n)
    (honce : ((run { address } (ms ++ later)).forwardersOf n).length =
      ((run { address } ms).forwardersOf n).length)
    (h : ∀ s, (run { address } ms).client.session? n = some s →
      s.Bypassed listenerName ∧ ∀ e ∈ s.callsTo listenerName, e = none) :
    ∀ s, (run { address } (ms ++ later)).client.session? n = some s →
      s.Bypassed listenerName ∧ ∀ e ∈ s.callsTo listenerName, e = none := by
  induction later using List.reverseRecOn with
  | nil => simpa using h
  | append_singleton later m ih =>
    rw [← List.append_assoc] at hms honce ⊢
    have hgrows := length_forwardersOf_run n (run { address } ms) later
    have hle := length_forwardersOf_step n (run { address } (ms ++ later)) m
    rw [← run_append] at hgrows
    rw [run_concat] at honce
    have ih := ih (fun m' hm' => hms m' (List.mem_append_left [m] hm')) (by omega)
    have hheeded := heeded n (run { address } (ms ++ later)) (hms m (by simp))
    intro s' hs'
    rw [← run_concat, hs'] at hheeded
    generalize (run { address } (ms ++ later)).client.session? n = o at hheeded ih
    cases hheeded with
    | opened => exact ⟨⟨by simp [Session.new], by simp [Session.new]⟩, fun e he => absurd he List.not_mem_nil⟩
    | registered hgrown =>
      rw [run_concat] at hgrown
      rw [hgrown, List.length_append, List.length_singleton] at honce
      omega
    | received _ hstep =>
      obtain ⟨hbypassed, hcalls⟩ := ih _ rfl
      obtain ⟨hbypassed', hcalls'⟩ := hbypassed.receives hstep
      exact ⟨hbypassed', hcalls' ▸ hcalls⟩
    | unaware _ hunaware =>
      obtain ⟨hbypassed, hcalls⟩ := ih _ rfl
      exact ⟨hbypassed.unaware hunaware, hunaware.callsTo_eq ▸ hcalls⟩

/-- The listener of the bridge is `Informed` when the session is registered before its listeners are
taken. -/
theorem informed_of_registered (hms : ∀ m' ∈ ms ++ [m], m'.Spares n)
    (hunregistered : (run { address } ms).forwardersOf n = [])
    (hregistered : (run { address } (ms ++ [m])).forwardersOf n ≠ [])
    (hs : (run { address } ms).client.session? n = some s) (hfired : s.lifecycle.fired = false)
    (F : Option Error → Prop) :
    ∃ s', (run { address } (ms ++ [m])).client.session? n = some s' ∧ s'.Informed F listenerName := by
  have hearlier := bypassed_of_unregistered (fun m' hm' => hms m' (List.mem_append_left [m] hm'))
    hunregistered
  obtain ⟨-, hcalls⟩ := hearlier s hs
  have hheeded := heeded n (run { address } ms) (hms m (by simp))
  rw [hs, ← run_concat] at hheeded
  generalize (run { address } (ms ++ [m])).client.session? n = o at hheeded
  cases hheeded with
  | registered =>
    refine ⟨_, rfl, ?_⟩
    rw [Session.addListener_of_not_fired hfired]
    exact .waiting hfired (List.mem_append_right _ (List.mem_singleton_self _)) hcalls
  | received hsame | unaware hsame =>
    rw [hunregistered, List.length_nil] at hsame
    exact absurd (List.eq_nil_of_length_eq_zero hsame) hregistered

/-- The listener of the bridge is `Bypassed` when the session is registered after its listeners have
been taken, or when there is no session. -/
theorem bypassed_of_registered (hms : ∀ m' ∈ ms ++ [m], m'.Spares n)
    (hunregistered : (run { address } ms).forwardersOf n = [])
    (hlate : ∀ s, (run { address } ms).client.session? n = some s → s.lifecycle.fired = true) :
    ∀ s', (run { address } (ms ++ [m])).client.session? n = some s' →
      s'.Bypassed listenerName ∧ ∀ e ∈ s'.callsTo listenerName, e = none := by
  intro s' hs'
  have hearlier := bypassed_of_unregistered (fun m' hm' => hms m' (List.mem_append_left [m] hm'))
    hunregistered
  have hheeded := heeded n (run { address } ms) (hms m (by simp))
  rw [← run_concat, hs'] at hheeded
  generalize (run { address } ms).client.session? n = o at hheeded hearlier hlate
  cases hheeded with
  | opened => exact ⟨⟨by simp [Session.new], by simp [Session.new]⟩, fun e he => absurd he List.not_mem_nil⟩
  | @registered s =>
    obtain ⟨hbypassed, hcalls⟩ := hearlier s rfl
    rw [Session.addListener_of_fired (hlate s rfl)]
    refine ⟨⟨hbypassed.unlisted, hbypassed.undue⟩, ?_⟩
    rw [Session.callsTo_note, hcalls]
    simp
  | received _ hstep =>
    obtain ⟨hbypassed, hcalls⟩ := hearlier _ rfl
    obtain ⟨hbypassed', hcalls'⟩ := hbypassed.receives hstep
    exact ⟨hbypassed', by simp [hcalls', hcalls]⟩
  | unaware _ hunaware =>
    obtain ⟨hbypassed, hcalls⟩ := hearlier _ rfl
    exact ⟨hbypassed.unaware hunaware, by simp [hunaware.callsTo_eq, hcalls]⟩

/-- Where a session is registered by one move, by none of the others, and nobody else touches the
listener of the bridge: it is `EndedBy` one failure only, or by none, when there is a notice
`Rpc.terminated`. The notice tells of that failure if the session was registered before its listeners
were taken, and of nothing otherwise. -/
theorem terminated_reason {reason : Option String}
    (hunregistered : (run { address } ms).forwardersOf n = [])
    (hregistered : (run { address } (ms ++ [m])).forwardersOf n ≠ [])
    (honce : ((run { address } (ms ++ [m] ++ later)).forwardersOf n).length = 1)
    (hspared : ∀ m' ∈ ms ++ [m] ++ later, m'.Spares n)
    (hreason : .notice (Rpc.terminated n reason) ∈ (run { address } (ms ++ [m] ++ later)).outbox) :
    ∃ failure, (∀ failure', EndedBy address n (ms ++ [m] ++ later) failure' ↔ failure' = failure) ∧
      ((∃ s, (run { address } ms).client.session? n = some s ∧ s.lifecycle.fired = false) →
        reason = failure.map Error.message) ∧
      ((∀ s, (run { address } ms).client.session? n = some s → s.lifecycle.fired = true) →
        reason = none) := by
  obtain ⟨s, hs, hended, rfl⟩ := (reporting_run hspared).said reason hreason
  obtain ⟨failure, hfailure⟩ := exists_endedBy hspared hs hended
  have honly : ∀ failure', EndedBy address n (ms ++ [m] ++ later) failure' ↔
      failure' = failure := fun failure' =>
    ⟨fun h => h.unique hfailure hspared, fun h => h ▸ hfailure⟩
  -- The session is registered by the one move, and by none of the later ones.
  have hgrown := length_forwardersOf_run n (run { address } (ms ++ [m])) later
  rw [← run_append] at hgrown
  have hpos := List.length_pos_iff.mpr hregistered
  have hmoves : ∀ m' ∈ ms ++ [m], m'.Spares n := fun m' hm' =>
    hspared m' (List.mem_append_left later hm')
  refine ⟨failure, honly, fun ⟨s₀, hs₀, hfired⟩ => ?_, fun hlate => ?_⟩
  · obtain ⟨s', hs', hinformed⟩ := informed_append hspared (by omega)
      (informed_of_registered hmoves hunregistered hregistered hs₀ hfired _)
    cases hs.symm.trans hs'
    cases hinformed with
    | past _ hfailure' hhead =>
      rw [endError_eq, hhead, (honly _).mp hfailure']
      rfl
    | waiting hfired' =>
      obtain ⟨-, hfired, -⟩ := ((reporting_run hspared).unwound s hs).of_ended hended
      cases hfired'.symm.trans hfired
    | due hreceiver | told hreceiver => cases hreceiver.symm.trans hended
  · obtain ⟨-, hcalls⟩ := bypassed_append hspared (by omega)
      (bypassed_of_registered hmoves hunregistered hlate) s hs
    rw [endError_eq]
    cases hhead : (s.callsTo listenerName).head? with
    | none => rfl
    | some e =>
      rw [hcalls e (List.mem_of_head? hhead)]
      rfl

end Runs

/-- In any sequence of requests with a completion, whoever is registered at the first completion is told
its error, in order, and whoever comes later is told of none, so that everybody is told that error exactly
if there is none or nobody comes later.

In any run of a bridge, where a session is registered once and nobody else touches the listener of the
bridge: the receiver has ended in one way only when there is notice of the end of the session, and the
notice tells of its failure if the session was registered before its listeners were taken, and of nothing
otherwise. -/
theorem reason_told_in_time (address : String) :
    (∀ (before after : List Race.Request) (error : Option Error), (∀ e, .complete e ∉ before) →
      Lifecycle.callsOf {} (before ++ .complete error :: after) =
          (before.foldl Lifecycle.enlist []).map (⟨·, error⟩) ++
            (Lifecycle.comers after).map (⟨·, none⟩) ∧
        ((∀ call ∈ Lifecycle.callsOf {} (before ++ .complete error :: after), call.error = error) ↔
          error = none ∨ Lifecycle.comers after = [])) ∧
    ∀ (n : Nat) (earlier later : List Move) (m : Move),
      (run { address } earlier).forwardersOf n = [] →
      (run { address } (earlier ++ [m])).forwardersOf n ≠ [] →
      ((run { address } (earlier ++ [m] ++ later)).forwardersOf n).length = 1 →
      (∀ m' ∈ earlier ++ [m] ++ later, m'.Spares n) →
      ∀ reason, .notice (Rpc.terminated n reason) ∈
          (run { address } (earlier ++ [m] ++ later)).outbox →
        ∃ failure, (∀ failure', EndedBy address n (earlier ++ [m] ++ later) failure' ↔
            failure' = failure) ∧
          ((∃ s, (run { address } earlier).client.session? n = some s ∧ s.lifecycle.fired = false) →
            reason = failure.map Error.message) ∧
          ((∀ s, (run { address } earlier).client.session? n = some s → s.lifecycle.fired = true) →
            reason = none) := by
  refine ⟨fun before after error hfirst => ?_, fun n earlier later m hunregistered hregistered honce
    hspared reason hreason => ?_⟩
  · exact ⟨Lifecycle.callsOf_complete hfirst after, Lifecycle.forall_callsOf_iff hfirst⟩
  · exact terminated_reason hunregistered hregistered honce hspared hreason

/-! A connection breaks, and the session is registered before that or after its end. -/

def broken : Error :=
  .transport (.described "reset")

def unwinding : List Move :=
  .client (.arrive 1 (.failure "reset")) :: receives 9

def farewell : List Move :=
  forwards [.pollNotify, .drainNotify, .drainOutput, .awaitEnd, .announce]

/-- Of two listeners one is gone and another comes late; and a session is registered before its
connection breaks. -/
theorem reason_told_in_time_prompt :
    Lifecycle.callsOf {} [.add "a", .add "b", .remove "a", .complete (some broken), .add "c"] =
        [⟨"b", some broken⟩, ⟨"c", none⟩] ∧
      ∃ failure, EndedBy "" 1 ([.client (.attach {})] ++ [.register 1] ++ (unwinding ++ farewell))
          failure ∧ failure.map Error.message = some "Transport error: reset" := by
  have hspared : ∀ m ∈ [.client (.attach {})] ++ [.register 1] ++ (unwinding ++ farewell),
      Move.Spares 1 m := by
    simp [unwinding, farewell, receives, forwards, Move.Spares]
  have hnotice : .notice (Rpc.terminated 1 (some "Transport error: reset")) ∈ (run { address := "" }
      ([.client (.attach {})] ++ [.register 1] ++ (unwinding ++ farewell))).outbox :=
    List.mem_of_getLast? rfl
  obtain ⟨hsequences, hruns⟩ := reason_told_in_time ""
  obtain ⟨hcalls, -⟩ := hsequences [.add "a", .add "b", .remove "a"] [.add "c"] (some broken) (by simp)
  obtain ⟨failure, honly, hprompt, -⟩ := hruns 1 [.client (.attach {})] (unwinding ++ farewell)
    (.register 1) rfl (by decide) rfl hspared _ hnotice
  exact ⟨hcalls, failure, (honly failure).mpr rfl, (hprompt ⟨_, rfl, rfl⟩).symm⟩

/-- A listener that comes after the end is not told what ended the session, and neither is the other
side of the bridge if it comes from there. -/
theorem reason_lost_after_end :
    Lifecycle.callsOf {} [.complete (some broken), .add "b"] = [⟨"b", none⟩] ∧
      EndedBy "" 1 (.client (.attach {}) :: unwinding ++ .register 1 :: farewell) (some broken) ∧
      .notice (Rpc.terminated 1 none) ∈ (run { address := "" }
        (.client (.attach {}) :: unwinding ++ .register 1 :: farewell)).outbox := by
  refine ⟨rfl, ?_, List.mem_of_getLast? rfl⟩
  exact ⟨.client (.attach {}) :: .client (.arrive 1 (.failure "reset")) :: receives 1, _, _, .begin,
    rfl, rfl, rfl⟩

end Bridge

end Dbgp
