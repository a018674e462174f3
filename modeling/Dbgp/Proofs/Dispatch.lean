import Dbgp.Proofs.ConnectionChange

/-!
# What comes of payloads

`takings` are the payloads that a session takes from its connection, each with the loggers that are
registered at that moment. All that a session makes of its payloads is said in terms of them, for every
run of a client and every session: what loggers are shown (`heard_run`), what is put into the two
mailboxes (`trace_gains_notifies`, `trace_gains_outputs`), and which responses are delivered
(`responses_history`). Nothing else puts anything into a mailbox, delivers a response or shows a payload
to a logger.
-/

namespace Dbgp

/-! ## Kinds of payloads -/

namespace Packet

/-- The `Response` that a payload is. -/
def response? (payload : String) : Option Response :=
  match parse payload with
  | .ok (.response r) => some r
  | _ => none

/-- The `Notify` that a payload is. -/
def notify? (payload : String) : Option Notify :=
  match parse payload with
  | .ok (.notify n) => some n
  | _ => none

/-- The `Output` that a payload is. -/
def output? (payload : String) : Option Output :=
  match parse payload with
  | .ok (.output o) => some o
  | _ => none

end Packet

/-! ## One payload -/

namespace Session

variable {s s' : Session} {now : Nat}

/-- `Session.logReceived` shows a payload to each logger. -/
theorem heard_logReceived (s : Session) (payload : String) :
    (s.logReceived payload).heard = s.heard ++ s.loggers.map fun logger => (logger, payload) := by
  rw [heard, logReceived, note, List.filterMap_append, List.filterMap_map, heard]
  congr 1
  exact congrFun List.filterMap_eq_map' s.loggers

/-- `Session.logReceived` calls no listener. -/
theorem told_logReceived (s : Session) (payload : String) :
    (s.logReceived payload).told = s.told := by
  rw [told, logReceived, note, List.filterMap_append, List.filterMap_map, told]
  refine List.append_right_eq_self.mpr ?_
  exact List.filterMap_eq_nil_iff.mpr fun l _ => rfl

/-- What `Session.dispatch` adds to what a session has, by the kind of the payload. -/
theorem dispatch_adds (s : Session) (payload : String) :
    (s.dispatch payload).heard = s.heard ++ (s.loggers.map fun logger => (logger, payload)) ∧
      (s.dispatch payload).notifies.items = s.notifies.items ++ (Packet.notify? payload).toList ∧
      (s.dispatch payload).outputs.items = s.outputs.items ++ (Packet.output? payload).toList := by
  rw [← heard_logReceived, dispatch]
  unfold Packet.notify? Packet.output?
  cases Packet.parse payload with
  | error e => exact ⟨rfl, (List.append_nil _).symm, (List.append_nil _).symm⟩
  | ok packet =>
    cases packet with
    | response r =>
      have hroute : ((s.logReceived payload).route (.response r)).heard =
          (s.logReceived payload).heard ∧
          ((s.logReceived payload).route (.response r)).notifies = s.notifies ∧
          ((s.logReceived payload).route (.response r)).outputs = s.outputs := by
        rw [route]
        split <;> exact ⟨rfl, rfl, rfl⟩
      simp only [hroute, Option.toList_none, List.append_nil, and_self]
    | notify n => exact ⟨rfl, rfl, (List.append_nil _).symm⟩
    | output o => exact ⟨rfl, (List.append_nil _).symm, rfl⟩

/-- A payload that is no packet is shown to the loggers by `Session.dispatch`, and that is all. -/
theorem dispatch_of_error {payload : String} {e : Error} (h : Packet.parse payload = .error e) :
    s.dispatch payload = s.logReceived payload := by
  rw [dispatch, h]

/-- What `Session.dispatch` leaves alone. -/
theorem dispatch_leaves (s : Session) (payload : String) :
    (s.dispatch payload).connection = s.connection ∧ (s.dispatch payload).init = s.init ∧
      (s.dispatch payload).config = s.config ∧ (s.dispatch payload).inbound = s.inbound ∧
      (s.dispatch payload).stop = s.stop ∧ (s.dispatch payload).owned = s.owned ∧
      (s.dispatch payload).told = s.told := by
  rw [← told_logReceived s payload, dispatch]
  split
  · next packet _ =>
    cases packet with
    | response r =>
      rw [route]
      split <;> exact ⟨rfl, rfl, rfl, rfl, rfl, rfl, rfl⟩
    | notify n | output o => exact ⟨rfl, rfl, rfl, rfl, rfl, rfl, rfl⟩
  · exact ⟨rfl, rfl, rfl, rfl, rfl, rfl, rfl⟩

/-! ## One action of the receiver -/

/-- A session that nothing happens to is `Quiet`. -/
theorem Quiet.refl (s : Session) : s.Quiet s :=
  (Spared.refl s).toQuiet

/-- `Session.endStep` shows loggers nothing. -/
theorem heard_endStep (s : Session) (stage : EndStage) (failure : Option Error) :
    (s.endStep stage failure).heard = s.heard := by
  cases stage with
  | takeListeners =>
    rw [endStep]
    split <;> rfl
  | call left =>
    cases left with
    | nil => rfl
    | cons listener left =>
      rw [endStep, heard, note, List.filterMap_append]
      exact List.append_nil _
  | begin | closeSlots | ring | closeNotifies | closeOutputs => rfl

/-- `Session.endStep` is `Quiet`. -/
theorem quiet_endStep (s : Session) (stage : EndStage) (failure : Option Error) :
    s.Quiet (s.endStep stage failure) := by
  have hheard := s.heard_endStep stage failure
  cases stage with
  | takeListeners =>
    rw [endStep] at hheard ⊢
    split at hheard
    · exact { Quiet.refl s with heard_eq := hheard }
    · exact { Quiet.refl s with heard_eq := hheard }
  | call left => cases left <;> exact { Quiet.refl s with heard_eq := hheard }
  | closeNotifies => exact { Quiet.refl s with notifies := .inl rfl }
  | closeOutputs => exact { Quiet.refl s with outputs := .inl rfl }
  | begin | closeSlots | ring => exact { Quiet.refl s with }

/-- What no action of the receiver changes. -/
theorem receiverStep_leaves (h : s.receiverStep now = some s') : s'.connection = s.connection ∧
    s'.init = s.init ∧ s'.config = s.config ∧ s'.stop = s.stop ∧ s'.owned = s.owned := by
  cases receives h with
  | @wound stage failure hreceiver =>
    cases stage with
    | takeListeners =>
      rw [endStep]
      split <;> exact ⟨rfl, rfl, rfl, rfl, rfl⟩
    | call left => cases left <;> exact ⟨rfl, rfl, rfl, rfl, rfl⟩
    | begin | closeSlots | ring | closeNotifies | closeOutputs => exact ⟨rfl, rfl, rfl, rfl, rfl⟩
  | @took r payload inbound hreceiver =>
    obtain ⟨hconnection, hinit, hconfig, -, hstop, howned, -⟩ :=
      dispatch_leaves { s with receiver := .reading (.start now), inbound } payload
    exact ⟨hconnection, hinit, hconfig, hstop, howned⟩
  | rang | stopped | waited | closed | failed => exact ⟨rfl, rfl, rfl, rfl, rfl⟩

/-- An action of the receiver that takes a payload deals with it at once (`Session.dispatch`). -/
theorem receiverStep_of_taking? {payload : String} (h : s.receiverStep now = some s')
    (htaking : s.taking? now = some payload) : ∃ inbound,
      s' = { s with receiver := .reading (.start now), inbound }.dispatch payload := by
  cases receives h with
  | wound hreceiver | rang hreceiver =>
    rw [taking?, hreceiver] at htaking
    cases htaking
  | stopped hreceiver hstop =>
    rw [taking?, hreceiver] at htaking
    simp [hstop] at htaking
  | @took r payload' inbound hreceiver hstop hpoll =>
    simp only [taking?, hreceiver, hstop, hpoll, Bool.false_eq_true, if_false,
      Option.some.injEq] at htaking
    exact ⟨inbound, by rw [htaking]⟩
  | waited hreceiver hstop hpoll | closed hreceiver hstop hpoll | failed hreceiver hstop hpoll =>
    simp [taking?, hreceiver, hstop, hpoll] at htaking

/-- An action of the receiver that takes no payload shows nobody anything: it is `Quiet`. -/
theorem quiet_of_taking?_eq_none (h : s.receiverStep now = some s') (htaking : s.taking? now = none) :
    s.Quiet s' := by
  cases receives h with
  | wound => exact s.quiet_endStep _ _
  | took hreceiver hstop hpoll => simp [taking?, hreceiver, hstop, hpoll] at htaking
  | rang | stopped | waited | closed | failed => exact { Quiet.refl s with }

/-- A receiver that cannot act takes nothing. -/
theorem taking?_eq_none (h : s.receiverStep now = none) : s.taking? now = none := by
  rw [receiverStep] at h
  split at h
  · next hreceiver => rw [taking?, hreceiver]
  · cases h
  · cases h
  · next r hreceiver =>
    rw [taking?, hreceiver]
    simp only
    split at h
    · cases h
    · split at h
      · next hpoll => simp [hpoll]
      · cases h
      · cases h
      · cases h

/-- The response that arrives (`arriving?`) is the payload that is taken. -/
theorem arriving?_eq (now : Nat) (s : Session) :
    s.arriving? now = (s.taking? now).bind Packet.response? := by
  rw [arriving?, taking?]
  cases s.receiver with
  | reading r =>
    simp only
    split
    · rfl
    · obtain ⟨progress, inbound⟩ := r.poll s.limits now s.inbound
      cases progress with
      | ongoing _ => rfl
      | finished result =>
        cases result with
        | error _ => rfl
        | ok payload => cases payload <;> rfl
  | ringing _ | ending _ _ | ended => rfl

end Session

/-! ## Runs -/

namespace Client

/-- What the moves of a run say one after the other. -/
def trace (f : Client → Move → List α) (c : Client) : List Move → List α
  | [] => []
  | m :: ms => f c m ++ trace f (c.step m) ms

/-- The last move of a run adds to its `trace`. -/
theorem trace_concat (f : Client → Move → List α) (c : Client) (ms : List Move) (m : Move) :
    c.trace f (ms ++ [m]) = c.trace f ms ++ f (c.run ms) m := by
  induction ms generalizing c with
  | nil => exact List.append_nil _
  | cons m' ms ih =>
    rw [List.cons_append, trace, trace, ih, List.append_assoc]
    rfl

/-- What is so of every move is so of a run. -/
theorem trace_eq_filterMap {f : Client → Move → List α} {g : Client → Move → List β} {h : β → Option α}
    (hmove : ∀ c m, f c m = (g c m).filterMap h) (c : Client) (ms : List Move) :
    c.trace f ms = (c.trace g ms).filterMap h := by
  induction ms generalizing c with
  | nil => rfl
  | cons m ms ih => rw [trace, trace, List.filterMap_append, ← hmove, ih]

/-- The payload that a session takes with a move, and the loggers it has then. -/
def takings (n : Nat) (c : Client) : Move → List (String × List String)
  | .receiver j =>
    match c.session? j with
    | none => []
    | some s =>
      if j = n ∧ ¬c.isDeserted s then
        ((s.taking? c.now).map fun payload => (payload, s.loggers)).toList
      else []
  | _ => []

/-- What a move adds to a list that a session has. -/
def gains (n : Nat) (items : Session → List α) (c : Client) (m : Move) : List α :=
  match c.session? n, (c.step m).session? n with
  | some s, some s' => (items s').drop (items s).length
  | _, _ => []

/-- What the loggers of a session have been shown. -/
def heard (n : Nat) (c : Client) : List (String × String) :=
  match c.session? n with
  | some s => s.heard
  | none => []

/-- The response that is delivered to a session. -/
def response? (n : Nat) : Happening → Option Response
  | .delivered session r _ => if session = n then some r else none
  | _ => none

variable {c : Client} {n : Nat} {s : Session} {m : Move}

/-- A move takes a payload of a session and deals with it, or is quiet. -/
inductive Dealing (n : Nat) (c : Client) (m : Move) (s : Session) : Prop
  | took {payload : String} {inbound : Inbound} : c.takings n m = [(payload, s.loggers)] →
      (c.step m).session? n =
        some ({ s with receiver := .reading (.start c.now), inbound }.dispatch payload) →
      Dealing n c m s
  | quiet {s' : Session} : c.takings n m = [] → (c.step m).session? n = some s' → s.Quiet s' →
      Dealing n c m s

/-- Only its receiver takes payloads of a session. -/
theorem takings_eq_nil (h : m ≠ .receiver n) : c.takings n m = [] := by
  cases m with
  | receiver j =>
    have hne : j ≠ n := fun hj => h (by rw [hj])
    rw [takings]
    split
    · rfl
    · rw [if_neg fun h => hne h.1]
  | _ => rfl

/-- What the receiver of a session takes with a move, while the session is not deserted. -/
theorem takings_receiver (hs : c.session? n = some s) (hdeserted : c.isDeserted s = false) :
    c.takings n (.receiver n) =
      ((s.taking? c.now).map fun payload => (payload, s.loggers)).toList := by
  rw [takings, hs]
  simp only [hdeserted]
  rfl

/-- Nothing is taken from a session that is not there. -/
theorem takings_of_none (hn : c.session? n = none) (m : Move) : c.takings n m = [] := by
  by_cases hm : m = .receiver n
  · rw [hm, takings, hn]
  · exact takings_eq_nil hm

/-- Every move deals with a session in one of the ways of `Dealing`. -/
theorem dealing (hs : c.session? n = some s) (m : Move) : Dealing n c m s := by
  have hid := id_of_session? hs
  obtain ⟨s', hs', hchange⟩ := change hs m
  cases hchange with
  | received hm hdeserted hstep =>
    rw [hid] at hm
    subst hm
    have htakings := takings_receiver hs hdeserted
    cases htaking : s.taking? c.now with
    | none =>
      rw [htaking] at htakings
      exact .quiet htakings hs' (Session.quiet_of_taking?_eq_none hstep htaking)
    | some payload =>
      rw [htaking] at htakings
      obtain ⟨inbound, rfl⟩ := Session.receiverStep_of_taking? hstep htaking
      exact .took htakings hs'
  | stalled hm hdeserted hstep =>
    rw [hid] at hm
    subst hm
    have htakings := takings_receiver hs hdeserted
    rw [Session.taking?_eq_none hstep] at htakings
    exact .quiet htakings hs' (.refl s)
  | deserted hm hdeserted =>
    rw [hid] at hm
    subst hm
    have htakings : c.takings n (.receiver n) = [] := by
      rw [takings, hs]
      simp [hdeserted]
    exact .quiet htakings hs' { Session.Quiet.refl s with stop := fun _ => rfl }
  | arrived hm =>
    exact .quiet (by rw [hm]; rfl) hs' { Session.Quiet.refl s with }
  | aside hm _ hkept =>
    rw [hid] at hm
    exact .quiet (takings_eq_nil hm) hs' hkept.toQuiet

/-- What a mailbox gains while nothing comes. -/
theorem drop_length_of_drained {box box' : Mailbox α} (h : box.Drained box') :
    box'.items.drop box.items.length = [] := by
  refine List.drop_of_length_le ?_
  obtain heq | ⟨a, heq⟩ := h
  · exact Nat.le_of_eq (congrArg List.length heq)
  · rw [heq, List.length_cons]
    omega

/-- A mailbox gains what the payloads that are taken are, for every kind of packet. -/
theorem gains_eq {items : Session → List α} {kind : String → Option α}
    (hdispatch : ∀ (s : Session) payload,
      items (s.dispatch payload) = items s ++ (kind payload).toList)
    (hframe : ∀ (s : Session) receiver inbound, items { s with receiver, inbound } = items s)
    (hquiet : ∀ s s' : Session, s.Quiet s' → (items s').drop (items s).length = [])
    (n : Nat) (c : Client) (m : Move) :
    c.gains n items m = (c.takings n m).filterMap fun t => kind t.1 := by
  rw [gains]
  cases hs : c.session? n with
  | none => rw [takings_of_none hs, List.filterMap_nil]
  | some s =>
    cases dealing hs m with
    | took htakings hs' =>
      rw [htakings, hs']
      simp only [hdispatch, hframe, List.drop_left]
      cases hkind : kind _ <;> simp [hkind]
    | quiet htakings hs' hq =>
      rw [htakings, hs']
      exact hquiet _ _ hq

/-- Loggers are shown the payload that a move takes. -/
theorem heard_step (n : Nat) (c : Client) (m : Move) : (c.step m).heard n =
    c.heard n ++ (c.takings n m).flatMap fun t => t.2.map fun logger => (logger, t.1) := by
  cases hs : c.session? n with
  | none =>
    rw [takings_of_none hs, heard, heard, hs]
    obtain h | ⟨_, _, _, _, _, h⟩ := session?_step_of_none hs m
    · rw [h]; rfl
    · rw [h]; rfl
  | some s =>
    cases dealing hs m with
    | @took payload inbound htakings hs' =>
      rw [heard, heard, hs, hs', htakings, List.flatMap_singleton]
      exact (Session.dispatch_adds _ payload).1
    | quiet htakings hs' hquiet =>
      rw [heard, heard, hs, hs', htakings, List.flatMap_nil, List.append_nil]
      exact hquiet.heard_eq

/-- Loggers have been shown the payloads that were taken while they were registered, in order. -/
theorem heard_run (n : Nat) (c : Client) (ms : List Move) : (c.run ms).heard n =
    c.heard n ++ (c.trace (takings n) ms).flatMap fun t => t.2.map fun logger => (logger, t.1) := by
  induction ms generalizing c with
  | nil => exact (List.append_nil _).symm
  | cons m ms ih =>
    have hstep : (c.run (m :: ms)).heard n = _ := ih (c.step m)
    rw [hstep, heard_step, trace, List.flatMap_append, List.append_assoc]

/-- Exactly the notifications (`Packet.notify?`) among the payloads have been put into their mailbox,
in order. -/
theorem trace_gains_notifies (n : Nat) (c : Client) (ms : List Move) :
    c.trace (gains n fun s => s.notifies.items) ms =
      (c.trace (takings n) ms).filterMap fun t => Packet.notify? t.1 :=
  trace_eq_filterMap (gains_eq (fun s payload => (s.dispatch_adds payload).2.1) (fun _ _ _ => rfl)
    (fun _ _ h => drop_length_of_drained h.notifies) n) c ms

/-- Exactly the output (`Packet.output?`) among the payloads has been put into its mailbox, in
order. -/
theorem trace_gains_outputs (n : Nat) (c : Client) (ms : List Move) :
    c.trace (gains n fun s => s.outputs.items) ms =
      (c.trace (takings n) ms).filterMap fun t => Packet.output? t.1 :=
  trace_eq_filterMap (gains_eq (fun s payload => (s.dispatch_adds payload).2.2) (fun _ _ _ => rfl)
    (fun _ _ h => drop_length_of_drained h.outputs) n) c ms

/-- The response that a move delivers is the payload that it takes. -/
theorem responses_happenings (n : Nat) (c : Client) (m : Move) :
    (c.happenings m).filterMap (response? n) =
      (c.takings n m).filterMap fun t => Packet.response? t.1 := by
  cases m with
  | receiver j =>
    rw [happenings, takings]
    cases hs : c.session? j with
    | none => rfl
    | some s =>
      have hid := id_of_session? hs
      by_cases hdeserted : c.isDeserted s = true
      · simp [hdeserted]
      · simp only [if_neg hdeserted, Session.happenings, Session.arriving?_eq]
        by_cases hj : j = n
        · subst hj
          rw [if_pos ⟨rfl, hdeserted⟩]
          cases s.taking? c.now with
          | none => rfl
          | some payload => cases hr : Packet.response? payload <;> simp [hr, response?, hid]
        · rw [if_neg fun h => hj h.1]
          cases (s.taking? c.now).bind Packet.response? <;> simp [hj, response?, hid]
  | task k =>
    rw [happenings]
    split
    · rfl
    · split
      · rfl
      · next t _ _ s _ =>
        refine List.filterMap_eq_nil_iff.mpr fun e he => ?_
        rw [Task.happenings] at he
        split at he
        · cases he
        · rw [List.mem_append] at he
          obtain he | he := he
          · split at he
            · cases he
            · rw [List.mem_singleton.mp he]
              rfl
          · rw [Option.mem_toList, Task.obtained?, Option.bind_eq_some_iff] at he
            obtain ⟨x, -, hx⟩ := he
            obtain ⟨r, -, rfl⟩ := Option.map_eq_some_iff.mp hx
            rfl
  | _ => rfl

/-- Exactly the responses (`Packet.response?`) among the payloads have been delivered, in order. -/
theorem responses_history (n : Nat) (c : Client) (ms : List Move) :
    (c.history ms).filterMap (response? n) =
      (c.trace (takings n) ms).filterMap fun t => Packet.response? t.1 := by
  induction ms generalizing c with
  | nil => rfl
  | cons m ms ih =>
    rw [history, trace, List.filterMap_append, List.filterMap_append, responses_happenings, ih]

end Client

end Dbgp
