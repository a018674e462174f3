import Dbgp.Proofs.Recoverability

/-!
# The session that a call is for

What is done for a call touches no session but its target (`Bridge.call_touches_only_its_target`). That
the target is the session the call names is a matter of reading its parameters: of all methods that
take a target it is the first field, which objects give by its key and lists by its place
(`Action.faithful_of_ofCall`). `Called` says all that can become of a call; what comes after it is done
by its task, which stays with one session, and by answering.
-/

namespace Dbgp

/-! ## Reading one field -/

namespace Json

/-- What a record gives for the field that comes first: the member of an object with its key, or the
first item of a list. -/
def leading? (key : String) : Json → Option Json
  | .obj members => lookup key members
  | .arr items => items.head?
  | _ => none

/-- An integer that is not negative. -/
def toNat? : Json → Option Nat
  | .int n => n.toNat?
  | _ => none

/-- All that a description of fields can give for what is given to it. -/
def Fields.Tells (given : String → Option Json) (P : α → Prop) (fields : Fields α) : Prop :=
  ∀ a, fields.read given = .ok a → P a

/-- One more field, read from the same. -/
theorem Fields.tells_seq {given : String → Option Json} {P : β → Prop} {f : Fields (α → β)}
    {fields : Fields α} (h : f.Tells given fun g => fields.Tells given fun a => P (g a)) :
    (f <*> fields).Tells given P := by
  intro b hb
  have hread : (f.seq fields).read given = .ok b := hb
  simp only [Fields.seq] at hread
  split at hread
  · next g a hg ha =>
    cases hread
    exact h g hg a ha
  · cases hread
  · cases hread
  · cases hread

/-- No field at all. -/
theorem Fields.tells_pure {given : String → Option Json} {P : α → Prop} {a : α} (h : P a) :
    (pure a : Fields α).Tells given P := by
  intro b hb
  cases hb
  exact h

/-- Objects and lists give the same for the first field (`leading?`). -/
theorem Fields.tells_record {fields : Fields α} {name key : String} {hasDefault : Bool}
    {declared : List (String × Bool)} (hfirst : fields.declared = (key, hasDefault) :: declared)
    {P : Option Json → α → Prop} (h : ∀ given, fields.Tells given (P (given key))) {v : Json} {a : α}
    (ha : record name fields v = .ok a) : P (v.leading? key) a := by
  cases v with
  | obj members =>
    simp only [record] at ha
    split at ha
    · next b hb =>
      cases ha
      exact h _ _ hb
    · cases ha
  | arr items =>
    simp only [record] at ha
    split at ha
    · cases ha
    · cases ha
    · next b hb =>
      split at ha
      · cases ha
      · split at ha
        · cases ha
        · cases ha
          have hleading : positional items fields.declared key = items.head? := by
            rw [positional, hfirst]
            cases items with
            | nil => rfl
            | cons item items => simp
          rw [leading?, ← hleading]
          exact h _ _ hb
  | null | bool _ | int _ | double _ | str _ => cases ha

/-- What `word64` reads is an integer that is not negative. -/
theorem Reader.toNat?_of_word64 {v : Json} {id : UInt64} (h : word64 v = .ok id) :
    v.toNat? = some id.toNat := by
  cases v with
  | int n =>
    simp only [word64, integer] at h
    split at h
    · next hbounds =>
      cases h
      have hlt : n.toNat < 2 ^ 64 := by
        have hsize : UInt64.size = 2 ^ 64 := rfl
        omega
      have hnat : (n.toNat : Int) = n := Int.toNat_of_nonneg hbounds.1
      show n.toNat? = some (UInt64.ofNat n.toNat).toNat
      rw [UInt64.toNat_ofNat_of_lt' hlt, ← hnat]
      rfl
    · cases h
  | null | bool _ | arr _ | obj _ | double _ | str _ => cases h

end Json

/-- A task acts on its own session only (`session?`). -/
theorem Client.session?_task_of_ne {c : Client} {k n j : Nat}
    (h : ∀ t, c.task? k = some t → t.session = n) (hj : j ≠ n) :
    (c.step (.task k)).session? j = c.session? j := by
  obtain ⟨-, hsame⟩ | ⟨t, s, p, g, ht, -, -, -, -, -, hsession, -⟩ := c.step_task k
  · rw [hsame]
  · rw [hsession, if_neg (by rwa [h t ht])]

/-- The session that a call names, if it names one. -/
def Rpc.Call.session? (c : Rpc.Call) : Option Nat :=
  (c.params.bind (Json.leading? "session_id")).bind Json.toNat?

namespace Bridge

open Json (Fields Reader)
open Rpc (Call Failure)

namespace Action

/-! ## What an action is about -/

/-- The session that an `Action` is about, if it is about one: a number, or nothing for the current
one. -/
def target? : Action → Option (Option Nat)
  | .describe | .listSessions => none
  | .select id => some (some id)
  | .terminate named | .command named _ _ => some named

/-- An action is about the session that was given, and it selects one only for the method that does
so. -/
structure Faithful (method : String) (given : Option Json) (action : Action) : Prop where
  target : ∀ named, action.target? = some named → named = given.bind Json.toNat?
  select : ∀ id, action = .select id → method = "session/select"

/-- What is given for the target is the session that is named: `session_id`, if it is an integer. -/
theorem tells_targeted {given : String → Option Json} {P : Option Nat → Prop}
    (h : P ((given "session_id").bind Json.toNat?)) : targeted.Tells given P := by
  refine Fields.tells_seq (Fields.tells_pure ?_)
  intro id hid
  simp only [Fields.optional, Fields.default] at hid
  split at hid
  · next hnone =>
    cases hid
    rwa [hnone] at h
  · next v hv =>
    rw [hv] at h
    split at hid
    · next a ha =>
      cases hid
      unfold Reader.nullable at ha
      split at ha
      · cases ha
        exact h
      · cases hword : Reader.word64 v with
        | error f => simp [hword] at ha
        | ok id =>
          simp only [hword] at ha
          cases ha
          rwa [Option.bind_some, Reader.toNat?_of_word64 hword] at h
    · cases hid

/-- A command for the session that is named is `Faithful`. -/
theorem faithful_command (method : String) (given : Option Json) (c : Command) (shown : Shown) :
    Faithful method given (.command (given.bind Json.toNat?) c shown) :=
  ⟨by rintro _ ⟨⟩; rfl, by rintro _ ⟨⟩⟩

/-- Every method of the table `reader?` gives an action that is `Faithful`. -/
theorem faithful_of_reader? {method : String} {read : Reader Action} (h : reader? method = some read)
    {v : Json} {action : Action} (hread : read v = .ok action) :
    Faithful method (v.leading? "session_id") action := by
  unfold reader? at h
  split at h <;> cases h
  case h_1 =>
    cases hinit : Rpc.InitializeParams.ofJson v with
    | error f =>
      simp only [hinit] at hread
      cases hread
    | ok init =>
      simp only [hinit] at hread
      cases hread
      exact ⟨by rintro _ ⟨⟩, by rintro _ ⟨⟩⟩
  case h_2 =>
    refine Fields.tells_record rfl (P := Faithful _) (fun given => ?_) hread
    refine Fields.tells_seq (Fields.tells_pure ?_)
    intro id hid
    simp only [Fields.required] at hid
    split at hid
    · cases hid
    · next w hw =>
      split at hid
      · next hword =>
        cases hid
        refine ⟨?_, fun _ _ => rfl⟩
        rintro _ ⟨⟩
        rw [hw, Option.bind_some, Reader.toNat?_of_word64 hword]
      · cases hid
  case h_3 =>
    refine Fields.tells_record rfl (P := Faithful _) (fun given => ?_) hread
    refine Fields.tells_seq (Fields.tells_pure (tells_targeted ?_))
    exact ⟨by rintro _ ⟨⟩; rfl, by rintro _ ⟨⟩⟩
  -- all others are commands, whose fields come off one by one down to the target
  all_goals
    refine Fields.tells_record rfl (P := Faithful _) (fun given => ?_) hread
    repeat refine Fields.tells_seq ?_
    refine Fields.tells_pure (tells_targeted ?_)
    repeat intro _
    exact faithful_command _ _ _ _

/-- An action is about the session that its call names: `Action.ofCall` is `Faithful`. -/
theorem faithful_of_ofCall {c : Call} {action : Action} (h : ofCall c.method c.params = .ok action) :
    Faithful c.method (c.params.bind (Json.leading? "session_id")) action := by
  have hgiven : (c.params.getD (.obj [])).leading? "session_id" =
      c.params.bind (Json.leading? "session_id") := by
    cases c.params with
    | none => rfl
    | some v => rfl
  rw [← hgiven]
  rw [ofCall] at h
  split at h
  · cases h
    exact ⟨by rintro _ ⟨⟩, by rintro _ ⟨⟩⟩
  split at h
  · split at h
    · cases h
    · next target spec hset =>
      split at h
      · cases h
      · cases h
        have htarget : target = ((c.params.getD (.obj [])).leading? "session_id").bind Json.toNat? := by
          refine Fields.tells_record rfl (P := fun v p => p.1 = v.bind Json.toNat?) (fun given => ?_) hset
          repeat refine Fields.tells_seq ?_
          refine Fields.tells_pure (tells_targeted ?_)
          repeat intro _
          rfl
        rw [htarget]
        exact faithful_command _ _ _ _
  · split at h
    · cases h
    · next read hread =>
      cases hvalue : read (c.params.getD (.obj [])) with
      | error f =>
        rw [hvalue] at h
        cases h
      | ok action' =>
        rw [hvalue] at h
        cases h
        exact faithful_of_reader? hread hvalue

end Action

/-! ## What becomes of a call -/

/-- A call is answered at once. -/
def replied (c : Call) (outcome : Except Failure Json) (b : Bridge) : Bridge :=
  { b with
    nextSerial := b.nextSerial + 1
    outbox := b.outbox ++ [.answer b.nextSerial ⟨c.id, outcome⟩] }

/-- What becomes of a call: it is answered at once, or it starts a task on the session it is for. -/
inductive Called (b : Bridge) (c : Call) : Bridge → Prop
  | refused (f : Failure) : Called b c (b.replied c (.error f))
  | told (v : Json) : Called b c (b.replied c (.ok v))
  | selected {id : Nat} : c.method = "session/select" → c.session? = some id →
      id ∈ b.registry.tracked →
      Called b c ({ b with registry := b.registry.makeCurrent id }.replied c
        (.ok (.object [("session_id", .nat id)])))
  | started {n : Nat} {job : Job} (shown : Reply → Json) : c.session?.or b.registry.current = some n →
      n ∈ b.registry.tracked → job.IsCalled →
      Called b c { b with
        nextSerial := b.nextSerial + 1
        client := (b.client.start n job).2
        pending := b.pending ++ [⟨b.nextSerial, b.client.nextTask, c.id, shown⟩] }

/-- The target of a call is the session it names, or else the current one, and is tracked. -/
theorem target_eq_ok {b : Bridge} {named : Option Nat} {n : Nat} (h : b.target named = .ok n) :
    named.or b.registry.current = some n ∧ n ∈ b.registry.tracked := by
  unfold target at h
  split at h
  · next hfound =>
    cases h
    rw [Registry.target?, Option.filter_eq_some_iff] at hfound
    exact ⟨hfound.1, by simpa [Registry.isTracked] using hfound.2⟩
  · cases h
  · cases h

/-- Every call is `Called` in one of these ways. -/
theorem calledAs (b : Bridge) (c : Call) : Called b c (b.call c) := by
  rw [call]
  cases hcall : Action.ofCall c.method c.params with
  | error f => exact .refused f
  | ok action =>
    have hfaithful := Action.faithful_of_ofCall hcall
    cases action with
    | describe => exact .told _
    | listSessions => exact .told _
    | select id =>
      simp only [begin, Registry.select]
      by_cases htracked : b.registry.isTracked id
      · rw [if_pos htracked]
        exact .selected (hfaithful.select id rfl) (hfaithful.target _ rfl).symm
          (by simpa [Registry.isTracked] using htracked)
      · rw [if_neg htracked]
        exact .refused _
    | terminate named =>
      cases htarget : target named { b with nextSerial := b.nextSerial + 1 } with
      | error f =>
        simp only [begin, htarget]
        exact .refused f
      | ok n =>
        obtain ⟨hnamed, htracked⟩ := target_eq_ok htarget
        have hjob : Job.IsCalled .terminate := trivial
        rw [hfaithful.target named rfl] at hnamed
        simp only [begin, htarget]
        exact .started _ hnamed htracked hjob
    | command named cmd shown =>
      cases htarget : target named { b with nextSerial := b.nextSerial + 1 } with
      | error f =>
        simp only [begin, htarget]
        exact .refused f
      | ok n =>
        obtain ⟨hnamed, htracked⟩ := target_eq_ok htarget
        have hjob : Job.IsCalled (.command cmd) := trivial
        rw [hfaithful.target named rfl] at hnamed
        simp only [begin, htarget]
        exact .started _ hnamed htracked hjob

/-! ## Sessions that a call is not for -/

/-- `Bridge.answer` leaves the sessions alone. -/
theorem answer_leaves (b : Bridge) : (b.step .answer).registry = b.registry ∧
    (b.step .answer).client.sessions = b.client.sessions := by
  obtain h | ⟨k, result, rest, -, h | ⟨p, -, -, h⟩⟩ := b.answered
  · rw [h]
    exact ⟨rfl, rfl⟩
  · rw [h]
    exact ⟨rfl, rfl⟩
  · rw [h]
    exact ⟨rfl, rfl⟩

/-- The task that a call has started stays with its session, whatever happens. -/
theorem session_of_started {address : String} {before : List Move} {n : Nat} {job : Job}
    (hjob : job.IsCalled) {b' : Bridge}
    (hclient : b'.client = ((run { address } before).client.start n job).2) (after : List Move)
    {t : Task}
    (ht : (b'.run after).client.task? (run { address } before).client.nextTask = some t) :
    t.session = n := by
  have hsealed : (run { address } before).client.Sealed :=
    kept_run (fun h hc => hc.leads h) Client.sealed_new before
  have hstarted : b'.client.Sealed ∧
      b'.client.Pursued n (run { address } before).client.nextTask job := by
    rw [hclient]
    exact ⟨hsealed.leads (Client.leads _ (.start n job)), Client.pursued_start hsealed.ordered n job⟩
  have hkept := kept_run (I := fun c => c.Sealed ∧
      c.Pursued n (run { address } before).client.nextTask job)
    (fun hleads hc => ⟨hc.1.leads hleads, hc.2.leads hjob hc.1 hleads⟩) hstarted after
  exact (hkept.2.task t ht).1

/-- A call changes no session, and nothing that is done for it later changes a session but the one it
is for: the session it names or, if it names none, the current one. It neither adds nor removes a
session, and the current one changes only if another is selected. -/
theorem call_touches_only_its_target (address : String) (before : List Move) (c : Call) :
    let b := run { address } before
    let b' := b.call c
    b'.client.sessions = b.client.sessions ∧ b'.registry.tracked = b.registry.tracked ∧
    (b'.registry.current = b.registry.current ∨
      ∃ id ∈ b.registry.tracked, c.method = "session/select" ∧ c.session? = some id ∧
        b'.registry.current = some id ∧ b'.outbox = b.outbox ++
          [.answer b.nextSerial ⟨c.id, .ok (.object [("session_id", .nat id)])⟩]) ∧
    (b'.client = b.client ∨
      ∃ n ∈ b.registry.tracked, c.session?.or b.registry.current = some n ∧
        (∃ job, b'.client = (b.client.start n job).2) ∧
        ∀ after, let e := b'.run after
          let e' := e.step (.client (.task b.client.nextTask))
          e'.registry = e.registry ∧ ∀ j ≠ n, e'.client.session? j = e.client.session? j) ∧
    ∀ after, let e := b'.run after
      (e.step .answer).registry = e.registry ∧
        (e.step .answer).client.sessions = e.client.sessions := by
  intro b b'
  have hcalled : Called b c b' := b.calledAs c
  generalize b' = b' at hcalled
  cases hcalled with
  | refused f => exact ⟨rfl, rfl, .inl rfl, .inl rfl, fun after => answer_leaves _⟩
  | told v => exact ⟨rfl, rfl, .inl rfl, .inl rfl, fun after => answer_leaves _⟩
  | selected hmethod hnamed htracked =>
    refine ⟨rfl, rfl, .inr ⟨_, htracked, hmethod, hnamed, rfl, rfl⟩, .inl rfl, ?_⟩
    exact fun after => answer_leaves _
  | @started n job shown hnamed htracked hjob =>
    refine ⟨rfl, rfl, .inl rfl, .inr ⟨n, htracked, hnamed, ⟨job, rfl⟩, ?_⟩, fun after => answer_leaves _⟩
    intro after e e'
    refine ⟨rfl, fun j hj => ?_⟩
    exact Client.session?_task_of_ne (fun t ht => session_of_started hjob rfl after ht) hj

/-! Two sessions are there, and the second is the current one. A caller asks for the status of the
first. -/

/-- The moves before the call. -/
def twoAttached : List Move :=
  [.client (.attach {}), .register 1, .client (.attach {}), .register 2]

/-- The call names a session. -/
def statusOfFirst : Call where
  version := "2.0"
  id := .int 7
  method := "status"
  params := some (.obj [("session_id", .int 1)])

/-- With its seventh action the task of the call writes to the first session, and the second stays
what it is. -/
theorem call_touches_only_its_target_first :
    let b := run { address := "" } twoAttached
    let e := (b.call statusOfFirst).run (List.replicate 6 (.client (.task 1)))
    let e' := e.step (.client (.task 1))
    b.registry.current = some 2 ∧ (2 : Nat) ≠ 1 ∧ e'.client.written 1 ≠ e.client.written 1 ∧
      e'.client.session? 2 = e.client.session? 2 := by
  intro b e e'
  obtain ⟨-, -, -, hquiet | ⟨n, -, hnamed, -, hothers⟩, -⟩ :=
    call_touches_only_its_target "" twoAttached statusOfFirst
  · exact absurd (congrArg Client.nextTask hquiet) (by decide)
  · cases (show some 1 = some n from hnamed)
    exact ⟨by decide, by decide, by decide +kernel, (hothers _).2 2 (by decide)⟩

end Bridge
end Dbgp
