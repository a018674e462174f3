import Dbgp.Bridge.Basic
import Dbgp.Proofs.ClientRun
import Dbgp.Proofs.CommandRequest

/-!
# Runs of a bridge in any order

A move of a bridge is a move of its client, a call, or something that the bridge does on its own
account: a handshake or a task that is over is seen to, or a forwarder acts. As with clients, a move
that is not possible changes nothing. `effect` says that for the client nothing new can happen in a
bridge: what a bridge does is one of the effects that moves of a client have.
-/

namespace Dbgp

/-! ## What a call can ask for -/

namespace Json

/-- All that a description of fields can give. -/
def Fields.Yields (P : α → Prop) (fields : Fields α) : Prop :=
  ∀ given a, fields.read given = .ok a → P a

/-- All that a reader can give. -/
def Reader.Yields (P : α → Prop) (read : Reader α) : Prop :=
  ∀ v a, read v = .ok a → P a

/-- One more field, of which nothing is asked. -/
theorem Fields.yields_seq {P : β → Prop} {f : Fields (α → β)} (h : f.Yields fun g => ∀ a, P (g a))
    (fields : Fields α) : (f <*> fields).Yields P := by
  intro given b hb
  show P b
  have hread : (f.seq fields).read given = .ok b := hb
  rw [Fields.seq] at hread
  simp only at hread
  split at hread
  · next g a hg ha =>
    cases hread
    exact h given g hg a
  · cases hread
  · cases hread
  · cases hread

/-- No field at all. -/
theorem Fields.yields_pure {P : α → Prop} {a : α} (h : P a) : (pure a : Fields α).Yields P := by
  intro given b hb
  cases hb
  exact h

/-- A record gives what its fields give. -/
theorem Fields.yields_record {P : α → Prop} {fields : Fields α} (h : fields.Yields P)
    (name : String) : Reader.Yields P (record name fields) := by
  intro v a ha
  cases v with
  | obj members =>
    simp only [record] at ha
    split at ha
    · next b hb =>
      cases ha
      exact h _ _ hb
    · cases ha
  | arr items =>
    simp only [record] at ha
    split at ha
    · cases ha
    · cases ha
    · next b hb =>
      split at ha
      · cases ha
      · split at ha
        · cases ha
        · cases ha
          exact h _ _ hb
  | null | bool _ | int _ | double _ | str _ => cases ha

end Json

/-- A typed command with a response. -/
def Command.IsAwaited (c : Command) : Prop :=
  c.isTyped = true ∧ c.isAsync = false

namespace Bridge

/-- An action whose command, if it has one, is typed and has a response. -/
def Action.Awaited : Action → Prop
  | .command _ c _ => c.IsAwaited
  | _ => True

namespace Action

open Json (Fields Reader)

-- Mapping over fields is `pure` followed by `seq`, so the fields come off one by one down to `pure`.
/-- Methods without parameters of their own (`plain`) ask for what they are given. -/
theorem awaited_plain {c : Command} (hc : c.IsAwaited) : Reader.Yields Awaited (plain c) := by
  refine Fields.yields_record (Fields.yields_seq ?_ _) _
  exact Fields.yields_pure fun _ => hc

/-- Methods about an id (`aboutId`) ask for what they are given. -/
theorem awaited_aboutId {c : String → Command} (hc : ∀ id, (c id).IsAwaited)
    (shown : String → Shown) : Reader.Yields Awaited (aboutId c shown) := by
  refine Fields.yields_record (Fields.yields_seq (Fields.yields_seq ?_ _) _) _
  exact Fields.yields_pure fun _ id => hc id

/-- Methods with a depth (`atDepth`) ask for what they are given. -/
theorem awaited_atDepth {c : Option UInt32 → Command} (hc : ∀ depth, (c depth).IsAwaited) :
    Reader.Yields Awaited (atDepth c) := by
  refine Fields.yields_record (Fields.yields_seq (Fields.yields_seq ?_ _) _) _
  exact Fields.yields_pure fun _ depth => hc depth

/-- Every method of the table `reader?` asks for a command that is `Awaited`. -/
theorem awaited_of_reader? {method : String} {read : Reader Action} (h : reader? method = some read) :
    Reader.Yields Awaited read := by
  unfold reader? at h
  split at h <;> cases h
  case h_1 =>
    intro v a ha
    cases hinit : Rpc.InitializeParams.ofJson v with
    | error e =>
      simp only [hinit] at ha
      cases ha
    | ok init =>
      simp only [hinit] at ha
      cases ha
      trivial
  case h_2 | h_3 =>
    exact Fields.yields_record (Fields.yields_seq (Fields.yields_pure fun _ => trivial) _) _
  case h_5 | h_8 | h_9 | h_12 => exact awaited_aboutId (fun _ => ⟨rfl, rfl⟩) _
  case h_20 | h_21 => exact awaited_atDepth fun _ => ⟨rfl, rfl⟩
  case h_6 | h_10 | h_13 | h_14 | h_15 | h_16 | h_17 | h_18 | h_19 => exact awaited_plain ⟨rfl, rfl⟩
  case h_4 | h_7 | h_11 | h_22 | h_23 | h_24 | h_25 =>
    refine Fields.yields_record ?_ _
    repeat refine Fields.yields_seq ?_ _
    refine Fields.yields_pure ?_
    intros
    exact ⟨rfl, rfl⟩

/-- Every command that `Action.ofCall` gives is typed and has a response. -/
theorem awaited_of_ofCall {method : String} {params : Option Json} {a : Action}
    (h : ofCall method params = .ok a) : a.Awaited := by
  rw [ofCall] at h
  split at h
  · cases h
    trivial
  split at h
  · split at h
    · cases h
    · split at h
      · cases h
      · cases h
        exact ⟨rfl, rfl⟩
  · split at h
    · cases h
    · next read hread =>
      cases hgiven : read (params.getD (.obj [])) with
      | error f =>
        rw [hgiven] at h
        cases h
      | ok b =>
        rw [hgiven] at h
        cases h
        exact awaited_of_reader? hread _ _ hgiven

end Action

/-! ## Moves -/

/-- What can happen next in a bridge: a move of its client, a registration, a call, or something that
the bridge does by itself. -/
inductive Move where
  | client (m : Client.Move)
  /-- A session that came in some other way than by a handshake is registered. -/
  | register (session : Nat)
  | call (c : Rpc.Call)
  | greet
  | answer
  | forward (f : Forwarder)

/-- The bridge after a `Move`. -/
def step (b : Bridge) : Move → Bridge
  | .client m => { b with client := b.client.step m }
  | .register session => b.register session
  | .call c => b.call c
  | .greet => b.greet.getD b
  | .answer => b.answer.getD b
  | .forward f => if f ∈ b.forwarders then (b.actForwarder f).getD b else b

/-- The bridge after some moves, in order. -/
def run (b : Bridge) (moves : List Move) : Bridge :=
  moves.foldl step b

/-- A run in two parts. -/
theorem run_append (b : Bridge) (ms ms' : List Move) : b.run (ms ++ ms') = (b.run ms).run ms' := by
  rw [run, List.foldl_append, run, run]

/-! ## The effect of a move -/

/-- `Forwarder.act` takes from the mailboxes of its session and leaves the rest of it alone. -/
theorem Forwarder.act_mailboxes {f : Forwarder} {g g' : ForwardGround} {step : ForwardStep}
    (h : f.act g = some (step, g')) :
    ∃ notifies outputs, g'.session = { g.session with notifies, outputs } := by
  have hnotify : ∀ {onClosed onEmpty again},
      some (pollNotify onClosed onEmpty again g) = some (step, g') →
      ∃ notifies outputs, g'.session = { g.session with notifies, outputs } := by
    intro onClosed onEmpty again h
    rw [pollNotify] at h
    split at h <;> cases h <;> exact ⟨_, _, rfl⟩
  have houtput : ∀ {onClosed onEmpty again},
      some (pollOutput onClosed onEmpty again g) = some (step, g') →
      ∃ notifies outputs, g'.session = { g.session with notifies, outputs } := by
    intro onClosed onEmpty again h
    rw [pollOutput] at h
    split at h <;> cases h <;> exact ⟨_, _, rfl⟩
  rw [act] at h
  cases hstep : f.step with
  | pollNotify | drainNotify =>
    simp only [hstep] at h
    exact hnotify h
  | pollOutput | drainOutput =>
    simp only [hstep] at h
    exact houtput h
  | sleep | awaitEnd =>
    simp only [hstep] at h
    split at h <;> cases h
    exact ⟨_, _, rfl⟩
  | announce =>
    simp only [hstep] at h
    cases h
    exact ⟨_, _, rfl⟩
  | gone =>
    simp only [hstep] at h
    cases h

open Client (Effect Outcome)

variable {b : Bridge}

/-- `Bridge.call` starts a job or leaves the client alone. -/
theorem client_call (c : Rpc.Call) (b : Bridge) : (b.call c).client = b.client ∨
    ∃ session job, (b.call c).client = (b.client.start session job).2 := by
  rw [call]
  split
  · exact .inl rfl
  · next action _ =>
    split
    · next outcome b' hbegin =>
      refine .inl ?_
      show b'.client = b.client
      unfold begin at hbegin
      split at hbegin
      · cases hbegin; rfl
      · cases hbegin; rfl
      · split at hbegin <;> cases hbegin <;> rfl
      · split at hbegin <;> cases hbegin
        rfl
      · split at hbegin <;> cases hbegin
        rfl
    · exact .inr ⟨_, _, rfl⟩

/-- A forwarder changes the mailboxes of its session and nothing else of the client. -/
theorem outcome_forward (f : Forwarder) :
    Outcome b.client (.pass 0) ((b.actForwarder f).getD b).client := by
  rw [actForwarder]
  split
  · exact Client.outcome_self rfl
  · next s hs =>
    cases hact : f.act ⟨s, b.registry, b.outbox⟩ with
    | none => exact Client.outcome_self rfl
    | some acted =>
      obtain ⟨notifies, outputs, hsession⟩ := Forwarder.act_mailboxes hact
      have hid : acted.2.session.id = f.session := by
        rw [hsession]
        show s.id = f.session
        exact Client.id_of_session? hs
      have hreplaced : ∀ j, (b.client.putSession acted.2.session).session? j =
          if j = f.session then some { s with notifies, outputs } else b.client.session? j := by
        intro j
        rw [Client.session?_putSession hs acted.2.session hid, hsession]
      exact .forwarded rfl hs (fun k => rfl) hreplaced List.suffix_rfl (Nat.le_refl _) rfl

/-- `Bridge.answer` takes a result from the client. -/
theorem outcome_answer : Outcome b.client (.pass 0) (b.answer.getD b).client := by
  rw [answer]
  split
  · exact Client.outcome_self rfl
  · next task result rest hfinished =>
    have hrest : rest <:+ b.client.finished := hfinished ▸ List.suffix_cons _ rest
    simp only
    split <;> exact Client.outcome_same rfl hrest rfl rfl rfl rfl

/-- `Bridge.greet` adds the listener of the bridge to a session that has come. -/
theorem outcome_greet : Outcome b.client (.pass 0) (b.greet.getD b).client := by
  rw [greet]
  split
  · exact Client.outcome_self rfl
  · next session rest _ =>
    exact Client.outcome_map (f := fun s => if s.id = session then s.addListener listenerName else s)
      (fun s => by split; exacts [s.beside_addListener _, .refl s]) rfl List.suffix_rfl rfl rfl rfl rfl
  · exact Client.outcome_same rfl List.suffix_rfl rfl rfl rfl rfl

/-- For its client a move of a bridge is like some move of the client, and no task acts but in a move
of its own. -/
theorem outcome (b : Bridge) (m : Move) : ∃ m', Outcome b.client m' (b.step m).client ∧
    ∀ k, m' = .task k → m = .client (.task k) := by
  cases m with
  | client m' =>
    refine ⟨m', Client.outcome b.client m', ?_⟩
    rintro k rfl
    rfl
  | register session =>
    refine ⟨.pass 0, ?_, by simp⟩
    exact Client.outcome_modifySession (Session.beside_addListener listenerName) rfl
  | call c =>
    obtain h | ⟨session, job, h⟩ := client_call c b
    · refine ⟨.pass 0, ?_, by simp⟩
      rw [step, h]
      exact Client.outcome_self rfl
    · refine ⟨.start session job, ?_, by simp⟩
      rw [step, h]
      exact Client.outcome_start session job
  | greet => exact ⟨.pass 0, outcome_greet, by simp⟩
  | answer => exact ⟨.pass 0, outcome_answer, by simp⟩
  | forward f =>
    refine ⟨.pass 0, ?_, by simp⟩
    rw [step]
    split
    · exact outcome_forward f
    · exact Client.outcome_self rfl

/-- For transactions, too, a move of a bridge is like some move of its client. -/
theorem effect (b : Bridge) (m : Move) : ∃ m' es, Effect b.client m' es (b.step m).client ∧
    ∀ k, m' = .task k → m = .client (.task k) := by
  obtain ⟨m', houtcome, hown⟩ := b.outcome m
  exact ⟨m', _, houtcome.effect, hown⟩

end Bridge

end Dbgp
