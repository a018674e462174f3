import Dbgp.Proofs.Mailboxes
import Dbgp.Proofs.Notices

/-!
# Every packet is forwarded once

What a bridge says about a session is told from the rest by the number that notices carry
(`Bridge.said`). `Bridge.attended` says once what a move does to it: nothing, the notice that the
session has been registered, or one action of its forwarder. From that and from what happens to the
mailboxes (`Bridge.restocked`) follows what all runs keep: the packets that were passed on and those
that still wait are, together and for each kind in order, those that have arrived (`Bridge.Relayed`).

A forwarder begins to empty the mailboxes when one of them is closed. The other one may be open then, and
output may come in while notifications are drained; what makes this safe is that nothing is received
any more once the receiver has begun to end the session, and that mailboxes are closed only after
that (`Session.Shut`).
-/

namespace Dbgp

open Rpc (Message Notice)

namespace Bridge

/-! ## What a move says about a session -/

variable {b b' : Bridge} {n : Nat} {m : Move}

/-- What the bridge has said about a session, by `Message.session?`. -/
def said (n : Nat) (b : Bridge) : List Message :=
  b.outbox.filter fun x => x.session? = some n

/-- The `forwarders` of a session. There is one for each time it was registered. -/
def forwardersOf (n : Nat) (b : Bridge) : List Forwarder :=
  b.forwarders.filter fun f => f.session = n

/-- What a `Move` does as far as notices about a session go: nothing, it is registered, or its
forwarder acts. -/
inductive Attended (n : Nat) (b : Bridge) (m : Move) (b' : Bridge) : Prop
  | aside : b'.said n = b.said n → b'.forwardersOf n = b.forwardersOf n →
      (n ∈ b'.registry.tracked → n ∈ b.registry.tracked) →
      (b'.client = b.client ∧ b.payloads n m = [] ∨ ∀ f, m = .forward f → f.session ≠ n) →
      Attended n b m b'
  | registered {init : Option Init} : b'.said n = b.said n ++ [.notice (Rpc.started n init)] →
      b'.forwardersOf n = b.forwardersOf n ++ [⟨n, .pollNotify⟩] → (∀ f, m ≠ .forward f) →
      Attended n b m b'
  | forwarded {f : Forwarder} {s : Session} {step : ForwardStep} {g : ForwardGround} :
      f ∈ b.forwardersOf n → b.client.session? n = some s →
      f.Action ⟨s, b.registry, b.outbox⟩ step g →
      b'.client.session? n = some g.session → b'.registry = g.registry → b'.outbox = g.outbox →
      b'.forwardersOf n = (b.forwardersOf n).map (fun f => { f with step }) →
      b.payloads n m = [] → Attended n b m b'

/-- Of what is added to the `outbox`, only what is about the session counts. -/
theorem said_append {xs : List Message} (h : b'.outbox = b.outbox ++ xs) :
    b'.said n = b.said n ++ xs.filter fun x => x.session? = some n := by
  rw [said, h, List.filter_append, said]

/-- `Bridge.register` of a session starts its forwarder and is none of another session's business. -/
theorem attended_register {b₀ : Bridge} (houtbox : b₀.outbox = b.outbox)
    (hforwarders : b₀.forwarders = b.forwarders) (hregistry : b₀.registry = b.registry) (j : Nat)
    (hm : ∀ f, m ≠ .forward f) : Attended n b m (b₀.register j) := by
  have hsaid : (b₀.register j).said n = b.said n ++ _ :=
    said_append (congrArg (· ++ [_]) houtbox)
  have hforwarders : (b₀.register j).forwardersOf n = b.forwardersOf n ++
      [Forwarder.mk j .pollNotify].filter fun f => f.session = n := by
    rw [forwardersOf, forwardersOf, ← hforwarders]
    exact List.filter_append ..
  by_cases hj : j = n
  · subst hj
    rw [List.filter_cons_of_pos (by simp), List.filter_nil] at hsaid hforwarders
    exact .registered hsaid hforwarders hm
  · refine .aside ?_ ?_ (fun h => ?_) (.inr fun f hf => absurd hf (hm f))
    · rw [hsaid, List.filter_cons_of_neg (by simpa using hj), List.filter_nil, List.append_nil]
    · rw [hforwarders, List.filter_cons_of_neg (by simpa using hj), List.filter_nil, List.append_nil]
    · rw [← hregistry]
      exact (Registry.mem_insert.mp h).resolve_left (Ne.symm hj)

/-- A `Forwarder` speaks of its own session, and takes nothing back from the outbox. -/
theorem Forwarder.Action.outbox {f : Forwarder} {g g' : ForwardGround} {step : ForwardStep}
    (h : f.Action g step g') :
    ∃ xs, g'.outbox = g.outbox ++ xs ∧ ∀ x ∈ xs, x.session? = some g.session.id := by
  cases h with
  | notified | printed | announced =>
    refine ⟨_, rfl, fun x hx => ?_⟩
    rw [List.mem_singleton.mp hx]
    simp
  | passed | slept | closed | woken | drainedNotifies | drainedOutputs | forgot =>
    exact ⟨[], (List.append_nil _).symm, fun x hx => (nomatch hx)⟩

/-- A `Forwarder` brings no session back into the registry. -/
theorem Forwarder.Action.tracked {f : Forwarder} {g g' : ForwardGround} {step : ForwardStep}
    (h : f.Action g step g') (hn : n ∈ g'.registry.tracked) : n ∈ g.registry.tracked := by
  cases h with
  | forgot => exact Registry.mem_of_mem_forget hn
  | notified | printed | passed | slept | closed | woken | drainedNotifies | drainedOutputs
  | announced => exact hn

/-- Where the forwarders of one session go on to a step, `forwardersOf` another one stay where they
are. -/
theorem forwardersOf_eq_map {f : Forwarder} {step : ForwardStep}
    (h : b'.forwarders = b.forwarders.map fun f' =>
      if f'.session = f.session then { f' with step } else f') :
    b'.forwardersOf n =
      if f.session = n then (b.forwardersOf n).map fun f' => { f' with step }
      else b.forwardersOf n := by
  have hmap : b'.forwardersOf n = (b.forwardersOf n).map fun f' =>
      if f'.session = f.session then { f' with step } else f' := by
    rw [forwardersOf, h, List.filter_map, forwardersOf]
    congr 2
    funext f'
    simp only [Function.comp_apply]
    split <;> rfl
  have hsession : ∀ f' ∈ b.forwardersOf n, f'.session = n := fun f' hf' => by
    simpa using (List.mem_filter.mp hf').2
  rw [hmap]
  split
  · next hn =>
    refine List.map_congr_left fun f' hf' => ?_
    rw [if_pos ((hsession f' hf').trans hn.symm)]
  · next hn =>
    refine (List.map_congr_left fun f' hf' => ?_).trans (List.map_id' _)
    rw [if_neg (by rw [hsession f' hf']; exact Ne.symm hn)]

/-- What a forwarder does is `Attended`. -/
theorem attended_forward (f : Forwarder) : Attended n b (.forward f) (b.step (.forward f)) := by
  obtain hforward | ⟨s, step, g, hmem, hs, haction, hforward⟩ := b.forwarded f
  · rw [hforward]
    exact .aside rfl rfl id (.inl ⟨rfl, rfl⟩)
  · have hid : g.session.id = f.session := haction.id_eq.trans (Client.id_of_session? hs)
    have hforwarders : (b.step (.forward f)).forwardersOf n = if f.session = n then _ else _ :=
      forwardersOf_eq_map (congrArg Bridge.forwarders hforward)
    by_cases hn : f.session = n
    · subst hn
      refine .forwarded (List.mem_filter.mpr ⟨hmem, by simp⟩) hs haction ?_ ?_ ?_ ?_ rfl
      · rw [hforward]
        exact (Client.session?_putSession hs g.session hid f.session).trans (if_pos rfl)
      · rw [hforward]
      · rw [hforward]
      · rw [hforwarders, if_pos rfl]
    · obtain ⟨xs, hxs, habout⟩ := haction.outbox
      have hid : s.id = f.session := Client.id_of_session? hs
      refine .aside ?_ ?_ ?_ (.inr ?_)
      · have hoff : xs.filter (fun x => x.session? = some n) = [] := by
          rw [List.filter_eq_nil_iff]
          intro x hx
          rw [habout x hx, hid]
          simpa using hn
        rw [said_append (b := b) (by rw [hforward]; exact hxs), hoff, List.append_nil]
      · rw [hforwarders, if_neg hn]
      · rw [hforward]
        exact haction.tracked
      · rintro f' ⟨⟩
        exact hn

/-- Every move is `Attended`, whichever session is looked at. -/
theorem attended (n : Nat) (b : Bridge) (m : Move) : Attended n b m (b.step m) := by
  -- Answers are no notices.
  have hanswers : ∀ {b'} {serial : Nat} {a : Rpc.Answer}, (∀ f, m ≠ .forward f) →
      b'.outbox = b.outbox ++ [.answer serial a] → b'.forwarders = b.forwarders →
      b'.registry.tracked = b.registry.tracked → Attended n b m b' := by
    intro b' serial a hm houtbox hforwarders htracked
    refine .aside ?_ ?_ (fun h => htracked ▸ h) (.inr fun f hf => absurd hf (hm f))
    · rw [said_append houtbox]
      exact List.append_nil _
    · rw [forwardersOf, hforwarders, forwardersOf]
  have hsame : ∀ {b'}, (∀ f, m ≠ .forward f) → b'.outbox = b.outbox →
      b'.forwarders = b.forwarders → b'.registry = b.registry → Attended n b m b' := by
    intro b' hm houtbox hforwarders hregistry
    refine .aside ?_ ?_ (fun h => hregistry ▸ h) (.inr fun f hf => absurd hf (hm f))
    · rw [said, houtbox, said]
    · rw [forwardersOf, hforwarders, forwardersOf]
  cases m with
  | client m => exact hsame (by simp) rfl rfl rfl
  | register session => exact attended_register rfl rfl rfl session (by simp)
  | call c =>
    obtain ⟨registry, outcome, hcall, hregistry, -⟩ | ⟨action, j, job, shown, -, -, hcall⟩ := b.called c
    · rw [step, hcall]
      refine hanswers (by simp) rfl rfl ?_
      obtain rfl | ⟨id, hselect⟩ := hregistry
      · rfl
      · exact Registry.tracked_select hselect
    · rw [step, hcall]
      exact hsame (by simp) rfl rfl rfl
  | greet =>
    obtain hgreet | ⟨k, e, rest, -, hgreet⟩ | ⟨k, j, rest, -, hgreet⟩ := b.greeted
    · rw [hgreet]
      exact hsame (by simp) rfl rfl rfl
    · rw [hgreet]
      exact hsame (by simp) rfl rfl rfl
    · rw [hgreet]
      refine attended_register ?_ ?_ ?_ j (by simp) <;> rfl
  | answer =>
    obtain hanswer | ⟨k, result, rest, -, hanswer | ⟨p, -, -, hanswer⟩⟩ := b.answered
    · rw [hanswer]
      exact hsame (by simp) rfl rfl rfl
    · rw [hanswer]
      exact hsame (by simp) rfl rfl rfl
    · rw [hanswer]
      exact hanswers (by simp) rfl rfl rfl
  | forward f => exact attended_forward f

end Bridge

/-! ## What waits -/

namespace Client

/-- The notifications of a session that nobody has taken: the `items` of the mailbox. -/
def notifies (n : Nat) (c : Client) : List Notify :=
  ((c.session? n).map fun s => s.notifies.items).getD []

/-- The output of a session that nobody has taken: the `items` of the mailbox. -/
def outputs (n : Nat) (c : Client) : List Output :=
  ((c.session? n).map fun s => s.outputs.items).getD []

variable {c c' : Client} {n : Nat} {s : Session} {payloads : List String}

theorem notifies_of_session? (hs : c.session? n = some s) : c.notifies n = s.notifies.items := by
  rw [notifies, hs]
  rfl

theorem outputs_of_session? (hs : c.session? n = some s) : c.outputs n = s.outputs.items := by
  rw [outputs, hs]
  rfl

/-- `Restocked` adds the notifications among the payloads, at the end. -/
theorem Restocked.notifies (h : Restocked n payloads c c') :
    c'.notifies n = c.notifies n ++ payloads.filterMap Packet.notify? := by
  cases h with
  | absent hs hnone hnew =>
    rw [Client.notifies, Client.notifies, hs, hnone]
    cases hs' : c'.session? n with
    | none => rfl
    | some s' => exact (hnew s' hs').1
  | present hs hs' hstocked =>
    rw [notifies_of_session? hs, notifies_of_session? hs', hstocked.notifies]

/-- `Restocked` adds the output among the payloads, at the end. -/
theorem Restocked.outputs (h : Restocked n payloads c c') :
    c'.outputs n = c.outputs n ++ payloads.filterMap Packet.output? := by
  cases h with
  | absent hs hnone hnew =>
    rw [Client.outputs, Client.outputs, hs, hnone]
    cases hs' : c'.session? n with
    | none => rfl
    | some s' => exact (hnew s' hs').2.1
  | present hs hs' hstocked =>
    rw [outputs_of_session? hs, outputs_of_session? hs', hstocked.outputs]

/-- A session that is `Session.Shut` stays so while payloads come in. -/
theorem Restocked.shut (h : Restocked n payloads c c') (hc : ∀ s, c.session? n = some s → s.Shut) :
    ∀ s, c'.session? n = some s → s.Shut := by
  intro s₁ hs₁
  cases h with
  | absent _ _ hnew => exact (hnew s₁ hs₁).2.2
  | present hs hs' hstocked =>
    cases hs'.symm.trans hs₁
    exact (hc _ hs).stocked hstocked

end Client

/-! ## The account of a forwarder -/

namespace Bridge

open Client (Restocked)

variable {b b' : Bridge} {n : Nat} {m : Move} {f : Forwarder} {received : List String}
  {packets : List (Notify ⊕ Output)}

/-- How far a forwarder has come on its way to the end, from polling to `gone`. -/
def ForwardStep.rank : ForwardStep → Nat
  | .pollNotify | .pollOutput | .sleep => 0
  | .drainNotify => 1
  | .drainOutput => 2
  | .awaitEnd => 3
  | .announce => 4
  | .gone => 5

/-- What is so when a forwarder has come to a `ForwardStep`. -/
structure ForwardGround.Due (step : ForwardStep) (g : ForwardGround) : Prop where
  ceased : 1 ≤ step.rank → 1 ≤ g.session.receiver.rank
  notifies : 2 ≤ step.rank → g.session.notifies.items = []
  outputs : 3 ≤ step.rank → g.session.outputs.items = []
  untracked : 4 ≤ step.rank → g.session.id ∉ g.registry.tracked

variable {g g' : ForwardGround} {step : ForwardStep} {s s' : Session} {payloads : List String}

/-- While a forwarder polls, nothing is asked for by `ForwardGround.Due`. -/
theorem ForwardGround.due_of_rank (h : step.rank = 0) (g : ForwardGround) : g.Due step := by
  constructor <;> intro hrank <;> omega

/-- What else happens to the session does not undo what is `Due`. -/
theorem ForwardGround.Due.stocked (h : g.Due step) (hstocked : g.session.Stocked payloads s')
    (hid : s'.id = g.session.id) (hsession : g'.session = s')
    (htracked : s'.id ∈ g'.registry.tracked → s'.id ∈ g.registry.tracked) : g'.Due step := by
  subst hsession
  have hnone : 1 ≤ step.rank → payloads = [] := fun hrank => hstocked.ceased (h.ceased hrank)
  refine ⟨fun hrank => Nat.le_trans (h.ceased hrank) hstocked.rank_le, fun hrank => ?_,
    fun hrank => ?_, fun hrank hn => h.untracked hrank (hid ▸ htracked hn)⟩
  · rw [hstocked.notifies, h.notifies hrank, hnone (by omega)]
    rfl
  · rw [hstocked.outputs, h.outputs hrank, hnone (by omega)]
    rfl

/-- An action of a forwarder brings it to a step only when what is `Due` there is so. -/
theorem Forwarder.Action.due (h : f.Action g step g') (hdue : g.Due f.step)
    (hshut : g.session.Shut) : g'.Due step := by
  cases h with
  | notified hstep hitems =>
    have hrank : f.step.rank ≤ 1 := by
      obtain hstep | hstep := hstep <;> rw [hstep] <;> simp [ForwardStep.rank]
    exact ⟨hdue.ceased, fun h => by omega, fun h => by omega, fun h => by omega⟩
  | printed hstep hitems =>
    obtain ⟨hstep, rfl⟩ | ⟨hstep, rfl⟩ := hstep
    · exact ForwardGround.due_of_rank rfl _
    · rw [hstep] at hdue
      exact ⟨hdue.ceased, hdue.notifies, fun h => by simp [ForwardStep.rank] at h,
        fun h => by simp [ForwardStep.rank] at h⟩
  | passed | slept | woken => exact ForwardGround.due_of_rank rfl _
  | closed hclosed =>
    -- One mailbox is closed, which is enough to know that nothing comes into the other one.
    refine ⟨fun _ => ?_, fun h => ?_, fun h => ?_, fun h => ?_⟩
    · obtain ⟨-, hclosed⟩ | ⟨-, hclosed⟩ := hclosed
      · exact hshut.notifies hclosed
      · exact hshut.outputs hclosed
    all_goals simp [ForwardStep.rank] at h
  | drainedNotifies hstep hitems =>
    rw [hstep] at hdue
    exact ⟨fun _ => hdue.ceased (by simp [ForwardStep.rank]), fun _ => hitems,
      fun h => by simp [ForwardStep.rank] at h, fun h => by simp [ForwardStep.rank] at h⟩
  | drainedOutputs hstep hitems =>
    rw [hstep] at hdue
    exact ⟨fun _ => hdue.ceased (by simp [ForwardStep.rank]),
      fun _ => hdue.notifies (by simp [ForwardStep.rank]), fun _ => hitems,
      fun h => by simp [ForwardStep.rank] at h⟩
  | forgot hstep hstage =>
    rw [hstep] at hdue
    exact ⟨fun _ => hdue.ceased (by simp [ForwardStep.rank]),
      fun _ => hdue.notifies (by simp [ForwardStep.rank]),
      fun _ => hdue.outputs (by simp [ForwardStep.rank]), fun _ => Registry.not_mem_forget _ _⟩
  | announced hstep =>
    rw [hstep] at hdue
    exact ⟨fun _ => hdue.ceased (by simp [ForwardStep.rank]),
      fun _ => hdue.notifies (by simp [ForwardStep.rank]),
      fun _ => hdue.outputs (by simp [ForwardStep.rank]),
      fun _ => hdue.untracked (by simp [ForwardStep.rank])⟩

/-- A forwarder leaves a session `Session.Shut`. -/
theorem Forwarder.Action.shut (h : f.Action g step g') (hshut : g.session.Shut) :
    g'.session.Shut := by
  cases h <;> exact ⟨hshut.notifies, hshut.outputs⟩

/-- What a forwarder that has come to a step has said last: nothing, unless it is `gone`. -/
inductive ForwardStep.Farewell (n : Nat) : ForwardStep → List Notice → Prop
  | owed {step : ForwardStep} : step ≠ .gone → Farewell n step []
  | said (error : Option String) : Farewell n .gone [Rpc.terminated n error]

/-- Before it is `gone` a forwarder has said no farewell. -/
theorem ForwardStep.Farewell.eq_nil {farewell : List Notice} (h : step.Farewell n farewell)
    (hgone : step ≠ .gone) : farewell = [] := by
  cases h with
  | owed => rfl
  | said => exact absurd rfl hgone

/-- The last notice is about the session, too, by `Farewell`. -/
theorem ForwardStep.Farewell.session? {farewell : List Notice} (h : step.Farewell n farewell) :
    ∀ x ∈ farewell, (Message.notice x).session? = some n := by
  cases h with
  | owed => exact fun x hx => (nomatch hx)
  | said error =>
    intro x hx
    rw [List.mem_singleton.mp hx]
    simp

/-- What a forwarder takes it passes on (`Rpc.passedOn`), and it passes on nothing else. -/
theorem Forwarder.Action.passed_on (h : f.Action g step g') :
    f.step ≠ .gone ∧ ∃ (passed : List (Notify ⊕ Output)) (farewell : List Notice),
      step.Farewell g.session.id farewell ∧
      g'.outbox = g.outbox ++ (passed.map (Rpc.passedOn g.session.id) ++ farewell).map .notice ∧
      g.session.notifies.items = passed.filterMap Sum.getLeft? ++ g'.session.notifies.items ∧
      g.session.outputs.items = passed.filterMap Sum.getRight? ++ g'.session.outputs.items := by
  cases h with
  | @notified x rest hstep hitems =>
    have hgone : f.step ≠ .gone := by
      obtain hstep | hstep := hstep <;> rw [hstep] <;> simp
    exact ⟨hgone, [.inl x], [], .owed hgone, rfl, hitems, rfl⟩
  | @printed x rest step hstep hitems =>
    obtain ⟨hstep, rfl⟩ | ⟨hstep, rfl⟩ := hstep <;> rw [hstep] <;>
      exact ⟨by simp, [.inr x], [], .owed (by simp), rfl, rfl, hitems⟩
  | passed hstep | slept hstep | woken hstep | drainedNotifies hstep | drainedOutputs hstep
  | forgot hstep =>
    rw [hstep]
    exact ⟨by simp, [], [], .owed (by simp), (List.append_nil _).symm, rfl, rfl⟩
  | closed hclosed =>
    obtain ⟨hstep, -⟩ | ⟨hstep, -⟩ := hclosed <;> rw [hstep] <;>
      exact ⟨by simp, [], [], .owed (by simp), (List.append_nil _).symm, rfl, rfl⟩
  | announced hstep =>
    rw [hstep]
    exact ⟨by simp, [], _, .said _, rfl, rfl, rfl⟩

/-- What a `Bridge` knows of a session that it has not registered. -/
structure Unheard (n : Nat) (received : List String) (b : Bridge) : Prop where
  said : b.said n = []
  notifies : received.filterMap Packet.notify? = b.client.notifies n
  outputs : received.filterMap Packet.output? = b.client.outputs n
  shut : ∀ s, b.client.session? n = some s → s.Shut

/-- The account of the forwarder of a session: these `packets` have been passed on, out of the
payloads that were `received`. -/
structure Relayed (n : Nat) (step : ForwardStep) (received : List String)
    (packets : List (Notify ⊕ Output)) (b : Bridge) : Prop where
  said : ∃ init farewell, step.Farewell n farewell ∧
    b.said n = (Rpc.started n init :: (packets.map (Rpc.passedOn n) ++ farewell)).map .notice
  notifies : received.filterMap Packet.notify? = packets.filterMap Sum.getLeft? ++ b.client.notifies n
  outputs : received.filterMap Packet.output? = packets.filterMap Sum.getRight? ++ b.client.outputs n
  shut : ∀ s, b.client.session? n = some s → s.Shut
  begun : 1 ≤ step.rank → ∃ s, b.client.session? n = some s
  due : ∀ s, b.client.session? n = some s → ForwardGround.Due step ⟨s, b.registry, b.outbox⟩

/-- Nothing is said about a session that is `Unheard`, whatever comes in. -/
theorem Unheard.pass (h : b.Unheard n received) (hsaid : b'.said n = b.said n)
    (hstocked : Restocked n payloads b.client b'.client) :
    b'.Unheard n (received ++ payloads) := by
  refine ⟨hsaid.trans h.said, ?_, ?_, hstocked.shut h.shut⟩
  · rw [List.filterMap_append, h.notifies, hstocked.notifies]
  · rw [List.filterMap_append, h.outputs, hstocked.outputs]

/-- An `Unheard` session is registered: it is `Relayed` from then on, with nothing passed on. -/
theorem Unheard.registered {init : Option Init} (h : b.Unheard n received)
    (hsaid : b'.said n = b.said n ++ [.notice (Rpc.started n init)])
    (hstocked : Restocked n payloads b.client b'.client) :
    b'.Relayed n .pollNotify (received ++ payloads) [] := by
  refine ⟨⟨init, [], .owed (by simp), ?_⟩, ?_, ?_, hstocked.shut h.shut, ?_, ?_⟩
  · rw [hsaid, h.said]
    rfl
  · rw [List.filterMap_append, h.notifies, hstocked.notifies]
    rfl
  · rw [List.filterMap_append, h.outputs, hstocked.outputs]
    rfl
  · intro hrank
    simp [ForwardStep.rank] at hrank
  · exact fun s _ => ForwardGround.due_of_rank rfl _

/-- `Relayed` is kept by moves of others, which add to what is received and to nothing else. -/
theorem Relayed.pass (h : b.Relayed n step received packets) (hsaid : b'.said n = b.said n)
    (htracked : n ∈ b'.registry.tracked → n ∈ b.registry.tracked)
    (hstocked : Restocked n payloads b.client b'.client) :
    b'.Relayed n step (received ++ payloads) packets := by
  refine ⟨?_, ?_, ?_, hstocked.shut h.shut, fun hrank => ?_, fun s₁ hs₁ => ?_⟩
  · rw [hsaid]
    exact h.said
  · rw [List.filterMap_append, h.notifies, hstocked.notifies, List.append_assoc]
  · rw [List.filterMap_append, h.outputs, hstocked.outputs, List.append_assoc]
  · obtain ⟨s, hs⟩ := h.begun hrank
    cases hstocked with
    | absent hnone => cases hnone.symm.trans hs
    | present _ hs' => exact ⟨_, hs'⟩
  · have hid := Client.id_of_session? hs₁
    cases hstocked with
    | absent hnone =>
      -- The forwarder of a session that is new has found nothing closed.
      refine ForwardGround.due_of_rank (Nat.eq_zero_of_not_pos fun hrank => ?_) _
      obtain ⟨s, hs⟩ := h.begun hrank
      cases hnone.symm.trans hs
    | present hs hs' hstocked =>
      cases hs'.symm.trans hs₁
      refine (h.due _ hs).stocked hstocked (hid.trans (Client.id_of_session? hs).symm) rfl ?_
      rw [hid]
      exact htracked

/-- `Relayed` is kept by an action of the forwarder, with the packets it has taken. -/
theorem Relayed.forward (h : b.Relayed n f.step received packets)
    (hs : b.client.session? n = some s) (haction : f.Action ⟨s, b.registry, b.outbox⟩ step g)
    (hs' : b'.client.session? n = some g.session) (hregistry : b'.registry = g.registry)
    (houtbox : b'.outbox = g.outbox) :
    ∃ packets, b'.Relayed n step received packets := by
  have hid : s.id = n := Client.id_of_session? hs
  obtain ⟨hgone, passed, farewell, hfarewell, hout, hnotifies, houtputs⟩ := haction.passed_on
  obtain ⟨init, _, hbefore, hsaid⟩ := h.said
  rw [hid] at hfarewell hout
  refine ⟨packets ++ passed, ⟨init, farewell, hfarewell, ?_⟩, ?_, ?_, ?_, fun _ => ⟨_, hs'⟩, ?_⟩
  · have habout : ∀ x ∈ (passed.map (Rpc.passedOn n) ++ farewell).map Message.notice,
        x.session? = some n := by
      intro x hx
      obtain ⟨y, hy, rfl⟩ := List.mem_map.mp hx
      obtain hy | hy := List.mem_append.mp hy
      · obtain ⟨packet, -, rfl⟩ := List.mem_map.mp hy
        exact Rpc.session?_passedOn n packet
      · exact hfarewell.session? y hy
    -- Who acts is not gone, and so nothing stands after the packets yet.
    rw [said_append (houtbox.trans hout), hsaid, List.filter_eq_self.mpr (by simpa using habout),
      hbefore.eq_nil hgone]
    simp
  · rw [h.notifies, Client.notifies_of_session? hs, Client.notifies_of_session? hs', hnotifies,
      List.filterMap_append, List.append_assoc]
  · rw [h.outputs, Client.outputs_of_session? hs, Client.outputs_of_session? hs', houtputs,
      List.filterMap_append, List.append_assoc]
  · intro s₁ hs₁
    cases hs'.symm.trans hs₁
    exact haction.shut (h.shut s hs)
  · intro s₁ hs₁
    cases hs'.symm.trans hs₁
    rw [hregistry, houtbox]
    exact haction.due (h.due s hs) (h.shut s hs)

end Bridge

/-! ## All runs -/

namespace Bridge

open Client (Restocked)

variable {b : Bridge} {n : Nat} {f : Forwarder} {received : List String}

/-- The payloads that the receiver of a session takes in the course of some moves, by `payloads`. -/
def arrivals (n : Nat) (b : Bridge) : List Move → List String
  | [] => []
  | m :: ms => b.payloads n m ++ (b.step m).arrivals n ms

/-- What a bridge knows of a session, by how often it has been registered: `Unheard`, `Relayed`, or
nothing. Two forwarders of one session share its packets. -/
inductive Faithful (n : Nat) (received : List String) (b : Bridge) : Prop
  | unheard : b.forwardersOf n = [] → b.Unheard n received → Faithful n received b
  | relayed {f : Forwarder} {packets : List (Notify ⊕ Output)} : b.forwardersOf n = [f] →
      b.Relayed n f.step received packets → Faithful n received b
  | shared : 2 ≤ (b.forwardersOf n).length → Faithful n received b

/-- One move keeps the account of a session, by `attended`, if nobody else takes from its
mailboxes. -/
theorem Faithful.step (h : b.Faithful n received) (huntapped : b.client.Untapped n) (m : Move) :
    (b.step m).Faithful n (received ++ b.payloads n m) := by
  cases attended n b m with
  | aside hsaid hforwarders htracked hm =>
    have hstocked : Restocked n (b.payloads n m) b.client (b.step m).client := by
      obtain ⟨hclient, hpayloads⟩ | hm := hm
      · rw [hpayloads]
        exact Client.restocked_of_eq (by rw [hclient])
      · exact restocked huntapped m hm
    cases h with
    | unheard hnone h => exact .unheard (hforwarders.trans hnone) (h.pass hsaid hstocked)
    | relayed hone h => exact .relayed (hforwarders.trans hone) (h.pass hsaid htracked hstocked)
    | shared hmany => exact .shared (by rw [hforwarders]; exact hmany)
  | registered hsaid hforwarders hm =>
    have hstocked := restocked huntapped m fun f hf => absurd hf (hm f)
    cases h with
    | unheard hnone h =>
      rw [hnone] at hforwarders
      exact .relayed hforwarders (h.registered hsaid hstocked)
    | relayed hone =>
      -- A second forwarder takes its part from here on.
      rw [hone] at hforwarders
      exact .shared (by rw [hforwarders]; simp)
    | shared hmany =>
      refine .shared ?_
      rw [hforwarders, List.length_append]
      omega
  | forwarded hmem hs haction hs' hregistry houtbox hforwarders hpayloads =>
    rw [hpayloads, List.append_nil]
    cases h with
    | unheard hnone =>
      rw [hnone] at hmem
      cases hmem
    | relayed hone h =>
      rw [hone] at hmem hforwarders
      cases List.mem_singleton.mp hmem
      obtain ⟨packets, h⟩ := h.forward hs haction hs' hregistry houtbox
      exact .relayed hforwarders h
    | shared hmany => exact .shared (by rw [hforwarders, List.length_map]; exact hmany)

/-- A whole run keeps the account of a session: `Faithful` holds after it. -/
theorem Faithful.run (h : b.Faithful n received) (huntapped : b.client.Untapped n) (ms : List Move)
    (hms : ∀ job : Job, job.Takes → .client (.start n job) ∉ ms) :
    (b.run ms).Faithful n (received ++ b.arrivals n ms) := by
  induction ms generalizing b received with
  | nil =>
    rw [arrivals, List.append_nil]
    exact h
  | cons m ms ih =>
    rw [arrivals, ← List.append_assoc]
    refine ih (h.step huntapped m) (untapped_step huntapped m ?_) ?_
    · rintro job rfl htakes
      exact hms job htakes (.head _)
    · exact fun job htakes hmem => hms job htakes (.tail _ hmem)

/-- A session with one forwarder is `Relayed` after every run in which nobody else takes its
packets. -/
theorem relayed_run {address : String} {ms : List Move} (hone : (run { address } ms).forwardersOf n = [f])
    (huntapped : ∀ job : Job, job.Takes → .client (.start n job) ∉ ms) :
    ∃ packets, (run { address } ms).Relayed n f.step (arrivals n { address } ms) packets := by
  have hnew : Unheard n [] { address } := ⟨rfl, rfl, rfl, fun s hs => (nomatch hs)⟩
  have hfaithful := (Faithful.unheard rfl hnew).run (fun k t ht => (nomatch ht)) ms huntapped
  rw [List.nil_append] at hfaithful
  cases hfaithful with
  | unheard hnone => cases hnone.symm.trans hone
  | relayed hone' h =>
    cases hone'.symm.trans hone
    exact ⟨_, h⟩
  | shared hmany =>
    rw [hone] at hmany
    simp at hmany

/-! ## After the end -/

/-- When the forwarder is `gone`, nothing waits and the session is not tracked. -/
theorem Relayed.ended {packets : List (Notify ⊕ Output)} (h : b.Relayed n .gone received packets) :
    b.client.notifies n = [] ∧ b.client.outputs n = [] ∧ n ∉ b.registry.tracked := by
  obtain ⟨s, hs⟩ := h.begun (by simp [ForwardStep.rank])
  have hdue := h.due s hs
  refine ⟨?_, ?_, ?_⟩
  · rw [Client.notifies_of_session? hs]
    exact hdue.notifies (by simp [ForwardStep.rank])
  · rw [Client.outputs_of_session? hs]
    exact hdue.outputs (by simp [ForwardStep.rank])
  · rw [← Client.id_of_session? hs]
    exact hdue.untracked (by simp [ForwardStep.rank])

/-- A forwarder stays when its session is registered again: `forwardersOf` only grows. -/
theorem length_forwardersOf_step (n : Nat) (b : Bridge) (m : Move) :
    (b.forwardersOf n).length ≤ ((b.step m).forwardersOf n).length := by
  cases attended n b m with
  | aside _ hforwarders => rw [hforwarders]
  | registered _ hforwarders => simp [hforwarders]
  | forwarded _ _ _ _ _ _ hforwarders => simp [hforwarders]

/-- `forwardersOf` only grows in a run, too. -/
theorem length_forwardersOf_run (n : Nat) (b : Bridge) (ms : List Move) :
    (b.forwardersOf n).length ≤ ((b.run ms).forwardersOf n).length := by
  induction ms generalizing b with
  | nil => exact Nat.le_refl _
  | cons m ms ih => exact Nat.le_trans (length_forwardersOf_step n b m) (ih (b.step m))

/-- Nothing is `said` about a session after the last notice, unless it is registered again. -/
theorem said_run_of_gone {f' : Forwarder} {ms : List Move} (hone : b.forwardersOf n = [f])
    (hgone : f.step = .gone) (hlater : (b.run ms).forwardersOf n = [f']) :
    (b.run ms).said n = b.said n := by
  induction ms generalizing b with
  | nil => rfl
  | cons m ms ih =>
    cases attended n b m with
    | aside hsaid hforwarders =>
      exact (ih (hforwarders.trans hone) hlater).trans hsaid
    | registered _ hforwarders =>
      -- There would be two forwarders now, and forwarders stay.
      have hlength := length_forwardersOf_run n (b.step m) ms
      have hlater : ((b.step m).run ms).forwardersOf n = [f'] := hlater
      rw [hforwarders, hone, hlater] at hlength
      simp at hlength
    | forwarded hmem _ haction =>
      rw [hone] at hmem
      cases List.mem_singleton.mp hmem
      exact absurd hgone haction.passed_on.1

end Bridge

/-! ## The way to the end -/

/-- A session that is over: nothing comes any more, and it is `terminated`. -/
structure Session.Final (s : Session) : Prop where
  notifies : s.notifies.closed = true
  outputs : s.outputs.closed = true
  stage : s.lifecycle.stage = .terminated

namespace Bridge

variable {b : Bridge} {n : Nat} {f : Forwarder} {g g' : ForwardGround} {step : ForwardStep}
  {s : Session}

/-- How many actions a forwarder has before it when its session is `Final`. -/
def ForwardStep.left (s : Session) (step : ForwardStep) : Nat :=
  s.notifies.items.length + s.outputs.items.length +
    match step with
    | .sleep => 7
    | .pollOutput => 6
    | .pollNotify => 5
    | .drainNotify => 4
    | .drainOutput => 3
    | .awaitEnd => 2
    | .announce => 1
    | .gone => 0

/-- A forwarder leaves a session `Session.Final`. -/
theorem Forwarder.Action.final (h : f.Action g step g') (hfinal : g.session.Final) :
    g'.session.Final := by
  cases h <;> exact ⟨hfinal.notifies, hfinal.outputs, hfinal.stage⟩

/-- Each action of a forwarder on a session that is `Session.Final` leaves fewer of them. -/
theorem Forwarder.Action.left_lt (h : f.Action g step g') (hfinal : g.session.Final) :
    step.left g'.session < f.step.left g.session := by
  cases h with
  | notified _ hitems => simp [ForwardStep.left, ForwardGround.say, hitems]
  | printed hstep hitems =>
    obtain ⟨hstep, rfl⟩ | ⟨hstep, rfl⟩ := hstep
    · simp only [ForwardStep.left, ForwardGround.say, hitems, hstep, List.length_cons]
      omega
    · simp [ForwardStep.left, ForwardGround.say, hitems, hstep]
  | passed _ _ hopen => exact absurd hfinal.notifies (by simp [hopen])
  | slept _ _ hopen => exact absurd hfinal.outputs (by simp [hopen])
  | closed hclosed =>
    obtain ⟨hstep, -⟩ | ⟨hstep, -⟩ := hclosed <;> simp [ForwardStep.left, hstep]
  | woken hstep | drainedNotifies hstep | drainedOutputs hstep | forgot hstep | announced hstep =>
    simp [ForwardStep.left, ForwardGround.say, hstep]

/-- The forwarder of a session that is `Session.Final` is never stuck before it is `gone`. -/
theorem Forwarder.act_of_final (hfinal : g.session.Final) (hgone : f.step ≠ .gone) :
    ∃ step g', f.act g = some (step, g') := by
  rw [act]
  cases hstep : f.step with
  | gone => exact absurd hstep hgone
  | sleep =>
    simp only [stirs, hfinal.notifies, Bool.or_true, Bool.true_or, if_true]
    exact ⟨_, _, rfl⟩
  | awaitEnd =>
    simp only [hfinal.stage, if_true]
    exact ⟨_, _, rfl⟩
  | pollNotify | pollOutput | drainNotify | drainOutput | announce => exact ⟨_, _, rfl⟩

/-- The forwarder of a session that is `Final` acts, and has fewer actions left. -/
theorem exists_forward_left_lt (hone : b.forwardersOf n = [f]) (hs : b.client.session? n = some s)
    (hfinal : s.Final) (hgone : f.step ≠ .gone) :
    ∃ step s', (b.step (.forward f)).forwardersOf n = [⟨n, step⟩] ∧
      (b.step (.forward f)).client.session? n = some s' ∧ s'.Final ∧
      step.left s' < f.step.left s := by
  obtain ⟨hmem, hsession⟩ := List.mem_filter.mp (hone ▸ List.mem_singleton_self f : f ∈ b.forwardersOf n)
  have hsession : f.session = n := by simpa using hsession
  obtain ⟨step, g, hact⟩ : ∃ step g, f.act ⟨s, b.registry, b.outbox⟩ = some (step, g) :=
    Forwarder.act_of_final hfinal hgone
  have haction := Forwarder.acted hact
  have hid : g.session.id = n := haction.id_eq.trans (Client.id_of_session? hs)
  have hforward : b.step (.forward f) = { b with
      client := b.client.putSession g.session
      registry := g.registry
      outbox := g.outbox
      forwarders := b.forwarders.map fun f' =>
        if f'.session = f.session then { f' with step } else f' } := by
    rw [Bridge.step, if_pos hmem, actForwarder, hsession, hs]
    simp only [hact]
    rfl
  refine ⟨step, g.session, ?_, ?_, haction.final hfinal, haction.left_lt hfinal⟩
  · rw [forwardersOf_eq_map (congrArg Bridge.forwarders hforward), if_pos hsession, hone, ← hsession]
    rfl
  · rw [hforward]
    exact (Client.session?_putSession hs g.session hid n).trans (if_pos rfl)

/-- On its own the forwarder of a session that is `Final` comes to be `gone`. -/
theorem exists_forwards_gone (hone : b.forwardersOf n = [f]) (hs : b.client.session? n = some s)
    (hfinal : s.Final) :
    ∃ fs : List Forwarder, (∀ f ∈ fs, f.session = n) ∧
      (b.run (fs.map .forward)).forwardersOf n = [⟨n, .gone⟩] := by
  have hsession : f.session = n := by
    have hmem : f ∈ b.forwardersOf n := hone ▸ List.mem_singleton_self f
    simpa using (List.mem_filter.mp hmem).2
  -- By the number of actions that are left: each takes a packet or comes closer to the end.
  induction hk : f.step.left s using Nat.strong_induction_on generalizing b f s with
  | _ k ih =>
    by_cases hgone : f.step = .gone
    · refine ⟨[], fun f hf => (nomatch hf), hone.trans ?_⟩
      rw [← hgone, ← hsession]
    · obtain ⟨step, s', hone', hs', hfinal', hlt⟩ := exists_forward_left_lt hone hs hfinal hgone
      obtain ⟨fs, hfs, hrun⟩ := ih _ (hk ▸ hlt) hone' hs' hfinal' rfl rfl
      exact ⟨f :: fs, List.forall_mem_cons.mpr ⟨hsession, hfs⟩, hrun⟩

/-! ## Forwarding as a whole -/

/-- Of the packets of a session that was registered once, and whose mailboxes nobody else takes from,
the forwarder makes one notice each. At any time the bridge has said that the session has started and
then passed on packets, namely those that have been received and do not wait any more, for each kind
in the order in which they came. Every notice tells what its packet holds: a notification its name and
the packet as a whole, output its stream and its text. The bridge says once that the session is over,
when nothing waits and the session is not tracked, and nothing after that. Once the session is over
the forwarder needs nobody else to get there. -/
theorem packets_forwarded_once {address : String} {n : Nat} {ms : List Move} {f : Forwarder}
    (hone : (run { address } ms).forwardersOf n = [f])
    (huntapped : ∀ job : Job, job.Takes → .client (.start n job) ∉ ms) :
    let b := run { address } ms
    (∃ (opening : Notice) (packets : List (Notify ⊕ Output)) (notices farewell : List Notice),
      b.said n = (opening :: (notices ++ farewell)).map .notice ∧
      (∃ init, opening.TellsStart n init) ∧
      List.Forall₂ (Notice.TellsPacket n) packets notices ∧
      (arrivals n { address } ms).filterMap Packet.notify? =
        packets.filterMap Sum.getLeft? ++ b.client.notifies n ∧
      (arrivals n { address } ms).filterMap Packet.output? =
        packets.filterMap Sum.getRight? ++ b.client.outputs n ∧
      (f.step ≠ .gone ∧ farewell = [] ∨
        f.step = .gone ∧ (∃ last error, farewell = [last] ∧ last.TellsEnd n error) ∧
          b.client.notifies n = [] ∧ b.client.outputs n = [] ∧ n ∉ b.registry.tracked ∧
          ∀ later f', (run { address } (ms ++ later)).forwardersOf n = [f'] →
            (run { address } (ms ++ later)).said n = b.said n)) ∧
    ∀ s, b.client.session? n = some s → s.Final →
      ∃ fs : List Forwarder, (∀ f ∈ fs, f.session = n) ∧
        (run { address } (ms ++ fs.map .forward)).forwardersOf n = [⟨n, .gone⟩] := by
  intro b
  refine ⟨?_, fun s hs hfinal => ?_⟩
  · obtain ⟨packets, h⟩ := relayed_run hone huntapped
    obtain ⟨init, farewell, hfarewell, hsaid⟩ := h.said
    refine ⟨Rpc.started n init, packets, packets.map (Rpc.passedOn n), farewell, hsaid,
      ⟨init, Rpc.tellsStart_started n init⟩, Rpc.tellsPackets_passedOn n packets, h.notifies, h.outputs,
      ?_⟩
    by_cases hgone : f.step = .gone
    · rw [hgone] at h hfarewell
      obtain ⟨hnotifies, houtputs, huntracked⟩ := h.ended
      refine .inr ⟨hgone, ?_, hnotifies, houtputs, huntracked, fun later f' hlater => ?_⟩
      · cases hfarewell with
        | owed hstep => exact absurd rfl hstep
        | said error => exact ⟨_, error, rfl, Rpc.tellsEnd_terminated n error⟩
      · rw [run_append] at hlater ⊢
        exact said_run_of_gone hone hgone hlater
    · exact .inl ⟨hgone, hfarewell.eq_nil hgone⟩
  · obtain ⟨fs, hfs, hrun⟩ := exists_forwards_gone hone hs hfinal
    exact ⟨fs, hfs, by rw [run_append]; exact hrun⟩

/-- The moves `forward` of the forwarder of the first session, at these steps. -/
def forwards (steps : List ForwardStep) : List Move :=
  steps.map fun step => .forward ⟨1, step⟩

/-- The receiver of the first session acts `count` times. -/
def receives (count : Nat) : List Move :=
  List.replicate count (.client (.receiver 1))

/-- A run in which three packets come, and the forwarder is late: the mailbox of notifications is
closed before it looks for the first time. It empties both mailboxes while the one for output is still
open, and waits at `awaitEnd`. -/
def hurried : List Move :=
  let packets := ["<notify name=\"a\"/>", "<stream type=\"stdout\" encoding=\"base64\">QQ==</stream>",
    "<notify name=\"b\"/>"]
  [Move.client (.attach {}), .register 1] ++
    packets.map (fun p => Move.client (.arrive 1 (.bytes (Frame.encode p)))) ++
    [Move.client (.arrive 1 .ending)] ++ receives 8 ++
    forwards [.pollNotify, .pollNotify, .pollNotify, .drainNotify, .drainOutput, .drainOutput] ++
    receives 4 ++ forwards [.awaitEnd, .announce]

/-- In the run `hurried` three packets are passed on, and the last notice says that the session is
over. -/
theorem packets_forwarded_once_hurried :
    (run { address := "" } hurried).forwardersOf 1 = [⟨1, .gone⟩] ∧
      (∀ job : Job, job.Takes → .client (.start 1 job) ∉ hurried) ∧
      ∃ (opening last : Notice) (packets : List (Notify ⊕ Output)) (notices : List Notice),
        (run { address := "" } hurried).said 1 = (opening :: (notices ++ [last])).map .notice ∧
        (∃ init, opening.TellsStart 1 init) ∧
        List.Forall₂ (Notice.TellsPacket 1) packets notices ∧
        (packets.filterMap Sum.getLeft?).map Notify.name = ["a", "b"] ∧
        packets.filterMap Sum.getRight? = [⟨.stdout, [0x41]⟩] ∧
        (∃ error, last.TellsEnd 1 error) ∧
        1 ∉ (run { address := "" } hurried).registry.tracked := by
  have hone : (run { address := "" } hurried).forwardersOf 1 = [⟨1, .gone⟩] := by decide +kernel
  have huntapped : ∀ job : Job, job.Takes → .client (.start 1 job) ∉ hurried := by
    intro job _
    simp [hurried, forwards, receives]
  have hreceived : ((arrivals 1 { address := "" } hurried).filterMap Packet.notify?).map Notify.name =
        ["a", "b"] ∧
      (arrivals 1 { address := "" } hurried).filterMap Packet.output? = [⟨.stdout, [0x41]⟩] := by
    decide +kernel
  obtain ⟨opening, packets, notices, farewell, hsaid, hopening, hnotices, hnotifies, houtputs, hend⟩ :=
    (packets_forwarded_once hone huntapped).1
  obtain ⟨hstep, -⟩ | ⟨-, ⟨last, error, rfl, hlast⟩, hnoNotify, hnoOutput, huntracked, -⟩ := hend
  · exact absurd rfl hstep
  · rw [hnoNotify, List.append_nil] at hnotifies
    rw [hnoOutput, List.append_nil] at houtputs
    rw [hnotifies, houtputs] at hreceived
    exact ⟨hone, huntapped, opening, last, packets, notices, hsaid, hopening, hnotices, hreceived.1,
      hreceived.2, ⟨error, hlast⟩, huntracked⟩

end Bridge

end Dbgp
