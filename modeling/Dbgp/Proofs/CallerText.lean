import Dbgp.Proofs.Emission
import Dbgp.Proofs.RequestStream
import Dbgp.Proofs.Scheduling

/-!
# Texts of callers on the wire

Requests are written as lines, and a zero octet ends each of them. Expressions and values of
properties are encoded by `Command.argument` before they are put into a request, but names, numbers of
breakpoints, files, functions and exceptions go into it as the caller of the bridge wrote them, and
nothing checks them.

The main statement says what that comes to. In every run of a bridge, what a call writes reads back as
the requests that were made for it just in case none of these texts holds a line break or a zero
character. Otherwise the texts can say anything: at the end is a call of `property/get` that makes an
engine stop.
-/

namespace Dbgp

open Request (Plain)

/-! ## Reading back -/

/-- The texts that go into the requests of a job as they are. -/
def Job.texts : Job → List String
  | .command c => c.texts
  | _ => []

/-- The negotiation is `Legible`. -/
theorem Command.Prelude.legible {c : Command} {qs : List Request} (h : c.Prelude qs) :
    ∀ r ∈ qs, r.Legible := by
  cases h with
  | nothing => exact fun r hr => absurd hr List.not_mem_nil
  | @negotiation u =>
    intro r hr
    rw [List.mem_singleton] at hr
    subst hr
    exact (Command.legible_request_iff rfl u).mpr (by decide)

/-- Every request of a job that is awaited is `Tagged` and has a response. -/
theorem Job.Builds.headed {job : Job} {rs : List Request}
    (hjob : ∀ c, job = .command c → c.IsAwaited) (h : job.Builds rs) :
    ∀ r ∈ rs, r.Tagged ∧ r.isAsync = false := by
  have hcommand : ∀ (c : Command) (t : UInt32), c.isAsync = false →
      (c.request t).Tagged ∧ (c.request t).isAsync = false := by
    intro c t hc
    have hheaded := c.headed_request t
    exact ⟨hheaded.tagged, hheaded.isAsync.trans hc⟩
  cases h with
  | silent => exact fun r hr => absurd hr List.not_mem_nil
  | @command c qs t hqs =>
    intro r hr
    rw [List.mem_append, List.mem_singleton] at hr
    obtain hr | rfl := hr
    · cases hqs with
      | nothing => exact absurd hr List.not_mem_nil
      | negotiation =>
        rw [List.mem_singleton] at hr
        subst hr
        exact hcommand _ _ rfl
    · exact hcommand c t (hjob c rfl).2

/-- The requests of a job are read back exactly if the texts that go into them as they are are
`Plain`. -/
theorem Job.Builds.decodeAll_iff {job : Job} {rs : List Request}
    (hjob : ∀ c, job = .command c → c.IsAwaited) (h : job.Builds rs) :
    Request.decodeAll (rs.flatMap Request.encode) = rs.map .ok ↔
      ∀ text ∈ job.texts, Plain text := by
  have hheaded := h.headed hjob
  have hall : (∀ r ∈ rs, r.Legible) ↔ ∀ text ∈ job.texts, Plain text := by
    cases h with
    | silent hsilent =>
      cases job with
      | command c => exact absurd rfl (hsilent c)
      | _ => simp [Job.texts]
    | @command c qs t hqs =>
      rw [List.forall_mem_append, List.forall_mem_singleton,
        Command.legible_request_iff (hjob c rfl).1]
      exact and_iff_right hqs.legible
  have hread := Request.decodeAll_encode_iff fun r hr => (hheaded r hr).1
  rw [List.map_congr_left (g := .ok)] at hread
  · exact hread.trans hall
  · intro r hr
    rw [← (hheaded r hr).2]

/-! ## Calls -/

namespace Bridge

/-- A move is the action of a task. -/
def Move.isOf (k : Nat) : Move → Bool
  | .client (.task j) => j = k
  | _ => false

/-- The octets that a task adds to those of a session in a run. -/
def sent (n k : Nat) (b : Bridge) : List Move → List UInt8
  | [] => []
  | m :: ms =>
    let b' := b.step m
    let added := (b'.client.written n).drop (b.client.written n).length
    (if m.isOf k then added else []) ++ sent n k b' ms

/-- A move of a bridge keeps the account of a task (`Client.Accounted`). -/
theorem accounted_step {n k : Nat} {job : Job} {v : List UInt8} {b : Bridge}
    (h : b.client.Accounted n k job v) (m : Move) :
    (b.step m).client.Accounted n k job
      (v ++ if m.isOf k then ((b.step m).client.written n).drop (b.client.written n).length
        else []) := by
  cases hm : m.isOf k with
  | true =>
    have htask : m = .client (.task k) := by
      unfold Move.isOf at hm
      split at hm
      · rw [decide_eq_true_eq] at hm
        rw [hm]
      · cases hm
    rw [htask]
    exact h.step_task
  | false =>
    rw [if_neg Bool.false_ne_true, List.append_nil]
    obtain ⟨m', es, heffect, hown⟩ := effect b m
    refine h.effect heffect ?_
    intro hm'
    rw [hown k hm'] at hm
    simp [Move.isOf] at hm

/-- A run of a bridge keeps the account of a task, with what it has `sent`. -/
theorem accounted_run {n k : Nat} {job : Job} {v : List UInt8} {b : Bridge}
    (h : b.client.Accounted n k job v) (ms : List Move) :
    (b.run ms).client.Accounted n k job (v ++ b.sent n k ms) := by
  induction ms generalizing b v with
  | nil =>
    rw [sent, List.append_nil]
    exact h
  | cons m ms ih =>
    rw [sent, ← List.append_assoc]
    exact ih (accounted_step h m)

/-- The actions that take a job are those with a command and the end of a session. -/
theorem begin_eq_started {b : Bridge} {action : Action} {n : Nat} {job : Job}
    {shown : Reply → Json} (h : b.begin action = .started n job shown) :
    ∃ named, b.target named = .ok n ∧ (action = .terminate named ∧ job = .terminate ∨
      ∃ c s, action = .command named c s ∧ job = .command c) := by
  unfold begin at h
  split at h
  · cases h
  · cases h
  · split at h <;> cases h
  · next named =>
    split at h
    · cases h
    · next htarget =>
      cases h
      exact ⟨named, htarget, .inl ⟨rfl, rfl⟩⟩
  · next named c s =>
    split at h
    · cases h
    · next htarget =>
      cases h
      exact ⟨named, htarget, .inr ⟨c, s, rfl, rfl⟩⟩

/-- A call that begins a job starts a task with it (`Client.start`). -/
theorem client_call_of_begin {b : Bridge} {c : Rpc.Call} {action : Action} {n : Nat} {job : Job}
    {shown : Reply → Json} (hcall : Action.ofCall c.method c.params = .ok action)
    (hbegin : b.begin action = .started n job shown) :
    (b.call c).client = (b.client.start n job).2 := by
  obtain ⟨named, htarget, hjob⟩ := begin_eq_started hbegin
  have htarget' : target named { b with nextSerial := b.nextSerial + 1 } = .ok n := htarget
  rw [call, hcall]
  obtain ⟨rfl, rfl⟩ | ⟨c, s, rfl, rfl⟩ := hjob
  · simp only [begin, htarget']
  · simp only [begin, htarget']

/-- What a call writes is a start of the requests that are made for it, and all of them once its
response is awaited. They read back as they were made just in case all texts of the caller that go
into them are plain, and then no other request is ever read. -/
theorem sent_read_back_iff {address : String} {before : List Move} {c : Rpc.Call} {action : Action}
    {n : Nat} {job : Job} {shown : Reply → Json}
    (hcall : Action.ofCall c.method c.params = .ok action)
    (hbegin : (run { address } before).begin action = .started n job shown) (after : List Move) :
    let b := run { address } before
    let k := b.client.nextTask
    let octets := (b.call c).sent n k after
    ∃ rs, job.Builds rs ∧ octets <+: rs.flatMap Request.encode ∧
      (∀ t x w, ((b.call c).run after).client.task? k = some t → t.phase = .exchange x →
        x.phase = .await w → octets = rs.flatMap Request.encode) ∧
      (Request.decodeAll (rs.flatMap Request.encode) = rs.map .ok ↔
        ∀ text ∈ job.texts, Plain text) ∧
      ((∀ text ∈ job.texts, Plain text) → Request.decodeAll octets <+: rs.map .ok) := by
  intro b k octets
  have hawaited : ∀ c, job = .command c → c.IsAwaited := by
    have haction := Action.awaited_of_ofCall hcall
    obtain ⟨named, -, ⟨rfl, rfl⟩ | ⟨c, s, rfl, rfl⟩⟩ := begin_eq_started hbegin
    · rintro _ ⟨⟩
    · rintro _ ⟨⟩
      exact haction
  have hstarted : (b.call c).client.Accounted n k job [] := by
    have hdistinct : b.client.Distinct := distinct_run Client.distinct_new before
    rw [client_call_of_begin hcall hbegin]
    exact Client.accounted_start hdistinct.task?_nextTask n job
  have haccounted : ((b.call c).run after).client.Accounted n k job octets :=
    accounted_run hstarted after
  have hread : ∀ {rs}, job.Builds rs → octets <+: rs.flatMap Request.encode →
      (∀ text ∈ job.texts, Plain text) → Request.decodeAll octets <+: rs.map .ok := by
    rintro rs hbuilds ⟨more, hmore⟩ hplain
    rw [← (hbuilds.decodeAll_iff hawaited).mpr hplain, ← hmore]
    exact Request.decodeAll_append octets more
  -- Which requests were made is settled only by the time the response is awaited. Until then any
  -- that begin with these octets will do.
  by_cases hwaits : ∃ t x w, ((b.call c).run after).client.task? k = some t ∧
      t.phase = .exchange x ∧ x.phase = .await w
  · obtain ⟨t, x, w, ht, hphase, hw⟩ := hwaits
    obtain ⟨-, -, huttered⟩ := haccounted.uttered t ht
    rw [hphase] at huttered
    obtain ⟨rs, hbuilds, hall⟩ := huttered.builds hw
    have hstart : octets <+: rs.flatMap Request.encode := hall ▸ List.prefix_rfl
    exact ⟨rs, hbuilds, hstart, fun _ _ _ _ _ _ => hall, hbuilds.decodeAll_iff hawaited,
      hread hbuilds hstart⟩
  · obtain ⟨rs, hbuilds, hstart⟩ := haccounted.starts
    refine ⟨rs, hbuilds, hstart, ?_, hbuilds.decodeAll_iff hawaited, hread hbuilds hstart⟩
    intro t x w ht hphase hw
    exact absurd ⟨t, x, w, ht, hphase, hw⟩ hwaits

/-! A session is there, and a caller asks for a property under a name that holds both separators. The
name goes on where the request should end: with another command, which the engine takes for one of
the debugger's. -/

/-- The moves before the call. -/
def attached : List Move :=
  [.client (.attach {}), .register 1]

/-- A call for a property. -/
def brokenName : Rpc.Call where
  version := "2.0"
  id := .int 1
  method := "property/get"
  params := some (.obj [("name", .str "x\x00stop\n-i\n9")])

/-- The task of the call acts until it awaits the response. -/
def spoken : List Move :=
  List.replicate 7 (.client (.task 1))

/-- The call makes one request, which is not what the engine reads. -/
theorem sent_read_back_iff_broken_name :
    ∃ rs, (Job.command (.getProperty "x\x00stop\n-i\n9" none none)).Builds rs ∧
      ((run { address := "" } attached).call brokenName).sent 1 1 spoken =
        rs.flatMap Request.encode ∧
      Request.decodeAll (rs.flatMap Request.encode) ≠ rs.map .ok := by
  have hcall : Action.ofCall brokenName.method brokenName.params =
      .ok (.command none (.getProperty "x\x00stop\n-i\n9" none none) .reply) := rfl
  have hbegin : (run { address := "" } attached).begin
      (.command none (.getProperty "x\x00stop\n-i\n9" none none) .reply) =
      .started 1 (.command (.getProperty "x\x00stop\n-i\n9" none none)) (Shown.json .reply) := rfl
  obtain ⟨rs, hbuilds, -, hall, hread, -⟩ := sent_read_back_iff hcall hbegin spoken
  refine ⟨rs, hbuilds, hall _ _ _ rfl rfl rfl, ?_⟩
  rw [ne_eq, hread]
  decide

/-- The engine is asked for another property, and then told to stop. -/
theorem sent_of_broken_name :
    Request.decodeAll (((run { address := "" } attached).call brokenName).sent 1 1 spoken) =
      [.ok ((Command.getProperty "x" none none).request 1),
        .ok ((Command.proceed .stop).request 9)] := by
  decide +kernel

end Bridge

end Dbgp
