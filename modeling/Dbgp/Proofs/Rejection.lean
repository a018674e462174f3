import Dbgp.Proofs.CallTarget

/-!
# Calls that are rejected

A call whose method, parameters or session do not exist is rejected, and then nothing is done for it
(`Bridge.rejection_leaves_no_trace`). Answers and calls go together by number, so this is about numbers
first: a number is given to one call only, and a pending call or an answer with it has the id of that
call. Whatever is answered later comes from an error of a session, whose codes are different ones; so
a rejection was given at once.
-/

namespace Dbgp

namespace Rpc

/-- The failures of calls for which nothing is done: no such method, parameters that do not fit, no
such session. -/
def Failure.IsRejection (f : Failure) : Prop :=
  f.code ∈ [-32601, -32602, -32003]

/-- An error of a session is no rejection. -/
theorem Failure.not_isRejection_ofError (e : Error) : ¬ (ofError e).IsRejection := by
  cases e with
  | remote | timeout | terminated | transport | protocol =>
    simp only [IsRejection, ofError, codeOf]
    decide

/-- A JSON value answers the call with an id: it has this id, and either a result or an error. -/
structure Answers (id v : Json) : Prop where
  id : v.get? "id" = some id
  either : (v.get? "result").isSome = !(v.get? "error").isSome

/-- What `Answer.toJson` writes answers the call with its id. -/
theorem Answer.answers (a : Answer) : Answers a.id a.toJson := by
  obtain ⟨id, result | failure⟩ := a
  · constructor <;> simp [Answer.toJson, Json.get?_object, Json.lookup]
  · constructor <;> simp [Answer.toJson, Json.get?_object, Json.lookup]

/-- What `Message.line` writes on the line of an answer. -/
theorem Message.exists_line (serial : Nat) (a : Answer) :
    ∃ v, Message.line (.answer serial a) = Json.write v ∧ Answers a.id v := by
  refine ⟨_, rfl, ?_⟩
  obtain ⟨id, result | failure⟩ := a
  · constructor <;> simp [Json.get?, Json.lookup]
  · constructor <;> simp [Json.get?, Json.lookup]

end Rpc

namespace Bridge

open Rpc (Call Failure Answer)

variable {b : Bridge} {serial : Nat} {id : Json}

/-! ## Numbers of calls -/

/-- What the bridge does besides taking calls and answering them has no part in either. -/
structure Quiet (b b' : Bridge) : Prop where
  nextSerial : b'.nextSerial = b.nextSerial
  pending : b'.pending = b.pending
  outbox : ∀ serial a, .answer serial a ∈ b'.outbox → .answer serial a ∈ b.outbox

/-- Doing nothing is `Quiet`. -/
theorem Quiet.refl (b : Bridge) : Quiet b b :=
  ⟨rfl, rfl, fun _ _ h => h⟩

/-- Every move takes a call, gives an answer, or is `Quiet`. -/
theorem quiet_step (b : Bridge) (m : Move) :
    (∃ c, m = .call c) ∨ m = .answer ∨ Quiet b (b.step m) := by
  cases m with
  | call c => exact .inl ⟨c, rfl⟩
  | answer => exact .inr (.inl rfl)
  | client m => exact .inr (.inr ⟨rfl, rfl, fun _ _ h => h⟩)
  | register n => exact .inr (.inr ⟨rfl, rfl, fun _ _ => mem_of_mem_concat_notice⟩)
  | greet =>
    refine .inr (.inr ?_)
    obtain h | ⟨k, e, rest, -, h⟩ | ⟨k, n, rest, -, h⟩ := b.greeted
    · rw [h]
      exact .refl b
    · rw [h]
      exact ⟨rfl, rfl, fun _ _ h => h⟩
    · rw [h]
      exact ⟨rfl, rfl, fun _ _ => mem_of_mem_concat_notice⟩
  | forward f =>
    refine .inr (.inr ?_)
    obtain h | ⟨s, step, g, -, -, haction, h⟩ := b.forwarded f
    · rw [h]
      exact .refl b
    · rw [h]
      exact ⟨rfl, rfl, fun _ _ => haction.mem_outbox⟩

/-- A call takes the number `nextSerial`, with which it is answered at once or pending. -/
theorem called_number (b : Bridge) (c : Call) : (b.call c).nextSerial = b.nextSerial + 1 ∧
    (∀ p ∈ (b.call c).pending, p ∈ b.pending ∨ p.serial = b.nextSerial ∧ p.id = c.id) ∧
    ∀ serial a, .answer serial a ∈ (b.call c).outbox → .answer serial a ∈ b.outbox ∨
      serial = b.nextSerial ∧ a.id = c.id ∧
        ∀ f, a.outcome = .error f → b.call c = b.replied c (.error f) := by
  have hcalled := b.calledAs c
  generalize b.call c = b' at hcalled
  cases hcalled with
  | refused f =>
    refine ⟨rfl, fun p hp => .inl hp, fun serial a ha => ?_⟩
    obtain ha | ha := List.mem_append.mp ha
    · exact .inl ha
    · cases List.mem_singleton.mp ha
      refine .inr ⟨rfl, rfl, ?_⟩
      rintro f ⟨⟩
      rfl
  | told v | selected =>
    refine ⟨rfl, fun p hp => .inl hp, fun serial a ha => ?_⟩
    obtain ha | ha := List.mem_append.mp ha
    · exact .inl ha
    · cases List.mem_singleton.mp ha
      exact .inr ⟨rfl, rfl, by rintro f ⟨⟩⟩
  | started shown =>
    refine ⟨rfl, fun p hp => ?_, fun serial a ha => .inl ha⟩
    obtain hp | hp := List.mem_append.mp hp
    · exact .inl hp
    · rw [List.mem_singleton.mp hp]
      exact .inr ⟨rfl, rfl⟩

/-- An answer that comes later is to a pending call, and its failure is an error of a session. -/
theorem answered_number (b : Bridge) : (b.step .answer).nextSerial = b.nextSerial ∧
    (∀ p ∈ (b.step .answer).pending, p ∈ b.pending) ∧
    ∀ serial a, .answer serial a ∈ (b.step .answer).outbox → .answer serial a ∈ b.outbox ∨
      ∃ p ∈ b.pending, serial = p.serial ∧ a.id = p.id ∧
        ∀ f, a.outcome = .error f → ∃ e, f = .ofError e := by
  obtain h | ⟨k, result, rest, -, h | ⟨p, hp, -, h⟩⟩ := b.answered
  · rw [h]
    exact ⟨rfl, fun p hp => hp, fun serial a ha => .inl ha⟩
  · rw [h]
    exact ⟨rfl, fun p hp => hp, fun serial a ha => .inl ha⟩
  · rw [h]
    refine ⟨rfl, fun p hp => (List.mem_filter.mp hp).1, fun serial a ha => ?_⟩
    obtain ha | ha := List.mem_append.mp ha
    · exact .inl ha
    · cases List.mem_singleton.mp ha
      refine .inr ⟨p, hp, rfl, rfl, fun f hf => ?_⟩
      cases result with
      | ok reply => cases hf
      | error e =>
        cases hf
        exact ⟨e, rfl⟩

/-- Every number that is in use was given to a call. -/
structure Numbered (b : Bridge) : Prop where
  pending : ∀ p ∈ b.pending, p.serial < b.nextSerial
  answered : ∀ serial a, .answer serial a ∈ b.outbox → serial < b.nextSerial

/-- One move keeps the numbers of calls in use. -/
theorem Numbered.step (h : b.Numbered) (m : Move) : (b.step m).Numbered := by
  obtain ⟨c, rfl⟩ | rfl | hquiet := b.quiet_step m
  · obtain ⟨hnext, hpending, houtbox⟩ := b.called_number c
    refine ⟨fun p hp => ?_, fun serial a ha => ?_⟩
    · show p.serial < (b.call c).nextSerial
      rw [hnext]
      obtain hp | ⟨hserial, -⟩ := hpending p hp
      · exact Nat.lt_succ_of_lt (h.pending p hp)
      · omega
    · show serial < (b.call c).nextSerial
      rw [hnext]
      obtain ha | ⟨hserial, -⟩ := houtbox serial a ha
      · exact Nat.lt_succ_of_lt (h.answered serial a ha)
      · omega
  · obtain ⟨hnext, hpending, houtbox⟩ := b.answered_number
    refine ⟨fun p hp => ?_, fun serial a ha => ?_⟩
    · rw [hnext]
      exact h.pending p (hpending p hp)
    · rw [hnext]
      obtain ha | ⟨p, hp, rfl, -⟩ := houtbox serial a ha
      · exact h.answered serial a ha
      · exact h.pending p hp
  · refine ⟨fun p hp => ?_, fun serial a ha => ?_⟩
    · rw [hquiet.nextSerial]
      exact h.pending p (hquiet.pending ▸ hp)
    · rw [hquiet.nextSerial]
      exact h.answered serial a (hquiet.outbox serial a ha)

/-- A bridge is `Numbered` after every run. -/
theorem numbered_run (address : String) (ms : List Move) : (run { address } ms).Numbered := by
  induction ms using List.reverseRecOn with
  | nil => exact ⟨fun _ h => (nomatch h), fun _ _ h => (nomatch h)⟩
  | append_singleton ms m ih =>
    rw [run_append]
    exact ih.step m

/-! ## Answers to one call -/

/-- All that is pending or answered under a number has the id of one call, and what it failed of is an
error of a session or was said at once. -/
structure Attends (serial : Nat) (id : Json) (P : Failure → Prop) (b : Bridge) : Prop where
  given : serial < b.nextSerial
  pending : ∀ p ∈ b.pending, p.serial = serial → p.id = id
  answered : ∀ a, .answer serial a ∈ b.outbox → a.id = id ∧
    ∀ f, a.outcome = .error f → (∃ e, f = .ofError e) ∨ P f

variable {P : Failure → Prop}

/-- One move keeps what `Attends` says of a number. -/
theorem Attends.step (h : b.Attends serial id P) (m : Move) : (b.step m).Attends serial id P := by
  have hgiven := h.given
  obtain ⟨c, rfl⟩ | rfl | hquiet := b.quiet_step m
  · obtain ⟨hnext, hpending, houtbox⟩ := b.called_number c
    refine ⟨?_, fun p hp hserial => ?_, fun a ha => ?_⟩
    · show serial < (b.call c).nextSerial
      omega
    · obtain hp | ⟨hnew, -⟩ := hpending p hp
      · exact h.pending p hp hserial
      · omega
    · obtain ha | ⟨hnew, -⟩ := houtbox serial a ha
      · exact h.answered a ha
      · omega
  · obtain ⟨hnext, hpending, houtbox⟩ := b.answered_number
    refine ⟨by omega, fun p hp hserial => h.pending p (hpending p hp) hserial, fun a ha => ?_⟩
    obtain ha | ⟨p, hp, hserial, hid, hfailure⟩ := houtbox serial a ha
    · exact h.answered a ha
    · refine ⟨hid.trans (h.pending p hp hserial.symm), fun f hf => .inl (hfailure f hf)⟩
  · refine ⟨?_, fun p hp hserial => ?_, fun a ha => ?_⟩
    · rw [hquiet.nextSerial]
      exact hgiven
    · exact h.pending p (hquiet.pending ▸ hp) hserial
    · exact h.answered a (hquiet.outbox serial a ha)

/-- A whole run keeps it. -/
theorem Attends.run (h : b.Attends serial id P) (ms : List Move) : (b.run ms).Attends serial id P := by
  induction ms generalizing b with
  | nil => exact h
  | cons m ms ih => exact ih (h.step m)

/-- A call begins what `Attends` says of its number. -/
theorem attends_call (h : b.Numbered) (c : Call) :
    (b.call c).Attends b.nextSerial c.id fun f => b.call c = b.replied c (.error f) := by
  obtain ⟨hnext, hpending, houtbox⟩ := b.called_number c
  refine ⟨by omega, fun p hp hserial => ?_, fun a ha => ?_⟩
  · obtain hp | ⟨-, hid⟩ := hpending p hp
    · exact absurd hserial (Nat.ne_of_lt (h.pending p hp))
    · exact hid
  · obtain ha | ⟨-, hid, hfailure⟩ := houtbox _ a ha
    · exact absurd (h.answered _ a ha) (Nat.lt_irrefl _)
    · exact ⟨hid, fun f hf => .inr (hfailure f hf)⟩

/-- Whatever happens after a call, an answer to it has its id and either a result or an error. If it
is rejected, nothing else is done than to say so. -/
theorem rejection_leaves_no_trace {address : String} {before after : List Move} {c : Call} {a : Answer}
    (h : .answer (run { address } before).nextSerial a ∈
      (((run { address } before).call c).run after).outbox) :
    let b := run { address } before
    a.id = c.id ∧ Rpc.Answers c.id a.toJson ∧
      (∃ v, Rpc.Message.line (.answer b.nextSerial a) = Json.write v ∧ Rpc.Answers c.id v) ∧
      ∀ f, a.outcome = .error f → f.IsRejection →
        b.call c = { b with
          nextSerial := b.nextSerial + 1
          outbox := b.outbox ++ [.answer b.nextSerial a] } := by
  intro b
  have hattends := (attends_call (numbered_run address before) c).run after
  obtain ⟨hid, hfailure⟩ := hattends.answered a h
  refine ⟨hid, hid ▸ a.answers, hid ▸ Rpc.Message.exists_line b.nextSerial a, fun f hf hrejected => ?_⟩
  obtain ⟨e, rfl⟩ | hcall := hfailure f hf
  · exact absurd hrejected (Failure.not_isRejection_ofError e)
  · obtain ⟨id, outcome⟩ := a
    cases hid
    cases hf
    exact hcall

/-- A call that names a session which is not there. -/
def statusOfNone : Call where
  version := "2.0"
  id := .str "x"
  method := "status"
  params := some (.arr [.int 9])

/-- Two sessions are there, and another call comes next. -/
theorem rejection_leaves_no_trace_none :
    let b := run { address := "" } twoAttached
    let a : Answer := ⟨.str "x", .error (.noSession 9)⟩
    .answer b.nextSerial a ∈ ((b.call statusOfNone).run [.call statusOfFirst, .answer]).outbox ∧
      (Failure.noSession 9).IsRejection ∧
      b.call statusOfNone = { b with
        nextSerial := b.nextSerial + 1
        outbox := b.outbox ++ [.answer b.nextSerial a] } := by
  intro b a
  have hsaid : .answer b.nextSerial a ∈
      ((b.call statusOfNone).run [.call statusOfFirst, .answer]).outbox :=
    List.mem_of_getElem? (i := 2) rfl
  have hrejected : (Failure.noSession 9).IsRejection := by
    show (-32003 : Int32) ∈ _
    decide
  exact ⟨hsaid, hrejected, (rejection_leaves_no_trace hsaid).2.2.2 _ rfl hrejected⟩

end Bridge

end Dbgp
