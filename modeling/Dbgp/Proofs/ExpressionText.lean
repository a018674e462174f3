import Dbgp.Proofs.CommandRequest
import Dbgp.Proofs.Emission
import Dbgp.Proofs.RequestArrival
import Dbgp.Proofs.Scheduling

/-!
# Expressions on the wire

An expression to evaluate and a value to assign are texts of the caller that may hold anything. They go
into the request as Base64, whose alphabet has none of the characters that mean something there, and the
length of that form goes with them. The engine therefore reads one request, and reads the text from its
only argument (`Command.expression_read_exactly`). This holds of the empty text too: its argument is an
empty line, and the last newline of a request is not taken for it.

What a call writes is at every moment a start of that request, and all of it once the response is awaited
(`Client.sent_of_carries`).
-/

namespace Dbgp

open Text (Numeral.write)

namespace Command

open Request (Plain)

/-- An option with a number, if there is one. -/
def numbered (flag : String) (n : Option UInt32) : List (String × String) :=
  (n.map fun w => (flag, Numeral.write w.toNat)).toList

/-- The commands that carry a text for the engine to evaluate: the name of the command on the wire,
its options besides transaction and length, and the text. A name may not hold a separator, because it
goes into the request as it is. -/
inductive Carries : Command → String → List (String × String) → String → Prop
  | evaluate (expression : String) : Carries (.evaluate expression) "eval" [] expression
  | setProperty {name : String} (value : String) (depth context : Option UInt32) : Plain name →
      Carries (.setProperty name value depth context) "property_set"
        (("-n", name) :: (numbered "-d" depth ++ numbered "-c" context)) value

/-- The request with one argument and its length, as the engine reads it. -/
def carrying (command : String) (t : UInt32) (options : List (String × String)) (a : String) :
    Request where
  command := command
  transaction := t
  options := (Request.transactionFlag, Numeral.write t.toNat) ::
    (options ++ [("-l", Numeral.write (Text.Utf8.encode a).length)])
  arguments := [a]
  isAsync := false

variable {c c' : Command} {command command' text text' : String}
  {options options' : List (String × String)}

/-- `inFrame` adds depth and context after the other options. -/
theorem options_inFrame (r : Request) (depth context : Option UInt32) :
    (inFrame r depth context).options = r.options ++ (numbered "-d" depth ++ numbered "-c" context) := by
  simp only [inFrame, Request.withOptionalNumber, Request.options_withOptional, Option.map_map,
    List.append_assoc]
  rfl

/-- `inFrame` adds options and nothing else. -/
theorem inFrame_eq (r : Request) (depth context : Option UInt32) : inFrame r depth context =
    { r with options := r.options ++ (numbered "-d" depth ++ numbered "-c" context) } := by
  rw [← options_inFrame]
  cases depth <;> cases context <;> rfl

/-- The request of a command that `Carries` a text, in full. -/
theorem Carries.request_eq (h : c.Carries command options text) (t : UInt32) :
    c.request t = carrying command t options (argument text) := by
  cases h with
  | evaluate expression => rfl
  | setProperty value depth context _ =>
    rw [request, inFrame_eq]
    rfl

/-- It is `Legible`, whatever the text is. -/
theorem Carries.legible (h : c.Carries command options text) (t : UInt32) :
    (c.request t).Legible := by
  cases h with
  | evaluate expression => exact (legible_request_iff rfl t).mpr (by simp [texts])
  | setProperty value depth context hname =>
    exact (legible_request_iff rfl t).mpr (by simpa [texts] using hname)

/-- The octets of the request are one frame, which `Request.decodeAll` reads as the request. -/
theorem Carries.decodeAll_encode (h : c.Carries command options text) (t : UInt32) :
    Request.decodeAll (c.request t).encode = [.ok (carrying command t options (argument text))] := by
  have htagged := (c.headed_request t).tagged
  have hread := (Request.decodeAll_encode_iff (List.forall_mem_singleton.mpr htagged)).mpr
    (List.forall_mem_singleton.mpr (h.legible t))
  rw [List.flatMap_singleton, List.map_singleton, h.request_eq t] at hread
  rw [h.request_eq t]
  exact hread

/-- The text is in the argument, by `Text.Base64.decode`. -/
theorem decode_argument (text : String) :
    Text.Base64.decode (argument text) = .ok (Text.Utf8.encode text) :=
  Text.Base64.decode_encode _

/-- Different texts make different arguments. -/
theorem argument_inj {s s' : String} (h : argument s = argument s') : s = s' := by
  have hdecode := congrArg Text.Base64.decode h
  rw [decode_argument, decode_argument] at hdecode
  exact String.toList_inj.mp (Text.Utf8.encodeChars_inj (Except.ok.inj hdecode))

/-- A request with one argument is decided by its parts, and these by it. -/
theorem carrying_inj {t t' : UInt32} {a a' : String}
    (h : carrying command t options a = carrying command' t' options' a') :
    command = command' ∧ t = t' ∧ options = options' ∧ a = a' := by
  simp only [carrying, Request.mk.injEq, List.cons.injEq, and_true] at h
  obtain ⟨hcommand, ht, ⟨-, hoptions⟩, ha⟩ := h
  subst ha
  exact ⟨hcommand, ht, List.append_cancel_right hoptions, rfl⟩

/-- Two requests with the same octets carry the same text. -/
theorem Carries.encode_inj (h : c.Carries command options text)
    (h' : c'.Carries command' options' text') {t t' : UInt32}
    (hsame : (c.request t).encode = (c'.request t').encode) :
    command = command' ∧ t = t' ∧ options = options' ∧ text = text' := by
  have hread := congrArg Request.decodeAll hsame
  rw [h.decodeAll_encode, h'.decodeAll_encode] at hread
  obtain ⟨hcommand, ht, hoptions, ha⟩ :=
    carrying_inj (Except.ok.inj (List.singleton_injective hread))
  exact ⟨hcommand, ht, hoptions, argument_inj ha⟩

end Command

/-! ## Calls -/

namespace Client

variable {c : Client} {n k : Nat} {job : Job} {v : List UInt8}

/-- The octets that a task adds to those of a session in a run. -/
def sent (n k : Nat) (c : Client) : List Move → List UInt8
  | [] => []
  | .task j :: ms =>
    (if j = k then ((c.step (.task j)).written n).drop (c.written n).length else []) ++
      sent n k (c.step (.task j)) ms
  | m :: ms => sent n k (c.step m) ms

/-- What a task has written grows by what it has `sent`. -/
theorem Accounted.sent (h : c.Accounted n k job v) (ms : List Move) :
    (c.run ms).Accounted n k job (v ++ c.sent n k ms) := by
  fun_induction Client.sent n k c ms generalizing v with
  | case1 c =>
    rw [List.append_nil]
    exact h
  | case2 c j ms ih =>
    rw [← List.append_assoc]
    apply ih
    split
    · next hj =>
      subst hj
      exact h.step_task
    · next hj =>
      rw [List.append_nil]
      apply h.effect (Client.effect c (.task j))
      intro hm
      exact hj (Move.task.inj hm)
  | case3 c m ms hm ih => exact ih (h.effect (Client.effect c m) (hm k))

/-- A call writes a start of the request of its command (`sent`), and all of it by the time it awaits
the response. -/
theorem sent_of_carries {cmd : Command} {command text : String} {options : List (String × String)}
    (h : cmd.Carries command options text) (n : Nat) (before after : List Move) :
    let c := (run {} before).step (.start n (.command cmd))
    let octets := c.sent n (run {} before).nextTask after
    ∃ t, octets <+: (cmd.request t).encode ∧
      ∀ task x w, (c.run after).task? (run {} before).nextTask = some task →
        task.phase = .exchange x → x.phase = .await w → octets = (cmd.request t).encode := by
  intro c octets
  have hnegotiates : cmd.negotiates = false := by cases h <;> rfl
  -- Without a negotiation there is only the request of the command.
  have hbuilds : ∀ {rs}, (Job.command cmd).Builds rs →
      ∃ t, rs.flatMap Request.encode = (cmd.request t).encode := by
    intro rs hrs
    cases hrs with
    | @command _ qs t hqs =>
      cases hqs with
      | nothing => exact ⟨t, by rw [List.nil_append, List.flatMap_singleton]⟩
      | negotiation hneeds => cases hnegotiates.symm.trans hneeds
    | silent hsilent => exact absurd rfl (hsilent cmd)
  have hfresh := (distinct_new.run before).task?_nextTask
  have haccounted := (accounted_start hfresh n (.command cmd)).sent after
  rw [List.nil_append] at haccounted
  by_cases hwaits : ∃ task x w, (c.run after).task? (run {} before).nextTask = some task ∧
      task.phase = .exchange x ∧ x.phase = .await w
  · obtain ⟨task, x, w, htask, hphase, hw⟩ := hwaits
    obtain ⟨-, -, huttered⟩ := haccounted.uttered task htask
    rw [hphase] at huttered
    obtain ⟨rs, hrs, hall⟩ := huttered.builds hw
    obtain ⟨t, ht⟩ := hbuilds hrs
    have hoctets : octets = (cmd.request t).encode := hall.trans ht
    exact ⟨t, hoctets ▸ List.prefix_rfl, fun _ _ _ _ _ _ => hoctets⟩
  · obtain ⟨rs, hrs, hstart⟩ := haccounted.starts
    obtain ⟨t, ht⟩ := hbuilds hrs
    refine ⟨t, ht ▸ hstart, fun task x w htask hphase hw => ?_⟩
    exact absurd ⟨task, x, w, htask, hphase, hw⟩ hwaits

end Client

namespace Command

open Client (run)

variable {c : Command} {command text : String} {options : List (String × String)}

/-- A text to evaluate reaches the engine exactly, whatever it holds. A call with it writes the octets
of its request and nothing else. However these are cut into chunks, the engine reads one request: the
command with its transaction, its options in order, the length of the argument last, and one argument
whose Base64 is the text. So calls that write the same octets have the same command, transaction,
options and text. -/
theorem expression_read_exactly (h : c.Carries command options text) :
    ∃ a, Text.Base64.decode a = .ok (Text.Utf8.encode text) ∧
      (∀ t chunks delay, (chunks.flatMap fun chunk => chunk.2) = (c.request t).encode →
        (Schedule.ofChunks chunks delay).readRequests =
          [some (.ok (some ⟨command, t, ("-i", Numeral.write t.toNat) ::
            (options ++ [("-l", Numeral.write (Text.Utf8.encode a).length)]), [a], false⟩)),
           some (.ok none)]) ∧
      (∀ n before after,
        let client := (run {} before).step (.start n (.command c))
        let octets := client.sent n (run {} before).nextTask after
        ∃ t, octets <+: (c.request t).encode ∧
          ∀ task x w, (client.run after).task? (run {} before).nextTask = some task →
            task.phase = .exchange x → x.phase = .await w → octets = (c.request t).encode) ∧
      ∀ c' command' options' text' t t', Carries c' command' options' text' →
        (c.request t).encode = (c'.request t').encode →
          command = command' ∧ t = t' ∧ options = options' ∧ text = text' := by
  refine ⟨argument text, decode_argument text, ?_, fun n => Client.sent_of_carries h n, ?_⟩
  · intro t chunks delay hchunks
    rw [Schedule.readRequests_eq, hchunks, h.decodeAll_encode]
    rfl
  · intro c' command' options' text' t t' h' hsame
    exact h.encode_inj h' hsame

/-- A value that reads like the end of its request and another request after it. -/
theorem expression_read_exactly_stop :
    let c := Command.setProperty "x" "\x00stop\n-i\n9\x00" none (some 1)
    ∃ a, Text.Base64.decode a = .ok (Text.Utf8.encode "\x00stop\n-i\n9\x00") ∧
      (Schedule.ofChunks
        [(5, (c.request 7).encode.take 20), (5, (c.request 7).encode.drop 20)] 0).readRequests =
        [some (.ok (some ⟨"property_set", 7, [("-i", "7"), ("-n", "x"), ("-c", "1"),
          ("-l", Numeral.write (Text.Utf8.encode a).length)], [a], false⟩)), some (.ok none)] := by
  intro c
  have hcarries : c.Carries "property_set" [("-n", "x"), ("-c", "1")] "\x00stop\n-i\n9\x00" :=
    .setProperty _ none (some 1) (by decide)
  obtain ⟨a, ha, hread, -⟩ := expression_read_exactly hcarries
  refine ⟨a, ha, hread 7 _ 0 ?_⟩
  simp

end Command

end Dbgp
