import Dbgp.Wire.Schedule
import Mathlib.Algebra.Ring.Nat

/-!
# Packets and the arrival of their octets

`Frame.next` cuts the first packet off the octets of a whole stream, and `Frame.split` goes on cutting
until there is no further packet. A reader has no whole stream: it polls, takes what has arrived, and
waits. `Fill.outcome` and `PacketRead.outcome` say what a reading that is under way will come to once
all octets are there. A poll keeps that outcome (`PacketRead.faithful_poll`), so it is the same however
the octets arrive, and for a reading that just begins it is what `Frame.next` says.

Main statement: `Schedule.readPackets_eq_split`. Any chunks with any delays give the packets of their
concatenation.
-/

namespace Dbgp

/-! ## The packets of a whole stream -/

namespace Frame

/-- How many octets a packet takes from the head of a stream: its length field, and its payload if
`length?` gives a length within the limit. -/
def demand (limit : Nat) (bytes : List UInt8) : Nat :=
  match length? (Text.Utf8.lossy (bytes.take fieldWidth)) with
  | some n => if limit < n then fieldWidth else fieldWidth + n
  | none => fieldWidth

/-- A packet takes its length field at least, by `demand`. -/
theorem fieldWidth_le_demand (limit : Nat) (bytes : List UInt8) :
    fieldWidth ≤ demand limit bytes := by
  unfold demand
  split
  · split
    · exact Nat.le_refl _
    · exact Nat.le_add_right _ _
  · exact Nat.le_refl _

/-- What is left after a packet are the octets it does not `demand`, and fewer than there were. -/
theorem rest_of_next {limit : Nat} {bytes rest : List UInt8} {payload : String}
    (h : next limit bytes = .ok (some (payload, rest))) :
    rest = bytes.drop (demand limit bytes) ∧ rest.length < bytes.length := by
  unfold next at h
  split at h
  · cases h
  · next hlong =>
    split at h
    · cases h
    · next n hn =>
      simp only at h
      split at h
      · cases h
      · next hlimit =>
        split at h
        · cases h
        · cases h
          have hdemand : demand limit bytes = fieldWidth + n := by
            rw [demand, hn]
            exact if_neg hlimit
          refine ⟨by rw [hdemand, List.drop_drop], ?_⟩
          have hwidth : 0 < fieldWidth := by decide
          rw [List.length_drop, List.length_drop]
          omega

/-- What reading a finished stream to its end comes to, by `split`. -/
structure Contents where
  payloads : List String
  /-- The fault at which reading stopped, if it stopped at one. -/
  fault : Option ProtocolFault
  /-- The octets that were not read. -/
  unread : List UInt8
  deriving DecidableEq, Repr

/-- Cuts packets off a finished stream by `next` until there is none. A packet that is too large ends
the reading before the first octet of its payload. -/
def split (limit : Nat) (bytes : List UInt8) : Contents :=
  match h : next limit bytes with
  | .ok (some (payload, rest)) =>
    have : rest.length < bytes.length := (rest_of_next h).2
    let after := split limit rest
    { after with payloads := payload :: after.payloads }
  | .ok none => ⟨[], none, bytes.drop (demand limit bytes)⟩
  | .error fault => ⟨[], some fault, bytes.drop fieldWidth⟩
termination_by bytes.length

/-- The results of reading packet after packet, of which the last is `none` or the fault. -/
def Contents.results (c : Contents) : List (Except Error (Option String)) :=
  c.payloads.map (fun payload => .ok (some payload)) ++
    [match c.fault with
      | none => .ok none
      | some fault => .error (.protocol fault)]

/-- What comes of a packet that `next` has cut off. -/
def result : Except ProtocolFault (Option (String × List UInt8)) → Except Error (Option String)
  | .ok (some (payload, _)) => .ok (some payload)
  | .ok none => .ok none
  | .error fault => .error (.protocol fault)

/-- One step of `split`: a packet. -/
theorem split_of_some {limit : Nat} {bytes rest : List UInt8} {payload : String}
    (h : next limit bytes = .ok (some (payload, rest))) :
    split limit bytes =
      { split limit rest with payloads := payload :: (split limit rest).payloads } := by
  rw [split]
  split
  · next h' =>
    cases h.symm.trans h'
    rfl
  · next h' => cases h.symm.trans h'
  · next h' => cases h.symm.trans h'

/-- One step of `split`: the end of the stream. -/
theorem split_of_none {limit : Nat} {bytes : List UInt8} (h : next limit bytes = .ok none) :
    split limit bytes = ⟨[], none, bytes.drop (demand limit bytes)⟩ := by
  rw [split]
  split
  · next h' => cases h.symm.trans h'
  · rfl
  · next h' => cases h.symm.trans h'

/-- One step of `split`: a packet that is too large. -/
theorem split_of_error {limit : Nat} {bytes : List UInt8} {fault : ProtocolFault}
    (h : next limit bytes = .error fault) :
    split limit bytes = ⟨[], some fault, bytes.drop fieldWidth⟩ := by
  rw [split]
  split
  · next h' => cases h.symm.trans h'
  · next h' => cases h.symm.trans h'
  · next h' =>
    cases h.symm.trans h'
    rfl

/-- A packet that is too large takes `fieldWidth` octets only. -/
theorem demand_of_error {limit : Nat} {bytes : List UInt8} {fault : ProtocolFault}
    (h : next limit bytes = .error fault) : demand limit bytes = fieldWidth := by
  unfold next at h
  split at h
  · cases h
  · split at h
    · cases h
    · next n hn =>
      simp only at h
      split at h
      · next hlimit =>
        rw [demand, hn]
        exact if_pos hlimit
      · split at h
        · cases h
        · cases h

end Frame

/-! ## What a reading will come to -/

/-- What a `Fill` comes to on a stream that ends after the given octets, and what it leaves of
these. -/
def Fill.outcome (f : Fill) (bytes : List UInt8) : Except Error (Option String) × List UInt8 :=
  let missing := f.want - f.got.length
  (.ok (if missing ≤ bytes.length then some (Text.Utf8.lossy (f.got ++ bytes.take missing)) else none),
    bytes.drop missing)

/-- What a `PacketRead` comes to on a stream that ends after the given octets, and what it leaves of
these. -/
def PacketRead.outcome (maxSize : Nat) (r : PacketRead) (bytes : List UInt8) :
    Except Error (Option String) × List UInt8 :=
  match r with
  | .payload f => f.outcome bytes
  | .header f =>
    match f.outcome bytes with
    | (.ok (some field), rest) =>
      match Frame.length? field with
      | none => (.ok none, rest)
      | some n =>
        if maxSize < n then (.error (.protocol (.packetTooLarge n maxSize)), rest)
        else Fill.outcome { want := n, limit := none, since := 0 } rest
    | (other, rest) => (other, rest)

/-- A poll that keeps the `outcome` of a reading: it finishes with the outcome, or it has taken all
that was there and goes on with a reading that has the same outcome on what is still to come. A stream
that has ended brings no more. -/
inductive Faithful (outcome : ρ → List UInt8 → Except Error (Option String) × List UInt8)
    (Q : ρ → Prop) (r : ρ) (i : Inbound) : Progress ρ (Option String) × Inbound → Prop
  | finished {result : Except Error (Option String)} {rest : List UInt8} :
      (∀ more, (i.tail = .ended → more = []) → outcome r (i.pending ++ more) = (result, rest ++ more)) →
      Faithful outcome Q r i (.finished result, { i with pending := rest })
  | ongoing {r' : ρ} : i.tail = .live → Q r' →
      (∀ more, outcome r (i.pending ++ more) = outcome r' more) →
      Faithful outcome Q r i (.ongoing r', { i with pending := [] })

namespace Fill

/-- A `Fill` that waits without limit for octets that are missing. -/
structure Wanting (f : Fill) : Prop where
  limit : f.limit = none
  length_lt : f.got.length < f.want

variable {f : Fill} {i : Inbound}

/-- `Fill.absorb` changes what there is and when the attempt began. -/
theorem absorb_eq (now : Nat) (f : Fill) (bytes : List UInt8) :
    ∃ since, f.absorb now bytes = { f with got := f.got ++ bytes, since } := by
  unfold absorb
  split
  · next hempty =>
    rw [List.isEmpty_iff] at hempty
    exact ⟨f.since, by rw [hempty, List.append_nil]⟩
  · exact ⟨now, rfl⟩

/-- The `outcome` of a reading for which enough has arrived. -/
theorem outcome_of_le {bytes : List UInt8} (h : f.want - f.got.length ≤ bytes.length)
    (more : List UInt8) : f.outcome (bytes ++ more) =
      (.ok (some (Text.Utf8.lossy (f.got ++ bytes.take (f.want - f.got.length)))),
        bytes.drop (f.want - f.got.length) ++ more) := by
  have hle : f.want - f.got.length ≤ (bytes ++ more).length := by
    rw [List.length_append]
    omega
  simp only [outcome]
  rw [if_pos hle, List.take_append_of_le_length h, List.drop_append_of_le_length h]

/-- The `outcome` of a reading for which not enough has arrived. -/
theorem outcome_of_lt {bytes : List UInt8} (since : Nat) (h : bytes.length < f.want - f.got.length)
    (more : List UInt8) : f.outcome (bytes ++ more) =
      Fill.outcome { f with got := f.got ++ bytes, since } more := by
  have hmissing : f.want - (f.got ++ bytes).length = f.want - f.got.length - bytes.length := by
    rw [List.length_append]
    omega
  have hle : f.want - f.got.length ≤ (bytes ++ more).length ↔
      f.want - f.got.length - bytes.length ≤ more.length := by
    rw [List.length_append]
    omega
  simp only [outcome, hmissing, hle]
  rw [List.take_append, List.drop_append, List.take_of_length_le (Nat.le_of_lt h),
    List.drop_of_length_le (Nat.le_of_lt h), List.append_assoc, List.nil_append]

/-- One poll for some octets is `Faithful`. -/
theorem faithful_poll (now : Nat) (hf : f.limit = none) (hlive : ∀ text, i.tail ≠ .failed text) :
    Faithful outcome Wanting f i (f.poll now i) := by
  obtain ⟨pending, tail⟩ := i
  obtain ⟨since, habsorb⟩ := f.absorb_eq now (pending.take (f.want - f.got.length))
  unfold poll
  simp only [habsorb]
  by_cases hle : f.want - f.got.length ≤ pending.length
  · have hfull : f.want ≤ (f.got ++ pending.take (f.want - f.got.length)).length := by
      rw [List.length_append, List.length_take]
      omega
    rw [if_pos hfull]
    exact .finished fun more _ => outcome_of_le hle more
  · have hlt : pending.length < f.want - f.got.length := Nat.lt_of_not_le hle
    have htake : pending.take (f.want - f.got.length) = pending :=
      List.take_of_length_le (Nat.le_of_lt hlt)
    have hdrop : pending.drop (f.want - f.got.length) = [] :=
      List.drop_of_length_le (Nat.le_of_lt hlt)
    rw [htake, hdrop, if_neg (by rw [List.length_append]; omega)]
    cases tail with
    | live =>
      have hpause : pause now { f with got := f.got ++ pending, since } =
          .ongoing { f with got := f.got ++ pending, since } := by
        unfold pause
        rw [show Fill.limit { f with got := f.got ++ pending, since } = none from hf]
      simp only [hpause]
      have hwanting : (f.got ++ pending).length < f.want := by
        rw [List.length_append]
        omega
      exact .ongoing rfl ⟨hf, hwanting⟩ fun more => outcome_of_lt since hlt more
    | ended =>
      refine .finished fun more hmore => ?_
      have hshort : ¬f.want - (f.got ++ pending).length ≤ ([] : List UInt8).length := by
        rw [List.length_append, List.length_nil]
        omega
      rw [hmore rfl, outcome_of_lt since hlt, outcome]
      simp only [if_neg hshort, List.drop_nil, List.append_nil]
    | failed text => exact absurd rfl (hlive text)

end Fill

namespace PacketRead

/-- A `PacketRead` that waits without limit for octets that are missing. -/
def Wanting : PacketRead → Prop
  | .header f | .payload f => f.Wanting

variable (maxSize : Nat) {r : PacketRead} {i : Inbound}

/-- A reading that begins is `Wanting`. -/
theorem wanting_start (now : Nat) : (start now).Wanting :=
  ⟨rfl, show 0 < Frame.fieldWidth by decide⟩

/-- What is `Wanting` has no deadline. -/
theorem Wanting.deadline_eq (h : r.Wanting) : r.deadline = none := by
  cases r with
  | header f | payload f =>
    show f.limit.map _ = none
    rw [show f.limit = none from h.limit, Option.map_none]

/-- One poll for the payload is `Faithful`. -/
theorem faithful_pollPayload (now : Nat) {f : Fill} (hf : f.limit = none)
    (hlive : ∀ text, i.tail ≠ .failed text) :
    Faithful (outcome maxSize) Wanting (.payload f) i (pollPayload now f i) := by
  have hpoll := Fill.faithful_poll now hf hlive
  unfold pollPayload
  generalize f.poll now i = polled at hpoll
  cases hpoll with
  | finished houtcome => exact .finished houtcome
  | ongoing htail hf' houtcome => exact .ongoing htail hf' houtcome

/-- The `outcome` of a reading whose length field is complete. -/
theorem outcome_header {f : Fill} {field : String} {bytes rest : List UInt8}
    (h : f.outcome bytes = (.ok (some field), rest)) : outcome maxSize (.header f) bytes =
      match Frame.length? field with
      | none => (.ok none, rest)
      | some n =>
        if maxSize < n then (.error (.protocol (.packetTooLarge n maxSize)), rest)
        else Fill.outcome { want := n, limit := none, since := 0 } rest := by
  rw [outcome, h]

/-- Octets that are wanted have the same `outcome` whenever the wait for them began. -/
theorem outcome_since (n since since' : Nat) (bytes : List UInt8) :
    Fill.outcome { want := n, limit := none, since } bytes =
      Fill.outcome { want := n, limit := none, since := since' } bytes := rfl

/-- One poll for a packet is `Faithful`, also when the length field is completed by it and the payload
begun. -/
theorem faithful_poll (now : Nat) (hr : r.Wanting) (hlive : ∀ text, i.tail ≠ .failed text) :
    Faithful (outcome maxSize) Wanting r i (r.poll ⟨maxSize, none⟩ now i) := by
  cases r with
  | payload f => exact faithful_pollPayload maxSize now hr.limit hlive
  | header f =>
    have hpoll := Fill.faithful_poll now hr.limit hlive
    unfold poll
    simp only
    generalize f.poll now i = polled at hpoll
    cases hpoll with
    | ongoing htail hf' houtcome =>
      refine .ongoing htail hf' fun more => ?_
      rw [outcome, outcome, houtcome]
    | @finished result rest houtcome =>
      cases result with
      | error e =>
        refine .finished fun more hmore => ?_
        simp only [outcome, houtcome more hmore]
      | ok field =>
        cases field with
        | none =>
          refine .finished fun more hmore => ?_
          simp only [outcome, houtcome more hmore]
        | some field =>
          show Faithful _ _ _ _ (match Frame.length? field with
            | none => _
            | some n => _)
          have hheader : ∀ more, (i.tail = .ended → more = []) → _ := fun more hmore =>
            outcome_header maxSize (houtcome more hmore)
          cases hlength : Frame.length? field with
          | none =>
            refine .finished fun more hmore => ?_
            rw [hheader more hmore, hlength]
          | some n =>
            simp only [hlength] at hheader ⊢
            split
            · next hlarge =>
              refine .finished fun more hmore => ?_
              rw [hheader more hmore, if_pos hlarge]
            · next hlarge =>
              -- The payload is polled at once, from what the length field has left.
              have hpayload := faithful_pollPayload maxSize (i := { i with pending := rest }) now
                (f := { want := n, limit := none, since := now }) rfl hlive
              generalize pollPayload now { want := n, limit := none, since := now }
                { i with pending := rest } = polled at hpayload
              cases hpayload with
              | finished houtcome' =>
                refine .finished fun more hmore => ?_
                rw [hheader more hmore, if_neg hlarge, outcome_since n 0 now]
                exact houtcome' more hmore
              | ongoing htail hr' houtcome' =>
                refine .ongoing htail hr' fun more => ?_
                have hmore : i.tail = .ended → more = [] := fun hended => by
                  cases htail.symm.trans hended
                rw [hheader more hmore, if_neg hlarge, outcome_since n 0 now]
                exact houtcome' more

/-- A reading that just begins comes to the first packet of the stream (`Frame.next`), and leaves what
that does not take. -/
theorem outcome_start (now : Nat) (bytes : List UInt8) : outcome maxSize (.start now) bytes =
    (Frame.result (Frame.next maxSize bytes), bytes.drop (Frame.demand maxSize bytes)) := by
  have hfield : Fill.outcome { want := Frame.fieldWidth, limit := none, since := now } bytes =
      (.ok (if Frame.fieldWidth ≤ bytes.length
        then some (Text.Utf8.lossy (bytes.take Frame.fieldWidth)) else none),
        bytes.drop Frame.fieldWidth) := rfl
  unfold start
  by_cases hshort : bytes.length < Frame.fieldWidth
  · -- A stream that ends inside the length field is used up, whatever its octets are.
    have hdrop : ∀ n, Frame.fieldWidth ≤ n → bytes.drop n = [] := fun n hn =>
      List.drop_of_length_le (by omega)
    rw [if_neg (by omega)] at hfield
    rw [outcome, hfield, Frame.next, if_pos hshort, hdrop _ (Nat.le_refl _),
      hdrop _ (Frame.fieldWidth_le_demand maxSize bytes)]
    rfl
  · rw [if_pos (by omega)] at hfield
    rw [outcome_header maxSize hfield, Frame.next, if_neg hshort, Frame.demand]
    cases Frame.length? (Text.Utf8.lossy (bytes.take Frame.fieldWidth)) with
    | none => rfl
    | some n =>
      simp only
      by_cases hlarge : maxSize < n
      · simp only [if_pos hlarge]
        rfl
      · simp only [if_neg hlarge]
        by_cases hcut : (bytes.drop Frame.fieldWidth).length < n
        · rw [if_pos hcut, Fill.outcome]
          simp only [List.length_nil, Nat.sub_zero, if_neg (Nat.not_le_of_lt hcut), List.drop_drop]
          rfl
        · rw [if_neg hcut, Fill.outcome]
          simp only [List.length_nil, Nat.sub_zero, if_pos (Nat.le_of_not_lt hcut), List.drop_drop,
            List.nil_append]
          rfl

end PacketRead

/-! ## Streams as they arrive -/

namespace Inbound

variable {i : Inbound} {coming : List Arrival} {bytes : List UInt8}

/-- A stream on which the octets `bytes` are unread or still to come, and then it ends. -/
def Bears (i : Inbound) (coming : List Arrival) (bytes : List UInt8) : Prop :=
  coming.foldl receive i = ⟨bytes, .ended⟩

/-- After the end `receive` changes nothing. -/
theorem receive_of_not_live (h : i.tail ≠ .live) (a : Arrival) : i.receive a = i := by
  cases a with
  | bytes data => exact if_neg h
  | failure text => exact if_neg h
  | ending => exact if_neg h

/-- However much comes after the end, `receive` changes nothing. -/
theorem foldl_receive_of_not_live (h : i.tail ≠ .live) (coming : List Arrival) :
    coming.foldl receive i = i := by
  induction coming with
  | nil => rfl
  | cons a coming ih => rw [List.foldl_cons, receive_of_not_live h, ih]

/-- What arrives by `receive` comes after what is there. -/
theorem foldl_receive_of_live (before : List UInt8) (coming : List Arrival) :
    coming.foldl receive ⟨before, .live⟩ =
      ⟨before ++ (coming.foldl receive {}).pending, (coming.foldl receive {}).tail⟩ := by
  induction coming generalizing before with
  | nil => rw [List.foldl_nil, List.foldl_nil, List.append_nil]
  | cons a coming ih =>
    rw [List.foldl_cons, List.foldl_cons]
    cases a with
    | bytes data =>
      have hfirst : coming.foldl receive (receive {} (.bytes data)) = _ := ih data
      rw [hfirst, ← List.append_assoc]
      exact ih (before ++ data)
    | failure text =>
      have hstays : ∀ before, coming.foldl receive (receive ⟨before, .live⟩ (.failure text)) =
          ⟨before, .failed text⟩ := fun before =>
        foldl_receive_of_not_live (i := ⟨before, .failed text⟩) (by simp) coming
      rw [hstays, hstays, List.append_nil]
    | ending =>
      have hstays : ∀ before, coming.foldl receive (receive ⟨before, .live⟩ .ending) =
          ⟨before, .ended⟩ := fun before =>
        foldl_receive_of_not_live (i := ⟨before, .ended⟩) (by simp) coming
      rw [hstays, hstays, List.append_nil]

/-- What is `pending` is the beginning of what there will be. -/
theorem Bears.split (h : i.Bears coming bytes) : (∀ text, i.tail ≠ .failed text) ∧
    ∃ more, (i.tail = .ended → more = []) ∧ bytes = i.pending ++ more ∧
      ∀ rest, Bears { i with pending := rest } coming (rest ++ more) := by
  obtain ⟨pending, tail⟩ := i
  unfold Bears at h
  by_cases hlive : tail = .live
  · subst hlive
    rw [foldl_receive_of_live] at h
    refine ⟨by simp, (coming.foldl receive {}).pending, by simp, ?_, fun rest => ?_⟩
    · exact (congrArg Inbound.pending h).symm
    · unfold Bears
      rw [foldl_receive_of_live rest]
      exact congrArg (Inbound.mk _) (congrArg Inbound.tail h)
  · rw [foldl_receive_of_not_live hlive] at h
    cases h
    refine ⟨by simp, [], fun _ => rfl, (List.append_nil _).symm, fun rest => ?_⟩
    rw [List.append_nil]
    exact foldl_receive_of_not_live (i := ⟨rest, .ended⟩) hlive coming

/-- Chunks that are still to come, and then the end of the stream, bear their octets: `Bears`
holds. -/
theorem bears_chunks (chunks : List (List UInt8)) :
    Bears {} (chunks.map .bytes ++ [.ending]) chunks.flatten := by
  have hfold : ∀ before, (chunks.map Arrival.bytes ++ [Arrival.ending]).foldl receive ⟨before, .live⟩ =
      ⟨before ++ chunks.flatten, .ended⟩ := by
    induction chunks with
    | nil => intro before; rw [List.flatten_nil, List.append_nil]; rfl
    | cons chunk chunks ih =>
      intro before
      rw [List.flatten_cons, ← List.append_assoc]
      exact ih (before ++ chunk)
  exact hfold []

/-- While a stream is `live`, something is still to come. -/
theorem Bears.coming_ne_nil (h : i.Bears coming bytes) (hlive : i.tail = .live) : coming ≠ [] := by
  rintro rfl
  have hended : i = ⟨bytes, .ended⟩ := h
  rw [hended] at hlive
  cases hlive

end Inbound

/-- What `PacketRead.poll` can come to on a stream that ends after some octets. -/
inductive PacketRead.Polled (maxSize : Nat) (r : PacketRead) (i : Inbound) (coming : List Arrival)
    (bytes : List UInt8) : Progress PacketRead (Option String) × Inbound → Prop
  | finished {rest : Inbound} : rest.Bears coming (r.outcome maxSize bytes).2 → rest.tail = i.tail →
      Polled maxSize r i coming bytes (.finished (r.outcome maxSize bytes).1, rest)
  | ongoing {r' : PacketRead} {bytes' : List UInt8} : i.tail = .live → r'.Wanting →
      Inbound.Bears {} coming bytes' → r'.outcome maxSize bytes' = r.outcome maxSize bytes →
      Polled maxSize r i coming bytes (.ongoing r', {})

/-- A poll that is `finished` has the `outcome` of the reading. -/
theorem PacketRead.Polled.outcome_eq {maxSize : Nat} {r : PacketRead} {i rest : Inbound}
    {coming : List Arrival} {bytes : List UInt8} {result : Except Error (Option String)}
    (h : r.Polled maxSize i coming bytes (.finished result, rest)) :
    result = (r.outcome maxSize bytes).1 ∧ rest.Bears coming (r.outcome maxSize bytes).2 := by
  generalize hpolled : (Progress.finished result, rest) = polled at h
  cases h with
  | finished hrest _ =>
    cases hpolled
    exact ⟨rfl, hrest⟩
  | ongoing => cases hpolled

/-- A poll is a step towards the outcome: every one is `PacketRead.Polled`. -/
theorem PacketRead.polled (maxSize : Nat) {r : PacketRead} {i : Inbound} {coming : List Arrival}
    {bytes : List UInt8} (now : Nat) (hr : r.Wanting) (h : i.Bears coming bytes) :
    r.Polled maxSize i coming bytes (r.poll ⟨maxSize, none⟩ now i) := by
  obtain ⟨hfailed, more, hmore, hbytes, hrest⟩ := h.split
  have hpoll := faithful_poll maxSize now hr hfailed
  generalize r.poll ⟨maxSize, none⟩ now i = polled at hpoll
  cases hpoll with
  | @finished result rest houtcome =>
    have heq : r.outcome maxSize bytes = (result, rest ++ more) := by
      rw [hbytes, houtcome more hmore]
    have hresult : result = (r.outcome maxSize bytes).1 := by rw [heq]
    rw [hresult]
    refine .finished ?_ rfl
    rw [heq]
    exact hrest rest
  | ongoing htail hr' houtcome =>
    have hbears := hrest []
    rw [htail] at hbears ⊢
    refine .ongoing htail hr' hbears ?_
    rw [hbytes, houtcome more]
    rfl

namespace Schedule

variable {s : Schedule} {bytes : List UInt8} (maxSize : Nat)

/-- A schedule on which the octets `bytes` are unread or still to come, and then the stream ends. -/
def Bears (s : Schedule) (bytes : List UInt8) : Prop :=
  s.inbound.Bears (s.coming.map Prod.snd) bytes

/-- The `contents` of a stream are all that is to come, received in order. -/
theorem contents_eq (s : Schedule) :
    s.contents = (s.coming.map Prod.snd).foldl Inbound.receive s.inbound := by
  rw [contents, List.foldl_map]

/-- Nothing is lost when `settle` lets arrive what is due. -/
theorem Bears.settle (h : s.Bears bytes) : s.settle.Bears bytes := by
  have hcontents : s.settle.contents = s.contents := by
    rw [contents, Schedule.settle, contents, ← List.foldl_append, List.takeWhile_append_dropWhile]
  rw [contents_eq, contents_eq] at hcontents
  exact hcontents.trans h

/-- Moving the clock to the next arrival lets it arrive by `settle`. -/
theorem length_settle_of_cons (now t : Nat) (i : Inbound) (a : Arrival)
    (rest : List (Nat × Arrival)) :
    (Schedule.settle ⟨max now t, i, (t, a) :: rest⟩).coming.length < rest.length + 1 := by
  have hdue : decide (t ≤ max now t) = true := decide_eq_true (Nat.le_max_right now t)
  simp only [Schedule.settle, List.dropWhile_cons, hdue, if_true]
  exact Nat.lt_succ_of_le (List.dropWhile_sublist _).length_le

/-- A reading comes to its result, whatever arrives when, if each poll either brings it there or goes
on with what is still to come. `Inv` says which readings come to the result on which octets. Each
round of polling but the last lets at least one more arrival in, which is why `fuel` is enough. -/
theorem run_of_poll {poll : Nat → ρ → Inbound → Progress ρ α × Inbound} {deadline : ρ → Option Nat}
    {result : Except Error α} {left : List UInt8} (Inv : ρ → List UInt8 → Prop)
    (hpoll : ∀ now {r i coming bytes}, Inv r bytes → i.Bears coming bytes →
      (∃ rest, poll now r i = (.finished result, rest) ∧ rest.Bears coming left) ∨
      ∃ r' bytes', poll now r i = (.ongoing r', {}) ∧ i.tail = .live ∧ deadline r' = none ∧
        Inv r' bytes' ∧ Inbound.Bears {} coming bytes')
    {r : ρ} {fuel : Nat} (hr : Inv r bytes) (h : s.Bears bytes)
    (hfuel : s.settle.coming.length < fuel) :
    ∃ rest, run poll deadline fuel r s = .finished result rest ∧ rest.Bears left := by
  induction fuel generalizing r s bytes with
  | zero => omega
  | succ fuel ih =>
    have hsettled := h.settle
    rw [run]
    generalize s.settle = s' at *
    obtain ⟨rest, hfinished, hrest⟩ | ⟨r', bytes', hongoing, htail, hdeadline, hr', hrest⟩ :=
      hpoll s'.now hr hsettled
    · exact ⟨{ s' with inbound := rest }, by simp only [hfinished], hrest⟩
    · obtain ⟨now, inbound, coming⟩ := s'
      simp only [hongoing, nextTime, hdeadline]
      cases coming with
      | nil => exact absurd rfl (hsettled.coming_ne_nil htail)
      | cons a coming =>
        obtain ⟨t, a⟩ := a
        have hlt := length_settle_of_cons now t {} a coming
        exact ih (s := ⟨max now t, {}, (t, a) :: coming⟩) hr' hrest (by
          rw [List.length_cons] at hfuel
          omega)

/-- `run` brings the reading of a packet to its `outcome`. -/
theorem run_poll {r : PacketRead} {fuel : Nat} (hr : r.Wanting) (h : s.Bears bytes)
    (hfuel : s.settle.coming.length < fuel) :
    ∃ rest, run (PacketRead.poll ⟨maxSize, none⟩) PacketRead.deadline fuel r s =
        .finished (r.outcome maxSize bytes).1 rest ∧ rest.Bears (r.outcome maxSize bytes).2 := by
  refine run_of_poll (fun r' bytes' =>
    r'.Wanting ∧ r'.outcome maxSize bytes' = r.outcome maxSize bytes) ?_ ⟨hr, rfl⟩ h hfuel
  rintro now r' i coming bytes' ⟨hr', houtcome⟩ hbears
  have hpolled := PacketRead.polled maxSize now hr' hbears
  generalize PacketRead.poll ⟨maxSize, none⟩ now r' i = polled at hpolled
  cases hpolled with
  | @finished rest hrest => exact .inl ⟨rest, by rw [houtcome], houtcome ▸ hrest⟩
  | @ongoing r'' bytes'' htail hr'' hrest hsame =>
    exact .inr ⟨r'', bytes'', rfl, htail, hr''.deadline_eq, ⟨hr'', hsame.trans houtcome⟩, hrest⟩

/-- The number of rounds that `readPacket` allows itself is enough. -/
theorem length_settle_lt (s : Schedule) : s.settle.coming.length < s.coming.length + 4 := by
  have hle : s.settle.coming.length ≤ s.coming.length := (List.dropWhile_sublist _).length_le
  omega

/-- `readPacket` comes to the first packet of the stream. -/
theorem readPacket_eq (h : s.Bears bytes) : ∃ rest, s.readPacket ⟨maxSize, none⟩ =
      .finished (Frame.result (Frame.next maxSize bytes)) rest ∧
    rest.Bears (bytes.drop (Frame.demand maxSize bytes)) := by
  obtain ⟨rest, hrun, hrest⟩ := run_poll maxSize (PacketRead.wanting_start s.now) h s.length_settle_lt
  rw [PacketRead.outcome_start] at hrun hrest
  exact ⟨rest, hrun, hrest⟩

/-! ## All packets of a stream -/

/-- The stream as it is left by reading at most `fuel` packets, if reading comes to an end. -/
def leftFor (limits : ReadLimits) : (fuel : Nat) → Schedule → Option Schedule
  | 0, _ => none
  | fuel + 1, s =>
    match s.readPacket limits with
    | .hangs => none
    | .finished (.ok (some _)) rest => leftFor limits fuel rest
    | .finished _ rest => some rest

/-- The stream as it is left by `readPackets`. -/
def left (s : Schedule) (limits : ReadLimits) : Option Schedule :=
  leftFor limits (s.octets + 1) s

/-- Reading packet after packet comes to what `Frame.split` says, as long as there is fuel for each
octet. -/
theorem readPacketsFor_eq {fuel : Nat} (h : s.Bears bytes) (hfuel : bytes.length < fuel) :
    (readPacketsFor ⟨maxSize, none⟩ fuel s).map (Option.map Prod.fst) =
        (Frame.split maxSize bytes).results.map some ∧
      ∃ rest, leftFor ⟨maxSize, none⟩ fuel s = some rest ∧
        rest.Bears (Frame.split maxSize bytes).unread := by
  induction fuel generalizing s bytes with
  | zero => omega
  | succ fuel ih =>
    obtain ⟨rest, hread, hrest⟩ := readPacket_eq maxSize h
    rw [readPacketsFor, leftFor, hread]
    cases hnext : Frame.next maxSize bytes with
    | error fault =>
      rw [Frame.demand_of_error hnext] at hrest
      rw [Frame.split_of_error hnext]
      exact ⟨rfl, rest, rfl, hrest⟩
    | ok packet =>
      cases packet with
      | none =>
        rw [Frame.split_of_none hnext]
        exact ⟨rfl, rest, rfl, hrest⟩
      | some packet =>
        obtain ⟨payload, after⟩ := packet
        obtain ⟨hafter, hlt⟩ := Frame.rest_of_next hnext
        rw [← hafter] at hrest
        obtain ⟨hresults, hleft⟩ := ih hrest (by omega)
        rw [Frame.split_of_some hnext]
        simp only [Frame.result, List.map_cons, hresults]
        exact ⟨rfl, hleft⟩

/-- There are no more octets `pending` than have arrived. -/
theorem length_foldl_receive_le (i : Inbound) (coming : List Arrival) :
    (coming.foldl Inbound.receive i).pending.length ≤
      i.pending.length + (coming.map Arrival.size).sum := by
  induction coming generalizing i with
  | nil => simp
  | cons a coming ih =>
    have hreceive : (i.receive a).pending.length ≤ i.pending.length + a.size := by
      by_cases hlive : i.tail = .live
      · cases a with
        | bytes data =>
          rw [Inbound.receive, Inbound.feed, if_pos hlive]
          exact Nat.le_of_eq List.length_append
        | failure text =>
          rw [Inbound.receive, Inbound.fail, if_pos hlive]
          exact Nat.le_refl _
        | ending =>
          rw [Inbound.receive, Inbound.close, if_pos hlive]
          exact Nat.le_refl _
      · rw [Inbound.receive_of_not_live hlive]
        exact Nat.le_add_right _ _
    have hrest := ih (i.receive a)
    rw [List.foldl_cons, List.map_cons, List.sum_cons]
    omega

/-- There are no more octets than `octets` counts. -/
theorem Bears.length_le (h : s.Bears bytes) : bytes.length ≤ s.octets := by
  have hle := length_foldl_receive_le s.inbound (s.coming.map Prod.snd)
  have hbears : (s.coming.map Prod.snd).foldl Inbound.receive s.inbound = ⟨bytes, .ended⟩ := h
  rw [hbears, List.map_map] at hle
  rw [octets, ← List.sum_eq_foldl]
  exact hle

/-- The `Schedule` of chunks that arrive each some time after the one before, and then the end of the
stream. -/
def ofChunks (chunks : List (Nat × List UInt8)) (delay : Nat) : Schedule :=
  .ofDelays (chunks.map (fun chunk => (chunk.1, .bytes chunk.2)) ++ [(delay, .ending)])

/-- The times of `ofDelays` change nothing about what arrives. -/
theorem map_snd_times (t : Nat) (arrivals : List (Nat × Arrival)) :
    (ofDelays.times t arrivals).map Prod.snd = arrivals.map Prod.snd := by
  induction arrivals generalizing t with
  | nil => rfl
  | cons a arrivals ih =>
    rw [ofDelays.times, List.map_cons, List.map_cons, ih]

/-- The schedule `ofChunks` bears all octets of the chunks. -/
theorem bears_ofChunks (chunks : List (Nat × List UInt8)) (delay : Nat) :
    (ofChunks chunks delay).Bears (chunks.flatMap fun chunk => chunk.2) := by
  have hcoming : (ofChunks chunks delay).coming.map Prod.snd =
      (chunks.map fun chunk => chunk.2).map .bytes ++ [.ending] := by
    simp [ofChunks, ofDelays, map_snd_times]
  unfold Bears
  rw [hcoming, List.flatMap_def]
  exact Inbound.bears_chunks (chunks.map fun chunk => chunk.2)

/-- However a stream is cut into chunks and whenever these arrive, reading packets without a limit on
waiting gives the payloads of the whole stream, in order, and stops for the reason for which cutting
the whole stream stops. What has not been read then is the same too; for a packet that is too large it
begins with the first octet of its payload. -/
theorem readPackets_eq_split (maxSize : Nat) (chunks : List (Nat × List UInt8)) (delay : Nat) :
    ((ofChunks chunks delay).readPackets ⟨maxSize, none⟩).map (Option.map Prod.fst) =
        (Frame.split maxSize (chunks.flatMap fun chunk => chunk.2)).results.map some ∧
      ∃ rest, (ofChunks chunks delay).left ⟨maxSize, none⟩ = some rest ∧ rest.contents =
        ⟨(Frame.split maxSize (chunks.flatMap fun chunk => chunk.2)).unread, .ended⟩ := by
  have h := bears_ofChunks chunks delay
  obtain ⟨hresults, rest, hleft, hrest⟩ :=
    readPacketsFor_eq maxSize h (Nat.lt_succ_of_le h.length_le)
  exact ⟨hresults, rest, hleft, rest.contents_eq.trans hrest⟩

/-- A character cut in two, and a length field cut in two; then a packet that is too large. -/
example : ((ofChunks [(3, [48, 48, 48, 48]), (1, [48, 48, 48, 48, 48, 50, 195]), (7, [169, 48, 48]),
      (0, [48, 48, 48, 48, 48, 48, 48, 57, 97])] 2).readPackets ⟨8, none⟩).map (Option.map Prod.fst) =
    [some (.ok (some "é")), some (.error (.protocol (.packetTooLarge 9 8)))] := by
  decide +kernel

end Schedule

end Dbgp
