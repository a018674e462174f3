import Dbgp.Proofs.Transmission

/-!
# The next packet of a session

A session that is about to read a packet takes the one whose frame comes first, in whatever pieces it
arrives and whatever else happens between them. Here the connection need not end, something else may
follow, and single waits may have a limit, as long as the receiver does not look past it while octets
of the packet are missing (`Client.Prompt`).

Main statement: `Client.next_taken`. Until the packet is there nothing is taken, then it is, and if
nothing follows it nothing else ever is.
-/

namespace Dbgp

/-! ## A fixed number of octets -/

namespace Fill

variable {f : Fill} {i : Inbound} {now : Nat}

/-- Once all octets that are wanted are there, `Fill.poll` reads them and no others. -/
theorem poll_of_le (hgot : f.got.length ≤ f.want) (h : f.want ≤ (f.got ++ i.pending).length) :
    f.poll now i = (.finished (.ok (some (Text.Utf8.lossy ((f.got ++ i.pending).take f.want)))),
      { i with pending := (f.got ++ i.pending).drop f.want }) := by
  obtain ⟨since, habsorb⟩ := f.absorb_eq now (i.pending.take (f.want - f.got.length))
  have htake : (f.got ++ i.pending).take f.want =
      f.got ++ i.pending.take (f.want - f.got.length) := by
    rw [List.take_append, List.take_of_length_le hgot]
  have hdrop : (f.got ++ i.pending).drop f.want = i.pending.drop (f.want - f.got.length) := by
    rw [List.drop_append, List.drop_of_length_le hgot, List.nil_append]
  have hfull : f.want ≤ (f.got ++ i.pending.take (f.want - f.got.length)).length := by
    rw [List.length_append] at h
    rw [List.length_append, List.length_take]
    omega
  unfold poll
  simp only [habsorb, if_pos hfull, htake, hdrop]
  rfl

/-- While octets are missing, a wait that has not reached its limit goes on (`Fill.poll`). -/
theorem poll_of_lt {start : Nat} (h : (f.got ++ i.pending).length < f.want) (hlive : i.tail = .live)
    (hsince : start ≤ f.since) (hnow : start ≤ now)
    (htime : ∀ limit, f.limit = some limit → now < start + limit) :
    ∃ since, start ≤ since ∧ f.poll now i =
      (.ongoing { f with got := f.got ++ i.pending, since }, { i with pending := [] }) := by
  have hlt : i.pending.length < f.want - f.got.length := by
    rw [List.length_append] at h
    omega
  obtain ⟨since, hle, habsorb⟩ : ∃ since, start ≤ since ∧
      f.absorb now i.pending = { f with got := f.got ++ i.pending, since } := by
    unfold absorb
    split
    · next hempty =>
      rw [List.isEmpty_iff] at hempty
      exact ⟨f.since, hsince, by rw [hempty, List.append_nil]⟩
    · exact ⟨now, hnow, rfl⟩
  have hpause : pause now { f with got := f.got ++ i.pending, since } =
      .ongoing { f with got := f.got ++ i.pending, since } := by
    unfold pause
    split
    · rfl
    · next limit hlimit =>
      have hlt := htime limit hlimit
      exact if_pos (show now < since + limit by omega)
  refine ⟨since, hle, ?_⟩
  unfold poll
  simp only [List.take_of_length_le (Nat.le_of_lt hlt), List.drop_of_length_le (Nat.le_of_lt hlt),
    habsorb, if_neg (Nat.not_le_of_lt h), hlive, hpause]

end Fill

/-! ## One packet -/

namespace Frame

/-- The length field of a packet. -/
def field (payload : String) : List UInt8 :=
  Text.Utf8.encode (Text.Numeral.writeWidth fieldWidth (Text.Utf8.encode payload).length)

/-- A frame is its `field` and its payload. -/
theorem encode_eq (payload : String) : encode payload = field payload ++ Text.Utf8.encode payload :=
  rfl

/-- The length of a frame. -/
theorem length_encode (payload : String) :
    (encode payload).length = (field payload).length + (Text.Utf8.encode payload).length := by
  rw [encode_eq, List.length_append]

/-- A payload whose length the limit admits and the length field can hold. -/
structure Fits (maxSize : Nat) (payload : String) : Prop where
  le_maxSize : (Text.Utf8.encode payload).length ≤ maxSize
  lt_width : (Text.Utf8.encode payload).length < 10 ^ fieldWidth

/-- The length field of a payload that `Fits` has its fixed width. -/
theorem Fits.length_field {maxSize : Nat} {payload : String} (h : Fits maxSize payload) :
    (field payload).length = fieldWidth :=
  length_encode_writeWidth h.lt_width

end Frame

namespace PacketRead

/-- The reading of a packet has read some octets of its frame. The wait for its payload began at
`start` at the earliest. -/
inductive Partway (payload : String) (timeout : Option Nat) (start : Nat) :
    PacketRead → List UInt8 → Prop
  | header {f : Fill} : f.want = Frame.fieldWidth → f.limit = none → f.got.length ≤ f.want →
      Partway payload timeout start (.header f) f.got
  | payload {f : Fill} : f.want = (Text.Utf8.encode payload).length → f.limit = timeout →
      f.got.length ≤ f.want → start ≤ f.since →
      Partway payload timeout start (.payload f) (Frame.field payload ++ f.got)

/-- A reading that begins has read nothing. -/
theorem partway_start (payload : String) (timeout : Option Nat) (start now : Nat) :
    (PacketRead.start now).Partway payload timeout start [] :=
  .header rfl rfl (Nat.zero_le _)

/-- A poll ends the reading with the payload if the whole frame is there. Otherwise it takes all that
is there, and the reading goes on, `Partway` still. -/
inductive Advanced (payload : String) (timeout : Option Nat) (start : Nat) (octets : List UInt8)
    (tail : Tail) : Progress PacketRead (Option String) × Inbound → Prop
  | finished : (Frame.encode payload).length ≤ octets.length →
      Advanced payload timeout start octets tail
        (.finished (.ok (some payload)), ⟨octets.drop (Frame.encode payload).length, tail⟩)
  | ongoing {r : PacketRead} : octets.length < (Frame.encode payload).length →
      r.Partway payload timeout start octets →
      Advanced payload timeout start octets tail (.ongoing r, ⟨[], tail⟩)

variable {payload : String} {limits : ReadLimits} {start now : Nat} {r : PacketRead}
  {octets more later : List UInt8} {i : Inbound}

/-- Where octets are missing that are to come, the stream goes on. -/
theorem live_of_lt {tail : Tail} {whole : List UInt8} (h : octets ++ later = whole ++ more)
    (hlt : octets.length < whole.length) (hlater : tail ≠ .live → later = []) : tail = .live := by
  by_contra hnot
  have hlength := congrArg List.length h
  rw [hlater hnot, List.append_nil, List.length_append] at hlength
  omega

/-- One poll for the payload, with the octets that are to come as `later`. -/
theorem advanced_pollPayload {f : Fill} (hwant : f.want = (Text.Utf8.encode payload).length)
    (hlimit : f.limit = limits.timeout)
    (hgot : f.got.length ≤ f.want) (hsince : start ≤ f.since)
    (hoctets : f.got ++ i.pending ++ later = Text.Utf8.encode payload ++ more)
    (hlater : i.tail ≠ .live → later = []) (hnow : start ≤ now)
    (htime : (f.got ++ i.pending).length < f.want →
      ∀ limit, limits.timeout = some limit → now < start + limit) :
    Advanced payload limits.timeout start (Frame.field payload ++ (f.got ++ i.pending)) i.tail
      (pollPayload now f i) := by
  unfold pollPayload
  by_cases hall : f.want ≤ (f.got ++ i.pending).length
  · have hlength : (Frame.encode payload).length ≤
        (Frame.field payload ++ (f.got ++ i.pending)).length := by
      rw [Frame.length_encode, List.length_append, ← hwant]
      omega
    have hpayload : (f.got ++ i.pending).take f.want = Text.Utf8.encode payload := by
      rw [← List.take_append_of_le_length hall, hoctets, hwant, List.take_left]
    have hdrop : (Frame.field payload ++ (f.got ++ i.pending)).drop (Frame.encode payload).length =
        (f.got ++ i.pending).drop f.want := by
      rw [Frame.encode_eq, List.length_append, ← hwant, List.drop_length_add_append]
    rw [Fill.poll_of_le hgot hall, hpayload, Text.Utf8.lossy_encode, ← hdrop]
    exact .finished hlength
  · have hlt : (f.got ++ i.pending).length < f.want := Nat.lt_of_not_le hall
    have hlive := live_of_lt hoctets (hwant ▸ hlt) hlater
    obtain ⟨since, hle, hpoll⟩ := Fill.poll_of_lt hlt hlive hsince hnow
      fun limit hsome => htime hlt limit (hlimit ▸ hsome)
    rw [hpoll]
    refine .ongoing ?_ (.payload hwant hlimit (Nat.le_of_lt hlt) hle)
    rw [Frame.length_encode, List.length_append, ← hwant]
    omega

/-- One poll of a reading that is `Partway`: the field is read first, and then the payload in the same
poll, as far as they are there. -/
theorem Partway.poll (h : r.Partway payload limits.timeout start octets)
    (hfits : Frame.Fits limits.maxSize payload)
    (hoctets : octets ++ i.pending ++ later = Frame.encode payload ++ more)
    (hlater : i.tail ≠ .live → later = []) (hnow : start ≤ now)
    (htime : (octets ++ i.pending).length < (Frame.encode payload).length →
      ∀ limit, limits.timeout = some limit → now < start + limit) :
    Advanced payload limits.timeout start (octets ++ i.pending) i.tail (r.poll limits now i) := by
  have hwidth := hfits.length_field
  cases h with
  | @payload f hwant hlimit hgot hsince =>
    rw [Frame.encode_eq, List.append_assoc, List.append_assoc, List.append_assoc,
      List.append_cancel_left_eq, ← List.append_assoc] at hoctets
    rw [List.append_assoc] at htime ⊢
    refine advanced_pollPayload hwant hlimit hgot hsince hoctets hlater hnow fun hlt => htime ?_
    rw [Frame.length_encode, List.length_append, ← hwant]
    omega
  | @header f hwant hlimit hgot =>
    unfold PacketRead.poll
    simp only
    by_cases hall : f.want ≤ (f.got ++ i.pending).length
    · -- The length field is complete, and the payload is polled at once from what it has left.
      have hfield : (f.got ++ i.pending).take f.want = Frame.field payload := by
        rw [← List.take_append_of_le_length hall, hoctets, hwant, Frame.encode_eq, List.append_assoc,
          ← hwidth, List.take_left]
      have hsplit : f.got ++ i.pending = Frame.field payload ++ (f.got ++ i.pending).drop f.want := by
        rw [← hfield, List.take_append_drop]
      have hlength : Frame.length? (Text.Utf8.lossy (Frame.field payload)) =
          some (Text.Utf8.encode payload).length := by
        rw [Frame.field, Text.Utf8.lossy_encode, Frame.length?_writeWidth hfits.lt_width]
      rw [Fill.poll_of_le hgot hall, hfield]
      simp only [hlength, if_neg (Nat.not_lt_of_le hfits.le_maxSize)]
      generalize (f.got ++ i.pending).drop f.want = rest at hsplit ⊢
      rw [hsplit] at hoctets htime ⊢
      rw [Frame.encode_eq, List.append_assoc, List.append_assoc, List.append_cancel_left_eq] at hoctets
      refine advanced_pollPayload (i := ⟨rest, i.tail⟩)
        (f := { want := (Text.Utf8.encode payload).length, limit := limits.timeout, since := now })
        rfl rfl (Nat.zero_le _) hnow hoctets hlater hnow fun hlt => htime ?_
      rw [Frame.length_encode, List.length_append]
      exact Nat.add_lt_add_left hlt _
    · have hlt : (f.got ++ i.pending).length < f.want := Nat.lt_of_not_le hall
      have hshort : (f.got ++ i.pending).length < (Frame.encode payload).length := by
        rw [Frame.length_encode, hwidth, ← hwant]
        omega
      have hlive := live_of_lt hoctets hshort hlater
      obtain ⟨since, -, hpoll⟩ := Fill.poll_of_lt hlt hlive (Nat.zero_le _) (Nat.zero_le now)
        fun limit hsome => nomatch hlimit.symm.trans hsome
      rw [hpoll]
      exact .ongoing hshort (.header hwant hlimit (Nat.le_of_lt hlt))

end PacketRead

/-! ## One session -/

/-- What is to come comes after whatever is `pending`, and after the end nothing does. -/
theorem Inbound.exists_later (tail : Tail) (coming : List Arrival) :
    ∃ later, (tail ≠ .live → later = []) ∧
      ∀ octets, (coming.foldl receive ⟨octets, tail⟩).pending = octets ++ later := by
  by_cases hlive : tail = .live
  · subst hlive
    refine ⟨(coming.foldl receive {}).pending, fun h => absurd rfl h, fun octets => ?_⟩
    rw [foldl_receive_of_live]
  · refine ⟨[], fun _ => rfl, fun octets => ?_⟩
    rw [foldl_receive_of_not_live (i := ⟨octets, tail⟩) hlive, List.append_nil]

/-- What arrives comes after octets that are put back. -/
theorem Inbound.receive_append (octets : List UInt8) (i : Inbound) (what : Arrival) :
    receive ⟨octets ++ i.pending, i.tail⟩ what =
      ⟨octets ++ (i.receive what).pending, (i.receive what).tail⟩ := by
  obtain ⟨pending, tail⟩ := i
  by_cases hlive : tail = .live
  · subst hlive
    cases what with
    | bytes data => exact congrArg (Inbound.mk · .live) (List.append_assoc _ _ _)
    | failure text | ending => rfl
  · rw [receive_of_not_live (i := ⟨pending, tail⟩) hlive,
      receive_of_not_live (i := ⟨octets ++ pending, tail⟩) hlive]

namespace Session

variable {s s' : Session} {payload : String} {start now : Nat} {i : Inbound} {what : Arrival}
  {coming : List Arrival} {more : List UInt8}

/-- A session is reading a packet (`PacketRead.Partway`); `i` is its stream with the octets put back
that are read. -/
def Amid (payload : String) (start : Nat) (i : Inbound) (s : Session) : Prop :=
  ∃ r octets, s.receiver = .reading r ∧ r.Partway payload s.limits.timeout start octets ∧
    i = ⟨octets ++ s.inbound.pending, s.inbound.tail⟩

/-- A session that starts to read is amid any packet, with nothing read. -/
theorem amid_of_start (hreceiver : s.receiver = .reading (.start now)) (payload : String)
    (start : Nat) : s.Amid payload start s.inbound :=
  ⟨_, [], hreceiver, PacketRead.partway_start payload _ start now, rfl⟩

/-- Whoever leaves a session `Kept` leaves it amid its packet. -/
theorem Amid.kept (h : s.Amid payload start i) (hkept : s.Kept s') : s'.Amid payload start i := by
  obtain ⟨r, octets, hreceiver, hpartway, hi⟩ := h
  refine ⟨r, octets, hkept.receiver_eq.trans hreceiver, ?_, hkept.inbound_eq ▸ hi⟩
  rwa [limits, hkept.config_eq]

/-- Octets that arrive are added to the stream. -/
theorem Amid.arrived (h : s.Amid payload start i) (what : Arrival) :
    { s with inbound := s.inbound.receive what }.Amid payload start (i.receive what) := by
  obtain ⟨r, octets, hreceiver, hpartway, rfl⟩ := h
  exact ⟨r, octets, hreceiver, hpartway, Inbound.receive_append octets s.inbound what⟩

/-- What `PacketRead.poll` comes to while a session is amid a packet. -/
theorem Amid.poll (h : s.Amid payload start i) (hfits : Frame.Fits s.limits.maxSize payload)
    (hoctets : (coming.foldl Inbound.receive i).pending = Frame.encode payload ++ more)
    (hnow : start ≤ now)
    (htime : i.pending.length < (Frame.encode payload).length →
      ∀ limit, s.limits.timeout = some limit → now < start + limit) :
    ∃ r, s.receiver = .reading r ∧ PacketRead.Advanced payload s.limits.timeout start i.pending i.tail
      (r.poll s.limits now s.inbound) := by
  obtain ⟨r, octets, hreceiver, hpartway, rfl⟩ := h
  obtain ⟨later, hlater, hfold⟩ := Inbound.exists_later s.inbound.tail coming
  exact ⟨r, hreceiver, hpartway.poll hfits ((hfold _).symm.trans hoctets) hlater hnow htime⟩

/-- Once the whole frame is there, the packet is taken (`taking?`) unless the receiver is to stop. -/
theorem Amid.taking? (h : s.Amid payload start i) (hfits : Frame.Fits s.limits.maxSize payload)
    (hoctets : (coming.foldl Inbound.receive i).pending = Frame.encode payload ++ more)
    (hnow : start ≤ now) (hall : (Frame.encode payload).length ≤ i.pending.length)
    (hstop : s.stop = false) : s.taking? now = some payload := by
  obtain ⟨r, hreceiver, hadvanced⟩ := h.poll hfits hoctets hnow fun hlt =>
    absurd hall (Nat.not_le_of_lt hlt)
  rw [taking?_of_poll hreceiver hstop]
  generalize r.poll s.limits now s.inbound = polled at hadvanced
  cases hadvanced with
  | finished => rfl
  | ongoing hlt => exact absurd hall (Nat.not_le_of_lt hlt)

/-- A session from which no payload is taken any more: it is ending, or there is nothing to read. -/
inductive Mute (s : Session) (coming : List Arrival) : Prop
  | reading {t : Nat} : s.receiver = .reading (.start t) →
      (coming.foldl Inbound.receive s.inbound).pending = [] → Mute s coming
  | ringing {t : UInt32} : s.receiver = .ringing t →
      (coming.foldl Inbound.receive s.inbound).pending = [] → Mute s coming
  | ending {stage : EndStage} {failure : Option Error} : s.receiver = .ending stage failure →
      Mute s coming
  | ended : s.receiver = .ended → Mute s coming

/-- Being `Mute` depends on the receiver and on all that will have come. -/
theorem Mute.congr {coming' : List Arrival} (h : s.Mute coming) (hreceiver : s'.receiver = s.receiver)
    (hinbound : coming'.foldl Inbound.receive s'.inbound = coming.foldl Inbound.receive s.inbound) :
    s'.Mute coming' := by
  cases h with
  | reading hreading hcoming => exact .reading (hreceiver.trans hreading) (hinbound ▸ hcoming)
  | ringing hringing hcoming => exact .ringing (hreceiver.trans hringing) (hinbound ▸ hcoming)
  | ending hending => exact .ending (hreceiver.trans hending)
  | ended hended => exact .ended (hreceiver.trans hended)

/-- A session that is ending is `Mute`. -/
theorem mute_endStep (stage : EndStage) (failure : Option Error) :
    (s.endStep stage failure).Mute coming := by
  cases stage with
  | takeListeners =>
    rw [endStep]
    split
    · exact .ending rfl
    · exact .ended rfl
  | call calls =>
    cases calls with
    | nil => exact .ended rfl
    | cons => exact .ending rfl
  | begin | closeSlots | ring | closeNotifies | closeOutputs => exact .ending rfl

/-- A reading that has just begun and finds nothing is still at its beginning, or over. -/
theorem poll_start_nil (limits : ReadLimits) (t now : Nat) (tail : Tail) :
    (PacketRead.start t).poll limits now ⟨[], tail⟩ = (.ongoing (.start t), ⟨[], tail⟩) ∨
      (PacketRead.start t).poll limits now ⟨[], tail⟩ = (.finished (.ok none), ⟨[], tail⟩) ∨
      ∃ e, (PacketRead.start t).poll limits now ⟨[], tail⟩ = (.finished (.error e), ⟨[], tail⟩) := by
  cases tail with
  | live => exact .inl rfl
  | ended => exact .inr (.inl rfl)
  | failed text => exact .inr (.inr ⟨_, rfl⟩)

/-- A receiver that is `Mute` takes nothing and stays so. -/
theorem Mute.receives (h : s.Mute coming) (hstep : s.receiverStep now = some s') :
    s.taking? now = none ∧ s'.Mute coming := by
  have hnone : (∀ r, s.receiver ≠ .reading r) → s.taking? now = none := by
    intro hreading
    rw [Session.taking?]
    split
    · next r hreceiver => exact absurd hreceiver (hreading r)
    · rfl
  cases h with
  | @reading t hreceiver hcoming =>
    -- What is there is a part of what there will be, and that is nothing.
    obtain ⟨later, -, hfold⟩ := Inbound.exists_later s.inbound.tail coming
    have hpending : s.inbound.pending = [] :=
      (List.append_eq_nil_iff.mp ((hfold s.inbound.pending).symm.trans hcoming)).1
    have hinbound : s.inbound = ⟨[], s.inbound.tail⟩ := by rw [← hpending]
    have hpoll := poll_start_nil s.limits t now s.inbound.tail
    rw [← hinbound] at hpoll
    cases Session.receives hstep with
    | wound hother | rang hother => cases hreceiver.symm.trans hother
    | stopped hother hstop =>
      refine ⟨?_, .ending rfl⟩
      rw [Session.taking?, hreceiver]
      exact if_pos hstop
    | @waited r r' inbound hother hstop hpolled =>
      cases hreceiver.symm.trans hother
      rw [taking?_of_poll hreceiver hstop, hpolled]
      obtain hsame | hsame | ⟨e, hsame⟩ := hpoll
      · cases hsame.symm.trans hpolled
        exact ⟨rfl, .reading rfl hcoming⟩
      · cases hsame.symm.trans hpolled
      · cases hsame.symm.trans hpolled
    | took hother hstop hpolled =>
      cases hreceiver.symm.trans hother
      obtain hsame | hsame | ⟨e, hsame⟩ := hpoll <;> cases hsame.symm.trans hpolled
    | closed hother hstop hpolled | failed hother hstop hpolled =>
      cases hreceiver.symm.trans hother
      rw [taking?_of_poll hreceiver hstop, hpolled]
      exact ⟨rfl, .ending rfl⟩
  | ringing hreceiver hcoming =>
    refine ⟨hnone (by simp [hreceiver]), ?_⟩
    cases Session.receives hstep with
    | rang => exact .reading rfl hcoming
    | wound hother | stopped hother | waited hother | took hother | closed hother | failed hother =>
      cases hreceiver.symm.trans hother
  | ending hreceiver =>
    refine ⟨hnone (by simp [hreceiver]), ?_⟩
    cases Session.receives hstep with
    | wound => exact mute_endStep _ _
    | rang hother | stopped hother | waited hother | took hother | closed hother | failed hother =>
      cases hreceiver.symm.trans hother
  | ended hreceiver =>
    rw [receiverStep, hreceiver] at hstep
    cases hstep

end Session

/-! ## Runs -/

namespace Client

variable {c : Client} {n k : Nat} {s : Session} {m : Move} {ms : List Move} {coming : List Arrival}
  {payload : String} {start : Nat} {i : Inbound} {more : List UInt8}

theorem Move.pass_or_ne (m : Move) : (∃ millis, m = .pass millis) ∨ ∀ millis, m ≠ .pass millis := by
  by_cases hpass : ∃ millis, m = .pass millis
  · exact .inl hpass
  · exact .inr fun millis hm => hpass ⟨millis, hm⟩

/-- Only `pass` moves the clock. -/
theorem now_step (c : Client) {m : Move} (hm : ∀ millis, m ≠ .pass millis) :
    (c.step m).now = c.now := by
  cases m with
  | pass millis => exact absurd rfl (hm millis)
  | cancel task =>
    rw [step, cancel]
    split <;> rfl
  | handshake j =>
    rw [step]
    cases c.handshakes.find? fun h => h.connection = j with
    | none => rfl
    | some h =>
      rw [Option.bind_some, actHandshake]
      split <;> rfl
  | receiver j =>
    rw [step]
    cases c.session? j with
    | none => rfl
    | some s =>
      rw [Option.bind_some, actSession]
      split
      · rfl
      · cases s.receiverStep c.now <;> rfl
  | task j =>
    rw [step]
    cases c.task? j with
    | none => rfl
    | some t =>
      rw [Option.bind_some, actTask]
      split
      · rfl
      · split
        · rfl
        · simp only
          split <;> rfl
  | _ => rfl

/-- Time does not go back. -/
theorem now_le_step (c : Client) (m : Move) : c.now ≤ (c.step m).now := by
  rcases m.pass_or_ne with ⟨millis, rfl⟩ | hm
  · exact Nat.le_add_right _ _
  · exact Nat.le_of_eq (c.now_step hm).symm

/-- What arrives with the first move, and then the rest. -/
theorem arrivals_cons (k : Nat) (m : Move) (ms : List Move) :
    arrivals k (m :: ms) = arrivals k [m] ++ arrivals k ms :=
  List.filterMap_append (l := [m])

theorem arrivals_singleton (k : Nat) (what : Arrival) : arrivals k [.arrive k what] = [what] := by
  simp [arrivals]

theorem arrivals_singleton_of_ne (hm : ∀ what, m ≠ .arrive k what) : arrivals k [m] = [] :=
  have hconcat : arrivals k ([] ++ [m]) = arrivals k [] := arrivals_concat_of_ne hm
  hconcat

/-! ### Nothing more is taken -/

/-- No move takes anything from a session that is `Mute`, and it stays so. -/
theorem mute_step (hs : c.session? n = some s)
    (h : s.Mute (arrivals s.connection [m] ++ coming)) :
    c.takings n m = [] ∧ ∃ s', (c.step m).session? n = some s' ∧ s'.connection = s.connection ∧
      s'.Mute coming := by
  have hid := id_of_session? hs
  obtain ⟨s', hs', hchange⟩ := change hs m
  cases hchange with
  | received hm hdeserted hstep =>
    rw [hid] at hm
    subst hm
    obtain ⟨htaking, hmute⟩ := h.receives hstep
    rw [takings_receiver hs hdeserted, htaking]
    exact ⟨rfl, s', hs', (Session.receiverStep_leaves hstep).1, hmute⟩
  | stalled hm hdeserted hstep =>
    rw [hid] at hm
    subst hm
    rw [takings_receiver hs hdeserted, Session.taking?_eq_none hstep]
    exact ⟨rfl, s, hs', rfl, h⟩
  | deserted hm hdeserted =>
    rw [hid] at hm
    subst hm
    refine ⟨?_, _, hs', rfl, h.congr rfl rfl⟩
    rw [takings, hs]
    simp [hdeserted]
  | arrived hm =>
    subst hm
    rw [arrivals_singleton] at h
    exact ⟨rfl, _, hs', rfl, h.congr rfl rfl⟩
  | aside hm harrive hkept =>
    rw [hid] at hm
    rw [arrivals_singleton_of_ne harrive] at h
    exact ⟨takings_eq_nil hm, s', hs', hkept.connection_eq,
      h.congr hkept.receiver_eq (by rw [hkept.inbound_eq]; rfl)⟩

/-- In a whole run nothing is taken from a session that is `Mute`. -/
theorem trace_takings_of_mute (hs : c.session? n = some s)
    (h : s.Mute (arrivals s.connection ms ++ coming)) : c.trace (takings n) ms = [] := by
  induction ms generalizing c s with
  | nil => rfl
  | cons m ms ih =>
    rw [arrivals_cons, List.append_assoc] at h
    obtain ⟨htakings, s', hs', hconnection, hmute⟩ := mute_step hs h
    rw [trace, htakings, ih hs' (hconnection ▸ hmute), List.append_nil]

/-- A session that is to `stop` stays so. -/
theorem stopped_run (hs : c.session? n = some s) (hstop : s.stop = true) (ms : List Move) :
    ∃ s', (c.run ms).session? n = some s' ∧ s'.stop = true := by
  induction ms generalizing c s with
  | nil => exact ⟨s, hs, hstop⟩
  | cons m ms ih =>
    cases dealing hs m with
    | took _ hs' => exact ih hs' ((Session.dispatch_leaves _ _).2.2.2.2.1.trans hstop)
    | quiet _ hs' hquiet => exact ih hs' (hquiet.stop hstop)

/-! ### The packet is taken -/

/-- The receiver of a session does not look at its connection past a deadline while there are fewer
than `size` octets. -/
def Prompt (n k size deadline : Nat) (i : Inbound) (c : Client) (ms : List Move) : Prop :=
  ∀ ms₁ ms₂, ms = ms₁ ++ .receiver n :: ms₂ →
    ((arrivals k ms₁).foldl Inbound.receive i).pending.length < size → (c.run ms₁).now < deadline

/-- What is `Prompt` is so after the first move. -/
theorem Prompt.tail {size deadline : Nat} (h : c.Prompt n k size deadline i (m :: ms)) :
    (c.step m).Prompt n k size deadline ((arrivals k [m]).foldl Inbound.receive i) ms := by
  rintro ms₁ ms₂ rfl hlt
  refine h (m :: ms₁) ms₂ rfl ?_
  rwa [arrivals_cons, List.foldl_append]

/-- What a move does while a packet is expected: it is still expected (`Session.Amid`), the session is
to stop, or the packet is taken and its octets are gone. -/
inductive Expected (n : Nat) (payload : String) (start : Nat) (i : Inbound) (c : Client) (m : Move)
    (s s' : Session) : Prop
  | pending : c.takings n m = [] →
      s'.Amid payload start ((arrivals s.connection [m]).foldl Inbound.receive i) →
      Expected n payload start i c m s s'
  | stopped : c.takings n m = [] → s'.stop = true → (∀ coming, s'.Mute coming) →
      Expected n payload start i c m s s'
  | taken : m = .receiver n → c.takings n m = [(payload, s.loggers)] →
      s'.receiver = .reading (.start c.now) ∨ (∃ t, s'.receiver = .ringing t) →
      (Frame.encode payload).length ≤ i.pending.length →
      s'.inbound = ⟨i.pending.drop (Frame.encode payload).length, i.tail⟩ →
      Expected n payload start i c m s s'

/-- One action of the receiver while a packet is expected. -/
theorem expected_received {s' : Session} (hs : c.session? n = some s) (h : s.Amid payload start i)
    (hfits : Frame.Fits s.limits.maxSize payload) (hnow : start ≤ c.now)
    (hoctets : (coming.foldl Inbound.receive i).pending = Frame.encode payload ++ more)
    (htime : i.pending.length < (Frame.encode payload).length →
      ∀ limit, s.limits.timeout = some limit → c.now < start + limit)
    (hdeserted : c.isDeserted s = false) (hstep : s.receiverStep c.now = some s') :
    Expected n payload start i c (.receiver n) s s' := by
  obtain ⟨r, hreceiver, hadvanced⟩ := h.poll hfits hoctets hnow htime
  have htakings := takings_receiver hs hdeserted
  have harrivals : arrivals s.connection [.receiver n] = [] := rfl
  cases Session.receives hstep with
  | wound hother | rang hother => cases hreceiver.symm.trans hother
  | stopped hother hstop =>
    refine .stopped ?_ hstop fun _ => .ending rfl
    rw [htakings, Session.taking?, hreceiver]
    simp [hstop]
  | @waited r' r'' inbound hother hstop hpoll =>
    cases hreceiver.symm.trans hother
    rw [Session.taking?_of_poll hreceiver hstop, hpoll] at htakings
    rw [hpoll] at hadvanced
    cases hadvanced with
    | ongoing _ hpartway =>
      refine .pending htakings ⟨r'', i.pending, rfl, hpartway, ?_⟩
      rw [List.append_nil]
      rfl
  | @took r' payload' inbound hother hstop hpoll =>
    cases hreceiver.symm.trans hother
    rw [Session.taking?_of_poll hreceiver hstop, hpoll] at htakings
    rw [hpoll] at hadvanced
    cases hadvanced with
    | finished hall =>
      exact .taken rfl htakings (Session.receiver_dispatch _ _) hall
        (Session.dispatch_leaves _ _).2.2.2.1
  | closed hother hstop hpoll | failed hother hstop hpoll =>
    cases hreceiver.symm.trans hother
    rw [hpoll] at hadvanced
    cases hadvanced

/-- One move while a packet is expected, by `change`: only the receiver can take it. -/
theorem expected_step (hs : c.session? n = some s) (h : s.Amid payload start i)
    (hfits : Frame.Fits s.limits.maxSize payload) (hnow : start ≤ c.now)
    (hoctets : (coming.foldl Inbound.receive i).pending = Frame.encode payload ++ more)
    (htime : m = .receiver n → i.pending.length < (Frame.encode payload).length →
      ∀ limit, s.limits.timeout = some limit → c.now < start + limit) :
    ∃ s', (c.step m).session? n = some s' ∧ s'.connection = s.connection ∧ s'.config = s.config ∧
      Expected n payload start i c m s s' := by
  have hid := id_of_session? hs
  obtain ⟨s', hs', hchange⟩ := change hs m
  cases hchange with
  | received hm hdeserted hstep =>
    rw [hid] at hm
    obtain ⟨hconnection, -, hconfig, -⟩ := Session.receiverStep_leaves hstep
    refine ⟨s', hs', hconnection, hconfig, ?_⟩
    subst hm
    exact expected_received hs h hfits hnow hoctets (htime rfl) hdeserted hstep
  | stalled hm hdeserted hstep =>
    rw [hid] at hm
    subst hm
    refine ⟨s, hs', rfl, rfl, .pending ?_ h⟩
    rw [takings_receiver hs hdeserted, Session.taking?_eq_none hstep]
    rfl
  | deserted hm hdeserted =>
    rw [hid] at hm
    subst hm
    refine ⟨_, hs', rfl, rfl, .pending ?_ h⟩
    rw [takings, hs]
    simp [hdeserted]
  | arrived hm =>
    subst hm
    refine ⟨_, hs', rfl, rfl, .pending rfl ?_⟩
    rw [arrivals_singleton]
    exact h.arrived _
  | aside hm harrive hkept =>
    rw [hid] at hm
    refine ⟨s', hs', hkept.connection_eq, hkept.config_eq, .pending (takings_eq_nil hm) ?_⟩
    rw [arrivals_singleton_of_ne harrive]
    exact h.kept hkept

/-- What comes of a packet in a run: it is still expected (`Session.Amid`), the session is to stop, or
the packet is taken first, and nothing after it if no octets follow. -/
inductive Awaited (n : Nat) (payload : String) (more : List UInt8) (start : Nat) (i : Inbound)
    (c : Client) (ms : List Move) (s : Session) : Prop
  | pending {s' : Session} : c.trace (takings n) ms = [] → (c.run ms).session? n = some s' →
      s'.config = s.config → start ≤ (c.run ms).now →
      s'.Amid payload start ((arrivals s.connection ms).foldl Inbound.receive i) →
      Awaited n payload more start i c ms s
  | stopped {s' : Session} : c.trace (takings n) ms = [] → (c.run ms).session? n = some s' →
      s'.stop = true → Awaited n payload more start i c ms s
  | taken {loggers : List String} {later : List (String × List String)} :
      c.trace (takings n) ms = (payload, loggers) :: later → (more = [] → later = []) →
      Awaited n payload more start i c ms s

/-- From a session that is `Session.Amid` a packet, a run takes this packet next, or none at all.
Induction on the moves, with `expected_step` for each. -/
theorem next_taken (hs : c.session? n = some s) (h : s.Amid payload start i)
    (hfits : Frame.Fits s.limits.maxSize payload) (hnow : start ≤ c.now)
    (hoctets : ((arrivals s.connection ms ++ coming).foldl Inbound.receive i).pending =
      Frame.encode payload ++ more)
    (hprompt : ∀ limit, s.limits.timeout = some limit →
      c.Prompt n s.connection (Frame.encode payload).length (start + limit) i ms) :
    Awaited n payload more start i c ms s := by
  -- The stream with its octets put back stays the same when the receiver takes some of them, so it
  -- grows by what arrives and by nothing else.
  induction ms generalizing c s i with
  | nil => exact .pending rfl hs rfl hnow h
  | cons m ms ih =>
    obtain ⟨s', hs', hconnection, hconfig, hexpected⟩ := expected_step (m := m) hs h hfits hnow hoctets
      fun hm hlt limit hlimit => hprompt limit hlimit [] ms (by rw [hm]; rfl) hlt
    have hlimits : s'.limits = s.limits := by rw [Session.limits, hconfig, Session.limits]
    have hnow' : start ≤ (c.step m).now := Nat.le_trans hnow (c.now_le_step m)
    rw [arrivals_cons, List.append_assoc, List.foldl_append, ← hconnection] at hoctets
    cases hexpected with
    | pending htakings hamid =>
      rw [← hconnection] at hamid
      have hrest := ih hs' hamid (hlimits ▸ hfits) hnow' hoctets fun limit hlimit => by
        rw [hconnection]
        exact (hprompt limit (hlimits ▸ hlimit)).tail
      have htrace : c.trace (takings n) (m :: ms) = (c.step m).trace (takings n) ms := by
        rw [trace, htakings, List.nil_append]
      cases hrest with
      | pending hnil hs'' hconfig'' hnow'' hamid'' =>
        refine .pending (htrace.trans hnil) hs'' (hconfig''.trans hconfig) hnow'' ?_
        rw [arrivals_cons, List.foldl_append, ← hconnection]
        exact hamid''
      | stopped hnil hs'' hstop => exact .stopped (htrace.trans hnil) hs'' hstop
      | taken hcons hlater => exact .taken (htrace.trans hcons) hlater
    | stopped htakings hstop hmute =>
      obtain ⟨s'', hs'', hstop''⟩ := stopped_run hs' hstop ms
      have hnil := trace_takings_of_mute hs' (hmute (arrivals s'.connection ms ++ []))
      exact .stopped (by rw [trace, htakings, hnil, List.append_nil]) hs'' hstop''
    | taken hm htakings hreceiver hall hinbound =>
      refine .taken (by rw [trace, htakings]; rfl) fun hmore => ?_
      -- Nothing arrives with the move itself, so all octets but those of the packet are left.
      have hleft : ((arrivals s'.connection ms ++ coming).foldl Inbound.receive s'.inbound).pending =
          [] := by
        obtain ⟨later, -, hfold⟩ :=
          Inbound.exists_later i.tail (arrivals s'.connection ms ++ coming)
        have hi : (arrivals s'.connection [m]).foldl Inbound.receive i = ⟨i.pending, i.tail⟩ := by
          rw [hm]
          rfl
        rw [hi, hfold, hmore, List.append_nil] at hoctets
        rw [hinbound, hfold, ← List.drop_append_of_le_length hall, hoctets, List.drop_length]
      obtain hreading | ⟨t, hringing⟩ := hreceiver
      · exact trace_takings_of_mute hs' (.reading hreading hleft)
      · exact trace_takings_of_mute hs' (.ringing hringing hleft)

end Client

end Dbgp
