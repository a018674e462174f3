import Dbgp.Proofs.Reception

/-!
# A connection from its first octet to its end

The whole way of what an engine sends: in chunks of any size, through the handshake, to the receiver,
while tasks, loggers, listeners and other connections do whatever they like in between. A
`Transmission` is an init packet and then payloads of any kind, each within the limit on packets.

Main statement: `Client.transmission_received`. The handshake takes the init packet and leaves every
octet after it; the session then takes the payloads in order, each once, and makes of each what it is.
-/

namespace Dbgp

/-! ## A transmission -/

/-- All that an engine sends over a connection: an init packet `greeting`, then payloads of any kind,
cut into chunks in any way, and then the end of the stream. -/
structure Transmission where
  config : Config
  greeting : String
  init : Init
  payloads : List String
  chunks : List (List UInt8)
  parse_greeting : Init.parse greeting = .ok init
  admits : config.Admits (greeting :: payloads)
  flatten_chunks : chunks.flatten = (greeting :: payloads).flatMap Frame.encode

namespace Transmission

variable (t : Transmission)

/-- What arrives: the `chunks`, and then the end of the stream. -/
def arrivals : List Arrival :=
  t.chunks.map .bytes ++ [.ending]

/-- The octets of the `payloads`, which come after the init packet. -/
def remainder : List UInt8 :=
  t.payloads.flatMap Frame.encode

/-- The `Config` of a transmission admits all of its payloads. -/
theorem admits_payloads : t.config.Admits t.payloads :=
  { t.admits with length_le := fun payload hpayload =>
      t.admits.length_le payload (List.mem_cons_of_mem _ hpayload) }

/-- The `arrivals` bear the frames of the greeting and of all payloads. -/
theorem bears_arrivals :
    Inbound.Bears {} t.arrivals ((t.greeting :: t.payloads).flatMap Frame.encode) := by
  rw [← t.flatten_chunks]
  exact Inbound.bears_chunks t.chunks

/-- As many octets arrive by `arrivals` as these frames have. -/
theorem sum_size_arrivals : (t.arrivals.map Arrival.size).sum =
    (Frame.encode t.greeting).length + t.remainder.length := by
  have hsize : (t.chunks.map (Arrival.size ∘ .bytes)).sum = t.chunks.flatten.length := by
    rw [List.length_flatten]
    rfl
  have hending : ([Arrival.ending].map Arrival.size).sum = 0 := rfl
  rw [arrivals, List.map_append, List.sum_append, hending, List.map_map, hsize, t.flatten_chunks,
    List.flatMap_cons, List.length_append, remainder, Nat.add_zero]

end Transmission

namespace Handshake

/-- A `Handshake` that is going to read the init packet of a transmission. -/
structure Awaits (h : Handshake) (t : Transmission) (coming : List Arrival) : Prop where
  config_eq : h.config = t.config
  wanting : h.packet.Wanting
  bears : ∃ bytes, h.inbound.Bears coming bytes ∧
    h.packet.outcome t.config.maxPacketSize.toNat bytes = (.ok (some t.greeting), t.remainder)

variable {h : Handshake} {t : Transmission} {coming : List Arrival}

/-- `Handshake.act` reads the init packet and not an octet more, or waits for octets of the init
packet that are still to come. -/
theorem Awaits.act (hawaits : h.Awaits t coming) (now : Nat) :
    (∃ inbound, h.act now = some (.finished (.ok t.init), { h with inbound }) ∧
        inbound.Bears coming t.remainder) ∨
      t.remainder.length < (coming.map Arrival.size).sum ∧
        (now < h.deadline → h.act now = none ∨ ∃ packet,
          h.act now = some (.ongoing { h with packet, inbound := {} },
            { h with packet, inbound := {} }) ∧
          { h with packet, inbound := {} }.Awaits t coming) := by
  obtain ⟨hconfig, hwanting, bytes, hbears, houtcome⟩ := hawaits
  have hlimits : h.limits = ⟨t.config.maxPacketSize.toNat, none⟩ := by
    rw [limits, hconfig, t.admits.readTimeout_eq]
    rfl
  have hpolled := PacketRead.polled t.config.maxPacketSize.toNat now hwanting hbears
  rw [← hlimits] at hpolled
  rw [Handshake.act]
  generalize h.packet.poll h.limits now h.inbound = polled at hpolled
  cases hpolled with
  | @finished rest hrest =>
    rw [houtcome] at hrest ⊢
    refine .inl ⟨rest, ?_, hrest⟩
    simp only [conclude, t.parse_greeting]
  | @ongoing packet bytes' hlive hwanting' hbears' houtcome' =>
    refine .inr ⟨?_, fun hnow => ?_⟩
    · have hlt := hwanting'.rest_length_lt (houtcome'.trans houtcome)
      have hle := Schedule.length_foldl_receive_le {} coming
      have heq : coming.foldl Inbound.receive {} = ⟨bytes', .ended⟩ := hbears'
      rw [heq] at hle
      simp only [List.length_nil, Nat.zero_add] at hle
      omega
    · simp only [if_neg (Nat.not_le_of_lt hnow)]
      split
      · exact .inl rfl
      · exact .inr ⟨packet, rfl, hconfig, hwanting', bytes', hbears', houtcome'.trans houtcome⟩

end Handshake

namespace Client

variable {t : Transmission} {k n : Nat} {c : Client} {s : Session} {m : Move} {ms : List Move}
  {coming : List Arrival} {left : List String}

/-! ## Sessions on a transmission -/

/-- A session on the connection of a transmission, with the payloads that are `left` for it to
take. -/
structure Serving (t : Transmission) (k : Nat) (coming : List Arrival) (s : Session)
    (left : List String) : Prop where
  connection_eq : s.connection = k
  init_eq : s.init = some t.init
  config_eq : s.config = t.config
  intake : s.Intake coming left
  unwound : s.Unwound
  blameless : ∀ call ∈ s.told, call.error = none

/-- Whoever leaves a session `Session.Kept` leaves it `Serving`. -/
theorem Serving.kept {s' : Session} (h : Serving t k coming s left) (hkept : s.Kept s') :
    Serving t k coming s' left where
  connection_eq := hkept.connection_eq.trans h.connection_eq
  init_eq := hkept.init_eq.trans h.init_eq
  config_eq := hkept.config_eq.trans h.config_eq
  intake := h.intake.kept hkept
  unwound := h.unwound.kept hkept
  blameless call hcall := (hkept.told call hcall).elim (h.blameless call) id

/-- `receiverStep` takes the first payload that is left, or none, and keeps `Serving`. -/
theorem Serving.receives {s' : Session} {now : Nat} (h : Serving t k coming s left)
    (hadmits : t.config.Admits left) (hstep : s.receiverStep now = some s') :
    ∃ left', left = (s.taking? now).toList ++ left' ∧ Serving t k coming s' left' := by
  have hadmits' : s.config.Admits left := h.config_eq ▸ hadmits
  obtain ⟨hconnection, hinit, hconfig, -, -⟩ := Session.receiverStep_leaves hstep
  obtain ⟨left', hleft, hintake⟩ := h.intake.receives hadmits' hstep
  refine ⟨left', hleft, hconnection.trans h.connection_eq, hinit.trans h.init_eq,
    hconfig.trans h.config_eq, hintake, h.unwound.receives hstep, fun call hcall => ?_⟩
  exact (h.intake.told hstep call hcall).elim (h.blameless call) id

/-- A move by which nothing arrives lets the session take the first payload that is `left` or none. -/
theorem Serving.step (hs : c.session? n = some s) (h : Serving t k coming s left)
    (hadmits : t.config.Admits left) (hm : ∀ what, m ≠ .arrive k what) :
    ∃ s' left', (c.step m).session? n = some s' ∧
      left = (c.takings n m).map Prod.fst ++ left' ∧ Serving t k coming s' left' := by
  have hid := id_of_session? hs
  obtain ⟨s', hs', hchange⟩ := change hs m
  cases hchange with
  | received hm hdeserted hstep =>
    rw [hid] at hm
    obtain ⟨left', hleft, hserving⟩ := h.receives hadmits hstep
    refine ⟨s', left', hs', ?_, hserving⟩
    rw [hm, takings_receiver hs hdeserted, hleft]
    cases s.taking? c.now <;> rfl
  | stalled hm hdeserted hstep =>
    rw [hid] at hm
    refine ⟨s, left, hs', ?_, h⟩
    rw [hm, takings_receiver hs hdeserted, Session.taking?_eq_none hstep]
    rfl
  | deserted hm hdeserted =>
    rw [hid] at hm
    refine ⟨_, left, hs', ?_, { h with intake := h.intake.stopped, unwound := h.unwound.incoming _ _ }⟩
    rw [hm, takings, hs]
    simp [hdeserted]
  | arrived hm' =>
    rw [h.connection_eq] at hm'
    exact absurd hm' (hm _)
  | aside hm' _ hkept =>
    rw [hid] at hm'
    refine ⟨s', left, hs', ?_, h.kept hkept⟩
    rw [takings_eq_nil hm']
    rfl

/-- `Serving` is kept when something arrives that was still to come. -/
theorem Serving.arrived {what : Arrival} (hs : c.session? n = some s)
    (h : Serving t k (what :: coming) s left) :
    ∃ s', (c.step (.arrive k what)).session? n = some s' ∧ Serving t k coming s' left := by
  obtain ⟨s', hs', hchange⟩ := change hs (.arrive k what)
  cases hchange with
  | received hm | stalled hm | deserted hm => cases hm
  | arrived hm =>
    rw [h.connection_eq] at hm
    cases hm
    exact ⟨_, hs', { h with intake := h.intake.arrived, unwound := h.unwound.incoming _ _ }⟩
  | aside _ hm => exact absurd (by rw [h.connection_eq]) (hm what)

/-- Once all has arrived, the receiver is `ended` after a number of actions, and if nobody asks it to
stop it takes all payloads before. -/
theorem exists_ended {fuel : Nat} (hs : c.session? n = some s) (h : Serving t k [] s left)
    (hadmits : t.config.Admits left) (hfuel : s.toDo left + (!s.stop).toNat < fuel) :
    ∃ N s', (c.run (List.replicate N (.receiver n))).session? n = some s' ∧ s'.receiver = .ended ∧
      (s.stop = false → c.isDeserted s = false → s'.stop = false) := by
  induction fuel generalizing c s left with
  | zero => omega
  | succ fuel ih =>
    by_cases hended : s.receiver = .ended
    · exact ⟨0, s, hs, hended, fun hstop _ => hstop⟩
    · have hid := id_of_session? hs
      by_cases hdeserted : c.isDeserted s = true
      · obtain ⟨s₁, hs₁, hchange⟩ := change_receiver hs
        cases hchange with
        | deserted =>
          have hstop : s.stop = false := by
            simp only [isDeserted, decide_eq_true_eq] at hdeserted
            simpa using hdeserted.2.1
          have hserving : Serving t k [] { s with stop := true } left :=
            { h with intake := h.intake.stopped, unwound := h.unwound.incoming _ _ }
          obtain ⟨N, s', hs', hended', -⟩ := ih hs₁ hserving hadmits (by
            rw [hstop] at hfuel
            show s.toDo left + 0 < fuel
            simp only [Bool.not_false, Bool.toNat_true] at hfuel
            omega)
          refine ⟨N + 1, s', ?_, hended', fun _ hnot => ?_⟩
          · rw [List.replicate_succ]
            exact hs'
          · cases hdeserted.symm.trans hnot
        | received _ hnot | stalled _ hnot => cases hdeserted.symm.trans hnot
        | arrived hm => cases hm
        | aside hm => exact absurd (by rw [hid]) hm
      · have hdeserted : c.isDeserted s = false := by simpa using hdeserted
        have hadmits' : s.config.Admits left := h.config_eq ▸ hadmits
        obtain ⟨s₁, hstep⟩ := h.intake.exists_receiverStep hadmits' hended c.now
        obtain ⟨left₁, hleft, hserving⟩ := h.receives hadmits hstep
        obtain ⟨-, -, -, hstop, howned⟩ := Session.receiverStep_leaves hstep
        have hid₁ := (Session.receiverStep_keeps hstep).1
        have hstep₁ := step_receiver hs hdeserted hstep
        have hs₁ : (c.putSession s₁).session? n = some s₁ := by
          rw [session?_putSession hs s₁ (hid₁.trans hid), if_pos rfl]
        have hdeserted₁ : (c.putSession s₁).isDeserted s₁ = c.isDeserted s := by
          rw [isDeserted, isDeserted, howned, hstop, hid₁]
          rfl
        have hlt := h.intake.toDo_lt hadmits' hstep hleft
        have hadmits₁ : t.config.Admits left₁ :=
          { hadmits with length_le := fun payload hpayload =>
              hadmits.length_le payload (hleft ▸ List.mem_append_right _ hpayload) }
        obtain ⟨N, s', hs', hended', hstop'⟩ := ih hs₁ hserving hadmits₁ (by
          rw [hstop]
          omega)
        refine ⟨N + 1, s', ?_, hended', fun hs₀ hd₀ => hstop' (hstop.trans hs₀) (hdeserted₁.trans hd₀)⟩
        rw [List.replicate_succ, show c.run (.receiver n :: List.replicate N (.receiver n)) =
          (c.step (.receiver n)).run (List.replicate N (.receiver n)) from rfl, hstep₁]
        exact hs'

/-! ## Runs -/

/-- What arrives on a connection in a run, by the moves `arrive`. -/
def arrivals (k : Nat) (ms : List Move) : List Arrival :=
  ms.filterMap fun
    | .arrive j what => if j = k then some what else none
    | _ => none

/-- `arrivals` with one more arrival on the connection. -/
theorem arrivals_concat (k : Nat) (ms : List Move) (what : Arrival) :
    arrivals k (ms ++ [.arrive k what]) = arrivals k ms ++ [what] := by
  simp [arrivals, List.filterMap_append]

/-- Moves other than `arrive` bring nothing. -/
theorem arrivals_concat_of_ne (hm : ∀ what, m ≠ .arrive k what) :
    arrivals k (ms ++ [m]) = arrivals k ms := by
  have hnone : arrivals k [m] = [] := by
    cases m with
    | arrive j what =>
      have hj : j ≠ k := fun hj => hm what (by rw [hj])
      simp [arrivals, hj]
    | _ => rfl
  rw [arrivals, List.filterMap_append]
  exact (congrArg _ hnone).trans (List.append_nil _)

/-- The handshake of a connection is not looked at past a deadline while octets of its first `size`
octets are missing. -/
def InTime (k size deadline : Nat) (c : Client) (ms : List Move) : Prop :=
  ∀ ms₁ ms₂, ms = ms₁ ++ .handshake k :: ms₂ →
    ((arrivals k ms₁).map Arrival.size).sum < size → (c.run ms₁).now < deadline

/-- What is `InTime` was so before the last move. -/
theorem InTime.of_concat {size deadline : Nat} (h : InTime k size deadline c (ms ++ [m])) :
    InTime k size deadline c ms := by
  rintro ms₁ ms₂ rfl
  exact h ms₁ (ms₂ ++ [m]) (by simp)

/-- A session was opened by the `Handshake` of a connection, which had left all octets after the init
packet unread. -/
def Opened (t : Transmission) (k : Nat) (c : Client) (ms : List Move) (n : Nat) : Prop :=
  ∃ ms₁ ms₂ inbound outlet, ms = ms₁ ++ .handshake k :: ms₂ ∧
    (c.run (ms₁ ++ [.handshake k])).session? n =
      some (.new n k (c.run ms₁).now (some t.init) t.config inbound outlet) ∧
    ∀ coming, arrivals k ms₁ ++ coming = t.arrivals → inbound.Bears coming t.remainder

/-- A session that was `Opened` stays so. -/
theorem Opened.concat (h : Opened t k c ms n) : Opened t k c (ms ++ [m]) n := by
  obtain ⟨ms₁, ms₂, inbound, outlet, rfl, hopened⟩ := h
  exact ⟨ms₁, ms₂ ++ [m], inbound, outlet, by simp, hopened⟩

/-- The init packet of a `Transmission` has not been read. -/
structure Awaiting (t : Transmission) (k deadline : Nat) (c : Client) (ms : List Move)
    (coming : List Arrival) : Prop where
  lt_next : k < (c.run ms).nextConnection
  handshake : ∃ h, (c.run ms).handshake? k = some h ∧ h.Awaits t coming ∧ h.deadline = deadline
  greeted : (c.run ms).greeted.filter (fun e => e.1 = k) = []
  untaken : ∀ n, (c.run ms).nextSession ≤ n → c.session? n = none ∧ c.trace (takings n) ms = []

/-- The init packet of a `Transmission` has been read, and some payloads have been taken. -/
structure Attending (t : Transmission) (k : Nat) (c : Client) (ms : List Move)
    (coming : List Arrival) (n : Nat) (s : Session) (left : List String) : Prop where
  lt_next : k < (c.run ms).nextConnection
  handshake : (c.run ms).handshake? k = none
  greeted : (c.run ms).greeted.filter (fun e => e.1 = k) = [(k, .ok n)]
  absent : c.session? n = none
  session : (c.run ms).session? n = some s
  serving : Serving t k coming s left
  taken : (c.trace (takings n) ms).map Prod.fst ++ left = t.payloads
  opened : Opened t k c ms n

/-- Numbers of connections are not given back: `nextConnection` does not sink. -/
theorem lt_nextConnection_step (h : k < c.nextConnection) (m : Move) :
    k < (c.step m).nextConnection :=
  Nat.lt_of_lt_of_le h (follows_step c m).connections.next_le

/-- A handshake that is over stays over, and what was `greeted` with it stays. -/
theorem handshake?_step_of_none (hlt : k < c.nextConnection) (hk : c.handshake? k = none) (m : Move) :
    (c.step m).handshake? k = none ∧
      (c.step m).greeted.filter (fun e => e.1 = k) = c.greeted.filter fun e => e.1 = k := by
  by_cases hm : m = .handshake k
  · rw [hm, step_handshake_of_none hk]
    exact ⟨hk, rfl⟩
  · refine ⟨?_, greeted_step hm⟩
    have hchange := handshake?_step hlt hm
    rw [hk] at hchange
    generalize (c.step m).handshake? k = after at hchange
    cases hchange <;> rfl

/-- The `Config` admits the payloads that are left. -/
theorem Attending.admits (h : Attending t k c ms coming n s left) : t.config.Admits left where
  size_lt := t.admits.size_lt
  readTimeout_eq := t.admits.readTimeout_eq
  length_le payload hpayload :=
    t.admits_payloads.length_le payload (h.taken ▸ List.mem_append_right _ hpayload)

/-- A move by which nothing arrives leaves a transmission `Attending`. -/
theorem Attending.step (h : Attending t k c ms coming n s left) (hm : ∀ what, m ≠ .arrive k what) :
    ∃ s' left', Attending t k c (ms ++ [m]) coming n s' left' := by
  obtain ⟨s', left', hs', hleft, hserving⟩ := h.serving.step h.session h.admits hm
  obtain ⟨hhandshake, hgreeted⟩ := handshake?_step_of_none h.lt_next h.handshake m
  refine ⟨s', left', ?_, ?_, ?_, h.absent, ?_, hserving, ?_, h.opened.concat⟩
  · rw [run_concat]
    exact lt_nextConnection_step h.lt_next m
  · rw [run_concat, hhandshake]
  · rw [run_concat, hgreeted, h.greeted]
  · rw [run_concat, hs']
  · rw [trace_concat, List.map_append, List.append_assoc, ← hleft, h.taken]

/-- `Attending` is kept by an arrival. -/
theorem Attending.arrived {what : Arrival} (h : Attending t k c ms (what :: coming) n s left) :
    ∃ s', Attending t k c (ms ++ [.arrive k what]) coming n s' left := by
  obtain ⟨s', hs', hserving⟩ := h.serving.arrived h.session
  obtain ⟨hhandshake, hgreeted⟩ := handshake?_step_of_none h.lt_next h.handshake (.arrive k what)
  refine ⟨s', ?_, ?_, ?_, h.absent, ?_, hserving, ?_, h.opened.concat⟩
  · rw [run_concat]
    exact lt_nextConnection_step h.lt_next _
  · rw [run_concat, hhandshake]
  · rw [run_concat, hgreeted, h.greeted]
  · rw [run_concat, hs']
  · rw [trace_concat, takings_eq_nil (by simp), List.append_nil, h.taken]

/-- Nobody takes anything from a session that is still to be opened, so it has no `takings`. -/
theorem Awaiting.untaken_step {deadline : Nat} (h : Awaiting t k deadline c ms coming)
    (hc : (c.run ms).Distinct) (m : Move) (n : Nat)
    (hn : ((c.run ms).step m).nextSession ≤ n) :
    c.session? n = none ∧ c.trace (takings n) (ms ++ [m]) = [] := by
  have hle := (follows_step (c.run ms) m).sessions.next_le
  obtain ⟨habsent, htrace⟩ := h.untaken n (Nat.le_trans hle hn)
  have hnone := hc.session?_eq_none (Nat.le_trans hle hn)
  exact ⟨habsent, by rw [trace_concat, htrace, takings_of_none hnone, List.append_nil]⟩

/-- A move by which nothing arrives, and which is not that of the handshake, leaves a transmission
`Awaiting`. -/
theorem Awaiting.step {deadline : Nat} (h : Awaiting t k deadline c ms coming)
    (hc : (c.run ms).Distinct) (hm : ∀ what, m ≠ .arrive k what) (hk : m ≠ .handshake k) :
    Awaiting t k deadline c (ms ++ [m]) coming := by
  obtain ⟨d, hd, hawaits, hdeadline⟩ := h.handshake
  have hchange := handshake?_step h.lt_next hk
  rw [hd] at hchange
  refine ⟨?_, ?_, ?_, fun n hn => h.untaken_step hc m n (run_concat c ms m ▸ hn)⟩
  · rw [run_concat]
    exact lt_nextConnection_step h.lt_next m
  · rw [run_concat]
    generalize ((c.run ms).step m).handshake? k = after at hchange
    cases hchange with
    | arrived what harrive => exact absurd harrive (hm what)
    | aside f => exact ⟨_, rfl, { hawaits with }, hdeadline⟩
  · rw [run_concat, greeted_step hk, h.greeted]

/-- `Awaiting` is kept by an arrival. -/
theorem Awaiting.arrived {deadline : Nat} {what : Arrival}
    (h : Awaiting t k deadline c ms (what :: coming)) (hc : (c.run ms).Distinct) :
    Awaiting t k deadline c (ms ++ [.arrive k what]) coming := by
  obtain ⟨d, hd, hawaits, hdeadline⟩ := h.handshake
  have hchange := handshake?_step (m := .arrive k what) h.lt_next (by simp)
  rw [hd] at hchange
  refine ⟨?_, ?_, ?_, fun n hn => h.untaken_step hc _ n (run_concat c ms _ ▸ hn)⟩
  · rw [run_concat]
    exact lt_nextConnection_step h.lt_next _
  · rw [run_concat]
    generalize ((c.run ms).step (.arrive k what)).handshake? k = after at hchange
    cases hchange with
    | arrived what' harrive =>
      cases harrive
      exact ⟨_, rfl, { hawaits with bears := hawaits.bears }, hdeadline⟩
    | aside f hm => exact absurd rfl (hm what)
  · rw [run_concat, greeted_step (by simp), h.greeted]

/-- The handshake opens a session once the init packet is there (`Attending`), and waits for it until
then. -/
theorem Awaiting.handshaken {deadline : Nat} (h : Awaiting t k deadline c ms coming)
    (hc : (c.run ms).Distinct) (harrivals : arrivals k ms ++ coming = t.arrivals)
    (hnow : t.remainder.length < (coming.map Arrival.size).sum → (c.run ms).now < deadline) :
    (∃ n s, Attending t k c (ms ++ [.handshake k]) coming n s t.payloads) ∨
      t.remainder.length < (coming.map Arrival.size).sum ∧
        Awaiting t k deadline c (ms ++ [.handshake k]) coming := by
  obtain ⟨d, hd, hawaits, hdeadline⟩ := h.handshake
  have hlt := lt_nextConnection_step h.lt_next (.handshake k)
  obtain ⟨inbound, hact, hbears⟩ | ⟨hmissing, hwaits⟩ := hawaits.act (c.run ms).now
  · left
    have hstep := step_handshake_of_ok hd hact
    obtain ⟨habsent, huntaken⟩ := h.untaken _ (Nat.le_refl _)
    have hsession : ((c.run ms).step (.handshake k)).session? (c.run ms).nextSession =
        some (.new (c.run ms).nextSession k (c.run ms).now (some t.init) t.config inbound d.outlet) := by
      rw [hstep, session?, List.find?_append, ← session?, hc.session?_eq_none (Nat.le_refl _),
        hawaits.config_eq, Option.none_or]
      exact List.find?_cons_of_pos (decide_eq_true (Eq.refl (c.run ms).nextSession))
    refine ⟨(c.run ms).nextSession, _, ?_, ?_, ?_, habsent, (run_concat ..).symm ▸ hsession, ?_, ?_, ?_⟩
    · rwa [run_concat]
    · rw [run_concat, hstep, handshake?, find?_filter_handshake, if_pos rfl]
    · rw [run_concat, hstep, List.filter_append, h.greeted]
      simp
    · exact ⟨rfl, rfl, rfl, .of_start rfl hbears, Session.unwound_new .., by rintro call ⟨⟩⟩
    · rw [trace_concat, huntaken, takings_eq_nil (by simp)]
      rfl
    · refine ⟨ms, [], inbound, d.outlet, rfl, (run_concat ..).symm ▸ hsession,
        fun coming' hcoming' => ?_⟩
      rwa [List.append_cancel_left (hcoming'.trans harrivals.symm)]
  · right
    refine ⟨hmissing, (run_concat ..).symm ▸ hlt, ?_, ?_,
      fun n hn => h.untaken_step hc _ n (run_concat c ms _ ▸ hn)⟩
    · rw [run_concat]
      obtain hstalled | ⟨packet, hongoing, hawaits'⟩ := hwaits (hdeadline ▸ hnow hmissing)
      · rw [step_handshake_of_stalled hd hstalled]
        exact ⟨d, hd, hawaits, hdeadline⟩
      · rw [step_handshake_of_ongoing hd hongoing]
        refine ⟨{ d with packet, inbound := {} }, ?_, hawaits', hdeadline⟩
        have hconnection := connection_of_handshake? hd
        refine (find?_map_handshake (fun e => ?_) k _).trans ?_
        · split
          · next he => rw [he]; exact hconnection
          · rfl
        · rw [← handshake?, hd, Option.map_some, if_pos hconnection]
    · rw [run_concat]
      obtain hstalled | ⟨packet, hongoing, -⟩ := hwaits (hdeadline ▸ hnow hmissing)
      · rw [step_handshake_of_stalled hd hstalled, h.greeted]
      · rw [step_handshake_of_ongoing hd hongoing]
        exact h.greeted

/-- A connection that is still to be made has neither a handshake nor a result in `greeted`. -/
theorem greeted_eq_nil (before : List Move) (hk : (run {} before).nextConnection ≤ k) :
    (run {} before).handshake? k = none ∧
      (run {} before).greeted.filter (fun e => e.1 = k) = [] := by
  have hnone : ∀ {c : Client}, c.Distinct → c.nextConnection ≤ k → c.handshake? k = none := by
    intro c hc hk
    rw [handshake?, List.find?_eq_none]
    intro h hh
    have hlt := hc.connections.lt_next h.connection (List.mem_map_of_mem hh)
    simpa using Nat.ne_of_lt (Nat.lt_of_lt_of_le hlt hk)
  refine ⟨hnone (distinct_new.run before) hk, ?_⟩
  induction before using List.reverseRecOn with
  | nil => rfl
  | append_singleton ms m ih =>
    rw [run_concat] at hk ⊢
    have hk' := Nat.le_trans (follows_step (run {} ms) m).connections.next_le hk
    by_cases hm : m = .handshake k
    · rw [hm, step_handshake_of_none (hnone (distinct_new.run ms) hk')]
      exact ih hk'
    · rw [greeted_step hm]
      exact ih hk'

/-- `Awaiting` holds of a connection that has just been accepted. -/
theorem awaiting_accept (t : Transmission) (before : List Move) :
    Awaiting t (run {} before).nextConnection
      ((run {} before).now + t.config.handshakeTimeout.toNat)
      ((run {} before).step (.accept t.config)) [] t.arrivals := by
  obtain ⟨hnone, hgreeted⟩ := greeted_eq_nil before (Nat.le_refl _)
  refine ⟨Nat.lt_succ_self _, ?_, hgreeted, fun n hn => ⟨?_, rfl⟩⟩
  · have hfound : ((run {} before).step (.accept t.config)).handshake? (run {} before).nextConnection =
        some { connection := (run {} before).nextConnection, config := t.config
               packet := .start (run {} before).now
               deadline := (run {} before).now + t.config.handshakeTimeout.toNat } := by
      rw [step, accept, handshake?, List.find?_append, ← handshake?, hnone, Option.none_or]
      exact List.find?_cons_of_pos (decide_eq_true (Eq.refl (run {} before).nextConnection))
    have hfits := t.admits.length_le t.greeting List.mem_cons_self
    exact ⟨_, hfound, ⟨rfl, PacketRead.wanting_start _, _, t.bears_arrivals,
      PacketRead.outcome_start_cons t.admits.size_lt hfits _ _⟩, rfl⟩
  · exact ((distinct_new.run before).follows (follows_step _ _)).session?_eq_none hn

/-- At every moment the init packet is awaited (`Awaiting`) or the payloads are being taken
(`Attending`). Induction on the moves from the last one, one case for each of the steps before. -/
theorem awaiting_or_attending {before : List Move}
    (harrivals : arrivals (run {} before).nextConnection ms ++ coming = t.arrivals)
    (hintime : InTime (run {} before).nextConnection (Frame.encode t.greeting).length
      ((run {} before).now + t.config.handshakeTimeout.toNat)
      ((run {} before).step (.accept t.config)) ms) :
    Awaiting t (run {} before).nextConnection
        ((run {} before).now + t.config.handshakeTimeout.toNat)
        ((run {} before).step (.accept t.config)) ms coming ∨
      ∃ n s left, Attending t (run {} before).nextConnection
        ((run {} before).step (.accept t.config)) ms coming n s left := by
  have hdistinct : ∀ ms, (((run {} before).step (.accept t.config)).run ms).Distinct := fun ms =>
    ((distinct_new.run before).follows (follows_step _ _)).run ms
  have hbase := awaiting_accept t before
  generalize (run {} before).nextConnection = k at *
  generalize (run {} before).now + t.config.handshakeTimeout.toNat = deadline at *
  generalize (run {} before).step (.accept t.config) = c at *
  induction ms using List.reverseRecOn generalizing coming with
  | nil =>
    have hcoming : coming = t.arrivals := harrivals
    exact .inl (hcoming ▸ hbase)
  | append_singleton ms m ih =>
    by_cases harrive : ∃ what, m = .arrive k what
    · obtain ⟨what, rfl⟩ := harrive
      rw [arrivals_concat, List.append_assoc] at harrivals
      obtain hawaiting | ⟨n, s, left, hattending⟩ := ih harrivals hintime.of_concat
      · exact .inl (hawaiting.arrived (hdistinct ms))
      · obtain ⟨s', h⟩ := hattending.arrived
        exact .inr ⟨n, s', left, h⟩
    · have hm : ∀ what, m ≠ .arrive k what := fun what hm => harrive ⟨what, hm⟩
      rw [arrivals_concat_of_ne hm] at harrivals
      obtain hawaiting | ⟨n, s, left, hattending⟩ := ih harrivals hintime.of_concat
      · by_cases hk : m = .handshake k
        · subst hk
          have hnow : t.remainder.length < (coming.map Arrival.size).sum →
              (c.run ms).now < deadline := by
            intro hmissing
            refine hintime ms [] rfl ?_
            have hsum := t.sum_size_arrivals
            rw [← harrivals, List.map_append, List.sum_append] at hsum
            omega
          obtain ⟨n, s, h⟩ | ⟨-, h⟩ := hawaiting.handshaken (hdistinct ms) harrivals hnow
          · exact .inr ⟨n, s, _, h⟩
          · exact .inl h
        · exact .inl (hawaiting.step (hdistinct ms) hm hk)
      · obtain ⟨s', left', h⟩ := hattending.step hm
        exact .inr ⟨n, s', left', h⟩

/-- What has become of a transmission after the moves `ms`, once its init packet has been read: a
session `s` with the number `n`, which has taken the payloads `done`. -/
structure Served (t : Transmission) (k : Nat) (c : Client) (ms : List Move) (n : Nat) (s : Session)
    (done : List String) : Prop where
  session : (c.run ms).session? n = some s
  /-- The handshake had one result, the session. -/
  greeted : (c.run ms).greeted.filter (fun e => e.1 = k) = [(k, .ok n)]
  init_eq : s.init = some t.init
  opened : Opened t k c ms n
  /-- Payloads are taken one after the other, and none is left out. -/
  taken : (c.trace (takings n) ms).map Prod.fst = done
  done_le : ∃ left, done ++ left = t.payloads
  /-- Each payload is shown once to each logger that is registered when it is taken. -/
  heard : s.heard = (c.trace (takings n) ms).flatMap fun e => e.2.map fun logger => (logger, e.1)
  notifies : c.trace (gains n fun s => s.notifies.items) ms = done.filterMap Packet.notify?
  outputs : c.trace (gains n fun s => s.outputs.items) ms = done.filterMap Packet.output?
  responses : (c.history ms).filterMap (response? n) = done.filterMap Packet.response?
  /-- A payload that is no packet is shown to the loggers, and nothing else comes of it. -/
  malformed : ∀ ms₁ ms₂ payload loggers e, ms = ms₁ ++ .receiver n :: ms₂ →
    (c.run ms₁).takings n (.receiver n) = [(payload, loggers)] → Packet.parse payload = .error e →
    ∃ s₁ inbound, (c.run ms₁).session? n = some s₁ ∧ (c.run ms₁).step (.receiver n) =
      (c.run ms₁).putSession
        ({ s₁ with receiver := .reading (.start (c.run ms₁).now), inbound }.logReceived payload)
  /-- Listeners are told of no error. -/
  blameless : ∀ call ∈ s.told, call.error = none
  /-- The receiver ends after the last payload unless it was asked to stop, and then the session has
  come to its end. -/
  ended : s.receiver = .ended → (s.stop = false → done = t.payloads) ∧
    s.lifecycle.stage = .terminated ∧ s.lifecycle.fired = true ∧ s.slots.closed = true ∧
      s.notifies.closed = true ∧ s.outputs.closed = true

/-- A payload that `Packet.parse` refuses is shown to the loggers, and the receiver goes on
reading. -/
theorem logReceived_of_takings {payload : String} {loggers : List String} {e : Error}
    (htakings : c.takings n (.receiver n) = [(payload, loggers)])
    (hparse : Packet.parse payload = .error e) :
    ∃ s inbound, c.session? n = some s ∧ c.step (.receiver n) = c.putSession
      ({ s with receiver := .reading (.start c.now), inbound }.logReceived payload) := by
  cases hs : c.session? n with
  | none =>
    rw [takings_of_none hs] at htakings
    cases htakings
  | some s =>
    by_cases hdeserted : c.isDeserted s = true
    · rw [takings, hs] at htakings
      simp [hdeserted] at htakings
    · have hdeserted : c.isDeserted s = false := by simpa using hdeserted
      rw [takings_receiver hs hdeserted] at htakings
      cases htaking : s.taking? c.now with
      | none =>
        rw [htaking] at htakings
        cases htakings
      | some payload' =>
        rw [htaking] at htakings
        cases htakings
        cases hstep : s.receiverStep c.now with
        | none => cases htaking.symm.trans (Session.taking?_eq_none hstep)
        | some s' =>
          obtain ⟨inbound, rfl⟩ := Session.receiverStep_of_taking? hstep htaking
          refine ⟨s, inbound, rfl, ?_⟩
          rw [step_receiver hs hdeserted hstep, Session.dispatch_of_error hparse]

/-- The account of a transmission in terms of its `trace`. -/
theorem Attending.served (h : Attending t k c ms coming n s left) :
    Served t k c ms n s ((c.trace (takings n) ms).map Prod.fst) := by
  have hheard := heard_run n c ms
  rw [heard, heard, h.session, h.absent] at hheard
  have hkinds : ∀ {α : Type} (kind : String → Option α),
      ((c.trace (takings n) ms).map Prod.fst).filterMap kind =
        (c.trace (takings n) ms).filterMap fun e => kind e.1 := fun kind => List.filterMap_map
  refine ⟨h.session, h.greeted, h.serving.init_eq, h.opened, rfl, ⟨left, h.taken⟩, hheard, ?_, ?_, ?_,
    ?_, h.serving.blameless, ?_⟩
  · rw [trace_gains_notifies, hkinds]
  · rw [trace_gains_outputs, hkinds]
  · rw [responses_history, hkinds]
  · intro ms₁ ms₂ payload loggers e _ htakings hparse
    exact logReceived_of_takings htakings hparse
  · intro hended
    refine ⟨fun hstop => ?_, h.serving.unwound.of_ended hended⟩
    have hleft : left = [] := by
      cases h.serving.intake with
      | ended _ hleft => exact hleft hstop
      | reading hreceiver | ringing hreceiver | ending hreceiver => cases hended.symm.trans hreceiver
    have htaken := h.taken
    rwa [hleft, List.append_nil] at htaken

/-- Actions of the receiver leave a transmission `Attending`. -/
theorem Attending.receivers (h : Attending t k c ms coming n s left) (N : Nat) :
    ∃ s' left', Attending t k c (ms ++ List.replicate N (.receiver n)) coming n s' left' := by
  induction N with
  | zero => exact ⟨s, left, by rwa [List.replicate_zero, List.append_nil]⟩
  | succ N ih =>
    obtain ⟨s', left', h'⟩ := ih
    rw [List.replicate_succ', ← List.append_assoc]
    exact h'.step (by simp)

/-- A connection on which an engine sends an init packet and then payloads of any kind, all within the
limit on packets, cut into chunks in any way, while anybody does anything else in between.

Until the init packet is there the handshake waits; with the next action after that it gives a session
with that init packet, and what is unread then begins right after it. The session takes the payloads
one after the other, shows each to the loggers of that moment, and puts it where it belongs. After the
last of them the receiver comes to its end, and the session with it, unless somebody ended it before. -/
theorem transmission_received (t : Transmission) (before ms : List Move) :
    let k := (run {} before).nextConnection
    let c := (run {} before).step (.accept t.config)
    arrivals k ms <+: t.arrivals →
    InTime k (Frame.encode t.greeting).length
      ((run {} before).now + t.config.handshakeTimeout.toNat) c ms →
    (((c.run ms).handshake? k).isSome ∧ (c.run ms).greeted.filter (fun e => e.1 = k) = [] ∨
        ∃ n s done, Served t k c ms n s done) ∧
      ((Frame.encode t.greeting).length ≤ ((arrivals k ms).map Arrival.size).sum →
        ∃ n s done, Served t k c (ms ++ [.handshake k]) n s done) ∧
      (arrivals k ms = t.arrivals → ∀ n s done, Served t k c ms n s done →
        ∃ N s' done', Served t k c (ms ++ List.replicate N (.receiver n)) n s' done' ∧
          s'.receiver = .ended ∧
          (s.stop = false → (c.run ms).isDeserted s = false → done' = t.payloads)) := by
  intro k c harrivals hintime
  obtain ⟨coming, hcoming⟩ := harrivals
  have hdistinct : (c.run ms).Distinct :=
    ((distinct_new.run before).follows (follows_step _ _)).run ms
  have hunderway := awaiting_or_attending hcoming hintime
  refine ⟨?_, fun hthere => ?_, fun hall n s done hserved => ?_⟩
  · obtain hawaiting | ⟨n, s, left, hattending⟩ := hunderway
    · obtain ⟨h, hh, -⟩ := hawaiting.handshake
      exact .inl ⟨by rw [hh]; rfl, hawaiting.greeted⟩
    · exact .inr ⟨n, s, _, hattending.served⟩
  · have hsum := t.sum_size_arrivals
    rw [← hcoming, List.map_append, List.sum_append] at hsum
    have hnone : ¬t.remainder.length < (coming.map Arrival.size).sum := by omega
    obtain hawaiting | ⟨n, s, left, hattending⟩ := hunderway
    · obtain ⟨n, s, h⟩ | ⟨hmissing, -⟩ :=
        hawaiting.handshaken hdistinct hcoming fun h => absurd h hnone
      · exact ⟨n, s, _, h.served⟩
      · exact absurd hmissing hnone
    · obtain ⟨s', left', h⟩ := hattending.step (m := .handshake k) (by simp)
      exact ⟨n, s', _, h.served⟩
  · have hnil : coming = [] := by
      rw [hall] at hcoming
      exact List.append_right_eq_self.mp hcoming
    subst hnil
    obtain hawaiting | ⟨n', s₁, left, hattending⟩ := hunderway
    · cases hawaiting.greeted.symm.trans hserved.greeted
    · cases hattending.greeted.symm.trans hserved.greeted
      cases hattending.session.symm.trans hserved.session
      obtain ⟨N, s', hs', hended, hstop⟩ := exists_ended hattending.session hattending.serving
        hattending.admits (Nat.lt_succ_self _)
      obtain ⟨s₂, left₂, h⟩ := hattending.receivers N
      have hsame : s₂ = s' := by
        have hs₂ := h.session
        rw [run_append, hs'] at hs₂
        exact (Option.some.inj hs₂).symm
      subst hsame
      exact ⟨N, s₂, _, h.served, hended, fun hs hd => (h.served.ended hended).1 (hstop hs hd)⟩

/-- A `Transmission` of an init packet, text that is no packet, a notification and a response, cut
inside the length field of the first payload. -/
def mixedTransmission : Transmission where
  config := { maxPacketSize := 40 }
  greeting := "<init/>"
  init := {
    appid := none, idekey := none, session := none, thread := none, parent := none, language := none
    protocolVersion := none, fileuri := none }
  payloads := ["a < b", "<notify name='n'/>", "<response transaction_id='1'/>"]
  chunks :=
    let octets := ["<init/>", "a < b", "<notify name='n'/>", "<response transaction_id='1'/>"].flatMap
      Frame.encode
    [octets.take 21, octets.drop 21]
  parse_greeting := by decide +kernel
  admits := ⟨by decide, rfl, by decide⟩
  flatten_chunks := by simp

/-- A session comes of `mixedTransmission`, and its receiver comes to its end in a number of
actions. -/
theorem transmission_received_mixed :
    let t := mixedTransmission
    let c := Client.step {} (.accept t.config)
    let ms := t.arrivals.map (.arrive 1) ++ [.handshake 1]
    arrivals 1 ms <+: t.arrivals ∧ InTime 1 (Frame.encode t.greeting).length 5000 c ms ∧
      (c.run ms).handshake? 1 = none ∧
      ∃ n s done, Served t 1 c ms n s done ∧ ∃ N s' done',
        Served t 1 c (ms ++ List.replicate N (.receiver n)) n s' done' ∧ s'.receiver = .ended := by
  intro t c ms
  have hall : arrivals 1 ms = t.arrivals := rfl
  have hintime : InTime 1 (Frame.encode t.greeting).length 5000 c ms := by
    intro ms₁ ms₂ hms hshort
    -- The handshake moves once, and by then all has arrived.
    obtain ⟨x, y, hmoves, hbefore⟩ : ∃ x y,
        ms = [.arrive 1 x, .arrive 1 y, .arrive 1 .ending, .handshake 1] ∧
          t.arrivals.map (Move.arrive 1) = [.arrive 1 x, .arrive 1 y, .arrive 1 .ending] :=
      ⟨_, _, rfl, rfl⟩
    rw [hmoves] at hms
    have hms₁ : ms₁ = t.arrivals.map (.arrive 1) := by
      rw [hbefore]
      rcases ms₁ with _ | ⟨m₁, _ | ⟨m₂, _ | ⟨m₃, _ | ⟨m₄, ms₁⟩⟩⟩⟩ <;> simp_all
    rw [hms₁] at hshort
    exact absurd hshort (by decide)
  have hnone : (c.run ms).handshake? 1 = none :=
    Option.isNone_iff_eq_none.mp (by decide +kernel)
  have harrivals : arrivals 1 ms <+: t.arrivals := ⟨[], by rw [hall, List.append_nil]⟩
  obtain ⟨hwaits | ⟨n, s, done, hserved⟩, -, hends⟩ := transmission_received t [] ms harrivals hintime
  · have hsome : ((c.run ms).handshake? 1).isSome = true := hwaits.1
    rw [hnone] at hsome
    cases hsome
  · obtain ⟨N, s', done', hserved', hended, -⟩ := hends hall n s done hserved
    exact ⟨harrivals, hintime, hnone, n, s, done, hserved, N, s', done', hserved', hended⟩

/-- An init packet that is longer than `maxPacketSize` is not read. -/
theorem greeted_of_large_init :
    (∃ init, Init.parse "<init/>" = .ok init) ∧
      (run {} [.accept { maxPacketSize := 6 }, .arrive 1 (.bytes (Frame.encode "<init/>")),
        .arrive 1 .ending, .handshake 1]).greeted =
        [(1, .error (.protocol (.packetTooLarge 7 6)))] := by
  refine ⟨⟨_, mixedTransmission.parse_greeting⟩, ?_⟩
  decide +kernel

end Client

end Dbgp
