import Dbgp.Proofs.ClientRun

/-!
# What a task writes

The octets that a task has written are always the start of what it set out to write: for a command
one negotiation at most and then the request of the command, for every other job nothing. `Uttered`
says for every phase of a job how much of that has been written. An action adds just the octets that
it appends to the connection (`Exchange.emitted_act`, `Task.uttered_act`), and with every move of a
client the account stays right (`Accounted.effect`, `Accounted.step_task`).

A negotiation can be cut short by a fault of the connection, and the task goes on all the same. Nothing
can follow the piece that was written, because the session is then on its way to the end, and no
exchange is entered any more. This is why the predicates here depend on whether the session is ending.
-/

namespace Dbgp

/-! ## Single writes -/

/-- What `Outlet.write` does: nothing if the other side has failed, a part, or all of it, and then it
may still fail. -/
inductive Outlet.Writes (o : Outlet) (bytes : List UInt8) : Written → Outlet → Prop
  | refused : o.fault = some .onWrite → Writes o bytes (.failed gone) o
  | part {d left : List UInt8} {room : Option Nat} : o.fault ≠ some .onWrite → d ++ left = bytes →
      left ≠ [] → Writes o bytes (.part left) { o with written := o.written ++ d, room }
  | whole {w : Written} {room : Option Nat} : o.fault ≠ some .onWrite → w = .all ∨ w = .failed gone →
      Writes o bytes w { o with written := o.written ++ bytes, room }

/-- Every write is one of `Outlet.Writes`. -/
theorem Outlet.writes {o o' : Outlet} {bytes : List UInt8} {w : Written}
    (h : o.write bytes = some (w, o')) : o.Writes bytes w o' := by
  unfold write at h
  split at h
  · next hfault =>
    cases h
    exact .refused hfault
  · next hfault =>
    split at h
    · cases h
    · simp only at h
      generalize (o.room.getD bytes.length).min bytes.length = count at h
      split at h
      · next hlt =>
        cases h
        refine .part hfault (List.take_append_drop count bytes) ?_
        rw [ne_eq, List.drop_eq_nil_iff]
        omega
      · next hle =>
        have hall : bytes.take count = bytes := List.take_of_length_le (Nat.le_of_not_lt hle)
        rw [hall] at h
        split at h
        · cases h
          exact .whole hfault (.inr rfl)
        · cases h
          exact .whole hfault (.inl rfl)

/-- `Outlet.write` appends a start of what is to be written, and all of it if it says so. -/
theorem Outlet.written_write {bytes : List UInt8} {o o' : Outlet} {w : Written}
    (h : o.write bytes = some (w, o')) :
    ∃ d, o'.written = o.written ++ d ∧ d <+: bytes ∧ (w = .all → d = bytes) ∧
      ∀ left, w = .part left → d ++ left = bytes := by
  cases writes h with
  | refused => exact ⟨[], (List.append_nil _).symm, List.nil_prefix, by simp, by simp⟩
  | part _ hleft =>
    refine ⟨_, rfl, ⟨_, hleft⟩, by simp, ?_⟩
    rintro left ⟨⟩
    exact hleft
  | whole _ hw =>
    refine ⟨bytes, rfl, List.prefix_rfl, fun _ => rfl, ?_⟩
    rintro left rfl
    obtain hw | hw := hw <;> cases hw

/-! ## Exchanges -/

namespace Exchange

/-- The octets of its request that an exchange has written, where `E` says that the session is ending.
After a fault they may break off anywhere, but then the session is ending or about to be. -/
def Emitted (E : Prop) (x : Exchange) (v : List UInt8) : Prop :=
  match x.phase with
  | .enter | .expect | .announce | .line => v = []
  | .write left => v ++ left = x.request.encode
  | .await _ => v = x.request.encode
  | .failed _ r => v <+: x.request.encode ∧ (r = .begin ∨ E)

/-- The octets of its request that an `Exchange` has written when it is over. -/
def Left (E : Prop) (x : Exchange) (v : List UInt8) : Prop :=
  v = [] ∨ v = x.request.encode ∨ v <+: x.request.encode ∧ E

/-- The octets of its request that an `Exchange` has written after an action. -/
def EmittedThen (E : Prop) (x : Exchange) (v : List UInt8) :
    Progress Exchange (Option Response) → Prop
  | .ongoing x' => x'.request = x.request ∧ x'.Emitted E v
  | .finished _ => x.Left E v

variable {E E' : Prop} {x : Exchange} {v : List UInt8}

/-- A session that is ending allows more, by `Emitted`. -/
theorem Emitted.mono (hE : E → E') (h : x.Emitted E v) : x.Emitted E' v := by
  unfold Emitted at h ⊢
  split
  case h_7 e r hphase =>
    rw [hphase] at h
    exact ⟨h.1, h.2.imp_right hE⟩
  all_goals
    next hphase =>
    rw [hphase] at h
    exact h

/-- What is `Emitted` is a start of the request. -/
theorem Emitted.isPrefix (h : x.Emitted E v) : v <+: x.request.encode := by
  unfold Emitted at h
  split at h
  · exact h ▸ List.nil_prefix
  · exact h ▸ List.nil_prefix
  · exact h ▸ List.nil_prefix
  · exact h ▸ List.nil_prefix
  · next left _ => exact ⟨left, h⟩
  · exact h ▸ List.prefix_rfl
  · exact h.1

/-- What is `Left` is a start of the request. -/
theorem Left.isPrefix (h : x.Left E v) : v <+: x.request.encode := by
  obtain rfl | rfl | ⟨h, -⟩ := h
  · exact List.nil_prefix
  · exact List.prefix_rfl
  · exact h

/-- `Exchange.release` touches neither outlet nor lifecycle. -/
theorem release_keeps (x : Exchange) (s : Session) :
    (x.release s).outlet = s.outlet ∧ (x.release s).lifecycle = s.lifecycle := by
  rw [release]
  split
  · exact ⟨rfl, rfl⟩
  · exact ⟨rfl, rfl⟩

end Exchange

/-- An action of an `EndRequest` writes nothing. -/
theorem EndRequest.Action.written_eq {task : Nat} {r : EndRequest} {s s' : Session}
    {p : Progress EndRequest Unit} (h : r.Action task s p s') :
    s'.outlet.written = s.outlet.written := by
  cases h with
  | shut =>
    show s.outlet.close.written = s.outlet.written
    rw [Outlet.close]
    split
    · rfl
    · rfl
  | begun | stopped | joined => rfl

namespace Exchange

variable {task now : Nat} {x : Exchange} {s s' : Session} {p : Progress Exchange (Option Response)}
  {v : List UInt8}

/-- After a fault the session is ended before the exchange is over: `isConnected` is false then. -/
theorem emitted_failed {e : Error} {r : EndRequest} {q : Progress EndRequest Unit}
    (hphase : x.phase = .failed e r) (hv : x.Emitted (s.lifecycle.isConnected = false) v)
    (h : r.Action task s q s') :
    v <+: x.request.encode ∧ s'.lifecycle.isConnected = false := by
  rw [Emitted, hphase] at hv
  obtain ⟨hv, hending⟩ := hv
  refine ⟨hv, ?_⟩
  cases h with
  | begun =>
    show s.lifecycle.begin.isConnected = false
    rw [Lifecycle.begin]
    split
    · rfl
    · next hstage => simpa [Lifecycle.isConnected] using hstage
  | stopped hr | joined hr | shut hr _ =>
    subst hr
    exact hending.resolve_left (by simp)

/-- An exchange goes on from `enter` only while the session is connected. -/
theorem Action.isConnected_of_enter {x' : Exchange} (h : x.Action task now s (.ongoing x') s')
    (henter : x.phase = .enter) : s.lifecycle.isConnected = true := by
  cases h with
  | entered _ hconnected => exact hconnected
  | expected hphase | announced hphase | begun hphase | wrote hphase | broke hphase | sent hphase
  | waited hphase | ending hphase => cases henter.symm.trans hphase

/-- An action of an exchange adds what it appends to the connection, and the account stays right
(`EmittedThen`). -/
theorem emitted_act (hv : x.Emitted (s.lifecycle.isConnected = false) v)
    (h : x.Action task now s p s') :
    ∃ d, s'.outlet.written = s.outlet.written ++ d ∧ (x.phase = .enter → d = []) ∧
      x.EmittedThen (s'.lifecycle.isConnected = false) (v ++ d) p := by
  -- All but the three actions that write append nothing.
  have hnone : s'.outlet.written = s.outlet.written →
      x.EmittedThen (s'.lifecycle.isConnected = false) v p →
      ∃ d, s'.outlet.written = s.outlet.written ++ d ∧ (x.phase = .enter → d = []) ∧
        x.EmittedThen (s'.lifecycle.isConnected = false) (v ++ d) p := by
    intro hwritten hthen
    exact ⟨[], by rw [hwritten, List.append_nil], fun _ => rfl, by rwa [List.append_nil]⟩
  cases h with
  | entered hphase =>
    rw [Emitted, hphase] at hv
    refine hnone rfl ⟨rfl, ?_⟩
    cases x.answered <;> exact hv
  | turnedAway hphase | unexpected hphase =>
    rw [Emitted, hphase] at hv
    exact hnone rfl (.inl hv)
  | dead hphase =>
    rw [Emitted, hphase] at hv
    exact hnone (by rw [(x.release_keeps _).1]) (.inl hv)
  | expected hphase | announced hphase =>
    rw [Emitted, hphase] at hv
    exact hnone rfl ⟨rfl, hv⟩
  | begun hphase =>
    rw [Emitted, hphase] at hv
    exact hnone rfl ⟨rfl, by rw [hv]; rfl⟩
  | wrote hphase hwrite =>
    obtain ⟨d, hd, -, -, hpart⟩ := Outlet.written_write hwrite
    rw [Emitted, hphase] at hv
    refine ⟨d, hd, by simp [hphase], rfl, ?_⟩
    show (v ++ d) ++ _ = x.request.encode
    rw [List.append_assoc, hpart _ rfl, hv]
  | broke hphase hwrite =>
    obtain ⟨d, hd, hstart, -⟩ := Outlet.written_write hwrite
    rw [Emitted, hphase] at hv
    refine ⟨d, hd, by simp [hphase], rfl, ?_, .inl rfl⟩
    rw [← hv]
    exact (List.prefix_append_right_inj v).mpr hstart
  | sent hphase _ hwrite =>
    obtain ⟨d, hd, -, hall, -⟩ := Outlet.written_write hwrite
    rw [Emitted, hphase] at hv
    refine ⟨d, hd, by simp [hphase], rfl, ?_⟩
    show v ++ d = x.request.encode
    rw [hall rfl, hv]
  | dropped hphase _ hwrite =>
    obtain ⟨d, hd, -, hall, -⟩ := Outlet.written_write hwrite
    rw [Emitted, hphase] at hv
    refine ⟨d, hd, by simp [hphase], .inr (.inl ?_)⟩
    rw [hall rfl, hv]
  | waited hphase =>
    rw [Emitted, hphase] at hv
    exact hnone rfl ⟨rfl, hv⟩
  | refused hphase | timedOut hphase | obtained hphase =>
    rw [Emitted, hphase] at hv
    exact hnone (by rw [(x.release_keeps _).1]) (.inr (.inl hv))
  | ending hphase hr =>
    have hr := EndRequest.acted hr
    obtain ⟨hstart, hending⟩ := emitted_failed hphase hv hr
    exact hnone hr.written_eq ⟨rfl, hstart, .inr hending⟩
  | ended hphase hr =>
    have hr := EndRequest.acted hr
    obtain ⟨hstart, hending⟩ := emitted_failed hphase hv hr
    refine hnone (by rw [(x.release_keeps _).1, hr.written_eq]) (.inr (.inr ⟨hstart, ?_⟩))
    rwa [(x.release_keeps _).2]

end Exchange

/-! ## What jobs set out to write -/

/-- The requests that can go before the request of a command: none, or that of the negotiation if it
`negotiates`. -/
inductive Command.Prelude (c : Command) : List Request → Prop
  | nothing : Prelude c []
  | negotiation {u : UInt32} : c.negotiates = true → Prelude c [Command.negotiation.request u]

/-- The requests that a `Job` makes, in order. -/
inductive Job.Builds : Job → List Request → Prop
  | command {c : Command} {qs : List Request} {t : UInt32} : c.Prelude qs →
      Builds (.command c) (qs ++ [c.request t])
  | silent {job : Job} : (∀ c, job ≠ .command c) → Builds job []

/-- The octets are the start of the requests that a job `Builds`. -/
def Job.Starts (job : Job) (v : List UInt8) : Prop :=
  ∃ rs, job.Builds rs ∧ v <+: rs.flatMap Request.encode

/-! ## Tasks -/

namespace Command

/-- The octets that are written before the request of a command: those of a prelude or, if `E`, a
piece of a negotiation. -/
def Preceded (E : Prop) (c : Command) (v : List UInt8) : Prop :=
  (∃ qs, c.Prelude qs ∧ v = qs.flatMap Request.encode) ∨
    E ∧ c.negotiates = true ∧ ∃ u, v <+: (Command.negotiation.request u).encode

/-- The octets that a task with a `Command` has written when it comes to a phase. -/
def Uttered (E : Prop) (c : Command) (v : List UInt8) : Phase → Prop
  | .start => v = []
  | .cell => v = [] ∧ c.negotiates = true
  | .negotiate x =>
    c.negotiates = true ∧ (∃ u, x.request = Command.negotiation.request u) ∧ x.Emitted E v
  | .prepare => c.Preceded E v
  | .exchange x =>
    (∃ t, x.request = c.request t) ∧
      ∃ v₀ v₁, v = v₀ ++ v₁ ∧ c.Preceded (E ∧ x.phase = .enter) v₀ ∧ x.Emitted E v₁
  | _ => False

variable {E E' : Prop} {c : Command} {v : List UInt8} {phase : Phase}

/-- A session that is ending allows more before a request, by `Preceded`. -/
theorem Preceded.mono (hE : E → E') (h : c.Preceded E v) : c.Preceded E' v :=
  h.imp_right fun ⟨he, hpiece⟩ => ⟨hE he, hpiece⟩

/-- Nothing at all may precede a request: `Preceded` holds of it. -/
theorem preceded_nil : c.Preceded E [] :=
  .inl ⟨[], .nothing, rfl⟩

/-- Whatever a negotiation came to, it leaves a `Prelude` or a session that is ending. -/
theorem Preceded.of_left {x : Exchange} {u : UInt32} (hc : c.negotiates = true)
    (hx : x.request = Command.negotiation.request u) (h : x.Left E v) : c.Preceded E v := by
  rw [Exchange.Left, hx] at h
  obtain rfl | rfl | ⟨hstart, he⟩ := h
  · exact preceded_nil
  · exact .inl ⟨_, .negotiation (u := u) hc, (List.append_nil _).symm⟩
  · exact .inr ⟨he, hc, u, hstart⟩

/-- A session that is ending allows more in every phase, by `Command.Uttered`. -/
theorem Uttered.mono (hE : E → E') (h : c.Uttered E v phase) : c.Uttered E' v phase := by
  cases phase with
  | start | cell => exact h
  | negotiate x => exact ⟨h.1, h.2.1, h.2.2.mono hE⟩
  | prepare => exact Preceded.mono hE h
  | exchange x =>
    obtain ⟨hx, v₀, v₁, hv, hbefore, hemitted⟩ := h
    exact ⟨hx, v₀, v₁, hv, hbefore.mono (And.imp_left hE), hemitted.mono hE⟩
  | line | receive | await | finish => exact h.elim

/-- What is `Preceded` a request, and then a start of the request, is a start of all that the job
builds. -/
theorem Preceded.starts {t : UInt32} {v₀ v₁ : List UInt8} (hbefore : c.Preceded E v₀)
    (hv₁ : v₁ <+: (c.request t).encode) (hpiece : E → v₁ = []) :
    (Job.command c).Starts (v₀ ++ v₁) := by
  obtain ⟨qs, hqs, rfl⟩ | ⟨he, hc, u, hv₀⟩ := hbefore
  · refine ⟨qs ++ [c.request t], .command hqs, ?_⟩
    rw [List.flatMap_append, List.flatMap_singleton]
    exact (List.prefix_append_right_inj _).mpr hv₁
  · refine ⟨_ ++ [c.request t], .command (.negotiation (u := u) hc), ?_⟩
    rw [hpiece he, List.append_nil, List.flatMap_append, List.flatMap_singleton]
    exact hv₀.trans (List.prefix_append _ _)

/-- In every phase, what is written `Starts` the requests that the command makes. -/
theorem Uttered.starts (h : c.Uttered E v phase) : (Job.command c).Starts v := by
  have hbefore : ∀ {E : Prop}, c.Preceded E v → (Job.command c).Starts v := by
    intro E hbefore
    have hstarts := hbefore.starts (t := 0) List.nil_prefix fun _ => rfl
    rwa [List.append_nil] at hstarts
  cases phase with
  | start =>
    rw [Uttered] at h
    exact hbefore (h ▸ preceded_nil (E := False))
  | cell =>
    rw [Uttered] at h
    exact hbefore (h.1 ▸ preceded_nil (E := False))
  | negotiate x =>
    obtain ⟨hc, ⟨u, hx⟩, hemitted⟩ := h
    have hstart := hemitted.isPrefix
    rw [hx] at hstart
    exact hbefore (E := True) (.inr ⟨trivial, hc, u, hstart⟩)
  | prepare => exact hbefore h
  | exchange x =>
    obtain ⟨⟨t, hx⟩, v₀, v₁, rfl, hpreceded, hemitted⟩ := h
    refine hpreceded.starts (hx ▸ hemitted.isPrefix) ?_
    rintro ⟨-, hphase⟩
    rwa [Exchange.Emitted, hphase] at hemitted
  | line | receive | await | finish => exact h.elim

/-- Once the response is awaited, everything that the command `Builds` has been written. -/
theorem Uttered.builds {x : Exchange} {w : Wait} (h : c.Uttered E v (.exchange x))
    (hphase : x.phase = .await w) :
    ∃ rs, (Job.command c).Builds rs ∧ v = rs.flatMap Request.encode := by
  obtain ⟨⟨t, hx⟩, v₀, v₁, rfl, hbefore, hemitted⟩ := h
  rw [Exchange.Emitted, hphase, hx] at hemitted
  obtain ⟨qs, hqs, rfl⟩ | ⟨⟨-, henter⟩, -⟩ := hbefore
  · refine ⟨_, .command (t := t) hqs, ?_⟩
    rw [hemitted, List.flatMap_append, List.flatMap_singleton]
  · simp [hphase] at henter

end Command

namespace Job

/-- The octets that a task has written when it comes to a phase of its `Job`. -/
def Uttered (E : Prop) (v : List UInt8) (phase : Phase) : Job → Prop
  | .command c => c.Uttered E v phase
  | _ => v = []

/-- The octets that a task has written after an action, by `Uttered`. -/
def UtteredThen (E : Prop) (v : List UInt8) (job : Job) : Progress Phase Reply → Prop
  | .ongoing phase => job.Uttered E v phase
  | .finished _ => job.Starts v

variable {E E' : Prop} {job : Job} {v : List UInt8} {phase : Phase}

/-- A task that has just started has written nothing, and `Uttered` holds. -/
theorem uttered_start : job.Uttered E [] .start := by
  cases job <;> rfl

/-- A session that is ending allows more in every phase, by `Job.Uttered`. -/
theorem Uttered.mono (hE : E → E') (h : job.Uttered E v phase) : job.Uttered E' v phase := by
  cases job with
  | command c => exact Command.Uttered.mono hE h
  | _ => exact h

/-- A job without a command writes nothing, which `Starts` it. -/
theorem starts_of_silent (hjob : ∀ c, job ≠ .command c) (hv : v = []) : job.Starts v :=
  ⟨[], .silent hjob, hv ▸ List.nil_prefix⟩

/-- In every phase, what is written `Starts` the requests that the job makes. -/
theorem Uttered.starts (h : job.Uttered E v phase) : job.Starts v := by
  cases job with
  | command c => exact Command.Uttered.starts h
  | _ => exact starts_of_silent (by simp) h

/-- Once the response is awaited, all that the job `Builds` has been written. -/
theorem Uttered.builds {x : Exchange} {w : Wait} (h : job.Uttered E v (.exchange x))
    (hphase : x.phase = .await w) : ∃ rs, job.Builds rs ∧ v = rs.flatMap Request.encode := by
  cases job with
  | command c => exact Command.Uttered.builds h hphase
  | _ => exact ⟨[], .silent (by simp), h⟩

end Job

namespace Task

variable {now : Nat} {g g' : Ground} {p : Progress Phase Reply} {v : List UInt8}

/-- A `CommandAction` adds what it appends to the connection, negotiation included. -/
theorem uttered_command {task : Nat} {c : Command} {phase : Phase}
    (hv : c.Uttered (g.session.lifecycle.isConnected = false) v phase)
    (h : CommandAction task now c phase g p g') :
    ∃ d, g'.session.outlet.written = g.session.outlet.written ++ d ∧
      (Job.command c).UtteredThen (g'.session.lifecycle.isConnected = false) (v ++ d) p := by
  -- Only exchanges write.
  have hnone : g'.session.outlet.written = g.session.outlet.written →
      (Job.command c).UtteredThen (g'.session.lifecycle.isConnected = false) v p →
      ∃ d, g'.session.outlet.written = g.session.outlet.written ++ d ∧
        (Job.command c).UtteredThen (g'.session.lifecycle.isConnected = false) (v ++ d) p := by
    intro hwritten hthen
    exact ⟨[], by rw [hwritten, List.append_nil], by rwa [List.append_nil]⟩
  cases h with
  | queued hphase hc =>
    subst hphase
    exact hnone rfl ⟨hv, hc⟩
  | ready hphase =>
    subst hphase
    cases hv
    exact hnone rfl Command.preceded_nil
  | passed hphase | skipped hphase =>
    subst hphase
    obtain ⟨rfl, -⟩ := hv
    exact hnone rfl Command.preceded_nil
  | opened hphase =>
    subst hphase
    obtain ⟨rfl, hc⟩ := hv
    exact hnone rfl ⟨hc, ⟨_, rfl⟩, rfl⟩
  | negotiating hphase hx =>
    subst hphase
    obtain ⟨hc, ⟨u, hu⟩, hemitted⟩ := hv
    obtain ⟨d, hd, -, hrequest, hthen⟩ := Exchange.emitted_act hemitted (Exchange.acted hx)
    exact ⟨d, hd, hc, ⟨u, hrequest.trans hu⟩, hthen⟩
  | settled hphase hx =>
    subst hphase
    obtain ⟨hc, ⟨u, hu⟩, hemitted⟩ := hv
    obtain ⟨d, hd, -, hleft⟩ := Exchange.emitted_act hemitted (Exchange.acted hx)
    exact ⟨d, hd, Command.Preceded.of_left hc hu hleft⟩
  | prepared hphase =>
    subst hphase
    refine hnone rfl ⟨⟨_, rfl⟩, v, [], (List.append_nil v).symm, ?_, rfl⟩
    exact Command.Preceded.mono (fun h => ⟨h, rfl⟩) hv
  | exchanging hphase hx =>
    subst hphase
    obtain ⟨⟨t, ht⟩, v₀, v₁, rfl, hbefore, hemitted⟩ := hv
    have hx := Exchange.acted hx
    obtain ⟨d, hd, -, hrequest, hthen⟩ := Exchange.emitted_act hemitted hx
    refine ⟨d, hd, ⟨t, hrequest.trans ht⟩, v₀, v₁ ++ d, List.append_assoc .., ?_, hthen⟩
    -- A piece of a negotiation stays the last thing written, as no request is begun after it.
    refine hbefore.mono ?_
    rintro ⟨hending, henter⟩
    cases hending.symm.trans (hx.isConnected_of_enter henter)
  | concluded hphase hx =>
    subst hphase
    obtain ⟨⟨t, ht⟩, v₀, v₁, rfl, hbefore, hemitted⟩ := hv
    obtain ⟨d, hd, hsilent, hleft⟩ := Exchange.emitted_act hemitted (Exchange.acted hx)
    refine ⟨d, hd, ?_⟩
    rw [List.append_assoc]
    refine hbefore.starts (ht ▸ hleft.isPrefix) ?_
    rintro ⟨-, hphase⟩
    rw [Exchange.Emitted, hphase] at hemitted
    rw [hemitted, hsilent hphase, List.append_nil]

/-- An action of any task adds what it appends to the connection (`Job.UtteredThen`). -/
theorem uttered_act {t : Task}
    (hv : t.job.Uttered (g.session.lifecycle.isConnected = false) v t.phase)
    (h : t.Action now g p g') :
    ∃ d, g'.session.outlet.written = g.session.outlet.written ++ d ∧
      t.job.UtteredThen (g'.session.lifecycle.isConnected = false) (v ++ d) p := by
  have hsilent : (∀ c, t.job ≠ .command c) →
      g'.session.outlet.written = g.session.outlet.written →
      ∃ d, g'.session.outlet.written = g.session.outlet.written ++ d ∧
        t.job.UtteredThen (g'.session.lifecycle.isConnected = false) (v ++ d) p := by
    intro hjob hwritten
    refine ⟨[], by rw [hwritten, List.append_nil], ?_⟩
    rw [List.append_nil]
    cases hj : t.job with
    | command c => exact absurd hj (hjob c)
    | _ =>
      rw [hj] at hv
      cases p with
      | ongoing phase => exact hv
      | finished _ => exact Job.starts_of_silent (by simp) hv
  cases h with
  | command hjob hc =>
    rw [hjob] at hv ⊢
    exact uttered_command hv hc
  | mailed hjob =>
    obtain ⟨limit, hjob | hjob⟩ := hjob
    · exact hsilent (by simp [hjob]) rfl
    · exact hsilent (by simp [hjob]) rfl
  | expected hjob | unexpected hjob | forgot hjob | awaiting hjob | waited hjob | answered hjob
  | terminating hjob | sawEnd hjob => exact hsilent (by simp [hjob]) rfl
  | ending hjob _ hr | ended hjob _ hr =>
    exact hsilent (by simp [hjob]) (EndRequest.acted hr).written_eq

end Task

/-! ## Runs -/

namespace Client

/-- The octets that have been written on a session, by its `outlet`. -/
def written (n : Nat) (c : Client) : List UInt8 :=
  ((c.session? n).map fun s => s.outlet.written).getD []

/-- A task that was started with a `Job` on a session has written these octets, and may still be at
it. -/
structure Accounted (n k : Nat) (job : Job) (v : List UInt8) (c : Client) : Prop where
  given : k < c.nextTask
  uttered : ∀ t, c.task? k = some t →
    t.session = n ∧ t.job = job ∧ job.Uttered (c.IsEnding n) v t.phase
  starts : job.Starts v

variable {c c' : Client} {m : Move} {es : List Happening} {n k : Nat} {job : Job} {v : List UInt8}

/-- A task that is started has written nothing yet, and is `Accounted` for. -/
theorem accounted_start (hfresh : c.task? c.nextTask = none) (n : Nat) (job : Job) :
    (c.start n job).2.Accounted n c.nextTask job [] := by
  refine ⟨Nat.lt_succ_self _, fun t ht => ?_, (Job.uttered_start (E := False)).starts⟩
  rw [task?, start, List.find?_append, ← task?, hfresh] at ht
  simp only [Option.none_or, List.find?_cons_of_pos, decide_true, Option.some.injEq] at ht
  subst ht
  exact ⟨rfl, rfl, Job.uttered_start⟩

/-- Nobody else's moves count, whatever their `Effect`. -/
theorem Accounted.effect (h : c.Accounted n k job v) (heffect : Effect c m es c')
    (hm : m ≠ .task k) : c'.Accounted n k job v := by
  have hkept : c.nextTask ≤ c'.nextTask → (∀ t, c'.task? k = some t → c.task? k = some t) →
      c'.Accounted n k job v := by
    intro hnext htask
    refine ⟨Nat.lt_of_lt_of_le h.given hnext, fun t ht => ?_, h.starts⟩
    obtain ⟨hsession, hjob, huttered⟩ := h.uttered t (htask t ht)
    exact ⟨hsession, hjob, huttered.mono heffect.isEnding⟩
  cases heffect with
  | aside _ htask _ hnext =>
    refine hkept hnext fun t ht => ?_
    obtain hsame | ⟨-, session, job, -, hstarted⟩ := htask k
    · exact hsame ▸ ht
    · -- A task that is started now has another number.
      have hk : c.nextTask = k := id_of_task? hstarted
      exact absurd h.given (hk ▸ Nat.lt_irrefl _)
  | received _ _ _ htask _ hnext => exact hkept hnext fun t ht => htask k ▸ ht
  | @acted j _ _ _ _ _ _ _ _ _ htask _ hnext hj =>
    refine hkept hnext fun t ht => ?_
    have hjk : k ≠ j := by
      rintro rfl
      exact hm hj
    rwa [htask, if_neg hjk] at ht
  | abandoned _ _ htask _ hnext =>
    refine hkept hnext fun t ht => ?_
    rw [htask] at ht
    split at ht
    · cases ht
    · exact ht

/-- A move of the task keeps it `Accounted` for, with what it appends to the connection. -/
theorem Accounted.step_task (h : c.Accounted n k job v) :
    (c.step (.task k)).Accounted n k job
      (v ++ ((c.step (.task k)).written n).drop (c.written n).length) := by
  obtain ⟨-, hsame⟩ | ⟨t, s, p, g, hk, hs, hact, -, -, htask, hsession, hnext⟩ := c.step_task k
  · rw [hsame, List.drop_length, List.append_nil]
    exact h
  · obtain ⟨rfl, rfl, huttered⟩ := h.uttered t hk
    have hs' : (c.step (.task k)).session? t.session = some g.session := by
      rw [hsession, if_pos rfl]
    have hending : c.IsEnding t.session → s.lifecycle.isConnected = false := by
      rintro ⟨s₁, hs₁, hending⟩
      cases hs.symm.trans hs₁
      exact hending
    obtain ⟨d, hd, hthen⟩ := Task.uttered_act (huttered.mono hending) (Task.acted hact)
    have hadded : ((c.step (.task k)).written t.session).drop (c.written t.session).length = d := by
      rw [written, written, hs, hs', Option.map_some, Option.map_some, Option.getD_some,
        Option.getD_some, hd, List.drop_left]
    rw [hadded]
    refine ⟨hnext ▸ h.given, fun t' ht' => ?_, ?_⟩
    · rw [htask, if_pos rfl] at ht'
      cases p with
      | ongoing phase =>
        cases ht'
        exact ⟨rfl, rfl, Job.Uttered.mono (fun h => ⟨g.session, hs', h⟩) hthen⟩
      | finished _ => cases ht'
    · cases p with
      | ongoing phase => exact Job.Uttered.starts hthen
      | finished _ => exact hthen

end Client

end Dbgp
