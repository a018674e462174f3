import Dbgp.Proofs.BridgeRun

/-!
# What the scheduler does is a run

`settle` lets whoever comes first act until all wait, and `advance` moves from deadline to deadline
and settles at each. For clients and for bridges both are runs: there are moves that lead to the same
place (`Client.exists_run_settle`, `Client.exists_run_advance` and the same for `Bridge`). So whatever
holds after every run holds of all that the scheduler does.

The scheduler has handshakes, sessions and tasks in hand where a move has only a number. They mean the
same because every number is given out once, and `Distinct` is that invariant.
-/

namespace Dbgp

/-! ## Numbers that are given out -/

/-- Numbers that were given out one after the other. -/
structure Given (ns : List Nat) (next : Nat) : Prop where
  nodup : ns.Nodup
  lt_next : ∀ n ∈ ns, n < next

/-- Some numbers are gone, or one more is given out. -/
inductive Renumbered (ns : List Nat) (next : Nat) : List Nat → Nat → Prop
  | fewer {ns' : List Nat} {next' : Nat} : ns'.Sublist ns → next ≤ next' →
      Renumbered ns next ns' next'
  | given : Renumbered ns next (ns ++ [next]) (next + 1)

/-- Nothing is given out, and nothing is gone. -/
theorem Renumbered.refl (ns : List Nat) (next : Nat) : Renumbered ns next ns next :=
  .fewer (.refl ns) (Nat.le_refl next)

/-- The next number only grows. -/
theorem Renumbered.next_le {ns ns' : List Nat} {next next' : Nat} (h : Renumbered ns next ns' next') :
    next ≤ next' := by
  cases h with
  | fewer _ hle => exact hle
  | given => exact Nat.le_succ next

/-- Numbers stay in order when some are gone or one more is given out (`Renumbered`). -/
theorem Given.renumbered {ns ns' : List Nat} {next next' : Nat} (h : Given ns next)
    (hnew : Renumbered ns next ns' next') : Given ns' next' := by
  cases hnew with
  | fewer hsub hle =>
    refine ⟨hsub.nodup h.nodup, fun n hn => ?_⟩
    exact Nat.lt_of_lt_of_le (h.lt_next n (hsub.subset hn)) hle
  | given =>
    refine ⟨?_, ?_⟩
    · rw [List.nodup_append]
      refine ⟨h.nodup, by simp, fun a ha b hb => ?_⟩
      rw [List.mem_singleton] at hb
      exact hb ▸ Nat.ne_of_lt (h.lt_next a ha)
    · intro n hn
      rw [List.mem_append, List.mem_singleton] at hn
      obtain hn | rfl := hn
      · exact Nat.lt_succ_of_lt (h.lt_next n hn)
      · exact Nat.lt_succ_self n

/-- A thing is found by its number. -/
theorem find?_of_nodup {l : List α} {number : α → Nat} (h : (l.map number).Nodup) {a : α}
    (ha : a ∈ l) : (l.find? fun b => number b = number a) = some a := by
  induction l with
  | nil => exact absurd ha List.not_mem_nil
  | cons b l ih =>
    rw [List.map_cons, List.nodup_cons] at h
    rw [List.mem_cons] at ha
    obtain rfl | ha := ha
    · exact List.find?_cons_of_pos (by simp)
    · have hne : number b ≠ number a := fun heq => h.1 (heq ▸ List.mem_map_of_mem ha)
      rw [List.find?_cons_of_neg (by simpa using hne)]
      exact ih h.2 ha

/-! ## Clients -/

namespace Client

/-- No number was given out twice: connections, sessions and tasks are `Given`. -/
structure Distinct (c : Client) : Prop where
  connections : Given (c.handshakes.map fun h => h.connection) c.nextConnection
  sessions : Given (c.sessions.map fun s => s.id) c.nextSession
  tasks : Given (c.tasks.map fun t => t.id) c.nextTask

/-- What a step does to the numbers: each kind is `Renumbered`. -/
structure Follows (c c' : Client) : Prop where
  connections : Renumbered (c.handshakes.map fun h => h.connection) c.nextConnection
    (c'.handshakes.map fun h => h.connection) c'.nextConnection
  sessions : Renumbered (c.sessions.map fun s => s.id) c.nextSession
    (c'.sessions.map fun s => s.id) c'.nextSession
  tasks : Renumbered (c.tasks.map fun t => t.id) c.nextTask
    (c'.tasks.map fun t => t.id) c'.nextTask

/-- What `Follows` a client with distinct numbers has distinct numbers. -/
theorem Distinct.follows {c c' : Client} (h : c.Distinct) (hc : c.Follows c') : c'.Distinct :=
  ⟨h.connections.renumbered hc.connections, h.sessions.renumbered hc.sessions,
    h.tasks.renumbered hc.tasks⟩

variable {c c' : Client}

/-- Changes in place keep all numbers. -/
theorem map_map_number {l : List α} {f : α → α} {number : α → Nat}
    (hf : ∀ a, number (f a) = number a) : (l.map f).map number = l.map number := by
  rw [List.map_map]
  exact List.map_congr_left fun a _ => hf a

/-- A client with the same numbers `Follows`. -/
theorem follows_of_eq
    (hconnections : (c'.handshakes.map fun h => h.connection) = c.handshakes.map fun h => h.connection)
    (hsessions : (c'.sessions.map fun s => s.id) = c.sessions.map fun s => s.id)
    (htasks : (c'.tasks.map fun t => t.id) = c.tasks.map fun t => t.id)
    (hnext : c'.nextConnection = c.nextConnection ∧ c'.nextSession = c.nextSession ∧
      c'.nextTask = c.nextTask) : c.Follows c' := by
  obtain ⟨hconnection, hsession, htask⟩ := hnext
  constructor
  · rw [hconnections, hconnection]
    exact .refl ..
  · rw [hsessions, hsession]
    exact .refl ..
  · rw [htasks, htask]
    exact .refl ..

/-- A client follows itself. -/
theorem Follows.refl (c : Client) : c.Follows c :=
  follows_of_eq rfl rfl rfl ⟨rfl, rfl, rfl⟩

/-- Sessions that are changed in place keep their numbers. -/
theorem map_id_modifySession {n : Nat} {f : Session → Session} (hf : ∀ s, (f s).id = s.id)
    (l : List Session) :
    (l.map fun s => if s.id = n then f s else s).map (fun s => s.id) = l.map fun s => s.id := by
  refine map_map_number fun s => ?_
  split
  · exact hf s
  · rfl

/-- `modifySession` keeps to `Follows`. -/
theorem follows_modifySession {n : Nat} {f : Session → Session} (hf : ∀ s, (f s).id = s.id) :
    c.Follows (c.modifySession n f) :=
  follows_of_eq rfl (map_id_modifySession hf c.sessions) rfl ⟨rfl, rfl, rfl⟩

/-- A session that is replaced by one with its number leaves the numbers alone. -/
theorem map_id_putSession (s : Session) (l : List Session) :
    (l.map fun s' => if s'.id = s.id then s else s').map (fun s => s.id) = l.map fun s => s.id := by
  refine map_map_number fun s' => ?_
  split
  · next h => exact h.symm
  · rfl

/-- `putSession` keeps to `Follows`. -/
theorem follows_putSession (s : Session) : c.Follows (c.putSession s) :=
  follows_of_eq rfl (map_id_putSession s c.sessions) rfl ⟨rfl, rfl, rfl⟩

/-- `start` gives the next number to a task. -/
theorem follows_start (session : Nat) (job : Job) : c.Follows (c.start session job).2 := by
  refine ⟨.refl .., .refl .., ?_⟩
  rw [start, List.map_append]
  exact .given

/-- `cancel` takes at most one task away. -/
theorem follows_cancel (k : Nat) : c.Follows (c.cancel k) := by
  rw [cancel]
  split
  · exact .refl c
  · next t _ =>
    refine ⟨.refl .., ?_, .fewer (List.filter_sublist.map _) (Nat.le_refl _)⟩
    rw [modifySession, map_id_modifySession fun s => (t.akin_abandon s).id_eq]
    exact .refl ..

/-- A handshake keeps its connection in `Handshake.act`. -/
theorem connection_act {now : Nat} {h h' h'' : Handshake}
    (hact : h.act now = some (.ongoing h', h'')) : h'.connection = h.connection := by
  rw [Handshake.act] at hact
  split at hact
  · cases hact
  · split at hact
    · cases hact
    · split at hact
      · cases hact
      · cases hact
        rfl

/-- A handshake may give a number to a session, and no time passes. -/
theorem follows_handshake {h : Handshake} (hact : c.actHandshake h = some c') :
    c.Follows c' ∧ c'.now = c.now := by
  have hothers : ((c.handshakes.filter fun k => k.connection ≠ h.connection).map
      fun k => k.connection).Sublist (c.handshakes.map fun k => k.connection) :=
    List.filter_sublist.map _
  rw [actHandshake] at hact
  split at hact
  · cases hact
  · next h' _ hongoing =>
    cases hact
    refine ⟨follows_of_eq (map_map_number fun k => ?_) rfl rfl ⟨rfl, rfl, rfl⟩, rfl⟩
    split
    · next hk => rw [connection_act hongoing, hk]
    · rfl
  · cases hact
    exact ⟨⟨.fewer hothers (Nat.le_refl _), .refl .., .refl ..⟩, rfl⟩
  · cases hact
    refine ⟨⟨.fewer hothers (Nat.le_refl _), ?_, .refl ..⟩, rfl⟩
    rw [List.map_append]
    exact .given

/-- A receiver keeps to `Follows`, and no time passes. -/
theorem follows_session {s : Session} (hact : c.actSession s = some c') :
    c.Follows c' ∧ c'.now = c.now := by
  rw [actSession] at hact
  split at hact
  · cases hact
    exact ⟨follows_putSession _, rfl⟩
  · rw [Option.map_eq_some_iff] at hact
    obtain ⟨s', -, rfl⟩ := hact
    exact ⟨follows_putSession s', rfl⟩

/-- A task keeps to `Follows`, and no time passes. -/
theorem follows_task {t : Task} (hact : c.actTask t = some c') :
    c.Follows c' ∧ c'.now = c.now := by
  rw [actTask] at hact
  split at hact
  · cases hact
  · split at hact
    · cases hact
    · next p g _ =>
      split at hact
      · cases hact
        refine ⟨follows_of_eq rfl (map_id_putSession g.session c.sessions) (map_map_number ?_)
          ⟨rfl, rfl, rfl⟩, rfl⟩
        intro t'
        split <;> rfl
      · cases hact
        refine ⟨⟨.refl .., (follows_putSession (c := c) g.session).sessions, ?_⟩, rfl⟩
        exact .fewer (List.filter_sublist.map _) (Nat.le_refl _)

/-- An action that may not be possible. -/
theorem follows_getD {o : Option Client} (h : ∀ c', o = some c' → c.Follows c') :
    c.Follows (o.getD c) := by
  cases o with
  | none => exact .refl c
  | some c' => exact h c' rfl

/-- Every `step` of a client `Follows`. -/
theorem follows_step (c : Client) (m : Move) : c.Follows (c.step m) := by
  cases m with
  | accept config =>
    refine ⟨?_, .refl .., .refl ..⟩
    rw [step, accept, List.map_append]
    exact .given
  | attach config =>
    refine ⟨.fewer (.refl _) (Nat.le_succ _), ?_, .refl ..⟩
    rw [step, attach, List.map_append]
    exact .given
  | arrive connection _ | gate connection _ _ =>
    refine follows_of_eq (map_map_number fun h => ?_) (map_map_number fun s => ?_) rfl
      ⟨rfl, rfl, rfl⟩
    · split <;> rfl
    · split <;> rfl
  | start session job => exact follows_start session job
  | cancel k => exact follows_cancel k
  | release _ | addLogger _ _ | removeLogger _ _ | addListener _ _ | removeListener _ _ =>
    exact follows_modifySession fun s => rfl
  | pass millis => exact follows_of_eq rfl rfl rfl ⟨rfl, rfl, rfl⟩
  | handshake connection =>
    refine follows_getD fun c' h => ?_
    obtain ⟨k, -, hact⟩ := Option.bind_eq_some_iff.mp h
    exact (follows_handshake hact).1
  | receiver session =>
    refine follows_getD fun c' h => ?_
    obtain ⟨s, -, hact⟩ := Option.bind_eq_some_iff.mp h
    exact (follows_session hact).1
  | task id =>
    refine follows_getD fun c' h => ?_
    obtain ⟨t, -, hact⟩ := Option.bind_eq_some_iff.mp h
    exact (follows_task hact).1

/-- A new client has given no number. -/
theorem distinct_new : Distinct {} :=
  ⟨⟨.nil, by simp⟩, ⟨.nil, by simp⟩, ⟨.nil, by simp⟩⟩

/-- The number that is next is nobody's. -/
theorem Distinct.task?_nextTask (hc : c.Distinct) : c.task? c.nextTask = none := by
  rw [task?, List.find?_eq_none]
  intro t ht
  have hlt := hc.tasks.lt_next t.id (List.mem_map_of_mem ht)
  simpa using Nat.ne_of_lt hlt

/-- Numbers that were not given yet are no session's. -/
theorem Distinct.session?_eq_none (hc : c.Distinct) {n : Nat} (hn : c.nextSession ≤ n) :
    c.session? n = none := by
  rw [session?, List.find?_eq_none]
  intro s hs
  have hlt := hc.sessions.lt_next s.id (List.mem_map_of_mem hs)
  simpa using Nat.ne_of_lt (Nat.lt_of_lt_of_le hlt hn)

/-- Who comes first in `Client.act` makes a move, and no time passes. -/
theorem act_eq_step (hc : c.Distinct) (h : c.act = some c') :
    ∃ m, c' = c.step m ∧ c'.now = c.now := by
  rw [act] at h
  simp only [Option.orElse_eq_orElse, Option.orElse_eq_or, Option.or_eq_some_iff] at h
  obtain h | ⟨-, h | ⟨-, h⟩⟩ := h
  · obtain ⟨k, hk, hact⟩ := List.exists_of_findSome?_eq_some h
    refine ⟨.handshake k.connection, ?_, (follows_handshake hact).2⟩
    rw [step, find?_of_nodup hc.connections.nodup hk, Option.bind_some, hact, Option.getD_some]
  · obtain ⟨s, hs, hact⟩ := List.exists_of_findSome?_eq_some h
    refine ⟨.receiver s.id, ?_, (follows_session hact).2⟩
    rw [step, session?, find?_of_nodup hc.sessions.nodup hs, Option.bind_some, hact,
      Option.getD_some]
  · obtain ⟨t, ht, hact⟩ := List.exists_of_findSome?_eq_some h
    refine ⟨.task t.id, ?_, (follows_task hact).2⟩
    rw [step, task?, find?_of_nodup hc.tasks.nodup ht, Option.bind_some, hact, Option.getD_some]

/-- A run keeps the numbers apart (`Distinct`). -/
theorem Distinct.run (hc : c.Distinct) (ms : List Move) : (c.run ms).Distinct := by
  induction ms generalizing c with
  | nil => exact hc
  | cons m ms ih => exact ih (hc.follows (c.follows_step m))

/-- Acting for a while is a run in which no time passes. -/
theorem exists_run_settleFor (hc : c.Distinct) (fuel : Nat) :
    ∃ ms, c.settleFor fuel = c.run ms ∧ (c.settleFor fuel).now = c.now := by
  induction fuel generalizing c with
  | zero => exact ⟨[], rfl, rfl⟩
  | succ fuel ih =>
    rw [settleFor]
    split
    · exact ⟨[], rfl, rfl⟩
    · next c' hact =>
      obtain ⟨m, rfl, hnow⟩ := act_eq_step hc hact
      obtain ⟨ms, hms, hnow'⟩ := ih (hc.follows (c.follows_step m))
      exact ⟨m :: ms, hms, hnow'.trans hnow⟩

/-- `Client.settle` is a run in which no time passes. -/
theorem exists_run_settle (hc : c.Distinct) :
    ∃ ms, c.settle = c.run ms ∧ c.settle.now = c.now :=
  exists_run_settleFor hc c.actionBound

/-- Waiting and then `settle` is a run. -/
theorem exists_run_settle_at (hc : c.Distinct) {t : Nat} (ht : c.now ≤ t) :
    ∃ ms, settle { c with now := t } = c.run ms ∧ (settle { c with now := t }).now = t := by
  have hpass : c.step (.pass (t - c.now)) = { c with now := t } := by
    rw [step, Nat.add_sub_cancel' ht]
  obtain ⟨ms, hms, hnow⟩ := exists_run_settle (hc.follows (c.follows_step (.pass (t - c.now))))
  rw [hpass] at hms hnow
  refine ⟨.pass (t - c.now) :: ms, ?_, hnow⟩
  rw [hms, ← hpass]
  rfl

/-- Letting time pass in several steps is a run. -/
theorem exists_run_advanceFor (hc : c.Distinct) (fuel : Nat) {target : Nat}
    (htarget : c.now ≤ target) : ∃ ms, advanceFor settle fuel target c = c.run ms := by
  induction fuel generalizing c with
  | zero =>
    obtain ⟨ms, hms, -⟩ := exists_run_settle_at hc htarget
    exact ⟨ms, hms⟩
  | succ fuel ih =>
    rw [advanceFor]
    split
    · obtain ⟨ms, hms, -⟩ := exists_run_settle_at hc htarget
      exact ⟨ms, hms⟩
    · next t _ =>
      split
      · next ht =>
        -- A deadline may have passed already, and then nothing is waited for.
        obtain ⟨ms, hms, hnow⟩ := exists_run_settle_at hc (Nat.le_max_left c.now t)
        have hle : (c.run ms).now ≤ target := by
          rw [← hms, hnow]
          exact Nat.max_le.mpr ⟨htarget, ht⟩
        obtain ⟨ms', hms'⟩ := ih (hc.run ms) hle
        exact ⟨ms ++ ms', by rw [hms, hms', run_append]⟩
      · obtain ⟨ms, hms, -⟩ := exists_run_settle_at hc htarget
        exact ⟨ms, hms⟩

/-- `Client.advance` is a run. -/
theorem exists_run_advance (hc : c.Distinct) (millis : Nat) :
    ∃ ms, c.advance millis = c.run ms :=
  exists_run_advanceFor hc c.actionBound (Nat.le_add_right c.now millis)

end Client

/-! ## Bridges -/

namespace Bridge

open Client (Follows Distinct)

variable {b b' : Bridge}

/-- `Bridge.register` keeps to `Follows`. -/
theorem follows_register (session : Nat) : b.client.Follows (b.register session).client :=
  Client.follows_modifySession fun _ => rfl

/-- `Bridge.greet` keeps to `Follows`, and no time passes. -/
theorem follows_greet (h : b.greet = some b') :
    b.client.Follows b'.client ∧ b'.client.now = b.client.now := by
  rw [greet] at h
  split at h
  · cases h
  · next session rest _ =>
    cases h
    have h := follows_register (b := { b with client.greeted := rest }) session
    exact ⟨⟨h.connections, h.sessions, h.tasks⟩, rfl⟩
  · cases h
    exact ⟨Client.follows_of_eq rfl rfl rfl ⟨rfl, rfl, rfl⟩, rfl⟩

/-- `Bridge.answer` keeps to `Follows`, and no time passes. -/
theorem follows_answer (h : b.answer = some b') :
    b.client.Follows b'.client ∧ b'.client.now = b.client.now := by
  rw [answer] at h
  split at h
  · cases h
  · simp only at h
    split at h
    · cases h
      exact ⟨Client.follows_of_eq rfl rfl rfl ⟨rfl, rfl, rfl⟩, rfl⟩
    · cases h
      exact ⟨Client.follows_of_eq rfl rfl rfl ⟨rfl, rfl, rfl⟩, rfl⟩

/-- A forwarder keeps to `Follows`, and no time passes. -/
theorem follows_forward {f : Forwarder} (h : b.actForwarder f = some b') :
    b.client.Follows b'.client ∧ b'.client.now = b.client.now := by
  rw [actForwarder] at h
  split at h
  · cases h
  · rw [Option.map_eq_some_iff] at h
    obtain ⟨⟨step, g⟩, -, rfl⟩ := h
    exact ⟨Client.follows_putSession g.session, rfl⟩

/-- Every step of a bridge `Follows`, for its client. -/
theorem follows_step (b : Bridge) (m : Move) : b.client.Follows (b.step m).client := by
  have hgetD : ∀ {o : Option Bridge},
      (∀ b', o = some b' → b.client.Follows b'.client ∧ b'.client.now = b.client.now) →
      b.client.Follows (o.getD b).client := by
    intro o h
    cases o with
    | none => exact .refl b.client
    | some b' => exact (h b' rfl).1
  cases m with
  | client m => exact b.client.follows_step m
  | register session => exact follows_register session
  | call c =>
    obtain h | ⟨session, job, h⟩ := client_call c b
    · rw [step, h]
      exact .refl b.client
    · rw [step, h]
      exact Client.follows_start session job
  | greet => exact hgetD fun b' => follows_greet
  | answer => exact hgetD fun b' => follows_answer
  | forward f =>
    rw [step]
    split
    · exact hgetD fun b' => follows_forward
    · exact .refl b.client

/-- Who comes first in `Bridge.act` makes a move, and no time passes. -/
theorem act_eq_step (hb : b.client.Distinct) (h : b.act = some b') :
    ∃ m, b' = b.step m ∧ b'.client.now = b.client.now := by
  rw [act] at h
  simp only [Option.orElse_eq_orElse, Option.orElse_eq_or, Option.or_eq_some_iff] at h
  obtain h | ⟨-, h | ⟨-, h | ⟨-, h⟩⟩⟩ := h
  · exact ⟨.greet, by rw [step, h, Option.getD_some], (follows_greet h).2⟩
  · exact ⟨.answer, by rw [step, h, Option.getD_some], (follows_answer h).2⟩
  · rw [Option.map_eq_some_iff] at h
    obtain ⟨c', hact, rfl⟩ := h
    obtain ⟨m, rfl, hnow⟩ := Client.act_eq_step hb hact
    exact ⟨.client m, rfl, hnow⟩
  · obtain ⟨f, hf, hact⟩ := List.exists_of_findSome?_eq_some h
    exact ⟨.forward f, by rw [step, if_pos hf, hact, Option.getD_some], (follows_forward hact).2⟩

/-- A run of a bridge keeps the numbers of its client apart. -/
theorem distinct_run (hb : b.client.Distinct) (ms : List Move) : (b.run ms).client.Distinct := by
  induction ms generalizing b with
  | nil => exact hb
  | cons m ms ih => exact ih (hb.follows (b.follows_step m))

/-- Acting for a while is a run of the bridge in which no time passes. -/
theorem exists_run_settleFor (hb : b.client.Distinct) (fuel : Nat) :
    ∃ ms, b.settleFor fuel = b.run ms ∧ (b.settleFor fuel).client.now = b.client.now := by
  induction fuel generalizing b with
  | zero => exact ⟨[], rfl, rfl⟩
  | succ fuel ih =>
    rw [settleFor]
    split
    · exact ⟨[], rfl, rfl⟩
    · next b' hact =>
      obtain ⟨m, rfl, hnow⟩ := act_eq_step hb hact
      obtain ⟨ms, hms, hnow'⟩ := ih (hb.follows (b.follows_step m))
      exact ⟨m :: ms, hms, hnow'.trans hnow⟩

/-- `Bridge.settle` is a run in which no time passes. -/
theorem exists_run_settle (hb : b.client.Distinct) :
    ∃ ms, b.settle = b.run ms ∧ b.settle.client.now = b.client.now :=
  exists_run_settleFor hb b.actionBound

/-- Waiting and then `settle` is a run of the bridge. -/
theorem exists_run_settle_at (hb : b.client.Distinct) {t : Nat} (ht : b.client.now ≤ t) :
    ∃ ms, settle { b with client.now := t } = b.run ms ∧
      (settle { b with client.now := t }).client.now = t := by
  have hpass : b.step (.client (.pass (t - b.client.now))) = { b with client.now := t } := by
    rw [step, Client.step, Nat.add_sub_cancel' ht]
  obtain ⟨ms, hms, hnow⟩ :=
    exists_run_settle (hb.follows (b.follows_step (.client (.pass (t - b.client.now)))))
  rw [hpass] at hms hnow
  refine ⟨.client (.pass (t - b.client.now)) :: ms, ?_, hnow⟩
  rw [hms, ← hpass]
  rfl

/-- Letting time pass in several steps is a run of the bridge. -/
theorem exists_run_advanceFor (hb : b.client.Distinct) (fuel : Nat) {target : Nat}
    (htarget : b.client.now ≤ target) : ∃ ms, advanceFor fuel target b = b.run ms := by
  induction fuel generalizing b with
  | zero =>
    obtain ⟨ms, hms, -⟩ := exists_run_settle_at hb htarget
    exact ⟨ms, hms⟩
  | succ fuel ih =>
    rw [advanceFor]
    split
    · obtain ⟨ms, hms, -⟩ := exists_run_settle_at hb htarget
      exact ⟨ms, hms⟩
    · next t _ =>
      split
      · next ht =>
        obtain ⟨ms, hms, hnow⟩ := exists_run_settle_at hb (Nat.le_max_left b.client.now t)
        have hle : (b.run ms).client.now ≤ target := by
          rw [← hms, hnow]
          exact Nat.max_le.mpr ⟨htarget, ht⟩
        obtain ⟨ms', hms'⟩ := ih (distinct_run hb ms) hle
        exact ⟨ms ++ ms', by rw [hms, hms', run_append]⟩
      · obtain ⟨ms, hms, -⟩ := exists_run_settle_at hb htarget
        exact ⟨ms, hms⟩

/-- `Bridge.advance` is a run. -/
theorem exists_run_advance (hb : b.client.Distinct) (millis : Nat) :
    ∃ ms, b.advance millis = b.run ms :=
  exists_run_advanceFor hb b.client.actionBound (Nat.le_add_right b.client.now millis)

end Bridge

end Dbgp
