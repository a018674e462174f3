import Dbgp.Client
import Dbgp.Proofs.SessionActions
import Dbgp.Wire.Schedule
import Mathlib.Data.List.Induction

/-!
# Runs of a client in any order

`Client.settle` lets receivers and tasks act in a fixed order. Nothing that is proved about a client
should rest on that order, so a `Move` here is a single action of anybody: a handshake, a receiver or a
task, whoever uses the client, the other side of a connection, or the clock. A move that is not
possible changes nothing, so that every list of moves is a run.

`happenings` is what a move does with transactions and responses, and `history` is what a whole run
does with them. `outcome` says once what a move can do (`Outcome`): it is one action of a receiver or of
a task, or the end of a task that is given up, or else leaves everything to these that is theirs
(`Session.Beside`). Moves of a bridge have such outcomes for its client, too. `Effect` is what is left of
an outcome for those who follow transactions: slots and receivers, and nothing of the outlet or of the
negotiation. Tasks and sessions are looked up by number throughout, so that the lists that hold them are
opened only here.
-/

namespace Dbgp.Client

/-! ## Moves -/

/-- What can happen next, whoever does it. -/
inductive Move where
  | accept (config : Config)
  | attach (config : Config)
  | arrive (connection : Nat) (what : Arrival)
  /-- The other side of a connection takes so many octets from now on, or fails. -/
  | gate (connection : Nat) (fault : Option OutletFault) (room : Option Nat)
  | start (session : Nat) (job : Job)
  | cancel (task : Nat)
  | release (session : Nat)
  | addLogger (session : Nat) (name : String)
  | removeLogger (session : Nat) (name : String)
  | addListener (session : Nat) (name : String)
  | removeListener (session : Nat) (name : String)
  | pass (millis : Nat)
  | handshake (connection : Nat)
  | receiver (session : Nat)
  | task (id : Nat)
  deriving Repr

/-- The task with a number, if it is still at work. -/
def task? (id : Nat) (c : Client) : Option Task :=
  c.tasks.find? fun t => t.id = id

/-- The client after a move. A handshake, a receiver or a task acts at most once in it. -/
def step (c : Client) : Move → Client
  | .accept config => (c.accept config).2
  | .attach config => (c.attach config).2.2
  | .arrive connection what => c.modifyInbound connection fun i => i.receive what
  | .gate connection fault room => c.modifyOutlet connection fun o => { o with fault, room }
  | .start session job => (c.start session job).2
  | .cancel task => c.cancel task
  | .release session => c.release session
  | .addLogger session name => c.modifySession session (Session.addLogger name)
  | .removeLogger session name => c.modifySession session (Session.removeLogger name)
  | .addListener session name => c.modifySession session (Session.addListener name)
  | .removeListener session name => c.modifySession session (Session.removeListener name)
  | .pass millis => { c with now := c.now + millis }
  | .handshake connection =>
    ((c.handshakes.find? fun h => h.connection = connection).bind c.actHandshake).getD c
  | .receiver session => ((c.session? session).bind c.actSession).getD c
  | .task id => ((c.task? id).bind c.actTask).getD c

/-- The client after some moves, in this order. -/
def run (c : Client) (moves : List Move) : Client :=
  moves.foldl step c

@[simp] theorem run_nil (c : Client) : c.run [] = c := rfl

/-- The last move of `run` is one `step`. -/
@[simp] theorem run_concat (c : Client) (ms : List Move) (m : Move) :
    c.run (ms ++ [m]) = (c.run ms).step m := by
  rw [run, List.foldl_append, run]
  rfl

/-- A run in two parts is the second part from where the first one ends. -/
theorem run_append (c : Client) (ms ms' : List Move) : c.run (ms ++ ms') = (c.run ms).run ms' := by
  rw [run, List.foldl_append, run, run]

end Dbgp.Client

/-! ## What happens to responses -/

namespace Dbgp

/-- The state that is left to go on from, unless the `Progress` is finished. -/
def Progress.ongoing? : Progress ρ α → Option ρ
  | .ongoing state => some state
  | .finished _ => none

/-- The exchange a task is in: that of the negotiation or that of its command. -/
def Phase.exchange? : Phase → Option Exchange
  | .negotiate x | .exchange x => some x
  | _ => none

/-- The response that `Exchange.act` takes from its slot with its next action, if it takes one. -/
def Exchange.obtained? (now : Nat) (x : Exchange) (s : Session) : Option Response :=
  match x.phase with
  | .await w =>
    match w.act now s.slots with
    | some (.finished (.ok (some r)), _) => some r
    | _ => none
  | _ => none

/-- Something that happens to transactions and their responses. A whole run has a `history` of
these. -/
inductive Happening where
  | allocated (transaction : UInt32)
  /-- A response has been read. It is awaited if there is a slot for its transaction. -/
  | delivered (session : Nat) (r : Response) (awaited : Bool)
  /-- The exchange of a transaction has got a response. -/
  | obtained (session : Nat) (transaction : UInt32) (r : Response)

/-- What happens with the next action of `Session.receiverStep`: at most one response is delivered. -/
def Session.happenings (now : Nat) (s : Session) : List Happening :=
  match s.arriving? now with
  | some r => [.delivered s.id r (s.slots.get? r.transaction).isSome]
  | none => []

/-- What a task obtains with its next action, by its exchange (`Exchange.obtained?`). -/
def Task.obtained? (now : Nat) (t : Task) (s : Session) : Option Happening :=
  t.phase.exchange?.bind fun x =>
    (x.obtained? now s).map fun r => .obtained t.session x.request.transaction r

/-- What happens with the next action of `Task.act`: the transaction it allocates and the response it
obtains, if any. -/
def Task.happenings (now : Nat) (t : Task) (g : Ground) : List Happening :=
  match t.act now g with
  | none => []
  | some (_, g') =>
    (if g'.transaction = g.transaction then [] else [.allocated g.transaction]) ++
      (t.obtained? now g.session).toList

namespace Client

/-- Whether a session is to be ended because nobody has it: it is not owned, not told to `stop` yet,
and no task is on it. -/
def isDeserted (s : Session) (c : Client) : Bool :=
  ¬s.owned ∧ ¬s.stop ∧ ¬(c.tasks.any fun t => t.session = s.id)

/-- What happens with a move. Only receivers and tasks have to do with transactions. -/
def happenings (c : Client) : Move → List Happening
  | .receiver n =>
    match c.session? n with
    | none => []
    | some s => if c.isDeserted s then [] else s.happenings c.now
  | .task k =>
    match c.task? k with
    | none => []
    | some t =>
      match c.session? t.session with
      | none => []
      | some s => t.happenings c.now ⟨c.nextTransaction, s⟩
  | _ => []

/-- All that happens in a run, in order: the `happenings` of each of its moves. -/
def history (c : Client) : List Move → List Happening
  | [] => []
  | m :: ms => c.happenings m ++ history (c.step m) ms

/-- The `history` of a run in two parts. -/
theorem history_append (c : Client) (ms ms' : List Move) :
    c.history (ms ++ ms') = c.history ms ++ (c.run ms).history ms' := by
  induction ms generalizing c with
  | nil => rfl
  | cons m ms ih =>
    rw [List.cons_append, history, history, ih, List.append_assoc]
    rfl

/-- The last move of a run adds its `happenings` to the `history`. -/
theorem history_concat (c : Client) (ms : List Move) (m : Move) :
    c.history (ms ++ [m]) = c.history ms ++ (c.run ms).happenings m := by
  rw [history_append]
  congr 1
  exact List.append_nil _

/-! ## Sessions and tasks by number -/

/-- A session that `session?` finds has the number it was looked for by. -/
theorem id_of_session? {c : Client} {n : Nat} {s : Session} (h : c.session? n = some s) :
    s.id = n := by
  simpa using List.find?_some h

/-- A task that `task?` finds has the number it was looked for by. -/
theorem id_of_task? {c : Client} {k : Nat} {t : Task} (h : c.task? k = some t) : t.id = k := by
  simpa using List.find?_some h

/-- Sessions that are changed in place are found where they were. -/
theorem find?_map_session {f : Session → Session} (hid : ∀ s, (f s).id = s.id) (n : Nat)
    (l : List Session) :
    (l.map f).find? (fun s => s.id = n) = (l.find? fun s => s.id = n).map f := by
  rw [List.find?_map]
  congr 2
  funext s
  simp [hid]

/-- `putSession` replaces the session with its number and no other. -/
theorem session?_putSession {c : Client} {n : Nat} {s : Session} (hs : c.session? n = some s)
    (s' : Session) (hid : s'.id = n) (j : Nat) :
    (c.putSession s').session? j = if j = n then some s' else c.session? j := by
  rw [session?, putSession, find?_map_session]
  · split
    · next hj =>
      rw [session?] at hs
      rw [hj, hs, Option.map_some, if_pos (by rw [id_of_session? hs, hid])]
    · next hj =>
      rw [← session?]
      cases hfound : c.session? j with
      | none => rfl
      | some d => rw [Option.map_some, if_neg (by rw [id_of_session? hfound, hid]; exact hj)]
  · intro d
    split
    · next h => exact h.symm
    · rfl

/-- `modifySession` changes the session with a number and no other. -/
theorem session?_modifySession {f : Session → Session} (hid : ∀ s, (f s).id = s.id) (c : Client)
    (n j : Nat) :
    (c.modifySession n f).session? j =
      if j = n then (c.session? j).map f else c.session? j := by
  rw [session?, modifySession, find?_map_session]
  · rw [← session?]
    cases hfound : c.session? j with
    | none => simp
    | some s =>
      rw [Option.map_some, id_of_session? hfound]
      split <;> rfl
  · intro s
    split
    · exact hid s
    · rfl

/-- A task that is taken out is not found any more, and all others are. -/
theorem find?_filter_task (l : List Task) (k j : Nat) :
    (l.filter fun t => t.id ≠ k).find? (fun t => t.id = j) =
      if j = k then none else l.find? fun t => t.id = j := by
  rw [List.find?_filter]
  split
  · next h =>
    rw [List.find?_eq_none]
    simp [h]
  · next h =>
    congr 1
    funext t
    by_cases ht : t.id = j
    · simp [ht, h]
    · simp [ht]

/-- A task that goes on to another phase is found in that phase, and all others are as they were. -/
theorem find?_map_task {l : List Task} {k : Nat} {t : Task} {phase : Phase}
    (hk : l.find? (fun t => t.id = k) = some t) (j : Nat) :
    (l.map fun t => if t.id = k then { t with phase } else t).find? (fun t => t.id = j) =
      if j = k then some { t with phase } else l.find? fun t => t.id = j := by
  rw [List.find?_map]
  have hkey : ((fun t : Task => decide (t.id = j)) ∘ fun t =>
      if t.id = k then { t with phase } else t) = fun t => decide (t.id = j) := by
    funext t
    simp only [Function.comp_apply]
    split <;> rfl
  rw [hkey]
  split
  · next hj =>
    have ht : t.id = k := by simpa using List.find?_some hk
    rw [hj, hk, Option.map_some, if_pos ht]
  · next hj =>
    cases hfound : l.find? fun t => decide (t.id = j) with
    | none => rfl
    | some d =>
      have hd : d.id = j := by simpa using List.find?_some hfound
      rw [Option.map_some, if_neg (by rw [hd]; exact hj)]

/-! ## Sessions nobody acts on -/

end Client

/-- The result of a `Progress`, if it is finished. -/
def Progress.result? : Progress ρ α → Option (Except Error α)
  | .ongoing _ => none
  | .finished result => some result

/-- What may become of a session without an action of its receiver, of a task or of a forwarder:
octets arrive, the outlet is gated, listeners and loggers come and go, or it is released or told to
stop. -/
inductive Session.Beside (s : Session) : Session → Prop
  | intro (inbound : Inbound) (fault : Option OutletFault) (room : Option Nat)
      (listeners loggers : List String) (stop owned : Bool) (journal : List Event) :
      Beside s { s with
        inbound, loggers, stop, owned, journal
        outlet := { s.outlet with fault, room }
        lifecycle := { s.lifecycle with listeners } }

/-- A session that nothing happens to is `Session.Beside` itself. -/
theorem Session.Beside.refl (s : Session) : s.Beside s :=
  .intro s.inbound s.outlet.fault s.outlet.room s.lifecycle.listeners s.loggers s.stop s.owned s.journal

/-- What happens beside a session leaves its number alone. -/
theorem Session.Beside.id_eq {s s' : Session} (h : s.Beside s') : s'.id = s.id := by
  cases h
  rfl

/-- `Session.addListener` touches listeners and journal only, whether or not the listener comes in
time. -/
theorem Session.beside_addListener (name : String) (s : Session) : s.Beside (s.addListener name) := by
  rw [addListener, Lifecycle.addListener]
  by_cases hfired : s.lifecycle.fired
  · rw [if_pos hfired]
    exact .intro s.inbound s.outlet.fault s.outlet.room s.lifecycle.listeners s.loggers s.stop s.owned _
  · rw [if_neg hfired]
    exact .intro s.inbound s.outlet.fault s.outlet.room _ s.loggers s.stop s.owned _

namespace Client

/-- What becomes of the session with a number where nobody acts on it. A session that is new has the
outlet of its handshake, if there was one. -/
inductive Passed (c : Client) (n : Nat) : Option Session → Option Session → Prop
  | absent : Passed c n none none
  | beside {s s' : Session} : s.Beside s' → Passed c n (some s) (some s')
  | opened {connection : Nat} {init : Option Init} {config : Config} {inbound : Inbound}
      {outlet : Outlet} : outlet = {} ∨ (∃ h ∈ c.handshakes, h.outlet = outlet) →
      Passed c n none (some (.new n connection c.now init config inbound outlet))

/-- Nothing happens to the session, or there is none and none comes. -/
theorem Passed.refl (c : Client) (n : Nat) (s : Option Session) : Passed c n s s := by
  cases s with
  | none => exact .absent
  | some s => exact .beside (.refl s)

/-! ## The outcome of a move -/

/-- What a move comes to, for sessions, tasks, results and `happenings`. Results are taken from the
front. While a forwarder acts, the client itself does nothing. -/
inductive Outcome (c : Client) (m : Move) (c' : Client) : Prop
  | aside : (∀ k, c'.task? k = c.task? k ∨ c.task? k = none ∧ ∃ session job, m = .start session job ∧
        c'.task? k = some ⟨c.nextTask, session, job, .start⟩) →
      (∀ n, Passed c n (c.session? n) (c'.session? n)) → c'.finished <:+ c.finished →
      c.nextTask ≤ c'.nextTask → c'.nextTransaction = c.nextTransaction → c.happenings m = [] →
      Outcome c m c'
  | received {n : Nat} {s s' : Session} : m = .receiver n → c.session? n = some s →
      s.receiverStep c.now = some s' → (∀ k, c'.task? k = c.task? k) →
      (∀ j, c'.session? j = if j = n then some s' else c.session? j) →
      c'.finished <:+ c.finished → c.nextTask ≤ c'.nextTask →
      c'.nextTransaction = c.nextTransaction → c.happenings m = s.happenings c.now → Outcome c m c'
  | acted {k : Nat} {t : Task} {s : Session} {p : Progress Phase Reply} {g : Ground} :
      m = .task k → c.task? k = some t → c.session? t.session = some s →
      t.act c.now ⟨c.nextTransaction, s⟩ = some (p, g) →
      (∀ j, c'.task? j = if j = k then p.ongoing?.map fun phase => { t with phase }
        else c.task? j) →
      (∀ j, c'.session? j = if j = t.session then some g.session else c.session? j) →
      c'.finished = c.finished ++ (p.result?.map fun result => (k, result)).toList →
      c.nextTask ≤ c'.nextTask → c'.nextTransaction = g.transaction →
      c.happenings m = t.happenings c.now ⟨c.nextTransaction, s⟩ → Outcome c m c'
  | abandoned {k : Nat} {t : Task} : m = .cancel k → c.task? k = some t →
      (∀ j, c'.task? j = if j = k then none else c.task? j) →
      (∀ j, c'.session? j = if j = t.session then (c.session? j).map t.abandon
        else c.session? j) →
      c'.finished <:+ c.finished → c.nextTask ≤ c'.nextTask →
      c'.nextTransaction = c.nextTransaction → Outcome c m c'
  | forwarded {n : Nat} {s : Session} {notifies : Mailbox Notify} {outputs : Mailbox Output} :
      m = .pass 0 → c.session? n = some s → (∀ k, c'.task? k = c.task? k) →
      (∀ j, c'.session? j = if j = n then some { s with notifies, outputs } else c.session? j) →
      c'.finished <:+ c.finished → c.nextTask ≤ c'.nextTask →
      c'.nextTransaction = c.nextTransaction → Outcome c m c'

variable {c c' : Client} {m : Move}

/-- A move that leaves the tasks alone and changes sessions in place, each into one that is
`Session.Beside` it. -/
theorem outcome_map {f : Session → Session} (hf : ∀ s : Session, s.Beside (f s))
    (htasks : c'.tasks = c.tasks) (hfinished : c'.finished <:+ c.finished)
    (hnext : c'.nextTask = c.nextTask) (htransaction : c'.nextTransaction = c.nextTransaction)
    (hidle : c.happenings m = []) (hsessions : c'.sessions = c.sessions.map f) : Outcome c m c' := by
  refine .aside (fun k => .inl (by rw [task?, htasks, task?])) (fun n => ?_) hfinished
    (Nat.le_of_eq hnext.symm) htransaction hidle
  have hsession : c'.session? n = (c.session? n).map f := by
    rw [session?, hsessions, find?_map_session fun s => (hf s).id_eq, session?]
  rw [hsession]
  cases c.session? n with
  | none => exact .absent
  | some s => exact .beside (hf s)

/-- A move that leaves tasks and sessions alone, apart from results that are taken. -/
theorem outcome_same (htasks : c'.tasks = c.tasks) (hfinished : c'.finished <:+ c.finished)
    (hnext : c'.nextTask = c.nextTask) (htransaction : c'.nextTransaction = c.nextTransaction)
    (hidle : c.happenings m = []) (hsessions : c'.sessions = c.sessions) : Outcome c m c' :=
  outcome_map Session.Beside.refl htasks hfinished hnext htransaction hidle
    (by rw [hsessions, List.map_id'])

/-- A move that does nothing has an `Outcome`. -/
theorem outcome_self (hidle : c.happenings m = []) : Outcome c m c :=
  outcome_same rfl List.suffix_rfl rfl rfl hidle rfl

/-- `modifySession` changes one session, into one that is `Session.Beside` it. -/
theorem outcome_modifySession {n : Nat} {f : Session → Session} (hf : ∀ s : Session, s.Beside (f s))
    (hidle : c.happenings m = []) : Outcome c m (c.modifySession n f) := by
  refine outcome_map (f := fun s => if s.id = n then f s else s) (fun s => ?_) rfl List.suffix_rfl rfl rfl
    hidle rfl
  split
  · exact hf s
  · exact .refl s

/-- A move that opens a session (`Session.new`). -/
theorem outcome_open {n connection : Nat} {init : Option Init} {config : Config} {inbound : Inbound}
    {outlet : Outlet} (houtlet : outlet = {} ∨ ∃ h ∈ c.handshakes, h.outlet = outlet)
    (htasks : c'.tasks = c.tasks) (hfinished : c'.finished = c.finished)
    (hnext : c'.nextTask = c.nextTask) (htransaction : c'.nextTransaction = c.nextTransaction)
    (hidle : c.happenings m = []) (hsessions : c'.sessions =
      c.sessions ++ [.new n connection c.now init config inbound outlet]) : Outcome c m c' := by
  refine .aside (fun k => .inl (by rw [task?, htasks, task?])) (fun j => ?_) (hfinished ▸ List.suffix_rfl)
    (Nat.le_of_eq hnext.symm) htransaction hidle
  rw [show c'.session? j = (c.session? j).or _ by
    rw [session?, hsessions, List.find?_append, session?]]
  cases c.session? j with
  | some s => exact .refl ..
  | none =>
    by_cases hj : n = j
    · subst hj
      rw [Option.none_or, List.find?_cons_of_pos (by simp [Session.new])]
      exact .opened houtlet
    · rw [Option.none_or, List.find?_cons_of_neg (by simp [Session.new, hj])]
      exact .absent

/-- `Handshake.act` only reads: the outlet of the connection stays as it is. -/
theorem outlet_act {now : Nat} {h h' : Handshake} {p : Progress Handshake Init}
    (hact : h.act now = some (p, h')) :
    h'.outlet = h.outlet ∧ ∀ h'', p = .ongoing h'' → h''.outlet = h.outlet := by
  rw [Handshake.act] at hact
  split at hact
  · cases hact
    refine ⟨rfl, ?_⟩
    rintro h'' ⟨⟩
  · split at hact
    · cases hact
      refine ⟨rfl, ?_⟩
      rintro h'' ⟨⟩
    · split at hact
      · cases hact
      · cases hact
        refine ⟨rfl, ?_⟩
        rintro h'' ⟨⟩
        rfl

/-- A handshake that is over opens a session with its outlet, or opens none. -/
theorem outcome_handshake {h : Handshake} (hmem : h ∈ c.handshakes) (hidle : c.happenings m = []) :
    Outcome c m ((c.actHandshake h).getD c) := by
  rw [actHandshake]
  split
  · exact outcome_self hidle
  · exact outcome_same rfl List.suffix_rfl rfl rfl hidle rfl
  · exact outcome_same rfl List.suffix_rfl rfl rfl hidle rfl
  · next init h' hact =>
    refine outcome_open (.inr ⟨h, hmem, ?_⟩) rfl rfl rfl rfl hidle rfl
    exact (outlet_act hact).1.symm

/-- A receiver acts on its session, unless the session is deserted and only told to stop. -/
theorem outcome_receiver (n : Nat) : Outcome c (.receiver n) (c.step (.receiver n)) := by
  have hhappened : ∀ s, c.session? n = some s →
      c.happenings (.receiver n) = if c.isDeserted s then [] else s.happenings c.now := by
    intro s hs
    rw [happenings, hs]
  cases hs : c.session? n with
  | none =>
    rw [step, hs]
    exact outcome_self (by rw [happenings, hs])
  | some s =>
    have hid := id_of_session? hs
    have hhappened := hhappened s hs
    rw [step, hs, Option.bind_some, actSession]
    split
    · next hdeserted =>
      rw [if_pos (by simpa [isDeserted] using hdeserted)] at hhappened
      rw [Option.getD_some]
      refine .aside (fun k => .inl rfl) (fun j => ?_) List.suffix_rfl (Nat.le_refl _) rfl hhappened
      rw [session?_putSession hs { s with stop := true } hid]
      split
      · next hj =>
        rw [hj, hs]
        exact .beside (.intro s.inbound s.outlet.fault s.outlet.room s.lifecycle.listeners s.loggers true
          s.owned s.journal)
      · exact .refl ..
    · next hdeserted =>
      rw [if_neg (by simpa [isDeserted] using hdeserted)] at hhappened
      cases hstep : s.receiverStep c.now with
      | none =>
        rw [Session.happenings, Session.arriving?_eq_none hstep] at hhappened
        exact outcome_self hhappened
      | some s' =>
        refine .received rfl hs hstep (fun k => rfl) (session?_putSession hs s' ?_) List.suffix_rfl
          (Nat.le_refl _) rfl hhappened
        rw [(Session.receiverStep_keeps hstep).1, hid]

/-- What `step` does with a task: it acts on its session, unless it cannot, and then nothing
changes. -/
theorem step_task (k : Nat) : c.happenings (.task k) = [] ∧ c.step (.task k) = c ∨
    ∃ t s p g, c.task? k = some t ∧ c.session? t.session = some s ∧
      t.act c.now ⟨c.nextTransaction, s⟩ = some (p, g) ∧
      c.happenings (.task k) = t.happenings c.now ⟨c.nextTransaction, s⟩ ∧
      (c.step (.task k)).nextTransaction = g.transaction ∧
      (∀ j, (c.step (.task k)).task? j = if j = k then p.ongoing?.map fun phase => { t with phase }
        else c.task? j) ∧
      (∀ j, (c.step (.task k)).session? j = if j = t.session then some g.session
        else c.session? j) ∧
      (c.step (.task k)).nextTask = c.nextTask := by
  rw [happenings, step]
  cases hk : c.task? k with
  | none => exact .inl ⟨rfl, rfl⟩
  | some t =>
    obtain rfl := id_of_task? hk
    simp only [Option.bind_some, actTask]
    cases hs : c.session? t.session with
    | none => exact .inl ⟨rfl, rfl⟩
    | some s =>
      simp only
      cases hact : t.act c.now ⟨c.nextTransaction, s⟩ with
      | none => exact .inl ⟨by rw [Task.happenings, hact], rfl⟩
      | some acted =>
        obtain ⟨p, g⟩ := acted
        have hid : g.session.id = t.session :=
          (Task.acted hact).akin.id_eq.trans (id_of_session? hs)
        refine .inr ⟨t, s, p, g, rfl, hs, hact, rfl, ?_⟩
        cases p with
        | ongoing phase =>
          exact ⟨rfl, find?_map_task hk, session?_putSession hs g.session hid, rfl⟩
        | finished result =>
          exact ⟨rfl, find?_filter_task c.tasks t.id, session?_putSession hs g.session hid, rfl⟩

/-- The results after a move of a task: one more if it is over, with its `Progress.result?`. -/
theorem finished_task {k : Nat} {t : Task} {s : Session} {p : Progress Phase Reply} {g : Ground}
    (hk : c.task? k = some t) (hs : c.session? t.session = some s)
    (hact : t.act c.now ⟨c.nextTransaction, s⟩ = some (p, g)) :
    (c.step (.task k)).finished =
      c.finished ++ (p.result?.map fun result => (k, result)).toList := by
  rw [step, hk, Option.bind_some, actTask, hs]
  simp only [hact]
  cases p with
  | ongoing phase => exact (List.append_nil _).symm
  | finished result =>
    rw [id_of_task? hk]
    rfl

/-- The task itself after a move of it: in its next phase (`Progress.ongoing?`), or gone. -/
theorem task?_task {k : Nat} {t : Task} {s : Session} {p : Progress Phase Reply} {g : Ground}
    (hk : c.task? k = some t) (hs : c.session? t.session = some s)
    (hact : t.act c.now ⟨c.nextTransaction, s⟩ = some (p, g)) :
    (c.step (.task k)).task? k = p.ongoing?.map fun phase => { t with phase } := by
  obtain rfl := id_of_task? hk
  rw [step, hk, Option.bind_some, actTask, hs]
  simp only [hact]
  cases p with
  | ongoing phase => exact (find?_map_task hk t.id).trans (if_pos rfl)
  | finished result => exact (find?_filter_task c.tasks t.id t.id).trans (if_pos rfl)

/-- A task acts on its session, if it can. -/
theorem outcome_task (k : Nat) : Outcome c (.task k) (c.step (.task k)) := by
  obtain ⟨hidle, hsame⟩ | ⟨t, s, p, g, hk, hs, hact, hhappened, htransaction, htask, hsession, hnext⟩
    := c.step_task k
  · rw [hsame]
    exact outcome_self hidle
  · exact .acted rfl hk hs hact htask hsession (finished_task hk hs hact) (Nat.le_of_eq hnext.symm)
      htransaction hhappened

/-- A task that is started has the number that is next, and is at its start. -/
theorem outcome_start (session : Nat) (job : Job) :
    Outcome c (.start session job) (c.start session job).2 := by
  refine .aside (fun k => ?_) (fun n => .refl ..) List.suffix_rfl (Nat.le_succ _) rfl rfl
  rw [task?, start, List.find?_append, ← task?]
  cases c.task? k with
  | some t => exact .inl rfl
  | none =>
    by_cases hk : c.nextTask = k
    · exact .inr ⟨rfl, session, job, rfl, by simp [hk]⟩
    · exact .inl (by simp [hk])

/-- A task that is given up lets go of its session (`Task.abandon`). -/
theorem outcome_cancel (k : Nat) : Outcome c (.cancel k) (c.cancel k) := by
  rw [cancel]
  split
  · exact outcome_self rfl
  · next t hk =>
    refine .abandoned rfl hk (find?_filter_task c.tasks k) ?_ List.suffix_rfl (Nat.le_refl _) rfl
    exact session?_modifySession (fun s => (t.akin_abandon s).id_eq) { c with tasks := _ } t.session

/-- Every move has one of these outcomes. -/
theorem outcome (c : Client) (m : Move) : Outcome c m (c.step m) := by
  cases m with
  | accept config => exact outcome_same rfl List.suffix_rfl rfl rfl rfl rfl
  | attach config => exact outcome_open (.inl rfl) rfl rfl rfl rfl rfl rfl
  | arrive connection what =>
    refine outcome_map (fun s => ?_) rfl List.suffix_rfl rfl rfl rfl rfl
    split
    · exact .intro _ s.outlet.fault s.outlet.room s.lifecycle.listeners s.loggers s.stop s.owned
        s.journal
    · exact .refl s
  | gate connection fault room =>
    refine outcome_map (fun s => ?_) rfl List.suffix_rfl rfl rfl rfl rfl
    split
    · exact .intro s.inbound fault room s.lifecycle.listeners s.loggers s.stop s.owned s.journal
    · exact .refl s
  | start session job => exact outcome_start session job
  | cancel k => exact outcome_cancel k
  | release session =>
    refine outcome_modifySession (fun s => ?_) rfl
    exact .intro s.inbound s.outlet.fault s.outlet.room s.lifecycle.listeners s.loggers s.stop false
      s.journal
  | addLogger session name | removeLogger session name =>
    refine outcome_modifySession (fun s => ?_) rfl
    exact .intro s.inbound s.outlet.fault s.outlet.room s.lifecycle.listeners _ s.stop s.owned s.journal
  | addListener session name => exact outcome_modifySession (Session.beside_addListener name) rfl
  | removeListener session name =>
    refine outcome_modifySession (fun s => ?_) rfl
    exact .intro s.inbound s.outlet.fault s.outlet.room _ s.loggers s.stop s.owned s.journal
  | pass millis => exact outcome_same rfl List.suffix_rfl rfl rfl rfl rfl
  | handshake connection =>
    rw [step]
    cases h : c.handshakes.find? fun h => h.connection = connection with
    | none => exact outcome_self rfl
    | some h' => exact outcome_handshake (List.mem_of_find?_eq_some h) rfl
  | receiver n => exact outcome_receiver n
  | task k => exact outcome_task k

/-! ## The effect of a move -/

/-- Slots, receiver and stage of a session stay as they are; a session that is new has no slots. -/
inductive Unmoved : Option Session → Option Session → Prop
  | absent : Unmoved none none
  | kept {s s' : Session} : s'.slots = s.slots → s'.receiver = s.receiver →
      s'.lifecycle.stage = s.lifecycle.stage → Unmoved (some s) (some s')
  | opened {s : Session} : s.slots = {} → Unmoved none (some s)

/-- A session that nothing happens to is `Unmoved`. -/
theorem Unmoved.refl (s : Option Session) : Unmoved s s := by
  cases s with
  | none => exact .absent
  | some s => exact .kept rfl rfl rfl

/-- Where nobody acts on a session it is `Unmoved`. -/
theorem Passed.unmoved {n : Nat} {s s' : Option Session} (h : Passed c n s s') : Unmoved s s' := by
  cases h with
  | absent => exact .absent
  | beside hbeside =>
    cases hbeside
    exact .kept rfl rfl rfl
  | opened => exact .opened rfl

/-- What a move can do to slots, receivers and tasks, with what happens: all that follows a
transaction needs of an `Outcome`. -/
inductive Effect (c : Client) (m : Move) : List Happening → Client → Prop
  | aside {c' : Client} : c'.nextTransaction = c.nextTransaction →
      (∀ k, c'.task? k = c.task? k ∨ c.task? k = none ∧ ∃ session job, m = .start session job ∧
        c'.task? k = some ⟨c.nextTask, session, job, .start⟩) →
      (∀ n, Unmoved (c.session? n) (c'.session? n)) → c.nextTask ≤ c'.nextTask →
      Effect c m [] c'
  | received {n : Nat} {s s' : Session} {c' : Client} : c.session? n = some s →
      s.receiverStep c.now = some s' → c'.nextTransaction = c.nextTransaction →
      (∀ k, c'.task? k = c.task? k) →
      (∀ j, c'.session? j = if j = n then some s' else c.session? j) →
      c.nextTask ≤ c'.nextTask → Effect c m (s.happenings c.now) c'
  | acted {k : Nat} {t : Task} {s : Session} {p : Progress Phase Reply} {g : Ground}
      {c' : Client} : c.task? k = some t → c.session? t.session = some s →
      t.act c.now ⟨c.nextTransaction, s⟩ = some (p, g) → c'.nextTransaction = g.transaction →
      (∀ j, c'.task? j = if j = k then p.ongoing?.map fun phase => { t with phase }
        else c.task? j) →
      (∀ j, c'.session? j = if j = t.session then some g.session else c.session? j) →
      c.nextTask ≤ c'.nextTask → m = .task k →
      Effect c m (t.happenings c.now ⟨c.nextTransaction, s⟩) c'
  | abandoned {k : Nat} {t : Task} {c' : Client} : c.task? k = some t →
      c'.nextTransaction = c.nextTransaction →
      (∀ j, c'.task? j = if j = k then none else c.task? j) →
      (∀ j, c'.session? j = if j = t.session then (c.session? j).map t.abandon
        else c.session? j) →
      c.nextTask ≤ c'.nextTask → Effect c m [] c'

/-- An `Outcome` has an `Effect`. What a forwarder does is none of a transaction's business. -/
theorem Outcome.effect (h : Outcome c m c') : Effect c m (c.happenings m) c' := by
  cases h with
  | aside htask hsession _ hnext htransaction hidle =>
    rw [hidle]
    exact .aside htransaction htask (fun n => (hsession n).unmoved) hnext
  | received _ hs hstep htask hsession _ hnext htransaction hhappened =>
    rw [hhappened]
    exact .received hs hstep htransaction htask hsession hnext
  | acted hm hk hs hact htask hsession _ hnext htransaction hhappened =>
    rw [hhappened]
    exact .acted hk hs hact htransaction htask hsession hnext hm
  | abandoned hm hk htask hsession _ hnext htransaction =>
    subst hm
    exact .abandoned hk htransaction htask hsession hnext
  | forwarded hm hs htask hsession _ hnext htransaction =>
    subst hm
    refine .aside htransaction (fun k => .inl (htask k)) (fun j => ?_) hnext
    rw [hsession]
    split
    · next hj =>
      rw [hj, hs]
      exact .kept rfl rfl rfl
    · exact .refl _

/-- Every move has one of the four effects, with its `happenings`. -/
theorem effect (c : Client) (m : Move) : Effect c m (c.happenings m) (c.step m) :=
  (c.outcome m).effect

/-! ## The way to the end -/

/-- A session is on its way to the end, or there: `Lifecycle.isConnected` is over. -/
def IsEnding (n : Nat) (c : Client) : Prop :=
  ∃ s, c.session? n = some s ∧ s.lifecycle.isConnected = false

/-- A session never comes back from its end, whatever the `Effect`. -/
theorem Effect.isEnding {es : List Happening} {c' : Client} (h : Effect c m es c') {n : Nat}
    (hn : c.IsEnding n) : c'.IsEnding n := by
  obtain ⟨s, hs, hs'⟩ := hn
  cases h with
  | aside _ _ hsession _ =>
    have hunmoved := hsession n
    rw [hs] at hunmoved
    generalize hd : c'.session? n = d at hunmoved
    cases hunmoved with
    | kept _ _ hstage =>
      refine ⟨_, hd, ?_⟩
      rwa [Lifecycle.isConnected, hstage]
  | @received j s₁ s₂ _ hj hstep _ _ hsession _ =>
    by_cases hn : n = j
    · subst hn
      cases hj.symm.trans hs
      refine ⟨s₂, by rw [hsession, if_pos rfl], ?_⟩
      exact (Session.receiverStep_keeps hstep).2.isConnected_eq_false hs'
    · exact ⟨s, by rw [hsession, if_neg hn, hs], hs'⟩
  | @acted _ t s₁ _ g _ _ ht hact _ _ hsession _ _ =>
    by_cases hn : n = t.session
    · subst hn
      cases ht.symm.trans hs
      refine ⟨g.session, by rw [hsession, if_pos rfl], ?_⟩
      exact (Task.acted hact).akin.onward.isConnected_eq_false hs'
    · exact ⟨s, by rw [hsession, if_neg hn, hs], hs'⟩
  | @abandoned _ t _ _ _ _ hsession _ =>
    by_cases hn : n = t.session
    · refine ⟨t.abandon s, by rw [hsession, if_pos hn, hs, Option.map_some], ?_⟩
      exact (t.akin_abandon s).onward.isConnected_eq_false hs'
    · exact ⟨s, by rw [hsession, if_neg hn, hs], hs'⟩

/-! ## Invariants -/

/-- What holds at the start, and is kept by every `Effect` of moves of some kind, holds after every
run of such moves. -/
theorem run_invariant {P : Client → List Happening → Prop} {K : Move → Prop} (hinit : P {} [])
    (hstep : ∀ {c m es es' c'}, K m → Effect c m es' c' → P c es → P c' (es ++ es'))
    {ms : List Move} (hms : ∀ m ∈ ms, K m) : P (run {} ms) (history {} ms) := by
  induction ms using List.reverseRecOn with
  | nil => exact hinit
  | append_singleton ms m ih =>
    rw [run_concat, history_concat]
    refine hstep (hms m (by simp)) (effect _ m) (ih fun m' hm' => hms m' ?_)
    exact List.mem_append_left _ hm'

/-- What holds of tasks when they start, and is kept by `Task.act`, is kept by a move. -/
theorem Effect.tasks {Q : Task → Prop} {es : List Happening} {c' : Client} (h : Effect c m es c')
    (hstart : ∀ k session job, m = .start session job → Q ⟨k, session, job, .start⟩)
    (hact : ∀ {now t g g' phase}, Q t → t.act now g = some (.ongoing phase, g') →
      Q { t with phase })
    (htasks : ∀ k t, c.task? k = some t → Q t) {k : Nat} {t : Task} (ht : c'.task? k = some t) :
    Q t := by
  cases h with
  | aside _ htask _ =>
    obtain h | ⟨-, session, job, hm, h⟩ := htask k
    · exact htasks k t (h.symm.trans ht)
    · cases h.symm.trans ht
      exact hstart _ _ _ hm
  | received _ _ _ htask _ => exact htasks k t ((htask k).symm.trans ht)
  | @acted j t' _ p _ _ hj _ hact' _ htask _ =>
    rw [htask k] at ht
    split at ht
    · cases p with
      | ongoing phase =>
        cases ht
        exact hact (htasks j t' hj) hact'
      | finished _ => cases ht
    · exact htasks k t ht
  | abandoned _ _ htask _ =>
    rw [htask k] at ht
    split at ht
    · cases ht
    · exact htasks k t ht

/-- What holds of tasks when they start, and is kept by `Task.act`, holds of all tasks of a run of
moves of some kind. -/
theorem task_invariant {Q : Task → Prop} {K : Move → Prop}
    (hstart : ∀ k session job, K (.start session job) → Q ⟨k, session, job, .start⟩)
    (hact : ∀ {now t g g' phase}, Q t → t.act now g = some (.ongoing phase, g') →
      Q { t with phase })
    {ms : List Move} (hms : ∀ m ∈ ms, K m) {k : Nat} {t : Task}
    (ht : (run {} ms).task? k = some t) : Q t := by
  refine run_invariant (P := fun c _ => ∀ k t, c.task? k = some t → Q t) ?_ ?_ hms k t ht
  · rintro k t ⟨⟩
  · intro c m es es' c' hm heffect ih k t ht
    refine heffect.tasks (fun k session job hstarted => ?_) hact ih ht
    exact hstart k session job (hstarted ▸ hm)

/-- A task keeps its session and its job: what is so of every job that was started on a session is so
of all tasks on it. -/
theorem job_of_started (J : Job → Prop) {n : Nat} {ms : List Move}
    (hms : ∀ job, .start n job ∈ ms → J job) {k : Nat} {t : Task}
    (ht : (run {} ms).task? k = some t) : t.session = n → J t.job := by
  refine task_invariant (Q := fun t => t.session = n → J t.job)
    (K := fun m => ∀ job, m = .start n job → J job) ?_ ?_ ?_ ht
  · rintro k session job hjob rfl
    exact hjob job rfl
  · intro now t g g' phase hjob _
    exact hjob
  · rintro m hm job rfl
    exact hms job hm

end Client

end Dbgp
