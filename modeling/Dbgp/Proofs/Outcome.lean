import Dbgp.Proofs.ConnectionChange

/-!
# A session and the tasks on it

`Client.Leads` is one step of a client, by itself or in a bridge, with all that is known of it: its
`Client.Outcome`, its order (`Client.Follows`), and that handshakes have written nothing
(`Client.Unwritten`). `Client.Lasting` is what stays so of a session whatever anybody does.

What several tasks do on one session is proved from one property of the session and one that relates
each task to it. `Client.Local` lists what has to be shown for single actions, and `Local.run` gives it
for all runs.
-/

namespace Dbgp

/-- What exchanges can change of a session: outlet, lifecycle, slots, journal, and whether it is told
to `stop`. -/
inductive Session.Exchanged (s : Session) : Session → Prop
  | intro (outlet : Outlet) (lifecycle : Lifecycle) (slots : Slots) (stop : Bool)
      (journal : List Event) : Exchanged s { s with outlet, lifecycle, slots, stop, journal }

/-- Ending a session changes only what `Session.Exchanged` allows. -/
theorem EndRequest.Action.exchanged {task : Nat} {r : EndRequest} {s s' : Session}
    {p : Progress EndRequest Unit} (h : r.Action task s p s') : s.Exchanged s' := by
  cases h <;> exact .intro ..

/-- `Exchange.release` stays within `Session.Exchanged`. -/
theorem Exchange.exchanged_release {x : Exchange} {s s' : Session} (h : s.Exchanged s') :
    s.Exchanged (x.release s') := by
  rw [release]
  split
  · cases h
    exact .intro ..
  · exact h

/-- Every action of an exchange stays within `Session.Exchanged`. -/
theorem Exchange.Action.exchanged {task now : Nat} {x : Exchange} {s s' : Session}
    {p : Progress Exchange (Option Response)} (h : x.Action task now s p s') : s.Exchanged s' := by
  cases h with
  | dead | refused | timedOut | obtained => exact exchanged_release (.intro ..)
  | ending _ hr => exact (EndRequest.acted hr).exchanged
  | ended _ hr => exact exchanged_release (EndRequest.acted hr).exchanged
  | entered | turnedAway | expected | unexpected | announced | begun | wrote | broke | sent | dropped
  | waited => exact .intro ..

/-- An exchange that is given up stays within `Session.Exchanged`. -/
theorem Exchange.exchanged_abandon (task : Nat) (x : Exchange) (s : Session) :
    s.Exchanged (x.abandon task s) := by
  rw [abandon]
  split
  · exact .intro ..
  · exact .intro ..
  · exact exchanged_release (.intro ..)

/-- An outlet on which nothing has been written and nobody waits. -/
structure Outlet.Unused (o : Outlet) : Prop where
  live : o.live = true
  written : o.written = []
  turn : o.turn = {}

namespace Client

/-- No handshake has to do with the outlet of its connection: each is `Outlet.Unused`. -/
def Unwritten (c : Client) : Prop :=
  ∀ h ∈ c.handshakes, h.outlet.Unused

variable {c : Client}

/-- Handshakes leave their outlets alone, whatever the other side does. -/
theorem Unwritten.step (h : c.Unwritten) (m : Move) : (c.step m).Unwritten := by
  have hsame : (c.step m).handshakes = c.handshakes → (c.step m).Unwritten := by
    intro heq
    rwa [Unwritten, heq]
  cases m with
  | accept config =>
    intro k hk
    obtain hk | hk := List.mem_append.mp hk
    · exact h k hk
    · rw [List.mem_singleton.mp hk]
      exact ⟨rfl, rfl, rfl⟩
  | arrive connection what | gate connection fault room =>
    intro k hk
    obtain ⟨k, hmem, rfl⟩ := List.mem_map.mp hk
    obtain ⟨hlive, hwritten, hturn⟩ := h k hmem
    beta_reduce
    split <;> exact ⟨hlive, hwritten, hturn⟩
  | cancel k =>
    refine hsame ?_
    rw [Client.step, cancel]
    split <;> rfl
  | handshake connection =>
    rw [Client.step]
    cases hfound : c.handshakes.find? fun h => h.connection = connection with
    | none => exact h
    | some k =>
      rw [Option.bind_some, actHandshake]
      split
      · exact h
      · next k' k'' hact =>
        intro j hj
        obtain ⟨j, hmem, rfl⟩ := List.mem_map.mp hj
        split
        · rw [(outlet_act hact).2 k' rfl]
          exact h k (List.mem_of_find?_eq_some hfound)
        · exact h j hmem
      · exact fun j hj => h j (List.mem_filter.mp hj).1
      · exact fun j hj => h j (List.mem_filter.mp hj).1
  | receiver n => exact hsame (handshakes_step_of_acting (.inl ⟨n, rfl⟩)).1
  | task k => exact hsame (handshakes_step_of_acting (.inr ⟨k, rfl⟩)).1
  | attach _ | start _ _ | release _ | addLogger _ _ | removeLogger _ _ | addListener _ _
  | removeListener _ _ | pass _ => exact hsame rfl

end Client

/-! ## Bridges -/

namespace Bridge

open Client (Outcome)

variable {b : Bridge} {m : Client.Move}

/-- A step of a bridge leaves its client `Unwritten`. -/
theorem unwritten_step (h : b.client.Unwritten) (m : Move) : (b.step m).client.Unwritten := by
  have hsame : (b.step m).client.handshakes = b.client.handshakes → (b.step m).client.Unwritten := by
    intro heq
    rwa [Client.Unwritten, heq]
  cases m with
  | client m' => exact h.step m'
  | register session => exact hsame rfl
  | call c =>
    refine hsame ?_
    obtain h | ⟨session, job, h⟩ := client_call c b
    · rw [step, h]
    · rw [step, h]
      rfl
  | greet =>
    refine hsame ?_
    rw [step, greet]
    split <;> rfl
  | answer =>
    refine hsame ?_
    rw [step, answer]
    split
    · rfl
    · simp only
      split <;> rfl
  | forward f =>
    refine hsame ?_
    rw [step]
    split
    · rw [actForwarder]
      split
      · rfl
      · next s _ => cases f.act ⟨s, b.registry, b.outbox⟩ <;> rfl
    · rfl

end Bridge

/-! ## Steps -/

/-- One step of a client, by itself or in a bridge: its `Outcome`, the numbers it gives (`Follows`),
and handshakes that stay `Unwritten`. -/
structure Client.Leads (c : Client) (m : Client.Move) (c' : Client) : Prop where
  outcome : c.Outcome m c'
  follows : c.Follows c'
  unwritten : c.Unwritten → c'.Unwritten

/-- Every `step` of a client is one of `Client.Leads`. -/
theorem Client.leads (c : Client) (m : Client.Move) : c.Leads m (c.step m) :=
  ⟨c.outcome m, c.follows_step m, fun h => h.step m⟩

/-- Every step of a bridge is one of `Client.Leads` for its client, and one of a task only with the
move of that task. -/
theorem Bridge.leads (b : Bridge) (m : Bridge.Move) :
    ∃ m', b.client.Leads m' (b.step m).client ∧ ∀ k, m' = .task k → m = .client (.task k) := by
  obtain ⟨m', houtcome, hown⟩ := b.outcome m
  exact ⟨m', ⟨houtcome, b.follows_step m, fun h => unwritten_step h m⟩, hown⟩

/-- What every `Client.Leads` keeps, a run of a client keeps. -/
theorem Client.kept_run {I : Client → Prop} (h : ∀ {c m c'}, Client.Leads c m c' → I c → I c')
    {c : Client} (hc : I c) (ms : List Client.Move) : I (c.run ms) := by
  induction ms generalizing c with
  | nil => exact hc
  | cons m ms ih => exact ih (h (c.leads m) hc)

/-- What every `Client.Leads` keeps, a run of a bridge keeps. -/
theorem Bridge.kept_run {I : Client → Prop} (h : ∀ {c m c'}, Client.Leads c m c' → I c → I c')
    {b : Bridge} (hb : I b.client) (ms : List Bridge.Move) : I (b.run ms).client := by
  induction ms generalizing b with
  | nil => exact hb
  | cons m ms ih =>
    obtain ⟨m', hleads, -⟩ := b.leads m
    exact ih (h hleads hb)

namespace Client

variable {c c' : Client} {m : Move}

/-- Numbers of tasks are never given back. -/
theorem Outcome.nextTask_le (h : Outcome c m c') : c.nextTask ≤ c'.nextTask := by
  cases h <;> assumption

/-- What is so of a session stays so, whatever anybody does. -/
structure Lasting (P : Session → Prop) : Prop where
  beside : ∀ {s s' : Session}, s.Beside s' → P s → P s'
  mailed : ∀ {s : Session} notifies outputs, P s → P { s with notifies, outputs }
  received : ∀ {now} {s s' : Session}, s.receiverStep now = some s' → P s → P s'
  acted : ∀ {now} {t : Task} {g g' : Ground} {p}, t.act now g = some (p, g') → P g.session → P g'.session
  abandoned : ∀ (t : Task) {s : Session}, P s → P (t.abandon s)

/-- What is `Lasting` of a session is so after every move. -/
theorem Lasting.outcome {P : Session → Prop} {n : Nat} (hP : Lasting P) (h : Outcome c m c')
    (hn : ∃ s, c.session? n = some s ∧ P s) : ∃ s, c'.session? n = some s ∧ P s := by
  obtain ⟨s, hs, hPs⟩ := hn
  have hreplaced : ∀ {j s₁ s₂}, c.session? j = some s₁ →
      (∀ i, c'.session? i = if i = j then some s₂ else c.session? i) → (P s₁ → P s₂) →
      ∃ s, c'.session? n = some s ∧ P s := by
    intro j s₁ s₂ hj hsession hkept
    by_cases hn : n = j
    · subst hn
      cases hj.symm.trans hs
      exact ⟨s₂, by rw [hsession, if_pos rfl], hkept hPs⟩
    · exact ⟨s, by rw [hsession, if_neg hn, hs], hPs⟩
  cases h with
  | aside _ hsession =>
    have hpassed := hsession n
    rw [hs] at hpassed
    generalize hd : c'.session? n = d at hpassed
    cases hpassed with
    | beside hbeside => exact ⟨_, rfl, hP.beside hbeside hPs⟩
  | received _ hj hstep _ hsession => exact hreplaced hj hsession (hP.received hstep)
  | acted _ _ hj hact _ hsession => exact hreplaced hj hsession (hP.acted hact)
  | forwarded _ hj _ hsession => exact hreplaced hj hsession (hP.mailed _ _)
  | @abandoned _ t _ _ _ hsession =>
    by_cases hn : n = t.session
    · exact ⟨t.abandon s, by rw [hsession, if_pos hn, hs, Option.map_some], hP.abandoned t hPs⟩
    · exact ⟨s, by rw [hsession, if_neg hn, hs], hPs⟩

/-- A session is there forever. -/
theorem lasting_true : Lasting fun _ => True :=
  ⟨fun _ _ => trivial, fun _ _ _ => trivial, fun _ _ => trivial, fun _ _ => trivial,
    fun _ _ _ => trivial⟩

/-- A session never comes back from its end, `IsEnding`. -/
theorem Outcome.isEnding {n : Nat} (h : Outcome c m c') (hn : c.IsEnding n) : c'.IsEnding n :=
  h.effect.isEnding hn

/-- Tasks have numbers below the next one. -/
theorem Distinct.lt_nextTask (hc : c.Distinct) {k : Nat} {t : Task} (hk : c.task? k = some t) :
    k < c.nextTask := by
  rw [← id_of_task? hk]
  exact hc.tasks.lt_next t.id (List.mem_map_of_mem (List.mem_of_find?_eq_some hk))

/-- The books of a client are in order: all numbers differ (`Distinct`), handshakes have written
nothing (`Unwritten`), and what is over is not going on. -/
structure Ordered (c : Client) : Prop where
  distinct : c.Distinct
  unwritten : c.Unwritten
  reported : ∀ r ∈ c.finished, r.1 < c.nextTask ∧ c.task? r.1 = none

/-- The books of a new client are in order. -/
theorem ordered_new : Ordered {} :=
  ⟨distinct_new, fun _ h => (nomatch h), fun _ h => (nomatch h)⟩

/-- A step keeps the books in order. -/
theorem Ordered.leads (hc : c.Ordered) (h : Leads c m c') : c'.Ordered := by
  refine ⟨hc.distinct.follows h.follows, h.unwritten hc.unwritten, fun r hr => ?_⟩
  have hle := h.outcome.nextTask_le
  have hold : r ∈ c.finished → r.1 < c'.nextTask := fun hr =>
    Nat.lt_of_lt_of_le (hc.reported r hr).1 hle
  cases h.outcome with
  | aside htask _ hfinished =>
    have hr := hfinished.subset hr
    refine ⟨hold hr, ?_⟩
    obtain hsame | ⟨-, session, job, -, hstarted⟩ := htask r.1
    · rw [hsame, (hc.reported r hr).2]
    · -- A task that is started now has another number.
      have hlt := (hc.reported r hr).1
      rw [← id_of_task? hstarted] at hlt
      exact absurd hlt (Nat.lt_irrefl _)
  | received _ _ _ htask _ hfinished | forwarded _ _ htask _ hfinished =>
    have hr := hfinished.subset hr
    exact ⟨hold hr, by rw [htask, (hc.reported r hr).2]⟩
  | abandoned _ _ htask _ hfinished =>
    have hr := hfinished.subset hr
    refine ⟨hold hr, ?_⟩
    rw [htask, (hc.reported r hr).2]
    split <;> rfl
  | @acted k t s p g _ hk _ _ htask _ hfinished =>
    rw [hfinished, List.mem_append] at hr
    obtain hr | hr := hr
    · refine ⟨hold hr, ?_⟩
      have hnone := (hc.reported r hr).2
      rw [htask, if_neg, hnone]
      rintro hrk
      rw [hrk, hk] at hnone
      cases hnone
    · cases p with
      | ongoing phase => cases hr
      | finished result =>
        rw [List.mem_singleton.mp hr]
        exact ⟨Nat.lt_of_lt_of_le (hc.distinct.lt_nextTask hk) hle, by rw [htask, if_pos rfl]; rfl⟩

end Client

/-! ## Invariants of a session and the tasks on it -/

namespace Client

/-- What is said of a session (`P`) and of each of the tasks on it (`Q`) survives every single action.
A task answers for what it does to the others. -/
structure Local (P : Session → Prop) (Q : Task → Session → Prop) : Prop where
  opened : ∀ {n connection now init config inbound} {outlet : Outlet}, outlet.Unused →
    P (.new n connection now init config inbound outlet)
  beside : ∀ {s s' : Session}, s.Beside s' → P s → P s' ∧ ∀ t, Q t s → Q t s'
  mailed : ∀ {s : Session} notifies outputs, P s →
    P { s with notifies, outputs } ∧ ∀ t, Q t s → Q t { s with notifies, outputs }
  received : ∀ {now} {s s' : Session}, s.receiverStep now = some s' → P s →
    P s' ∧ ∀ t, Q t s → Q t s'
  started : ∀ {s : Session} k n job, P s → Q ⟨k, n, job, .start⟩ s
  acted : ∀ {now} {t : Task} {g g' : Ground} {p}, t.act now g = some (p, g') → P g.session →
    Q t g.session → P g'.session ∧ (∀ phase, p = .ongoing phase → Q { t with phase } g'.session) ∧
      ∀ t' : Task, t'.id ≠ t.id → Q t' g.session → Q t' g'.session
  abandoned : ∀ {t : Task} {s : Session}, P s → Q t s →
    P (t.abandon s) ∧ ∀ t' : Task, t'.id ≠ t.id → Q t' s → Q t' (t.abandon s)

/-- Every session has its property `P`, and every task on it `Q`. A task whose session is not there
yet has not begun. -/
structure Upholds (P : Session → Prop) (Q : Task → Session → Prop) (c : Client) : Prop where
  session : ∀ {n s}, c.session? n = some s → P s
  task : ∀ {k t s}, c.task? k = some t → c.session? t.session = some s → Q t s
  early : ∀ {k t}, c.task? k = some t → c.session? t.session = none → t.phase = .start

variable {c c' : Client} {m : Move} {P : Session → Prop} {Q : Task → Session → Prop}

/-- A move in which nobody acts keeps what `Upholds` says: sessions are `Passed`, and new tasks have
not begun. -/
theorem Local.aside (h : Local P Q) (hc : c.Upholds P Q) (hunwritten : c.Unwritten)
    (htask : ∀ k, c'.task? k = c.task? k ∨ c.task? k = none ∧ ∃ session job,
      m = .start session job ∧ c'.task? k = some ⟨c.nextTask, session, job, .start⟩)
    (hsession : ∀ n, Passed c n (c.session? n) (c'.session? n)) : c'.Upholds P Q := by
  have hopened : ∀ {outlet : Outlet}, outlet = {} ∨ (∃ d ∈ c.handshakes, d.outlet = outlet) →
      outlet.Unused := by
    rintro outlet (rfl | ⟨d, hd, rfl⟩)
    · exact ⟨rfl, rfl, rfl⟩
    · exact hunwritten d hd
  have hP : ∀ {n s}, c'.session? n = some s → P s := by
    intro n s hs
    have hpassed := hsession n
    rw [hs] at hpassed
    generalize hd : c.session? n = d at hpassed
    cases hpassed with
    | beside hbeside => exact (h.beside hbeside (hc.session hd)).1
    | opened houtlet => exact h.opened (hopened houtlet)
  refine ⟨hP, fun {k t s} ht hs => ?_, fun {k t} ht hs => ?_⟩
  · obtain hsame | ⟨-, session, job, -, hstarted⟩ := htask k
    · rw [hsame] at ht
      have hpassed := hsession t.session
      have hPs := hP hs
      rw [hs] at hpassed
      generalize hd : c.session? t.session = d at hpassed
      cases hpassed with
      | beside hbeside => exact (h.beside hbeside (hc.session hd)).2 t (hc.task ht hd)
      | opened =>
        have hearly := hc.early ht hd
        obtain ⟨id, session, job, phase⟩ := t
        cases hearly
        exact h.started _ _ _ hPs
    · cases hstarted.symm.trans ht
      exact h.started _ _ _ (hP hs)
  · obtain hsame | ⟨-, session, job, -, hstarted⟩ := htask k
    · rw [hsame] at ht
      have hpassed := hsession t.session
      rw [hs] at hpassed
      generalize hd : c.session? t.session = d at hpassed
      cases hpassed
      exact hc.early ht hd
    · cases hstarted.symm.trans ht
      rfl

/-- An action that replaces one session and goes on with some of the tasks. -/
theorem Upholds.replace {n : Nat} {s' : Session} (hc : c.Upholds P Q)
    (hsession : ∀ j, c'.session? j = if j = n then some s' else c.session? j) (hP : P s')
    (htask : ∀ k t, c'.task? k = some t → t.session = n ∧ Q t s' ∨ t.session ≠ n ∧ c.task? k = some t) :
    c'.Upholds P Q := by
  refine ⟨fun {j d} hd => ?_, fun {k t d} ht hd => ?_, fun {k t} ht hd => ?_⟩
  · rw [hsession] at hd
    split at hd
    · cases hd
      exact hP
    · exact hc.session hd
  · obtain ⟨hn, hQ⟩ | ⟨hn, ht⟩ := htask k t ht
    · rw [hsession, if_pos hn] at hd
      cases hd
      exact hQ
    · rw [hsession, if_neg hn] at hd
      exact hc.task ht hd
  · obtain ⟨hn, -⟩ | ⟨hn, ht⟩ := htask k t ht
    · rw [hsession, if_pos hn] at hd
      cases hd
    · rw [hsession, if_neg hn] at hd
      exact hc.early ht hd

/-- One step keeps what `Upholds` says, if it is `Local` and the books are in order. -/
theorem Local.leads (h : Local P Q) (hleads : Leads c m c') (hordered : c.Ordered)
    (hc : c.Upholds P Q) : c'.Upholds P Q := by
  -- All that acts on a session replaces it, and the tasks on it are looked at one by one.
  have hkept : ∀ {n s s'}, c.session? n = some s → (∀ k, c'.task? k = c.task? k) →
      (∀ j, c'.session? j = if j = n then some s' else c.session? j) →
      P s' ∧ (∀ t, Q t s → Q t s') → c'.Upholds P Q := by
    intro n s s' hs htask hsession hkept
    refine hc.replace hsession hkept.1 fun k t ht => ?_
    rw [htask] at ht
    by_cases hn : t.session = n
    · exact .inl ⟨hn, hkept.2 t (hc.task ht (hn ▸ hs))⟩
    · exact .inr ⟨hn, ht⟩
  cases hleads.outcome with
  | aside htask hsession => exact h.aside hc hordered.unwritten htask hsession
  | received _ hs hstep htask hsession =>
    exact hkept hs htask hsession (h.received hstep (hc.session hs))
  | forwarded _ hs htask hsession => exact hkept hs htask hsession (h.mailed _ _ (hc.session hs))
  | @acted k t s p g _ hk hs hact htask hsession =>
    obtain ⟨hP, hown, hothers⟩ := h.acted hact (hc.session hs) (hc.task hk hs)
    refine hc.replace hsession hP fun j t' ht' => ?_
    rw [htask] at ht'
    split at ht'
    · obtain ⟨phase, hphase, rfl⟩ := Option.map_eq_some_iff.mp ht'
      refine .inl ⟨rfl, hown phase ?_⟩
      cases p with
      | ongoing phase' => cases hphase; rfl
      | finished _ => cases hphase
    · next hj =>
      by_cases hn : t'.session = t.session
      · refine .inl ⟨hn, hothers t' ?_ (hc.task ht' (hn ▸ hs))⟩
        rw [id_of_task? ht', id_of_task? hk]
        exact hj
      · exact .inr ⟨hn, ht'⟩
  | @abandoned k t _ hk htask hsession =>
    cases hs : c.session? t.session with
    | none =>
      -- The task has not begun, so that nothing is there to be given up.
      have hsession' : ∀ j, c'.session? j = c.session? j := by
        intro j
        rw [hsession]
        split
        · next hj => rw [hj, hs]; rfl
        · rfl
      have htask' : ∀ {j t'}, c'.task? j = some t' → c.task? j = some t' := by
        intro j t' ht'
        rw [htask] at ht'
        split at ht'
        · cases ht'
        · exact ht'
      exact ⟨fun hd => hc.session (hsession' _ ▸ hd),
        fun ht hd => hc.task (htask' ht) (hsession' _ ▸ hd),
        fun ht hd => hc.early (htask' ht) (hsession' _ ▸ hd)⟩
    | some s =>
      obtain ⟨hP, hothers⟩ := h.abandoned (hc.session hs) (hc.task hk hs)
      have hreplaced : ∀ j, c'.session? j =
          if j = t.session then some (t.abandon s) else c.session? j := by
        intro j
        rw [hsession]
        split
        · next hj => rw [hj, hs, Option.map_some]
        · rfl
      refine hc.replace hreplaced hP fun j t' ht' => ?_
      rw [htask] at ht'
      split at ht'
      · cases ht'
      · next hj =>
        by_cases hn : t'.session = t.session
        · refine .inl ⟨hn, hothers t' ?_ (hc.task ht' (hn ▸ hs))⟩
          rw [id_of_task? ht', id_of_task? hk]
          exact hj
        · exact .inr ⟨hn, ht'⟩

/-- A new client upholds everything. -/
theorem upholds_new : Upholds P Q {} :=
  ⟨fun h => (nomatch h), fun h => (nomatch h), fun h => (nomatch h)⟩

/-- The two together, as `kept_run` takes them. -/
theorem Local.kept (h : Local P Q) (hleads : Leads c m c') (hc : c.Ordered ∧ c.Upholds P Q) :
    c'.Ordered ∧ c'.Upholds P Q :=
  ⟨hc.1.leads hleads, h.leads hleads hc.1 hc.2⟩

/-- What is `Local` holds after every run of a client. -/
theorem Local.run (h : Local P Q) (ms : List Move) :
    (Client.run {} ms).Ordered ∧ (Client.run {} ms).Upholds P Q :=
  kept_run (I := fun c => c.Ordered ∧ c.Upholds P Q) h.kept ⟨ordered_new, upholds_new⟩ ms

end Client

end Dbgp
