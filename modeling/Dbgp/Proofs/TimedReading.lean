import Dbgp.Proofs.NextPacket

/-!
# Reading with a limit

The reading of a fixed number of octets is a sequence of attempts. An attempt takes what is there, or
waits for it, and if there is a limit and nothing has come by then, it was in vain. The first vain attempt
is followed by another one, the second ends the reading with what has been read. `Schedule.Attempts` says
which attempts there are, from what arrives and when, and without a look at the reading.

A reading that is polled makes these attempts: a poll keeps `Schedule.Underway` or ends the reading
(`Schedule.Underway.poll`), and so does moving the clock to the next arrival or limit
(`Schedule.Waiting.advance`).

Main statement: `Schedule.readFixed_exact`. What is read and what is left are the two parts of what was
there, and every result has its reason in the arrivals.
-/

namespace Dbgp

namespace Fill

variable {f : Fill} {i : Inbound}

/-- How many attempts in vain a `Fill` survives. -/
def tries (f : Fill) : Nat :=
  if f.retried then 0 else 1

/-- `Fill.absorb` keeps all octets, in order. -/
theorem got_absorb (now : Nat) (f : Fill) (bytes : List UInt8) :
    (f.absorb now bytes).got = f.got ++ bytes := by
  obtain ⟨since, habsorb⟩ := f.absorb_eq now bytes
  rw [habsorb]

/-- Octets that are too few are all taken by `Fill.poll`, and then the stream is over or the reading
pauses. -/
theorem poll_of_short (now : Nat) (h : (f.got ++ i.pending).length < f.want) :
    (f.poll now i).2 = { i with pending := [] } ∧
      (i.tail = .live → (f.poll now i).1 = (f.absorb now i.pending).pause now) ∧
      (i.tail = .ended → (f.poll now i).1 = .finished (.ok none)) ∧
      ∀ text, i.tail = .failed text →
        (f.poll now i).1 = .finished (.error (.transport (.described text))) := by
  have hlt : i.pending.length < f.want - f.got.length := by
    rw [List.length_append] at h
    omega
  unfold poll
  simp only [List.take_of_length_le (Nat.le_of_lt hlt), List.drop_of_length_le (Nat.le_of_lt hlt),
    got_absorb, if_neg (Nat.not_le_of_lt h)]
  refine ⟨trivial, ?_, ?_, ?_⟩
  · intro hlive
    rw [hlive]
  · intro hended
    rw [hended]
  · intro text hfailed
    rw [hfailed]

end Fill

namespace Schedule

variable {s s' : Schedule} {c : List UInt8} {t u : Nat}

/-! ## The passing of time -/

/-- The `Schedule` at a later time, if nobody reads. -/
def waited (s : Schedule) (t : Nat) : Schedule :=
  settle { s with now := t }

/-- The `Inbound` at a later time, if nobody reads. -/
def arrived (s : Schedule) (t : Nat) : Inbound :=
  (s.waited t).inbound

/-- Puts octets back in front of `pending` that have been read. -/
def putBack (c : List UInt8) (s : Schedule) : Schedule :=
  { s with inbound := ⟨c ++ s.inbound.pending, s.inbound.tail⟩ }

/-- What is due by a time has arrived after `waited`. -/
theorem waited_of_le {a : Nat × Arrival} (h : a.1 ≤ t) (now : Nat) (i : Inbound)
    (coming : List (Nat × Arrival)) :
    waited ⟨now, i, a :: coming⟩ t = waited ⟨now, i.receive a.2, coming⟩ t := by
  simp only [waited, settle, List.takeWhile_cons, List.dropWhile_cons, decide_eq_true h, if_true,
    List.foldl_cons]

/-- What is due later has not arrived after `waited`. -/
theorem waited_of_lt {a : Nat × Arrival} (h : t < a.1) (now : Nat) (i : Inbound)
    (coming : List (Nat × Arrival)) :
    waited ⟨now, i, a :: coming⟩ t = ⟨t, i, a :: coming⟩ := by
  have hlate : decide (a.1 ≤ t) = false := decide_eq_false (Nat.not_le_of_lt h)
  simp only [waited, settle, List.takeWhile_cons, List.dropWhile_cons, hlate, Bool.false_eq_true,
    if_false, List.foldl_nil]

/-- Waiting twice by `waited` is waiting until the later time. -/
theorem waited_waited (s : Schedule) (h : t ≤ u) : (s.waited t).waited u = s.waited u := by
  obtain ⟨now, i, coming⟩ := s
  induction coming generalizing i with
  | nil => rfl
  | cons a coming ih =>
    rcases Nat.lt_or_ge t a.1 with hlate | hdue
    · rw [waited_of_lt hlate]
      rfl
    · rw [waited_of_le hdue, waited_of_le (Nat.le_trans hdue h)]
      exact ih (i.receive a.2)

/-- Octets that are `putBack` stay in front of what arrives. -/
theorem waited_putBack (c : List UInt8) (s : Schedule) (t : Nat) :
    (s.putBack c).waited t = (s.waited t).putBack c := by
  obtain ⟨now, i, coming⟩ := s
  induction coming generalizing i with
  | nil => rfl
  | cons a coming ih =>
    rw [putBack]
    rcases Nat.lt_or_ge t a.1 with hlate | hdue
    · rw [waited_of_lt hlate, waited_of_lt hlate]
      rfl
    · rw [waited_of_le hdue, waited_of_le hdue, Inbound.receive_append]
      exact ih (i.receive a.2)

/-- What has `arrived` stays, and more comes after it. -/
theorem pending_arrived_mono (s : Schedule) (h : t ≤ u) :
    (s.arrived t).pending <+: (s.arrived u).pending := by
  have hlater : s.arrived u = ((s.waited t).waited u).inbound := by
    rw [waited_waited s h]
    rfl
  have hback : s.waited t = putBack (s.arrived t).pending
      { s.waited t with inbound := { (s.arrived t) with pending := [] } } := by
    rw [putBack, List.append_nil]
    rfl
  rw [hlater, hback, waited_putBack]
  exact List.prefix_append _ _

/-- By `waited` nothing arrives before the next arrival. -/
theorem waited_of_head (h : ∀ a ∈ s.coming.head?, t < a.1) : s.waited t = { s with now := t } := by
  obtain ⟨now, i, coming⟩ := s
  cases coming with
  | nil => rfl
  | cons a coming => exact waited_of_lt (h a rfl) now i coming

/-- Waiting changes nothing about the `contents`, which is all there will be. -/
theorem contents_waited (s : Schedule) (t : Nat) : (s.waited t).contents = s.contents := by
  rw [contents, waited, settle, contents, ← List.foldl_append, List.takeWhile_append_dropWhile]

/-- The `contents` when octets are put back. -/
theorem contents_putBack (c : List UInt8) (s : Schedule) :
    (s.putBack c).contents = ⟨c ++ s.contents.pending, s.contents.tail⟩ := by
  obtain ⟨now, i, coming⟩ := s
  unfold contents putBack
  induction coming generalizing i with
  | nil => rfl
  | cons a coming ih =>
    simp only [List.foldl_cons]
    rw [Inbound.receive_append]
    exact ih (i.receive a.2)

/-- Once a stream is no longer `live`, what has arrived is all there is. -/
theorem contents_of_not_live (h : s.inbound.tail ≠ .live) : s.contents = s.inbound := by
  rw [contents_eq, Inbound.foldl_receive_of_not_live h]

/-! ## Attempts -/

/-- Nothing but `c` has arrived, from one time to another. -/
def Still (s : Schedule) (c : List UInt8) (t u : Nat) : Prop :=
  ∀ v, t ≤ v → v ≤ u → s.arrived v = ⟨c, .live⟩

/-- In no time nothing arrives, so `Still` holds. -/
theorem still_of_lt (h : u < t) : s.Still c t u := by
  intro v hfrom hto
  omega

/-- The attempts of a reading: what has been taken before the present attempt, when that began, and
when those began that were in `vain`. -/
inductive Attempts (s : Schedule) (want : Nat) (limit : Option Nat) :
    List UInt8 → Nat → List Nat → Prop
  | call : Attempts s want limit [] s.now []
  | progress {c : List UInt8} {t u : Nat} {vain : List Nat} : Attempts s want limit c t vain →
      t ≤ u → (∀ l ∈ limit, u ≤ t + l) → (∀ v < u, s.Still c t v) →
      c.length < ((s.arrived u).pending.take want).length →
      Attempts s want limit ((s.arrived u).pending.take want) u vain
  | silence {c : List UInt8} {t l : Nat} {vain : List Nat} : Attempts s want limit c t vain →
      l ∈ limit → c.length < want → s.Still c t (t + l) →
      Attempts s want limit c (t + l) (vain ++ [t])

variable {want : Nat} {limit : Option Nat} {vain : List Nat}

/-- `Attempts` begin at the present or later. -/
theorem Attempts.now_le (h : s.Attempts want limit c t vain) : s.now ≤ t := by
  induction h with
  | call => exact Nat.le_refl _
  | progress _ hle _ _ _ ih => exact Nat.le_trans ih hle
  | silence _ _ _ _ ih => exact Nat.le_add_right_of_le ih

/-- What `Attempts` have taken had arrived. -/
theorem Attempts.prefix_arrived (h : s.Attempts want limit c t vain) (hle : t ≤ u) :
    c <+: (s.arrived u).pending := by
  induction h with
  | call => exact List.nil_prefix
  | progress => exact (List.take_prefix _ _).trans (s.pending_arrived_mono hle)
  | silence _ _ _ _ ih => exact ih (Nat.le_trans (Nat.le_add_right _ _) hle)

/-- An attempt that was in `vain` saw nothing arrive from its beginning to its limit, and what had
been taken before it is kept. -/
theorem Attempts.still_of_mem (h : s.Attempts want limit c t vain) {l : Nat} (hl : l ∈ limit) :
    ∀ v ∈ vain, s.now ≤ v ∧ v + l ≤ t ∧ ∃ c', c' <+: c ∧ s.Still c' v (v + l) := by
  induction h with
  | call => exact fun v hv => absurd hv List.not_mem_nil
  | @progress c t u vain h hle _ hstill hmore ih =>
    intro v hv
    obtain ⟨hnow, hend, c', hc', hstill'⟩ := ih v hv
    refine ⟨hnow, Nat.le_trans hend hle, c', hc'.trans ?_, hstill'⟩
    exact List.prefix_of_prefix_length_le (h.prefix_arrived hle) (List.take_prefix _ _)
      (Nat.le_of_lt hmore)
  | @silence c t l' vain h hl' _ hstill ih =>
    intro v hv
    cases Option.mem_unique hl hl'
    rcases List.mem_append.mp hv with hv | hv
    · obtain ⟨hnow, hend, hkept⟩ := ih v hv
      exact ⟨hnow, Nat.le_add_right_of_le hend, hkept⟩
    · cases List.mem_singleton.mp hv
      exact ⟨h.now_le, Nat.le_refl _, c, List.prefix_rfl, hstill⟩

/-- Attempts in `vain` follow each other, each after the limit of the one before. -/
theorem Attempts.pairwise (h : s.Attempts want limit c t vain) {l : Nat} (hl : l ∈ limit) :
    vain.Pairwise fun v w => v + l ≤ w := by
  induction h with
  | call => exact List.Pairwise.nil
  | progress _ _ _ _ _ ih => exact ih
  | @silence c t l' vain h _ _ _ ih =>
    refine List.pairwise_append.mpr ⟨ih, List.pairwise_singleton _ _, fun v hv w hw => ?_⟩
    cases List.mem_singleton.mp hw
    exact (h.still_of_mem hl v hv).2.1

/-- Why a reading has its result: the octets `c` have been taken and the attempts `vain` were in vain
by the time `now`. -/
inductive Verdict (s : Schedule) (want : Nat) (limit : Option Nat) (c : List UInt8) (now : Nat) :
    List Nat → Except Error (Option String) → Prop
  | full {vain : List Nat} : vain.length ≤ 1 → c.length = want →
      Verdict s want limit c now vain (.ok (some (Text.Utf8.lossy c)))
  | short {v w l : Nat} : l ∈ limit → now = w + l → c.length < want →
      Verdict s want limit c now [v, w] (.ok (some (Text.Utf8.lossy c)))
  | ended {vain : List Nat} : vain.length ≤ 1 → c.length < want → s.contents = ⟨c, .ended⟩ →
      Verdict s want limit c now vain (.ok none)
  | failed {vain : List Nat} {text : String} : vain.length ≤ 1 → c.length < want →
      s.contents = ⟨c, .failed text⟩ →
      Verdict s want limit c now vain (.error (.transport (.described text)))

/-- What a reading comes to, as an `Outcome`, and what it leaves. -/
inductive Reads (s : Schedule) (want : Nat) (limit : Option Nat) : Outcome (Option String) → Prop
  | hangs : limit = none → s.contents.tail = .live → s.contents.pending.length < want →
      Reads s want limit .hangs
  | finished {rest : Schedule} {c : List UInt8} {t : Nat} {vain : List Nat}
      {result : Except Error (Option String)} : s.waited rest.now = rest.putBack c →
      s.Attempts want limit c t vain → t ≤ rest.now → s.Verdict want limit c rest.now vain result →
      Reads s want limit (.finished result rest)

/-! ## Polling -/

/-- A reading of `s` has been polled up to some time, and `s'` is what the schedule is then. -/
structure Underway (s : Schedule) (f : Fill) (s' : Schedule) : Prop where
  attempts : ∃ vain, s.Attempts f.want f.limit f.got f.since vain ∧ vain.length = f.retried.toNat
  back : s.waited s'.now = s'.putBack f.got
  since_le : f.since ≤ s'.now
  within : ∀ l ∈ f.limit, s'.now ≤ f.since + l
  still : ∀ v < s'.now, s.Still f.got f.since v
  length_le : f.got.length ≤ f.want

/-- A reading that is `Underway`, has taken everything there is and goes on. -/
structure Waiting (s : Schedule) (f : Fill) (s' : Schedule) : Prop extends Underway s f s' where
  inbound : s'.inbound = {}
  before : ∀ l ∈ f.limit, s'.now < f.since + l
  length_lt : f.got.length < f.want

variable {f f' : Fill} {i : Inbound}

/-- While a reading is `Underway`, what has `arrived` is what was taken and what is there. -/
theorem Underway.arrived_now (h : s.Underway f s') :
    s.arrived s'.now = ⟨f.got ++ s'.inbound.pending, s'.inbound.tail⟩ :=
  congrArg Schedule.inbound h.back

/-- With nothing there, nothing has arrived since the present attempt began: `Still` holds. -/
theorem Underway.still_now (h : s.Underway f s') (hinbound : s'.inbound = {}) :
    s.Still f.got f.since s'.now := by
  intro v hfrom hto
  rcases Nat.lt_or_eq_of_le hto with hlt | heq
  · exact h.still v hlt v hfrom (Nat.le_refl v)
  · rw [heq, h.arrived_now, hinbound, List.append_nil]

/-- The `contents` in all are what was taken and what is still to come. -/
theorem Underway.contents_eq (h : s.Underway f s') :
    s.contents = ⟨f.got ++ s'.contents.pending, s'.contents.tail⟩ := by
  rw [← s.contents_waited s'.now, h.back, contents_putBack]

/-- Taking octets that are too few is progress, if there are any (`Fill.absorb`). -/
theorem Underway.absorb (h : s.Underway f s')
    (hshort : (f.got ++ s'.inbound.pending).length < f.want) :
    s.Underway (f.absorb s'.now s'.inbound.pending)
      { s' with inbound := ⟨[], s'.inbound.tail⟩ } := by
  obtain ⟨vain, hattempts, hvain⟩ := h.attempts
  unfold Fill.absorb
  split
  · next hempty =>
    rw [List.isEmpty_iff] at hempty
    rw [← hempty]
    exact h
  · next hsome =>
    rw [List.isEmpty_iff] at hsome
    have htake : (s.arrived s'.now).pending.take f.want = f.got ++ s'.inbound.pending := by
      rw [h.arrived_now]
      exact List.take_of_length_le (Nat.le_of_lt hshort)
    refine ⟨⟨vain, ?_, hvain⟩, ?_, Nat.le_refl _, ?_, ?_, Nat.le_of_lt hshort⟩
    · rw [← htake]
      refine hattempts.progress h.since_le h.within h.still ?_
      rw [htake, List.length_append]
      exact Nat.lt_add_of_pos_right (List.length_pos_iff.mpr hsome)
    · rw [h.back, putBack, putBack, List.append_nil]
    · exact fun l _ => Nat.le_add_right _ _
    · exact fun v hv => still_of_lt hv

/-- What `Fill.poll` makes of a reading. With nothing to take and the limit reached, it cannot just go
on. -/
inductive Polled (s : Schedule) (f : Fill) (s' : Schedule) :
    Progress Fill (Option String) × Inbound → Prop
  | finished {result : Except Error (Option String)} {i : Inbound} :
      s.Reads f.want f.limit (.finished result { s' with inbound := i }) →
      Polled s f s' (.finished result, i)
  | ongoing {f' : Fill} {i : Inbound} : f'.want = f.want → f'.limit = f.limit → f'.tries ≤ f.tries →
      (s'.inbound = {} → f.deadline = some s'.now → f'.tries < f.tries) →
      s.Waiting f' { s' with inbound := i } → Polled s f s' (.ongoing f', i)

/-- To poll a reading after `absorb` has taken what is there is to poll it. -/
theorem Polled.of_absorb {polled : Progress Fill (Option String) × Inbound}
    (h : Polled s (f.absorb s'.now s'.inbound.pending) { s' with inbound := {} } polled) :
    Polled s f s' polled := by
  obtain ⟨since, habsorb⟩ := f.absorb_eq s'.now s'.inbound.pending
  cases h with
  | finished hreads =>
    rw [habsorb] at hreads
    exact .finished hreads
  | ongoing hwant hlimit htries hdue hwaiting =>
    refine .ongoing ?_ ?_ ?_ ?_ hwaiting
    · rw [hwant, habsorb]
    · rw [hlimit, habsorb]
    · rw [habsorb] at htries
      exact htries
    · intro hinbound
      rw [hinbound] at hdue
      exact hdue rfl

/-- A reading that has taken everything pauses (`Fill.pause`). -/
theorem Underway.pause (h : s.Underway f s') (hinbound : s'.inbound = {})
    (hshort : f.got.length < f.want) : Polled s f s' (f.pause s'.now, {}) := by
  obtain ⟨vain, hattempts, hvain⟩ := h.attempts
  have hstill := h.still_now hinbound
  have hsame : { s' with inbound := {} } = s' := by rw [← hinbound]
  unfold Fill.pause
  split
  · next hlimit =>
    refine .ongoing rfl rfl (Nat.le_refl _) ?_ ?_
    · intro _ hdeadline
      simp [Fill.deadline, hlimit] at hdeadline
    · rw [hsame]
      exact ⟨h, hinbound, by simp [hlimit], hshort⟩
  · next l hlimit =>
    have hmem : l ∈ f.limit := hlimit
    split
    · next hbefore =>
      refine .ongoing rfl rfl (Nat.le_refl _) ?_ ?_
      · intro _ hdeadline
        simp only [Fill.deadline, hlimit, Option.map_some, Option.some.injEq] at hdeadline
        omega
      · rw [hsame]
        refine ⟨h, hinbound, fun l' hl' => ?_, hshort⟩
        cases Option.mem_unique hmem hl'
        exact hbefore
    · next hreached =>
      have hnow : s'.now = f.since + l :=
        Nat.le_antisymm (h.within l hmem) (Nat.le_of_not_lt hreached)
      have hvainly := hattempts.silence hmem hshort (hnow ▸ hstill)
      split
      · next hlast =>
        refine .finished ?_
        rw [hsame]
        cases hretried : f.retried with
        | true =>
          rw [hretried] at hvain
          obtain ⟨v, rfl⟩ := List.length_eq_one_iff.mp hvain
          exact .finished h.back (hnow ▸ hvainly) (Nat.le_refl _) (.short hmem hnow hshort)
        | false =>
          -- Without any time for an attempt, the second one is over with the first.
          have hzero : l = 0 := by simpa [hretried] using hlast
          subst hzero
          rw [hretried] at hvain
          cases List.length_eq_zero_iff.mp hvain
          rw [Nat.add_zero] at hnow hvainly
          rw [hnow] at hstill
          have htwice := hvainly.silence hmem hshort hstill
          rw [Nat.add_zero, ← hnow] at htwice
          exact .finished h.back htwice (Nat.le_refl _) (.short hmem rfl hshort)
      · next hagain =>
        obtain ⟨hfirst, hpos⟩ := not_or.mp hagain
        rw [Bool.not_eq_true] at hfirst
        have htries : f.tries = 1 := by rw [Fill.tries, hfirst]; rfl
        refine .ongoing rfl rfl (Nat.zero_le _) (fun _ _ => htries ▸ Nat.one_pos) ?_
        rw [hsame]
        refine ⟨⟨⟨vain ++ [f.since], hnow ▸ hvainly, ?_⟩, h.back, Nat.le_refl _, ?_, ?_,
          Nat.le_of_lt hshort⟩, hinbound, ?_, hshort⟩
        · rw [List.length_append, hvain, hfirst]
          rfl
        · exact fun l' _ => Nat.le_add_right _ _
        · exact fun v hv => still_of_lt hv
        · intro l' hl'
          cases Option.mem_unique hmem hl'
          exact Nat.lt_add_of_pos_right (Nat.pos_of_ne_zero hpos)

/-- A reading that is `Underway` has made one attempt in vain at most. -/
theorem Underway.length_vain_le (h : s.Underway f s') :
    ∃ vain, s.Attempts f.want f.limit f.got f.since vain ∧ vain.length ≤ 1 := by
  obtain ⟨vain, hattempts, hvain⟩ := h.attempts
  exact ⟨vain, hattempts, hvain ▸ Bool.toNat_le _⟩

/-- Enough octets end a reading that is `Underway`, with their text. -/
theorem Underway.full (h : s.Underway f s')
    (hfull : f.want ≤ (f.got ++ s'.inbound.pending).length) :
    s.Reads f.want f.limit
      (.finished (.ok (some (Text.Utf8.lossy ((f.got ++ s'.inbound.pending).take f.want))))
        { s' with inbound := ⟨(f.got ++ s'.inbound.pending).drop f.want, s'.inbound.tail⟩ }) := by
  obtain ⟨vain, hattempts, hvain⟩ := h.length_vain_le
  have hlength : ((f.got ++ s'.inbound.pending).take f.want).length = f.want :=
    List.length_take_of_le hfull
  have hback : s.waited s'.now = putBack ((f.got ++ s'.inbound.pending).take f.want)
      { s' with inbound := ⟨(f.got ++ s'.inbound.pending).drop f.want, s'.inbound.tail⟩ } := by
    rw [h.back, putBack, putBack, List.take_append_drop]
  rcases Nat.lt_or_eq_of_le h.length_le with hmissing | hdone
  · have harrived : (s.arrived s'.now).pending = f.got ++ s'.inbound.pending := by
      rw [h.arrived_now]
    have hprogress := hattempts.progress h.since_le h.within h.still (by
      rw [harrived, hlength]
      exact hmissing)
    rw [harrived] at hprogress
    exact .finished hback hprogress (Nat.le_refl _) (.full hvain hlength)
  · have hgot : (f.got ++ s'.inbound.pending).take f.want = f.got := by
      rw [← hdone, List.take_left]
    rw [hgot] at hback hlength ⊢
    exact .finished hback hattempts h.since_le (.full hvain hlength)

/-- Too few octets are all there is, once the stream is no longer `live`. -/
theorem Underway.cutShort (h : s.Underway f s')
    (hshort : (f.got ++ s'.inbound.pending).length < f.want) (htail : s'.inbound.tail ≠ .live) :
    ∃ c t vain, s.waited s'.now = putBack c { s' with inbound := ⟨[], s'.inbound.tail⟩ } ∧
      s.Attempts f.want f.limit c t vain ∧ t ≤ s'.now ∧ vain.length ≤ 1 ∧ c.length < f.want ∧
      s.contents = ⟨c, s'.inbound.tail⟩ := by
  have habsorbed := h.absorb hshort
  obtain ⟨vain, hattempts, hvain⟩ := habsorbed.length_vain_le
  have hback := habsorbed.back
  have hsince := habsorbed.since_le
  obtain ⟨since, habsorb⟩ := f.absorb_eq s'.now s'.inbound.pending
  rw [habsorb] at hattempts hback hsince
  refine ⟨_, _, vain, hback, hattempts, hsince, hvain, hshort, ?_⟩
  rw [h.contents_eq, contents_of_not_live htail]

/-- A poll ends a reading or keeps it `Underway`. -/
theorem Underway.poll (h : s.Underway f s') : Polled s f s' (f.poll s'.now s'.inbound) := by
  rcases Nat.lt_or_ge (f.got ++ s'.inbound.pending).length f.want with hshort | hfull
  · obtain ⟨hleft, hlive, hended, hfailed⟩ := Fill.poll_of_short s'.now hshort
    have hpoll : f.poll s'.now s'.inbound =
        ((f.poll s'.now s'.inbound).1, ⟨[], s'.inbound.tail⟩) := by
      rw [← hleft]
    rw [hpoll]
    cases htail : s'.inbound.tail with
    | live =>
      rw [hlive htail]
      have habsorbed := h.absorb hshort
      rw [htail] at habsorbed
      have hmissing : (f.absorb s'.now s'.inbound.pending).got.length <
          (f.absorb s'.now s'.inbound.pending).want := by
        obtain ⟨since, habsorb⟩ := f.absorb_eq s'.now s'.inbound.pending
        rw [habsorb]
        exact hshort
      exact (habsorbed.pause rfl hmissing).of_absorb
    | ended =>
      rw [hended htail]
      obtain ⟨c, t, vain, hback, hattempts, hle, hvain, hlt, hcontents⟩ :=
        h.cutShort hshort (by simp [htail])
      rw [htail] at hback hcontents
      exact .finished (.finished hback hattempts hle (.ended hvain hlt hcontents))
    | failed text =>
      rw [hfailed text htail]
      obtain ⟨c, t, vain, hback, hattempts, hle, hvain, hlt, hcontents⟩ :=
        h.cutShort hshort (by simp [htail])
      rw [htail] at hback hcontents
      exact .finished (.finished hback hattempts hle (.failed hvain hlt hcontents))
  · rw [Fill.poll_of_le h.length_le hfull]
    exact .finished (h.full hfull)

/-! ## The whole reading -/

/-- `nextTime` is the next arrival or the limit, whichever is first. -/
theorem nextTime_eq_some {deadline : Option Nat} (h : s.nextTime deadline = some t) :
    (∀ a ∈ s.coming.head?, t ≤ a.1) ∧ (∀ d ∈ deadline, t ≤ d) ∧
      (deadline = some t ∨ ∃ a ∈ s.coming.head?, a.1 = t) := by
  unfold nextTime at h
  split at h
  · next d hnone =>
    subst h
    simp [hnone]
  · next first a coming hcoming =>
    cases h
    simp [hcoming]
  · next first a coming d hcoming =>
    cases h
    simp only [hcoming, List.head?_cons, Option.mem_def, Option.some.injEq, forall_eq',
      exists_eq_left']
    omega

/-- Without `nextTime` nothing is to come, and there is no limit. -/
theorem nextTime_eq_none {deadline : Option Nat} (h : s.nextTime deadline = none) :
    s.coming = [] ∧ deadline = none := by
  unfold nextTime at h
  split at h
  · next d hnone => exact ⟨hnone, h⟩
  · cases h
  · cases h

/-- The next arrival is let in when `waited` reaches its time. -/
theorem length_coming_waited_lt {a : Nat × Arrival} (ha : a ∈ s.coming.head?) (h : a.1 ≤ t) :
    (s.waited t).coming.length < s.coming.length := by
  obtain ⟨now, i, coming⟩ := s
  cases coming with
  | nil => simp at ha
  | cons b coming =>
    cases ha
    rw [waited_of_le h]
    exact Nat.lt_succ_of_le (List.dropWhile_sublist _).length_le

/-- Moving the clock keeps a `Waiting` reading under way: it lets something arrive or reaches the
limit. -/
theorem Waiting.advance (h : s.Waiting f s') (hnext : s'.nextTime f.deadline = some t) :
    let s'' := s'.waited (max s'.now t)
    s.Underway f s'' ∧ (s''.coming.length < s'.coming.length ∨
      s''.coming = s'.coming ∧ s''.inbound = {} ∧ f.deadline = some s''.now) := by
  intro s''
  obtain ⟨hhead, hdeadline, hreason⟩ := nextTime_eq_some hnext
  have hafter : ∀ v, s'.now ≤ v → s.waited v = (s'.waited v).putBack f.got := by
    intro v hv
    rw [← s.waited_waited hv, h.back, waited_putBack]
  refine ⟨⟨h.attempts, hafter _ (Nat.le_max_left _ _), ?_, ?_, ?_, h.length_le⟩, ?_⟩
  · exact Nat.le_trans h.since_le (Nat.le_max_left _ _)
  · intro l hl
    have hlimit := hdeadline (f.since + l) (by
      rw [Fill.deadline, Option.mem_def.mp hl]
      rfl)
    exact Nat.max_le.mpr ⟨Nat.le_of_lt (h.before l hl), hlimit⟩
  · intro v hv w hfrom hto
    rcases Nat.le_total w s'.now with hpast | hfuture
    · exact h.still_now h.inbound w hfrom hpast
    · have hbefore : s'.waited w = { s' with now := w } := by
        apply waited_of_head
        intro a ha
        have hle := hhead a ha
        have hlt : v < max s'.now t := hv
        omega
      rw [arrived, hafter w hfuture, hbefore, putBack, h.inbound, List.append_nil]
  · by_cases hdue : ∃ a ∈ s'.coming.head?, a.1 ≤ max s'.now t
    · obtain ⟨a, ha, hle⟩ := hdue
      exact .inl (length_coming_waited_lt ha hle)
    · have hlate : s'' = { s' with now := max s'.now t } := by
        apply waited_of_head
        intro a ha
        exact Nat.lt_of_not_le fun hle => hdue ⟨a, ha, hle⟩
      have hlimit : f.deadline = some t := by
        rcases hreason with hlimit | ⟨a, ha, hat⟩
        · exact hlimit
        · exact absurd ⟨a, ha, hat ▸ Nat.le_max_right _ _⟩ hdue
      obtain ⟨l, hl, hreached⟩ := Option.map_eq_some_iff.mp hlimit
      have hbefore := h.before l hl
      have hnow : max s'.now t = t := Nat.max_eq_right (by omega)
      rw [hlate, hnow]
      exact .inr ⟨rfl, h.inbound, hlimit⟩

/-- Without anything to come and without a limit, a `Waiting` reading hangs. -/
theorem Waiting.hangs (h : s.Waiting f s') (hnext : s'.nextTime f.deadline = none) :
    s.Reads f.want f.limit .hangs := by
  obtain ⟨hcoming, hdeadline⟩ := nextTime_eq_none hnext
  have hcontents : s.contents = ⟨f.got, .live⟩ := by
    rw [h.toUnderway.contents_eq, contents, hcoming, h.inbound, List.foldl_nil, List.append_nil]
  refine .hangs (Option.map_eq_none_iff.mp hdeadline) ?_ ?_
  · rw [hcontents]
  · rw [hcontents]
    exact h.length_lt

/-- `run` brings a reading to its end, or to wait forever. Each round of polling but the first lets
something arrive or reaches the limit, and the limit can be reached no more often than there are
`tries` left. -/
theorem Underway.run {fuel : Nat} (h : s.Underway f s'.settle)
    (hfuel : s'.settle.coming.length + f.tries + 1 < fuel ∨
      s'.settle.coming.length + f.tries < fuel ∧ s'.settle.inbound = {} ∧
        f.deadline = some s'.settle.now) :
    s.Reads f.want f.limit (run Fill.poll Fill.deadline fuel f s') := by
  induction fuel generalizing f s' with
  | zero => omega
  | succ fuel ih =>
    rw [Schedule.run]
    have hpolled := h.poll
    generalize Fill.poll s'.settle.now f s'.settle.inbound = polled at hpolled
    cases hpolled with
    | finished hreads => exact hreads
    | @ongoing f' i hwant hlimit htries hdue hwaiting =>
      simp only
      rw [← hwant, ← hlimit]
      have hleft : s'.settle.coming.length + f'.tries < fuel := by
        rcases hfuel with hfuel | ⟨hfuel, hnothing, hreached⟩
        · omega
        · have hless := hdue hnothing hreached
          omega
      split
      · next hnone => exact hwaiting.hangs hnone
      · next t hnext =>
        obtain ⟨hunderway, hprogress⟩ := hwaiting.advance hnext
        apply ih hunderway
        rcases hprogress with hless | ⟨hcoming, hinbound, hreached⟩
        · left
          apply Nat.lt_of_le_of_lt _ hleft
          rw [Nat.add_right_comm]
          exact Nat.add_le_add_right hless _
        · have hsame := congrArg (fun coming => coming.length + f'.tries) hcoming
          exact .inr ⟨hsame.trans_lt hleft, hinbound, hreached⟩

/-- `readFixed` comes to what `Reads` says. -/
theorem reads_readFixed (s : Schedule) (want : Nat) (limit : Option Nat) :
    s.Reads want limit (s.readFixed want limit) := by
  let f : Fill := { want := want, limit := limit, since := s.now }
  have hunderway : s.Underway f s.settle := by
    refine ⟨⟨[], .call, rfl⟩, rfl, Nat.le_refl _, ?_, ?_, Nat.zero_le _⟩
    · exact fun l _ => Nat.le_add_right _ _
    · exact fun v hv => still_of_lt hv
  have hle : s.settle.coming.length ≤ s.coming.length := (List.dropWhile_sublist _).length_le
  have htries : f.tries = 1 := rfl
  exact hunderway.run (.inl (by omega))

/-- Two attempts in `vain` are separate, and nothing arrived during either of them. -/
theorem Attempts.still_twice {rest : Schedule} {v w l : Nat}
    (h : s.Attempts want limit c t [v, w]) (hle : t ≤ rest.now) (hl : l ∈ limit)
    (hnow : rest.now = w + l) :
    s.now ≤ v ∧ v + l ≤ w ∧ (∃ c', c' <+: c ∧ s.Still c' v (v + l)) ∧ s.Still c w (w + l) := by
  obtain ⟨hfrom, -, hfirst⟩ := h.still_of_mem hl v (by simp)
  obtain ⟨-, -, c', hkept, hlast⟩ := h.still_of_mem hl w (by simp)
  have hseparate : v + l ≤ w := List.rel_of_pairwise_cons (h.pairwise hl) (by simp)
  have hall : c <+: c' := by
    have harrived := hlast (w + l) (Nat.le_add_right _ _) (Nat.le_refl _)
    have hfront := h.prefix_arrived (hnow ▸ hle)
    rw [harrived] at hfront
    exact hfront
  rw [hkept.eq_of_length (Nat.le_antisymm hkept.length_le hall.length_le)] at hlast
  exact ⟨hfrom, hseparate, hfirst, hlast⟩

/-- There is no `Verdict` if there is no limit and too few octets ever come. -/
theorem Verdict.not_waiting {now : Nat} {result : Except Error (Option String)}
    (h : s.Verdict want limit c now vain result) (hfront : c <+: s.contents.pending) :
    ¬(limit = none ∧ s.contents.tail = .live ∧ s.contents.pending.length < want) := by
  rintro ⟨rfl, hlive, hshort⟩
  cases h with
  | full _ hlength =>
    have hle := hfront.length_le
    omega
  | short hl => cases hl
  | ended _ _ hcontents | failed _ _ hcontents =>
    rw [hcontents] at hlive
    cases hlive

/-- Reading with a limit by `readFixed` neither loses, repeats nor takes too many octets. What is left
is what would be there if nobody had read, without the octets taken. A text is made of these. Without
all that were wanted it comes only after two separate attempts in vain, of which the first lost
nothing. No text means that the stream ended too early, an error that it failed, and both that no more
than one attempt was in vain before. A reading waits forever only if it has no limit and too few
octets ever come. -/
theorem readFixed_exact (s : Schedule) (want : Nat) (limit : Option Nat) :
    (s.readFixed want limit = .hangs ↔
      limit = none ∧ s.contents.tail = .live ∧ s.contents.pending.length < want) ∧
    ∀ result rest, s.readFixed want limit = .finished result rest →
      ∃ taken t vain, s.waited rest.now = rest.putBack taken ∧
        s.contents = ⟨taken ++ rest.contents.pending, rest.contents.tail⟩ ∧
        taken.length ≤ want ∧ s.Attempts want limit taken t vain ∧ t ≤ rest.now ∧
        (∀ text, result = .ok (some text) → text = Text.Utf8.lossy taken ∧
          (taken.length = want ∧ vain.length ≤ 1 ∨
            taken.length < want ∧ ∃ l v w, limit = some l ∧ vain = [v, w] ∧ rest.now = w + l ∧
              s.now ≤ v ∧ v + l ≤ w ∧ (∃ before, before <+: taken ∧ s.Still before v (v + l)) ∧
              s.Still taken w (w + l))) ∧
        (result = .ok none →
          s.contents = ⟨taken, .ended⟩ ∧ taken.length < want ∧ vain.length ≤ 1) ∧
        ∀ e, result = .error e → ∃ text, e = .transport (.described text) ∧
          s.contents = ⟨taken, .failed text⟩ ∧ taken.length < want ∧ vain.length ≤ 1 := by
  have hreads := s.reads_readFixed want limit
  generalize s.readFixed want limit = outcome at hreads
  cases hreads with
  | hangs hlimit htail hshort =>
    refine ⟨iff_of_true rfl ⟨hlimit, htail, hshort⟩, ?_⟩
    intro result rest hfinished
    cases hfinished
  | @finished rest taken t vain result hback hattempts hle hverdict =>
    have hcontents : s.contents = ⟨taken ++ rest.contents.pending, rest.contents.tail⟩ := by
      rw [← s.contents_waited rest.now, hback, contents_putBack]
    have hfront : taken <+: s.contents.pending := by
      rw [hcontents]
      exact List.prefix_append _ _
    refine ⟨iff_of_false (fun h => by cases h) (hverdict.not_waiting hfront), ?_⟩
    intro result' rest' hfinished
    cases hfinished
    refine ⟨taken, t, vain, hback, hcontents, ?_⟩
    cases hverdict with
    | full hvain hlength =>
      refine ⟨Nat.le_of_eq hlength, hattempts, hle, ?_, by simp, by simp⟩
      rintro text ⟨⟩
      exact ⟨rfl, .inl ⟨hlength, hvain⟩⟩
    | short hl hnow hlength =>
      refine ⟨Nat.le_of_lt hlength, hattempts, hle, ?_, by simp, by simp⟩
      rintro text ⟨⟩
      refine ⟨rfl, .inr ⟨hlength, _, _, _, hl, rfl, hnow, ?_⟩⟩
      exact hattempts.still_twice hle hl hnow
    | ended hvain hlength hended =>
      refine ⟨Nat.le_of_lt hlength, hattempts, hle, by simp, ?_, by simp⟩
      exact fun _ => ⟨hended, hlength, hvain⟩
    | failed hvain hlength hfailed =>
      refine ⟨Nat.le_of_lt hlength, hattempts, hle, by simp, by simp, ?_⟩
      rintro e ⟨⟩
      exact ⟨_, rfl, hfailed, hlength, hvain⟩

end Schedule

end Dbgp
