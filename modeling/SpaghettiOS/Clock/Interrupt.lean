import SpaghettiOS.Clock.Timer

/-!
# What one interrupt fires

The queue is sorted by tick, so the jobs that are due in a period are the first ones of
the list.  A periodic job is pushed back behind them, as long as its delay is not
shorter than the period.

All of this is about ticks that do not wrap and callbacks that leave the queue alone.
-/

namespace SpaghettiOS.Clock

open List (mem_cons pairwise_cons mem_cons_of_mem nil_sublist sublist_cons_self cons_append)

/-! ## Pushing on a sorted list -/

def SortedByTick (jobs : List Job) : Prop := jobs.Pairwise fun j j' => j.tick ≤ j'.tick

variable {c : ClockState} {j new : Job} {jobs : List Job}

lemma SortedByTick.head_le {job : Job} {rest : List Job} (h : SortedByTick (job :: rest))
    (hj : j ∈ job :: rest) : job.tick ≤ j.tick := by
  rcases mem_cons.mp hj with rfl | hj
  · exact le_rfl
  · exact (pairwise_cons.mp h).1 j hj

lemma mem_linkLoop : ∀ {jobs : List Job}, j ∈ linkLoop new jobs → j = new ∨ j ∈ jobs
  | [], h => .inr h
  | [curr], h => by
    unfold linkLoop at h
    split at h
    · rcases mem_cons.mp h with rfl | h
      · exact .inr (by simp)
      · exact .inl (by simpa using h)
    · exact .inr h
  | curr :: next :: rest, h => by
    unfold linkLoop at h
    split at h
    · rcases mem_cons.mp h with rfl | h
      · exact .inr (by simp)
      · rcases mem_cons.mp h with rfl | h
        · exact .inl rfl
        · exact .inr (mem_cons_of_mem _ h)
    · rcases mem_cons.mp h with rfl | h
      · exact .inr (by simp)
      · exact (mem_linkLoop h).imp_right (mem_cons_of_mem _)

lemma sublist_linkLoop (new : Job) : ∀ jobs : List Job, jobs.Sublist (linkLoop new jobs)
  | [] => .slnil
  | [curr] => by
    unfold linkLoop
    split
    · exact List.Sublist.cons_cons curr (nil_sublist _)
    · exact List.Sublist.refl _
  | curr :: next :: rest => by
    unfold linkLoop
    split
    · exact List.Sublist.cons_cons curr (sublist_cons_self new _)
    · exact List.Sublist.cons_cons curr (sublist_linkLoop new (next :: rest))

lemma sortedByTick_linkLoop (new : Job) : ∀ (curr : Job) (rest : List Job),
    SortedByTick (curr :: rest) → curr.tick ≤ new.tick → SortedByTick (linkLoop new (curr :: rest))
  | curr, [], h, hle => by
    unfold linkLoop
    split
    · simpa [SortedByTick] using hle
    · exact h
  | curr, next :: rest, h, hle => by
    have hrest : SortedByTick (next :: rest) := h.of_cons
    have hcurr : ∀ j ∈ next :: rest, curr.tick ≤ j.tick := (pairwise_cons.mp h).1
    unfold linkLoop
    split
    · rename_i hgt
      have hnew : ∀ j ∈ next :: rest, new.tick ≤ j.tick := by
        intro j hj
        rcases mem_cons.mp hj with rfl | hj
        · omega
        · have hnext := (pairwise_cons.mp hrest).1 j hj
          omega
      refine pairwise_cons.mpr ⟨fun j hj => ?_, pairwise_cons.mpr ⟨hnew, hrest⟩⟩
      rcases mem_cons.mp hj with rfl | hj
      · exact hle
      · exact hcurr j hj
    · rename_i hgt
      refine pairwise_cons.mpr ⟨fun j hj => ?_, ?_⟩
      · rcases mem_linkLoop hj with rfl | hj
        · exact hle
        · exact hcurr j hj
      · exact sortedByTick_linkLoop new next rest hrest (by omega)

lemma sortedByTick_linkJob (h : SortedByTick jobs) : SortedByTick (linkJob new jobs) := by
  cases jobs with
  | nil => simp [linkJob, SortedByTick]
  | cons head rest =>
    rw [linkJob]
    split
    · rename_i hle
      refine pairwise_cons.mpr ⟨fun j hj => ?_, h⟩
      rcases mem_cons.mp hj with rfl | hj
      · exact hle
      · have hhead := (pairwise_cons.mp h).1 j hj
        omega
    · rename_i hle
      exact sortedByTick_linkLoop new head rest h (by omega)

lemma mem_linkJob (h : j ∈ linkJob new jobs) : j = new ∨ j ∈ jobs := by
  cases jobs with
  | nil => exact .inl (by simpa [linkJob] using h)
  | cons head rest =>
    rw [linkJob] at h
    split at h
    · exact mem_cons.mp h
    · exact mem_linkLoop h

lemma sublist_linkJob (new : Job) (jobs : List Job) : jobs.Sublist (linkJob new jobs) := by
  cases jobs with
  | nil => exact nil_sublist _
  | cons head rest =>
    rw [linkJob]
    split
    · exact sublist_cons_self new _
    · exact sublist_linkLoop new _

lemma linkLoop_append (new : Job) (later : List Job) : ∀ (curr : Job) (due : List Job),
    (∀ j ∈ curr :: due, j.tick < new.tick) →
    ∃ later', linkLoop new (curr :: due ++ later) = curr :: due ++ later' ∧
      later.Sublist later' ∧ ∀ j ∈ later', j = new ∨ j ∈ later
  | curr, [], hlt => by
    have hcurr : curr.tick < new.tick := hlt curr (by simp)
    cases later with
    | nil => exact ⟨[new], by simp [linkLoop, hcurr], nil_sublist _, by simp⟩
    | cons next rest =>
      by_cases hgt : next.tick > new.tick
      · refine ⟨new :: next :: rest, by simp [linkLoop, hgt], sublist_cons_self new _, ?_⟩
        intro j hj
        exact mem_cons.mp hj
      · refine ⟨linkLoop new (next :: rest), by simp [linkLoop, hgt], sublist_linkLoop new _, ?_⟩
        intro j hj
        exact mem_linkLoop hj
  | curr, next :: due, hlt => by
    have hnext : ¬ next.tick > new.tick := by
      have hnew := hlt next (by simp)
      omega
    obtain ⟨later', heq, hsub, hmem⟩ :=
      linkLoop_append new later next due fun j hj => hlt j (mem_cons_of_mem _ hj)
    refine ⟨later', ?_, hsub, hmem⟩
    simp only [cons_append] at heq ⊢
    rw [linkLoop, if_neg hnext, heq]

lemma linkJob_append {due : List Job} (later : List Job) (hlt : ∀ j ∈ due, j.tick < new.tick) :
    ∃ later', linkJob new (due ++ later) = due ++ later' ∧ later.Sublist later' ∧
      ∀ j ∈ later', j = new ∨ j ∈ later := by
  cases due with
  | nil => exact ⟨linkJob new later, rfl, sublist_linkJob new later, fun j hj => mem_linkJob hj⟩
  | cons curr due =>
    have hcurr : ¬ new.tick ≤ curr.tick := by
      have hnew := hlt curr (by simp)
      omega
    obtain ⟨later', heq, hrest⟩ := linkLoop_append new later curr due hlt
    refine ⟨later', ?_, hrest⟩
    rw [cons_append] at heq ⊢
    rw [linkJob, if_neg hcurr, heq, cons_append]

/-! ## The loop -/

def ClockState.due (c : ClockState) : List Job :=
  c.pq.head.filter fun j => j.tick < c.pq.time + tick10000Us

def ClockState.later (c : ClockState) : List Job :=
  c.pq.head.filter fun j => ¬ j.tick < c.pq.time + tick10000Us

/-- The queue is sorted, no queued tick has been passed, and no periodic job is
faster than the interrupt. -/
structure Ready (c : ClockState) : Prop where
  init : c.timerInitialised = true
  sorted : SortedByTick c.pq.head
  fresh : ∀ j ∈ c.pq.head, c.pq.time ≤ j.tick
  slow : ∀ j ∈ c.pq.head, j.type = .periodic → tick10000Us ≤ j.delay

def NoWrapDue (c : ClockState) : Prop :=
  c.pq.time + tick10000Us < word64 ∧ ∀ j ∈ c.due, j.type = .periodic → c.pq.time + j.delay < word64

lemma isDue_iff (h : c.pq.time + tick10000Us < word64) :
    isDue c j = true ↔ c.pq.time ≤ j.tick ∧ j.tick < c.pq.time + tick10000Us := by
  have hmod : (c.pq.time + tick10000Us - 1) % word64 = c.pq.time + tick10000Us - 1 :=
    Nat.mod_eq_of_lt (by omega)
  have hpos : 0 < tick10000Us := by decide
  simp only [isDue, isInRange, hmod, beq_iff_eq]
  omega

lemma filter_append_of_sorted (h : SortedByTick jobs) (t : Nat) :
    jobs = jobs.filter (fun j => j.tick < t) ++ jobs.filter (fun j => ¬ j.tick < t) := by
  induction jobs with
  | nil => rfl
  | cons j jobs ih =>
    have hj := (pairwise_cons.mp h).1
    by_cases hlt : j.tick < t
    · simpa [hlt] using ih h.of_cons
    · have hnone : jobs.filter (fun j => j.tick < t) = [] := by
        rw [List.filter_eq_nil_iff]
        intro i hi
        have hij := hj i hi
        simp only [decide_eq_true_eq]
        omega
      have hall : jobs.filter (fun j => ¬ j.tick < t) = jobs := by
        rw [List.filter_eq_self]
        intro i hi
        have hij := hj i hi
        simp only [not_lt, decide_eq_true_eq]
        omega
      rw [List.filter_cons_of_neg (by simpa using hlt),
        List.filter_cons_of_pos (by simpa using hlt), hnone, hall, List.nil_append]

lemma pqueuePop_due {job : Job} {due later : List Job} (hhead : c.pq.head = job :: (due ++ later))
    (hdue : ∀ j ∈ due, j.tick < c.pq.time + tick10000Us)
    (hperiodic : job.type = .periodic → tick10000Us ≤ job.delay ∧ c.pq.time + job.delay < word64) :
    ∃ later', (pqueuePop c).pq.head = due ++ later' ∧ later.Sublist later' ∧
      (∀ j ∈ later', c.pq.time + tick10000Us ≤ j.tick ∨ j ∈ later) ∧
      (∀ j ∈ later', j.type = .periodic → tick10000Us ≤ j.delay ∨ j ∈ later) ∧
      (SortedByTick c.pq.head → SortedByTick (pqueuePop c).pq.head) := by
  cases htype : job.type with
  | oneShot =>
    refine ⟨later, ?_, List.Sublist.refl _, fun j hj => .inr hj, fun j hj _ => .inr hj, ?_⟩
    · simp only [pqueuePop, hhead, htype]
    · intro hs
      simp only [pqueuePop, hhead, htype]
      rw [hhead] at hs
      exact hs.of_cons
  | periodic =>
    obtain ⟨hslow, hwrap⟩ := hperiodic htype
    have hpush : ∃ new : Job, new.tick = c.pq.time + job.delay ∧ new.delay = job.delay ∧
        (pqueuePop c).pq.head = linkJob new (due ++ later) := by
      simp only [pqueuePop, hhead, htype, pqueuePush]
      split
      · exact ⟨⟨job.id, job.delay, c.pq.tickOf job.delay, .periodic, job.callback, job.data⟩,
          Nat.mod_eq_of_lt hwrap, rfl, rfl⟩
      · exact ⟨⟨c.nextJobId, job.delay, c.pq.tickOf job.delay, .periodic, job.callback, job.data⟩,
          Nat.mod_eq_of_lt hwrap, rfl, rfl⟩
    obtain ⟨new, htick, hdelay, hpop⟩ := hpush
    have hlt : ∀ j ∈ due, j.tick < new.tick := by
      intro j hj
      have hj' := hdue j hj
      omega
    obtain ⟨later', heq, hsub, hmem⟩ := linkJob_append later hlt
    refine ⟨later', hpop.trans heq, hsub, fun j hj => ?_, fun j hj _ => ?_, fun hs => ?_⟩
    · rcases hmem j hj with rfl | hj
      · exact .inl (by omega)
      · exact .inr hj
    · rcases hmem j hj with rfl | hj
      · exact .inl (by omega)
      · exact .inr hj
    · rw [hhead] at hs
      rw [hpop]
      exact sortedByTick_linkJob hs.of_cons

lemma interruptLoop_due : ∀ (due : List Job) {c : ClockState} (later : List Job) (fuel : Nat),
    c.pq.head = due ++ later → c.pq.time + tick10000Us < word64 →
    (∀ j ∈ due, c.pq.time ≤ j.tick ∧ j.tick < c.pq.time + tick10000Us) →
    (∀ j ∈ due, j.type = .periodic → tick10000Us ≤ j.delay ∧ c.pq.time + j.delay < word64) →
    (∀ j ∈ later, c.pq.time + tick10000Us ≤ j.tick) →
    (∀ j ∈ later, j.type = .periodic → tick10000Us ≤ j.delay) → SortedByTick c.pq.head →
    due.length < fuel →
    ∃ c', interruptLoop quiet fuel c = some (due, c') ∧ later.Sublist c'.pq.head ∧
      c'.pq.time = c.pq.time ∧ SortedByTick c'.pq.head ∧
      (∀ j ∈ c'.pq.head, c.pq.time + tick10000Us ≤ j.tick) ∧
      ∀ j ∈ c'.pq.head, j.type = .periodic → tick10000Us ≤ j.delay
  | _, _, _, 0, _, _, _, _, _, _, _, hfuel => absurd hfuel (Nat.not_lt_zero _)
  | [], c, later, fuel + 1, hhead, hwrap, _, _, hlater, hslow, hs, _ => by
    simp only [List.nil_append] at hhead
    refine ⟨c, ?_, by rw [hhead], rfl, hs, hhead ▸ hlater, hhead ▸ hslow⟩
    cases later with
    | nil => simp [interruptLoop, pqueuePeek, hhead]
    | cons job rest =>
      have hnot : ¬ isDue c job = true := by
        rw [isDue_iff hwrap]
        have hjob := hlater job (by simp)
        omega
      simp [interruptLoop, pqueuePeek, hhead, hnot]
  | job :: due, c, later, fuel + 1, hhead, hwrap, hdue, hperiodic, hlater, hslow, hs, hfuel => by
    obtain ⟨later', hpop, hsub, htick, hdelay, hsort⟩ := pqueuePop_due hhead
      (fun j hj => (hdue j (mem_cons_of_mem _ hj)).2) (hperiodic job (by simp))
    have htime := pqueuePop_time c
    obtain ⟨c', hloop, hsub', htime', hs', hfresh, hslow'⟩ :=
      interruptLoop_due due (c := pqueuePop c) later' fuel hpop
        (by rw [htime]; exact hwrap)
        (by rw [htime]; exact fun j hj => hdue j (mem_cons_of_mem _ hj))
        (by rw [htime]; exact fun j hj => hperiodic j (mem_cons_of_mem _ hj))
        (by rw [htime]; exact fun j hj => (htick j hj).elim id (hlater j))
        (fun j hj hp => (hdelay j hj hp).elim id fun hj => hslow j hj hp) (hsort hs)
        (by simpa using hfuel)
    rw [htime] at htime' hfresh
    refine ⟨c', ?_, hsub.trans hsub', htime', hs', hfresh, hslow'⟩
    have hjob : isDue c job = true := (isDue_iff hwrap).mpr (hdue job (by simp))
    have hpeek : pqueuePeek c = some job := by simp [pqueuePeek, hhead]
    simp [interruptLoop, hpeek, hjob, quiet, hloop]

/-! ## Interrupts in a run -/

/-- An interrupt ran the callbacks of `fired` and left `c'` behind. -/
structure FiresDue (c : ClockState) (fired : List Job) (c' : ClockState) : Prop where
  fired_eq : fired = c.due
  kept : c.later.Sublist c'.pq.head
  time : c'.pq.time = c.pq.time + tick10000Us
  fresh : ∀ j ∈ c'.pq.head, c'.pq.time ≤ j.tick

lemma Ready.timerInterrupt (h : Ready c) (hwrap : NoWrapDue c) {fuel : Nat}
    (hfuel : c.pq.head.length < fuel) :
    ∃ c', timerInterrupt quiet fuel c = some (c.due, c') ∧ FiresDue c c.due c' ∧ Ready c' := by
  have hsplit : c.pq.head = c.due ++ c.later := filter_append_of_sorted h.sorted _
  have hmem : ∀ j ∈ c.due, j ∈ c.pq.head ∧ j.tick < c.pq.time + tick10000Us := by
    intro j hj
    simpa [ClockState.due] using hj
  have hlater : ∀ j ∈ c.later, j ∈ c.pq.head ∧ c.pq.time + tick10000Us ≤ j.tick := by
    intro j hj
    simpa [ClockState.later] using hj
  have hlen : c.due.length < fuel := lt_of_le_of_lt (List.length_filter_le _ _) hfuel
  obtain ⟨c1, hloop, hsub, htime, hs, hfresh, hslow⟩ :=
    interruptLoop_due c.due _ fuel hsplit hwrap.1
    (fun j hj => ⟨h.fresh j (hmem j hj).1, (hmem j hj).2⟩)
    (fun j hj hp => ⟨h.slow j (hmem j hj).1 hp, hwrap.2 j hj hp⟩)
    (fun j hj => (hlater j hj).2) (fun j hj => h.slow j (hlater j hj).1) h.sorted hlen
  have hmod : (c1.pq.time + tick10000Us) % word64 = c.pq.time + tick10000Us := by
    rw [htime, Nat.mod_eq_of_lt hwrap.1]
  have hrun : Clock.timerInterrupt quiet fuel c =
      some (c.due, { c1 with pq := { c1.pq with time := c.pq.time + tick10000Us } }) := by
    simp only [Clock.timerInterrupt, h.init, if_true, hloop, Option.map_some, hmod]
  refine ⟨_, hrun, ⟨rfl, hsub, rfl, hfresh⟩, ⟨?_, hs, hfresh, hslow⟩⟩
  exact (interruptLoop_timerInitialised fuel hloop).trans h.init

lemma Ready.register (h : Ready c) {delay : Nat} {type : JobType}
    (hwrap : c.pq.time + delay < word64) (hslow : type = .periodic → tick10000Us ≤ delay)
    (callback data : Nat) : Ready (registerTimer c delay type callback data).2 := by
  have htick : c.pq.tickOf delay = c.pq.time + delay := Nat.mod_eq_of_lt hwrap
  simp only [registerTimer, pqueuePush, ne_eq, not_true_eq_false, if_false]
  refine ⟨h.init, sortedByTick_linkJob h.sorted, fun j hj => ?_, fun j hj hp => ?_⟩
  · rcases mem_linkJob hj with rfl | hj
    · show c.pq.time ≤ c.pq.tickOf delay
      omega
    · exact h.fresh j hj
  · rcases mem_linkJob hj with rfl | hj
    · exact hslow hp
    · exact h.slow j hj hp

lemma unlinkJob_sublist {id : Nat} : ∀ {jobs rest : List Job}, unlinkJob id jobs = some rest →
    rest.Sublist jobs
  | [], _, h => by cases h
  | curr :: tl, rest, h => by
    unfold unlinkJob at h
    split at h
    · cases h
      exact sublist_cons_self curr _
    · obtain ⟨tl', htl, rfl⟩ := Option.map_eq_some_iff.mp h
      exact List.Sublist.cons_cons curr (unlinkJob_sublist htl)

lemma Ready.remove (h : Ready c) (id : Nat) : Ready (removeTimer c id).2 := by
  simp only [removeTimer, h.init, if_true, pqueueRemove]
  cases hu : unlinkJob id c.pq.head with
  | none => exact h
  | some rest =>
    have hsub := unlinkJob_sublist hu
    dsimp only
    exact ⟨rfl, h.sorted.sublist hsub, fun j hj => h.fresh j (hsub.subset hj),
      fun j hj => h.slow j (hsub.subset hj)⟩

/-- No tick computation of the call wraps, and it registers no periodic job that is
faster than the interrupt. -/
def NoWrap : ClockState × Ledger → TimerOp → Prop
  | (c, _), .register delay type _ _ =>
      c.pq.time + delay < word64 ∧ (type = .periodic → tick10000Us ≤ delay)
  | _, .remove _ => True
  | (c, _), .interrupt => NoWrapDue c

lemma interruptLoop_fuel {run : Job → ClockState → ClockState} : ∀ {fuel fuel' : Nat}
    {c : ClockState} {r : List Job × ClockState}, interruptLoop run fuel c = some r → fuel ≤ fuel' →
    interruptLoop run fuel' c = some r
  | 0, _, _, _, h, _ => by cases h
  | fuel + 1, 0, _, _, _, hle => absurd hle (Nat.not_succ_le_zero _)
  | fuel + 1, fuel' + 1, c, r, h, hle => by
    simp only [interruptLoop] at h ⊢
    cases hpeek : pqueuePeek c with
    | none =>
      rw [hpeek] at h
      exact h
    | some job =>
      rw [hpeek] at h
      dsimp only at h ⊢
      split at h
      · rename_i hdue
        obtain ⟨r', hr', rfl⟩ := Option.map_eq_some_iff.mp h
        rw [if_pos hdue, interruptLoop_fuel hr' (by omega)]
        rfl
      · rename_i hdue
        rw [if_neg hdue]
        exact h

lemma timerInterrupt_fuel {run : Job → ClockState → ClockState} {fuel fuel' : Nat}
    {r : List Job × ClockState} (h : timerInterrupt run fuel c = some r) (hle : fuel ≤ fuel') :
    timerInterrupt run fuel' c = some r := by
  unfold timerInterrupt at h ⊢
  split at h
  · rename_i hinit
    obtain ⟨r', hr', rfl⟩ := Option.map_eq_some_iff.mp h
    rw [if_pos hinit, interruptLoop_fuel hr' hle]
    rfl
  · rename_i hinit
    rw [if_neg hinit]
    exact h

lemma Ready.step {s s' : ClockState × Ledger} {op : TimerOp} (h : Ready s.1) (hok : NoWrap s op)
    (hstep : TimerStep s op s') : Ready s'.1 := by
  cases op with
  | register delay type callback data =>
    obtain ⟨hwrap, hslow⟩ := hok
    subst hstep
    exact h.register hwrap hslow callback data
  | remove id =>
    subst hstep
    exact h.remove id
  | interrupt =>
    obtain ⟨fuel, fired, c', hrun, rfl⟩ := hstep
    have hfuel : s.1.pq.head.length < fuel + s.1.pq.head.length + 1 := by omega
    obtain ⟨c1, hrun1, -, hready⟩ := h.timerInterrupt hok hfuel
    rw [timerInterrupt_fuel hrun (by omega)] at hrun1
    cases hrun1
    exact hready

/-- In every queue that calls without wrapping ticks lead to, the list is sorted, no tick lies
before the clock, and an interrupt runs the callbacks of the jobs of its period in the order of
the list, each once, and no others. -/
theorem interrupt_fires_due {nextJobId : Nat} {s : ClockState × Ledger}
    (hrun : Lts.Run TimerStep NoWrap (startTimer nextJobId, Ledger.empty) s) :
    SortedByTick s.1.pq.head ∧ (∀ j ∈ s.1.pq.head, s.1.pq.time ≤ j.tick) ∧
      (NoWrapDue s.1 → ∀ fuel > s.1.pq.head.length,
        ∃ c', timerInterrupt quiet fuel s.1 = some (s.1.due, c') ∧ FiresDue s.1 s.1.due c') := by
  have hstart : Ready (startTimer nextJobId) :=
    ⟨rfl, List.Pairwise.nil, nofun, nofun⟩
  have h : Ready s.1 := hrun.invariant (I := fun s => Ready s.1) hstart Ready.step
  refine ⟨h.sorted, h.fresh, fun hwrap fuel hfuel => ?_⟩
  obtain ⟨c', hc', hfires, -⟩ := h.timerInterrupt hwrap hfuel
  exact ⟨c', hc', hfires⟩

theorem interrupt_fires_due_two :
    ∃ s, Lts.Run TimerStep NoWrap (startTimer 1, Ledger.empty) s ∧ NoWrapDue s.1 ∧
      s.1.due.map Job.id = [2, 1] ∧
      ∃ c', timerInterrupt quiet 4 s.1 = some (s.1.due, c') ∧ FiresDue s.1 s.1.due c' := by
  have hrun : Lts.Run TimerStep NoWrap (startTimer 1, Ledger.empty) _ :=
    .tail (a := .register 30000 .oneShot 0 0)
      (.tail (a := .register 5 .oneShot 0 0)
        (.tail (a := .interrupt)
          (.tail (a := .register 10007 .periodic 0 0) .refl ⟨by decide, by decide⟩ rfl)
          ⟨by decide, by decide⟩ ⟨1, _, _, rfl, rfl⟩)
        ⟨by decide, by decide⟩ rfl)
      ⟨by decide, by decide⟩ rfl
  refine ⟨_, hrun, ⟨by decide, by decide⟩, by decide, ?_⟩
  exact (interrupt_fires_due hrun).2.2 ⟨by decide, by decide⟩ 4 (by decide)

end SpaghettiOS.Clock
