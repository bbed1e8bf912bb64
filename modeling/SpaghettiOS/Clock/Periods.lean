import SpaghettiOS.Clock.Interrupt

/-!
# Periodic jobs

`pqueue_pop` pushes a periodic job back at `pq->time + delay`, and `pq->time` moves
only when the loop of `timer_interrupt` is over.  So a periodic job that is faster than
the interrupt is due again as soon as it has been popped, and the loop does not end
unless a tick has wrapped below the clock.

A periodic job with a longer delay loses what its delay has over a multiple of the
period, each time it runs.
-/

namespace SpaghettiOS.Clock

/-! ## The loop -/

/-- The clock is far enough from its end that no due job wraps around. -/
def Early (c : ClockState) : Prop := c.pq.time + 2 * tick10000Us ≤ 2 ^ 63

instance (c : ClockState) : Decidable (Early c) := inferInstanceAs (Decidable (_ ≤ _))

/-- A periodic job that is due again when it is pushed back. -/
def Job.Fast (j : Job) : Prop := j.type = .periodic ∧ j.delay < tick10000Us

instance (j : Job) : Decidable j.Fast := inferInstanceAs (Decidable (_ ∧ _))

/-- What holds of the queue at all times.  A fast job that has not been passed by the
clock was registered after the last interrupt. -/
structure Timed (c : ClockState) : Prop where
  init : c.timerInitialised = true
  sorted : SortedByTick c.pq.head
  fast : ∀ j ∈ c.pq.head, j.Fast → j.tick < c.pq.time ∨ j.tick = c.pq.time + j.delay
  bound : ∀ j ∈ c.pq.head, j.tick < c.pq.time ∨ j.delay ≤ j.tick

variable {delay : Nat} {c' : ClockState} {job : Job}

section Timed

variable {c : ClockState}

lemma Timed.link (h : Timed c) (hearly : Early c) (new : Job) {rest : List Job}
    (hrest : rest.Sublist c.pq.head) (htick : new.tick = c.pq.tickOf new.delay)
    (hdelay : new.delay < word64) (hinit : c'.timerInitialised = true)
    (htime : c'.pq.time = c.pq.time) (hhead : c'.pq.head = linkJob new rest) : Timed c' := by
  have hsmall : c.pq.time + 2 * tick10000Us ≤ 2 ^ 63 := hearly
  have hword : word64 = 2 ^ 64 := rfl
  have hperiod : 0 < tick10000Us := by decide
  have hnew : new.tick < c.pq.time ∨ new.tick = c.pq.time + new.delay := by
    rw [htick, PQueue.tickOf]
    rcases Nat.lt_or_ge (c.pq.time + new.delay) word64 with hlt | hge
    · exact .inr (Nat.mod_eq_of_lt hlt)
    · have hsub : (c.pq.time + new.delay) % word64 = c.pq.time + new.delay - word64 := by
        rw [Nat.mod_eq_sub_mod hge, Nat.mod_eq_of_lt (by omega)]
      exact .inl (by omega)
  have hmem : ∀ j ∈ c'.pq.head, j = new ∨ j ∈ c.pq.head := by
    intro j hj
    rw [hhead] at hj
    exact (mem_linkJob hj).imp_right (fun hj => hrest.subset hj)
  refine ⟨hinit, ?_, fun j hj hfast => ?_, fun j hj => ?_⟩
  · rw [hhead]
    exact sortedByTick_linkJob (h.sorted.sublist hrest)
  · rw [htime]
    rcases hmem j hj with rfl | hj
    · exact hnew
    · exact h.fast j hj hfast
  · rw [htime]
    rcases hmem j hj with rfl | hj
    · exact hnew.imp_right fun hj => by omega
    · exact h.bound j hj

lemma Timed.register (h : Timed c) (hearly : Early c) (hdelay : delay < word64) (type : JobType)
    (callback data : Nat) : Timed (registerTimer c delay type callback data).2 := by
  refine h.link hearly ⟨c.nextJobId, delay, c.pq.tickOf delay, type, callback, data⟩
    (List.Sublist.refl _) rfl hdelay ?_ ?_ ?_
  · simpa [registerTimer, pqueuePush] using h.init
  · simp [registerTimer, pqueuePush, PQueue.add]
  · simp [registerTimer, pqueuePush, PQueue.add]

lemma Timed.sublist (h : Timed c) (hinit : c'.timerInitialised = true)
    (htime : c'.pq.time = c.pq.time) (hsub : c'.pq.head.Sublist c.pq.head) : Timed c' := by
  refine ⟨hinit, h.sorted.sublist hsub, fun j hj => ?_, fun j hj => ?_⟩
  · rw [htime]
    exact h.fast j (hsub.subset hj)
  · rw [htime]
    exact h.bound j (hsub.subset hj)

lemma Timed.remove (h : Timed c) (id : Nat) : Timed (removeTimer c id).2 := by
  simp only [removeTimer, h.init, if_true, pqueueRemove]
  cases hu : unlinkJob id c.pq.head with
  | none => exact h
  | some rest =>
    dsimp only
    exact h.sublist rfl rfl (unlinkJob_sublist hu)

lemma Timed.delay_lt (h : Timed c) (hearly : Early c) (hjob : job ∈ c.pq.head)
    (hdue : c.pq.time ≤ job.tick ∧ job.tick < c.pq.time + tick10000Us) :
    c.pq.time + job.delay < word64 := by
  have hsmall : c.pq.time + 2 * tick10000Us ≤ 2 ^ 63 := hearly
  have hword : word64 = 2 ^ 64 := rfl
  have hbound := h.bound job hjob
  omega

lemma Early.noWrap (hearly : Early c) : c.pq.time + tick10000Us < word64 := by
  have hsmall : c.pq.time + 2 * tick10000Us ≤ 2 ^ 63 := hearly
  have hword : word64 = 2 ^ 64 := rfl
  omega

lemma pqueuePop_head {rest : List Job} (hhead : c.pq.head = job :: rest) :
    (job.type = .oneShot ∧ (pqueuePop c).pq.head = rest) ∨
      ∃ new : Job, job.type = .periodic ∧ new.type = .periodic ∧ new.delay = job.delay ∧
        new.tick = c.pq.tickOf job.delay ∧ (pqueuePop c).pq.head = linkJob new rest := by
  cases htype : job.type with
  | oneShot =>
    refine .inl ⟨rfl, ?_⟩
    simp only [pqueuePop, hhead, htype]
  | periodic =>
    refine .inr ⟨⟨if job.id ≠ 0 then job.id else c.nextJobId, job.delay, c.pq.tickOf job.delay,
      .periodic, job.callback, job.data⟩, rfl, rfl, rfl, rfl, ?_⟩
    by_cases hid : job.id = 0
    · simp [pqueuePop, hhead, htype, pqueuePush, hid, PQueue.add, PQueue.tickOf]
    · simp [pqueuePop, hhead, htype, pqueuePush, hid, PQueue.add, PQueue.tickOf]

lemma Timed.pop (h : Timed c) (hearly : Early c) (hpeek : pqueuePeek c = some job)
    (hdue : isDue c job = true) : Timed (pqueuePop c) := by
  obtain ⟨rest, hhead⟩ := List.head?_eq_some_iff.mp hpeek
  have hdelay := h.delay_lt hearly (by simp [hhead]) ((isDue_iff hearly.noWrap).mp hdue)
  have hrest : rest.Sublist c.pq.head := by
    rw [hhead]
    exact List.sublist_cons_self job rest
  have hinit : (pqueuePop c).timerInitialised = true :=
    (pqueuePop_timerInitialised c).trans h.init
  rcases pqueuePop_head hhead with ⟨-, hpop⟩ | ⟨new, -, -, hd, htick, hpop⟩
  · exact h.sublist hinit (pqueuePop_time c) (hpop ▸ hrest)
  · exact h.link hearly new hrest (by rw [htick, hd]) (by omega) hinit (pqueuePop_time c) hpop

lemma Timed.interruptLoop : ∀ (fuel : Nat) {c c' : ClockState} {fired : List Job}, Timed c →
    Early c → Clock.interruptLoop quiet fuel c = some (fired, c') →
    Timed c' ∧ c'.pq.time = c.pq.time
  | 0, _, _, _, _, _, hrun => by cases hrun
  | fuel + 1, c, c', fired, h, hearly, hrun => by
    rw [Clock.interruptLoop] at hrun
    cases hpeek : pqueuePeek c with
    | none =>
      rw [hpeek] at hrun
      cases hrun
      exact ⟨h, rfl⟩
    | some job =>
      rw [hpeek] at hrun
      dsimp only [quiet] at hrun
      split at hrun
      · rename_i hdue
        obtain ⟨⟨fired', c''⟩, hrun', heq⟩ := Option.map_eq_some_iff.mp hrun
        cases heq
        have htime := pqueuePop_time c
        have hearly' : Early (pqueuePop c) := by
          unfold Early
          rw [htime]
          exact hearly
        obtain ⟨hc', htime'⟩ := Timed.interruptLoop fuel (h.pop hearly hpeek hdue) hearly' hrun'
        exact ⟨hc', htime'.trans htime⟩
      · cases hrun
        exact ⟨h, rfl⟩

lemma Timed.advance (h : Timed c) (time : Nat) (htime : time = c.pq.time + tick10000Us) :
    Timed { c with pq := { c.pq with time := time } } := by
  subst htime
  refine ⟨h.init, h.sorted, fun j hj hfast => .inl ?_, fun j hj => ?_⟩
  · have hj' := h.fast j hj hfast
    have hdelay := hfast.2
    show j.tick < c.pq.time + tick10000Us
    omega
  · have hj' := h.bound j hj
    show j.tick < c.pq.time + tick10000Us ∨ j.delay ≤ j.tick
    omega

end Timed

/-- The clock is early, and the delay of a registration is a `uint64_t`. -/
def EarlyCall : ClockState × Ledger → TimerOp → Prop
  | (c, _), .register delay _ _ _ => Early c ∧ delay < word64
  | (c, _), _ => Early c

lemma Timed.step {s s' : ClockState × Ledger} {op : TimerOp} (h : Timed s.1)
    (hok : EarlyCall s op) (hstep : TimerStep s op s') : Timed s'.1 := by
  cases op with
  | register delay type callback data =>
    subst hstep
    exact h.register hok.1 hok.2 type callback data
  | remove id =>
    subst hstep
    exact h.remove id
  | interrupt =>
    obtain ⟨fuel, fired, c', hrun, rfl⟩ := hstep
    have hearly : Early s.1 := hok
    simp only [timerInterrupt, h.init, if_true, Option.map_eq_some_iff, Prod.mk.injEq,
      Prod.exists] at hrun
    obtain ⟨fired', c'', hloop, rfl, rfl⟩ := hrun
    obtain ⟨hc'', htime⟩ := h.interruptLoop fuel hearly hloop
    refine hc''.advance _ (Nat.mod_eq_of_lt ?_)
    rw [htime]
    exact hearly.noWrap

/-! ## When the loop ends -/

/-- A fast job is queued, and no tick has been passed by the clock. -/
structure Spinning (c : ClockState) : Prop where
  timed : Timed c
  early : Early c
  fresh : ∀ j ∈ c.pq.head, c.pq.time ≤ j.tick
  fast : ∃ j ∈ c.pq.head, j.Fast

section Spinning

variable {c : ClockState}

lemma Spinning.due (h : Spinning c) : ∃ job, pqueuePeek c = some job ∧ isDue c job = true := by
  obtain ⟨j, hj, hfast⟩ := h.fast
  have hsort := h.timed.sorted
  cases hhead : c.pq.head with
  | nil =>
    rw [hhead] at hj
    cases hj
  | cons job rest =>
    refine ⟨job, by simp [pqueuePeek, hhead], (isDue_iff h.early.noWrap).mpr ?_⟩
    have hle : job.tick ≤ j.tick := by
      rw [hhead] at hj hsort
      exact hsort.head_le hj
    have hjob := h.fresh job (by simp [hhead])
    have hfresh := h.fresh j hj
    have htick := h.timed.fast j hj hfast
    have hdelay := hfast.2
    omega

lemma Spinning.pop (h : Spinning c) : Spinning (pqueuePop c) := by
  obtain ⟨job, hpeek, hdue⟩ := h.due
  obtain ⟨rest, hhead⟩ := List.head?_eq_some_iff.mp hpeek
  have hbounds := (isDue_iff h.early.noWrap).mp hdue
  have htime := pqueuePop_time c
  have hearly : Early (pqueuePop c) := by
    unfold Early
    rw [htime]
    exact h.early
  have hrest : ∀ j ∈ rest, j ∈ c.pq.head := fun j hj => by simp [hhead, hj]
  obtain ⟨j, hj, hfast⟩ := h.fast
  rcases pqueuePop_head hhead with ⟨hone, hpop⟩ | ⟨new, hper, hnew, hd, htick, hpop⟩
  · refine ⟨h.timed.pop h.early hpeek hdue, hearly, fun i hi => ?_, j, ?_, hfast⟩
    · rw [htime]
      exact h.fresh i (hrest i (hpop ▸ hi))
    · rw [hhead] at hj
      rcases List.mem_cons.mp hj with rfl | hj
      · exact absurd (hone.symm.trans hfast.1) (by decide)
      · exact hpop ▸ hj
  · have hdelay := h.timed.delay_lt h.early (by simp [hhead]) hbounds
    have hnewTick : new.tick = c.pq.time + job.delay :=
      htick.trans (Nat.mod_eq_of_lt hdelay)
    refine ⟨h.timed.pop h.early hpeek hdue, hearly, fun i hi => ?_, ?_⟩
    · rw [htime]
      rw [hpop] at hi
      rcases mem_linkJob hi with rfl | hi
      · omega
      · exact h.fresh i (hrest i hi)
    · rw [hpop]
      by_cases hjob : job.Fast
      · -- its new tick is its old one, so nothing queued is earlier
        have hsame : new.tick = job.tick := by
          have hj' := h.timed.fast job (by simp [hhead]) hjob
          omega
        refine ⟨new, ?_, hnew, by rw [hd]; exact hjob.2⟩
        have hsort := h.timed.sorted
        rw [hhead] at hsort
        cases rest with
        | nil => simp [linkJob]
        | cons next rest =>
          have hnext := (List.pairwise_cons.mp hsort).1 next (by simp)
          rw [linkJob, if_pos (by omega)]
          exact List.mem_cons_self
      · refine ⟨j, ?_, hfast⟩
        rw [hhead] at hj
        rcases List.mem_cons.mp hj with rfl | hj
        · exact absurd hfast hjob
        · exact (sublist_linkJob new rest).subset hj

lemma Spinning.interruptLoop : ∀ (fuel : Nat) {c : ClockState}, Spinning c →
    Clock.interruptLoop quiet fuel c = none
  | 0, _, _ => rfl
  | fuel + 1, c, h => by
    obtain ⟨job, hpeek, hdue⟩ := h.due
    have hrest := Spinning.interruptLoop fuel h.pop
    simp [Clock.interruptLoop, hpeek, hdue, quiet, hrest]

lemma Spinning.timerInterrupt (h : Spinning c) (fuel : Nat) :
    Clock.timerInterrupt quiet fuel c = none := by
  simp [Clock.timerInterrupt, h.timed.init, h.interruptLoop fuel]

lemma Timed.timerInterrupt_passed (h : Timed c) (hearly : Early c) {j : Job}
    (hj : j ∈ c.pq.head) (hpassed : j.tick < c.pq.time) :
    ∃ r, Clock.timerInterrupt quiet 1 c = some r := by
  have hsort := h.sorted
  cases hhead : c.pq.head with
  | nil =>
    rw [hhead] at hj
    cases hj
  | cons job rest =>
    have hle : job.tick ≤ j.tick := by
      rw [hhead] at hj hsort
      exact hsort.head_le hj
    have hnot : ¬ isDue c job = true := by
      rw [isDue_iff hearly.noWrap]
      omega
    have hpeek : pqueuePeek c = some job := by simp [pqueuePeek, hhead]
    simp [Clock.timerInterrupt, h.init, Clock.interruptLoop, hpeek, hnot]

end Spinning

/-- The loop of `timer_interrupt` ends exactly when no fast periodic job is queued, or
when a tick that wrapped around blocks the queue. -/
theorem timerInterrupt_terminates_iff {nextJobId : Nat} {s : ClockState × Ledger}
    (hrun : Lts.Run TimerStep EarlyCall (startTimer nextJobId, Ledger.empty) s)
    (hearly : Early s.1) :
    (∃ fuel r, timerInterrupt quiet fuel s.1 = some r) ↔
      (∀ j ∈ s.1.pq.head, j.type = .periodic → tick10000Us ≤ j.delay) ∨
        ∃ j ∈ s.1.pq.head, j.tick < s.1.pq.time := by
  have hstart : Timed (startTimer nextJobId) := ⟨rfl, .nil, nofun, nofun⟩
  have h : Timed s.1 := hrun.invariant (I := fun s => Timed s.1) hstart Timed.step
  constructor
  · rintro ⟨fuel, r, hends⟩
    by_contra hnot
    obtain ⟨hfast, hfresh⟩ := not_or.mp hnot
    push Not at hfast hfresh
    obtain ⟨j, hj, hper, hdelay⟩ := hfast
    have hspin : Spinning s.1 := ⟨h, hearly, hfresh, j, hj, hper, hdelay⟩
    rw [hspin.timerInterrupt fuel] at hends
    cases hends
  · rintro (hslow | ⟨j, hj, hpassed⟩)
    · by_cases hpassed : ∃ j ∈ s.1.pq.head, j.tick < s.1.pq.time
      · obtain ⟨j, hj, hpassed⟩ := hpassed
        exact ⟨1, h.timerInterrupt_passed hearly hj hpassed⟩
      · push Not at hpassed
        have hready : Ready s.1 := ⟨h.init, h.sorted, hpassed, hslow⟩
        have hwrap : NoWrapDue s.1 := by
          refine ⟨hearly.noWrap, fun j hj _ => ?_⟩
          have hj' : j ∈ s.1.pq.head ∧ j.tick < s.1.pq.time + tick10000Us := by
            simpa [ClockState.due] using hj
          exact h.delay_lt hearly hj'.1 ⟨hpassed j hj'.1, hj'.2⟩
        obtain ⟨c', hc', -⟩ := hready.timerInterrupt hwrap (Nat.lt_succ_self _)
        exact ⟨_, _, hc'⟩
    · exact ⟨1, h.timerInterrupt_passed hearly hj hpassed⟩

theorem timerInterrupt_terminates_second :
    ∃ s, Lts.Run TimerStep EarlyCall (startTimer 1, Ledger.empty) s ∧ Early s.1 ∧
      s.1.pq.head.length = 2 ∧ ∃ fuel r, timerInterrupt quiet fuel s.1 = some r := by
  have hrun : Lts.Run TimerStep EarlyCall (startTimer 1, Ledger.empty) _ :=
    .tail (a := .register 1000000 .periodic 0 0)
      (.tail (a := .register 0 .oneShot 0 0) .refl ⟨by decide, by decide⟩ rfl)
      ⟨by decide, by decide⟩ rfl
  exact ⟨_, hrun, by decide, rfl,
    (timerInterrupt_terminates_iff hrun (by decide)).mpr (.inl (by decide))⟩

theorem timerInterrupt_spins :
    ∃ s, Lts.Run TimerStep EarlyCall (startTimer 1, Ledger.empty) s ∧
      s.1.pq.head.map Job.delay = [5000] ∧ ∀ fuel, timerInterrupt quiet fuel s.1 = none := by
  have hrun : Lts.Run TimerStep EarlyCall (startTimer 1, Ledger.empty) _ :=
    .tail (a := .register 5000 .periodic 0 0) .refl ⟨by decide, by decide⟩ rfl
  have hspin : Spinning (registerTimer (startTimer 1) 5000 .periodic 0 0).2 :=
    ⟨⟨rfl, List.pairwise_singleton _ _, by decide, by decide⟩, by decide, by decide, by decide⟩
  exact ⟨_, hrun, rfl, fun fuel => hspin.timerInterrupt fuel⟩

/-! ## A periodic job on its own -/

/-- A call of `timer_interrupt`: the clock it began with and the jobs whose callback it
ran. -/
structure Call where
  time : Nat
  fired : List Job
deriving DecidableEq, Repr

def interrupts (fuel : Nat) : Nat → ClockState → Option (List Call × ClockState)
  | 0, c => some ([], c)
  | k + 1, c => do
      let (calls, c₁) ← interrupts fuel k c
      let (fired, c₂) ← timerInterrupt quiet fuel c₁
      pure (calls ++ [⟨c₁.pq.time, fired⟩], c₂)

def callbacks (calls : List Call) : Nat := (calls.map fun call => call.fired.length).sum

def NthIn (calls : List Call) (n i : Nat) : Prop :=
  callbacks (calls.take i) < n ∧ n ≤ callbacks (calls.take (i + 1))

def Call.Covers (call : Call) (time : Nat) : Prop :=
  call.time ≤ time ∧ time ≤ call.time + (tick10000Us - 1)

/-- The queue holds one periodic job, due at `tick`. -/
structure Lone (c : ClockState) (time delay tick : Nat) : Prop where
  init : c.timerInitialised = true
  time_eq : c.pq.time = time
  head : ∃ j : Job, c.pq.head = [j] ∧ j.type = .periodic ∧ j.delay = delay ∧ j.tick = tick

lemma timerInterrupt_of_loop {c : ClockState} {fuel : Nat} {fired : List Job}
    (hinit : c.timerInitialised = true) (hloop : interruptLoop quiet fuel c = some (fired, c')) :
    timerInterrupt quiet fuel c = some (fired,
      { c' with pq := { c'.pq with time := (c'.pq.time + tick10000Us) % word64 } }) := by
  simp only [timerInterrupt, hinit, if_true, hloop, Option.map_some]

lemma Lone.wait {c : ClockState} {time tick : Nat} (fuel : Nat) (h : Lone c time delay tick)
    (hwrap : time + tick10000Us < word64) (hlater : time + tick10000Us ≤ tick) :
    ∃ c', timerInterrupt quiet (fuel + 1) c = some ([], c') ∧
      Lone c' (time + tick10000Us) delay tick := by
  obtain ⟨hinit, rfl, j, hhead, htype, hdelay, rfl⟩ := h
  have hnot : ¬ isDue c j = true := by
    rw [isDue_iff hwrap]
    omega
  have hloop : interruptLoop quiet (fuel + 1) c = some ([], c) := by
    simp [interruptLoop, pqueuePeek, hhead, hnot]
  refine ⟨_, timerInterrupt_of_loop hinit hloop, ?_⟩
  exact ⟨hinit, Nat.mod_eq_of_lt hwrap, j, hhead, htype, hdelay, rfl⟩

lemma Lone.fire {c : ClockState} {time tick : Nat} (fuel : Nat) (h : Lone c time delay tick)
    (hslow : tick10000Us ≤ delay) (hwrap : time + delay < word64) (hdue : time ≤ tick)
    (hnow : tick < time + tick10000Us) :
    ∃ j c', timerInterrupt quiet (fuel + 2) c = some ([j], c') ∧
      Lone c' (time + tick10000Us) delay (time + delay) := by
  obtain ⟨hinit, rfl, j, hhead, htype, rfl, rfl⟩ := h
  have hperiod : c.pq.time + tick10000Us < word64 := by omega
  have hisDue : isDue c j = true := (isDue_iff hperiod).mpr ⟨hdue, hnow⟩
  have htime := pqueuePop_time c
  rcases pqueuePop_head hhead with ⟨hone, -⟩ | ⟨new, -, hnew, hd, htick, hpop⟩
  · exact absurd (hone.symm.trans htype) (by decide)
  · have hnewTick : new.tick = c.pq.time + j.delay := htick.trans (Nat.mod_eq_of_lt hwrap)
    have hnot : ¬ isDue (pqueuePop c) new = true := by
      rw [isDue_iff (by rw [htime]; exact hperiod), htime]
      omega
    have hloop : interruptLoop quiet (fuel + 2) c = some ([j], pqueuePop c) := by
      simp [interruptLoop, pqueuePeek, hhead, hisDue, quiet, hpop, linkJob, hnot]
    refine ⟨j, _, timerInterrupt_of_loop hinit hloop,
      (pqueuePop_timerInitialised c).trans hinit, ?_, new, ?_, hnew, hd, hnewTick⟩
    · show ((pqueuePop c).pq.time + tick10000Us) % word64 = c.pq.time + tick10000Us
      rw [htime, Nat.mod_eq_of_lt hperiod]
    · simpa [linkJob] using hpop

lemma tick10000Us_mul (n : Nat) : tick10000Us * n = 10000 * n := rfl

lemma callbacks_append (calls : List Call) (call : Call) :
    callbacks (calls ++ [call]) = callbacks calls + call.fired.length := by
  simp [callbacks]

/-- The calls so far, for a job whose delay is `q` periods and a rest.  It has run once
for each multiple of `q` before the last call. -/
structure Ticking (start delay q k : Nat) (calls : List Call) (c : ClockState) : Prop where
  lone : Lone c (start + tick10000Us * k) delay (start + tick10000Us * ((k - 1) / q * q) + delay)
  length : calls.length = k
  time : ∀ i call, calls[i]? = some call → call.time = start + tick10000Us * i
  count : ∀ i ≤ k, callbacks (calls.take i) = (i - 1) / q

lemma Ticking.snoc {start q k : Nat} {calls : List Call} {c : ClockState}
    (h : Ticking start delay q k calls c) {fired : List Job}
    (hlone : Lone c' (start + tick10000Us * k + tick10000Us) delay
      (start + tick10000Us * (k / q * q) + delay)) (hcount : (k - 1) / q + fired.length = k / q) :
    Ticking start delay q (k + 1) (calls ++ [⟨c.pq.time, fired⟩]) c' := by
  have hlen := h.length
  refine ⟨?_, by simp [hlen], fun i call hcall => ?_, fun i hi => ?_⟩
  · have hk : start + tick10000Us * (k + 1) = start + tick10000Us * k + tick10000Us := by
      rw [Nat.mul_succ, Nat.add_assoc]
    rw [hk, Nat.add_sub_cancel]
    exact hlone
  · rcases Nat.lt_or_ge i calls.length with hlt | hge
    · rw [List.getElem?_append_left hlt] at hcall
      exact h.time i call hcall
    · have hi : i = k := by
        have hsome := (List.getElem?_eq_some_iff.mp hcall).1
        simp only [List.length_append, List.length_singleton] at hsome
        omega
      subst hi
      rw [List.getElem?_append_right hge, hlen, Nat.sub_self] at hcall
      cases hcall
      exact h.lone.time_eq
  · rcases Nat.lt_or_ge k i with hlt | hge
    · have hi : i = k + 1 := by omega
      subst hi
      rw [List.take_of_length_le (by simp [hlen]), callbacks_append, Nat.add_sub_cancel]
      have hall := h.count k le_rfl
      rw [List.take_of_length_le (by omega)] at hall
      rw [hall]
      exact hcount
    · rw [List.take_append_of_le_length (by omega)]
      exact h.count i hge

lemma Ticking.interrupt {start k : Nat} {calls : List Call} {c : ClockState} (fuel : Nat)
    (h : Ticking start delay (delay / tick10000Us) k calls c) (hslow : tick10000Us ≤ delay)
    (hwrap : start + tick10000Us * (k + 1) + delay < word64) :
    ∃ fired c', timerInterrupt quiet (fuel + 2) c = some (fired, c') ∧
      Ticking start delay (delay / tick10000Us) (k + 1) (calls ++ [⟨c.pq.time, fired⟩]) c' := by
  have hperiod : tick10000Us = 10000 := rfl
  have hq : 0 < delay / tick10000Us := Nat.div_pos hslow (by decide)
  have hsplit : tick10000Us * (delay / tick10000Us) + delay % tick10000Us = delay :=
    Nat.div_add_mod delay tick10000Us
  have hrest : delay % tick10000Us < tick10000Us := Nat.mod_lt _ (by decide)
  generalize delay / tick10000Us = q at h hq hsplit ⊢
  have hnext : (k - 1) / q * q + q = ((k - 1) / q + 1) * q :=
    (Nat.succ_mul _ _).symm
  have hlt : k - 1 < ((k - 1) / q + 1) * q := by
    have hmod := Nat.lt_mul_div_succ (k - 1) hq
    rwa [Nat.mul_comm] at hmod
  have hle : (k - 1) / q * q ≤ k - 1 := Nat.div_mul_le_self (k - 1) q
  have hmulk := tick10000Us_mul k
  have hmulq := tick10000Us_mul q
  have hmulk' := tick10000Us_mul (k + 1)
  have hmulm := tick10000Us_mul ((k - 1) / q * q)
  have hlone := h.lone
  rcases Nat.lt_or_ge k ((k - 1) / q * q + q) with hbefore | hafter
  · have hsame : k / q = (k - 1) / q :=
      Nat.div_eq_of_lt_le (by omega) (by omega)
    obtain ⟨c', hc', hlone'⟩ := hlone.wait (fuel + 1) (by omega) (by omega)
    refine ⟨[], c', hc', h.snoc ?_ (by rw [hsame]; rfl)⟩
    rw [hsame]
    exact hlone'
  · have hk : k = (k - 1) / q * q + q := by omega
    have hdiv : k / q = (k - 1) / q + 1 :=
      Nat.div_eq_of_lt_le (by omega) (by rw [Nat.add_mul _ 1]; omega)
    obtain ⟨j, c', hc', hlone'⟩ := hlone.fire fuel hslow (by omega) (by omega) (by omega)
    refine ⟨[j], c', hc', h.snoc ?_ (by rw [hdiv]; rfl)⟩
    have heq : k / q * q = k := by rw [hdiv, ← hnext, ← hk]
    rw [heq]
    exact hlone'

lemma ticking_interrupts {c : ClockState} (hinit : c.timerInitialised = true)
    (hempty : c.pq.head = []) (hslow : tick10000Us ≤ delay) (callback data fuel : Nat) :
    ∀ k, c.pq.time + tick10000Us * k + delay < word64 →
      ∃ calls c', interrupts (fuel + 2) k (registerTimer c delay .periodic callback data).2
          = some (calls, c') ∧ Ticking c.pq.time delay (delay / tick10000Us) k calls c'
  | 0, hwrap => by
    refine ⟨[], _, rfl, ⟨hinit, rfl, ⟨c.nextJobId, delay, c.pq.tickOf delay, .periodic, callback,
      data⟩, ?_, rfl, rfl, ?_⟩, rfl, by simp, fun i hi => ?_⟩
    · simp [registerTimer, pqueuePush, PQueue.add, hempty, linkJob]
    · show (c.pq.time + delay) % word64 = _
      rw [Nat.mod_eq_of_lt (by omega)]
      simp
    · have hi : i = 0 := by omega
      subst hi
      simp [callbacks]
  | k + 1, hwrap => by
    have hk : tick10000Us * k ≤ tick10000Us * (k + 1) := Nat.mul_le_mul_left _ (Nat.le_succ k)
    obtain ⟨calls, c', hrun, h⟩ := ticking_interrupts hinit hempty hslow callback data fuel k
      (by omega)
    obtain ⟨fired, c'', hc'', h'⟩ := h.interrupt fuel hslow hwrap
    refine ⟨_, c'', ?_, h'⟩
    simp [interrupts, hrun, hc'']

/-- The `n`-th callback of a periodic job that is alone in the queue runs in the call
whose window contains `n` delays after the registration, and in no other, exactly as
long as the rests that the periods cut off do not add up to a period. -/
theorem periodic_keeps_period_iff (c : ClockState) (delay n k : Nat)
    (hinit : c.timerInitialised = true) (hempty : c.pq.head = []) (hslow : tick10000Us ≤ delay)
    (hn : 1 ≤ n) (hk : n * delay / tick10000Us < k)
    (hwrap : c.pq.time + tick10000Us * k + delay < word64) (callback data fuel : Nat) :
    ∃ calls c', interrupts (fuel + 2) k (registerTimer c delay .periodic callback data).2
        = some (calls, c') ∧ calls.length = k ∧ ((∀ i call, calls[i]? = some call →
          (NthIn calls n i ↔ call.Covers (c.pq.time + n * delay))) ↔
        n * (delay % tick10000Us) < tick10000Us) := by
  obtain ⟨calls, c', hrun, h⟩ := ticking_interrupts hinit hempty hslow callback data fuel k
    hwrap
  refine ⟨calls, c', hrun, h.length, ?_⟩
  have hlen := h.length
  have hperiod : tick10000Us = 10000 := rfl
  have hq : 0 < delay / tick10000Us := Nat.div_pos hslow (by decide)
  have hsplit : n * delay = tick10000Us * (n * (delay / tick10000Us))
      + n * (delay % tick10000Us) := by
    conv_lhs => rw [← Nat.div_add_mod delay tick10000Us]
    rw [Nat.mul_add, Nat.mul_left_comm]
  have hnq : 1 ≤ n * (delay / tick10000Us) := Nat.mul_pos hn hq
  have hbefore : n * (delay / tick10000Us) < k := by
    refine lt_of_le_of_lt ((Nat.le_div_iff_mul_le (by decide)).mpr ?_) hk
    rw [hsplit, Nat.mul_comm]
    exact Nat.le_add_right _ _
  have hnth : ∀ i < k, NthIn calls n i ↔ i = n * (delay / tick10000Us) := by
    intro i hi
    rw [NthIn, h.count i hi.le, h.count (i + 1) hi, Nat.add_sub_cancel,
      Nat.div_lt_iff_lt_mul hq, Nat.le_div_iff_mul_le hq]
    omega
  have hcovers : ∀ i call, calls[i]? = some call → (call.Covers (c.pq.time + n * delay) ↔
      tick10000Us * i ≤ n * delay ∧ n * delay < tick10000Us * i + tick10000Us) := by
    intro i call hcall
    rw [Call.Covers, h.time i call hcall]
    omega
  generalize n * (delay / tick10000Us) = first at hsplit hnq hbefore hnth
  have hmulFirst := tick10000Us_mul first
  generalize n * (delay % tick10000Us) = rest at hsplit ⊢
  constructor
  · intro hall
    have hget : calls[first]? = some calls[first] := List.getElem?_eq_getElem (by omega)
    have hcall := (hall first _ hget).mp ((hnth first hbefore).mpr rfl)
    rw [hcovers first _ hget] at hcall
    omega
  · intro hrest i call hcall
    have hmuli := tick10000Us_mul i
    have hi : i < k := by
      have hlt := (List.getElem?_eq_some_iff.mp hcall).1
      omega
    rw [hnth i hi, hcovers i call hcall]
    omega

theorem periodic_keeps_period_second :
    2 * (10001 % tick10000Us) < tick10000Us ∧
      ∃ calls c', interrupts 2 3 (registerTimer (startTimer 1) 10001 .periodic 0 0).2
          = some (calls, c') ∧ calls.length = 3 ∧
        ∀ i call, calls[i]? = some call → (NthIn calls 2 i ↔ call.Covers (0 + 2 * 10001)) := by
  have hsmall : 2 * (10001 % tick10000Us) < tick10000Us := by decide
  obtain ⟨calls, c', hrun, hlen, hiff⟩ := periodic_keeps_period_iff (startTimer 1) 10001 2 3
    rfl rfl (by decide) (by decide) (by decide) (by decide) 0 0 0
  exact ⟨hsmall, calls, c', hrun, hlen, hiff.mpr hsmall⟩

theorem periodic_loses_half_periods :
    ∃ calls c', interrupts 2 4 (registerTimer (startTimer 1) 15000 .periodic 0 0).2
        = some (calls, c') ∧
      ∃ call, calls[2]? = some call ∧ NthIn calls 2 2 ∧ ¬ call.Covers (2 * 15000) := by
  refine ⟨_, _, rfl, _, rfl, ⟨by decide, by decide⟩, ?_⟩
  rintro ⟨-, hle⟩
  exact absurd hle (by decide)

end SpaghettiOS.Clock
