import SpaghettiOS.Clock.Interrupt

/-!
# Callbacks that use the timer interface

The loop of `timer_interrupt` peeks at the head, runs its callback, and pops what
is the head after that.  A callback may register and remove timers, and when it brings
another job to the front, the pop takes that one off.

A run consists of calls from outside, of rounds of the loop with the calls of their
callbacks, and of the steps of the clock at the end of the loop.
-/

namespace SpaghettiOS.Clock

inductive ApiCall where
  | register (delay : Nat) (type : JobType) (callback data : Nat)
  | remove (id : Nat)
deriving DecidableEq, Repr

def ApiCall.run (c : ClockState) : ApiCall → ClockState
  | .register delay type callback data => (registerTimer c delay type callback data).2
  | .remove id => (removeTimer c id).2

/-! ## Accounts -/

/-- The jobs a push of `new` adds to the list: one, or none at a tail tie. -/
def linkedBy (new : Job) (jobs : List Job) : Multiset Job :=
  if TailTie new.tick jobs then 0 else {new}

structure Account where
  linked : Multiset Job
  removed : Multiset Job
  fired : Multiset Job
  selfRemoved : Multiset Job
deriving DecidableEq

abbrev Tally := ClockState × Account

def ApiCall.links (c : ClockState) : ApiCall → Multiset Job
  | .register delay type callback data =>
      linkedBy ⟨c.nextJobId, delay, c.pq.tickOf delay, type, callback, data⟩ c.pq.head
  | .remove _ => 0

def ApiCall.unlinks (c : ClockState) : ApiCall → Multiset Job
  | .register _ _ _ _ => 0
  | .remove id =>
      if c.timerInitialised then ((c.pq.head.find? fun j => j.id == id).toList : Multiset Job)
        else 0

def Tally.call (b : Tally) (x : ApiCall) : Tally :=
  (x.run b.1, { b.2 with
    linked := x.links b.1 + b.2.linked
    removed := x.unlinks b.1 + b.2.removed })

/-- The jobs `pqueue_pop` links: the head again, if it is periodic. -/
def relinked (c : ClockState) : Multiset Job :=
  match c.pq.head with
  | [] => 0
  | job :: rest =>
      match job.type with
      | .periodic =>
          linkedBy ⟨if job.id ≠ 0 then job.id else c.nextJobId, job.delay, c.pq.tickOf job.delay,
            .periodic, job.callback, job.data⟩ rest
      | .oneShot => 0

/-- One round of the loop at `job`, whose callback makes the given calls. -/
def Tally.round (b : Tally) (job : Job) (calls : List ApiCall) : Tally :=
  let b₁ := calls.foldl Tally.call b
  (pqueuePop b₁.1, {
    linked := relinked b₁.1 + b₁.2.linked
    removed := b₁.2.removed
    fired := job ::ₘ b₁.2.fired
    selfRemoved :=
      if b.2.removed.count job < b₁.2.removed.count job then job ::ₘ b₁.2.selfRemoved
      else b₁.2.selfRemoved })

inductive LoopOp where
  | call (x : ApiCall)
  | round (calls : List ApiCall)
  | finish

def LoopStep (b : Tally) : LoopOp → Tally → Prop
  | .call x, b' => b' = b.call x
  | .round calls, b' =>
      ∃ job, pqueuePeek b.1 = some job ∧ isDue b.1 job = true ∧ b' = b.round job calls
  | .finish, b' => (∀ job, pqueuePeek b.1 = some job → isDue b.1 job = false) ∧
      b' = ({ b.1 with pq := { b.1.pq with time := (b.1.pq.time + tick10000Us) % word64 } }, b.2)

/-- The list holds what was linked and neither removed nor fired.  A job that was
removed by its own callback has left the list once and is in both. -/
def Balanced (b : Tally) : Prop :=
  (b.1.pq.head : Multiset Job) + b.2.removed + b.2.fired = b.2.linked + b.2.selfRemoved

instance (b : Tally) : Decidable (Balanced b) := inferInstanceAs (Decidable (_ = _))

/-- The calls that leave a job at the head of the list: no removal of the job itself
and no new timer that is due no later. -/
def ApiCall.Spares (c : ClockState) (job : Job) : ApiCall → Prop
  | .register delay _ _ _ => job.tick < c.pq.tickOf delay
  | .remove id => id ≠ job.id

def SparesFired (b : Tally) : LoopOp → Prop
  | .round calls => ∀ job, pqueuePeek b.1 = some job → ∀ x ∈ calls, x.Spares b.1 job
  | _ => True

/-! ## What a call and a round do to the account -/

lemma coe_linkJob (new : Job) (jobs : List Job) :
    ((linkJob new jobs : List Job) : Multiset Job) = linkedBy new jobs + jobs := by
  unfold linkedBy
  split
  · rename_i htie
    rw [linkJob_tailTie htie, zero_add]
  · rename_i htie
    rw [Multiset.coe_eq_coe.mpr (linkJob_perm htie), ← Multiset.cons_coe, Multiset.singleton_add]

lemma ApiCall.head_run (c : ClockState) (x : ApiCall) :
    ((x.run c).pq.head : Multiset Job) + x.unlinks c = x.links c + c.pq.head := by
  cases x with
  | register delay type callback data =>
    simp only [ApiCall.run, registerTimer, pqueuePush, ne_eq, not_true_eq_false, if_false,
      ApiCall.unlinks, ApiCall.links, add_zero]
    exact coe_linkJob _ _
  | remove id =>
    simp only [ApiCall.run, removeTimer, ApiCall.unlinks, ApiCall.links, zero_add]
    cases hinit : c.timerInitialised with
    | false => simp
    | true =>
      simp only [if_true, pqueueRemove]
      cases hu : unlinkJob id c.pq.head with
      | none => simp [unlinkJob_none hu]
      | some rest =>
        obtain ⟨j, hfind, hperm⟩ := unlinkJob_some hu
        rw [hfind, Multiset.coe_eq_coe.mpr hperm, Option.toList_some, Multiset.coe_singleton,
          add_comm, Multiset.singleton_add, Multiset.cons_coe]

variable {job : Job} {b : Tally} {c : ClockState}

lemma Balanced.call (h : Balanced b) (x : ApiCall) : Balanced (b.call x) := by
  have hx := x.head_run b.1
  unfold Balanced at h ⊢
  calc ((x.run b.1).pq.head : Multiset Job) + (x.unlinks b.1 + b.2.removed) + b.2.fired
      = ((x.run b.1).pq.head + x.unlinks b.1) + b.2.removed + b.2.fired := by abel
    _ = x.links b.1 + (b.1.pq.head + b.2.removed + b.2.fired) := by rw [hx]; abel
    _ = x.links b.1 + b.2.linked + b.2.selfRemoved := by rw [h]; abel

lemma linkLoop_cons (new curr : Job) (rest : List Job) :
    ∃ rest', linkLoop new (curr :: rest) = curr :: rest' := by
  cases rest with
  | nil =>
    unfold linkLoop
    split
    · exact ⟨_, rfl⟩
    · exact ⟨_, rfl⟩
  | cons next rest =>
    unfold linkLoop
    split
    · exact ⟨_, rfl⟩
    · exact ⟨_, rfl⟩

lemma ApiCall.Spares.run {x : ApiCall} (h : x.Spares c job) {rest : List Job}
    (hhead : c.pq.head = job :: rest) :
    (∃ rest', (x.run c).pq.head = job :: rest') ∧ job ∉ x.unlinks c ∧
      (x.run c).pq.time = c.pq.time := by
  cases x with
  | register delay type callback data =>
    have hlt : ¬ c.pq.tickOf delay ≤ job.tick := not_le_of_gt h
    refine ⟨?_, by simp [ApiCall.unlinks], rfl⟩
    obtain ⟨rest', hrest⟩ := linkLoop_cons
      ⟨c.nextJobId, delay, c.pq.tickOf delay, type, callback, data⟩ job rest
    refine ⟨rest', ?_⟩
    simp only [ApiCall.run, registerTimer, pqueuePush, ne_eq, not_true_eq_false, if_false,
      PQueue.add, hhead, linkJob, hlt]
    exact hrest
  | remove id =>
    have hne : ¬ job.id = id := fun he => h he.symm
    cases hinit : c.timerInitialised with
    | false =>
      refine ⟨⟨rest, ?_⟩, ?_, ?_⟩
      · simpa [ApiCall.run, removeTimer, hinit] using hhead
      · simp [ApiCall.unlinks, hinit]
      · simp [ApiCall.run, removeTimer, hinit]
    | true =>
      have hother : job ∉ ApiCall.unlinks c (.remove id) := by
        simp only [ApiCall.unlinks, hinit, if_true, Multiset.mem_coe, Option.mem_toList]
        intro hfind
        have hid := List.find?_some hfind
        exact hne (by simpa using hid)
      simp only [ApiCall.run, removeTimer, hinit, if_true, pqueueRemove]
      cases hu : unlinkJob id c.pq.head with
      | none => exact ⟨⟨rest, hhead⟩, hother, rfl⟩
      | some rest' =>
        rw [hhead, unlinkJob, if_neg hne] at hu
        obtain ⟨tl, -, rfl⟩ := Option.map_eq_some_iff.mp hu
        exact ⟨⟨tl, rfl⟩, hother, rfl⟩

lemma ApiCall.Spares.of_time {c' : ClockState} {x : ApiCall} (h : x.Spares c job)
    (htime : c'.pq.time = c.pq.time) : x.Spares c' job := by
  cases x with
  | register delay type callback data =>
    show job.tick < (c'.pq.time + delay) % word64
    rw [htime]
    exact h
  | remove id => exact h

lemma calls_spare (calls : List ApiCall) : ∀ {b : Tally} {job : Job} {rest : List Job},
    b.1.pq.head = job :: rest → (∀ x ∈ calls, x.Spares b.1 job) → Balanced b →
    (∃ rest', (calls.foldl Tally.call b).1.pq.head = job :: rest') ∧
      (calls.foldl Tally.call b).2.removed.count job = b.2.removed.count job ∧
      Balanced (calls.foldl Tally.call b) := by
  induction calls with
  | nil => exact fun hhead _ hb => ⟨⟨_, hhead⟩, rfl, hb⟩
  | cons x calls ih =>
    intro b job rest hhead hspare hb
    obtain ⟨⟨rest1, hhead₁⟩, hnot, htime⟩ := (hspare x (by simp)).run hhead
    have hspare₁ : ∀ y ∈ calls, y.Spares (b.call x).1 job := fun y hy =>
      (hspare y (List.mem_cons_of_mem _ hy)).of_time htime
    obtain ⟨hhead', hcount, hb'⟩ := ih (b := b.call x) hhead₁ hspare₁ (hb.call x)
    refine ⟨hhead', hcount.trans ?_, hb'⟩
    show (x.unlinks b.1 + b.2.removed).count job = _
    rw [Multiset.count_add, Multiset.count_eq_zero_of_notMem hnot, zero_add]

lemma head_pqueuePop {rest : List Job} (hhead : c.pq.head = job :: rest) :
    ((pqueuePop c).pq.head : Multiset Job) = relinked c + rest := by
  cases htype : job.type with
  | oneShot => simp only [pqueuePop, relinked, hhead, htype, zero_add]
  | periodic =>
    simp only [pqueuePop, relinked, hhead, htype, pqueuePush]
    split
    · exact coe_linkJob _ _
    · exact coe_linkJob _ _

lemma Balanced.round (hb : Balanced b) {calls : List ApiCall}
    (hpeek : pqueuePeek b.1 = some job) (hspare : ∀ x ∈ calls, x.Spares b.1 job) :
    Balanced (b.round job calls) := by
  obtain ⟨rest, hhead⟩ : ∃ rest, b.1.pq.head = job :: rest := List.head?_eq_some_iff.mp hpeek
  obtain ⟨⟨rest1, hhead₁⟩, hcount, hb1⟩ := calls_spare calls hhead hspare hb
  have hpop := head_pqueuePop hhead₁
  unfold Balanced at hb1 ⊢
  rw [hhead₁, ← Multiset.cons_coe, ← Multiset.singleton_add] at hb1
  simp only [Tally.round]
  rw [hpop, if_neg (by omega), ← Multiset.singleton_add]
  generalize calls.foldl Tally.call b = b1 at hb1 ⊢
  calc relinked b1.1 + (rest1 : Multiset Job) + b1.2.removed + ({job} + b1.2.fired)
      = relinked b1.1 + ({job} + (rest1 : Multiset Job) + b1.2.removed + b1.2.fired) := by abel
    _ = relinked b1.1 + b1.2.linked + b1.2.selfRemoved := by rw [hb1, add_assoc]

lemma Balanced.step {b' : Tally} {op : LoopOp} (h : Balanced b) (hok : SparesFired b op)
    (hstep : LoopStep b op b') : Balanced b' := by
  cases op with
  | call x =>
    subst hstep
    exact h.call x
  | round calls =>
    obtain ⟨job, hpeek, -, rfl⟩ := hstep
    exact h.round hpeek (hok job hpeek)
  | finish =>
    obtain ⟨-, rfl⟩ := hstep
    unfold Balanced at h ⊢
    exact h

/-- From any queue on, as long as every callback spares the job it runs for, each round takes
off that job alone: what was linked is in the list, was removed by its id, or has fired, and a
job linked once fires once. -/
theorem rounds_take_fired {c : ClockState} {b : Tally}
    (hrun : Lts.Run LoopStep SparesFired (c, ⟨c.pq.head, 0, 0, 0⟩) b) : Balanced b := by
  refine hrun.invariant ?_ Balanced.step
  simp [Balanced]

theorem rounds_take_fired_two :
    ∃ b, Lts.Run LoopStep SparesFired (startTimer 1, ⟨0, 0, 0, 0⟩) b ∧
      b.1.pq.head.map Job.id = [3] ∧ b.2.fired.map Job.id = {1} ∧ Balanced b := by
  have hrun : Lts.Run LoopStep SparesFired
      (startTimer 1, ⟨((startTimer 1).pq.head : List Job), 0, 0, 0⟩) _ :=
    .tail (a := .round [.register 20 .oneShot 0 0, .remove 2])
      (.tail (a := .call (.register 9 .oneShot 0 0))
        (.tail (a := .call (.register 5 .oneShot 0 0)) .refl trivial rfl) trivial rfl)
      (by
        intro job hjob x hx
        cases hjob
        rcases List.mem_cons.mp hx with rfl | hx
        · show 5 < _
          decide
        · obtain rfl := List.mem_singleton.mp hx
          show 2 ≠ 1
          decide)
      ⟨_, rfl, by decide, rfl⟩
  exact ⟨_, hrun, by decide, by decide, rounds_take_fired hrun⟩

theorem callback_runs_twice :
    ∃ b j, Lts.Run LoopStep Lts.anyStep (startTimer 1, ⟨0, 0, 0, 0⟩) b ∧ j.type = .oneShot ∧
      b.2.linked.count j = 1 ∧ b.2.fired.count j = 2 ∧ ¬ Balanced b := by
  refine ⟨_, ⟨1, 5, 5, .oneShot, 0, 0⟩, .tail (a := .round [.register 0 .oneShot 0 0])
      (.tail (a := .round [.register 0 .oneShot 0 0])
        (.tail (a := .call (.register 5 .oneShot 0 0)) .refl trivial rfl)
        trivial ⟨_, rfl, by decide, rfl⟩)
      trivial ⟨_, rfl, by decide, rfl⟩, rfl, by decide, by decide, by decide⟩

end SpaghettiOS.Clock
