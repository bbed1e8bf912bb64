import Mathlib.Algebra.Order.Group.Multiset
import Mathlib.Tactic.Abel
import SpaghettiOS.Clock.PQueue
import SpaghettiOS.Lib.Run

/-!
# The timer interface

`register_timer`, `remove_timer` and `timer_interrupt` of `libclock/src/clock.c`.  A
callback is a function on the clock.  The loop of the interrupt handler need not end,
and its fuel only says how many rounds are looked at.

A *ledger* counts the jobs that were registered, removed and popped for good, and
`Conserved` says the list holds the rest, each job once.
-/

namespace SpaghettiOS.Clock

def tick10000Us : Nat := 10000

/-- The macro `ISINRANGE`, `x == MIN(MAX(x, a), b)`. -/
def isInRange (a x b : Nat) : Bool := x == min (max x a) b

/-- `start_timer`, as far as the queue is concerned.  The id counter is static
and lives on. -/
def startTimer (nextJobId : Nat) : ClockState := ⟨pqueueInit, nextJobId, true⟩

def registerTimer (c : ClockState) (delay : Nat) (type : JobType) (callback data : Nat) :
    Nat × ClockState :=
  pqueuePush c 0 delay type callback data

def removeTimer (c : ClockState) (id : Nat) : Bool × ClockState :=
  if c.timerInitialised then pqueueRemove c id else (false, c)

/-- The test of the loop in `timer_interrupt`. -/
def isDue (c : ClockState) (job : Job) : Bool :=
  isInRange c.pq.time job.tick ((c.pq.time + tick10000Us - 1) % word64)

/-- The loop of `timer_interrupt`, with the jobs whose callback it ran, in
order.  `none` means that the fuel did not last. -/
def interruptLoop (run : Job → ClockState → ClockState) :
    Nat → ClockState → Option (List Job × ClockState)
  | 0, _ => none
  | fuel + 1, c =>
      match pqueuePeek c with
      | none => some ([], c)
      | some job =>
          if isDue c job then
            (interruptLoop run fuel (pqueuePop (run job c))).map fun (fired, c') =>
              (job :: fired, c')
          else some ([], c)

def timerInterrupt (run : Job → ClockState → ClockState) (fuel : Nat) (c : ClockState) :
    Option (List Job × ClockState) :=
  if c.timerInitialised then
    (interruptLoop run fuel c).map fun (fired, c') =>
      (fired, { c' with pq := { c'.pq with time := (c'.pq.time + tick10000Us) % word64 } })
  else some ([], c)

def quiet (_ : Job) (c : ClockState) : ClockState := c

/-! ## The ledger of jobs -/

/-- A job as its owner knows it.  The tick is left out, since a periodic job
gets a new one at every pop. -/
structure JobInfo where
  id : Nat
  delay : Nat
  type : JobType
  callback : Nat
  data : Nat
deriving DecidableEq, Repr

def Job.info (j : Job) : JobInfo := ⟨j.id, j.delay, j.type, j.callback, j.data⟩

structure Ledger where
  registered : Multiset JobInfo
  removed : Multiset JobInfo
  popped : Multiset JobInfo
deriving DecidableEq

def Ledger.empty : Ledger := ⟨0, 0, 0⟩

def oneShots (fired : List Job) : Multiset JobInfo :=
  ((fired.filter (fun j => j.type = .oneShot)).map Job.info : List JobInfo)

@[simp] lemma oneShots_nil : oneShots [] = 0 := rfl

lemma oneShots_cons_oneShot {j : Job} {fired : List Job} (h : j.type = .oneShot) :
    oneShots (j :: fired) = j.info ::ₘ oneShots fired := by
  simp [oneShots, h]

lemma oneShots_cons_periodic {j : Job} {fired : List Job} (h : j.type = .periodic) :
    oneShots (j :: fired) = oneShots fired := by
  simp [oneShots, h]

/-- The list holds each job that is registered and neither removed nor popped
for good, as often as it was registered, and the size counts the list. -/
def Conserved (c : ClockState) (l : Ledger) : Prop :=
  ((c.pq.head.map Job.info : List JobInfo) : Multiset JobInfo) + l.removed + l.popped
      = l.registered ∧ c.pq.size = c.pq.head.length

instance (c : ClockState) (l : Ledger) : Decidable (Conserved c l) :=
  inferInstanceAs (Decidable (_ ∧ _))

/-! ## Runs of the interface -/

inductive TimerOp where
  | register (delay : Nat) (type : JobType) (callback data : Nat)
  | remove (id : Nat)
  | interrupt

/-- One call, with callbacks that leave the queue alone.  An interrupt whose
loop does not end has no step. -/
def TimerStep : ClockState × Ledger → TimerOp → ClockState × Ledger → Prop
  | (c, l), .register delay type callback data, s' =>
      let r := registerTimer c delay type callback data
      s' = (r.2, { l with registered := ⟨r.1, delay, type, callback, data⟩ ::ₘ l.registered })
  | (c, l), .remove id, s' =>
      s' = ((removeTimer c id).2, { l with removed :=
            (((c.pq.head.find? (fun j => j.id == id)).map Job.info).toList : Multiset JobInfo)
              + l.removed })
  | (c, l), .interrupt, s' =>
      ∃ fuel fired c', timerInterrupt quiet fuel c = some (fired, c') ∧
        s' = (c', { l with popped := oneShots fired + l.popped })

/-- No job that the loop pushes back ties at the tail of the queue it is pushed
on. -/
def NoTieInLoop : Nat → ClockState → Prop
  | 0, _ => True
  | fuel + 1, c =>
      match c.pq.head with
      | [] => True
      | job :: rest =>
          isDue c job = true → (job.type = .periodic → ¬ TailTie (c.pq.tickOf job.delay) rest) ∧
              NoTieInLoop fuel (pqueuePop c)

/-- The calls after which no job is lost. A registered job does not tie at the tail and gets an
id other than `0`, the counter of the queue has room, and no job an interrupt pushes back ties
at the tail. -/
def KeepsJobs : ClockState × Ledger → TimerOp → Prop
  | (c, _), .register delay _ _ _ =>
      ¬ TailTie (c.pq.tickOf delay) c.pq.head ∧ c.nextJobId ≠ 0 ∧ c.pq.head.length + 1 < word32
  | _, .remove _ => True
  | (c, _), .interrupt => ∀ fuel, NoTieInLoop fuel c

/-! ## What one call does to the jobs -/

/-- The invariant of a run.  The ids are there for the periodic jobs, which a
pop pushes back under their own id only when it is not `0`. -/
structure JobsKept (c : ClockState) (l : Ledger) : Prop where
  conserved : Conserved c l
  idsSet : ∀ j ∈ c.pq.head, j.id ≠ 0
  small : c.pq.head.length < word32

lemma PQueue.add_perm (pq : PQueue) (id delay : Nat) (type : JobType) (callback data : Nat)
    (h : ¬ TailTie (pq.tickOf delay) pq.head) : (pq.add id delay type callback data).head.Perm
      (⟨id, delay, pq.tickOf delay, type, callback, data⟩ :: pq.head) :=
  linkJob_perm h

variable {c : ClockState} {l : Ledger}

lemma JobsKept.register (h : JobsKept c l) {delay : Nat} {type : JobType} {callback data : Nat}
    (htie : ¬ TailTie (c.pq.tickOf delay) c.pq.head) (hid : c.nextJobId ≠ 0)
    (hroom : c.pq.head.length + 1 < word32) :
    JobsKept (registerTimer c delay type callback data).2
      { l with registered :=
          ⟨(registerTimer c delay type callback data).1, delay, type, callback, data⟩
            ::ₘ l.registered } := by
  obtain ⟨⟨hjobs, hsize⟩, hids, _⟩ := h
  have hp := PQueue.add_perm c.pq c.nextJobId delay type callback data htie
  have hlen : (c.pq.add c.nextJobId delay type callback data).head.length
      = c.pq.head.length + 1 := by simpa using hp.length_eq
  simp only [registerTimer, pqueuePush, ne_eq, not_true_eq_false, if_false]
  refine ⟨⟨?_, ?_⟩, ?_, ?_⟩
  · have hq := Multiset.coe_eq_coe.mpr (hp.map Job.info)
    simp only at hq ⊢
    rw [hq, ← hjobs, List.map_cons, ← Multiset.cons_coe]
    simp only [Job.info, Multiset.cons_add]
  · simp only [hlen]
    simp only [PQueue.add, hsize]
    exact Nat.mod_eq_of_lt hroom
  · intro j hj
    rcases List.mem_cons.mp (hp.mem_iff.mp hj) with rfl | hm
    · exact hid
    · exact hids j hm
  · simp only [hlen]
    exact hroom

lemma JobsKept.remove (h : JobsKept c l) (hinit : c.timerInitialised = true) (id : Nat) :
    JobsKept (removeTimer c id).2
      { l with removed :=
          (((c.pq.head.find? (fun j => j.id == id)).map Job.info).toList : Multiset JobInfo)
            + l.removed } := by
  obtain ⟨⟨hjobs, hsize⟩, hids, hsmall⟩ := h
  simp only [removeTimer, hinit, if_true, pqueueRemove]
  cases hu : unlinkJob id c.pq.head with
  | none =>
    refine ⟨⟨?_, hsize⟩, hids, hsmall⟩
    simpa [unlinkJob_none hu] using hjobs
  | some rest =>
    obtain ⟨j, hfind, hp⟩ := unlinkJob_some hu
    have hlen : c.pq.head.length = rest.length + 1 := by simpa using hp.length_eq
    refine ⟨⟨?_, ?_⟩, ?_, ?_⟩
    · have hq := Multiset.coe_eq_coe.mpr (hp.map Job.info)
      rw [hq, List.map_cons, ← Multiset.cons_coe] at hjobs
      rw [← hjobs, hfind]
      simp only [Option.map_some, Option.toList_some, Multiset.coe_singleton,
        ← Multiset.singleton_add]
      abel
    · simp only [hsize, hlen, pred32_succ]
    · intro k hk
      exact hids k (hp.mem_iff.mpr (by simp [hk]))
    · simp only
      omega

/-! ## What an interrupt does to the jobs -/

lemma JobsKept.pop (h : JobsKept c l) {job : Job} {rest : List Job}
    (hhead : c.pq.head = job :: rest)
    (htie : job.type = .periodic → ¬ TailTie (c.pq.tickOf job.delay) rest) :
    JobsKept (pqueuePop c) { l with popped := oneShots [job] + l.popped } := by
  obtain ⟨⟨hjobs, hsize⟩, hids, hsmall⟩ := h
  rw [hhead] at hjobs hsize hids hsmall
  have hpop : pred32 c.pq.size = rest.length := by
    rw [hsize, List.length_cons, pred32_succ]
  have hjid : job.id ≠ 0 := hids job (by simp)
  cases htype : job.type with
  | oneShot =>
    simp only [pqueuePop, hhead, htype]
    refine ⟨⟨?_, hpop⟩, fun j hj => hids j (by simp [hj]), ?_⟩
    · rw [← hjobs, oneShots_cons_oneShot htype, List.map_cons, ← Multiset.cons_coe]
      simp only [oneShots_nil, ← Multiset.singleton_add]
      abel
    · simp only [List.length_cons] at hsmall
      simp only
      omega
  | periodic =>
    simp only [pqueuePop, hhead, htype, pqueuePush, ne_eq, hjid, not_false_eq_true, if_true]
    have hp := PQueue.add_perm { c.pq with size := pred32 c.pq.size, head := rest }
      job.id job.delay .periodic job.callback job.data (htie htype)
    refine ⟨⟨?_, ?_⟩, ?_, ?_⟩
    · have hq := Multiset.coe_eq_coe.mpr (hp.map Job.info)
      rw [hq, ← hjobs, oneShots_cons_periodic htype]
      simp only [oneShots_nil, zero_add, List.map_cons, Job.info, htype]
    · have hlen := hp.length_eq
      rw [hlen]
      simp only [PQueue.add, hpop, List.length_cons]
      exact Nat.mod_eq_of_lt (by simpa using hsmall)
    · intro j hj
      rcases List.mem_cons.mp (hp.mem_iff.mp hj) with rfl | hm
      · exact hjid
      · exact hids j (by simpa using .inr hm)
    · have hlen := hp.length_eq
      rw [hlen]
      simpa using hsmall

lemma JobsKept.interruptLoop : ∀ (fuel : Nat) {c : ClockState} {l : Ledger}
    {fired : List Job} {c' : ClockState}, JobsKept c l → NoTieInLoop fuel c →
    Clock.interruptLoop quiet fuel c = some (fired, c') →
    JobsKept c' { l with popped := oneShots fired + l.popped }
  | 0, _, _, _, _, _, _, hrun => by simp [Clock.interruptLoop] at hrun
  | fuel + 1, c, l, fired, c', h, hok, hrun => by
    cases hhead : c.pq.head with
    | nil =>
      simp only [Clock.interruptLoop, pqueuePeek, hhead, List.head?_nil, Option.some.injEq,
        Prod.mk.injEq] at hrun
      obtain ⟨rfl, rfl⟩ := hrun
      simpa [oneShots] using h
    | cons job rest =>
      simp only [Clock.interruptLoop, pqueuePeek, hhead, List.head?_cons, quiet] at hrun
      by_cases hdue : isDue c job = true
      · simp only [hdue, if_true, Option.map_eq_some_iff, Prod.mk.injEq, Prod.exists] at hrun
        obtain ⟨fired', c'', hrun', rfl, rfl⟩ := hrun
        simp only [NoTieInLoop, hhead] at hok
        obtain ⟨htie, hrest⟩ := hok hdue
        have h1 := JobsKept.interruptLoop fuel (h.pop hhead htie) hrest hrun'
        have hsplit : oneShots (job :: fired') = oneShots fired' + oneShots [job] := by
          cases ht : job.type with
          | oneShot =>
            rw [oneShots_cons_oneShot ht, oneShots_cons_oneShot ht, oneShots_nil]
            simp only [← Multiset.singleton_add]
            abel
          | periodic =>
            rw [oneShots_cons_periodic ht, oneShots_cons_periodic ht, oneShots_nil, add_zero]
        simpa only [hsplit, add_assoc] using h1
      · simp only [hdue, Bool.false_eq_true, if_false, Option.some.injEq, Prod.mk.injEq] at hrun
        obtain ⟨rfl, rfl⟩ := hrun
        simpa [oneShots] using h

lemma JobsKept.advance (h : JobsKept c l) (time : Nat) :
    JobsKept { c with pq := { c.pq with time := time } } l :=
  ⟨h.conserved, h.idsSet, h.small⟩

lemma removeTimer_timerInitialised (c : ClockState) (id : Nat) :
    (removeTimer c id).2.timerInitialised = c.timerInitialised := by
  simp only [removeTimer, pqueueRemove]
  cases unlinkJob id c.pq.head <;> split <;> rfl

lemma pqueuePop_keeps (c : ClockState) :
    (pqueuePop c).timerInitialised = c.timerInitialised ∧ (pqueuePop c).pq.time = c.pq.time := by
  cases hhead : c.pq.head with
  | nil => simp only [pqueuePop, hhead, and_self]
  | cons job rest =>
    cases htype : job.type with
    | oneShot => simp only [pqueuePop, hhead, htype, and_self]
    | periodic =>
      simp only [pqueuePop, hhead, htype, pqueuePush]
      split
      · exact ⟨rfl, rfl⟩
      · exact ⟨rfl, rfl⟩

lemma pqueuePop_timerInitialised (c : ClockState) :
    (pqueuePop c).timerInitialised = c.timerInitialised :=
  (pqueuePop_keeps c).1

lemma pqueuePop_time (c : ClockState) : (pqueuePop c).pq.time = c.pq.time := (pqueuePop_keeps c).2

lemma interruptLoop_timerInitialised : ∀ (fuel : Nat) {c c' : ClockState} {fired : List Job},
    interruptLoop quiet fuel c = some (fired, c') → c'.timerInitialised = c.timerInitialised
  | 0, _, _, _, hrun => by simp [interruptLoop] at hrun
  | fuel + 1, c, c', fired, hrun => by
    cases hhead : pqueuePeek c with
    | none =>
      simp only [interruptLoop, hhead, Option.some.injEq, Prod.mk.injEq] at hrun
      rw [hrun.2]
    | some job =>
      simp only [interruptLoop, hhead, quiet] at hrun
      split at hrun
      · simp only [Option.map_eq_some_iff, Prod.mk.injEq, Prod.exists] at hrun
        obtain ⟨fired', c'', hrun', rfl, rfl⟩ := hrun
        rw [interruptLoop_timerInitialised fuel hrun', pqueuePop_timerInitialised]
      · simp only [Option.some.injEq, Prod.mk.injEq] at hrun
        rw [hrun.2]

lemma JobsKept.step {s s' : ClockState × Ledger} {op : TimerOp}
    (h : JobsKept s.1 s.2 ∧ s.1.timerInitialised = true) (hok : KeepsJobs s op)
    (hstep : TimerStep s op s') : JobsKept s'.1 s'.2 ∧ s'.1.timerInitialised = true := by
  obtain ⟨hkept, hinit⟩ := h
  cases op with
  | register delay type callback data =>
    obtain ⟨htie, hid, hroom⟩ := hok
    subst hstep
    refine ⟨hkept.register htie hid hroom, ?_⟩
    simpa [registerTimer, pqueuePush] using hinit
  | remove id =>
    subst hstep
    refine ⟨hkept.remove hinit id, ?_⟩
    rw [removeTimer_timerInitialised, hinit]
  | interrupt =>
    obtain ⟨fuel, fired, c', hrun, rfl⟩ := hstep
    simp only [timerInterrupt, hinit, if_true, Option.map_eq_some_iff, Prod.mk.injEq,
      Prod.exists] at hrun
    obtain ⟨fired', c'', hloop, rfl, rfl⟩ := hrun
    refine ⟨(JobsKept.interruptLoop fuel hkept (hok fuel) hloop).advance _, ?_⟩
    rw [interruptLoop_timerInitialised fuel hloop, hinit]

/-- After `start_timer`, in every run whose calls meet `KeepsJobs`, the queue
holds exactly the jobs that are registered and neither removed nor popped for
good, and the size is their number. -/
theorem jobs_conserved {nextJobId : Nat} {s : ClockState × Ledger}
    (hrun : Lts.Run TimerStep KeepsJobs (startTimer nextJobId, Ledger.empty) s) :
    Conserved s.1 s.2 := by
  have hstart : JobsKept (startTimer nextJobId) Ledger.empty :=
    ⟨⟨rfl, rfl⟩, by simp [startTimer, pqueueInit], by simp [startTimer, pqueueInit, word32]⟩
  have h : JobsKept s.1 s.2 ∧ s.1.timerInitialised = true :=
    hrun.invariant (I := fun s => JobsKept s.1 s.2 ∧ s.1.timerInitialised = true)
      ⟨hstart, rfl⟩ JobsKept.step
  exact h.1.conserved

theorem jobs_not_conserved :
    ∃ s, Lts.Run TimerStep Lts.anyStep (startTimer 1, Ledger.empty) s ∧ ¬ Conserved s.1 s.2 := by
  refine ⟨_, .tail (a := .register 5 .oneShot 0 0) (.tail (a := .register 5 .oneShot 0 0)
    (.tail (a := .register 0 .oneShot 0 0) .refl trivial rfl) trivial rfl) trivial rfl, ?_⟩
  decide

theorem jobs_conserved_two :
    ∃ s, Lts.Run TimerStep KeepsJobs (startTimer 1, Ledger.empty) s ∧
      Conserved s.1 s.2 ∧ s.1.pq.head.map Job.id = [2] := by
  have hrun : Lts.Run TimerStep KeepsJobs (startTimer 1, Ledger.empty) _ :=
    .tail (a := .interrupt) (.tail (a := .register 20000 .periodic 0 0)
      (.tail (a := .register 0 .oneShot 0 0) .refl ⟨by decide, by decide, by decide⟩ rfl)
      ⟨by decide, by decide, by decide⟩ rfl)
      (by
        intro fuel
        cases fuel with
        | zero => trivial
        | succ fuel =>
            intro _
            refine ⟨by decide, ?_⟩
            cases fuel with
            | zero => trivial
            | succ fuel =>
                intro hdue
                exact absurd hdue (by decide))
      ⟨2, _, _, rfl, rfl⟩
  exact ⟨_, hrun, jobs_conserved hrun, by decide⟩

end SpaghettiOS.Clock
