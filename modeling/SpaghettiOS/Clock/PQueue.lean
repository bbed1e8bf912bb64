import Mathlib.Algebra.Ring.Nat
import Mathlib.Data.Multiset.AddSub
import Mathlib.Data.List.Sort

/-!
# The timer queue

The queue of `libclock/src/pqueue.c`.  The list of jobs is a Lean list, oldest link
first, and the counters keep their C widths by an explicit remainder.

The head case of `pqueue_push` compares with `<=` and the tail case with `<`, so a job
that ties with the last job of the queue and not with the head is linked nowhere.
-/

namespace SpaghettiOS.Clock

abbrev word32 : Nat := 2 ^ 32

abbrev word64 : Nat := 2 ^ 64

def pred32 (n : Nat) : Nat := if n = 0 then word32 - 1 else n - 1

@[simp] lemma pred32_succ (n : Nat) : pred32 (n + 1) = n := by
  simp [pred32]

inductive JobType where
  | periodic
  | oneShot
deriving DecidableEq, Repr

/-- `struct job` without its link. -/
structure Job where
  id : Nat
  delay : Nat
  tick : Nat
  type : JobType
  callback : Nat
  data : Nat
deriving DecidableEq, Repr

structure PQueue where
  size : Nat
  time : Nat
  head : List Job
deriving DecidableEq, Repr

def pqueueInit : PQueue := ⟨0, 0, []⟩

/-! ## Linking a job -/

/-- The `while` loop of `pqueue_push`, entered with `curr_job` at the first
element.  After the job is appended to the tail the C loop goes round once more
at the job itself, which is not below its own tick. -/
def linkLoop (new : Job) : List Job → List Job
  | [] => []
  | [curr] => if curr.tick < new.tick then [curr, new] else [curr]
  | curr :: next :: rest =>
      if next.tick > new.tick then curr :: new :: next :: rest
      else curr :: linkLoop new (next :: rest)

/-- The part of `pqueue_push` that links the new job into the list. -/
def linkJob (new : Job) : List Job → List Job
  | [] => [new]
  | head :: rest =>
      if new.tick ≤ head.tick then new :: head :: rest
      else linkLoop new (head :: rest)

/-- What `pqueue.c` and `clock.c` keep between calls. -/
structure ClockState where
  pq : PQueue
  nextJobId : Nat
  timerInitialised : Bool
deriving DecidableEq, Repr

def PQueue.tickOf (pq : PQueue) (delay : Nat) : Nat := (pq.time + delay) % word64

/-- The queue with a job of the given id.  The size is bumped before the job is
linked. -/
def PQueue.add (pq : PQueue) (id delay : Nat) (type : JobType) (callback data : Nat) : PQueue :=
  { pq with
    size := (pq.size + 1) % word32
    head := linkJob ⟨id, delay, pq.tickOf delay, type, callback, data⟩ pq.head }

/-- `pqueue_push`.  The id `0` asks for the next one of the counter. -/
def pqueuePush (c : ClockState) (id delay : Nat) (type : JobType) (callback data : Nat) :
    Nat × ClockState :=
  if id ≠ 0 then (id, { c with pq := c.pq.add id delay type callback data })
  else
    (c.nextJobId, { c with
        pq := c.pq.add c.nextJobId delay type callback data
        nextJobId := (c.nextJobId + 1) % word32 })

def pqueuePeek (c : ClockState) : Option Job := c.pq.head.head?

/-- `pqueue_pop`.  The head is unlinked, and a periodic job is pushed again
under its own id. -/
def pqueuePop (c : ClockState) : ClockState :=
  match c.pq.head with
  | [] => c
  | job :: rest =>
      let popped := { c with pq := { c.pq with size := pred32 c.pq.size, head := rest } }
      match job.type with
      | .periodic => (pqueuePush popped job.id job.delay job.type job.callback job.data).2
      | .oneShot => popped

/-- The list after the first job with the given id is unlinked, as the two
cases of `pqueue_remove` do, and `none` when no job has the id. -/
def unlinkJob (id : Nat) : List Job → Option (List Job)
  | [] => none
  | curr :: rest => if curr.id = id then some rest else (unlinkJob id rest).map (curr :: ·)

/-- `pqueue_remove`.  The flag is the return code, `true` for `CLOCK_R_OK`. -/
def pqueueRemove (c : ClockState) (id : Nat) : Bool × ClockState :=
  match unlinkJob id c.pq.head with
  | none => (false, c)
  | some rest => (true, { c with pq := { c.pq with size := pred32 c.pq.size, head := rest } })

/-! ## The job that is not linked -/

/-- A job at `tick` pushed on the list would tie with the last job, with no
queued job above it and the head below it. -/
def TailTie (tick : Nat) (jobs : List Job) : Prop :=
  (∃ h ∈ jobs.head?, h.tick < tick) ∧ (∃ l ∈ jobs.getLast?, l.tick = tick) ∧
    ∀ j ∈ jobs, j.tick ≤ tick

instance (tick : Nat) (jobs : List Job) : Decidable (TailTie tick jobs) :=
  inferInstanceAs (Decidable (_ ∧ _ ∧ _))

lemma linkLoop_perm (new : Job) : ∀ (h : Job) (t : List Job),
    ((∀ j ∈ t, j.tick ≤ new.tick) → ∀ l ∈ (h :: t).getLast?, l.tick < new.tick) →
    (linkLoop new (h :: t)).Perm (new :: h :: t)
  | h, [], hlast => by
    have hlt : h.tick < new.tick := hlast (by simp) h (by simp)
    simp only [linkLoop, hlt, if_true]
    exact List.Perm.swap new h []
  | h, next :: rest, hlast => by
    by_cases hn : next.tick > new.tick
    · simp only [linkLoop, hn, if_true]
      exact List.Perm.swap new h (next :: rest)
    · simp only [linkLoop, hn, if_false]
      have ih := linkLoop_perm new next rest (by
        intro hall l hl
        refine hlast ?_ l (by simpa using hl)
        intro j hj
        rcases List.mem_cons.mp hj with rfl | hj
        · omega
        · exact hall j hj)
      exact (ih.cons h).trans (List.Perm.swap new h (next :: rest))

lemma linkLoop_lost (new : Job) : ∀ (h : Job) (t : List Job),
    (∀ j ∈ t, j.tick ≤ new.tick) → (∀ l ∈ (h :: t).getLast?, ¬ l.tick < new.tick) →
    linkLoop new (h :: t) = h :: t
  | h, [], _, hlast => by
    have hge : ¬ h.tick < new.tick := hlast h (by simp)
    simp [linkLoop, hge]
  | h, next :: rest, hall, hlast => by
    have hn : ¬ next.tick > new.tick := by
      have := hall next (by simp)
      omega
    have ih := linkLoop_lost new next rest (fun j hj => hall j (by simp [hj]))
      (fun l hl => hlast l (by simpa using hl))
    simp only [linkLoop, hn, if_false, ih]

lemma linkJob_perm {new : Job} {jobs : List Job} (h : ¬ TailTie new.tick jobs) :
    (linkJob new jobs).Perm (new :: jobs) := by
  cases jobs with
  | nil => exact List.Perm.refl _
  | cons hd rest =>
    by_cases hle : new.tick ≤ hd.tick
    · simp only [linkJob, hle, if_true]
      exact List.Perm.refl _
    · simp only [linkJob, hle, if_false]
      apply linkLoop_perm
      intro hall l hl
      have hlmem : l ∈ hd :: rest := List.mem_of_getLast? hl
      have hlle : l.tick ≤ new.tick := by
        rcases List.mem_cons.mp hlmem with rfl | hm
        · omega
        · exact hall l hm
      by_contra hnlt
      refine h ⟨⟨hd, by simp, by omega⟩, ⟨l, hl, by omega⟩, ?_⟩
      intro j hj
      rcases List.mem_cons.mp hj with rfl | hm
      · omega
      · exact hall j hm

lemma linkJob_tailTie {new : Job} {jobs : List Job} (h : TailTie new.tick jobs) :
    linkJob new jobs = jobs := by
  obtain ⟨⟨hd, hhd, hlt⟩, ⟨l, hl, hle⟩, hall⟩ := h
  cases jobs with
  | nil => simp at hhd
  | cons a rest =>
    have ha : a = hd := by simpa using hhd
    subst ha
    have hnle : ¬ new.tick ≤ a.tick := by omega
    simp only [linkJob, hnle, if_false]
    apply linkLoop_lost
    · intro j hj
      exact hall j (by simp [hj])
    · intro l' hl'
      have : l' = l := Option.mem_unique hl' hl
      subst this
      omega

/-! ## Unlinking a job -/

lemma unlinkJob_none {id : Nat} : ∀ {jobs : List Job}, unlinkJob id jobs = none →
    jobs.find? (fun j => j.id == id) = none
  | [], _ => rfl
  | curr :: rest, h => by
    by_cases hid : curr.id = id
    · simp [unlinkJob, hid] at h
    · simp only [unlinkJob, hid, if_false, Option.map_eq_none_iff] at h
      simp [hid, unlinkJob_none h]

lemma unlinkJob_some {id : Nat} : ∀ {jobs rest : List Job}, unlinkJob id jobs = some rest →
    ∃ j, jobs.find? (fun j => j.id == id) = some j ∧ jobs.Perm (j :: rest)
  | [], _, h => by simp [unlinkJob] at h
  | curr :: tl, rest, h => by
    by_cases hid : curr.id = id
    · simp only [unlinkJob, hid, if_true, Option.some.injEq] at h
      subst h
      exact ⟨curr, by simp [hid], List.Perm.refl _⟩
    · simp only [unlinkJob, hid, if_false, Option.map_eq_some_iff] at h
      obtain ⟨tl', htl, rfl⟩ := h
      obtain ⟨j, hj, hp⟩ := unlinkJob_some htl
      exact ⟨j, by simp [hid, hj], (hp.cons curr).trans (List.Perm.swap j curr tl')⟩

end SpaghettiOS.Clock
