import Mathlib.Data.List.Pairwise
import SpaghettiOS.Clock.Callbacks

/-!
# The ids of timers

`register_timer` takes an id from a counter of 32 bits that nobody compares with the
jobs on the queue.  The timer after the first 2^32 - 1 gets 0, which `remove_timer` and
`pqueue_push` take for no id, and after that the ids come round.

A call made by a callback is a step of its own here.
-/

namespace SpaghettiOS.Clock

/-- A call, from a callback or from outside, the pop behind a callback, and the step of
the clock. -/
inductive IdOp where
  | call (x : ApiCall)
  | pop
  | tick
deriving DecidableEq, Repr

def ApiCall.logged (c : ClockState) : ApiCall → List JobInfo
  | .register delay type callback data =>
      [⟨(registerTimer c delay type callback data).1, delay, type, callback, data⟩]
  | .remove _ => []

def IdStep (s : ClockState × List JobInfo) : IdOp → ClockState × List JobInfo → Prop
  | .call x, s' => s' = (x.run s.1, x.logged s.1 ++ s.2)
  | .pop, s' => s' = (pqueuePop s.1, s.2)
  | .tick, s' =>
      s' = ({ s.1 with pq := { s.1.pq with time := (s.1.pq.time + tick10000Us) % word64 } }, s.2)

/-- Registrations do as they should: the next id is not 0 and not the id of a job on the
queue, and an id that was given to a registration names no other job. -/
structure UniqueIds (s : ClockState × List JobInfo) : Prop where
  registers : s.1.nextJobId ≠ 0 ∧ ∀ j ∈ s.1.pq.head, j.id ≠ s.1.nextJobId
  removes : ∀ r ∈ s.2, ∀ j ∈ s.1.pq.head, j.id = r.id → j.info = r

/-! ## As long as the counter has not come round -/

/-- The counter has counted the registrations, and every job on the queue is one of them
under its own id. -/
structure Numbered (s : ClockState × List JobInfo) : Prop where
  counter : s.1.nextJobId = (s.2.length + 1) % word32
  ids : ∀ r ∈ s.2, 0 < r.id ∧ r.id ≤ s.2.length
  distinct : s.2.Pairwise fun r r' => r.id ≠ r'.id
  queued : ∀ j ∈ s.1.pq.head, j.info ∈ s.2

section Numbered

variable {c : ClockState} {log : List JobInfo}

lemma Numbered.register (h : Numbered (c, log)) (hlog : log.length + 1 < word32)
    (delay : Nat) (type : JobType) (callback data : Nat) :
    Numbered ((registerTimer c delay type callback data).2,
      ⟨(registerTimer c delay type callback data).1, delay, type, callback, data⟩ :: log) := by
  have hid : c.nextJobId = log.length + 1 := h.counter.trans (Nat.mod_eq_of_lt hlog)
  simp only [registerTimer, pqueuePush, ne_eq, not_true_eq_false, if_false]
  refine ⟨?_, fun r hr => ?_, List.pairwise_cons.mpr ⟨fun r hr => ?_, h.distinct⟩, fun j hj => ?_⟩
  · simp only [List.length_cons, hid]
  · simp only [List.length_cons]
    rcases List.mem_cons.mp hr with rfl | hr
    · exact ⟨by simp only [hid]; omega, by simp only [hid]; omega⟩
    · have hold := h.ids r hr
      simp only at hold
      omega
  · have hold := h.ids r hr
    simp only at hold ⊢
    omega
  · rcases mem_linkJob hj with rfl | hj
    · exact List.mem_cons_self
    · exact List.mem_cons_of_mem _ (h.queued j hj)

lemma Numbered.of_queue {c' : ClockState} (h : Numbered (c, log))
    (hcounter : c'.nextJobId = c.nextJobId)
    (hqueue : ∀ j ∈ c'.pq.head, ∃ j' ∈ c.pq.head, j.info = j'.info) : Numbered (c', log) := by
  refine ⟨hcounter.trans h.counter, h.ids, h.distinct, fun j hj => ?_⟩
  obtain ⟨j', hj', hinfo⟩ := hqueue j hj
  rw [hinfo]
  exact h.queued j' hj'

lemma Numbered.remove (h : Numbered (c, log)) (id : Nat) :
    Numbered ((removeTimer c id).2, log) := by
  simp only [removeTimer, pqueueRemove]
  split
  · cases hrest : unlinkJob id c.pq.head with
    | none => exact h
    | some rest =>
      obtain ⟨job, -, hperm⟩ := unlinkJob_some hrest
      exact h.of_queue rfl fun j hj =>
        ⟨j, hperm.mem_iff.mpr (List.mem_cons_of_mem _ hj), rfl⟩
  · exact h

lemma Numbered.pop (h : Numbered (c, log)) : Numbered (pqueuePop c, log) := by
  cases hhead : c.pq.head with
  | nil => simpa only [pqueuePop, hhead] using h
  | cons job rest =>
    have hjob : job ∈ c.pq.head := hhead ▸ List.mem_cons_self
    have hrest : ∀ j ∈ rest, j ∈ c.pq.head := fun j hj => hhead ▸ List.mem_cons_of_mem _ hj
    have hid : job.id ≠ 0 := Nat.pos_iff_ne_zero.mp (h.ids _ (h.queued job hjob)).1
    cases htype : job.type with
    | oneShot =>
      simp only [pqueuePop, hhead, htype]
      exact h.of_queue rfl fun j hj => ⟨j, hrest j hj, rfl⟩
    | periodic =>
      simp only [pqueuePop, hhead, htype, pqueuePush, ne_eq, hid, not_false_eq_true, if_true]
      refine h.of_queue rfl fun j hj => ?_
      rcases mem_linkJob hj with rfl | hj
      · exact ⟨job, hjob, by simp only [Job.info, htype]⟩
      · exact ⟨j, hrest j hj, rfl⟩

lemma Numbered.step {s s' : ClockState × List JobInfo} {op : IdOp}
    (h : s.2.length < word32 → Numbered s) (hstep : IdStep s op s') :
    s'.2.length < word32 → Numbered s' := by
  obtain ⟨c, log⟩ := s
  intro hlen
  cases op with
  | call x =>
    subst hstep
    cases x with
    | register delay type callback data =>
      have hlog : log.length + 1 < word32 := hlen
      exact (h (by simp only; omega)).register hlog delay type callback data
    | remove id => exact (h hlen).remove id
  | pop =>
    subst hstep
    exact (h hlen).pop
  | tick =>
    subst hstep
    exact (h hlen).of_queue rfl fun j hj => ⟨j, hj, rfl⟩

lemma Numbered.run {s : ClockState × List JobInfo}
    (hrun : Lts.Run IdStep Lts.anyStep (startTimer 1, []) s) :
    s.2.length < word32 → Numbered s := by
  refine hrun.invariant (I := fun s => s.2.length < word32 → Numbered s) (fun _ => ?_)
    fun h _ hstep => Numbered.step h hstep
  exact ⟨rfl, nofun, .nil, nofun⟩

lemma Numbered.uniqueIds {s : ClockState × List JobInfo} (h : Numbered s)
    (hlen : s.2.length + 1 < word32) : UniqueIds s := by
  have hid : s.1.nextJobId = s.2.length + 1 := h.counter.trans (Nat.mod_eq_of_lt hlen)
  refine ⟨⟨by omega, fun j hj => ?_⟩, fun r hr j hj hjr => ?_⟩
  · have hold : j.id ≤ s.2.length := (h.ids _ (h.queued j hj)).2
    omega
  · by_contra hne
    have : Std.Symm fun r r' : JobInfo => r.id ≠ r'.id := ⟨fun _ _ h => h.symm⟩
    exact h.distinct.forall (h.queued j hj) hr hne hjr

end Numbered

/-! ## When it comes round -/

/-- A queue with one periodic job that is due after the first period, and the counter at
the given number. -/
def longLived (nextJobId : Nat) : ClockState :=
  ⟨⟨1, 0, [⟨1, 10000, 10000, .periodic, 0, 0⟩]⟩, nextJobId, true⟩

lemma longLived_next (v : Nat) (log : List JobInfo) {s : ClockState × List JobInfo}
    (hrun : Lts.Run IdStep Lts.anyStep s (longLived v, log)) :
    ∃ log', log'.length = log.length + 1 ∧
      Lts.Run IdStep Lts.anyStep s (longLived ((v + 1) % word32), log') := by
  have hregister : Lts.Run IdStep Lts.anyStep s
      ((ApiCall.register 0 .oneShot 0 0).run (longLived v), ⟨v, 0, .oneShot, 0, 0⟩ :: log) :=
    .tail (a := .call (.register 0 .oneShot 0 0)) hrun trivial rfl
  refine ⟨⟨v, 0, .oneShot, 0, 0⟩ :: log, List.length_cons,
    .tail (a := .call (.remove v)) hregister trivial ?_⟩
  simp [IdStep, ApiCall.run, ApiCall.logged, removeTimer, registerTimer, pqueuePush, pqueueRemove,
    longLived, PQueue.add, PQueue.tickOf, linkJob, unlinkJob, pred32, word32]

lemma longLived_run (k : Nat) : ∃ log : List JobInfo, log.length = k + 1 ∧
    Lts.Run IdStep Lts.anyStep (startTimer 1, []) (longLived ((k + 2) % word32), log) := by
  induction k with
  | zero =>
    exact ⟨_, rfl, .tail (a := .call (.register 10000 .periodic 0 0)) .refl trivial rfl⟩
  | succ k ih =>
    obtain ⟨log, hlen, hrun⟩ := ih
    obtain ⟨log', hlen', hrun'⟩ := longLived_next _ log hrun
    refine ⟨log', by omega, ?_⟩
    rwa [Nat.mod_add_mod] at hrun'

theorem id_given_twice : ∃ c log, Lts.Run IdStep Lts.anyStep (startTimer 1, []) (c, log) ∧
    ∃ j ∈ c.pq.head, j.type = .periodic ∧ (registerTimer c 0 .oneShot 0 0).1 = j.id := by
  obtain ⟨log, -, hrun⟩ := longLived_run (word32 - 1)
  exact ⟨_, log, hrun, _, List.mem_cons_self, rfl, rfl⟩

/-- The first `n` registrations of every run get ids that are unique and not 0 exactly if
`n` is below 2^32. -/
theorem uniqueIds_iff (n : Nat) :
    (∀ s, Lts.Run IdStep Lts.anyStep (startTimer 1, []) s → s.2.length < n → UniqueIds s) ↔
      n < word32 := by
  constructor
  · intro h
    by_contra hn
    obtain ⟨log, hlen, hrun⟩ := longLived_run (word32 - 2)
    have hfirst : log.length < n := by
      rw [hlen]
      exact lt_of_lt_of_le (by decide) (not_lt.mp hn)
    exact (h _ hrun hfirst).registers.1 rfl
  · intro hn s hrun hlen
    exact (Numbered.run hrun (by omega)).uniqueIds (by omega)

end SpaghettiOS.Clock
