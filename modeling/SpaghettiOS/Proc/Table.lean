import SpaghettiOS.Proc.Syscalls

/-!
# What holds of the table in every run

Whatever the processes do, the table and the structures agree, a process that is
`WAITING` is the one its `wake_co` works for, and `coro_count` counts the suspended
coroutines it is meant to count.

In the middle of a stretch the fields of the process it is about can be out of step; the
index of `Sound` says which process that is.
-/

namespace SpaghettiOS.Process

open Fs (ProcState)
open Coroutine (Res)
open Function (update update_of_ne update_self)

/-! ## Stretches -/

variable {co : Nat} {job : Job} {child : Int}

section Stretch

variable {α β : Type} {m : Machine} {s : ProcSys} {i : Nat} {pid : Int} {P : ProcSys → Prop}
variable {Q : α → ProcSys → Prop}

/-- If the stretch comes to its end, it does so as `Q` says. -/
abbrev Ends (x : Res ProcSys Empty Empty Stop α) (Q : α → ProcSys → Prop) : Prop :=
  x.Ends (fun i _ _ _ => nomatch i) Q

def Keeps (P : ProcSys → Prop) (x : ProcM α) : Prop := ∀ s, P s → Ends (x s) fun _ t => P t

lemma procGet_bind {f : Option Nat → ProcSys → Res ProcSys Empty Empty Stop α}
    (h : ∀ i, s.procs pid = i → Ends (f i s) Q) : Ends ((procGet pid s).bind f) Q := by
  refine Res.Ends.bind (Q := fun i t => t = s ∧ s.procs pid = i) ?_ ?_
  · exact Res.Ends.check_bind fun _ => ⟨rfl, rfl⟩
  · rintro i _ ⟨rfl, hi⟩
    exact h i hi

lemma procAt_bind {f : Nat → ProcSys → Res ProcSys Empty Empty Stop α}
    (h : ∀ i, s.procs pid = some i → Ends (f i s) Q) : Ends ((procAt pid s).bind f) Q := by
  refine Res.Ends.bind (Q := fun i t => t = s ∧ s.procs pid = some i) ?_ ?_
  · refine procGet_bind fun i hi => ?_
    cases i with
    | none => trivial
    | some i => exact ⟨rfl, hi⟩
  · rintro i _ ⟨rfl, hi⟩
    exact h i hi

lemma deref_bind {f : Proc → ProcSys → Res ProcSys Empty Empty Stop α}
    (h : ∀ p, s.heap i = some p → Ends (f p s) Q) : Ends ((deref i s).bind f) Q := by
  refine Res.Ends.bind (Q := fun p t => t = s ∧ s.heap i = some p) ?_ ?_
  · simp only [deref, Coro.bind_apply, Coro.get_apply, Res.bind]
    cases hp : s.heap i with
    | none => trivial
    | some p => exact ⟨rfl, rfl⟩
  · rintro p _ ⟨rfl, hp⟩
    exact h p hp

lemma holdProc_bind {f : Nat → ProcSys → Res ProcSys Empty Empty Stop α}
    (h : ∀ i, s.procs pid = some i → Ends (f i s) Q) : Ends ((holdProc pid s).bind f) Q := by
  refine Res.Ends.bind (Q := fun i t => t = s ∧ s.procs pid = some i) ?_ ?_
  · exact procAt_bind fun i hi => deref_bind fun p hp => Res.Ends.check_bind fun _ => ⟨rfl, hi⟩
  · rintro i _ ⟨rfl, hi⟩
    exact h i hi

lemma Keeps.discard {x : ProcM α} (hx : Keeps P x) : Keeps P (Functor.discard x) :=
  fun s hs => (hx s hs).bind fun _ _ ht => ht

lemma Keeps.forM {f : β → ProcM PUnit} (l : List β) (hf : ∀ b, Keeps P (f b)) :
    Keeps P (l.forM f) := by
  induction l with
  | nil => exact fun _ hs => hs
  | cons b l ih => exact fun s hs => (hf b s hs).bind fun _ t ht => ih t ht

def tick (s : ProcSys) : ProcSys := { s with mallocs := s.mallocs + 1 }

lemma procWaitListAdd_ends {q : Int} {Q : Int → ProcSys → Prop}
    (hno : m.malloc s.mallocs = false → Q (-1) (tick s))
    (hyes : ∀ i, s.procs pid = some i → Q 0 ((tick s).addNode i ⟨pid, q⟩)) :
    Ends (procWaitListAdd m pid q s) Q := by
  simp only [procWaitListAdd, mallocNode, Coro.bind_apply, Coro.get_apply, Coro.set_apply,
    Coro.pure_apply, Res.bind]
  cases hm : m.malloc s.mallocs with
  | false => exact hno hm
  | true => exact procAt_bind (s := tick s) fun i hi => hyes i hi

lemma addChild_ends {Q : Int → ProcSys → Prop} (hno : m.malloc s.mallocs = false → Q (-1) (tick s))
    (hyes : ∀ i, s.procs pid = some i → Q 0 ((tick s).adopt i child)) :
    Ends (addChild m pid child s) Q := by
  simp only [addChild, mallocNode, Coro.bind_apply, Coro.get_apply, Coro.set_apply,
    Coro.pure_apply, Res.bind]
  cases hm : m.malloc s.mallocs with
  | false => exact hno hm
  | true => exact procAt_bind (s := tick s) fun i hi => hyes i hi

lemma reparent_ends {Q : ProcSys → Prop} (hnone : s.procs child = none → Q s)
    (hsome : ∀ j, s.procs child = some j → ∀ t,
      m.malloc s.mallocs = false ∧ t = tick s ∨ t = (tick s).addNode j ⟨child, initProc⟩ →
      (m.malloc t.mallocs = false → Q (tick t)) ∧
        ∀ k, t.procs initProc = some k → Q ((tick t).adopt k child)) :
    Ends (reparent m child s) fun _ => Q := by
  refine procGet_bind fun j hj => ?_
  cases j with
  | none => exact hnone hj
  | some j => ?_
  refine Res.Ends.bind (Q := fun _ t => (m.malloc t.mallocs = false → Q (tick t)) ∧
    ∀ k, t.procs initProc = some k → Q ((tick t).adopt k child)) ?_ fun _ t ht => ?_
  · refine procWaitListAdd_ends (fun hm => hsome j hj _ (.inl ⟨hm, rfl⟩)) fun i hi => ?_
    obtain rfl : j = i := Option.some.inj (hj.symm.trans hi)
    exact hsome j hj _ (.inr rfl)
  · refine Res.Ends.bind (Q := fun _ => Q) ?_ fun _ _ hu => hu
    exact addChild_ends ht.1 ht.2

/-- A property that does not mind what is put on the wait lists. -/
structure NodeSafe (P : ProcSys → Prop) : Prop where
  malloc : ∀ {s} k, P s → P { s with mallocs := k }
  node : ∀ {s pid i} q, P s → s.procs pid = some i → P (s.addNode i ⟨pid, q⟩)

section NodeSafe

variable (hP : NodeSafe P)

include hP

lemma procWaitListAdd_keeps (pid q : Int) : Keeps P (procWaitListAdd m pid q) :=
  fun _ hs => procWaitListAdd_ends (fun _ => hP.malloc _ hs) fun _ hi =>
    hP.node q (hP.malloc _ hs) hi

lemma waitAllChild_keeps (parent : Int) : Keeps P (waitAllChild m parent) := by
  intro s hs
  refine procAt_bind fun i _ => deref_bind fun p _ => ?_
  refine Keeps.forM p.childList (fun child s hs => ?_) s hs
  refine procGet_bind fun c _ => ?_
  cases c with
  | none => exact hs
  | some c => exact (procWaitListAdd_keeps hP parent child).discard s hs

lemma waitNodes_keeps (pid curpid : Int) : Keeps P (waitNodes m pid curpid) := by
  unfold waitNodes
  split
  · exact (procWaitListAdd_keeps hP pid curpid).discard
  · exact waitAllChild_keeps hP curpid

lemma reparent_keeps (hadopt : ∀ {s} i child, P s → P (s.adopt i child)) (child : Int) :
    Keeps P (reparent m child) := by
  intro s hs
  refine reparent_ends (fun _ => hs) fun j hj t ht => ?_
  have hP' : P t := by
    rcases ht with ⟨-, rfl⟩ | rfl
    · exact hP.malloc _ hs
    · exact hP.node (s := tick s) _ (hP.malloc _ hs) hj
  exact ⟨fun _ => hP.malloc _ hP', fun k _ => hadopt k child (hP.malloc _ hP')⟩

end NodeSafe

end Stretch

/-! ## The invariant -/

/-- The invariant of every run, except that process `r` may be out of step. -/
structure Sound (r : Option Nat) (s : ProcSys) : Prop where
  table : ∀ pid i, s.procs pid = some i → ∃ p, s.heap i = some p ∧ p.pid = pid
  slot : ∀ i p, s.heap i = some p → i < s.next ∧ s.procs p.pid = some i
  once : s.destroyed.Nodup
  dead : ∀ i, i ∈ s.destroyed ↔ i < s.next ∧ s.heap i = none
  owner : ∀ i p, s.heap i = some p → ∀ n ∈ p.waitList, n.owner = p.pid
  kids : ∀ i p, s.heap i = some p → ∀ c ∈ p.childList, 2 ≤ c ∧ c ≠ p.pid
  keys : (s.jobs.map Prod.fst).Nodup
  callers : (s.jobs.map fun x => x.2.caller).Nodup
  born : ∀ x ∈ s.jobs, x.2.caller < s.next ∧ ∀ i, x.2.holder = some i → i < s.next
  busy : ∀ x ∈ s.jobs, ∀ p, s.heap x.2.caller = some p → p.thread = .blocked ∨ p.thread = .suspended
  loading : ∀ x ∈ s.jobs, ∀ i, x.2.task = .load i → i < s.next ∧
    (∀ p, s.heap i = some p → p.thread = .unborn ∨ p.thread = .suspended) ∧
    ∀ y ∈ s.jobs, y.2.caller ≠ i ∧ (y.2.task = .load i → y = x)
  waits : ∀ i p, some i ≠ r → s.heap i = some p → p.state = .waiting → ∀ co, p.wakeCo = some co →
    ∃ pid target, (co, ⟨i, .wait pid target, none⟩) ∈ s.jobs
  waiter : ∀ co job pid target, (co, job) ∈ s.jobs → job.task = .wait pid target →
    job.holder = none ∧ ∀ p, s.heap job.caller = some p → p.state = .waiting → p.wakeCo = some co
  count : ∀ i p, s.heap i = some p → p.coroCount = s.jobs.countP (·.2.holder = some i)

/-- The thread does not run and will not be woken by a reply. -/
def Thread.Still : Thread → Prop
  | .unborn | .suspended => True
  | .user | .blocked => False

section Sound

variable {r r' : Option Nat} {s t : ProcSys} {i : Nat} {p q : Proc}

lemma Sound.job_eq (h : Sound r s) {x y : Nat × Job} (hx : x ∈ s.jobs) (hy : y ∈ s.jobs)
    (heq : x.2.caller = y.2.caller) : x = y :=
  List.inj_on_of_nodup_map h.callers hx hy heq

lemma Sound.change (h : Sound r s) (hi : s.heap i = some p)
    (hprocs : t.procs = s.procs) (hnext : t.next = s.next) (hdestroyed : t.destroyed = s.destroyed)
    (hjobs : t.jobs = s.jobs) (hheap : t.heap = update s.heap i (some q))
    (hpid : q.pid = p.pid) (hcount : q.coroCount = p.coroCount)
    (howner : ∀ n ∈ q.waitList, n.owner = p.pid) (hkids : ∀ c ∈ q.childList, 2 ≤ c ∧ c ≠ p.pid)
    (hbusy : ∀ x ∈ s.jobs, x.2.caller = i → q.thread = .blocked ∨ q.thread = .suspended)
    (hloading : ∀ x ∈ s.jobs, x.2.task = .load i → q.thread = .unborn ∨ q.thread = .suspended)
    (hr : ∀ j ≠ i, some j ≠ r' → some j ≠ r)
    (hwaits : some i ≠ r' → q.state = .waiting → ∀ co, q.wakeCo = some co →
      ∃ pid target, (co, ⟨i, .wait pid target, none⟩) ∈ s.jobs)
    (hwaiter : ∀ co job pid target, (co, job) ∈ s.jobs → job.task = .wait pid target →
      job.caller = i → q.state = .waiting → q.wakeCo = some co) : Sound r' t := by
  have hat : t.heap i = some q := by rw [hheap, update_self]
  have hother : ∀ j ≠ i, t.heap j = s.heap j := fun j hj => by
    rw [hheap, update_of_ne hj]
  refine ⟨?_, ?_, ?_, ?_, ?_, ?_, ?_, ?_, ?_, ?_, ?_, ?_, ?_, ?_⟩
  · intro pid j hj
    rw [hprocs] at hj
    obtain ⟨p', hp', hpid'⟩ := h.table pid j hj
    rcases eq_or_ne j i with rfl | hne
    · rw [hi] at hp'
      cases hp'
      exact ⟨q, hat, hpid.trans hpid'⟩
    · exact ⟨p', (hother j hne).trans hp', hpid'⟩
  · intro j p' hj
    rw [hnext, hprocs]
    rcases eq_or_ne j i with rfl | hne
    · rw [hat] at hj
      cases hj
      rw [hpid]
      exact h.slot j p hi
    · exact h.slot j p' ((hother j hne).symm.trans hj)
  · rw [hdestroyed]
    exact h.once
  · intro j
    rw [hdestroyed, hnext, h.dead j]
    rcases eq_or_ne j i with rfl | hne
    · rw [hat, hi]
      simp
    · rw [hother j hne]
  · intro j p' hj n hn
    rcases eq_or_ne j i with rfl | hne
    · rw [hat] at hj
      cases hj
      rw [hpid]
      exact howner n hn
    · exact h.owner j p' ((hother j hne).symm.trans hj) n hn
  · intro j p' hj c hc
    rcases eq_or_ne j i with rfl | hne
    · rw [hat] at hj
      cases hj
      rw [hpid]
      exact hkids c hc
    · exact h.kids j p' ((hother j hne).symm.trans hj) c hc
  · rw [hjobs]
    exact h.keys
  · rw [hjobs]
    exact h.callers
  · rw [hjobs, hnext]
    exact h.born
  · intro x hx p' hp'
    rw [hjobs] at hx
    rcases eq_or_ne x.2.caller i with heq | hne
    · rw [heq, hat] at hp'
      cases hp'
      exact hbusy x hx heq
    · exact h.busy x hx p' ((hother _ hne).symm.trans hp')
  · intro x hx j hj
    rw [hjobs] at hx
    obtain ⟨hlt, hthread, huniq⟩ := h.loading x hx j hj
    rw [hnext, hjobs]
    refine ⟨hlt, fun p' hp' => ?_, huniq⟩
    rcases eq_or_ne j i with rfl | hne
    · rw [hat] at hp'
      cases hp'
      exact hloading x hx hj
    · exact hthread p' ((hother j hne).symm.trans hp')
  · intro j p' hj hp' hstate co hco
    rw [hjobs]
    rcases eq_or_ne j i with rfl | hne
    · rw [hat] at hp'
      cases hp'
      exact hwaits hj hstate co hco
    · exact h.waits j p' (hr j hne hj) ((hother j hne).symm.trans hp') hstate co hco
  · intro co job pid target hjob htask
    rw [hjobs] at hjob
    obtain ⟨hnone, hco⟩ := h.waiter co job pid target hjob htask
    refine ⟨hnone, fun p' hp' hstate => ?_⟩
    rcases eq_or_ne job.caller i with heq | hne
    · rw [heq, hat] at hp'
      cases hp'
      exact hwaiter co job pid target hjob htask heq hstate
    · exact hco p' ((hother _ hne).symm.trans hp') hstate
  · intro j p' hj
    rw [hjobs]
    rcases eq_or_ne j i with rfl | hne
    · rw [hat] at hj
      cases hj
      exact hcount.trans (h.count j p hi)
    · exact h.count j p' ((hother j hne).symm.trans hj)

lemma Sound.modifyProc (h : Sound r s) {f : Proc → Proc} (hpid : ∀ p, (f p).pid = p.pid)
    (hcount : ∀ p, (f p).coroCount = p.coroCount) (hstate : ∀ p, (f p).state = p.state)
    (hco : ∀ p, (f p).wakeCo = p.wakeCo)
    (hthread : ∀ p, (f p).thread = p.thread ∨ (f p).thread = .suspended)
    (howner : ∀ p, s.heap i = some p → ∀ n ∈ (f p).waitList, n ∈ p.waitList ∨ n.owner = p.pid)
    (hkids : ∀ p, s.heap i = some p → ∀ c ∈ (f p).childList, c ∈ p.childList ∨ 2 ≤ c ∧ c ≠ p.pid) :
    Sound r (s.modifyProc i f) := by
  cases hi : s.heap i with
  | none =>
    have heq : s.modifyProc i f = s := by
      rw [ProcSys.modifyProc, hi, Option.map_none, ← hi, Function.update_eq_self]
    rw [heq]
    exact h
  | some p =>
    refine h.change hi rfl rfl rfl rfl (q := f p) (by simp [ProcSys.modifyProc, hi]) (hpid p)
      (hcount p) (fun n hn => ?_) (fun c hc => ?_) (fun x hx heq => ?_) (fun x hx heq => ?_)
      (fun _ _ hj => hj)
      (fun hr hw co hc => ?_) (fun co job pid target hjob htask heq hw => ?_)
    · exact (howner p hi n hn).elim (h.owner i p hi n) id
    · exact (hkids p hi c hc).elim (h.kids i p hi c) id
    · rcases hthread p with hsame | hsusp
      · rw [hsame]
        exact h.busy x hx p (heq ▸ hi)
      · exact .inr hsusp
    · rcases hthread p with hsame | hsusp
      · rw [hsame]
        exact (h.loading x hx i heq).2.1 p hi
      · exact .inr hsusp
    · rw [hstate] at hw
      rw [hco] at hc
      exact h.waits i p hr hi hw co hc
    · rw [hstate] at hw
      rw [hco]
      exact (h.waiter co job pid target hjob htask).2 p (heq ▸ hi) hw

lemma Sound.logs (h : Sound r s) (hprocs : t.procs = s.procs) (hheap : t.heap = s.heap)
    (hnext : t.next = s.next) (hdestroyed : t.destroyed = s.destroyed) (hjobs : t.jobs = s.jobs) :
    Sound r t := by
  obtain ⟨procs, heap, next, currPid, reapList, jobs, mallocs, exited, zombiefied, destroyed,
    wakes⟩ := t
  cases hprocs
  cases hheap
  cases hnext
  cases hdestroyed
  cases hjobs
  exact { h with }

lemma Sound.nodeSafe : NodeSafe (Sound r) where
  malloc _ h := h.logs rfl rfl rfl rfl rfl
  node {s pid i} q h hi := by
    refine h.modifyProc (fun _ => rfl) (fun _ => rfl) (fun _ => rfl) (fun _ => rfl)
      (fun _ => .inl rfl) (fun p hp n hn => ?_) fun _ _ _ hc => .inl hc
    rcases List.mem_cons.mp hn with rfl | hn
    · obtain ⟨p', hp', hpid⟩ := h.table pid i hi
      rw [hp] at hp'
      cases hp'
      exact .inr hpid.symm
    · exact .inl hn

lemma Sound.adopt (h : Sound r s) (hchild : 2 ≤ child)
    (hne : ∀ p, s.heap i = some p → child ≠ p.pid) : Sound r (s.adopt i child) := by
  have hlist : Sound r (s.modifyProc i fun p => { p with childList := child :: p.childList }) := by
    refine h.modifyProc (fun _ => rfl) (fun _ => rfl) (fun _ => rfl) (fun _ => rfl)
      (fun _ => .inl rfl) (fun _ _ _ hn => .inl hn) fun p hp c hc => ?_
    rcases List.mem_cons.mp hc with rfl | hc
    · exact .inr ⟨hchild, hne p hp⟩
    · exact .inl hc
  unfold ProcSys.adopt
  split
  · exact hlist
  · exact hlist.modifyProc (fun _ => rfl) (fun _ => rfl) (fun _ => rfl) (fun _ => rfl)
      (fun _ => .inl rfl) (fun _ _ _ hn => .inl hn) fun _ _ _ hc => .inl hc

lemma Sound.setState (h : Sound r s) {st : ProcState} (hst : st ≠ .waiting)
    (hr : ∀ j, r = some j → j = i) : Sound none (s.setState i st) := by
  cases hi : s.heap i with
  | none =>
    have hrn : ∀ j p, s.heap j = some p → some j ≠ r := by
      intro j p hj hrj
      rw [hr j hrj.symm, hi] at hj
      cases hj
    have hheap : (s.setState i st).heap = s.heap := by
      show update s.heap i ((s.heap i).map _) = s.heap
      rw [hi, Option.map_none, ← hi, Function.update_eq_self]
    refine Sound.logs (s := s) ?_ rfl hheap rfl rfl rfl
    exact { h with waits := fun j p _ hj => h.waits j p (hrn j p hj) hj }
  | some p =>
    refine h.change hi rfl rfl rfl rfl (q := { p with state := st })
      (by simp [ProcSys.setState, ProcSys.modifyProc, hi]) rfl rfl
      (h.owner i p hi) (h.kids i p hi)
      (fun x hx heq => h.busy x hx p (heq ▸ hi)) (fun x hx heq => (h.loading x hx i heq).2.1 p hi)
      (fun j hj _ hrj => hj (hr j hrj.symm)) (fun _ hw => absurd hw hst)
      (fun _ _ _ _ _ _ _ hw => absurd hw hst)

lemma Sound.setWaiting (h : Sound none s) (hi : s.heap i = some p) (huser : p.thread = .user) :
    Sound (some i) (s.setState i .waiting) := by
  have hidle : ∀ x ∈ s.jobs, x.2.caller ≠ i := by
    intro x hx heq
    have := h.busy x hx p (heq ▸ hi)
    simp [huser] at this
  refine h.change hi rfl rfl rfl rfl (q := { p with state := .waiting })
    (by simp [ProcSys.setState, ProcSys.modifyProc, hi]) rfl rfl (h.owner i p hi) (h.kids i p hi)
    (fun x hx heq => absurd heq (hidle x hx)) (fun x hx heq => (h.loading x hx i heq).2.1 p hi)
    (fun _ _ _ => nofun) (fun hne => absurd rfl hne)
    (fun co job _ _ hjob _ heq => absurd heq (hidle _ hjob))

lemma Sound.reply (h : Sound r s) (hidle : ∀ x ∈ s.jobs, x.2.caller ≠ i) : Sound r (s.reply i) := by
  cases hi : s.heap i with
  | none =>
    have heq : s.reply i = s := by
      rw [ProcSys.reply, ProcSys.modifyProc, hi, Option.map_none, ← hi, Function.update_eq_self]
    rw [heq]
    exact h
  | some p =>
    refine h.change hi rfl rfl rfl rfl
      (q := { p with thread := if p.thread = .blocked then .user else p.thread })
      (by simp [ProcSys.reply, ProcSys.modifyProc, hi]) rfl rfl (h.owner i p hi) (h.kids i p hi)
      (fun x hx heq => absurd heq (hidle x hx)) (fun x hx heq => ?_) (fun _ _ hj => hj)
      (fun hr hw co hco => h.waits i p hr hi hw co hco)
      (fun co job _ _ hjob _ heq => absurd heq (hidle _ hjob))
    rcases (h.loading x hx i heq).2.1 p hi with hthread | hthread
    · exact .inl (by rw [hthread]; rfl)
    · exact .inr (by rw [hthread]; rfl)

/-! ### Coroutines are suspended and resumed -/

lemma heap_addCount (s : ProcSys) (k : Int) (holder : Option Nat) (j : Nat) :
    (s.addCount k holder).heap j = (s.heap j).map fun p =>
      { p with coroCount := p.coroCount + if holder = some j then k else 0 } := by
  cases holder with
  | none => simp [ProcSys.addCount]
  | some i =>
    rcases eq_or_ne j i with rfl | hne
    · simp [ProcSys.addCount, ProcSys.modifyProc]
    · simp [ProcSys.addCount, ProcSys.modifyProc, hne, hne.symm]

lemma heap_suspend (s : ProcSys) (co : Nat) (job : Job) (j : Nat) :
    (s.suspend co job).heap j = (s.heap j).map fun p =>
      { p with
        coroCount := p.coroCount + if job.holder = some j then 1 else 0
        thread := if j = job.caller then .blocked else p.thread } := by
  have hcount := heap_addCount s 1 job.holder
  show update (s.addCount 1 job.holder).heap job.caller _ j = _
  rcases eq_or_ne j job.caller with rfl | hne
  · rw [update_self, hcount, Option.map_map]
    simp [Function.comp_def]
  · rw [update_of_ne hne, hcount]
    simp [hne]

lemma adopt_fields (s : ProcSys) (i : Nat) (child : Int) :
    (s.adopt i child).procs = s.procs ∧ (s.adopt i child).jobs = s.jobs ∧
      (s.adopt i child).next = s.next ∧ (s.adopt i child).exited = s.exited := by
  unfold ProcSys.adopt
  split
  · exact ⟨rfl, rfl, rfl, rfl⟩
  · exact ⟨rfl, rfl, rfl, rfl⟩

lemma addCount_fields (s : ProcSys) (k : Int) (holder : Option Nat) :
    (s.addCount k holder).procs = s.procs ∧ (s.addCount k holder).next = s.next ∧
      (s.addCount k holder).destroyed = s.destroyed := by
  cases holder with
  | none | some i => exact ⟨rfl, rfl, rfl⟩

structure Entered (s : ProcSys) : Prop where
  table : ∀ pid i, s.procs pid = some i → ∃ p, s.heap i = some p ∧ p.pid = pid
  slot : ∀ i p, s.heap i = some p → i < s.next ∧ s.procs p.pid = some i
  once : s.destroyed.Nodup
  dead : ∀ i, i ∈ s.destroyed ↔ i < s.next ∧ s.heap i = none
  owner : ∀ i p, s.heap i = some p → ∀ n ∈ p.waitList, n.owner = p.pid
  kids : ∀ i p, s.heap i = some p → ∀ c ∈ p.childList, 2 ≤ c ∧ c ≠ p.pid

lemma Sound.entered (h : Sound r s) : Entered s :=
  ⟨h.table, h.slot, h.once, h.dead, h.owner, h.kids⟩

lemma Entered.same (h : Entered s) (hprocs : t.procs = s.procs) (hnext : t.next = s.next)
    (hdestroyed : t.destroyed = s.destroyed) {count : Nat → Proc → Int}
    {thread : Nat → Proc → Thread}
    (hheap : ∀ j, t.heap j = (s.heap j).map fun q =>
      { q with coroCount := count j q, thread := thread j q }) : Entered t := by
  have hold : ∀ {j q}, t.heap j = some q → ∃ q', s.heap j = some q' ∧
      q = { q' with coroCount := count j q', thread := thread j q' } := by
    intro j q hq
    rw [hheap] at hq
    obtain ⟨q', hq', rfl⟩ := Option.map_eq_some_iff.mp hq
    exact ⟨q', hq', rfl⟩
  refine ⟨?_, ?_, ?_, ?_, ?_, ?_⟩
  · intro pid j hj
    rw [hprocs] at hj
    obtain ⟨q, hq, hpid⟩ := h.table pid j hj
    exact ⟨_, (hheap j).trans (congrArg (Option.map _) hq), hpid⟩
  · intro j q hq
    obtain ⟨q', hq', rfl⟩ := hold hq
    rw [hprocs, hnext]
    exact h.slot j q' hq'
  · rw [hdestroyed]
    exact h.once
  · intro j
    rw [hdestroyed, hnext, hheap, Option.map_eq_none_iff]
    exact h.dead j
  · intro j q hq
    obtain ⟨q', hq', rfl⟩ := hold hq
    exact h.owner j q' hq'
  · intro j q hq
    obtain ⟨q', hq', rfl⟩ := hold hq
    exact h.kids j q' hq'

lemma Sound.idle (h : Sound r s) (hi : s.heap i = some p) (huser : p.thread = .user) :
    ∀ x ∈ s.jobs, x.2.caller ≠ i := by
  intro x hx heq
  have hthread := h.busy x hx p (heq ▸ hi)
  simp [huser] at hthread

lemma Sound.suspend (h : Sound r s) (hco : co ∉ s.jobs.map Prod.fst)
    (hi : s.heap job.caller = some p) (huser : p.thread = .user)
    (hholder : ∀ j, job.holder = some j → j < s.next)
    (hload : ∀ n, job.task = .load n → n < s.next ∧ n ≠ job.caller ∧
      (∀ q, s.heap n = some q → q.thread = .unborn ∨ q.thread = .suspended) ∧
      ∀ y ∈ s.jobs, y.2.caller ≠ n ∧ y.2.task ≠ .load n)
    (hwait : ∀ pid target, job.task = .wait pid target → job.holder = none ∧ p.wakeCo = some co)
    (hr : ∀ j, r = some j → j = job.caller ∧ ∃ pid target, job.task = .wait pid target) :
    Sound none (s.suspend co job) := by
  have hidle := h.idle hi huser
  obtain ⟨hprocs, hnext, hdestroyed⟩ := addCount_fields s 1 job.holder
  replace hprocs : (s.suspend co job).procs = s.procs := hprocs
  replace hnext : (s.suspend co job).next = s.next := hnext
  replace hdestroyed : (s.suspend co job).destroyed = s.destroyed := hdestroyed
  have hheap := heap_suspend s co job
  have hold : ∀ {j q}, (s.suspend co job).heap j = some q → ∃ q', s.heap j = some q' ∧ q = { q' with
        coroCount := q'.coroCount + if job.holder = some j then 1 else 0
        thread := if j = job.caller then .blocked else q'.thread } := by
    intro j q hq
    rw [hheap] at hq
    obtain ⟨q', hq', rfl⟩ := Option.map_eq_some_iff.mp hq
    exact ⟨q', hq', rfl⟩
  refine { h.entered.same hprocs hnext hdestroyed hheap with
    keys := ?_, callers := ?_, born := ?_, busy := ?_, loading := ?_, waits := ?_, waiter := ?_,
    count := ?_ }
  · exact List.nodup_cons.mpr ⟨hco, h.keys⟩
  · refine List.nodup_cons.mpr ⟨fun hmem => ?_, h.callers⟩
    obtain ⟨x, hx, heq⟩ := List.mem_map.mp hmem
    exact hidle x hx heq
  · intro x hx
    rw [hnext]
    rcases List.mem_cons.mp hx with rfl | hx
    · exact ⟨(h.slot _ p hi).1, hholder⟩
    · exact h.born x hx
  · intro x hx q hq
    obtain ⟨q', hq', rfl⟩ := hold hq
    rcases List.mem_cons.mp hx with rfl | hx
    · exact .inl (if_pos rfl)
    · rw [if_neg (hidle x hx)]
      exact h.busy x hx q' hq'
  · intro x hx n hn
    rw [hnext]
    rcases List.mem_cons.mp hx with rfl | hx
    · obtain ⟨hlt, hne, hthread, hother⟩ := hload n hn
      refine ⟨hlt, fun q hq => ?_, fun y hy => ?_⟩
      · obtain ⟨q', hq', rfl⟩ := hold hq
        rw [if_neg hne]
        exact hthread q' hq'
      · rcases List.mem_cons.mp hy with rfl | hy
        · exact ⟨hne.symm, fun _ => rfl⟩
        · exact ⟨(hother y hy).1, fun heq => absurd heq (hother y hy).2⟩
    · obtain ⟨hlt, hthread, huniq⟩ := h.loading x hx n hn
      have hne : n ≠ job.caller := by
        rintro rfl
        have := hthread p hi
        simp [huser] at this
      refine ⟨hlt, fun q hq => ?_, fun y hy => ?_⟩
      · obtain ⟨q', hq', rfl⟩ := hold hq
        rw [if_neg hne]
        exact hthread q' hq'
      · rcases List.mem_cons.mp hy with rfl | hy
        · exact ⟨hne.symm, fun heq => absurd hn ((hload n heq).2.2.2 x hx).2⟩
        · exact huniq y hy
  · intro j q _ hq hstate co' hco'
    obtain ⟨q', hq', rfl⟩ := hold hq
    by_cases hrj : some j = r
    · obtain ⟨rfl, pid, target, htask⟩ := hr j hrj.symm
      obtain ⟨hnone, hwake⟩ := hwait pid target htask
      rw [hi] at hq'
      cases hq'
      obtain rfl : co = co' := Option.some.inj (hwake.symm.trans hco')
      refine ⟨pid, target, ?_⟩
      rw [← hnone, ← htask]
      exact List.mem_cons_self
    · obtain ⟨pid, target, hmem⟩ := h.waits j q' hrj hq' hstate co' hco'
      exact ⟨pid, target, List.mem_cons_of_mem _ hmem⟩
  · intro co' job' pid target hjob htask
    rcases List.mem_cons.mp hjob with heq | hjob
    · cases heq
      obtain ⟨hnone, hwake⟩ := hwait pid target htask
      refine ⟨hnone, fun q hq _ => ?_⟩
      obtain ⟨q', hq', rfl⟩ := hold hq
      rw [hi] at hq'
      cases hq'
      exact hwake
    · obtain ⟨hnone, hwake⟩ := h.waiter co' job' pid target hjob htask
      refine ⟨hnone, fun q hq hstate => ?_⟩
      obtain ⟨q', hq', rfl⟩ := hold hq
      exact hwake q' hq' hstate
  · intro j q hq
    obtain ⟨q', hq', rfl⟩ := hold hq
    show q'.coroCount + _ = (((co, job) :: s.jobs).countP fun x => x.2.holder = some j : Nat)
    rw [List.countP_cons, h.count j q' hq']
    by_cases hj : job.holder = some j
    · simp [hj]
    · simp [hj]

lemma Sound.resume (h : Sound none s) (hmem : (co, job) ∈ s.jobs) :
    Sound (some job.caller) (s.resume co job) := by
  obtain ⟨hprocs, hnext, hdestroyed⟩ := addCount_fields s (-1) job.holder
  replace hprocs : (s.resume co job).procs = s.procs := hprocs
  replace hnext : (s.resume co job).next = s.next := hnext
  replace hdestroyed : (s.resume co job).destroyed = s.destroyed := hdestroyed
  have hheap : ∀ j, (s.resume co job).heap j = _ := heap_addCount s (-1) job.holder
  have hold : ∀ {j q}, (s.resume co job).heap j = some q → ∃ q', s.heap j = some q' ∧
      q = { q' with coroCount := q'.coroCount + if job.holder = some j then -1 else 0 } := by
    intro j q hq
    rw [hheap] at hq
    obtain ⟨q', hq', rfl⟩ := Option.map_eq_some_iff.mp hq
    exact ⟨q', hq', rfl⟩
  have hsub : ∀ x, x ∈ (s.resume co job).jobs → x ∈ s.jobs := fun x hx => List.mem_of_mem_erase hx
  refine { h.entered.same hprocs hnext hdestroyed hheap with
    keys := ?_, callers := ?_, born := ?_, busy := ?_, loading := ?_, waits := ?_, waiter := ?_,
    count := ?_ }
  · exact h.keys.sublist (List.erase_sublist.map _)
  · exact h.callers.sublist (List.erase_sublist.map _)
  · intro x hx
    rw [hnext]
    exact h.born x (hsub x hx)
  · intro x hx q hq
    obtain ⟨q', hq', rfl⟩ := hold hq
    exact h.busy x (hsub x hx) q' hq'
  · intro x hx n hn
    rw [hnext]
    obtain ⟨hlt, hthread, huniq⟩ := h.loading x (hsub x hx) n hn
    refine ⟨hlt, fun q hq => ?_, fun y hy => huniq y (hsub y hy)⟩
    obtain ⟨q', hq', rfl⟩ := hold hq
    exact hthread q' hq'
  · intro j q hj hq hstate co' hco'
    obtain ⟨q', hq', rfl⟩ := hold hq
    obtain ⟨pid, target, hmem'⟩ := h.waits j q' nofun hq' hstate co' hco'
    refine ⟨pid, target, (List.mem_erase_of_ne ?_).mpr hmem'⟩
    intro heq
    cases heq
    exact hj rfl
  · intro co' job' pid target hjob htask
    obtain ⟨hnone, hwake⟩ := h.waiter co' job' pid target (hsub _ hjob) htask
    refine ⟨hnone, fun q hq hstate => ?_⟩
    obtain ⟨q', hq', rfl⟩ := hold hq
    exact hwake q' hq' hstate
  · intro j q hq
    obtain ⟨q', hq', rfl⟩ := hold hq
    show q'.coroCount + _ = ((s.jobs.erase (co, job)).countP fun x => x.2.holder = some j : Nat)
    have hperm := (List.perm_cons_erase hmem).countP_eq fun x => x.2.holder = some j
    rw [h.count j q' hq', hperm, List.countP_cons]
    by_cases hj : job.holder = some j
    · simp [hj]
    · simp [hj]

lemma Sound.resume_idle (h : Sound r s) (hmem : (co, job) ∈ s.jobs) :
    ∀ x ∈ (s.resume co job).jobs, x ≠ (co, job) ∧ x ∈ s.jobs ∧ x.2.caller ≠ job.caller := by
  intro x hx
  have hnodup : s.jobs.Nodup := h.keys.of_map
  obtain ⟨hne, hx⟩ := hnodup.mem_erase_iff.mp hx
  exact ⟨hne, hx, fun heq => hne (h.job_eq hx hmem heq)⟩

lemma Sound.resume_call (h : Sound none s) (hmem : (co, job) ∈ s.jobs)
    (htask : ∀ pid target, job.task ≠ .wait pid target) : Sound none (s.resume co job) := by
  have hout := h.resume hmem
  refine { hout with waits := fun i q _ hq hstate co' hco' => ?_ }
  by_cases hi : some i = some job.caller
  · -- it would have to wait in this very coroutine
    cases hi
    have hheap := heap_addCount s (-1) job.holder job.caller
    obtain ⟨q', hq', rfl⟩ := Option.map_eq_some_iff.mp (hheap.symm.trans hq)
    obtain ⟨pid, target, hmem'⟩ := h.waits job.caller q' nofun hq' hstate co' hco'
    have heq := h.job_eq hmem hmem' rfl
    exact absurd (congrArg (fun x => x.2.task) heq) (htask pid target)
  · exact hout.waits i q hi hq hstate co' hco'

def woken (s : ProcSys) (cause co : Nat) (job : Job) (pid : Int) (target : Option Nat)
    (owner : Int) : ProcSys :=
  { (((s.resume co job).setState job.caller .running).reply job.caller) with
    wakes := ⟨job.caller, pid, target, cause, owner⟩ :: s.wakes }

lemma Sound.woken (h : Sound none s) {cause : Nat} {pid owner : Int} {target : Option Nat}
    (hmem : (co, job) ∈ s.jobs) : Sound none (woken s cause co job pid target owner) := by
  have hrun : Sound none ((s.resume co job).setState job.caller .running) :=
    (h.resume hmem).setState (by decide) fun j hj => (Option.some.inj hj).symm
  have hidle : ∀ x ∈ (s.resume co job).jobs, x.2.caller ≠ job.caller :=
    fun x hx => (h.resume_idle hmem x hx).2.2
  exact (hrun.reply hidle).logs rfl rfl rfl rfl rfl

/-! ### Processes come and go -/

lemma Sound.spawn (h : Sound none s) {pid : Int} (hnone : s.procs pid = none)
    (state : ProcState) : Sound none (s.spawn pid state) := by
  have hat : (s.spawn pid state).heap s.next = some ⟨pid, state, pid = initProc ∨ pid = kernelProc,
      0, [], [], none, .unborn, []⟩ := update_self _ _ _
  have hother : ∀ j ≠ s.next, (s.spawn pid state).heap j = s.heap j :=
    fun j hj => update_of_ne hj _ _
  have hlt : ∀ {j q}, s.heap j = some q → j ≠ s.next := fun hq => (h.slot _ _ hq).1.ne
  have hnextNone : s.heap s.next = none := by
    cases hq : s.heap s.next with
    | none => rfl
    | some q => exact absurd rfl (hlt hq)
  have hcases : ∀ {j q}, (s.spawn pid state).heap j = some q → j = s.next ∧
      q = ⟨pid, state, pid = initProc ∨ pid = kernelProc, 0, [], [], none, .unborn, []⟩ ∨
      j ≠ s.next ∧ s.heap j = some q := by
    intro j q hq
    rcases eq_or_ne j s.next with rfl | hne
    · rw [hat] at hq
      exact .inl ⟨rfl, (Option.some.inj hq).symm⟩
    · exact .inr ⟨hne, (hother j hne).symm.trans hq⟩
  refine ⟨?_, ?_, h.once, ?_, ?_, ?_, h.keys, h.callers, ?_, ?_, ?_, ?_, ?_, ?_⟩
  · intro pid' j hj
    rcases eq_or_ne pid' pid with rfl | hne
    · obtain rfl : s.next = j := by simpa [ProcSys.spawn] using hj
      exact ⟨_, hat, rfl⟩
    · obtain ⟨q, hq, hpid⟩ := h.table pid' j (by simpa [ProcSys.spawn, hne] using hj)
      exact ⟨q, (hother j (hlt hq)).trans hq, hpid⟩
  · intro j q hq
    rcases hcases hq with ⟨rfl, rfl⟩ | ⟨-, hq⟩
    · exact ⟨Nat.lt_succ_self _, update_self _ _ _⟩
    · obtain ⟨hj, hslot⟩ := h.slot j q hq
      refine ⟨hj.trans (Nat.lt_succ_self _), ?_⟩
      have hne : q.pid ≠ pid := by
        rintro rfl
        rw [hnone] at hslot
        cases hslot
      simpa [ProcSys.spawn, hne] using hslot
  · intro j
    show j ∈ s.destroyed ↔ j < s.next + 1 ∧ _
    rw [h.dead j]
    rcases eq_or_ne j s.next with rfl | hne
    · rw [hat]
      simp
    · rw [hother j hne]
      exact and_congr_left fun _ => ⟨fun hj => hj.trans (Nat.lt_succ_self _), fun hj => by omega⟩
  · intro j q hq
    rcases hcases hq with ⟨rfl, rfl⟩ | ⟨-, hq⟩
    · exact nofun
    · exact h.owner j q hq
  · intro j q hq
    rcases hcases hq with ⟨rfl, rfl⟩ | ⟨-, hq⟩
    · exact nofun
    · exact h.kids j q hq
  · intro x hx
    obtain ⟨hcaller, hholder⟩ := h.born x hx
    exact ⟨hcaller.trans (Nat.lt_succ_self _),
      fun i hi => (hholder i hi).trans (Nat.lt_succ_self _)⟩
  · intro x hx q hq
    rcases hcases hq with ⟨heq, -⟩ | ⟨-, hq⟩
    · exact absurd heq (h.born x hx).1.ne
    · exact h.busy x hx q hq
  · intro x hx n hn
    obtain ⟨hn', hthread, huniq⟩ := h.loading x hx n hn
    refine ⟨hn'.trans (Nat.lt_succ_self _), fun q hq => ?_, huniq⟩
    rcases hcases hq with ⟨heq, -⟩ | ⟨-, hq⟩
    · exact absurd heq hn'.ne
    · exact hthread q hq
  · intro j q hj hq hstate co hco
    rcases hcases hq with ⟨rfl, rfl⟩ | ⟨-, hq⟩
    · cases hco
    · exact h.waits j q hj hq hstate co hco
  · intro co job pid' target hjob htask
    obtain ⟨hholder, hwake⟩ := h.waiter co job pid' target hjob htask
    refine ⟨hholder, fun q hq => ?_⟩
    rcases hcases hq with ⟨heq, -⟩ | ⟨-, hq⟩
    · exact absurd heq (h.born _ hjob).1.ne
    · exact hwake q hq
  · intro j q hq
    rcases hcases hq with ⟨rfl, rfl⟩ | ⟨-, hq⟩
    · symm
      refine Int.natCast_eq_zero.mpr (List.countP_eq_zero.mpr fun x hx heq => ?_)
      exact absurd rfl ((h.born x hx).2 s.next (by simpa using heq)).ne
    · exact h.count j q hq

lemma Sound.free (h : Sound none s) {pid : Int} (hpid : s.procs pid = some i) :
    Sound none (s.free i pid) := by
  obtain ⟨p, hi, hp⟩ := h.table pid i hpid
  have hat : (s.free i pid).heap i = none := update_self _ _ _
  have hold : ∀ {j q}, (s.free i pid).heap j = some q → j ≠ i ∧ s.heap j = some q := by
    intro j q hq
    rcases eq_or_ne j i with rfl | hne
    · rw [hat] at hq
      cases hq
    · exact ⟨hne, (update_of_ne hne _ _).symm.trans hq⟩
  refine ⟨?_, ?_, ?_, ?_, ?_, ?_, h.keys, h.callers, h.born, ?_, ?_, ?_, ?_, ?_⟩
  · intro pid' j hj
    rcases eq_or_ne pid' pid with rfl | hne
    · simp [ProcSys.free] at hj
    · obtain ⟨q, hq, hq'⟩ := h.table pid' j (by simpa [ProcSys.free, hne] using hj)
      have hji : j ≠ i := by
        rintro rfl
        rw [hi] at hq
        cases hq
        exact hne (hq'.symm.trans hp)
      exact ⟨q, (update_of_ne hji _ _).trans hq, hq'⟩
  · intro j q hq
    obtain ⟨hne, hq⟩ := hold hq
    obtain ⟨hlt, hslot⟩ := h.slot j q hq
    refine ⟨hlt, ?_⟩
    have hq' : q.pid ≠ pid := by
      rintro rfl
      exact hne (Option.some.inj (hslot.symm.trans hpid))
    simpa [ProcSys.free, hq'] using hslot
  · refine List.nodup_cons.mpr ⟨fun hmem => ?_, h.once⟩
    rw [h.dead, hi] at hmem
    cases hmem.2
  · intro j
    show j ∈ i :: s.destroyed ↔ _
    rw [List.mem_cons, h.dead j]
    rcases eq_or_ne j i with rfl | hne
    · simp only [true_or, hat, and_true, true_iff]
      exact (h.slot j p hi).1
    · have hj : (s.free i pid).heap j = s.heap j := update_of_ne hne _ _
      rw [hj]
      simp only [hne, false_or]
      rfl
  · intro j q hq
    exact h.owner j q (hold hq).2
  · intro j q hq
    exact h.kids j q (hold hq).2
  · intro x hx q hq
    exact h.busy x hx q (hold hq).2
  · intro x hx n hn
    obtain ⟨hlt, hthread, huniq⟩ := h.loading x hx n hn
    exact ⟨hlt, fun q hq => hthread q (hold hq).2, huniq⟩
  · intro j q hj hq
    exact h.waits j q hj (hold hq).2
  · intro co job pid' target hjob htask
    obtain ⟨hholder, hwake⟩ := h.waiter co job pid' target hjob htask
    exact ⟨hholder, fun q hq => hwake q (hold hq).2⟩
  · intro j q hq
    exact h.count j q (hold hq).2

lemma Sound.runs (h : Sound none s) (hi : s.heap i = some p)
    (hidle : ∀ x ∈ s.jobs, x.2.caller ≠ i ∧ x.2.task ≠ .load i) :
    Sound none ((s.setState i .running).setThread i .user) :=
  h.change hi rfl rfl rfl rfl (q := { p with state := .running, thread := .user })
    (by simp [ProcSys.setThread, ProcSys.setState, ProcSys.modifyProc, hi]) rfl rfl
    (h.owner i p hi) (h.kids i p hi) (fun x hx heq => absurd heq (hidle x hx).1)
    (fun x hx heq => absurd heq (hidle x hx).2) (fun _ _ hj => hj) (fun _ hw => nomatch hw)
    fun _ _ _ _ _ _ _ hw => nomatch hw

end Sound

end SpaghettiOS.Process
