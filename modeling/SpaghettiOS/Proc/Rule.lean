import SpaghettiOS.Proc.Pids
import SpaghettiOS.Proc.Table

/-!
# The rule for properties of runs

Most of what is to be shown of processes is a property that every event keeps.  `Rule`
lists the changes that the events consist of, each with what is known when it is made; a
property that all of them keep is kept by every event.  `Phase` says where in an event a
property is meant.
-/

namespace SpaghettiOS.Process

open Fs (ProcState)
open Coro (bind_apply get_apply modify_apply pure_apply set_apply)
open Coroutine (Res)

/-- Where an event is: between two events, about to finish the start of a new process or to give
it up, after a process has become a zombie, and while its wait list is walked, of which some
nodes are left. -/
inductive Phase where
  | rest
  | starting (new : Nat) (ok : Bool)
  | retiring (i : Nat)
  | waking (i : Nat) (l : List WaitNode)

/-- The test of -1 in `syscall_proc_wait` lets the wait begin. -/
def Machine.Waits (m : Machine) : Prop := m.below = some .running ∨ m.below = some .waiting

def Waitable (m : Machine) (s : ProcSys) (pid : Int) (target : Option Nat) : Prop :=
  pid = -1 ∧ target = none ∧ m.Waits ∨
    1 ≤ pid ∧ ∃ i p, s.procs pid = some i ∧ s.heap i = some p ∧ p.state ≠ .zombie ∧ target = some i

/-- A property that is kept from where a process has become a zombie to the end of
`zombiefy`. -/
structure Exit (m : Machine) (P : Phase → ProcSys → Prop) : Prop where
  malloc : ∀ {ph s} k, P ph s → P ph { s with mallocs := k }
  reparent : ∀ {s i p child}, Sound none s → P (.retiring i) s → s.heap i = some p → 2 ≤ child →
    child ≠ p.pid → Ends (reparent m child s) fun _ t => P (.retiring i) t
  waking : ∀ {s i p}, Sound none s → P (.retiring i) s → s.heap i = some p →
    P (.waking i p.waitList) s
  skip : ∀ {s i n l}, Sound none s → P (.waking i (n :: l)) s →
    (∀ w p, s.procs n.pidToWake = some w → s.heap w = some p → p.state ≠ .waiting) →
    P (.waking i l) s
  wake : ∀ {s i n l w p co pid target}, Sound none s → P (.waking i (n :: l)) s →
    s.procs n.pidToWake = some w → s.heap w = some p → p.state = .waiting →
    p.wakeCo = some co → (co, ⟨w, .wait pid target, none⟩) ∈ s.jobs →
    P (.waking i l) (woken s i co ⟨w, .wait pid target, none⟩ pid target n.owner)
  suspended : ∀ {s i}, Sound none s → P (.waking i []) s → P .rest (s.setThread i .suspended)

/-- A property that every change keeps, in a run whose events meet `G`. -/
structure Rule (m : Machine) (G : ProcSys → Event → Prop) (P : Phase → ProcSys → Prop) : Prop
    extends Exit m P where
  currPid : ∀ {s} k, P .rest s → P .rest { s with currPid := k }
  spawn : ∀ {s s' co pid' pid st start}, Sound none s → P .rest s →
    G s' (.create co pid' st start) → s.procs pid = none →
    P .rest (s.spawn pid st) ∧ ∀ ok, P (.starting s.next ok) (s.spawn pid st)
  load : ∀ {s co i p new q holder}, Sound none s → P .rest s → P (.starting new true) s →
    s.heap new = some q → s.heap i = some p → p.thread = .user →
    P .rest (s.suspend co ⟨i, .load new, holder⟩)
  loaded : ∀ {s co job new ok}, Sound none s → P .rest s → G s (.loaded co ok) →
    (co, job) ∈ s.jobs → job.task = .load new → P (.starting new ok) (s.resume co job)
  runs : ∀ {s new p}, Sound none s → P (.starting new true) s → s.heap new = some p →
    P .rest ((s.setState new .running).setThread new .user)
  fails : ∀ {s new p}, Sound none s → P (.starting new false) s → s.heap new = some p →
    P .rest (s.setState new .zombie) ∧
      (p.coroCount = 0 → P .rest ((s.setState new .zombie).free new p.pid))
  child : ∀ {s i p pid new}, Sound none s → P .rest s → s.heap i = some p →
    (∀ x ∈ s.jobs, x.2.caller ≠ i) → s.procs pid = some new → i ≠ new →
    (∀ x ∈ s.jobs, x.2.task ≠ .load new) → P .rest (s.adopt i pid)
  call : ∀ {s co i p c holder}, Sound none s → P .rest s → s.heap i = some p →
    p.thread = .user → (c = .file → holder = some i) → P .rest (s.suspend co ⟨i, .call c, holder⟩)
  resume : ∀ {s co job c}, Sound none s → P .rest s → (co, job) ∈ s.jobs →
    job.task = .call c → P .rest (s.resume co job)
  reply : ∀ {s i}, Sound none s → P .rest s → (∀ x ∈ s.jobs, x.2.caller ≠ i) → P .rest (s.reply i)
  wait : ∀ {s co i p pid target}, Sound none s → P .rest s → G s (.wait co p.pid pid) →
    s.heap i = some p → p.thread = .user → Waitable m s pid target →
    Ends (waitNodes m pid p.pid (s.setState i .waiting)) fun _ t => P .rest
      ((t.modifyProc i fun p => { p with wakeCo := some co }).suspend co
        ⟨i, .wait pid target, none⟩)
  retire : ∀ {s pid' pid i p}, Sound none s → P .rest s → G s (.delete pid' pid) →
    s.procs pid = some i → s.heap i = some p → p.state ≠ .zombie → p.protectedProc = false →
    P (.retiring i) { s.setState i .zombie with
      zombiefied := pid :: s.zombiefied
      reapList := s.reapList ++ [pid] }
  reaped : ∀ {s pid l i p}, Sound none s → P .rest s → G s .reap → s.reapList = pid :: l →
    s.procs pid = some i → s.heap i = some p → p.state = .zombie → p.coroCount = 0 →
    P .rest { s.free i pid with reapList := l }

section Rule

variable {m : Machine} {G : ProcSys → Event → Prop} {P : Phase → ProcSys → Prop}
variable {s s' t : ProcSys} {i co new : Nat} {pid pid' : Int} {p : Proc}

def Kept (P : Phase → ProcSys → Prop) (ph : Phase) (s : ProcSys) : Prop := Sound none s ∧ P ph s

lemma mem_jobs_of_lookup {l : List (Nat × Job)} {job : Job} (h : l.lookup co = some job) :
    (co, job) ∈ l := by
  induction l with
  | nil => cases h
  | cons x l ih =>
    rw [List.lookup_cons] at h
    split at h
    · rename_i heq
      cases h
      rw [beq_iff_eq.mp heq]
      exact List.mem_cons_self
    · exact List.mem_cons_of_mem _ (ih h)

lemma lookup_of_mem_jobs {l : List (Nat × Job)} {job : Job} (hl : (l.map Prod.fst).Nodup)
    (h : (co, job) ∈ l) : l.lookup co = some job := by
  cases hlookup : l.lookup co with
  | none => exact absurd (List.lookup_eq_none_iff.mp hlookup (co, job) h) (by simp)
  | some job' =>
    have heq := List.inj_on_of_nodup_map hl (mem_jobs_of_lookup hlookup) h rfl
    exact congrArg (fun x => some x.2) heq

/-! ### The end of a process -/

section

variable (R : Exit m P)

include R

lemma Exit.wakeNode {n : WaitNode} {l : List WaitNode} (h : Kept P (.waking i (n :: l)) s) :
    Ends (wakeNode i n s) fun _ t => Kept P (.waking i l) t := by
  obtain ⟨hS, hP⟩ := h
  refine procGet_bind fun w hw => ?_
  cases w with
  | none =>
    refine ⟨hS, R.skip hS hP fun w' _ hw' => ?_⟩
    rw [hw] at hw'
    cases hw'
  | some w =>
    refine deref_bind fun q hq => ?_
    split
    · rename_i hstate
      refine Res.Ends.ofOption_bind fun co hco => ?_
      obtain ⟨pid, target, hmem⟩ := hS.waits w q nofun hq hstate co hco
      simp only [bind_apply, get_apply, Res.bind, lookup_of_mem_jobs hS.keys hmem,
        waitResumed, modify_apply]
      refine procAt_bind fun w' hw' => ?_
      obtain rfl : w = w' := Option.some.inj (hw.symm.trans hw')
      exact ⟨hS.woken hmem, R.wake hS hP hw hq hstate hco hmem⟩
    · rename_i hstate
      refine ⟨hS, R.skip hS hP fun w' q' hw' hq' => ?_⟩
      rw [hw] at hw'
      cases hw'
      rw [hq] at hq'
      cases hq'
      exact hstate

lemma Exit.wakeNodes {l : List WaitNode} (h : Kept P (.waking i l) s) :
    Ends (l.forM (Process.wakeNode i) s) fun _ t => Kept P (.waking i []) t := by
  induction l generalizing s with
  | nil => exact h
  | cons n l ih => exact (R.wakeNode h).bind fun _ t ht => ih ht

omit R in
lemma reparent_sound {child : Int} (h : Sound none s) (hchild : 2 ≤ child) :
    Ends (Process.reparent m child s) fun _ t => Sound none t ∧ t.procs = s.procs := by
  refine reparent_ends (fun _ => ⟨h, rfl⟩) fun j hj t ht => ?_
  have hnode : Sound none (tick t) ∧ t.procs = s.procs := by
    have htick : Sound none (tick s) := Sound.nodeSafe.malloc _ h
    rcases ht with ⟨-, rfl⟩ | rfl
    · exact ⟨Sound.nodeSafe.malloc _ htick, rfl⟩
    · exact ⟨Sound.nodeSafe.malloc _ (Sound.nodeSafe.node _ htick hj), rfl⟩
  refine ⟨fun _ => hnode, fun k hk => ⟨hnode.1.adopt hchild fun q hq => ?_, ?_⟩⟩
  · obtain ⟨q', hq', hpid⟩ := hnode.1.table initProc k hk
    rw [hq] at hq'
    cases hq'
    rw [hpid]
    unfold initProc
    omega
  · exact (adopt_fields _ _ _).1.trans hnode.2

lemma Exit.reparents {l : List Int} (h : Kept P (.retiring i) s) (hpid : s.procs pid = some i)
    (hl : ∀ c ∈ l, 2 ≤ c ∧ c ≠ pid) :
    Ends (l.forM (Process.reparent m) s) fun _ t => Kept P (.retiring i) t ∧
      t.procs pid = some i := by
  induction l generalizing s with
  | nil => exact ⟨h, hpid⟩
  | cons c l ih =>
    obtain ⟨hS, hP⟩ := h
    obtain ⟨p, hp, rfl⟩ := hS.table pid i hpid
    obtain ⟨hc, hne⟩ := hl c List.mem_cons_self
    have hstep := (reparent_sound (m := m) hS hc).and (R.reparent hS hP hp hc hne)
    refine Res.Ends.bind hstep fun _ t ht => ih ⟨ht.1.1, ht.2⟩ (ht.1.2 ▸ hpid)
      fun c hc => hl c (List.mem_cons_of_mem _ hc)

lemma Exit.retired (h : Kept P (.retiring i) s) (hpid : s.procs pid = some i) :
    Ends ((do destroyChildList m pid; procWaitWakeup pid
              modify fun s => s.setThread i .suspended : ProcM Unit) s)
      fun _ t => Kept P .rest t := by
  obtain ⟨p, hp, hppid⟩ := h.1.table pid i hpid
  have hdestroy : Ends (destroyChildList m pid s) fun _ t => Kept P (.retiring i) t ∧
      t.procs pid = some i := by
    refine procAt_bind fun j hj => ?_
    obtain rfl : i = j := Option.some.inj (hpid.symm.trans hj)
    refine deref_bind fun q hq => ?_
    rw [hp] at hq
    cases hq
    exact R.reparents h hpid (hppid ▸ h.1.kids i p hp)
  refine hdestroy.bind fun _ t ht => ?_
  obtain ⟨⟨hS, hP⟩, hpid'⟩ := ht
  have hwakeup : Ends (procWaitWakeup pid t) fun _ u => Kept P (.waking i []) u := by
    refine procAt_bind fun j hj => ?_
    obtain rfl : i = j := Option.some.inj (hpid'.symm.trans hj)
    refine deref_bind fun q hq => ?_
    exact R.wakeNodes ⟨hS, R.waking hS hP hq⟩
  refine hwakeup.bind fun _ u hu => ⟨?_, R.suspended hu.1 hu.2⟩
  exact hu.1.modifyProc (fun _ => rfl) (fun _ => rfl) (fun _ => rfl) (fun _ => rfl)
    (fun _ => .inr rfl) (fun _ _ _ hn => .inl hn) fun _ _ _ hc => .inl hc

lemma Exit.retire (hS : Sound none s) (hi : s.procs pid = some i)
    (hP : P (.retiring i) { s.setState i .zombie with
      zombiefied := pid :: s.zombiefied
      reapList := s.reapList ++ [pid] }) :
    Ends (retire m i pid s) fun _ t => Kept P .rest t := by
  have hzombie : Sound none (s.setState i .zombie) := hS.setState (by decide) nofun
  simp only [Process.retire, addReapList, mallocNode, bind_apply, modify_apply,
    get_apply, set_apply, pure_apply, Res.bind]
  split
  · have hlater := R.retired (s := { s.setState i .zombie with
        zombiefied := pid :: s.zombiefied
        reapList := s.reapList ++ [pid]
        mallocs := s.mallocs + 1 }) ⟨hzombie.logs rfl rfl rfl rfl rfl, R.malloc _ hP⟩ hi
    exact Res.Ends.check_bind fun _ => hlater
  · exact Res.Ends.check_bind fun h => absurd h (by decide)

end

section

variable (R : Rule m G P)

include R

lemma Rule.zombiefy (h : Kept P .rest s) (hG : G s (.delete pid' pid)) :
    Ends (Process.zombiefy m pid s) fun _ t => Kept P .rest t := by
  obtain ⟨hS, hP⟩ := h
  refine procGet_bind fun i hi => ?_
  cases i with
  | none => exact ⟨hS, hP⟩
  | some i => ?_
  refine deref_bind fun p hp => ?_
  split
  · exact ⟨hS, hP⟩
  rename_i hstate
  split
  · exact ⟨hS, hP⟩
  rename_i hprot
  have hretire := R.retire hS hP hG hi hp hstate (by simpa using hprot)
  exact Res.Ends.bind (R.toExit.retire hS hi hretire) fun _ _ ht => ht

/-! ### Reaping -/

omit R in
lemma procDestroy_ends {Q : Int → ProcSys → Prop}
    (hno : ∀ i p, s.procs pid = some i → s.heap i = some p → p.coroCount ≠ 0 → Q (-1) s)
    (hyes : ∀ i p, s.procs pid = some i → s.heap i = some p → p.state = .zombie →
      p.coroCount = 0 → Q 0 (s.free i pid)) : Ends (procDestroy pid s) Q := by
  refine procAt_bind fun i hi => deref_bind fun p hp => Res.Ends.check_bind fun hstate => ?_
  split
  · rename_i hcount
    exact hno i p hi hp hcount
  · rename_i hcount
    exact hyes i p hi hp hstate (not_not.mp hcount)

omit R in
lemma reap_ends {Q : Unit → ProcSys → Prop} (hnil : s.reapList = [] → Q ⟨⟩ s)
    (hno : ∀ pid l i p, s.reapList = pid :: l → s.procs pid = some i → s.heap i = some p →
      p.coroCount ≠ 0 → Q ⟨⟩ s)
    (hyes : ∀ pid l i p, s.reapList = pid :: l → s.procs pid = some i → s.heap i = some p →
      p.state = .zombie → p.coroCount = 0 → Q ⟨⟩ { s.free i pid with reapList := l }) :
    Ends (Process.reap s) Q := by
  simp only [Process.reap, bind_apply, get_apply, Res.bind]
  cases hl : s.reapList with
  | nil => exact hnil hl
  | cons pid l =>
    refine Res.Ends.bind (Q := fun r t => r = -1 ∧ Q ⟨⟩ t ∨ r = 0 ∧
      Q ⟨⟩ { t with reapList := t.reapList.tail }) ?_ ?_
    · refine procDestroy_ends (fun i p hi hp hcount => .inl ⟨rfl, hno pid l i p hl hi hp hcount⟩)
        fun i p hi hp hstate hcount => .inr ⟨rfl, ?_⟩
      have htail : (s.free i pid).reapList.tail = l := congrArg List.tail hl
      rw [htail]
      exact hyes pid l i p hl hi hp hstate hcount
    · rintro r t (⟨rfl, ht⟩ | ⟨rfl, ht⟩)
      · exact ht
      · exact ht

lemma Rule.reap (h : Kept P .rest s) (hG : G s .reap) :
    Ends (Process.reap s) fun _ t => Kept P .rest t := by
  refine reap_ends (fun _ => h) (fun _ _ _ _ _ _ _ _ => h) ?_
  intro pid l i p hl hi hp hstate hcount
  exact ⟨(h.1.free hi).logs rfl rfl rfl rfl rfl, R.reaped h.1 h.2 hG hl hi hp hstate hcount⟩

/-! ### The start of a process -/

omit R in
lemma searchPid_ends (start : Int) (fuel : Nat) (pid : Int) :
    Ends (searchPid start fuel pid s) fun found t =>
      t = s ∧ found = (Pids.search s.procs start fuel pid).bind Pids.Search.found := by
  induction fuel generalizing pid with
  | zero => exact ⟨rfl, rfl⟩
  | succ fuel ih =>
    refine procGet_bind fun i hi => ?_
    rw [Pids.search, hi]
    cases i with
    | none => exact ⟨rfl, rfl⟩
    | some i =>
      dsimp only
      split
      · exact ⟨rfl, rfl⟩
      · refine (ih _).mono fun found t h => ⟨h.1, ?_⟩
        rw [h.2, Option.bind_map]
        rfl

omit R in
lemma procCreate_ends (st : ProcState) :
    Ends (procCreate st s) fun new t => ∃ k pid, s.procs pid = none ∧ new = s.next ∧
      t = { s with currPid := k }.spawn pid st := by
  refine Res.Ends.bind (Q := fun pid t => pid = -1 ∨ ∃ k, s.procs pid = none ∧
    t = { s with currPid := k }) ?_ ?_
  · simp only [findNextPid, bind_apply, get_apply, Res.bind]
    refine Res.Ends.bind (searchPid_ends _ _ _) ?_
    rintro found t ⟨rfl, hfound⟩
    cases found with
    | none => exact .inl rfl
    | some pid =>
      obtain ⟨r, hr, hpid⟩ := Option.bind_eq_some_iff.mp hfound.symm
      exact .inr ⟨_, Pids.search_found hr hpid, rfl⟩
  · intro pid t ht
    refine Res.Ends.check_bind fun hrange => ?_
    rcases ht with rfl | ⟨k, hnone, rfl⟩
    · exact absurd hrange.1 (by decide)
    · exact ⟨k, pid, hnone, rfl, rfl⟩

omit R in
lemma startFails_ends (hS : Sound none s) {Q : Int → ProcSys → Prop}
    (h : ∀ p, s.heap new = some p → Q (-1) (s.setState new .zombie) ∧
      (p.coroCount = 0 → Q (-1) ((s.setState new .zombie).free new p.pid))) :
    Ends (Process.startFails new s) Q := by
  refine deref_bind fun p hp => ?_
  obtain ⟨hkeep, hfree⟩ := h p hp
  simp only [bind_apply, modify_apply, Res.bind]
  refine Res.Ends.bind (Q := fun _ t => Q (-1) t) ?_ fun _ _ ht => ht
  refine procDestroy_ends (fun _ _ _ _ _ => hkeep) fun i q hi hq _ hcount => ?_
  obtain rfl : new = i := Option.some.inj ((hS.slot new p hp).2.symm.trans hi)
  simp only [ProcSys.setState, ProcSys.modifyProc, Function.update_self, hp, Option.map_some] at hq
  cases hq
  exact hfree hcount

lemma Rule.startFails (h : Kept P (.starting new false) s) :
    Ends (Process.startFails new s) fun r t => Kept P .rest t ∧ t.jobs = s.jobs ∧ r = -1 := by
  obtain ⟨hS, hP⟩ := h
  refine startFails_ends hS fun p hp => ?_
  obtain ⟨hkeep, hfree⟩ := R.fails hS hP hp
  have hzombie : Sound none (s.setState new .zombie) := hS.setState (by decide) nofun
  exact ⟨⟨⟨hzombie, hkeep⟩, rfl, rfl⟩,
    fun hcount => ⟨⟨hzombie.free (hS.slot new p hp).2, hfree hcount⟩, rfl, rfl⟩⟩

lemma Rule.startRuns (h : Kept P (.starting new true) s)
    (hidle : ∀ x ∈ s.jobs, x.2.caller ≠ new ∧ x.2.task ≠ .load new) :
    Ends (Process.startRuns new s) fun r t => Kept P .rest t ∧ t.jobs = s.jobs ∧
      t.procs = s.procs ∧ s.procs r = some new := by
  obtain ⟨hS, hP⟩ := h
  refine deref_bind fun p hp => ?_
  exact ⟨⟨hS.runs hp hidle, R.runs hS hP hp⟩, rfl, rfl, (hS.slot new p hp).2⟩

lemma Rule.procCreated {caller : Nat} {ok : Bool} (h : Kept P (.starting new ok) s)
    (hidle : ∀ x ∈ s.jobs, x.2.caller ≠ new ∧ x.2.task ≠ .load new)
    (hcaller : ∀ x ∈ s.jobs, x.2.caller ≠ caller) (hne : caller ≠ new) :
    Ends (Process.procCreated m caller new ok s) fun _ t => Kept P .rest t ∧ t.jobs = s.jobs := by
  have hstart : Ends (startEnds new ok s) fun r t =>
      Kept P .rest t ∧ t.jobs = s.jobs ∧ (2 ≤ r → t.procs r = some new) := by
    cases ok with
    | true =>
      refine (R.startRuns h hidle).mono fun r t ht => ⟨ht.1, ht.2.1, fun _ => ?_⟩
      rw [ht.2.2.1]
      exact ht.2.2.2
    | false =>
      refine (R.startFails h).mono fun r t ht => ⟨ht.1, ht.2.1, fun hr => ?_⟩
      rw [ht.2.2] at hr
      exact absurd hr (by decide)
  refine Res.Ends.bind hstart fun r t ht => ?_
  obtain ⟨⟨hS, hP⟩, hjobs, hnew⟩ := ht
  split
  · rename_i hr
    refine deref_bind fun q hq => ?_
    refine Res.Ends.bind (Q := fun _ t => Kept P .rest t ∧ t.jobs = s.jobs) ?_ fun _ _ ht => ht
    have htick : Sound none (tick t) := Sound.nodeSafe.malloc _ hS
    refine addChild_ends (fun _ => ⟨⟨htick, R.malloc _ hP⟩, hjobs⟩) fun i hi => ?_
    obtain rfl : caller = i := Option.some.inj ((hS.slot caller q hq).2.symm.trans hi)
    have hpid : ∀ q', (tick t).heap caller = some q' → r ≠ q'.pid := by
      rintro q' hq' rfl
      exact hne (Option.some.inj ((hS.slot caller q' hq').2.symm.trans (hnew hr)))
    refine ⟨⟨htick.adopt hr hpid, R.child htick (R.malloc _ hP) hq (fun x hx => ?_) (hnew hr) hne
      fun x hx => ?_⟩, (adopt_fields _ _ _).2.1.trans hjobs⟩
    · exact hcaller x (hjobs ▸ hx)
    · exact (hidle x (hjobs ▸ hx)).2
  · exact ⟨⟨hS, hP⟩, hjobs⟩

lemma Rule.create {st : ProcState} {start : Start} (h : Kept P .rest s)
    (hG : G s' (.create co pid' st start)) (hco : co ∉ s.jobs.map Prod.fst)
    (hi : s.heap i = some p) (huser : p.thread = .user) :
    Ends (syscallProcCreate m co i st start s) fun _ t => Kept P .rest t := by
  refine Res.Ends.bind (procCreate_ends st) ?_
  rintro _ _ ⟨k, pid, hnone, rfl, rfl⟩
  have hS : Sound none { s with currPid := k } := h.1.logs rfl rfl rfl rfl rfl
  obtain ⟨hrest, hstarting⟩ := R.spawn (s := { s with currPid := k }) hS (R.currPid k h.2) hG hnone
  have hspawn := hS.spawn hnone st
  have hlt : i < s.next := (h.1.slot i p hi).1
  have hidle : ∀ x ∈ s.jobs, x.2.caller ≠ s.next ∧ x.2.task ≠ .load s.next := fun x hx =>
    ⟨(h.1.born x hx).1.ne, fun hx' => absurd rfl (h.1.loading x hx s.next hx').1.ne⟩
  have hi' : ({ s with currPid := k }.spawn pid st).heap i = some p :=
    (Function.update_of_ne hlt.ne _ _).trans hi
  refine deref_bind fun q hq => ?_
  cases start with
  | noMemory => exact ⟨hspawn, hrest⟩
  | fails =>
    exact Res.Ends.bind (R.startFails ⟨hspawn, hstarting false⟩) fun _ _ ht => ht.1
  | loads =>
    dsimp only
    split
    · refine (R.procCreated ⟨hspawn, hstarting true⟩ hidle (h.1.idle hi huser) hlt.ne).mono ?_
      exact fun _ _ ht => ht.1
    · refine holdProc_bind fun kernel hkernel => ?_
      obtain ⟨kp, hkp, -⟩ := hspawn.table _ _ hkernel
      refine ⟨hspawn.suspend hco hi' huser (fun j hj => ?_) (fun n hn => ?_) nofun nofun,
        R.load hspawn hrest (hstarting true) hq hi' huser⟩
      · cases hj
        exact (hspawn.slot kernel kp hkp).1
      · cases hn
        refine ⟨Nat.lt_succ_self _, hlt.ne', fun q' hq' => ?_, hidle⟩
        obtain rfl := Option.some.inj (hq'.symm.trans (Function.update_self _ _ _))
        exact .inl rfl

/-! ### The other calls -/

omit R in
lemma sender_bind {α : Type} {Q : α → ProcSys → Prop}
    {f : Nat → ProcSys → Res ProcSys Empty Empty Stop α}
    (h : ∀ i p, s.heap i = some p → p.thread = .user → s.procs pid = some i → Ends (f i s) Q) :
    Ends ((sender pid s).bind f) Q := by
  refine Res.Ends.bind (Q := fun i t => t = s ∧ ∃ p, s.heap i = some p ∧ p.thread = .user ∧
    s.procs pid = some i) ?_ ?_
  · exact procAt_bind fun i hi => deref_bind fun p hp => Res.Ends.check_bind fun huser =>
      ⟨rfl, p, hp, huser, hi⟩
  · rintro i _ ⟨rfl, p, hp, huser, hi⟩
    exact h i p hp huser hi

omit R in
lemma waitTarget_ends : Ends (waitTarget m pid s) fun target t => t = s ∧
    ∀ x, target = some x → ¬ (pid < -1 ∨ pid = kernelProc ∨ pid ≥ maxProcesses) →
      Waitable m s pid x := by
  unfold waitTarget
  split
  · rename_i hpid
    cases hbelow : m.below with
    | none => exact ⟨rfl, nofun⟩
    | some st =>
      cases st with
      | zombie => exact ⟨rfl, nofun⟩
      | running =>
        refine ⟨rfl, fun x hx _ => .inl ⟨hpid, ?_, .inl hbelow⟩⟩
        cases hx
        rfl
      | waiting =>
        refine ⟨rfl, fun x hx _ => .inl ⟨hpid, ?_, .inr hbelow⟩⟩
        cases hx
        rfl
  · rename_i hpid
    refine procGet_bind fun i hi => ?_
    cases i with
    | none => exact ⟨rfl, nofun⟩
    | some i =>
      refine deref_bind fun p hp => ?_
      split
      · exact ⟨rfl, nofun⟩
      · rename_i hstate
        refine ⟨rfl, fun x hx hrange => .inr ⟨?_, i, p, hi, hp, hstate, ?_⟩⟩
        · unfold kernelProc at hrange
          omega
        · cases hx
          rfl

def Entering (i : Nat) (jobs : List (Nat × Job)) (s : ProcSys) : Prop :=
  Sound (some i) s ∧ (∃ p, s.heap i = some p ∧ p.thread = .user) ∧ s.jobs = jobs

omit R in
lemma Entering.nodeSafe {jobs : List (Nat × Job)} : NodeSafe (Entering i jobs) where
  malloc _ h := ⟨Sound.nodeSafe.malloc _ h.1, h.2⟩
  node {s pid j} q h hj := by
    obtain ⟨hS, ⟨p, hp, huser⟩, hjobs⟩ := h
    refine ⟨Sound.nodeSafe.node q hS hj, ?_, hjobs⟩
    rcases eq_or_ne i j with rfl | hne
    · exact ⟨{ p with waitList := ⟨pid, q⟩ :: p.waitList },
        by simp [ProcSys.addNode, ProcSys.modifyProc, hp], huser⟩
    · exact ⟨p, by simp [ProcSys.addNode, ProcSys.modifyProc, hne, hp], huser⟩

omit R in
lemma Sound.entering (h : Sound none s) (hi : s.heap i = some p) (huser : p.thread = .user) :
    Entering i s.jobs (s.setState i .waiting) :=
  ⟨h.setWaiting hi huser, ⟨{ p with state := .waiting },
    by simp [ProcSys.setState, ProcSys.modifyProc, hi], huser⟩, rfl⟩

omit R in
lemma Entering.suspend {jobs : List (Nat × Job)} {target : Option Nat} (h : Entering i jobs s)
    (hco : co ∉ jobs.map Prod.fst) :
    Sound none ((s.modifyProc i fun p => { p with wakeCo := some co }).suspend co
      ⟨i, .wait pid target, none⟩) := by
  obtain ⟨hS, ⟨p, hp, huser⟩, rfl⟩ := h
  have hidle := hS.idle hp huser
  have hat : (s.modifyProc i fun p => { p with wakeCo := some co }).heap i =
      some { p with wakeCo := some co } := by
    simp [ProcSys.modifyProc, hp]
  have hco' : Sound (some i) (s.modifyProc i fun p => { p with wakeCo := some co }) :=
    hS.change hp rfl rfl rfl rfl (q := { p with wakeCo := some co })
      (by simp [ProcSys.modifyProc, hp]) rfl rfl (hS.owner i p hp) (hS.kids i p hp)
      (fun x hx heq => absurd heq (hidle x hx)) (fun x hx heq => (hS.loading x hx i heq).2.1 p hp)
      (fun _ _ hj => hj) (fun hne => absurd rfl hne)
      (fun _ _ _ _ hjob _ heq => absurd heq (hidle _ hjob))
  refine hco'.suspend hco hat huser (by simp) (by simp) (fun _ _ _ => ⟨rfl, rfl⟩) fun j hj => ?_
  exact ⟨(Option.some.inj hj).symm, pid, target, rfl⟩

lemma Rule.waits (h : Kept P .rest s) (hG : G s (.wait co p.pid pid))
    (hco : co ∉ s.jobs.map Prod.fst) (hi : s.heap i = some p) (huser : p.thread = .user) :
    Ends (syscallProcWait m co i pid s) fun _ t => Kept P .rest t := by
  obtain ⟨hS, hP⟩ := h
  unfold syscallProcWait
  split
  · exact ⟨hS, hP⟩
  rename_i hrange
  refine Res.Ends.bind waitTarget_ends ?_
  rintro target t ⟨rfl, htarget⟩
  cases target with
  | none => exact ⟨hS, hP⟩
  | some target => ?_
  refine deref_bind fun q hq => ?_
  rw [hi] at hq
  cases hq
  simp only [bind_apply, modify_apply, Res.bind]
  have hentering := hS.entering hi huser
  have hwait := R.wait hS hP hG hi huser (htarget target rfl hrange)
  refine Res.Ends.bind ((waitNodes_keeps Entering.nodeSafe pid p.pid _ hentering).and hwait) ?_
  exact fun _ u hu => ⟨hu.1.suspend hco, hu.2⟩

omit R in
lemma callHolder_ends {c : Call} (h : Sound none s) : Ends (callHolder pid c s) fun holder t =>
    t = s ∧ (∀ j, holder = some j → j < s.next) ∧ (c = .file → holder = s.procs pid) := by
  have hhold : ∀ pid, Ends (holdProc pid s) fun j t => t = s ∧ j < s.next ∧
      some j = s.procs pid := by
    intro pid
    refine procAt_bind fun j hj => deref_bind fun q hq => Res.Ends.check_bind fun _ => ?_
    exact ⟨rfl, (h.slot j q hq).1, hj.symm⟩
  cases c with
  | consoleRead | sleep => exact ⟨rfl, nofun, nofun⟩
  | file | fault =>
    refine (hhold _).bind fun j t ht => ⟨ht.1, fun j' hj' => ?_, ?_⟩
    · cases hj'
      exact ht.2.1
    · first | exact fun _ => ht.2.2 | exact nofun

omit R in
lemma resumed_ends : Ends (resumed co s) fun job t => (co, job) ∈ s.jobs ∧ t = s.resume co job := by
  simp only [resumed, bind_apply, get_apply, Res.bind]
  refine Res.Ends.ofOption_bind fun job hjob => ?_
  have hmem := mem_jobs_of_lookup hjob
  cases hholder : job.holder with
  | none => exact ⟨hmem, rfl⟩
  | some j => exact deref_bind fun _ _ => ⟨hmem, rfl⟩

lemma Rule.ends (h : Kept P .rest s) (e : Event) (hG : G s e) :
    Ends (e.run m s) fun _ t => Kept P .rest t := by
  obtain ⟨hS, hP⟩ := h
  have hfresh : ∀ {co} {f : Unit → ProcSys → Res ProcSys Empty Empty Stop Unit}
      {Q : Unit → ProcSys → Prop}, (co ∉ s.jobs.map Prod.fst → Ends (f ⟨⟩ s) Q) →
      Ends ((freshCo co s).bind f) Q := fun hf => Res.Ends.check_bind hf
  cases e with
  | create co pid st start =>
    exact sender_bind fun i p hi huser _ => hfresh fun hco =>
      R.create ⟨hS, hP⟩ hG hco hi huser
  | delete pid target =>
    exact sender_bind fun i p _ _ _ => Res.Ends.bind (R.zombiefy ⟨hS, hP⟩ hG) fun _ _ ht => ht
  | wait co pid target =>
    refine sender_bind fun i p hi huser hpid => hfresh fun hco => ?_
    obtain ⟨q, hq, rfl⟩ := hS.table pid i hpid
    rw [hi] at hq
    cases hq
    exact R.waits ⟨hS, hP⟩ hG hco hi huser
  | call co pid c =>
    refine sender_bind fun i p hi huser hpid => hfresh fun hco => ?_
    refine Res.Ends.bind (callHolder_ends hS) ?_
    rintro holder t ⟨rfl, hholder, hfile⟩
    exact ⟨hS.suspend hco hi huser hholder nofun nofun nofun,
      R.call hS hP hi huser fun hc => (hfile hc).trans hpid⟩
  | loaded co ok =>
    refine Res.Ends.bind resumed_ends ?_
    rintro job _ ⟨hmem, rfl⟩
    cases htask : job.task with
    | load new =>
      have hresume := hS.resume_call hmem (by simp [htask])
      have hcaller : ∀ x ∈ (s.resume co job).jobs, x.2.caller ≠ job.caller :=
        fun x hx => (hS.resume_idle hmem x hx).2.2
      obtain ⟨-, -, huniq⟩ := hS.loading _ hmem new htask
      have hidle : ∀ x ∈ (s.resume co job).jobs, x.2.caller ≠ new ∧ x.2.task ≠ .load new := by
        intro x hx
        obtain ⟨hne, hx, -⟩ := hS.resume_idle hmem x hx
        exact ⟨(huniq x hx).1, fun hx' => hne ((huniq x hx).2 hx')⟩
      have hstart := R.loaded hS hP hG hmem htask
      simp only [loadEnds, htask]
      refine Res.Ends.bind (R.procCreated ⟨hresume, hstart⟩ hidle hcaller
        (huniq _ hmem).1) fun _ t ht => ?_
      have hidle' : ∀ x ∈ t.jobs, x.2.caller ≠ job.caller := by
        rw [ht.2]
        exact hcaller
      exact ⟨ht.1.1.reply hidle', R.reply ht.1.1 ht.1.2 hidle'⟩
    | call c | wait pid target =>
      simp only [loadEnds, htask]
      trivial
  | finish co =>
    refine Res.Ends.bind resumed_ends ?_
    rintro job _ ⟨hmem, rfl⟩
    have hidle : ∀ x ∈ (s.resume co job).jobs, x.2.caller ≠ job.caller :=
      fun x hx => (hS.resume_idle hmem x hx).2.2
    cases htask : job.task with
    | call c =>
      have hresume := hS.resume_call hmem (by simp [htask])
      have hP' := R.resume hS hP hmem htask
      have hcall : Ends (callEnds job (s.resume co job)) fun _ t => t = s.resume co job := by
        simp only [callEnds, htask]
        cases c with
        | fault => exact deref_bind fun _ _ => rfl
        | file | consoleRead | sleep => rfl
      refine Res.Ends.bind hcall ?_
      rintro _ _ rfl
      exact ⟨hresume.reply hidle, R.reply hresume hP' hidle⟩
    | load new | wait pid target =>
      simp only [callEnds, htask]
      trivial
  | reap => exact R.reap ⟨hS, hP⟩ hG

end

lemma Rule.step (R : Rule m G P) {e : Event} (hS : Sound none s) (hP : P .rest s) (hG : G s e)
    (hstep : ProcStep m s e t) : Sound none t ∧ P .rest t := by
  have hends := R.ends ⟨hS, hP⟩ e hG
  rw [hstep] at hends
  exact hends

lemma ends_true {α : Type} (x : Res ProcSys Empty Empty Stop α) : Ends x fun _ _ => True := by
  cases x with
  | done a t => trivial
  | fail e => trivial
  | susp i t k => exact nomatch i

lemma sound_booted (st : ProcState) : Sound none (booted st) := by
  have hcases : ∀ {i p}, (booted st).heap i = some p →
      i = 0 ∧ p = ⟨0, st, false, 0, [], [], none, .unborn, []⟩ ∨
      i = 1 ∧ p = ⟨1, .running, true, 0, [], [], none, .user, []⟩ := by
    intro i p hi
    simp only [booted] at hi
    split at hi
    · exact .inl ⟨‹_›, (Option.some.inj hi).symm⟩
    · split at hi
      · exact .inr ⟨‹_›, (Option.some.inj hi).symm⟩
      · cases hi
  refine ⟨?_, ?_, List.nodup_nil, ?_, ?_, ?_, List.nodup_nil, List.nodup_nil, nofun, nofun, nofun,
    ?_, nofun, ?_⟩
  · intro pid i hi
    simp only [booted] at hi
    split at hi
    · cases hi
      exact ⟨_, rfl, ‹pid = 0›.symm⟩
    · split at hi
      · cases hi
        exact ⟨_, rfl, ‹pid = 1›.symm⟩
      · cases hi
  · intro i p hi
    rcases hcases hi with ⟨rfl, rfl⟩ | ⟨rfl, rfl⟩
    · exact ⟨Nat.zero_lt_two, rfl⟩
    · exact ⟨Nat.one_lt_two, rfl⟩
  · intro i
    refine ⟨nofun, fun ⟨hlt, hnone⟩ => ?_⟩
    have hi : i = 0 ∨ i = 1 := by
      change i < 2 at hlt
      omega
    rcases hi with rfl | rfl
    · cases hnone
    · cases hnone
  · intro i p hi
    rcases hcases hi with ⟨-, rfl⟩ | ⟨-, rfl⟩
    · exact nofun
    · exact nofun
  · intro i p hi
    rcases hcases hi with ⟨-, rfl⟩ | ⟨-, rfl⟩
    · exact nofun
    · exact nofun
  · intro i p _ hi _ co hco
    rcases hcases hi with ⟨-, rfl⟩ | ⟨-, rfl⟩
    · cases hco
    · cases hco
  · intro i p hi
    rcases hcases hi with ⟨-, rfl⟩ | ⟨-, rfl⟩
    · rfl
    · rfl

lemma Rule.run (R : Rule m G P) {st : ProcState} (h0 : P .rest (booted st))
    (hrun : Lts.Run (ProcStep m) G (booted st) s) : Sound none s ∧ P .rest s :=
  hrun.invariant ⟨sound_booted st, h0⟩ fun h hG hstep => R.step h.1 h.2 hG hstep

end Rule

end SpaghettiOS.Process
