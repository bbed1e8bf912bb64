import SpaghettiOS.Proc.Rule

/-!
# Pids from clients

`syscall_proc_delete`, `syscall_proc_wait` and `syscall_proc_status` take a number from
message register 1.  The first tests its pid and goes on all the same; the second lets -1
pass; the third takes the number of descriptors for a bound of the pids.  The other pids
they use are in the table in every state of a run.
-/

namespace SpaghettiOS.Process

open Fs (ProcState)
open Coro (bind_apply get_apply modify_apply pure_apply)
open Coroutine (Res)
open Pids (InTable)
open Vm (Word)

/-! ## The handlers -/

/-- `pid_t pid = seL4_GetMR(1)`: the low half of the register, with its sign. -/
def toPid (w : Word) : Int := (w.setWidth 32).toInt

/-- `syscall_proc_delete`.  The reply that the test sets is overwritten. -/
def syscallProcDelete (m : Machine) (w : Word) : ProcM Int := zombiefy m (toPid w)

/-- `syscall_proc_wait`, up to the suspension: the reply, unless it is suspended.  The
entry is looked at for whatever passes the first test. -/
def syscallProcWaitReply (m : Machine) (co curproc : Nat) (w : Word) : ProcM (Option Int) :=
  let pid := toPid w
  if pid < -1 ∨ pid = kernelProc ∨ pid ≥ maxProcesses then pure (some (-1))
  else do
    let _ ← procGet pid
    let target ← waitTarget m pid
    match target with
    | none => pure (some (-1))
    | some target => do
        waitFor m co curproc pid target
        pure none

/-- The loop of `syscall_proc_status`: the processes from `id` on, for `n` pids. -/
def activeProcs : Nat → Int → ProcM (List (Int × Nat))
  | 0, _ => pure []
  | n + 1, id => do
      let curr ← procGet id
      let rest ← activeProcs n (id + 1)
      match curr with
      | none => pure rest
      | some i => pure ((id, i) :: rest)

/-- `unsigned int max = seL4_GetMR(1)`. -/
def toMax (w : Word) : Nat := (w.setWidth 32).toNat

/-- The loop runs from 1 to `max`, and `max` is not looked at. -/
def syscallProcStatus (w : Word) : ProcM (List (Int × Nat)) := activeProcs (toMax w - 1) 1

/-! ## Pids on lists -/

structure Proc.Listed (p : Proc) : Prop where
  pid : InTable p.pid
  child : ∀ c ∈ p.childList, InTable c
  waiter : ∀ n ∈ p.waitList, InTable n.pidToWake

def Bounded (s : ProcSys) : Prop := ∀ i p, s.heap i = some p → p.Listed

variable {node : WaitNode} {child : Int}

section Bounded

variable {s t : ProcSys} {i : Nat} {p : Proc} {pid : Int}

variable (h : Bounded s)

include h

lemma Bounded.same (hheap : t.heap = s.heap) : Bounded t := by
  intro i p hi
  exact h i p (hheap ▸ hi)

lemma Bounded.modifyProc {f : Proc → Proc} (hf : ∀ p, p.Listed → (f p).Listed) :
    Bounded (s.modifyProc i f) := by
  intro j p hj
  rcases eq_or_ne j i with rfl | hne
  · have hj' : (s.heap j).map f = some p := by simpa [ProcSys.modifyProc] using hj
    obtain ⟨q, hq, rfl⟩ := Option.map_eq_some_iff.mp hj'
    exact hf q (h j q hq)
  · exact h j p (by simpa [ProcSys.modifyProc, hne] using hj)

lemma Bounded.setState (state : ProcState) : Bounded (s.setState i state) :=
  (h.modifyProc (f := fun p => { p with state }) fun _ hp =>
    ⟨hp.pid, hp.child, hp.waiter⟩).same rfl

lemma Bounded.setWakeCo (co : Nat) :
    Bounded (s.modifyProc i fun p => { p with wakeCo := some co }) :=
  h.modifyProc fun _ hp => ⟨hp.pid, hp.child, hp.waiter⟩

lemma Bounded.setThread (thread : Thread) : Bounded (s.setThread i thread) :=
  h.modifyProc fun _ hp => ⟨hp.pid, hp.child, hp.waiter⟩

lemma Bounded.reply : Bounded (s.reply i) :=
  h.modifyProc fun _ hp => ⟨hp.pid, hp.child, hp.waiter⟩

lemma Bounded.addNode (hnode : InTable node.pidToWake) : Bounded (s.addNode i node) :=
  h.modifyProc fun _ hp => ⟨hp.pid, hp.child, List.forall_mem_cons.mpr ⟨hnode, hp.waiter⟩⟩

lemma Bounded.adopt (hchild : InTable child) : Bounded (s.adopt i child) := by
  have hadd : Bounded (s.modifyProc i fun p => { p with childList := child :: p.childList }) :=
    h.modifyProc fun _ hp => ⟨hp.pid, List.forall_mem_cons.mpr ⟨hchild, hp.child⟩, hp.waiter⟩
  unfold ProcSys.adopt
  split
  · exact hadd
  · exact hadd.modifyProc fun _ hp => ⟨hp.pid, hp.child, hp.waiter⟩

lemma Bounded.addCount (k : Int) (holder : Option Nat) : Bounded (s.addCount k holder) := by
  cases holder with
  | none => exact h
  | some j => exact h.modifyProc fun _ hp => ⟨hp.pid, hp.child, hp.waiter⟩

lemma Bounded.suspend (co : Nat) (job : Job) : Bounded (s.suspend co job) :=
  ((h.addCount 1 job.holder).setThread .blocked).same rfl

lemma Bounded.resume (co : Nat) (job : Job) : Bounded (s.resume co job) :=
  (h.addCount (-1) job.holder).same rfl

lemma Bounded.spawn (hpid : InTable pid) (state : ProcState) : Bounded (s.spawn pid state) := by
  intro j p hj
  rcases eq_or_ne j s.next with rfl | hne
  · obtain rfl := Option.some.inj (hj.symm.trans (Function.update_self ..))
    exact ⟨hpid, nofun, nofun⟩
  · exact h j p (by simpa [ProcSys.spawn, hne] using hj)

lemma Bounded.free (pid : Int) : Bounded (s.free i pid) := by
  intro j p hj
  rcases eq_or_ne j i with rfl | hne
  · simp [ProcSys.free] at hj
  · exact h j p (by simpa [ProcSys.free, hne] using hj)

end Bounded

/-! ## Stretches that stay in the table -/

section Within

variable {α β : Type} {m : Machine} {s t : ProcSys} {i : Nat} {pid : Int} {p : Proc}
variable {Q : α → ProcSys → Prop} {R : β → ProcSys → Prop}

/-- The stretch does not look outside of the table, and ends as `Q` says if it does. -/
def Within (Q : α → ProcSys → Prop) : Res ProcSys Empty Empty Stop α → Prop
  | .done a t => Q a t
  | .fail e => e ≠ .outOfBounds
  | .susp _ _ _ => True

lemma Within.bind {x : Res ProcSys Empty Empty Stop α}
    {f : α → ProcSys → Res ProcSys Empty Empty Stop β} (h : Within Q x)
    (hf : ∀ a t, Q a t → Within R (f a t)) : Within R (x.bind f) := by
  cases x with
  | done a t => exact hf a t h
  | fail e => exact h
  | susp i t k => trivial

lemma Within.ends {x : Res ProcSys Empty Empty Stop α} (h : Within Q x) : Ends x Q := by
  cases x with
  | done a t => exact h
  | fail e => trivial
  | susp i t k => exact nomatch i

lemma Within.ne {x : Res ProcSys Empty Empty Stop α} (h : Within Q x) : x ≠ .fail .outOfBounds := by
  rintro rfl
  exact h rfl

lemma procGet_inside (hpid : InTable pid) (s : ProcSys) :
    procGet pid s = .done (s.procs pid) s := by
  show ((Coro.check (InTable pid) _) s).bind _ = _
  rw [Coro.check, if_pos hpid]
  rfl

lemma procGet_outside (hpid : ¬ InTable pid) (s : ProcSys) :
    procGet pid s = .fail .outOfBounds := by
  show ((Coro.check (InTable pid) _) s).bind _ = _
  rw [Coro.check, if_neg hpid]
  rfl

lemma procGet_within {f : Option Nat → ProcSys → Res ProcSys Empty Empty Stop α}
    (hpid : InTable pid) (h : ∀ i, s.procs pid = i → Within Q (f i s)) :
    Within Q ((procGet pid s).bind f) := by
  rw [procGet_inside hpid]
  exact h _ rfl

lemma procAt_within {f : Nat → ProcSys → Res ProcSys Empty Empty Stop α}
    (hpid : InTable pid) (h : ∀ i, s.procs pid = some i → Within Q (f i s)) :
    Within Q ((procAt pid s).bind f) := by
  refine Within.bind (Q := fun i t => t = s ∧ s.procs pid = some i) ?_ ?_
  · refine procGet_within hpid fun i hi => ?_
    cases i with
    | none => exact nofun
    | some i => exact ⟨rfl, hi⟩
  · rintro i _ ⟨rfl, hi⟩
    exact h i hi

lemma deref_within {f : Proc → ProcSys → Res ProcSys Empty Empty Stop α}
    (h : ∀ p, s.heap i = some p → Within Q (f p s)) : Within Q ((deref i s).bind f) := by
  simp only [deref, bind_apply, get_apply, Res.bind]
  cases hp : s.heap i with
  | none =>
    intro h
    cases h
  | some p => exact h p hp

lemma forM_within {f : β → ProcM PUnit} {P : ProcSys → Prop} (l : List β)
    (hf : ∀ b ∈ l, ∀ s, P s → Within (fun _ => P) (f b s)) (hs : P s) :
    Within (fun _ => P) (l.forM f s) := by
  induction l generalizing s with
  | nil => exact hs
  | cons b l ih =>
    refine Within.bind (hf b List.mem_cons_self s hs) fun _ t ht => ?_
    exact ih (fun c hc => hf c (List.mem_cons_of_mem _ hc)) ht

/-! ### The functions on lists -/

lemma initProc_inTable : InTable initProc := by decide

lemma zombiefy_outside (hpid : ¬ InTable pid) : zombiefy m pid s = .fail .outOfBounds := by
  simp only [zombiefy, bind_apply, procGet_outside hpid, Res.bind]

variable (hB : Bounded s)

include hB

lemma mallocNode_within :
    Within (fun _ t => Bounded t) (mallocNode m s) := hB.same rfl

lemma procWaitListAdd_within {q : Int} (hpid : InTable pid) (hq : InTable q) :
    Within (fun _ => Bounded) (procWaitListAdd m pid q s) := by
  simp only [procWaitListAdd, bind_apply]
  refine (mallocNode_within hB).bind fun node t ht => ?_
  split
  · exact procAt_within hpid fun i _ => ht.addNode hq
  · exact ht

lemma addChild_within (hpid : InTable pid) (hchild : InTable child) :
    Within (fun _ => Bounded) (addChild m pid child s) := by
  simp only [addChild, bind_apply]
  refine (mallocNode_within hB).bind fun node t ht => ?_
  split
  · exact procAt_within hpid fun i _ => ht.adopt hchild
  · exact ht

lemma waitAllChild_within (hpid : InTable pid) :
    Within (fun _ => Bounded) (waitAllChild m pid s) := by
  refine procAt_within hpid fun i _ => deref_within fun p hp => ?_
  refine forM_within p.childList (fun c hc s hs => ?_) hB
  have hchild := (hB i p hp).child c hc
  refine procGet_within hchild fun j _ => ?_
  cases j with
  | none => exact hs
  | some j => exact (procWaitListAdd_within hs hpid hchild).bind fun _ _ ht => ht

lemma waitNodes_within {curpid : Int} (hpid : 1 ≤ pid → InTable pid)
    (hcur : InTable curpid) : Within (fun _ => Bounded) (waitNodes m pid curpid s) := by
  unfold waitNodes
  split
  · rename_i hone
    exact (procWaitListAdd_within hB (hpid hone) hcur).bind fun _ _ ht => ht
  · exact waitAllChild_within hB hcur

lemma reparent_within (hchild : InTable child) :
    Within (fun _ => Bounded) (reparent m child s) := by
  refine procGet_within hchild fun i _ => ?_
  cases i with
  | none => exact hB
  | some i =>
    refine (procWaitListAdd_within hB hchild initProc_inTable).bind fun _ t ht => ?_
    exact (addChild_within ht initProc_inTable hchild).bind fun _ _ hu => hu

lemma destroyChildList_within (hpid : InTable pid) :
    Within (fun _ => Bounded) (destroyChildList m pid s) := by
  refine procAt_within hpid fun i _ => deref_within fun p hp => ?_
  exact forM_within p.childList (fun c hc _ hs => reparent_within hs ((hB i p hp).child c hc)) hB

lemma addReapList_within : Within (fun _ => Bounded) (addReapList m pid s) := by
  simp only [addReapList, bind_apply]
  refine (mallocNode_within hB).bind fun node t ht => ?_
  split
  · exact ht.same rfl
  · exact ht

/-! ### The end of a process -/

lemma waitResumed_within {cause co : Nat} {job : Job} {target : Option Nat}
    (hnode : InTable node.pidToWake) :
    Within (fun _ => Bounded) (waitResumed cause co job pid target node s) :=
  procAt_within (s := s.resume co job) hnode fun _ _ =>
    (((hB.resume co job).setState .running).reply).same rfl

lemma wakeNode_within {cause : Nat} (hnode : InTable node.pidToWake) :
    Within (fun _ => Bounded) (wakeNode cause node s) := by
  refine procGet_within hnode fun i _ => ?_
  cases i with
  | none => exact hB
  | some i =>
    refine deref_within fun p _ => ?_
    split
    · cases p.wakeCo with
      | none => exact nofun
      | some co =>
        simp only [Coro.ofOption, bind_apply, pure_apply, get_apply, Res.bind]
        cases s.jobs.lookup co with
        | none => exact nofun
        | some job =>
          obtain ⟨caller, task, holder⟩ := job
          cases task with
          | wait pid target => exact waitResumed_within hB hnode
          | call c => exact nofun
          | load new => exact nofun
    · exact hB

lemma procWaitWakeup_within (hpid : InTable pid) :
    Within (fun _ => Bounded) (procWaitWakeup pid s) := by
  refine procAt_within hpid fun i _ => deref_within fun p hp => ?_
  exact forM_within p.waitList (fun n hn _ hs => wakeNode_within hs ((hB i p hp).waiter n hn)) hB

lemma retire_within (hpid : InTable pid) : Within (fun _ => Bounded) (retire m i pid s) := by
  have hz : Bounded { s.setState i .zombie with zombiefied := pid :: s.zombiefied } :=
    (hB.setState .zombie).same rfl
  have hreap : Within (fun _ => Bounded) (addReapList m pid _) := addReapList_within hz
  refine hreap.bind fun r t ht => ?_
  show Within _ ((Coro.check (r = 0) .assertion t).bind _)
  unfold Coro.check
  split
  · refine (destroyChildList_within ht hpid).bind fun _ u hu => ?_
    exact (procWaitWakeup_within hu hpid).bind fun _ v hv => hv.setThread .suspended
  · exact nofun

lemma zombiefy_within (hpid : InTable pid) : Within (fun _ => Bounded) (zombiefy m pid s) := by
  refine procGet_within hpid fun i _ => ?_
  cases i with
  | none => exact hB
  | some i =>
    refine deref_within fun p _ => ?_
    split
    · exact hB
    · split
      · exact hB
      · exact (retire_within hB hpid).bind fun _ _ ht => ht

end Within

/-! ## Runs -/

section Run

variable {m : Machine} {s t : ProcSys} {i new : Nat} {pid : Int} {p : Proc}

section Event

variable (hB : Bounded s)

include hB

lemma findNextPid_bounded : Ends (findNextPid s) fun _ => Bounded := by
  simp only [findNextPid, bind_apply, get_apply, Res.bind]
  refine Res.Ends.bind (searchPid_ends _ _ _) ?_
  rintro found t ⟨rfl, -⟩
  cases found with
  | none => exact hB
  | some pid => exact hB.same rfl

lemma procCreate_bounded (st : ProcState) : Ends (procCreate st s) fun _ => Bounded :=
  (findNextPid_bounded hB).bind fun _ _ ht => Res.Ends.check_bind fun hrange => ht.spawn hrange st

lemma startFails_bounded : Ends (startFails new s) fun r t => Bounded t ∧ r = -1 := by
  refine deref_bind fun p _ => ?_
  have hz : Bounded (s.setState new .zombie) := hB.setState .zombie
  simp only [bind_apply, modify_apply, Res.bind]
  refine Res.Ends.bind (Q := fun _ => Bounded) ?_ fun _ _ ht => ⟨ht, rfl⟩
  exact procDestroy_ends (fun _ _ _ _ _ => hz) fun _ _ _ _ _ _ => hz.free _

lemma startEnds_bounded (ok : Bool) :
    Ends (startEnds new ok s) fun r t => Bounded t ∧ (2 ≤ r → InTable r) := by
  cases ok with
  | true =>
    refine deref_bind fun p hp => ?_
    exact ⟨(hB.setState .running).setThread .user, fun _ => (hB new p hp).pid⟩
  | false =>
    refine (startFails_bounded hB).mono ?_
    rintro r t ⟨ht, rfl⟩
    exact ⟨ht, by decide⟩

lemma procCreated_bounded (caller : Nat) (ok : Bool) :
    Ends (procCreated m caller new ok s) fun _ => Bounded := by
  refine (startEnds_bounded hB ok).bind fun r t ht => ?_
  split
  · rename_i hr
    refine deref_bind fun q hq => ?_
    exact Res.Ends.bind (addChild_within ht.1 (ht.1 caller q hq).pid (ht.2 hr)).ends
      fun _ _ hu => hu
  · exact ht.1

lemma syscallProcCreate_bounded (co : Nat) (st : ProcState) (start : Start) :
    Ends (syscallProcCreate m co i st start s) fun _ => Bounded := by
  refine (procCreate_bounded hB st).bind fun new t ht => deref_bind fun q _ => ?_
  cases start with
  | noMemory => exact ht
  | fails => exact (startFails_bounded ht).bind fun _ _ hu => hu.1
  | loads =>
    dsimp only
    split
    · exact procCreated_bounded ht i true
    · exact holdProc_bind fun kernel _ => ht.suspend co _

lemma syscallProcWait_bounded (co : Nat) :
    Ends (syscallProcWait m co i pid s) fun _ => Bounded := by
  unfold syscallProcWait
  split
  · exact hB
  · rename_i hrange
    refine Res.Ends.bind waitTarget_ends ?_
    rintro target t ⟨rfl, -⟩
    cases target with
    | none => exact hB
    | some target =>
      refine deref_bind fun p hp => ?_
      have hin : 1 ≤ pid → InTable pid := fun hone => ⟨by omega, by omega⟩
      simp only [bind_apply, modify_apply, Res.bind]
      refine Res.Ends.bind
        (waitNodes_within (hB.setState .waiting) hin (hB i p hp).pid).ends fun _ u hu => ?_
      exact (hu.setWakeCo co).suspend co _

lemma callHolder_bounded (c : Call) : Ends (callHolder pid c s) fun _ => Bounded := by
  cases c with
  | file => exact holdProc_bind fun _ _ => hB
  | fault => exact holdProc_bind fun _ _ => hB
  | consoleRead => exact hB
  | sleep => exact hB

lemma event_bounded (e : Event) : Ends (e.run m s) fun _ => Bounded := by
  cases e with
  | create co pid st start =>
    exact sender_bind fun _ _ _ _ _ => Res.Ends.check_bind fun _ =>
      syscallProcCreate_bounded hB co st start
  | delete pid target =>
    refine sender_bind fun _ _ _ _ _ => ?_
    by_cases hin : InTable target
    · exact Res.Ends.bind (zombiefy_within hB hin).ends fun _ _ ht => ht
    · refine Res.Ends.bind (Q := fun _ => Bounded) ?_ fun _ _ ht => ht
      rw [zombiefy_outside hin]
      trivial
  | wait co pid target =>
    exact sender_bind fun _ _ _ _ _ => Res.Ends.check_bind fun _ => syscallProcWait_bounded hB co
  | call co pid c =>
    refine sender_bind fun _ _ _ _ _ => Res.Ends.check_bind fun _ => ?_
    exact (callHolder_bounded hB c).bind fun _ _ ht => ht.suspend co _
  | loaded co ok =>
    refine Res.Ends.bind resumed_ends ?_
    rintro job _ ⟨-, rfl⟩
    have hresume : Bounded (s.resume co job) := hB.resume co job
    refine Res.Ends.bind (Q := fun _ => Bounded) ?_ fun _ _ ht => ht.reply
    unfold loadEnds
    cases job.task with
    | load new => exact procCreated_bounded hresume job.caller ok
    | call c => trivial
    | wait pid target => trivial
  | finish co =>
    refine Res.Ends.bind resumed_ends ?_
    rintro job _ ⟨-, rfl⟩
    have hresume : Bounded (s.resume co job) := hB.resume co job
    refine Res.Ends.bind (Q := fun _ => Bounded) ?_ fun _ _ ht => ht.reply
    unfold callEnds
    cases job.task with
    | call c =>
      cases c with
      | fault => exact deref_bind fun _ _ => hresume
      | file | consoleRead | sleep => exact hresume
    | load new => trivial
    | wait pid target => trivial
  | reap =>
    exact reap_ends (fun _ => hB) (fun _ _ _ _ _ _ _ _ => hB) fun pid _ i _ _ _ _ _ _ =>
      (hB.free (i := i) pid).same rfl

end Event

lemma bounded_booted (st : ProcState) : Bounded (booted st) := by
  intro i p hi
  simp only [booted] at hi
  split at hi
  · obtain rfl := Option.some.inj hi
    exact ⟨show InTable 0 by decide, by simp, by simp⟩
  · split at hi
    · obtain rfl := Option.some.inj hi
      exact ⟨show InTable 1 by decide, by simp, by simp⟩
    · cases hi

lemma bounded_run {st : ProcState} (hrun : Lts.Run (ProcStep m) Lts.anyStep (booted st) s) :
    Bounded s := by
  refine hrun.invariant (bounded_booted st) fun {s t e} hB _ hstep => ?_
  have hends := event_bounded (m := m) hB e
  rw [hstep] at hends
  exact hends

/-! ## The three handlers -/

lemma activeProcs_within {n : Nat} {id : Int} (hid : 0 ≤ id)
    (hn : id + (n : Int) ≤ maxProcesses) : Within (fun _ t => t = s) (activeProcs n id s) := by
  induction n generalizing id with
  | zero => rfl
  | succ n ih =>
    refine procGet_within ⟨hid, by omega⟩ fun curr _ => ?_
    refine Within.bind (ih (by omega) (by omega)) ?_
    rintro rest _ rfl
    cases curr with
    | none => rfl
    | some i => rfl

lemma activeProcs_outside {n : Nat} {id : Int} (hid : 0 ≤ id) (hle : id ≤ maxProcesses)
    (hn : maxProcesses < id + (n : Int)) : activeProcs n id s = .fail .outOfBounds := by
  induction n generalizing id with
  | zero => omega
  | succ n ih =>
    rw [activeProcs]
    by_cases hlast : id = maxProcesses
    · have hout : ¬ InTable id := fun hin => absurd hin.2 (by omega)
      simp only [bind_apply, procGet_outside hout, Res.bind]
    · have hget : procGet id s = .done (s.procs id) s := procGet_inside ⟨hid, by omega⟩ s
      have hrest : activeProcs n (id + 1) s = .fail .outOfBounds :=
        ih (by omega) (by omega) (by push_cast at hn ⊢; omega)
      simp only [bind_apply, hget, Res.bind, hrest]

/-- The system calls that take a number from message register 1. -/
inductive PidCall where
  | delete
  | wait (co curproc : Nat)
  | status
deriving DecidableEq, Repr

def PidCall.handler (m : Machine) (w : Word) : PidCall → ProcM (Option Int)
  | .delete => do
      let ret ← syscallProcDelete m w
      pure (some ret)
  | .wait co curproc => syscallProcWaitReply m co curproc w
  | .status => do
      let processes ← syscallProcStatus w
      pure (some processes.length)

/-- The handler looks only at entries of the table; and a pid that is not in the table gets
the reply -1 and changes nothing. -/
def Validates (m : Machine) (s : ProcSys) (call : PidCall) (w : Word) : Prop :=
  call.handler m w s ≠ .fail .outOfBounds ∧
    (call ≠ .status → ¬ InTable (toPid w) → call.handler m w s = .done (some (-1)) s)

def PidCall.Accepts (w : Word) : PidCall → Prop
  | .delete => InTable (toPid w)
  | .wait _ _ => toPid w ≠ -1
  | .status => (toMax w : Int) ≤ maxProcesses

lemma delete_validates_iff (hB : Bounded s) (w : Word) :
    Validates m s .delete w ↔ InTable (toPid w) := by
  constructor
  · rintro ⟨hne, -⟩
    by_contra hout
    refine hne ?_
    simp only [PidCall.handler, syscallProcDelete, bind_apply, zombiefy_outside hout, Res.bind]
  · intro hin
    have hwithin : Within (fun _ => Bounded) (PidCall.handler m w .delete s) :=
      (zombiefy_within hB hin).bind fun _ _ ht => ht
    exact ⟨hwithin.ne, fun _ hout => absurd hin hout⟩

lemma waitTarget_within (hpid : InTable pid) : Within (fun _ t => t = s) (waitTarget m pid s) := by
  unfold waitTarget
  rw [if_neg (by have := hpid.1; omega)]
  refine procGet_within hpid fun i _ => ?_
  cases i with
  | none => rfl
  | some i =>
    refine deref_within fun p _ => ?_
    split
    · rfl
    · rfl

lemma syscallProcWaitReply_within (hB : Bounded s) (co curproc : Nat) {w : Word}
    (hw : toPid w ≠ -1) : Within (fun _ _ => True) (syscallProcWaitReply m co curproc w s) := by
  unfold syscallProcWaitReply
  split
  · trivial
  · rename_i hrange
    have hin : InTable (toPid w) := ⟨by omega, by omega⟩
    refine procGet_within hin fun _ _ => (waitTarget_within hin).bind ?_
    rintro target t rfl
    cases target with
    | none => trivial
    | some target =>
      have hwait : Within (fun _ _ => True) (waitFor m co curproc (toPid w) target t) := by
        refine deref_within fun p hp => ?_
        simp only [bind_apply, modify_apply, Res.bind]
        exact (waitNodes_within (hB.setState .waiting) (fun _ => hin)
          (hB curproc p hp).pid).bind fun _ _ _ => trivial
      exact hwait.bind fun _ _ _ => trivial

lemma wait_validates_iff (hB : Bounded s) (co curproc : Nat) (w : Word) :
    Validates m s (.wait co curproc) w ↔ toPid w ≠ -1 := by
  constructor
  · rintro ⟨hne, -⟩ hw
    refine hne ?_
    have hout : ¬ InTable (toPid w) := by
      rw [hw]
      decide
    have hrange : ¬ (toPid w < -1 ∨ toPid w = kernelProc ∨ toPid w ≥ maxProcesses) := by
      rw [hw]
      decide
    simp only [PidCall.handler, syscallProcWaitReply, if_neg hrange, bind_apply,
      procGet_outside hout, Res.bind]
  · intro hw
    refine ⟨(syscallProcWaitReply_within hB co curproc hw).ne, fun _ hout => ?_⟩
    have hrange : toPid w < -1 ∨ toPid w = kernelProc ∨ toPid w ≥ maxProcesses := by
      by_contra hrange
      exact hout ⟨by omega, by omega⟩
    simp only [PidCall.handler, syscallProcWaitReply, if_pos hrange, pure_apply]

lemma status_validates_iff (w : Word) :
    Validates m s .status w ↔ (toMax w : Int) ≤ maxProcesses := by
  constructor
  · rintro ⟨hne, -⟩
    by_contra hlarge
    refine hne ?_
    have hfail : syscallProcStatus w s = .fail .outOfBounds :=
      activeProcs_outside (by decide) (by decide) (by omega)
    simp only [PidCall.handler, bind_apply, hfail, Res.bind]
  · intro hle
    have hlast : 1 + ((toMax w - 1 : Nat) : Int) ≤ maxProcesses := by
      simp only [maxProcesses] at hle ⊢
      omega
    have hwithin : Within (fun _ t => t = s) (PidCall.handler m w .status s) :=
      (activeProcs_within (by decide) hlast).bind fun _ _ ht => ht
    exact ⟨hwithin.ne, fun hne => absurd rfl hne⟩

/-- In every state of a run, a handler validates exactly these numbers from the register:
`delete` the pids of the table, `wait` all but -1, and `status` those up to 32. -/
theorem pidCall_validates_iff {st : ProcState}
    (hrun : Lts.Run (ProcStep m) Lts.anyStep (booted st) s) (call : PidCall) (w : Word) :
    Validates m s call w ↔ call.Accepts w := by
  have hB := bounded_run hrun
  cases call with
  | delete => exact delete_validates_iff hB w
  | wait co curproc => exact wait_validates_iff hB co curproc w
  | status => exact status_validates_iff w

theorem pidCall_validates_last : Validates plainMachine (booted .running) (.wait 0 1) 31 :=
  (pidCall_validates_iff .refl (.wait 0 1) 31).mpr (show toPid 31 ≠ -1 by decide)

theorem pidCall_outside :
    ¬ Validates plainMachine (booted .running) .delete 32 ∧
      ¬ Validates plainMachine (booted .running) (.wait 0 1) (-1) ∧
      ¬ Validates plainMachine (booted .running) .status 33 :=
  ⟨fun hvalid => hvalid.1 rfl, fun hvalid => hvalid.1 rfl, fun hvalid => hvalid.1 rfl⟩

end Run

end SpaghettiOS.Process
