import SpaghettiOS.Proc.Rule

/-!
# Who is woken, and why

A process that ends wakes the processes that its wait list names, as long as they wait,
whatever they wait for.  The nodes of the list are not only put there by
`syscall_proc_wait`, and a node stays when the pid in it belongs to another process.
-/

namespace SpaghettiOS.Process

open Fs (ProcState)
open Coroutine (Res)

/-! ## What the changes leave alone -/

namespace ProcSys

def pidOf (s : ProcSys) (i : Nat) : Option Int := (s.heap i).map Proc.pid

def Waiting (s : ProcSys) (w : Nat) : Prop := (s.heap w).map Proc.state = some .waiting

instance (s : ProcSys) (w : Nat) : Decidable (s.Waiting w) := inferInstanceAs (Decidable (_ = _))

section Fields

variable {α : Type} {f : Proc → α}

lemma map_modifyProc {g : Proc → Proc} (hf : ∀ p, f (g p) = f p) (s : ProcSys) (i j : Nat) :
    ((s.modifyProc i g).heap j).map f = (s.heap j).map f := by
  rcases eq_or_ne j i with rfl | hne
  · simp only [modifyProc, Function.update_self, Option.map_map]
    exact congrArg (Option.map · (s.heap j)) (funext hf)
  · simp only [modifyProc, Function.update_of_ne hne]

lemma map_setState (hf : ∀ p st, f { p with state := st } = f p) (s : ProcSys) (i : Nat)
    (st : ProcState) (j : Nat) : ((s.setState i st).heap j).map f = (s.heap j).map f :=
  map_modifyProc (fun p => hf p st) s i j

lemma map_addNode (hf : ∀ p l, f { p with waitList := l } = f p) (s : ProcSys) (i : Nat)
    (n : WaitNode) (j : Nat) : ((s.addNode i n).heap j).map f = (s.heap j).map f :=
  map_modifyProc (fun p => hf p _) s i j

lemma map_reply (hf : ∀ p th, f { p with thread := th } = f p) (s : ProcSys) (i j : Nat) :
    ((s.reply i).heap j).map f = (s.heap j).map f :=
  map_modifyProc (fun p => hf p _) s i j

lemma map_addCount (hf : ∀ p k, f { p with coroCount := k } = f p) (s : ProcSys) (k : Int)
    (holder : Option Nat) (j : Nat) : ((s.addCount k holder).heap j).map f = (s.heap j).map f := by
  cases holder with
  | none => rfl
  | some i => exact map_modifyProc (fun p => hf p _) s i j

lemma map_suspend (hcount : ∀ p k, f { p with coroCount := k } = f p)
    (hthread : ∀ p th, f { p with thread := th } = f p) (s : ProcSys) (co : Nat) (job : Job)
    (j : Nat) : ((s.suspend co job).heap j).map f = (s.heap j).map f :=
  (map_modifyProc (fun p => hthread p _) (s.addCount 1 job.holder) job.caller j).trans
    (map_addCount hcount s 1 job.holder j)

lemma map_adopt (hlist : ∀ p l, f { p with childList := l } = f p)
    (hparents : ∀ p l, f { p with parents := l } = f p) (s : ProcSys) (i : Nat) (child : Int)
    (j : Nat) : ((s.adopt i child).heap j).map f = (s.heap j).map f := by
  unfold adopt
  split
  · exact map_modifyProc (fun p => hlist p _) s i j
  · exact (map_modifyProc (fun p => hparents p _) _ _ j).trans
      (map_modifyProc (fun p => hlist p _) s i j)

end Fields

lemma addCount_logs (s : ProcSys) (k : Int) (holder : Option Nat) :
    (s.addCount k holder).wakes = s.wakes ∧ (s.addCount k holder).exited = s.exited := by
  cases holder with
  | none | some i => exact ⟨rfl, rfl⟩

lemma exited_setState (s : ProcSys) (i : Nat) (st : ProcState) :
    ∀ j ∈ s.exited, j ∈ (s.setState i st).exited := by
  intro j hj
  unfold setState
  split
  · exact List.mem_cons_of_mem _ hj
  · exact hj

lemma waiting_setState {s : ProcSys} {i w : Nat} {st : ProcState} (hst : st ≠ .waiting)
    (h : (s.setState i st).Waiting w) : w ≠ i ∧ s.Waiting w := by
  have hne : w ≠ i := by
    rintro rfl
    obtain ⟨p, hp, hstate⟩ := Option.map_eq_some_iff.mp h
    simp only [setState, modifyProc, Function.update_self] at hp
    obtain ⟨q, -, rfl⟩ := Option.map_eq_some_iff.mp hp
    exact hst hstate
  refine ⟨hne, ?_⟩
  simpa [Waiting, setState, modifyProc, hne] using h

lemma pidOf_free (s : ProcSys) (i : Nat) (pid : Int) (j : Nat) :
    ∀ q ∈ (s.free i pid).pidOf j, q ∈ s.pidOf j := by
  intro q hq
  rcases eq_or_ne j i with rfl | hne
  · simp [pidOf, free] at hq
  · simpa [pidOf, free, hne] using hq

end ProcSys

/-! ## The answer to a wait -/

/-- A wait for a pid ends because the process that had the pid has ended, and gives the
pid. -/
def Right (s : ProcSys) (w : Wake) : Prop :=
  1 ≤ w.pid → w.target = some w.cause ∧ w.cause ∈ s.exited ∧ w.result = w.pid

/-- If it is a wait for a pid, then for that of process `i`. -/
def Task.Asks (i : Nat) : Task → Prop
  | .wait pid target => 1 ≤ pid → target = some i
  | .call _ | .load _ => True

/-- The process that the node names does not wait, or waits for process `i`. -/
def AskedBy (s : ProcSys) (i : Nat) (n : WaitNode) : Prop :=
  ∀ x ∈ s.jobs, s.procs n.pidToWake = some x.2.caller → s.Waiting x.2.caller → x.2.task.Asks i

/-- The wait list of a process that is deleted names no other process that waits for
something else. -/
def Asked (s : ProcSys) : Event → Prop
  | .delete _ pid => ∀ i ∈ s.procs pid, ∀ p ∈ s.heap i, p.state ≠ .zombie →
      p.protectedProc = false → ∀ n ∈ p.waitList, s.procs n.pidToWake ≠ some i → AskedBy s i n
  | .create _ _ _ _ | .wait _ _ _ | .call _ _ _ | .loaded _ _ | .finish _ | .reap => True

structure Answered (s : ProcSys) : Prop where
  right : ∀ w ∈ s.wakes, Right s w
  aimed : ∀ x ∈ s.jobs, ∀ pid i, x.2.task = .wait pid (some i) →
    i < s.next ∧ ∀ q ∈ s.pidOf i, q = pid

def AnsweredPhase : Phase → ProcSys → Prop
  | .rest, s | .starting _ _, s => Answered s
  | .retiring i, s => Answered s ∧ i ∈ s.exited ∧
      ∀ p, s.heap i = some p → ∀ n ∈ p.waitList, AskedBy s i n
  | .waking i l, s => Answered s ∧ i ∈ s.exited ∧ ∃ pid, s.pidOf i = some pid ∧
      ∀ n ∈ l, n.owner = pid ∧ AskedBy s i n

variable {m : Machine}

section Answered

variable {s t : ProcSys} {i : Nat} {p : Proc}

section

variable (h : Answered s)

include h

lemma Answered.same (hwakes : t.wakes = s.wakes) (hnext : s.next ≤ t.next)
    (hexited : ∀ i ∈ s.exited, i ∈ t.exited) (hpid : ∀ i < s.next, ∀ q ∈ t.pidOf i, q ∈ s.pidOf i)
    (hjobs : ∀ x ∈ t.jobs, x ∈ s.jobs ∨ ∀ pid i, x.2.task ≠ .wait pid (some i)) : Answered t := by
  refine ⟨fun w hw hw1 => ?_, fun x hx pid i htask => ?_⟩
  · rw [hwakes] at hw
    obtain ⟨htarget, hcause, hresult⟩ := h.right w hw hw1
    exact ⟨htarget, hexited _ hcause, hresult⟩
  · rcases hjobs x hx with hx | hx
    · obtain ⟨hlt, hall⟩ := h.aimed x hx pid i htask
      exact ⟨hlt.trans_le hnext, fun q hq => hall q (hpid i hlt q hq)⟩
    · exact absurd htask (hx pid i)

lemma Answered.modifyProc {f : Proc → Proc} (hf : ∀ p, (f p).pid = p.pid) :
    Answered (s.modifyProc i f) :=
  h.same rfl le_rfl (fun _ hi => hi)
    (fun j _ _ hq => (ProcSys.map_modifyProc hf s i j).symm.trans hq) fun _ hx => .inl hx

lemma Answered.setState (st : ProcState) : Answered (s.setState i st) := by
  have hpid : ∀ j, (s.setState i st).pidOf j = s.pidOf j :=
    s.map_setState (fun _ _ => rfl) i st
  exact h.same rfl le_rfl (s.exited_setState i st) (fun j _ _ hq => (hpid j).symm.trans hq)
    fun _ hx => .inl hx

lemma Answered.suspend {co : Nat} {job : Job}
    (hjob : ∀ pid i, job.task = .wait pid (some i) → i < s.next ∧ ∀ q ∈ s.pidOf i, q = pid) :
    Answered (s.suspend co job) := by
  obtain ⟨hwakes, hexited⟩ := s.addCount_logs 1 job.holder
  obtain ⟨-, hnext, -⟩ := addCount_fields s 1 job.holder
  have hpid : ∀ j, (s.suspend co job).pidOf j = s.pidOf j :=
    s.map_suspend (fun _ _ => rfl) (fun _ _ => rfl) co job
  refine ⟨fun w hw hw1 => ?_, fun x hx pid i htask => ?_⟩
  · obtain ⟨htarget, hcause, hresult⟩ := h.right w (hwakes ▸ hw) hw1
    exact ⟨htarget, hexited.symm ▸ hcause, hresult⟩
  · rw [hpid]
    refine (?_ : i < s.next ∧ ∀ q ∈ s.pidOf i, q = pid).imp_left fun hlt => hnext.symm ▸ hlt
    rcases List.mem_cons.mp hx with rfl | hx
    · exact hjob pid i htask
    · exact h.aimed x hx pid i htask

lemma Answered.resume (co : Nat) (job : Job) : Answered (s.resume co job) := by
  obtain ⟨hwakes, hexited⟩ := s.addCount_logs (-1) job.holder
  obtain ⟨-, hnext, -⟩ := addCount_fields s (-1) job.holder
  have hpid : ∀ j, (s.resume co job).pidOf j = s.pidOf j :=
    s.map_addCount (fun _ _ => rfl) (-1) job.holder
  exact h.same hwakes hnext.ge (fun j hj => hexited.symm ▸ hj)
    (fun j _ _ hq => (hpid j).symm.trans hq) fun x hx => .inl (List.mem_of_mem_erase hx)

lemma Answered.adopt (child : Int) : Answered (s.adopt i child) := by
  have hlist : Answered (s.modifyProc i fun p => { p with childList := child :: p.childList }) :=
    h.modifyProc fun _ => rfl
  unfold ProcSys.adopt
  split
  · exact hlist
  · exact hlist.modifyProc fun _ => rfl

lemma Answered.log {w : Wake} (hw : Right s w) :
    Answered { s with wakes := w :: s.wakes } :=
  ⟨fun v hv => (List.mem_cons.mp hv).elim (fun heq => heq ▸ hw) (h.right v), h.aimed⟩

lemma Answered.free (pid : Int) : Answered (s.free i pid) :=
  h.same rfl le_rfl (fun _ hj => hj) (fun j _ => s.pidOf_free i pid j) fun _ hx => .inl hx

end

lemma AskedBy.same {n : WaitNode} (h : AskedBy s i n) (hprocs : t.procs = s.procs)
    (hjobs : ∀ x ∈ t.jobs, x ∈ s.jobs) (hwaiting : ∀ w, t.Waiting w → s.Waiting w) :
    AskedBy t i n :=
  fun x hx hw hx' => h x (hjobs x hx) (hprocs ▸ hw) (hwaiting _ hx')

lemma Answered.nodeSafe : NodeSafe Answered where
  malloc _ h := h.same rfl le_rfl (fun _ hj => hj) (fun _ _ _ hq => hq) fun _ hx => .inl hx
  node _ h _ := h.modifyProc fun _ => rfl

lemma AnsweredPhase.reparent {child : Int} (hS : Sound none s)
    (h : AnsweredPhase (.retiring i) s) (hi : s.heap i = some p) (hne : child ≠ p.pid) :
    Ends (reparent m child s) fun _ => AnsweredPhase (.retiring i) := by
  have hmalloc : ∀ {t : ProcSys} k, AnsweredPhase (.retiring i) t →
      AnsweredPhase (.retiring i) { t with mallocs := k } :=
    fun k ht => ⟨Answered.nodeSafe.malloc k ht.1, ht.2⟩
  refine reparent_ends (fun _ => h) fun j hj t ht => ?_
  have hnode : AnsweredPhase (.retiring i) t := by
    rcases ht with ⟨-, rfl⟩ | rfl
    · exact hmalloc _ h
    · have hji : i ≠ j := by
        rintro rfl
        obtain ⟨q, hq, hpid⟩ := hS.table child i hj
        rw [hi] at hq
        cases hq
        exact hne hpid.symm
      obtain ⟨hA, hexited, hasked⟩ := hmalloc (s.mallocs + 1) h
      refine ⟨hA.modifyProc fun _ => rfl, hexited, fun q hq n hn => ?_⟩
      have hq' : s.heap i = some q := (Function.update_of_ne hji _ _).symm.trans hq
      refine (hasked q hq' n hn).same rfl (fun _ hx => hx) fun w hw => ?_
      exact ((tick s).map_addNode (fun _ _ => rfl) j _ w).symm.trans hw
  refine ⟨fun _ => hmalloc _ hnode, fun k _ => ?_⟩
  obtain ⟨hA, hexited, hasked⟩ := hmalloc (t.mallocs + 1) hnode
  have hlist := ProcSys.map_adopt (f := Proc.waitList) (fun _ _ => rfl) (fun _ _ => rfl)
    (tick t) k child i
  have hstate := ProcSys.map_adopt (f := Proc.state) (fun _ _ => rfl) (fun _ _ => rfl)
    (tick t) k child
  obtain ⟨hprocs, hjobs, -, hexited'⟩ := adopt_fields (tick t) k child
  refine ⟨hA.adopt child, hexited' ▸ hexited, fun q hq n hn => ?_⟩
  rw [hq, Option.map_some] at hlist
  obtain ⟨q', hq', heq⟩ := Option.map_eq_some_iff.mp hlist.symm
  refine (hasked q' hq' n (heq ▸ hn)).same hprocs (fun x hx => hjobs ▸ hx)
    fun w hw => (hstate w).symm.trans hw

lemma answered_rule : Rule m Asked AnsweredPhase where
  malloc {ph s} k h := by
    cases ph with
    | rest | starting new ok => exact Answered.nodeSafe.malloc k h
    | retiring i | waking i l => exact ⟨Answered.nodeSafe.malloc k h.1, h.2⟩
  reparent hS h hi _ hne := h.reparent hS hi hne
  waking hS h hi := ⟨h.1, h.2.1, _, congrArg _ hi,
    fun n hn => ⟨hS.owner _ _ hi n hn, h.2.2 _ hi n hn⟩⟩
  skip _ h _ := by
    obtain ⟨hA, hexited, pid, hpid, hl⟩ := h
    exact ⟨hA, hexited, pid, hpid, fun n hn => hl n (List.mem_cons_of_mem _ hn)⟩
  wake {s i n l w p co pid target} hS h hw hp hwaiting hco hmem := by
    obtain ⟨hA, hexited, pid', hpid, hl⟩ := h
    obtain ⟨howner, hasked⟩ := hl n List.mem_cons_self
    let u := ((s.resume co ⟨w, .wait pid target, none⟩).setState w .running).reply w
    have hu : Answered u := ((hA.resume _ _).setState _).modifyProc fun _ => rfl
    have hexited' : i ∈ u.exited := hexited
    have hpidOf : ∀ j, u.pidOf j = s.pidOf j := fun j =>
      (ProcSys.map_reply (fun _ _ => rfl) _ w j).trans
        (ProcSys.map_setState (fun _ _ => rfl) _ w .running j)
    have hwaiting' : ∀ v, u.Waiting v → s.Waiting v := fun v hv =>
      (ProcSys.waiting_setState (s := s.resume co ⟨w, .wait pid target, none⟩) (by decide)
        ((ProcSys.map_reply (fun _ _ => rfl) _ w v).symm.trans hv)).2
    have hright : Right u ⟨w, pid, target, i, n.owner⟩ := by
      intro h1
      have htarget : target = some i :=
        hasked _ hmem hw (by simp [ProcSys.Waiting, hp, hwaiting]) h1
      refine ⟨htarget, hexited', ?_⟩
      subst htarget
      exact howner.trans ((hA.aimed _ hmem pid i rfl).2 pid' hpid)
    refine ⟨hu.log hright, hexited', pid', (hpidOf i).trans hpid, fun n' hn' => ?_⟩
    obtain ⟨howner', hasked'⟩ := hl n' (List.mem_cons_of_mem _ hn')
    exact ⟨howner', hasked'.same rfl (fun x hx => List.mem_of_mem_erase hx) hwaiting'⟩
  suspended _ h := h.1.modifyProc fun _ => rfl
  currPid _ h := Answered.same h rfl le_rfl (fun _ hj => hj) (fun _ _ _ hq => hq)
    fun _ hx => .inl hx
  spawn {s s' co pid' pid st start} hS h _ _ := by
    have hspawn : Answered (s.spawn pid st) := by
      refine Answered.same h rfl (Nat.le_succ _) (fun j hj => ?_) (fun j hj q hq => ?_)
        fun _ hx => .inl hx
      · unfold ProcSys.spawn
        split
        · exact List.mem_cons_of_mem _ hj
        · exact hj
      · have hheap : (s.spawn pid st).heap j = s.heap j := Function.update_of_ne hj.ne _ _
        unfold ProcSys.pidOf at hq
        rwa [hheap] at hq
    exact ⟨hspawn, fun _ => hspawn⟩
  load _ h _ _ _ _ := Answered.suspend h nofun
  loaded _ h _ _ _ := Answered.resume h _ _
  runs _ h _ := (Answered.setState h _).modifyProc fun _ => rfl
  fails _ h _ := ⟨Answered.setState h _, fun _ => (Answered.setState h _).free _⟩
  child _ h _ _ _ _ _ := Answered.adopt h _
  call _ h _ _ _ := Answered.suspend h nofun
  resume _ h _ _ := Answered.resume h _ _
  reply _ h _ := Answered.modifyProc h fun _ => rfl
  wait {s co i p pid target} hS h _ hi huser hwait := by
    have hkeeps : NodeSafe fun t => Answered t ∧ t.next = s.next ∧ ∀ j, t.pidOf j = s.pidOf j :=
      { malloc := fun k ht => ⟨Answered.nodeSafe.malloc k ht.1, ht.2⟩
        node := fun q ht hj => ⟨Answered.nodeSafe.node q ht.1 hj, ht.2.1, fun j =>
          (ProcSys.map_addNode (fun _ _ => rfl) _ _ _ j).trans (ht.2.2 j)⟩ }
    have hwaiting : Answered (s.setState i .waiting) := Answered.setState h _
    refine (waitNodes_keeps hkeeps pid p.pid _ ⟨hwaiting, rfl, fun j => ?_⟩).mono
      fun _ t ht => ?_
    · exact s.map_setState (fun _ _ => rfl) i .waiting j
    obtain ⟨hA, hnext, hpidOf⟩ := ht
    have hco : Answered (t.modifyProc i fun p => { p with wakeCo := some co }) :=
      hA.modifyProc fun _ => rfl
    have hpidOf' : ∀ j, (t.modifyProc i fun p => { p with wakeCo := some co }).pidOf j =
        s.pidOf j := fun j =>
      (t.map_modifyProc (g := fun p => { p with wakeCo := some co }) (fun _ => rfl) i j).trans
        (hpidOf j)
    refine hco.suspend fun pid' k htask => ?_
    cases htask
    rw [hpidOf']
    obtain ⟨-, htarget, -⟩ | ⟨-, k', q, hk, hq, -, htarget⟩ := hwait
    · cases htarget
    · cases htarget
      refine ⟨hnext.symm ▸ (hS.slot k q hq).1, fun pid' hpid' => ?_⟩
      obtain ⟨q', hq', rfl⟩ := hS.table pid k hk
      rw [ProcSys.pidOf, hq'] at hpid'
      cases hpid'
      rfl
  retire {s pid' pid i p} hS h hG hpid hi hstate hprot := by
    have hzombie : Answered (s.setState i .zombie) := Answered.setState h _
    refine ⟨hzombie.same rfl le_rfl (fun _ hj => hj) (fun _ _ _ hq => hq) fun _ hx => .inl hx,
      List.mem_cons_self, fun q hq n hn => ?_⟩
    have hq' : (s.setState i .zombie).heap i = some { p with state := .zombie } := by
      simp [ProcSys.setState, ProcSys.modifyProc, hi]
    obtain rfl := Option.some.inj (hq'.symm.trans hq)
    intro x hx hw hwaiting
    obtain ⟨hne, hwaiting⟩ := ProcSys.waiting_setState (s := s) (by decide) hwaiting
    refine hG i hpid p hi hstate hprot n hn (fun hself => hne ?_) x hx hw hwaiting
    exact Option.some.inj (hw.symm.trans hself)
  reaped {s pid l i p} _ h _ _ _ _ _ _ := by
    have hfree : Answered (s.free i pid) := Answered.free h pid
    exact hfree.same rfl le_rfl (fun _ hj => hj) (fun _ _ _ hq => hq) fun _ hx => .inl hx

end Answered

/-! ## Every node counts -/

/-- The node names a process that is suspended in the wait `x`. -/
def StillWaits (n : WaitNode) (x : Nat × Job) (s : ProcSys) : Prop :=
  s.procs n.pidToWake = some x.2.caller ∧ s.Waiting x.2.caller ∧ x ∈ s.jobs

def Returned (i : Nat) (x : Nat × Job) (s : ProcSys) : Prop :=
  ∃ w ∈ s.wakes, w.waiter = x.2.caller ∧ x.2.task = .wait w.pid w.target ∧ w.cause = i

def NodePhase (i : Nat) (n : WaitNode) (x : Nat × Job) : Phase → ProcSys → Prop
  | .retiring j, s => j = i ∧ (∀ p, s.heap i = some p → n ∈ p.waitList) ∧ StillWaits n x s
  | .waking j l, s => j = i ∧ (n ∈ l ∧ StillWaits n x s ∨ Returned i x s)
  | .rest, s => Returned i x s
  | .starting _ _, _ => True

section NodePhase

variable {i : Nat} {n : WaitNode} {x : Nat × Job} {s t : ProcSys}

lemma StillWaits.same (h : StillWaits n x s) (hprocs : t.procs = s.procs)
    (hjobs : ∀ y ∈ s.jobs, y.2.caller = x.2.caller → y ∈ t.jobs)
    (hstate : (t.heap x.2.caller).map Proc.state = (s.heap x.2.caller).map Proc.state) :
    StillWaits n x t :=
  ⟨hprocs ▸ h.1, hstate.trans h.2.1, hjobs x h.2.2 rfl⟩

lemma node_exit : Exit m (NodePhase i n x) where
  malloc {ph s} k h := by
    cases ph with
    | rest | starting new ok | retiring j | waking j l => exact h
  reparent {s j p child} hS h hj _ hne := by
    obtain ⟨rfl, hn, hwaits⟩ := h
    refine reparent_ends (fun _ => ⟨rfl, hn, hwaits⟩) fun k hk t ht => ?_
    have hnode : NodePhase j n x (.retiring j) t := by
      rcases ht with ⟨-, rfl⟩ | rfl
      · exact ⟨rfl, hn, hwaits⟩
      · refine ⟨rfl, fun q hq => ?_, hwaits.same rfl (fun _ hy _ => hy)
          ((tick s).map_addNode (fun _ _ => rfl) k _ _)⟩
        have hjk : j ≠ k := by
          rintro rfl
          obtain ⟨q, hq, hpid⟩ := hS.table child j hk
          rw [hj] at hq
          cases hq
          exact hne hpid.symm
        exact hn q ((Function.update_of_ne hjk _ _).symm.trans hq)
    refine ⟨fun _ => hnode, fun k' _ => ?_⟩
    obtain ⟨-, hn, hwaits⟩ := hnode
    have hlist := (tick t).map_adopt (f := Proc.waitList)
      (fun _ _ => rfl) (fun _ _ => rfl) k' child j
    obtain ⟨hprocs, hjobs, -⟩ := adopt_fields (tick t) k' child
    refine ⟨rfl, fun q hq => ?_, hwaits.same hprocs (fun y hy _ => hjobs ▸ hy)
      ((tick t).map_adopt (fun _ _ => rfl) (fun _ _ => rfl) k' child _)⟩
    rw [hq, Option.map_some] at hlist
    obtain ⟨q', hq', heq⟩ := Option.map_eq_some_iff.mp hlist.symm
    exact heq ▸ hn q' hq'
  waking _ h hi := by
    obtain ⟨rfl, hn, hwaits⟩ := h
    exact ⟨rfl, .inl ⟨hn _ hi, hwaits⟩⟩
  skip {s j n' l} hS h hno := by
    obtain ⟨rfl, ⟨hn, hwaits⟩ | hreturned⟩ := h
    · refine ⟨rfl, .inl ⟨?_, hwaits⟩⟩
      rcases List.mem_cons.mp hn with rfl | hn
      · obtain ⟨p, hp, hstate⟩ := Option.map_eq_some_iff.mp hwaits.2.1
        exact absurd hstate (hno _ p hwaits.1 hp)
      · exact hn
    · exact ⟨rfl, .inr hreturned⟩
  wake {s j n' l w p co pid target} hS h hw _ _ _ hmem := by
    obtain ⟨rfl, ⟨hn, hwaits⟩ | ⟨v, hv, hreturned⟩⟩ := h
    · by_cases hx : x = (co, ⟨w, .wait pid target, none⟩)
      · subst hx
        exact ⟨rfl, .inr ⟨_, List.mem_cons_self, rfl, rfl, rfl⟩⟩
      · have hne : x.2.caller ≠ w := fun heq => hx (hS.job_eq hwaits.2.2 hmem heq)
        have hn' : n ∈ l := by
          rcases List.mem_cons.mp hn with rfl | hn
          · exact absurd (Option.some.inj (hwaits.1.symm.trans hw)) hne
          · exact hn
        refine ⟨rfl, .inl ⟨hn', hwaits.same rfl (fun y hy heq => ?_) ?_⟩⟩
        · refine (List.mem_erase_of_ne fun hy' => hne ?_).mpr hy
          rw [← heq, hy']
        · simp [woken, ProcSys.resume, ProcSys.addCount, ProcSys.reply, ProcSys.setState,
            ProcSys.modifyProc, hne]
    · exact ⟨rfl, .inr ⟨v, List.mem_cons_of_mem _ hv, hreturned⟩⟩
  suspended _ h := by
    obtain ⟨rfl, ⟨hn, -⟩ | hreturned⟩ := h
    · cases hn
    · exact hreturned

lemma zombiefy_wakes {pid : Int} {p : Proc} (hS : Sound none s) (hpid : s.procs pid = some i)
    (hi : s.heap i = some p) (hstate : p.state ≠ .zombie) (hprot : p.protectedProc = false)
    (hn : n ∈ p.waitList) (hwaits : StillWaits n x s) (hne : x.2.caller ≠ i) :
    Ends (zombiefy m pid s) fun _ t => Returned i x t := by
  have hretiring : NodePhase i n x (.retiring i) { s.setState i .zombie with
      zombiefied := pid :: s.zombiefied
      reapList := s.reapList ++ [pid] } := by
    refine ⟨rfl, fun q hq => ?_, hwaits.same rfl (fun _ hy _ => hy) ?_⟩
    · have hlist := s.map_setState (f := Proc.waitList) (fun _ _ => rfl) i .zombie i
      have hq' : (s.setState i .zombie).heap i = some q := hq
      rw [hq', hi] at hlist
      exact Option.some.inj hlist ▸ hn
    · simp [ProcSys.setState, ProcSys.modifyProc, hne]
  refine procGet_bind fun j hj => ?_
  obtain rfl := hpid.symm.trans hj
  refine deref_bind fun q hq => ?_
  obtain rfl := Option.some.inj (hi.symm.trans hq)
  rw [if_neg hstate, hprot]
  exact Res.Ends.bind (node_exit.retire hS hpid hretiring) fun _ _ ht => ht.2

end NodePhase

/-! ## No other way out -/

/-- Since `s₀`, the waits that are not suspended any more have returned. -/
def Accounted (s₀ s : ProcSys) : Prop :=
  ∃ new, s.wakes = new ++ s₀.wakes ∧ ∀ x ∈ s₀.jobs, ∀ pid target, x.2.task = .wait pid target →
    x ∈ s.jobs ∨ ∃ w ∈ new, w.waiter = x.2.caller ∧ w.pid = pid ∧ w.target = target

section Accounted

variable {s₀ s t : ProcSys}

lemma Accounted.same (h : Accounted s₀ s) (hwakes : t.wakes = s.wakes)
    (hjobs : ∀ x ∈ s.jobs, ∀ pid target, x.2.task = .wait pid target → x ∈ t.jobs) :
    Accounted s₀ t := by
  obtain ⟨new, hnew, hall⟩ := h
  refine ⟨new, hwakes.trans hnew, fun x hx pid target htask => ?_⟩
  exact (hall x hx pid target htask).imp_left fun hx => hjobs x hx pid target htask

lemma Accounted.suspend (h : Accounted s₀ s) (co : Nat) (job : Job) :
    Accounted s₀ (s.suspend co job) :=
  h.same (s.addCount_logs 1 job.holder).1 fun _ hx _ _ _ => List.mem_cons_of_mem _ hx

lemma Accounted.resume (h : Accounted s₀ s) {co : Nat} {job : Job}
    (hjob : ∀ pid target, job.task ≠ .wait pid target) : Accounted s₀ (s.resume co job) := by
  refine h.same (s.addCount_logs (-1) job.holder).1 fun x hx pid target htask => ?_
  refine (List.mem_erase_of_ne ?_).mpr hx
  rintro rfl
  exact hjob pid target htask

lemma Accounted.adopt (h : Accounted s₀ s) (i : Nat) (child : Int) :
    Accounted s₀ (s.adopt i child) := by
  unfold ProcSys.adopt
  split
  · exact h
  · exact h

lemma Accounted.nodeSafe : NodeSafe (Accounted s₀) where
  malloc _ h := h
  node _ h _ := h

lemma accounted_rule : Rule m Lts.anyStep fun _ => Accounted s₀ where
  malloc _ h := h
  reparent _ h _ _ _ :=
    reparent_keeps Accounted.nodeSafe (fun i child h => h.adopt i child) _ _ h
  waking _ h _ := h
  skip _ h _ := h
  wake {s i n l w p co pid target} _ h _ _ _ _ _ := by
    obtain ⟨new, hnew, hall⟩ := h
    refine ⟨⟨w, pid, target, i, n.owner⟩ :: new, congrArg _ hnew, fun x hx pid' target' htask => ?_⟩
    by_cases hx' : x = (co, ⟨w, .wait pid target, none⟩)
    · subst hx'
      cases htask
      exact .inr ⟨_, List.mem_cons_self, rfl, rfl, rfl⟩
    · rcases hall x hx pid' target' htask with hx | ⟨v, hv, heq⟩
      · exact .inl ((List.mem_erase_of_ne hx').mpr hx)
      · exact .inr ⟨v, List.mem_cons_of_mem _ hv, heq⟩
  suspended _ h := h
  currPid _ h := h
  spawn _ h _ _ := ⟨h, fun _ => h⟩
  load _ h _ _ _ _ := h.suspend _ _
  loaded _ h _ _ htask := h.resume fun _ _ hwait => nomatch htask.symm.trans hwait
  runs _ h _ := h
  fails _ h _ := ⟨h, fun _ => h⟩
  child _ h _ _ _ _ _ := h.adopt _ _
  call _ h _ _ _ := h.suspend _ _
  resume _ h _ htask := h.resume fun _ _ hwait => nomatch htask.symm.trans hwait
  reply _ h _ := h
  wait {s co i p pid target} _ h _ _ _ _ := by
    have hwaiting : Accounted s₀ (s.setState i .waiting) := h
    refine (waitNodes_keeps Accounted.nodeSafe pid p.pid _ hwaiting).mono fun _ t ht => ?_
    have hco : Accounted s₀ (t.modifyProc i fun p => { p with wakeCo := some co }) := ht
    exact hco.suspend _ _
  retire _ h _ _ _ _ _ := h
  reaped _ h _ _ _ _ _ _ := h

end Accounted

/-- Whatever happens, the table and the structures agree, no structure is freed twice, and
`coro_count` is the number of suspended coroutines that count. -/
theorem table_sound {m : Machine} {st : ProcState} {s : ProcSys}
    (hrun : Lts.Run (ProcStep m) Lts.anyStep (booted st) s) : Sound none s := by
  have hstart : Accounted (booted st) (booted st) := ⟨[], rfl, by simp [booted]⟩
  exact (accounted_rule.run hstart hrun).1

theorem table_sound_suspended : ∃ s, Lts.Run (ProcStep plainMachine) Lts.anyStep
    (booted .running) s ∧ s.destroyed = [3] ∧ s.jobs.length = 1 ∧ Sound none s := by
  obtain ⟨s, hrun, hdestroyed, hjobs⟩ := exists_run_of_play (m := plainMachine)
    (G := Lts.anyStep) (Q := fun s => s.destroyed = [3] ∧ s.jobs.length = 1) .running
    [.create 1 1 .running .loads, .loaded 1 true, .create 1 1 .running .loads, .loaded 1 true,
      .call 1 2 .file, .delete 1 3, .reap] (by decide +kernel)
  exact ⟨s, hrun, hdestroyed, hjobs, table_sound hrun⟩

/-! ## The whole run -/

lemma asked_of_right {s t : ProcSys} {pid pid' : Int} (hS : Sound none s)
    (ht : ∀ w ∈ t.wakes, Right t w) (hstep : ProcStep m s (.delete pid' pid) t) :
    Asked s (.delete pid' pid) := by
  intro i hpid p hi hstate hprot n hn hself x hx hw hwaiting
  cases htask : x.2.task with
  | call c | load new => trivial
  | wait pid1 target =>
    intro h1
    have hne : x.2.caller ≠ i := by
      rintro rfl
      exact hself hw
    have hends : Ends ((Event.delete pid' pid).run m s) fun _ t => Returned i x t :=
      sender_bind fun _ _ _ _ _ => Res.Ends.bind
        (zombiefy_wakes hS hpid hi hstate hprot hn ⟨hw, hwaiting, hx⟩ hne) fun _ _ hu => hu
    rw [hstep] at hends
    obtain ⟨w, hw, -, htask', hcause⟩ := hends
    rw [htask] at htask'
    cases htask'
    exact hcause ▸ (ht w hw h1).1

/-- As long as the wait lists of those who end name nobody who waits for something else, a wait
for a pid returns the pid, and only because the process that had it then has ended; and the next
step keeps it so exactly if this goes on. A wait ends only by returning. -/
theorem wait_returns_for_its_target {m : Machine} {st : ProcState} {s : ProcSys}
    (hrun : Lts.Run (ProcStep m) Asked (booted st) s) :
    (∀ w ∈ s.wakes, 1 ≤ w.pid → w.target = some w.cause ∧ w.cause ∈ s.exited ∧ w.result = w.pid) ∧
    ∀ e t, ProcStep m s e t →
      ((∀ w ∈ t.wakes, 1 ≤ w.pid → w.target = some w.cause ∧ w.cause ∈ t.exited ∧
        w.result = w.pid) ↔ Asked s e) ∧
      ∃ new, t.wakes = new ++ s.wakes ∧ ∀ x ∈ s.jobs, ∀ pid target,
        x.2.task = .wait pid target → x ∉ t.jobs →
          ∃ w ∈ new, w.waiter = x.2.caller ∧ w.pid = pid ∧ w.target = target := by
  obtain ⟨hS, hA⟩ := answered_rule.run (s := s) ⟨nofun, nofun⟩ hrun
  refine ⟨Answered.right hA, fun e t hstep => ⟨⟨fun ht => ?_, fun hG => ?_⟩, ?_⟩⟩
  · cases e with
    | delete pid target => exact asked_of_right hS ht hstep
    | create co pid st start | wait co pid target | call co pid c | loaded co ok | finish co
    | reap => trivial
  · exact Answered.right (answered_rule.step hS hA hG hstep).2
  · have hstart : Accounted s s := ⟨[], rfl, fun x hx _ _ _ => .inl hx⟩
    obtain ⟨new, hnew, hall⟩ := (accounted_rule.step hS hstart trivial hstep).2
    exact ⟨new, hnew, fun x hx pid target htask hgone =>
      (hall x hx pid target htask).resolve_left hgone⟩

instance (i : Nat) (task : Task) : Decidable (task.Asks i) :=
  match task with
  | .wait pid target => inferInstanceAs (Decidable (1 ≤ pid → target = some i))
  | .call _ | .load _ => .isTrue trivial

instance (s : ProcSys) (i : Nat) (n : WaitNode) : Decidable (AskedBy s i n) :=
  inferInstanceAs (Decidable (∀ x ∈ s.jobs, _ → _ → _))

instance (s : ProcSys) : (e : Event) → Decidable (Asked s e)
  | .delete _ pid => inferInstanceAs (Decidable (∀ i ∈ s.procs pid, ∀ p ∈ s.heap i, _ → _ →
      ∀ n ∈ p.waitList, _ → _))
  | .create _ _ _ _ | .wait _ _ _ | .call _ _ _ | .loaded _ _ | .finish _ | .reap =>
      .isTrue trivial

theorem wait_returns_for_its_target_two :
    ∃ s, Lts.Run (ProcStep plainMachine) Asked (booted .running) s ∧
      s.wakes = [⟨1, 2, some 2, 2, 2⟩] ∧ ∀ w ∈ s.wakes, 1 ≤ w.pid → w.result = w.pid := by
  obtain ⟨s, hrun, hwakes⟩ := exists_run_of_play (m := plainMachine) (G := Asked)
    (Q := fun s => s.wakes = [⟨1, 2, some 2, 2, 2⟩])
    .running [.create 1 1 .running .loads, .loaded 1 true, .wait 1 1 2, .delete 2 2]
    (by decide +kernel)
  exact ⟨s, hrun, hwakes, fun w hw h1 => ((wait_returns_for_its_target hrun).1 w hw h1).2.2⟩

theorem woken_by_orphan :
    ∃ s, Lts.Run (ProcStep plainMachine) Lts.anyStep (booted .running) s ∧
      s.wakes = [⟨1, 4, some 4, 3, 3⟩] ∧ 4 ∉ s.exited :=
  exists_run_of_play .running
    [.create 1 1 .running .loads, .loaded 1 true, .create 1 2 .running .loads,
    .loaded 1 true, .create 1 1 .running .loads, .loaded 1 true, .delete 2 2, .wait 1 1 4,
    .delete 3 3] (by decide +kernel)

end SpaghettiOS.Process
