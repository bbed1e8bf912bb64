import SpaghettiOS.Proc.Waiting

/-!
# Who is forgotten

A process that waits is resumed by the nodes that name it.  `wait_all_child` calls
`proc_wait_list_add` with its arguments swapped, and a process whose image cannot be
loaded is destroyed without a look at its wait list.
-/

namespace SpaghettiOS.Process

open Fs (ProcState)
open Coroutine (Res)
open Function (update_of_ne update_self)
open Option (map_eq_some_iff map_some)

def Named (s : ProcSys) (l : List WaitNode) (w : Nat) : Prop :=
  ∃ n ∈ l, s.pidOf w = some n.pidToWake

/-- No lost wake-up: who waits for a pid is named on the wait list of its process, which lives,
and who waits for children on that of every child that lives. -/
structure NoLost (s : ProcSys) : Prop where
  awaited : ∀ x ∈ s.jobs, s.Waiting x.2.caller → ∀ pid target, x.2.task = .wait pid target →
    1 ≤ pid → ∃ i p, s.procs pid = some i ∧ s.heap i = some p ∧ p.state ≠ .zombie ∧
      Named s p.waitList x.2.caller
  children : ∀ x ∈ s.jobs, s.Waiting x.2.caller → ∀ target, x.2.task = .wait (-1) target →
    ∀ i p, s.heap i = some p → p.state ≠ .zombie → x.2.caller ∈ p.parents →
      Named s p.waitList x.2.caller

/-- The one loads the process that the other waits for. -/
def Task.Dooms (s : ProcSys) : Task → Task → Prop
  | .load new, .wait pid _ => 1 ≤ pid ∧ s.procs pid = some new
  | .load _, .call _ | .load _, .load _ | .call _, _ | .wait _ _, _ => False

/-- A process that waits for its children is named by all of them already, and nobody
waits for a process whose image cannot be loaded. -/
def Heard (m : Machine) (s : ProcSys) : Event → Prop
  | .wait _ pid target => target = -1 → m.Waits → ∀ w ∈ s.procs pid, ∀ i < s.next,
      ∀ p ∈ s.heap i, p.state ≠ .zombie → w ∈ p.parents → Named s p.waitList w
  | .loaded co ok => ok = false → ∀ x ∈ s.jobs, x.1 = co → ∀ y ∈ s.jobs,
      s.Waiting y.2.caller → ¬ x.2.task.Dooms s y.2.task
  | .create _ _ _ _ | .delete _ _ | .call _ _ _ | .finish _ | .reap => True

/-! ## The invariant -/

/-- What is to be shown, and what it takes: the nodes of a process that is just ending
count as long as they have not been walked. -/
structure Heeded (d : Option (Nat × List WaitNode)) (s : ProcSys) : Prop where
  awaited : ∀ x ∈ s.jobs, s.Waiting x.2.caller → ∀ pid target, x.2.task = .wait pid target →
    1 ≤ pid → ∃ i p, s.procs pid = some i ∧ s.heap i = some p ∧
      (p.state ≠ .zombie ∧ Named s p.waitList x.2.caller ∨
        ∃ l, d = some (i, l) ∧ Named s l x.2.caller)
  children : ∀ x ∈ s.jobs, s.Waiting x.2.caller → ∀ target, x.2.task = .wait (-1) target →
    ∀ i p, s.heap i = some p → p.state ≠ .zombie → x.2.caller ∈ p.parents →
      Named s p.waitList x.2.caller
  loads : ∀ x ∈ s.jobs, ∀ new, x.2.task = .load new → ∀ p, s.heap new = some p →
    ∀ w ∈ p.parents, (s.pidOf w).isSome → Named s p.waitList w
  still : ∀ i p, s.heap i = some p → (∀ l, d ≠ some (i, l)) → p.state = .zombie → p.thread.Still
  family : ∀ i p, s.heap i = some p → ∀ w ∈ p.parents, w < s.next ∧ w ≠ i

/-- Nobody waits for the new process, unless it is about to run, and nobody is its parent
without a node. -/
structure Starting (new : Nat) (ok : Bool) (s : ProcSys) : Prop where
  still : ∀ p, s.heap new = some p → p.thread.Still
  named : ∀ p, s.heap new = some p → ∀ w ∈ p.parents, (s.pidOf w).isSome → Named s p.waitList w
  alone : ok = false → ∀ x ∈ s.jobs, s.Waiting x.2.caller → ∀ pid target,
    x.2.task = .wait pid target → 1 ≤ pid → s.procs pid ≠ some new

def HeededPhase : Phase → ProcSys → Prop
  | .rest, s => Heeded none s
  | .starting new ok, s => Heeded none s ∧ Starting new ok s
  | .retiring i, s => ∃ p, s.heap i = some p ∧ Heeded (some (i, p.waitList)) s
  | .waking i l, s => Heeded (some (i, l)) s

/-- A change that leaves alone what matters here, except that the wait list may grow. -/
structure Same (p q : Proc) : Prop where
  pid : q.pid = p.pid
  zombie : q.state = .zombie ↔ p.state = .zombie
  nodes : ∀ n ∈ p.waitList, n ∈ q.waitList
  parents : q.parents = p.parents
  still : p.state = .zombie → p.thread.Still → q.thread.Still

lemma Same.refl (p : Proc) : Same p p :=
  ⟨rfl, Iff.rfl, fun _ hn => hn, rfl, fun _ h => h⟩

/-- A change of process `j` that keeps what is to be shown, where `d` is then the process just
ending: a new parent is named or in no call, and so are all parents of a process that was a
zombie. -/
structure Came (d : Option (Nat × List WaitNode)) (s : ProcSys) (j : Nat) (p q : Proc) : Prop where
  nodes : ∀ n ∈ p.waitList, n ∈ q.waitList
  live : p.state ≠ .zombie → q.state ≠ .zombie ∨ d = some (j, p.waitList)
  still : (∀ l, d ≠ some (j, l)) → q.state = .zombie →
    p.state = .zombie ∧ (p.thread.Still → q.thread.Still)
  family : ∀ w ∈ q.parents, w ∈ p.parents ∨ w < s.next ∧ w ≠ j
  named : ∀ w ∈ q.parents, (s.pidOf w).isSome →
    w ∈ p.parents ∧ (p.state = .zombie → q.state = .zombie) ∨ Named s p.waitList w ∨
      ∀ x ∈ s.jobs, x.2.caller ≠ w ∧ x.2.task ≠ .load j

lemma Same.came {p q : Proc} (h : Same p q) (d : Option (Nat × List WaitNode)) (s : ProcSys)
    (j : Nat) : Came d s j p q where
  nodes := h.nodes
  live hp := .inl (mt h.zombie.mp hp)
  still _ hq := ⟨h.zombie.mp hq, h.still (h.zombie.mp hq)⟩
  family _ hw := .inl (h.parents ▸ hw)
  named _ hw _ := .inl ⟨h.parents ▸ hw, h.zombie.mpr⟩

lemma rel_of_left {α β : Type} {R : α → β → Prop} {x : Option α} {y : Option β} {a : α}
    (h : Option.Rel R x y) (hx : x = some a) : ∃ b, y = some b ∧ R a b := by
  subst hx
  cases h with
  | some h => exact ⟨_, rfl, h⟩

lemma rel_of_right {α β : Type} {R : α → β → Prop} {x : Option α} {y : Option β} {b : β}
    (h : Option.Rel R x y) (hy : y = some b) : ∃ a, x = some a ∧ R a b := by
  subst hy
  cases h with
  | some h => exact ⟨_, rfl, h⟩

variable {m : Machine} {co w : Nat} {pid : Int} {l : List WaitNode}

section Heeded

variable {d d' : Option (Nat × List WaitNode)} {s t : ProcSys} {i : Nat} {p q : Proc}

lemma Named.mono {l' : List WaitNode} (h : Named s l w) (hpid : t.pidOf w = s.pidOf w)
    (hl : ∀ n ∈ l, n ∈ l') : Named t l' w := by
  obtain ⟨n, hn, hw⟩ := h
  exact ⟨n, hl n hn, hpid.trans hw⟩

lemma pidOf_eq_of_same (h : ∀ j, Option.Rel Same (s.heap j) (t.heap j)) (j : Nat) :
    t.pidOf j = s.pidOf j := by
  have hj := h j
  unfold ProcSys.pidOf
  generalize s.heap j = x at hj
  generalize t.heap j = y at hj
  cases hj with
  | none => rfl
  | some h => exact congrArg some h.pid

lemma rel_modifyProc {R : Proc → Proc → Prop} {f : Proc → Proc} (hrefl : ∀ p, R p p)
    (hf : ∀ p, s.heap i = some p → R p (f p)) (j : Nat) :
    Option.Rel R (s.heap j) ((s.modifyProc i f).heap j) := by
  rcases eq_or_ne j i with rfl | hne
  · simp only [ProcSys.modifyProc, update_self]
    cases hp : s.heap j with
    | none => exact .none
    | some p => exact .some (hf p hp)
  · simp only [ProcSys.modifyProc, update_of_ne hne]
    cases s.heap j with
    | none => exact .none
    | some p => exact .some (hrefl p)

lemma Heeded.change (h : Heeded d s) (hd : ∀ x, d = some x → d' = some x)
    (hnext : s.next ≤ t.next) (hjobs : ∀ x ∈ t.jobs, x ∈ s.jobs)
    (hwaiting : ∀ x ∈ t.jobs, t.Waiting x.2.caller → s.Waiting x.2.caller)
    (hpid : ∀ w, w < s.next ∨ s.Waiting w → (t.pidOf w).isSome → t.pidOf w = s.pidOf w)
    (hstay : ∀ x ∈ t.jobs, s.Waiting x.2.caller → ∀ pid target, x.2.task = .wait pid target →
      1 ≤ pid → ∀ i p, s.procs pid = some i → s.heap i = some p →
        t.procs pid = some i ∧ t.heap i ≠ none)
    (hold : ∀ j q, t.heap j = some q → (∃ p, s.heap j = some p ∧ Came d' s j p q) ∨
      s.heap j = none ∧ q.parents = [] ∧ q.thread.Still) : Heeded d' t := by
  have hcaller : ∀ x ∈ t.jobs, t.Waiting x.2.caller →
      (t.pidOf x.2.caller).isSome ∧ t.pidOf x.2.caller = s.pidOf x.2.caller := by
    intro x hx hw
    obtain ⟨r, hr, -⟩ := map_eq_some_iff.mp hw
    have hsome : (t.pidOf x.2.caller).isSome := by simp [ProcSys.pidOf, hr]
    exact ⟨hsome, hpid _ (.inr (hwaiting x hx hw)) hsome⟩
  have hfamily : ∀ {j p q w}, s.heap j = some p → Came d' s j p q → w ∈ q.parents →
      w < s.next ∧ w ≠ j := fun hp hcame hw => (hcame.family _ hw).elim (h.family _ _ hp _) id
  refine ⟨?_, ?_, ?_, ?_, ?_⟩
  · intro x hx hw pid target htask h1
    obtain ⟨i, p, hi, hp, hor⟩ :=
      h.awaited x (hjobs x hx) (hwaiting x hx hw) pid target htask h1
    obtain ⟨hi', hq⟩ := hstay x hx (hwaiting x hx hw) pid target htask h1 i p hi hp
    obtain ⟨q, hq⟩ := Option.ne_none_iff_exists'.mp hq
    obtain ⟨p', hp', hcame⟩ | ⟨hnone, -⟩ := hold i q hq
    · obtain rfl := Option.some.inj (hp.symm.trans hp')
      refine ⟨i, q, hi', hq, ?_⟩
      rcases hor with ⟨hstate, hn⟩ | ⟨l, hl, hn⟩
      · exact (hcame.live hstate).imp (fun hq' => ⟨hq', hn.mono (hcaller x hx hw).2 hcame.nodes⟩)
          fun hd' => ⟨_, hd', hn.mono (hcaller x hx hw).2 fun _ hn => hn⟩
      · exact .inr ⟨l, hd _ hl, hn.mono (hcaller x hx hw).2 fun _ hn => hn⟩
    · cases hp.symm.trans hnone
  · intro x hx hw target htask j q hq hstate hparent
    obtain ⟨p, hp, hcame⟩ | ⟨-, hnil, -⟩ := hold j q hq
    · obtain ⟨hsome, heq⟩ := hcaller x hx hw
      refine Named.mono ?_ heq hcame.nodes
      rcases hcame.named _ hparent (heq ▸ hsome) with ⟨hp', hz⟩ | hn | hidle
      · exact h.children x (hjobs x hx) (hwaiting x hx hw) target htask j p hp (mt hz hstate) hp'
      · exact hn
      · exact absurd rfl (hidle x (hjobs x hx)).1
    · rw [hnil] at hparent
      cases hparent
  · intro x hx new htask q hq w hw hsome
    obtain ⟨p, hp, hcame⟩ | ⟨-, hnil, -⟩ := hold new q hq
    · have heq := hpid w (.inl (hfamily hp hcame hw).1) hsome
      rw [heq] at hsome
      refine Named.mono ?_ heq hcame.nodes
      rcases hcame.named w hw hsome with ⟨hp', -⟩ | hn | hidle
      · exact h.loads x (hjobs x hx) new htask p hp w hp' hsome
      · exact hn
      · exact absurd htask (hidle x (hjobs x hx)).2
    · rw [hnil] at hw
      cases hw
  · intro j q hq hd' hstate
    obtain ⟨p, hp, hcame⟩ | ⟨-, -, hstill⟩ := hold j q hq
    · obtain ⟨hstate', hstill⟩ := hcame.still hd' hstate
      exact hstill (h.still j p hp (fun l hl => hd' l (hd _ hl)) hstate')
    · exact hstill
  · intro j q hq w hw
    obtain ⟨p, hp, hcame⟩ | ⟨-, hnil, -⟩ := hold j q hq
    · obtain ⟨hlt, hne⟩ := hfamily hp hcame hw
      exact ⟨hlt.trans_le hnext, hne⟩
    · rw [hnil] at hw
      cases hw

lemma Heeded.transfer (h : Heeded d s) (hprocs : t.procs = s.procs) (hnext : t.next = s.next)
    (hheap : ∀ j, Option.Rel Same (s.heap j) (t.heap j)) (hjobs : ∀ x ∈ t.jobs, x ∈ s.jobs)
    (hwaiting : ∀ x ∈ t.jobs, t.Waiting x.2.caller → s.Waiting x.2.caller) : Heeded d t := by
  refine h.change (fun _ hx => hx) hnext.ge hjobs hwaiting (fun w _ _ => pidOf_eq_of_same hheap w)
    (fun x _ _ pid _ _ _ i p hi hp => ⟨hprocs ▸ hi, ?_⟩) fun j q hq => .inl ?_
  · obtain ⟨q, hq, -⟩ := rel_of_left (hheap i) hp
    simp [hq]
  · obtain ⟨p, hp, hsame⟩ := rel_of_right (hheap j) hq
    exact ⟨p, hp, hsame.came d s j⟩

lemma Heeded.modify (h : Heeded d s) {f : Proc → Proc} (hd : ∀ x, d = some x → d' = some x)
    (hpid : ∀ p, (f p).pid = p.pid)
    (hwaiting : ∀ x ∈ s.jobs, (s.modifyProc i f).Waiting x.2.caller → s.Waiting x.2.caller)
    (hf : ∀ p, s.heap i = some p → Came d' s i p (f p)) : Heeded d' (s.modifyProc i f) := by
  refine h.change hd le_rfl (fun _ hx => hx) hwaiting (fun w _ _ => s.map_modifyProc hpid i w)
    (fun x _ _ pid _ _ _ j p hj hp => ⟨hj, ?_⟩) fun j q hq => .inl ?_
  · have hsome := s.map_modifyProc hpid i j
    rw [hp] at hsome
    intro hnone
    simp [hnone] at hsome
  · rcases eq_or_ne j i with rfl | hne
    · simp only [ProcSys.modifyProc, update_self] at hq
      obtain ⟨p, hp, rfl⟩ := map_eq_some_iff.mp hq
      exact ⟨p, hp, hf p hp⟩
    · exact ⟨q, (update_of_ne hne _ _).symm.trans hq, (Same.refl q).came d' s j⟩

lemma Heeded.modifyProc (h : Heeded d s) {f : Proc → Proc} (hstate : ∀ p, (f p).state = p.state)
    (hf : ∀ p, s.heap i = some p → Same p (f p)) : Heeded d (s.modifyProc i f) :=
  h.transfer rfl rfl (rel_modifyProc Same.refl hf) (fun _ hx => hx)
    fun x _ hw => (s.map_modifyProc hstate i x.2.caller).symm.trans hw

lemma Heeded.malloc (h : Heeded d s) (k : Nat) : Heeded d { s with mallocs := k } :=
  { h with }

lemma Heeded.addNode (h : Heeded d s) (i : Nat) (n : WaitNode) : Heeded d (s.addNode i n) :=
  h.modifyProc (fun _ => rfl) fun _ _ =>
    ⟨rfl, Iff.rfl, fun _ hn => List.mem_cons_of_mem _ hn, rfl, fun _ h => h⟩

lemma Heeded.nodeSafe : NodeSafe (Heeded d) where
  malloc k h := h.malloc k
  node _ h _ := h.addNode _ _

lemma Heeded.job (h : Heeded d s) {job : Job}
    (hawaited : ∀ pid target, job.task = .wait pid target → 1 ≤ pid → ∃ i p,
      s.procs pid = some i ∧ s.heap i = some p ∧ p.state ≠ .zombie ∧ Named s p.waitList job.caller)
    (hchildren : ∀ target, job.task = .wait (-1) target → ∀ i p, s.heap i = some p →
      p.state ≠ .zombie → job.caller ∈ p.parents → Named s p.waitList job.caller)
    (hloads : ∀ new, job.task = .load new → ∀ p, s.heap new = some p →
      ∀ w ∈ p.parents, (s.pidOf w).isSome → Named s p.waitList w) :
    Heeded d { s with jobs := (co, job) :: s.jobs } := by
  refine ⟨?_, ?_, ?_, h.still, h.family⟩
  · intro x hx hw pid target htask h1
    rcases List.mem_cons.mp hx with rfl | hx
    · obtain ⟨i, p, hi, hp, hlive⟩ := hawaited pid target htask h1
      exact ⟨i, p, hi, hp, .inl hlive⟩
    · exact h.awaited x hx hw pid target htask h1
  · intro x hx hw target htask
    rcases List.mem_cons.mp hx with rfl | hx
    · exact hchildren target htask
    · exact h.children x hx hw target htask
  · intro x hx new htask
    rcases List.mem_cons.mp hx with rfl | hx
    · exact hloads new htask
    · exact h.loads x hx new htask

lemma Heeded.suspend {job : Job} (h : Heeded d { s with jobs := (co, job) :: s.jobs })
    (hi : s.heap job.caller = some p) (huser : p.thread = .user) :
    Heeded d (s.suspend co job) := by
  obtain ⟨hprocs, hnext, -⟩ := addCount_fields s 1 job.holder
  refine h.transfer hprocs hnext (fun j => ?_) (fun _ hx => hx) fun x _ hw => ?_
  · rw [heap_suspend]
    cases hq : s.heap j with
    | none => exact .none
    | some q =>
      refine .some ⟨rfl, Iff.rfl, fun _ hn => hn, rfl, fun _ hstill => ?_⟩
      dsimp only
      split
      · rename_i heq
        rw [heq, hi] at hq
        cases hq
        rw [huser] at hstill
        exact hstill.elim
      · exact hstill
  · exact (s.map_suspend (fun _ _ => rfl) (fun _ _ => rfl) co job x.2.caller).symm.trans hw

lemma Heeded.resume (h : Heeded d s) (co : Nat) (job : Job) : Heeded d (s.resume co job) := by
  obtain ⟨hprocs, hnext, -⟩ := addCount_fields s (-1) job.holder
  refine h.transfer hprocs hnext (fun j => ?_) (fun _ hx => List.mem_of_mem_erase hx)
    fun x _ hw => (s.map_addCount (fun _ _ => rfl) (-1) job.holder x.2.caller).symm.trans hw
  show Option.Rel Same (s.heap j) ((s.addCount (-1) job.holder).heap j)
  rw [heap_addCount]
  cases s.heap j with
  | none => exact .none
  | some q => exact .some ⟨rfl, Iff.rfl, fun _ hn => hn, rfl, fun _ h => h⟩

lemma Heeded.parent (h : Heeded d s) {k : Nat} (hlt : i < s.next) (hne : i ≠ k)
    (hnode : (∀ x ∈ s.jobs, x.2.caller ≠ i ∧ x.2.task ≠ .load k) ∨
      ∀ q, s.heap k = some q → Named s q.waitList i) :
    Heeded d (s.modifyProc k fun p => { p with parents := i :: p.parents }) := by
  let f (p : Proc) : Proc := { p with parents := i :: p.parents }
  refine h.modify (f := f) (fun _ hx => hx) (fun _ => rfl)
    (fun x _ hw => (s.map_modifyProc (g := f) (fun _ => rfl) k x.2.caller).symm.trans hw)
    fun p hp => ⟨fun _ hn => hn, .inl, fun _ hq => ⟨hq, id⟩, fun w hw => ?_, fun w hw _ => ?_⟩
  · rcases List.mem_cons.mp hw with rfl | hw
    · exact .inr ⟨hlt, hne⟩
    · exact .inl hw
  · rcases List.mem_cons.mp hw with rfl | hw
    · exact .inr (hnode.symm.imp_left fun hnode => hnode p hp)
    · exact .inl ⟨hw, id⟩

lemma Heeded.adopt (h : Heeded d s) {child : Int} {k : Nat} (hk : s.procs child = some k)
    (hlt : i < s.next) (hne : i ≠ k) (hnode : (∀ x ∈ s.jobs, x.2.caller ≠ i ∧ x.2.task ≠ .load k) ∨
      ∀ q, s.heap k = some q → Named s q.waitList i) : Heeded d (s.adopt i child) := by
  have hlist : Heeded d (s.modifyProc i fun p => { p with childList := child :: p.childList }) :=
    h.modifyProc (fun _ => rfl) fun _ _ => ⟨rfl, Iff.rfl, fun _ hn => hn, rfl, fun _ h => h⟩
  unfold ProcSys.adopt
  rw [hk]
  refine hlist.parent hlt hne (hnode.imp_right fun hnode q hq => ?_)
  have hq' : s.heap k = some q := (update_of_ne hne.symm _ _).symm.trans hq
  exact (hnode q hq').mono
    (s.map_modifyProc (g := fun p => { p with childList := child :: p.childList })
    (fun _ => rfl) i i) fun _ hn => hn

lemma Heeded.free (h : Heeded none s) (hpid : s.procs pid = some i)
    (hawaited : ∀ x ∈ s.jobs, s.Waiting x.2.caller → ∀ pid target,
      x.2.task = .wait pid target → 1 ≤ pid → s.procs pid ≠ some i) :
    Heeded none (s.free i pid) := by
  have hother : ∀ {j}, j ≠ i → (s.free i pid).heap j = s.heap j := fun hne =>
    update_of_ne hne _ _
  have hgone : (s.free i pid).heap i = none := update_self _ _ _
  refine h.change (fun _ hx => hx) le_rfl (fun _ hx => hx) (fun x _ hw => ?_) (fun w _ hw => ?_)
    (fun x hx hw pid' target htask h1 j p hj hp => ?_) fun j q hq => .inl ?_
  · have hne : x.2.caller ≠ i := by
      intro heq
      simp [ProcSys.Waiting, heq, hgone] at hw
    unfold ProcSys.Waiting at hw
    rwa [hother hne] at hw
  · have hne : w ≠ i := by
      rintro rfl
      simp [ProcSys.pidOf, hgone] at hw
    exact congrArg (Option.map Proc.pid) (hother hne)
  · have hji : j ≠ i := by
      rintro rfl
      exact hawaited x hx hw pid' target htask h1 hj
    have hpid' : pid' ≠ pid := by
      rintro rfl
      exact hji (Option.some.inj (hj.symm.trans hpid))
    refine ⟨(update_of_ne hpid' _ _).trans hj, ?_⟩
    rw [hother hji, hp]
    simp
  · have hne : j ≠ i := by
      rintro rfl
      cases hq.symm.trans hgone
    exact ⟨q, (hother hne).symm.trans hq, (Same.refl q).came none s j⟩

lemma Heeded.logs (h : Heeded d s) (hprocs : t.procs = s.procs) (hheap : t.heap = s.heap)
    (hnext : t.next = s.next) (hjobs : t.jobs = s.jobs) : Heeded d t := by
  refine h.transfer hprocs hnext (fun j => ?_) (fun x hx => hjobs ▸ hx) fun x _ hw => ?_
  · rw [hheap]
    cases s.heap j with
    | none => exact .none
    | some p => exact .some (.refl p)
  · unfold ProcSys.Waiting at hw
    rwa [hheap] at hw

lemma Heeded.live (h : Heeded d s) {f : Proc → Proc} (hpid : ∀ p, (f p).pid = p.pid)
    (hlist : ∀ p, (f p).waitList = p.waitList) (hparents : ∀ p, (f p).parents = p.parents)
    (hlive : ∀ p, (f p).state ≠ .zombie)
    (hnamed : ∀ p, s.heap i = some p → p.state = .zombie → ∀ w ∈ p.parents,
      (s.pidOf w).isSome → Named s p.waitList w)
    (hwaiting : ∀ x ∈ s.jobs, (s.modifyProc i f).Waiting x.2.caller → s.Waiting x.2.caller) :
    Heeded d (s.modifyProc i f) := by
  refine h.modify (fun _ hx => hx) hpid hwaiting fun p hp => ⟨fun _ hn => (hlist p).symm ▸ hn,
    fun _ => .inl (hlive p), fun _ hq => absurd hq (hlive p), fun _ hw => .inl (hparents p ▸ hw),
    fun w hw hsome => ?_⟩
  rw [hparents] at hw
  by_cases hstate : p.state = .zombie
  · exact .inr (.inl (hnamed p hp hstate w hw hsome))
  · exact .inl ⟨hw, fun hz => absurd hz hstate⟩

lemma Heeded.setZombie (h : Heeded none s) (hi : s.heap i = some p) :
    Heeded (some (i, p.waitList)) (s.setState i .zombie) := by
  have hzombie : Heeded (some (i, p.waitList))
      (s.modifyProc i fun p => { p with state := .zombie }) := by
    refine h.modify nofun (fun _ => rfl)
      (fun x _ hw => (ProcSys.waiting_setState (by decide : ProcState.zombie ≠ .waiting) hw).2)
      fun q hq => ?_
    obtain rfl := Option.some.inj (hi.symm.trans hq)
    exact ⟨fun _ hn => hn, fun _ => .inr rfl, fun hd => absurd rfl (hd _), fun _ hw => .inl hw,
      fun _ hw _ => .inl ⟨hw, fun _ => rfl⟩⟩
  exact hzombie.logs rfl rfl rfl rfl

lemma Heeded.settle (h : Heeded (some (i, l)) s)
    (hnobody : ∀ x ∈ s.jobs, s.Waiting x.2.caller → ∀ pid target, x.2.task = .wait pid target →
      1 ≤ pid → s.procs pid = some i → ¬ Named s l x.2.caller)
    (hstill : ∀ p, s.heap i = some p → p.thread.Still) : Heeded none s := by
  refine ⟨fun x hx hw pid target htask h1 => ?_, h.children, h.loads, fun j q hq _ hstate => ?_,
    h.family⟩
  · obtain ⟨j, q, hj, hq, hor⟩ := h.awaited x hx hw pid target htask h1
    refine ⟨j, q, hj, hq, ?_⟩
    rcases hor with hlive | ⟨l', hl, hn⟩
    · exact .inl hlive
    · cases hl
      exact absurd hn (hnobody x hx hw pid target htask h1 hj)
  · by_cases hji : j = i
    · exact hstill q (hji ▸ hq)
    · exact h.still j q hq (fun l' hl => hji (congrArg Prod.fst (Option.some.inj hl)).symm) hstate

lemma Heeded.drop {n : WaitNode} (h : Heeded (some (i, n :: l)) s)
    (hno : ∀ x ∈ s.jobs, s.Waiting x.2.caller → s.pidOf x.2.caller ≠ some n.pidToWake) :
    Heeded (some (i, l)) s := by
  refine ⟨fun x hx hw pid target htask h1 => ?_, h.children, h.loads, fun j q hq hd => ?_, h.family⟩
  · obtain ⟨j, q, hj, hq, hor⟩ := h.awaited x hx hw pid target htask h1
    refine ⟨j, q, hj, hq, hor.imp_right ?_⟩
    rintro ⟨l', hl, n', hn', hpid⟩
    cases hl
    refine ⟨l, rfl, n', ?_, hpid⟩
    rcases List.mem_cons.mp hn' with rfl | hn'
    · exact absurd hpid (hno x hx hw)
    · exact hn'
  · refine h.still j q hq fun l' hl => ?_
    cases hl
    exact hd l rfl

lemma Heeded.spawn (hS : Sound none s) (h : Heeded none s) {st : ProcState}
    (hnone : s.procs pid = none) (ok : Bool) :
    Heeded none (s.spawn pid st) ∧ Starting s.next ok (s.spawn pid st) := by
  have hnew : ∀ {q}, (s.spawn pid st).heap s.next = some q → q.thread.Still ∧ q.parents = [] := by
    intro q hq
    obtain rfl := Option.some.inj (hq.symm.trans (update_self _ _ _))
    exact ⟨trivial, rfl⟩
  have hother : ∀ {j}, j ≠ s.next → (s.spawn pid st).heap j = s.heap j := fun hne =>
    update_of_ne hne _ _
  have hfree : s.heap s.next = none := by
    refine Option.eq_none_iff_forall_ne_some.mpr fun q hq => ?_
    exact lt_irrefl _ (hS.slot _ q hq).1
  have hprocs : ∀ {pid' j}, s.procs pid' = some j → (s.spawn pid st).procs pid' = some j := by
    intro pid' j hj
    have hne : pid' ≠ pid := by
      rintro rfl
      cases hj.symm.trans hnone
    exact (update_of_ne hne _ _).trans hj
  have hwaiting : ∀ x ∈ s.jobs, (s.spawn pid st).Waiting x.2.caller → s.Waiting x.2.caller := by
    intro x hx hw
    unfold ProcSys.Waiting at hw
    rwa [hother (hS.born x hx).1.ne] at hw
  refine ⟨h.change (fun _ hx => hx) (Nat.le_succ _) (fun _ hx => hx) hwaiting
    (fun w hw _ => congrArg (Option.map Proc.pid) (hother ?_))
    (fun x _ _ pid' _ _ _ j p hj hp => ⟨hprocs hj, ?_⟩) fun j q hq => ?_, ?_, ?_, ?_⟩
  · rintro rfl
    rcases hw with hlt | hw
    · exact lt_irrefl _ hlt
    · simp [ProcSys.Waiting, hfree] at hw
  · rw [hother (hS.slot j p hp).1.ne, hp]
    simp
  · rcases eq_or_ne j s.next with rfl | hne
    · exact .inr ⟨hfree, (hnew hq).2, (hnew hq).1⟩
    · exact .inl ⟨q, (hother hne).symm.trans hq, (Same.refl q).came none s j⟩
  · exact fun q hq => (hnew hq).1
  · intro q hq w hw
    rw [(hnew hq).2] at hw
    cases hw
  · intro _ x hx hw pid' target htask h1 hnew'
    obtain ⟨j, q, hj, hq, -⟩ := h.awaited x hx (hwaiting x hx hw) pid' target htask h1
    obtain rfl := Option.some.inj ((hprocs hj).symm.trans hnew')
    cases hq.symm.trans hfree

lemma HeededPhase.reparent (hm : ∀ k, m.malloc k = true) {child : Int} (hS : Sound none s)
    (h : HeededPhase (.retiring i) s) (hi : s.heap i = some p) (hchild : 2 ≤ child)
    (hne : child ≠ p.pid) : Ends (reparent m child s) fun _ => HeededPhase (.retiring i) := by
  obtain ⟨p', hp', hH⟩ := h
  obtain rfl := Option.some.inj (hi.symm.trans hp')
  refine reparent_ends (fun _ => ⟨p, hi, hH⟩) fun j hj t ht => ?_
  obtain ⟨q, hq, hqpid⟩ := hS.table child j hj
  have hij : i ≠ j := by
    rintro rfl
    rw [hi] at hq
    cases hq
    exact hne hqpid.symm
  obtain rfl : t = (tick s).addNode j ⟨child, initProc⟩ := by
    rcases ht with ⟨hno, -⟩ | heq
    · rw [hm] at hno
      cases hno
    · exact heq
  refine ⟨fun hno => ?_, fun k hk => ?_⟩
  · rw [hm] at hno
    cases hno
  let u := tick ((tick s).addNode j ⟨child, initProc⟩)
  have hu : Heeded (some (i, p.waitList)) u := ((hH.malloc _).addNode j _).malloc _
  obtain ⟨r, hr, hrpid⟩ := hS.table initProc k hk
  have hkj : k ≠ j := by
    rintro rfl
    rw [hq] at hr
    cases hr
    have : child = 1 := hqpid.symm.trans hrpid
    omega
  have hpidOf : u.pidOf k = some initProc := by
    refine ((tick s).map_addNode (fun _ _ => rfl) j _ k).trans ?_
    exact (congrArg (Option.map Proc.pid) hr).trans (congrArg some hrpid)
  have hadopt : Heeded (some (i, p.waitList)) (u.adopt k child) := by
    refine hu.adopt hj (hS.slot k r hr).1 hkj (.inr fun q' hq' => ?_)
    simp only [u, tick, ProcSys.addNode, ProcSys.modifyProc, update_self, hq,
      map_some, Option.some.injEq] at hq'
    subst hq'
    exact ⟨_, List.mem_cons_self, hpidOf⟩
  have hui : u.heap i = some p := (update_of_ne hij _ _).trans hi
  have hlist := u.map_adopt (f := Proc.waitList) (fun _ _ => rfl) (fun _ _ => rfl) k child i
  rw [hui] at hlist
  obtain ⟨p'', hp'', hlist⟩ := map_eq_some_iff.mp hlist
  exact ⟨p'', hp'', hlist ▸ hadopt⟩

def Minded (w : Nat) (s : ProcSys) : Prop :=
  ∀ i p, s.heap i = some p → p.state ≠ .zombie → w ∈ p.parents → Named s p.waitList w

lemma Minded.nodeSafe : NodeSafe (Minded w) where
  malloc _ h := h
  node {s pid k} n h _ := by
    intro i q hq hstate hparent
    have hrel := rel_modifyProc (s := s) (i := k)
      (f := fun p => { p with waitList := ⟨pid, n⟩ :: p.waitList })
      (R := fun p q => q.state = p.state ∧ q.parents = p.parents ∧
        ∀ n ∈ p.waitList, n ∈ q.waitList) (fun _ => ⟨rfl, rfl, fun _ hn => hn⟩)
      (fun _ _ => ⟨rfl, rfl, fun _ hn => List.mem_cons_of_mem _ hn⟩) i
    obtain ⟨p, hp, hstate', hparents, hlist⟩ := rel_of_right hrel hq
    refine (h i p hp (hstate' ▸ hstate) (hparents ▸ hparent)).mono ?_ hlist
    exact s.map_addNode (fun _ _ => rfl) k _ w

/-- What a wait needs: a node on the wait list of the process it waits for, or on those
of all children. -/
def WaitReady (pid : Int) (w : Nat) (s : ProcSys) : Prop :=
  (1 ≤ pid → ∃ i p, s.procs pid = some i ∧ s.heap i = some p ∧ p.state ≠ .zombie ∧
    Named s p.waitList w) ∧ (pid = -1 → Minded w s)

lemma waitNodes_ready (hm : ∀ k, m.malloc k = true) (hpid : s.pidOf i = some p.pid)
    (hlive : 1 ≤ pid → ∃ k q, s.procs pid = some k ∧ s.heap k = some q ∧ q.state ≠ .zombie)
    (hminded : pid = -1 → Minded i s) :
    Ends (waitNodes m pid p.pid s) fun _ t => WaitReady pid i t := by
  unfold waitNodes
  split
  · rename_i h1
    obtain ⟨k, q, hk, hq, hstate⟩ := hlive h1
    refine Res.Ends.bind (Q := fun _ t => WaitReady pid i t) ?_ fun _ _ ht => ht
    refine procWaitListAdd_ends (fun hno => ?_) fun k' hk' => ?_
    · rw [hm] at hno
      cases hno
    · obtain rfl := Option.some.inj (hk.symm.trans hk')
      refine ⟨fun _ => ⟨k, { q with waitList := ⟨pid, p.pid⟩ :: q.waitList }, hk, ?_, hstate,
        ⟨pid, p.pid⟩, List.mem_cons_self, ?_⟩, fun heq => ?_⟩
      · simp [tick, ProcSys.addNode, ProcSys.modifyProc, hq]
      · exact ((tick s).map_addNode (fun _ _ => rfl) k _ i).trans hpid
      · omega
  · rename_i h1
    by_cases hneg : pid = -1
    · refine (waitAllChild_keeps Minded.nodeSafe p.pid _ (hminded hneg)).mono fun _ t ht => ?_
      exact ⟨fun h => absurd h h1, fun _ => ht⟩
    · exact (ends_true _).mono fun _ _ _ => ⟨fun h => absurd h h1, fun h => absurd h hneg⟩

lemma Heeded.wait (hm : ∀ k, m.malloc k = true) {target : Option Nat} (hS : Sound none s)
    (h : Heeded none s) (hG : Heard m s (.wait co p.pid pid)) (hi : s.heap i = some p)
    (huser : p.thread = .user) (hwait : Waitable m s pid target) :
    Ends (waitNodes m pid p.pid (s.setState i .waiting)) fun _ t => Heeded none
      ((t.modifyProc i fun p => { p with wakeCo := some co }).suspend co
        ⟨i, .wait pid target, none⟩) := by
  have hidle := hS.idle hi huser
  have hat : (s.setState i .waiting).heap i = some { p with state := .waiting } := by
    simp [ProcSys.setState, ProcSys.modifyProc, hi]
  have hpidOf : ∀ j, (s.setState i .waiting).pidOf j = s.pidOf j :=
    s.map_setState (fun _ _ => rfl) i .waiting
  have hzombie : p.state ≠ .zombie := by
    intro hstate
    have hstill := h.still i p hi (by simp) hstate
    rw [huser] at hstill
    exact hstill
  have hwaiting : Heeded none (s.setState i .waiting) := by
    refine Heeded.logs (s := s.modifyProc i fun p => { p with state := .waiting })
      (h.live (fun _ => rfl) (fun _ => rfl) (fun _ => rfl) (by simp)
        (fun q hq hstate => ?_) fun x hx hw => ?_) rfl rfl rfl rfl
    · rw [hi] at hq
      cases hq
      exact absurd hstate hzombie
    · simpa [ProcSys.Waiting, ProcSys.modifyProc, hidle x hx] using hw
  have hready : Ends (waitNodes m pid p.pid (s.setState i .waiting))
      fun _ t => WaitReady pid i t := by
    refine waitNodes_ready (p := p) hm ((hpidOf i).trans (congrArg _ hi)) (fun h1 => ?_)
      fun hneg j q hq hstate hparent => ?_
    · obtain ⟨hneg, -⟩ | ⟨-, k, q, hk, hq, hstate, -⟩ := hwait
      · omega
      · rcases eq_or_ne k i with rfl | hne
        · exact ⟨k, _, hk, hat, by simp⟩
        · exact ⟨k, q, hk, (update_of_ne hne _ _).trans hq, hstate⟩
    · obtain ⟨-, -, hm'⟩ | ⟨h1, -⟩ := hwait
      · have hne : j ≠ i := by
          rintro rfl
          obtain rfl := Option.some.inj (hat.symm.trans hq)
          exact absurd rfl (h.family j p hi j hparent).2
        have hq' : s.heap j = some q := (update_of_ne hne _ _).symm.trans hq
        exact (hG hneg hm' i (hS.slot i p hi).2 j (hS.slot j q hq').1 q hq' hstate hparent).mono
          (hpidOf i) fun _ hn => hn
      · omega
  have hkeeps := (waitNodes_keeps (m := m) Entering.nodeSafe pid p.pid _
    (hS.entering hi huser)).and (waitNodes_keeps Heeded.nodeSafe pid p.pid _ hwaiting)
  refine (hkeeps.and hready).mono fun _ t ht => ?_
  obtain ⟨⟨⟨-, ⟨p', hp', huser'⟩, -⟩, hH⟩, hawaited, hminded⟩ := ht
  have hjob : Heeded none { t with jobs := (co, ⟨i, .wait pid target, none⟩) :: t.jobs } := by
    refine hH.job (fun pid' target' htask h1 => ?_) (fun target' htask => ?_) (by simp)
    · cases htask
      exact hawaited h1
    · cases htask
      exact hminded rfl
  have hco := hjob.modifyProc (i := i) (f := fun p => { p with wakeCo := some co }) (fun _ => rfl)
    fun _ _ => ⟨rfl, Iff.rfl, fun _ hn => hn, rfl, fun _ h => h⟩
  refine Heeded.suspend (s := t.modifyProc i fun p => { p with wakeCo := some co })
    (p := { p' with wakeCo := some co }) hco ?_ huser'
  simp [ProcSys.modifyProc, hp']

lemma Heeded.reply (h : Heeded d s) (i : Nat) : Heeded d (s.reply i) := by
  refine h.modifyProc (fun _ => rfl) fun p _ =>
    ⟨rfl, Iff.rfl, fun _ hn => hn, rfl, fun _ hstill => ?_⟩
  dsimp only
  split
  · rename_i hblocked
    rw [hblocked] at hstill
    exact hstill
  · exact hstill

lemma heeded_rule (hm : ∀ k, m.malloc k = true) :
    Rule m (Heard m) HeededPhase where
  malloc {ph s} k h := by
    cases ph with
    | rest | waking i l => exact Heeded.malloc h k
    | starting new ok => exact ⟨h.1.malloc k, h.2.still, h.2.named, h.2.alone⟩
    | retiring i =>
      obtain ⟨p, hp, hH⟩ := h
      exact ⟨p, hp, hH.malloc k⟩
  reparent hS h hi hchild hne := h.reparent hm hS hi hchild hne
  waking _ h hi := by
    obtain ⟨p, hp, hH⟩ := h
    obtain rfl := Option.some.inj (hi.symm.trans hp)
    exact hH
  skip {s i n l} hS h hno := by
    refine Heeded.drop h fun x hx hw hpid => ?_
    obtain ⟨p, hp, hstate⟩ := map_eq_some_iff.mp hw
    obtain ⟨p', hp', hpid'⟩ := map_eq_some_iff.mp hpid
    have hslot := (hS.slot _ p' hp').2
    rw [hpid'] at hslot
    exact hno _ p hslot hp hstate
  wake {s i n l w p co pid target} hS h hw hp hstate _ hmem := by
    let u := (s.resume co ⟨w, .wait pid target, none⟩).setState w .running
    have hidle := hS.resume_idle hmem
    have hrun : Heeded (some (i, n :: l)) u := by
      refine Heeded.logs (s := (s.resume co ⟨w, .wait pid target, none⟩).modifyProc w
        fun p => { p with state := .running }) ((Heeded.resume h _ _).live (fun _ => rfl)
          (fun _ => rfl) (fun _ => rfl) (by simp) (fun q hq hzombie => ?_)
          fun x hx hw => ?_) rfl rfl rfl rfl
      · obtain rfl : p = q := Option.some.inj (hp.symm.trans hq)
        rw [hstate] at hzombie
        cases hzombie
      · simpa [ProcSys.Waiting, ProcSys.modifyProc, (hidle x hx).2.2] using hw
    refine Heeded.logs (s := u.reply w) ((hrun.reply w).drop fun x hx _ hpid => ?_) rfl rfl rfl rfl
    have hpidOf : (u.reply w).pidOf x.2.caller = s.pidOf x.2.caller :=
      (ProcSys.map_reply (fun _ _ => rfl) _ w _).trans
        (ProcSys.map_setState (fun _ _ => rfl) _ w .running _)
    rw [hpidOf] at hpid
    obtain ⟨q, hq, hpid⟩ := map_eq_some_iff.mp hpid
    have hslot := (hS.slot _ q hq).2
    rw [hpid, hw] at hslot
    exact (hidle x hx).2.2 (Option.some.inj hslot).symm
  suspended {s i} _ h := by
    have hset : Heeded (some (i, [])) (s.setThread i .suspended) :=
      Heeded.modifyProc h (fun _ => rfl) fun _ _ =>
        ⟨rfl, Iff.rfl, fun _ hn => hn, rfl, fun _ _ => trivial⟩
    refine hset.settle (by simp [Named]) fun q hq => ?_
    simp only [ProcSys.setThread, ProcSys.modifyProc, update_self] at hq
    obtain ⟨p, -, rfl⟩ := map_eq_some_iff.mp hq
    trivial
  currPid _ h := Heeded.logs h rfl rfl rfl rfl
  spawn hS h _ hnone := ⟨(Heeded.spawn hS h hnone true).1, Heeded.spawn hS h hnone⟩
  load {s co i p new q holder} _ h hstart _ hi huser := by
    refine Heeded.suspend (Heeded.job h (by simp) (by simp) fun new' htask => ?_) hi huser
    cases htask
    exact hstart.2.named
  loaded {s co job new ok} hS h hG hmem htask := by
    have hpidOf : ∀ j, (s.resume co job).pidOf j = s.pidOf j :=
      s.map_addCount (fun _ _ => rfl) (-1) job.holder
    have hheap := heap_addCount s (-1) job.holder
    refine ⟨Heeded.resume h co job, ?_, ?_, ?_⟩
    · intro q hq
      obtain ⟨p, hp, rfl⟩ := map_eq_some_iff.mp ((hheap new).symm.trans hq)
      rcases (hS.loading _ hmem new htask).2.1 p hp with hthread | hthread
      · exact hthread ▸ trivial
      · exact hthread ▸ trivial
    · intro q hq w hw hsome
      obtain ⟨p, hp, rfl⟩ := map_eq_some_iff.mp ((hheap new).symm.trans hq)
      rw [hpidOf] at hsome
      exact (h.loads _ hmem new htask p hp w hw hsome).mono (hpidOf w) fun _ hn => hn
    · intro hok x hx hw pid target htask' h1 hnew
      obtain ⟨-, hx, -⟩ := hS.resume_idle hmem x hx
      have hw' : s.Waiting x.2.caller :=
        (s.map_addCount (fun _ _ => rfl) (-1) job.holder x.2.caller).symm.trans hw
      refine hG hok _ hmem rfl x hx hw' ?_
      rw [htask, htask']
      exact ⟨h1, (addCount_fields s (-1) job.holder).1 ▸ hnew⟩
  runs {s new p} _ h hnew := by
    have hrun := h.1.live (i := new) (f := fun p => { p with state := .running, thread := .user })
      (fun _ => rfl) (fun _ => rfl) (fun _ => rfl) (by simp) (fun q hq _ => h.2.named q hq)
      fun x hx hw => ?_
    · refine hrun.logs rfl ?_ rfl rfl
      simp only [ProcSys.setThread, ProcSys.setState, ProcSys.modifyProc, update_self,
        Function.update_idem, Option.map_map, Function.comp_def]
    · have hne : x.2.caller ≠ new := by
        intro heq
        simp [ProcSys.Waiting, ProcSys.modifyProc, heq, hnew] at hw
      simpa [ProcSys.Waiting, ProcSys.modifyProc, hne] using hw
  fails {s new p} hS h hnew := by
    obtain ⟨hH, hstart⟩ := h
    have hwaiting : ∀ {w}, (s.setState new .zombie).Waiting w → s.Waiting w := fun hw =>
      (ProcSys.waiting_setState (by decide) hw).2
    have hzombie : Heeded none (s.setState new .zombie) := by
      refine (hH.setZombie hnew).settle (fun x hx hw pid target htask h1 hpid => ?_) fun q hq => ?_
      · exact absurd hpid (hstart.alone rfl x hx (hwaiting hw) pid target htask h1)
      · have hthread := s.map_setState (f := Proc.thread) (fun _ _ => rfl) new .zombie new
        rw [hq, hnew] at hthread
        exact Option.some.inj hthread ▸ hstart.still p hnew
    refine ⟨hzombie, fun _ => hzombie.free (hS.slot new p hnew).2 fun x hx hw => ?_⟩
    exact hstart.alone rfl x hx (hwaiting hw)
  child {s i p pid new} hS h hi hidle hpid hne hload :=
    Heeded.adopt h hpid (hS.slot i p hi).1 hne (.inl fun x hx => ⟨hidle x hx, hload x hx⟩)
  call _ h hi huser _ := Heeded.suspend (Heeded.job h (by simp) (by simp) (by simp)) hi huser
  resume _ h _ _ := Heeded.resume h _ _
  reply _ h _ := Heeded.reply h _
  wait hS h hG hi huser hwait := Heeded.wait hm hS h hG hi huser hwait
  retire {s pid' pid i p} _ h _ _ hi _ _ := by
    refine ⟨{ p with state := .zombie }, ?_, (Heeded.setZombie h hi).logs rfl rfl rfl rfl⟩
    simp [ProcSys.setState, ProcSys.modifyProc, hi]
  reaped {s pid l i p} _ h _ _ hpid hi hstate _ := by
    refine Heeded.logs (Heeded.free h hpid fun x hx hw pid' target htask h1 hpid' => ?_)
      rfl rfl rfl rfl
    obtain ⟨j, q, hj, hq, hor⟩ := h.awaited x hx hw pid' target htask h1
    obtain rfl := Option.some.inj (hpid'.symm.trans hj)
    rw [hi] at hq
    cases hq
    rcases hor with ⟨hlive, -⟩ | ⟨_, hl, -⟩
    · exact hlive hstate
    · cases hl

lemma Heeded.noLost (h : Heeded none s) : NoLost s := by
  refine ⟨fun x hx hw pid target htask h1 => ?_, h.children⟩
  obtain ⟨i, p, hi, hp, hlive | ⟨l, hl, -⟩⟩ := h.awaited x hx hw pid target htask h1
  · exact ⟨i, p, hi, hp, hlive⟩
  · cases hl

/-! ## What a step needs -/

lemma waitAllChild_own (hw : s.procs pid = some w) :
    Ends (waitAllChild m pid s) fun _ t => t.procs = s.procs ∧
      (∀ j, t.pidOf j = s.pidOf j) ∧ (∀ j, s.Waiting j → t.Waiting j) ∧
      ∀ j ≠ w, t.heap j = s.heap j := by
  refine procAt_bind fun i _ => deref_bind fun p _ => ?_
  refine Keeps.forM p.childList (fun child u hu => ?_) s ⟨rfl, fun _ => rfl, fun _ h => h,
    fun _ _ => rfl⟩
  refine procGet_bind fun c _ => ?_
  cases c with
  | none => exact hu
  | some c => ?_
  obtain ⟨hprocs, hpidOf, hwaiting, hheap⟩ := hu
  refine Res.Ends.bind (procWaitListAdd_ends (fun _ => ⟨hprocs, hpidOf, hwaiting, hheap⟩)
    fun k hk => ?_) fun _ _ ht => ht
  rw [hprocs, hw] at hk
  cases hk
  refine ⟨hprocs, fun j => ((tick u).map_addNode (fun _ _ => rfl) w _ j).trans (hpidOf j),
    fun j hj => ((tick u).map_addNode (fun _ _ => rfl) w _ j).trans (hwaiting j hj),
    fun j hj => (update_of_ne hj _ _).trans (hheap j hj)⟩

lemma waitChildren_ends (hm : m.Waits) (hS : Sound none s) (hw : s.heap w = some p) :
    Ends (syscallProcWait m co w (-1) s) fun _ t => (co, ⟨w, .wait (-1) none, none⟩) ∈ t.jobs ∧
      t.Waiting w ∧ t.pidOf w = s.pidOf w ∧ ∀ j q, j ≠ w → s.heap j = some q →
        t.heap j = some q := by
  have htarget : waitTarget m (-1) s = .done (some none) s := by
    rcases hm with hm | hm
    · simp [waitTarget, hm]
    · simp [waitTarget, hm]
  have hrange : ¬ ((-1 : Int) < -1 ∨ (-1 : Int) = kernelProc ∨ (-1 : Int) ≥ maxProcesses) := by
    decide
  unfold syscallProcWait
  rw [if_neg hrange]
  simp only [Coro.bind_apply, htarget, Res.bind]
  refine deref_bind fun q hq => ?_
  obtain rfl := Option.some.inj (hw.symm.trans hq)
  simp only [Coro.bind_apply, Coro.modify_apply, Res.bind, waitNodes]
  rw [if_neg (by decide)]
  have hslot : (s.setState w .waiting).procs p.pid = some w := (hS.slot w p hw).2
  refine Res.Ends.bind (waitAllChild_own hslot) fun _ t ht => ?_
  obtain ⟨-, hpidOf, hwaiting, hheap⟩ := ht
  have hwait : (s.setState w .waiting).Waiting w := by
    simp [ProcSys.Waiting, ProcSys.setState, ProcSys.modifyProc, hw]
  let f (p : Proc) : Proc := { p with wakeCo := some co }
  refine ⟨List.mem_cons_self, ?_, ?_, fun j q hne hq => ?_⟩
  · exact ((t.modifyProc w f).map_suspend (fun _ _ => rfl) (fun _ _ => rfl) co _ w).trans
      ((t.map_modifyProc (g := f) (fun _ => rfl) w w).trans (hwaiting w hwait))
  · exact ((t.modifyProc w f).map_suspend (fun _ _ => rfl) (fun _ _ => rfl) co _ w).trans
      ((t.map_modifyProc (g := f) (fun _ => rfl) w w).trans
        ((hpidOf w).trans (s.map_setState (fun _ _ => rfl) w .waiting w)))
  · have hj : t.heap j = some q :=
      (hheap j hne).trans ((update_of_ne hne _ _).trans hq)
    exact (update_of_ne hne _ _).trans ((update_of_ne hne _ _).trans hj)

lemma heard_wait_of_noLost {target : Int} (hS : Sound none s) (h : Heeded none s)
    (ht : NoLost t) (hstep : ProcStep m s (.wait co pid target) t) :
    Heard m s (.wait co pid target) := by
  rintro rfl hm w hw i _ p hp hstate hparent
  obtain ⟨-, hne⟩ := h.family i p hp w hparent
  have hends : Ends ((Event.wait co pid (-1)).run m s) fun _ t =>
      (co, ⟨w, .wait (-1) none, none⟩) ∈ t.jobs ∧ t.Waiting w ∧ t.pidOf w = s.pidOf w ∧
        ∀ j q, j ≠ w → s.heap j = some q → t.heap j = some q := by
    refine sender_bind fun w' q hq _ hw' => Res.Ends.check_bind fun _ => ?_
    obtain rfl := Option.some.inj (hw.symm.trans hw')
    exact waitChildren_ends hm hS hq
  rw [hstep] at hends
  obtain ⟨hjob, hwaiting, hpidOf, hheap⟩ := hends
  exact (ht.children _ hjob hwaiting none rfl i p (hheap i p hne.symm hp) hstate hparent).mono
    hpidOf.symm fun _ hn => hn

lemma loadFails_ends {new : Nat} {job : Job} {x : Nat × Job} (hS : Sound none s)
    (hmem : (co, job) ∈ s.jobs) (hnew : job.task = .load new) (hx : x ∈ s.jobs)
    (htask : x.2.task ≠ .load new) (hw : s.Waiting x.2.caller) (hpid : s.procs pid = some new) :
    Ends ((Event.loaded co false).run m s) fun _ t => x ∈ t.jobs ∧ t.Waiting x.2.caller ∧
      ∀ i p, t.procs pid = some i → t.heap i = some p → p.state = .zombie := by
  obtain ⟨-, -, huniq⟩ := hS.loading _ hmem new hnew
  have hcaller : x.2.caller ≠ new := (huniq x hx).1
  refine Res.Ends.bind resumed_ends ?_
  rintro job' _ ⟨hmem', rfl⟩
  obtain rfl : job = job' :=
    congrArg Prod.snd (List.inj_on_of_nodup_map hS.keys hmem hmem' rfl)
  have hresume := hS.resume_call hmem (by simp [hnew])
  have hjobs : x ∈ (s.resume co job).jobs := by
    refine (List.mem_erase_of_ne ?_).mpr hx
    rintro rfl
    exact htask hnew
  have hwaiting : (s.resume co job).Waiting x.2.caller :=
    (s.map_addCount (fun _ _ => rfl) (-1) job.holder x.2.caller).trans hw
  have hpid' : (s.resume co job).procs pid = some new :=
    (addCount_fields s (-1) job.holder).1 ▸ hpid
  simp only [loadEnds, hnew]
  refine Res.Ends.bind (Q := fun _ t => x ∈ t.jobs ∧ t.Waiting x.2.caller ∧
    ∀ i p, t.procs pid = some i → t.heap i = some p → p.state = .zombie) ?_ fun _ t ht => ?_
  · refine Res.Ends.bind (Q := fun r t => r = -1 ∧ x ∈ t.jobs ∧ t.Waiting x.2.caller ∧
      ∀ i p, t.procs pid = some i → t.heap i = some p → p.state = .zombie) ?_ ?_
    · refine startFails_ends hresume fun p hp => ?_
      have hzombie : ((s.resume co job).setState new .zombie).Waiting x.2.caller := by
        simpa [ProcSys.Waiting, ProcSys.setState, ProcSys.modifyProc, hcaller] using hwaiting
      refine ⟨⟨rfl, hjobs, hzombie, fun i q hi hq => ?_⟩, fun _ => ⟨rfl, hjobs, ?_, ?_⟩⟩
      · obtain rfl := Option.some.inj (hpid'.symm.trans hi)
        simp only [ProcSys.setState, ProcSys.modifyProc, update_self, hp, map_some] at hq
        cases hq
        rfl
      · simpa [ProcSys.Waiting, ProcSys.free, hcaller] using hzombie
      · intro i q hi
        obtain ⟨p', hp', rfl⟩ := hresume.table pid new hpid'
        obtain rfl := Option.some.inj (hp.symm.trans hp')
        simp [ProcSys.free] at hi
    · rintro r t ⟨rfl, ht⟩
      exact ht
  · obtain ⟨hjobs, hwaiting, hdead⟩ := ht
    refine ⟨hjobs, (t.map_reply (fun _ _ => rfl) job.caller _).trans hwaiting, fun i q hi hq => ?_⟩
    have hstate := t.map_reply (f := Proc.state) (fun _ _ => rfl) job.caller i
    rw [hq] at hstate
    obtain ⟨p, hp, hstate⟩ := map_eq_some_iff.mp hstate.symm
    exact hstate ▸ hdead i p hi hp

lemma heard_loaded_of_noLost {ok : Bool} (hS : Sound none s) (ht : NoLost t)
    (hstep : ProcStep m s (.loaded co ok) t) : Heard m s (.loaded co ok) := by
  rintro rfl ⟨_, job⟩ hmem rfl y hy hw hdooms
  cases hload : job.task with
  | call c | wait pid target =>
    rw [hload] at hdooms
    exact hdooms
  | load new => ?_
  cases hwait : y.2.task with
  | call c | load new' =>
    rw [hload, hwait] at hdooms
    exact hdooms
  | wait pid target => ?_
  rw [hload, hwait] at hdooms
  obtain ⟨h1, hpid⟩ := hdooms
  have hends := loadFails_ends (m := m) hS hmem hload hy (by simp [hwait]) hw hpid
  rw [hstep] at hends
  obtain ⟨hjobs, hwaiting, hdead⟩ := hends
  obtain ⟨i, p, hi, hp, hlive, -⟩ := ht.awaited y hjobs hwaiting pid target hwait h1
  exact hlive (hdead i p hi hp)

lemma delete_wakes {x : Nat × Job} {pid' : Int} (hS : Sound none s) (hx : x ∈ s.jobs)
    (hw : s.Waiting x.2.caller) (hi : s.heap i = some p) (hstate : p.state ≠ .zombie)
    (hprot : p.protectedProc = false) (hne : x.2.caller ≠ i)
    (hnamed : Named s p.waitList x.2.caller) (hstep : ProcStep m s (.delete pid' p.pid) t) :
    Returned i x t := by
  obtain ⟨n, hn, hpid⟩ := hnamed
  obtain ⟨q, hq, hpid⟩ := map_eq_some_iff.mp hpid
  have hslot := (hS.slot _ q hq).2
  rw [hpid] at hslot
  have hends : Ends ((Event.delete pid' p.pid).run m s) fun _ t => Returned i x t :=
    sender_bind fun _ _ _ _ _ => Res.Ends.bind
      (zombiefy_wakes hS (hS.slot i p hi).2 hi hstate hprot hn ⟨hslot, hw, hx⟩ hne) fun _ _ hu => hu
  rw [hstep] at hends
  exact hends

end Heeded

/-- As long as there is memory for the nodes, those who wait for their children are named by
them already, and nobody waits for a process whose image cannot be loaded, no wake-up is lost;
the next step keeps it so exactly if this goes on; and the end of a process resumes those who
wait for it. -/
theorem no_lost_wakeup {m : Machine} (hm : ∀ k, m.malloc k = true) {st : ProcState} {s : ProcSys}
    (hrun : Lts.Run (ProcStep m) (Heard m) (booted st) s) :
    NoLost s ∧ (∀ e t, ProcStep m s e t → (NoLost t ↔ Heard m s e)) ∧
    ∀ x ∈ s.jobs, s.Waiting x.2.caller → ∀ pid target, x.2.task = .wait pid target →
      ∀ i p, s.heap i = some p → p.state ≠ .zombie → p.protectedProc = false → x.2.caller ≠ i →
        (1 ≤ pid ∧ p.pid = pid ∨ pid = -1 ∧ x.2.caller ∈ p.parents) →
          ∀ pid' t, ProcStep m s (.delete pid' p.pid) t → Returned i x t := by
  have hbooted : Heeded none (booted st) := by
    have hparents : ∀ i p, (booted st).heap i = some p → p.thread = .user ∧ p.state = .running ∧
        p.parents = [] ∨ p.thread = .unborn ∧ p.parents = [] := by
      intro i p hi
      simp only [booted] at hi
      split at hi
      · cases hi
        exact .inr ⟨rfl, rfl⟩
      · split at hi
        · cases hi
          exact .inl ⟨rfl, rfl, rfl⟩
        · cases hi
    refine ⟨by simp [booted], by simp [booted], by simp [booted], fun i p hi _ hstate => ?_,
      fun i p hi w hw => ?_⟩
    · rcases hparents i p hi with ⟨-, hrunning, -⟩ | ⟨hthread, -⟩
      · rw [hrunning] at hstate
        cases hstate
      · rw [hthread]
        trivial
    · have hnil : p.parents = [] := (hparents i p hi).elim (·.2.2) (·.2)
      rw [hnil] at hw
      cases hw
  obtain ⟨hS, hH⟩ := (heeded_rule hm).run hbooted hrun
  refine ⟨Heeded.noLost hH, fun e t hstep => ⟨fun ht => ?_, fun hG => ?_⟩, ?_⟩
  · cases e with
    | wait co pid target => exact heard_wait_of_noLost hS hH ht hstep
    | loaded co ok => exact heard_loaded_of_noLost hS ht hstep
    | create co pid st start | delete pid target | call co pid c | finish co | reap => trivial
  · exact Heeded.noLost ((heeded_rule hm).step hS hH hG hstep).2
  · intro x hx hw pid target htask i p hi hstate hprot hne hfor pid' t hstep
    refine delete_wakes hS hx hw hi hstate hprot hne ?_ hstep
    rcases hfor with ⟨h1, rfl⟩ | ⟨rfl, hparent⟩
    · obtain ⟨j, q, hj, hq, -, hnamed⟩ := (Heeded.noLost hH).awaited x hx hw _ target htask h1
      obtain rfl := Option.some.inj ((hS.slot i p hi).2.symm.trans hj)
      obtain rfl := Option.some.inj (hi.symm.trans hq)
      exact hnamed
    · exact hH.children x hx hw target htask i p hi hstate hparent

instance (m : Machine) : Decidable m.Waits := inferInstanceAs (Decidable (_ ∨ _))

instance (s : ProcSys) (l : List WaitNode) (w : Nat) : Decidable (Named s l w) :=
  inferInstanceAs (Decidable (∃ n ∈ l, _))

instance (s : ProcSys) : (a b : Task) → Decidable (a.Dooms s b)
  | .load _, .wait _ _ => inferInstanceAs (Decidable (_ ∧ _))
  | .load _, .call _ | .load _, .load _ | .call _, _ | .wait _ _, _ => .isFalse id

instance (m : Machine) (s : ProcSys) : (e : Event) → Decidable (Heard m s e)
  | .wait _ pid _ => inferInstanceAs (Decidable (_ → _ → ∀ w ∈ s.procs pid, ∀ i < s.next,
      ∀ p ∈ s.heap i, _ → _ → _))
  | .loaded _ _ => inferInstanceAs (Decidable (_ → ∀ x ∈ s.jobs, _ → ∀ y ∈ s.jobs, _ → _))
  | .create _ _ _ _ | .delete _ _ | .call _ _ _ | .finish _ | .reap => .isTrue trivial

theorem no_lost_wakeup_two :
    ∃ s, Lts.Run (ProcStep plainMachine) (Heard plainMachine) (booted .running) s ∧
      s.jobs = [(1, ⟨1, .wait 2 (some 2), none⟩)] ∧
      ∃ i p, s.procs 2 = some i ∧ s.heap i = some p ∧ p.state ≠ .zombie ∧ Named s p.waitList 1 := by
  obtain ⟨s, hrun, hjobs, hwaiting⟩ := exists_run_of_play (m := plainMachine)
    (G := Heard plainMachine)
    (Q := fun s => s.jobs = [(1, ⟨1, .wait 2 (some 2), none⟩)] ∧ s.Waiting 1)
    .running [.create 1 1 .running .loads, .loaded 1 true, .wait 1 1 2] (by decide +kernel)
  refine ⟨s, hrun, hjobs, (no_lost_wakeup (fun _ => rfl) hrun).1.awaited
    (1, ⟨1, .wait 2 (some 2), none⟩) ?_ hwaiting 2 (some 2) rfl (by decide)⟩
  rw [hjobs]
  exact List.mem_cons_self

theorem wakeup_lost :
    (∃ s, Lts.Run (ProcStep ⟨fun _ => true, some .running⟩) Lts.anyStep (booted .running) s ∧
      ¬ NoLost s) ∧
    ∃ s, Lts.Run (ProcStep plainMachine) Lts.anyStep (booted .running) s ∧ ¬ NoLost s := by
  constructor
  · obtain ⟨s, hrun, hjob, hwaiting, p, hp, hstate, hparent, hnone⟩ := exists_run_of_play
      (m := ⟨fun _ => true, some .running⟩) (G := Lts.anyStep)
      (Q := fun s => (1, ⟨1, .wait (-1) none, none⟩) ∈ s.jobs ∧ s.Waiting 1 ∧
        ∃ p ∈ s.heap 2, p.state ≠ .zombie ∧ 1 ∈ p.parents ∧ p.waitList = [])
      .running [.create 1 1 .running .loads, .loaded 1 true, .wait 1 1 (-1)] (by decide +kernel)
    refine ⟨s, hrun, fun h => ?_⟩
    obtain ⟨n, hn, -⟩ := h.children _ hjob hwaiting none rfl 2 p hp hstate hparent
    rw [hnone] at hn
    cases hn
  · obtain ⟨s, hrun, hjob, hwaiting, hgone⟩ := exists_run_of_play (m := plainMachine)
      (G := Lts.anyStep)
      (Q := fun s => (2, ⟨1, .wait 3 (some 3), none⟩) ∈ s.jobs ∧ s.Waiting 1 ∧ s.procs 3 = none)
      .running
      [.create 1 1 .running .loads, .loaded 1 true, .create 1 2 .running .loads, .wait 2 1 3,
        .loaded 1 false] (by decide +kernel)
    refine ⟨s, hrun, fun h => ?_⟩
    obtain ⟨i, -, hi, -⟩ := h.awaited _ hjob hwaiting 3 (some 3) rfl (by decide)
    rw [hgone] at hi
    cases hi

end SpaghettiOS.Process
