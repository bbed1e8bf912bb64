import SpaghettiOS.Proc.Rule

/-!
# The life of a process

A process is created, loaded, runs and waits, becomes a zombie, and is destroyed.
`proc_start` writes the state when the image has been loaded, so that a process that
was deleted meanwhile is brought back to life.  Of the two processes that are to be
protected, the kernel process is not.
-/

namespace SpaghettiOS.Process

open Fs (ProcState)
open Function (update_of_ne update_self)

/-- The life cycle, except that the thread of process `r` may still run. -/
structure Life (r : Option Nat) (s : ProcSys) : Prop where
  known : ∀ i ∈ s.exited, i < s.next
  gone : ∀ i ∈ s.exited, ∀ p, s.heap i = some p → p.state = .zombie
  still : ∀ i p, some i ≠ r → s.heap i = some p → p.state = .zombie → p.thread.Still
  reapable : ∀ pid ∈ s.reapList, ∃ i p, s.procs pid = some i ∧ s.heap i = some p ∧ p.state = .zombie
  once : s.reapList.Nodup
  loads : ∀ x ∈ s.jobs, ∀ n, x.2.task = .load n → ∃ p, s.heap n = some p ∧ p.state ≠ .zombie
  guarded : ∀ i p, s.heap i = some p → p.pid = initProc → p.protectedProc = true
  spared : kernelProc ∉ s.zombiefied ∧ initProc ∉ s.zombiefied

/-- No process is deleted while it is being loaded, nor is the kernel process, and
`malloc` does not return memory that reads as `ZOMBIE`. -/
def Orderly (s : ProcSys) : Event → Prop
  | .create _ _ st _ => st ≠ .zombie
  | .delete _ pid => pid ≠ kernelProc ∧ ∀ n ∈ s.loading, s.procs pid ≠ some n
  | .wait _ _ _ | .call _ _ _ | .loaded _ _ | .finish _ | .reap => True

instance (s : ProcSys) : (e : Event) → Decidable (Orderly s e)
  | .create _ _ st _ => inferInstanceAs (Decidable (st ≠ .zombie))
  | .delete _ _ => inferInstanceAs (Decidable (_ ∧ _))
  | .wait _ _ _ | .call _ _ _ | .loaded _ _ | .finish _ | .reap => .isTrue trivial

lemma mem_loading {s : ProcSys} {x : Nat × Job} {n : Nat} (hx : x ∈ s.jobs)
    (hn : x.2.task = .load n) : n ∈ s.loading :=
  List.mem_filterMap.mpr ⟨x, hx, by rw [hn]⟩

/-- A process that is not a zombie and does not run yet, and that nobody else is
loading. -/
def Unborn (s : ProcSys) (new : Nat) : Prop :=
  (∀ p, s.heap new = some p → p.state ≠ .zombie ∧ p.thread.Still) ∧
    ∀ x ∈ s.jobs, x.2.task ≠ .load new

def LifePhase : Phase → ProcSys → Prop
  | .rest, s => Life none s
  | .starting new _, s => Life none s ∧ Unborn s new
  | .retiring i, s | .waking i _, s => Life (some i) s

structure Alike (p q : Proc) : Prop where
  pid : q.pid = p.pid
  state : q.state = p.state
  protectedProc : q.protectedProc = p.protectedProc
  thread : p.state = .zombie → p.thread.Still → q.thread.Still

section Life

variable {r : Option Nat} {s t : ProcSys} {i : Nat} {p q : Proc} {f : Proc → Proc}

lemma Life.modifyProc (h : Life r s) (hf : ∀ p, s.heap i = some p → Alike p (f p)) :
    Life r (s.modifyProc i f) := by
  have hold : ∀ {j q}, (s.modifyProc i f).heap j = some q → ∃ p, s.heap j = some p ∧ Alike p q := by
    intro j q hq
    rcases eq_or_ne j i with rfl | hne
    · simp only [ProcSys.modifyProc, update_self] at hq
      obtain ⟨p, hp, rfl⟩ := Option.map_eq_some_iff.mp hq
      exact ⟨p, hp, hf p hp⟩
    · simp only [ProcSys.modifyProc, update_of_ne hne] at hq
      exact ⟨q, hq, rfl, rfl, rfl, fun _ h => h⟩
  have hnew : ∀ {j p}, s.heap j = some p → ∃ q, (s.modifyProc i f).heap j = some q ∧ Alike p q := by
    intro j p hp
    rcases eq_or_ne j i with rfl | hne
    · exact ⟨f p, by simp [ProcSys.modifyProc, hp], hf p hp⟩
    · exact ⟨p, by simp [ProcSys.modifyProc, hne, hp], rfl, rfl, rfl, fun _ h => h⟩
  refine ⟨h.known, ?_, ?_, ?_, h.once, ?_, ?_, h.spared⟩
  · intro j hj q hq
    obtain ⟨p, hp, ha⟩ := hold hq
    rw [ha.state]
    exact h.gone j hj p hp
  · intro j q hj hq hstate
    obtain ⟨p, hp, ha⟩ := hold hq
    rw [ha.state] at hstate
    exact ha.thread hstate (h.still j p hj hp hstate)
  · intro pid hpid
    obtain ⟨j, p, hj, hp, hstate⟩ := h.reapable pid hpid
    obtain ⟨q, hq, ha⟩ := hnew hp
    exact ⟨j, q, hj, hq, ha.state.trans hstate⟩
  · intro x hx n hn
    obtain ⟨p, hp, hstate⟩ := h.loads x hx n hn
    obtain ⟨q, hq, ha⟩ := hnew hp
    exact ⟨q, hq, ha.state ▸ hstate⟩
  · intro j q hq hpid
    obtain ⟨p, hp, ha⟩ := hold hq
    rw [ha.protectedProc]
    exact h.guarded j p hp (ha.pid ▸ hpid)

lemma Life.jobs (h : Life r s) {jobs : List (Nat × Job)}
    (hjobs : ∀ x ∈ jobs, ∀ n, x.2.task = .load n →
      x ∈ s.jobs ∨ ∃ p, s.heap n = some p ∧ p.state ≠ .zombie) :
    Life r { s with jobs := jobs } :=
  { h with loads := fun x hx n hn => (hjobs x hx n hn).elim (fun hx => h.loads x hx n hn) id }

lemma Life.addCount (h : Life r s) (k : Int) (holder : Option Nat) :
    Life r (s.addCount k holder) := by
  cases holder with
  | none => exact h
  | some j => exact h.modifyProc fun p _ => ⟨rfl, rfl, rfl, fun _ h => h⟩

lemma Life.suspend (h : Life r s) {co : Nat} {job : Job} (hi : s.heap job.caller = some p)
    (huser : p.thread = .user)
    (hload : ∀ n, job.task = .load n → ∃ p, s.heap n = some p ∧ p.state ≠ .zombie) :
    Life r (s.suspend co job) := by
  have hheap := heap_addCount s 1 job.holder
  have hblocked : Life r ((s.addCount 1 job.holder).setThread job.caller .blocked) := by
    refine (h.addCount 1 job.holder).modifyProc fun q hq => ⟨rfl, rfl, rfl, fun _ hstill => ?_⟩
    rw [hheap, hi] at hq
    cases hq
    simp [huser, Thread.Still] at hstill
  refine hblocked.jobs fun x hx n hn => ?_
  rcases List.mem_cons.mp hx with rfl | hx
  · obtain ⟨q, hq, hstate⟩ := hload n hn
    exact .inr ⟨_, (heap_suspend s co job n).trans (congrArg (Option.map _) hq), hstate⟩
  · exact .inl (by cases hholder : job.holder <;> exact hx)

lemma Life.resume (h : Life r s) (co : Nat) (job : Job) : Life r (s.resume co job) := by
  refine (h.addCount (-1) job.holder).jobs fun x hx n _ => .inl ?_
  have hx' := List.mem_of_mem_erase hx
  cases job.holder with
  | none | some j => exact hx'

lemma Life.setLive (h : Life r s) (hi : s.heap i = some p) (hp : p.state ≠ .zombie)
    {st : ProcState} (hst : st ≠ .zombie) : Life r (s.setState i st) := by
  have hat : (s.setState i st).heap i = some { p with state := st } := by
    simp [ProcSys.setState, ProcSys.modifyProc, hi]
  have hother : ∀ j ≠ i, (s.setState i st).heap j = s.heap j :=
    fun j hj => update_of_ne hj _ _
  have hexited : (s.setState i st).exited = s.exited := if_neg hst
  refine ⟨hexited ▸ h.known, ?_, ?_, ?_, h.once, ?_, ?_, h.spared⟩
  · intro j hj q hq
    rw [hexited] at hj
    rcases eq_or_ne j i with rfl | hne
    · exact absurd (h.gone j hj p hi) hp
    · exact h.gone j hj q ((hother j hne).symm.trans hq)
  · intro j q hj hq hstate
    rcases eq_or_ne j i with rfl | hne
    · rw [hat] at hq
      cases hq
      exact absurd hstate hst
    · exact h.still j q hj ((hother j hne).symm.trans hq) hstate
  · intro pid hpid
    obtain ⟨j, q, hj, hq, hstate⟩ := h.reapable pid hpid
    have hne : j ≠ i := by
      rintro rfl
      rw [hi] at hq
      cases hq
      exact hp hstate
    exact ⟨j, q, hj, (hother j hne).trans hq, hstate⟩
  · intro x hx n hn
    obtain ⟨q, hq, hstate⟩ := h.loads x hx n hn
    rcases eq_or_ne n i with rfl | hne
    · exact ⟨_, hat, hst⟩
    · exact ⟨q, (hother n hne).trans hq, hstate⟩
  · intro j q hq hpid
    rcases eq_or_ne j i with rfl | hne
    · rw [hat] at hq
      cases hq
      exact h.guarded j p hi hpid
    · exact h.guarded j q ((hother j hne).symm.trans hq) hpid

lemma Life.setZombie (hS : Sound none s) (h : Life none s) (hi : s.heap i = some p)
    (hload : ∀ x ∈ s.jobs, x.2.task ≠ .load i) : Life (some i) (s.setState i .zombie) := by
  have hat : (s.setState i .zombie).heap i = some { p with state := .zombie } := by
    simp [ProcSys.setState, ProcSys.modifyProc, hi]
  have hother : ∀ j ≠ i, (s.setState i .zombie).heap j = s.heap j :=
    fun j hj => update_of_ne hj _ _
  refine ⟨?_, ?_, ?_, ?_, h.once, ?_, ?_, h.spared⟩
  · intro j hj
    rcases eq_or_ne j i with rfl | hne
    · exact (hS.slot j p hi).1
    · exact h.known j (by simpa [ProcSys.setState, hne] using hj)
  · intro j hj q hq
    rcases eq_or_ne j i with rfl | hne
    · rw [hat] at hq
      cases hq
      rfl
    · have hj' : j ∈ s.exited := by simpa [ProcSys.setState, hne] using hj
      exact h.gone j hj' q ((hother j hne).symm.trans hq)
  · intro j q hj hq hstate
    have hne : j ≠ i := fun heq => hj (congrArg some heq)
    exact h.still j q (by simp) ((hother j hne).symm.trans hq) hstate
  · intro pid hpid
    obtain ⟨j, q, hj, hq, hstate⟩ := h.reapable pid hpid
    rcases eq_or_ne j i with rfl | hne
    · exact ⟨j, _, hj, hat, rfl⟩
    · exact ⟨j, q, hj, (hother j hne).trans hq, hstate⟩
  · intro x hx n hn
    obtain ⟨q, hq, hstate⟩ := h.loads x hx n hn
    have hne : n ≠ i := by
      rintro rfl
      exact hload x hx hn
    exact ⟨q, (hother n hne).trans hq, hstate⟩
  · intro j q hq hpid
    rcases eq_or_ne j i with rfl | hne
    · rw [hat] at hq
      cases hq
      exact h.guarded j p hi hpid
    · exact h.guarded j q ((hother j hne).symm.trans hq) hpid

lemma Life.stop (h : Life (some i) s)
    (hi : ∀ p, s.heap i = some p → p.state = .zombie → p.thread.Still) : Life none s := by
  refine { h with still := fun j q _ hq hstate => ?_ }
  by_cases hj : some j = some i
  · cases hj
    exact hi q hq hstate
  · exact h.still j q hj hq hstate

lemma Life.free (hS : Sound none s) (h : Life r s) {pid : Int} (hpid : s.procs pid = some i)
    (hload : ∀ x ∈ s.jobs, x.2.task ≠ .load i) (hreap : pid ∉ s.reapList) :
    Life r (s.free i pid) := by
  have hold : ∀ {j q}, (s.free i pid).heap j = some q → s.heap j = some q := by
    intro j q hq
    rcases eq_or_ne j i with rfl | hne
    · simp [ProcSys.free] at hq
    · exact (update_of_ne hne _ _).symm.trans hq
  refine ⟨h.known, fun j hj q hq => h.gone j hj q (hold hq),
    fun j q hj hq => h.still j q hj (hold hq), ?_, h.once, ?_,
    fun j q hq => h.guarded j q (hold hq), h.spared⟩
  · intro pid' hpid'
    obtain ⟨j, q, hj, hq, hstate⟩ := h.reapable pid' hpid'
    have hne : pid' ≠ pid := by
      rintro rfl
      exact hreap hpid'
    have hji : j ≠ i := by
      rintro rfl
      obtain ⟨p1, hp1, h1⟩ := hS.table pid' j hj
      obtain ⟨p2, hp2, h2⟩ := hS.table pid j hpid
      rw [hp1] at hp2
      cases hp2
      exact hne (h1.symm.trans h2)
    refine ⟨j, q, ?_, (update_of_ne hji _ _).trans hq, hstate⟩
    exact (update_of_ne hne _ _).trans hj
  · intro x hx n hn
    obtain ⟨q, hq, hstate⟩ := h.loads x hx n hn
    have hne : n ≠ i := by
      rintro rfl
      exact hload x hx hn
    exact ⟨q, (update_of_ne hne _ _).trans hq, hstate⟩

lemma Life.malloc (h : Life r s) (k : Nat) : Life r { s with mallocs := k } :=
  { h with }

lemma Life.addNode (h : Life r s) (i : Nat) (n : WaitNode) : Life r (s.addNode i n) :=
  h.modifyProc fun _ _ => ⟨rfl, rfl, rfl, fun _ h => h⟩

lemma Life.adopt (h : Life r s) (i : Nat) (child : Int) : Life r (s.adopt i child) := by
  have hlist : Life r (s.modifyProc i fun p => { p with childList := child :: p.childList }) :=
    h.modifyProc fun _ _ => ⟨rfl, rfl, rfl, fun _ h => h⟩
  unfold ProcSys.adopt
  split
  · exact hlist
  · exact hlist.modifyProc fun _ _ => ⟨rfl, rfl, rfl, fun _ h => h⟩

lemma Life.reply (h : Life r s) (i : Nat) : Life r (s.reply i) := by
  refine h.modifyProc fun p _ => ⟨rfl, rfl, rfl, fun _ hstill => ?_⟩
  show Thread.Still (if p.thread = .blocked then .user else p.thread)
  rw [if_neg]
  · exact hstill
  · intro hblocked
    rw [hblocked] at hstill
    exact hstill

lemma Life.nodeSafe : NodeSafe (Life r) where
  malloc k h := h.malloc k
  node _ h _ := h.addNode _ _

lemma Life.spawn (hS : Sound none s) (h : Life none s) {pid : Int} {st : ProcState}
    (hnone : s.procs pid = none) (hst : st ≠ .zombie) : Life none (s.spawn pid st) := by
  have hother : ∀ {j q}, s.heap j = some q → (s.spawn pid st).heap j = some q := fun hq =>
    (update_of_ne (hS.slot _ _ hq).1.ne _ _).trans hq
  have hcases : ∀ {j q}, (s.spawn pid st).heap j = some q →
      q = ⟨pid, st, pid = initProc ∨ pid = kernelProc, 0, [], [], none, .unborn, []⟩ ∨
      s.heap j = some q := by
    intro j q hq
    rcases eq_or_ne j s.next with rfl | hne
    · exact .inl (Option.some.inj (hq.symm.trans (update_self _ _ _)))
    · exact .inr ((update_of_ne hne _ _).symm.trans hq)
  have hexited : (s.spawn pid st).exited = s.exited := if_neg hst
  refine ⟨?_, ?_, ?_, ?_, h.once, ?_, ?_, h.spared⟩
  · intro j hj
    rw [hexited] at hj
    exact (h.known j hj).trans (Nat.lt_succ_self _)
  · intro j hj q hq
    rw [hexited] at hj
    exact h.gone j hj q ((update_of_ne (h.known j hj).ne _ _).symm.trans hq)
  · intro j q hj hq hstate
    rcases hcases hq with rfl | hq
    · exact trivial
    · exact h.still j q hj hq hstate
  · intro pid' hpid'
    obtain ⟨j, q, hj, hq, hstate⟩ := h.reapable pid' hpid'
    have hne : pid' ≠ pid := by
      rintro rfl
      rw [hnone] at hj
      cases hj
    exact ⟨j, q, (update_of_ne hne _ _).trans hj, hother hq, hstate⟩
  · intro x hx n hn
    obtain ⟨q, hq, hstate⟩ := h.loads x hx n hn
    exact ⟨q, hother hq, hstate⟩
  · intro j q hq hpid
    rcases hcases hq with rfl | hq
    · exact decide_eq_true (.inl hpid)
    · exact h.guarded j q hq hpid

lemma life_rule {m : Machine} : Rule m Orderly LifePhase where
  malloc {ph s} k h := by
    cases ph with
    | rest => exact Life.malloc h k
    | starting new ok => exact ⟨h.1.malloc k, h.2⟩
    | retiring i | waking i l => exact Life.malloc h k
  currPid k h := { h with }
  spawn {s s' co pid' pid st start} hS h hG hnone := by
    have hlife := Life.spawn hS h hnone hG
    refine ⟨hlife, fun _ => ⟨hlife, fun q hq => ?_, fun x hx hload => ?_⟩⟩
    · obtain rfl := Option.some.inj (hq.symm.trans (update_self _ _ _))
      exact ⟨hG, trivial⟩
    · exact absurd rfl (hS.loading x hx s.next hload).1.ne
  load {s co i p new q holder} hS h hnew hq hi huser := by
    refine Life.suspend h hi huser fun n hn => ?_
    cases hn
    exact ⟨q, hq, (hnew.2.1 q hq).1⟩
  loaded {s co job new ok} hS h hG hmem htask := by
    refine ⟨Life.resume h co job, fun q hq => ?_, fun x hx hload => ?_⟩
    · obtain ⟨p, hp, hstate⟩ := h.loads _ hmem new htask
      have hheap : (s.resume co job).heap new = _ := heap_addCount s (-1) job.holder new
      rw [hheap, hp] at hq
      cases hq
      refine ⟨hstate, ?_⟩
      rcases (hS.loading _ hmem new htask).2.1 p hp with hthread | hthread
      · exact hthread ▸ trivial
      · exact hthread ▸ trivial
    · obtain ⟨hne, hx, -⟩ := hS.resume_idle hmem x hx
      exact hne (((hS.loading _ hmem new htask).2.2 x hx).2 hload)
  runs {s new p} _ h hp := by
    refine (h.1.setLive hp (h.2.1 p hp).1 (by decide)).modifyProc fun q hq => ?_
    refine ⟨rfl, rfl, rfl, fun hstate => ?_⟩
    simp only [ProcSys.setState, ProcSys.modifyProc, update_self, hp] at hq
    cases hq
    cases hstate
  fails {s new p} hS h hp := by
    obtain ⟨hlife, hunborn, hload⟩ := h
    have hat : (s.setState new .zombie).heap new = some { p with state := .zombie } := by
      simp [ProcSys.setState, ProcSys.modifyProc, hp]
    have hzombie : Life none (s.setState new .zombie) := by
      refine (hlife.setZombie hS hp hload).stop fun q hq _ => ?_
      rw [hat] at hq
      cases hq
      exact (hunborn p hp).2
    refine ⟨hzombie, fun _ =>
      hzombie.free (hS.setState (by decide) (by simp)) (hS.slot new p hp).2 hload ?_⟩
    intro hmem
    obtain ⟨j, q, hj, hq, hstate⟩ := hlife.reapable p.pid hmem
    obtain rfl : new = j := Option.some.inj ((hS.slot new p hp).2.symm.trans hj)
    exact (hunborn q hq).1 hstate
  child _ h _ _ _ _ _ := Life.adopt h _ _
  call {s co i p c holder} _ h hi huser _ := Life.suspend h hi huser (by simp)
  resume _ h _ _ := Life.resume h _ _
  reply _ h _ := Life.reply h _
  wait {s co i p pid target} hS h _ hi huser _ := by
    have hp : p.state ≠ .zombie := fun hstate => by
      have hstill := h.still i p (by simp) hi hstate
      simp [huser, Thread.Still] at hstill
    have hwaiting : Life none (s.setState i .waiting) := h.setLive hi hp (by decide)
    have hentering := hS.entering hi huser
    refine ((waitNodes_keeps Entering.nodeSafe pid p.pid _ hentering).and
      (waitNodes_keeps Life.nodeSafe pid p.pid _ hwaiting)).mono ?_
    rintro _ t ⟨⟨-, ⟨q, hq, huser'⟩, -⟩, hlife⟩
    have hco : Life none (t.modifyProc i fun p => { p with wakeCo := some co }) :=
      hlife.modifyProc fun _ _ => ⟨rfl, rfl, rfl, fun _ h => h⟩
    refine Life.suspend hco (p := { q with wakeCo := some co }) ?_ huser' (by simp)
    simp [ProcSys.modifyProc, hq]
  retire {s pid' pid i p} hS h hG hpid hi hstate hprot := by
    have hload : ∀ x ∈ s.jobs, x.2.task ≠ .load i := fun x hx hx' =>
      hG.2 i (mem_loading hx hx') hpid
    have hzombie := Life.setZombie hS h hi hload
    have hfresh : pid ∉ s.reapList := by
      intro hmem
      obtain ⟨j, q, hj, hq, hq'⟩ := h.reapable pid hmem
      obtain rfl : i = j := Option.some.inj (hpid.symm.trans hj)
      rw [hi] at hq
      cases hq
      exact hstate hq'
    have hinit : pid ≠ initProc := by
      obtain ⟨q, hq, rfl⟩ := hS.table pid i hpid
      rw [hi] at hq
      cases hq
      intro heq
      rw [h.guarded i p hi heq] at hprot
      cases hprot
    refine ⟨hzombie.known, hzombie.gone, hzombie.still, fun pid1 hmem => ?_, ?_, hzombie.loads,
      hzombie.guarded, ?_⟩
    · rcases List.mem_append.mp hmem with hmem | hmem
      · exact hzombie.reapable pid1 hmem
      · obtain rfl := List.mem_singleton.mp hmem
        exact ⟨i, { p with state := .zombie }, hpid,
          by simp [ProcSys.setState, ProcSys.modifyProc, hi], rfl⟩
    · refine List.nodup_append.mpr ⟨h.once, List.nodup_singleton _, fun a ha b hb heq => ?_⟩
      rw [List.mem_singleton.mp hb] at heq
      exact hfresh (heq ▸ ha)
    · exact ⟨List.not_mem_cons_of_ne_of_not_mem hG.1.symm h.spared.1,
        List.not_mem_cons_of_ne_of_not_mem hinit.symm h.spared.2⟩
  reparent _ h _ _ _ := reparent_keeps Life.nodeSafe (fun i child h => h.adopt i child) _ _ h
  waking _ h _ := h
  skip _ h _ := h
  wake {s i n l w p co pid target} _ h _ hw hstate _ _ := by
    have hresume := Life.resume h co ⟨w, .wait pid target, none⟩
    have hrun : Life (some i) ((s.resume co ⟨w, .wait pid target, none⟩).setState w .running) :=
      hresume.setLive hw (by rw [hstate]; decide) (by decide)
    have hreply := hrun.reply w
    exact { hreply with }
  suspended {s i} _ h := by
    have hthread : Life (some i) (s.setThread i .suspended) :=
      Life.modifyProc h fun _ _ => ⟨rfl, rfl, rfl, fun _ _ => trivial⟩
    refine hthread.stop fun q hq _ => ?_
    simp only [ProcSys.setThread, ProcSys.modifyProc, update_self] at hq
    obtain ⟨p, -, rfl⟩ := Option.map_eq_some_iff.mp hq
    exact trivial
  reaped {s pid l i p} hS h _ hl hpid hi hstate _ := by
    have honce : (pid :: l).Nodup := hl ▸ h.once
    have hpop : Life none { s with reapList := l } :=
      ⟨h.known, h.gone, h.still,
        fun pid1 hmem => h.reapable pid1 (hl ▸ List.mem_cons_of_mem _ hmem),
        (List.nodup_cons.mp honce).2, h.loads, h.guarded, h.spared⟩
    have hpopS : Sound none { s with reapList := l } := hS.logs rfl rfl rfl rfl rfl
    refine Life.free hpopS hpop hpid (fun x hx hx' => ?_) (List.nodup_cons.mp honce).1
    obtain ⟨q, hq, hq'⟩ := h.loads x hx i hx'
    rw [hi] at hq
    cases hq
    exact hq' hstate

lemma life_booted (st : ProcState) : Life none (booted st) := by
  have hS := sound_booted st
  have hheap : ∀ {i p}, (booted st).heap i = some p → i = 0 ∧ p.state = st ∧ p.thread = .unborn ∧
      p.pid = 0 ∨ p.state = .running ∧ p.protectedProc = true := by
    intro i p hi
    simp only [booted] at hi
    split at hi
    · cases hi
      exact .inl ⟨‹_›, rfl, rfl, rfl⟩
    · split at hi
      · cases hi
        exact .inr ⟨rfl, rfl⟩
      · cases hi
  have hexited : ∀ i ∈ (booted st).exited, i = 0 ∧ st = .zombie := by
    intro i hi
    simp only [booted] at hi
    split at hi
    · exact ⟨List.mem_singleton.mp hi, ‹_›⟩
    · cases hi
  refine ⟨fun i hi => ?_, fun i hi p hp => ?_, fun i p _ hp hstate => ?_, by simp [booted],
    List.nodup_nil, by simp [booted], fun i p hp hpid => ?_, by simp [booted], by simp [booted]⟩
  · rw [(hexited i hi).1]
    exact Nat.zero_lt_two
  · obtain ⟨rfl, rfl⟩ := hexited i hi
    cases hp
    rfl
  · rcases hheap hp with ⟨-, -, hthread, -⟩ | ⟨hrun, -⟩
    · exact hthread ▸ trivial
    · rw [hrun] at hstate
      cases hstate
  · rcases hheap hp with ⟨-, -, -, hzero⟩ | ⟨-, hprot⟩
    · rw [hzero] at hpid
      exact absurd hpid (by decide)
    · exact hprot

end Life

/-! ## Runs -/

/-- In an orderly run, a zombie stays one; the reap list has no pid twice, and each is that of a
zombie; no process is destroyed twice, and one that has not been destroyed has its place in the
table; and `zombiefy` has spared the kernel process and the first process. -/
theorem life_cycle {m : Machine} {st : ProcState} {s : ProcSys}
    (hrun : Lts.Run (ProcStep m) Orderly (booted st) s) :
    (∀ i ∈ s.exited, ∀ p, s.heap i = some p → p.state = .zombie) ∧
    (s.reapList.Nodup ∧ ∀ pid ∈ s.reapList, ∃ i p, s.procs pid = some i ∧ s.heap i = some p ∧
      p.state = .zombie) ∧
    (s.destroyed.Nodup ∧ ∀ i < s.next, i ∉ s.destroyed → ∃ p, s.heap i = some p ∧
      s.procs p.pid = some i) ∧ kernelProc ∉ s.zombiefied ∧ initProc ∉ s.zombiefied := by
  obtain ⟨hS, hL⟩ := life_rule.run (life_booted st) hrun
  refine ⟨hL.gone, ⟨hL.once, hL.reapable⟩, ⟨hS.once, fun i hlt hi => ?_⟩, hL.spared⟩
  cases hp : s.heap i with
  | none => exact absurd ((hS.dead i).mpr ⟨hlt, hp⟩) hi
  | some p => exact ⟨p, rfl, (hS.slot i p hp).2⟩

theorem life_cycle_one : ∃ s, Lts.Run (ProcStep plainMachine) Orderly (booted .running) s ∧
    s.exited = [2] ∧ s.destroyed = [2] ∧ s.reapList.Nodup := by
  obtain ⟨s, hrun, hexited, hdestroyed⟩ := exists_run_of_play (m := plainMachine)
    (G := Orderly) (Q := fun s => s.exited = [2] ∧ s.destroyed = [2])
    .running [.create 1 1 .running .loads, .loaded 1 true, .delete 2 2, .reap] (by decide +kernel)
  exact ⟨s, hrun, hexited, hdestroyed, (life_cycle hrun).2.1.1⟩

theorem zombie_runs :
    (∃ s, Lts.Run (ProcStep plainMachine) Lts.anyStep (booted .running) s ∧ 3 ∈ s.exited ∧
      3 ∈ s.reapList ∧ s.procs 3 = some 3 ∧ (s.heap 3).map Proc.state = some .running) ∧
    ∃ s, Lts.Run (ProcStep plainMachine) Lts.anyStep (booted .running) s ∧
      kernelProc ∈ s.zombiefied := by
  constructor
  · exact exists_run_of_play .running [.create 1 1 .running .loads, .loaded 1 true,
      .create 2 2 .running .loads, .delete 1 3, .loaded 2 true] (by decide +kernel)
  · exact exists_run_of_play .running [.delete 1 0] (by decide +kernel)

end SpaghettiOS.Process
