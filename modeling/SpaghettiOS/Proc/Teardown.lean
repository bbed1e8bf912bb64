import SpaghettiOS.Proc.Rule

/-!
# Processes that are torn down under a request

`proc_destroy` leaves a process alone as long as its `coro_count` is not 0.  Only the
operations on NFS files count themselves.  So a process whose coroutine is suspended in
paging, in loading or in `console_read` can be freed before the coroutine is resumed.
-/

namespace SpaghettiOS.Process

open Fs (ProcState)

/-- The coroutine works on behalf of the process, in a call that is not counted in its
`coro_count`. -/
def Uncounted (job : Job) (i : Nat) : Prop :=
  match job.task with
  | .call .fault | .call .consoleRead => job.caller = i
  | .load new => new = i ∨ job.caller = i
  | .call .file | .call .sleep | .wait _ _ => False

/-- The coroutine works on behalf of the process. -/
def WorksFor (job : Job) (i : Nat) : Prop :=
  job.task = .call .file ∧ job.caller = i ∨ Uncounted job i

instance (job : Job) (i : Nat) : Decidable (Uncounted job i) :=
  match h : job.task with
  | .call .fault | .call .consoleRead => decidable_of_iff (job.caller = i) (by simp [Uncounted, h])
  | .load new => decidable_of_iff (new = i ∨ job.caller = i) (by simp [Uncounted, h])
  | .call .file | .call .sleep | .wait _ _ => .isFalse (by simp [Uncounted, h])

instance (job : Job) (i : Nat) : Decidable (WorksFor job i) :=
  inferInstanceAs (Decidable (_ ∨ _))

/-- No process is reaped under a call that nobody counts. -/
def Spares (s : ProcSys) : Event → Prop
  | .reap => ∀ pid ∈ s.reapList.head?, ∀ i ∈ s.procs pid, ∀ p ∈ s.heap i, p.coroCount = 0 →
      ∀ x ∈ s.jobs, ¬ Uncounted x.2 i
  | .create _ _ _ _ | .delete _ _ | .wait _ _ _ | .call _ _ _ | .loaded _ _ | .finish _ => True

/-- Calls on files are counted, and no call works for a destroyed process. -/
structure Undisturbed (s : ProcSys) : Prop where
  held : ∀ x ∈ s.jobs, x.2.task = .call .file → x.2.holder = some x.2.caller
  alive : ∀ i ∈ s.destroyed, ∀ x ∈ s.jobs, ¬ WorksFor x.2 i

def Fresh (s : ProcSys) (new : Nat) : Prop :=
  ∀ x ∈ s.jobs, x.2.caller ≠ new ∧ x.2.task ≠ .load new

def UndisturbedPhase : Phase → ProcSys → Prop
  | .starting new _, s => Undisturbed s ∧ Fresh s new
  | .rest, s | .retiring _, s | .waking _ _, s => Undisturbed s

section Undisturbed

variable {s t : ProcSys} {i : Nat} {p : Proc}

lemma Undisturbed.same (h : Undisturbed s) (hjobs : ∀ x ∈ t.jobs, x ∈ s.jobs)
    (hdestroyed : t.destroyed = s.destroyed) : Undisturbed t :=
  ⟨fun x hx => h.held x (hjobs x hx), fun i hi x hx => h.alive i (hdestroyed ▸ hi) x (hjobs x hx)⟩

lemma Fresh.not_worksFor {new : Nat} (h : Fresh s new) : ∀ x ∈ s.jobs, ¬ WorksFor x.2 new := by
  intro x hx hworks
  obtain ⟨hcaller, hload⟩ := h x hx
  rcases hworks with ⟨-, heq⟩ | hworks
  · exact hcaller heq
  · unfold Uncounted at hworks
    split at hworks
    · exact hcaller hworks
    · exact hcaller hworks
    · rename_i n hn
      rcases hworks with rfl | heq
      · exact hload hn
      · exact hcaller heq
    all_goals exact hworks

lemma Undisturbed.suspend (h : Undisturbed s) {co : Nat} {job : Job}
    (hfile : job.task = .call .file → job.holder = some job.caller)
    (hworks : ∀ i ∈ s.destroyed, ¬ WorksFor job i) : Undisturbed (s.suspend co job) := by
  have hdestroyed : (s.suspend co job).destroyed = s.destroyed :=
    (addCount_fields s 1 job.holder).2.2
  refine ⟨fun x hx => ?_, fun i hi x hx => ?_⟩
  · rcases List.mem_cons.mp hx with rfl | hx
    · exact hfile
    · exact h.held x hx
  · rw [hdestroyed] at hi
    rcases List.mem_cons.mp hx with rfl | hx
    · exact hworks i hi
    · exact h.alive i hi x hx

lemma Sound.not_destroyed {r : Option Nat} (h : Sound r s) (hi : s.heap i = some p) :
    i ∉ s.destroyed := by
  intro hmem
  rw [((h.dead i).mp hmem).2] at hi
  cases hi

lemma Undisturbed.nodeSafe : NodeSafe Undisturbed where
  malloc _ h := h.same (fun _ hx => hx) rfl
  node _ h _ := h.same (fun _ hx => hx) rfl

lemma Undisturbed.adopt (h : Undisturbed s) (pid : Int) : Undisturbed (s.adopt i pid) := by
  unfold ProcSys.adopt
  split
  · exact h.same (fun _ hx => hx) rfl
  · exact h.same (fun _ hx => hx) rfl

lemma Undisturbed.free (h : Undisturbed s) {pid : Int}
    (hi : ∀ x ∈ s.jobs, ¬ WorksFor x.2 i) : Undisturbed (s.free i pid) := by
  refine ⟨h.held, fun j hj x hx => ?_⟩
  rcases List.mem_cons.mp hj with rfl | hj
  · exact hi x hx
  · exact h.alive j hj x hx

lemma undisturbed_rule {m : Machine} : Rule m Spares UndisturbedPhase where
  malloc {ph s} k h := by
    cases ph with
    | starting new ok => exact ⟨h.1.same (fun _ hx => hx) rfl, h.2⟩
    | rest | retiring i | waking i l => exact Undisturbed.same h (fun _ hx => hx) rfl
  currPid _ h := Undisturbed.same h (fun _ hx => hx) rfl
  spawn {s s' co pid' pid st start} hS h _ _ := by
    have hspawn : Undisturbed (s.spawn pid st) := Undisturbed.same h (fun _ hx => hx) rfl
    refine ⟨hspawn, fun _ => ⟨hspawn, fun x hx => ⟨(hS.born x hx).1.ne, fun hload => ?_⟩⟩⟩
    exact absurd rfl (hS.loading x hx s.next hload).1.ne
  load {s co i p new q holder} hS h _ hq hi _ := by
    refine Undisturbed.suspend h nofun fun j hj hworks => ?_
    rcases hworks with ⟨htask, -⟩ | rfl | rfl
    · cases htask
    · exact hS.not_destroyed hq hj
    · exact hS.not_destroyed hi hj
  loaded {s co job new ok} hS h _ hmem htask := by
    have hjobs := hS.resume_idle hmem
    refine ⟨Undisturbed.same h (fun x hx => (hjobs x hx).2.1)
      (addCount_fields s (-1) job.holder).2.2, fun x hx => ?_⟩
    obtain ⟨hne, hx, -⟩ := hjobs x hx
    obtain ⟨hcaller, hload⟩ := (hS.loading _ hmem new htask).2.2 x hx
    exact ⟨hcaller, fun hx' => hne (hload hx')⟩
  runs _ h _ := h.1.same (fun _ hx => hx) rfl
  fails {s new p} _ h _ := by
    have hzombie : Undisturbed (s.setState new .zombie) := h.1.same (fun _ hx => hx) rfl
    exact ⟨hzombie, fun _ => hzombie.free (Fresh.not_worksFor (s := s) h.2)⟩
  child _ h _ _ _ _ _ := Undisturbed.adopt h _
  call {s co i p c holder} hS h hi _ hholder := by
    refine Undisturbed.suspend h (fun hc => hholder (Task.call.inj hc)) fun j hj hworks => ?_
    have heq : i = j := by
      rcases hworks with ⟨-, heq⟩ | hworks
      · exact heq
      · cases c with
        | fault | consoleRead => exact hworks
        | file | sleep => exact hworks.elim
    exact hS.not_destroyed hi (heq ▸ hj)
  resume {s co job c} hS h hmem _ :=
    Undisturbed.same h (fun x hx => (hS.resume_idle hmem x hx).2.1)
      (addCount_fields s (-1) job.holder).2.2
  reply _ h _ := Undisturbed.same h (fun _ hx => hx) rfl
  wait {s co i p pid target} _ h _ _ _ _ := by
    have hwaiting : Undisturbed (s.setState i .waiting) := Undisturbed.same h (fun _ hx => hx) rfl
    refine (waitNodes_keeps Undisturbed.nodeSafe pid p.pid _ hwaiting).mono fun _ t ht => ?_
    have hco : Undisturbed (t.modifyProc i fun p => { p with wakeCo := some co }) :=
      ht.same (fun _ hx => hx) rfl
    refine hco.suspend nofun fun j _ hworks => ?_
    rcases hworks with ⟨htask, -⟩ | hworks
    · cases htask
    · exact hworks
  retire _ h _ _ _ _ _ := Undisturbed.same h (fun _ hx => hx) rfl
  reparent _ h _ _ _ := reparent_keeps Undisturbed.nodeSafe (fun _ child h => h.adopt child) _ _ h
  waking _ h _ := h
  skip _ h _ := h
  wake {s i n l w p co pid target} hS h _ _ _ _ hmem :=
    Undisturbed.same h (fun x hx => (hS.resume_idle hmem x hx).2.1) rfl
  suspended _ h := Undisturbed.same h (fun _ hx => hx) rfl
  reaped {s pid l i p} hS h hG hl hpid hi _ hcount := by
    have hfree : Undisturbed (s.free i pid) := by
      refine Undisturbed.free h fun x hx hworks => ?_
      rcases hworks with ⟨htask, hcaller⟩ | hworks
      · have hzero := hS.count i p hi
        rw [hcount] at hzero
        have hnone := List.countP_eq_zero.mp (Int.natCast_eq_zero.mp hzero.symm) x hx
        exact hnone (by simpa [hcaller] using h.held x hx htask)
      · exact hG pid (by rw [hl]; rfl) i hpid p hi hcount x hx hworks
    exact hfree.same (fun _ hx => hx) rfl

lemma spares_of_undisturbed (ht : ∀ i ∈ t.destroyed, ∀ x ∈ t.jobs, ¬ WorksFor x.2 i)
    (hreap : reap s = .done ⟨⟩ t) : Spares s .reap := by
  have hends : Ends (reap s) fun _ t => ∀ pid ∈ s.reapList.head?, ∀ i ∈ s.procs pid,
      ∀ p ∈ s.heap i, p.coroCount = 0 → i ∈ t.destroyed ∧ t.jobs = s.jobs := by
    refine reap_ends (fun hl pid hpid => ?_) (fun pid l i p hl hi hp hcount => ?_)
      fun pid l i p hl hi hp _ _ => ?_
    · rw [hl] at hpid
      cases hpid
    · intro pid' hpid' j hj q hq hzero
      rw [hl] at hpid'
      cases hpid'
      rw [Option.mem_def, hi] at hj
      cases hj
      rw [Option.mem_def, hp] at hq
      cases hq
      exact absurd hzero hcount
    · intro pid' hpid' j hj q hq _
      rw [hl] at hpid'
      cases hpid'
      rw [Option.mem_def, hi] at hj
      cases hj
      exact ⟨List.mem_cons_self, rfl⟩
  rw [hreap] at hends
  intro pid hpid i hi p hp hcount x hx hworks
  obtain ⟨hmem, hjobs⟩ := hends pid hpid i hi p hp hcount
  exact ht i hmem x (hjobs ▸ hx) (.inr hworks)

end Undisturbed

/-- As long as no process is reaped under one of the calls that are not counted, none is
destroyed under a call; and the next step keeps it so exactly if it does not either. -/
theorem no_teardown_under_request {m : Machine} {st : ProcState} {s : ProcSys}
    (hrun : Lts.Run (ProcStep m) Spares (booted st) s) :
    (∀ i ∈ s.destroyed, ∀ x ∈ s.jobs, ¬ WorksFor x.2 i) ∧ ∀ e t, ProcStep m s e t →
      ((∀ i ∈ t.destroyed, ∀ x ∈ t.jobs, ¬ WorksFor x.2 i) ↔ Spares s e) := by
  have hbooted : Undisturbed (booted st) := ⟨nofun, nofun⟩
  obtain ⟨hS, hU⟩ := undisturbed_rule.run hbooted hrun
  refine ⟨Undisturbed.alive hU, fun e t hstep => ⟨fun ht => ?_, fun hG => ?_⟩⟩
  · cases e with
    | reap => exact spares_of_undisturbed ht hstep
    | create co pid st start | delete pid target | wait co pid target | call co pid c
    | loaded co ok | finish co => trivial
  · exact Undisturbed.alive (undisturbed_rule.step hS hU hG hstep).2

instance (s : ProcSys) (e : Event) : Decidable (Spares s e) :=
  match e with
  | .reap => inferInstanceAs (Decidable (∀ pid ∈ s.reapList.head?, ∀ i ∈ s.procs pid,
      ∀ p ∈ s.heap i, p.coroCount = 0 → ∀ x ∈ s.jobs, ¬ Uncounted x.2 i))
  | .create _ _ _ _ | .delete _ _ | .wait _ _ _ | .call _ _ _ | .loaded _ _ | .finish _ =>
      .isTrue trivial

theorem no_teardown_under_request_file :
    ∃ s, Lts.Run (ProcStep plainMachine) Spares (booted .running) s ∧ s.destroyed = [2] ∧
      ∀ i ∈ s.destroyed, ∀ x ∈ s.jobs, ¬ WorksFor x.2 i := by
  obtain ⟨s, hrun, hdestroyed⟩ := exists_run_of_play (m := plainMachine) (G := Spares)
    (Q := fun s => s.destroyed = [2])
    .running [.create 1 1 .running .loads, .loaded 1 true, .call 1 2 .file, .delete 1 2, .reap,
      .finish 1, .reap] (by decide +kernel)
  exact ⟨s, hrun, hdestroyed, (no_teardown_under_request hrun).1⟩

theorem freed_under_request :
    (∀ c, c = .fault ∨ c = .consoleRead → ∃ s, Lts.Run (ProcStep plainMachine) Lts.anyStep
      (booted .running) s ∧ 2 ∈ s.destroyed ∧ ∃ x ∈ s.jobs, x.2.task = .call c ∧ WorksFor x.2 2) ∧
    ∃ s, Lts.Run (ProcStep plainMachine) Lts.anyStep (booted .running) s ∧
      3 ∈ s.destroyed ∧ ∃ x ∈ s.jobs, x.2.task = .load 3 ∧ WorksFor x.2 3 := by
  constructor
  · rintro c (rfl | rfl)
    · exact exists_run_of_play .running
        [.create 1 1 .running .loads, .loaded 1 true, .call 1 2 .fault,
        .delete 1 2, .reap] (by decide +kernel)
    · exact exists_run_of_play .running [.create 1 1 .running .loads, .loaded 1 true,
        .call 1 2 .consoleRead, .delete 1 2, .reap] (by decide +kernel)
  · exact exists_run_of_play .running [.create 1 1 .running .loads, .loaded 1 true,
      .create 2 2 .running .loads, .delete 1 3, .reap] (by decide +kernel)

end SpaghettiOS.Process
