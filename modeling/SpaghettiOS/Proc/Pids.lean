import SpaghettiOS.Proc.Syscalls

/-!
# Pids

`find_next_pid` looks for a free entry of `procs`, cyclically and from `curr_pid` on.
The value it leaves in `curr_pid` is `pid + 1 % MAX_PROCESSES`, so that `curr_pid` is 32
once pid 31 has been handed out, and the next call starts behind the table.

The table is memory here, with a word for every index.  A call is run with fuel, since a
loop that starts behind the table comes back to its start never.
-/

namespace SpaghettiOS.Pids

open Function (update)
open Process (maxProcesses)

/-- `procs` with the memory around it, and `curr_pid`. -/
structure PidTable where
  procs : Int → Option Nat
  currPid : Int

def InTable (pid : Int) : Prop := 0 ≤ pid ∧ pid < maxProcesses

instance (pid : Int) : Decidable (InTable pid) := inferInstanceAs (Decidable (_ ∧ _))

/-! ## The search -/

/-- The indices at which the loop has read `procs`, and the free one if it found one. -/
structure Search where
  reads : List Int
  found : Option Int
deriving DecidableEq, Repr

/-- The loop of `find_next_pid`, from the test of `pid` on. -/
def search (procs : Int → Option Nat) (start : Int) : Nat → Int → Option Search
  | 0, _ => none
  | fuel + 1, pid =>
      match procs pid with
      | none => some ⟨[pid], some pid⟩
      | some _ =>
          let next := (pid + 1) % maxProcesses
          if next = start then some ⟨[pid], none⟩
          else (search procs start fuel next).map fun r => { r with reads := pid :: r.reads }

/-- What a call of `find_next_pid` has read, its result, and the state it leaves. -/
structure Call where
  reads : List Int
  result : Int
  after : PidTable

def Search.call (r : Search) (t : PidTable) : Call :=
  match r.found with
  | some pid => ⟨r.reads, pid, { t with currPid := pid + 1 % maxProcesses }⟩
  | none => ⟨r.reads, -1, t⟩

def findNextPid (fuel : Nat) (t : PidTable) : Option Call :=
  (search t.procs t.currPid fuel t.currPid).map fun r => r.call t

section Search

variable {procs : Int → Option Nat} {start pid : Int} {fuel fuel' : Nat} {r : Search}

lemma search_mono (hle : fuel ≤ fuel') (h : search procs start fuel pid = some r) :
    search procs start fuel' pid = some r := by
  induction fuel generalizing pid fuel' r with
  | zero => cases h
  | succ fuel ih =>
    obtain ⟨fuel', rfl⟩ : ∃ k, fuel' = k + 1 := ⟨fuel' - 1, by omega⟩
    have hle : fuel ≤ fuel' := by omega
    rw [search] at h ⊢
    cases hpid : procs pid with
    | none => simpa [hpid] using h
    | some i =>
      simp only [hpid] at h ⊢
      split at h
      · rename_i hstart
        rw [if_pos hstart, h]
      · rename_i hstart
        obtain ⟨r', hr', rfl⟩ := Option.map_eq_some_iff.mp h
        rw [if_neg hstart, ih hle hr', Option.map_some]

lemma search_found (h : search procs start fuel pid = some r) {found : Int}
    (hfound : r.found = some found) : procs found = none := by
  induction fuel generalizing pid r with
  | zero => cases h
  | succ fuel ih =>
    rw [search] at h
    cases hpid : procs pid with
    | none =>
      simp only [hpid] at h
      cases h
      cases hfound
      exact hpid
    | some i =>
      simp only [hpid] at h
      split at h
      · cases h
        cases hfound
      · obtain ⟨r', hr', rfl⟩ := Option.map_eq_some_iff.mp h
        exact ih hr' hfound

def cycle (start : Int) (k n : Nat) : List Int :=
  (List.range' k n).map fun j : Nat => (start + (j : Int)) % maxProcesses

lemma cycle_succ (start : Int) (k n : Nat) :
    cycle start k (n + 1) = (start + (k : Int)) % maxProcesses :: cycle start (k + 1) n := rfl

lemma inTable_mod (i : Int) : InTable (i % maxProcesses) :=
  ⟨Int.emod_nonneg i (by decide), Int.emod_lt_of_pos i (by decide)⟩

lemma inTable_of_mem_cycle {i : Int} {k n : Nat} (h : i ∈ cycle start k n) : InTable i := by
  obtain ⟨j, -, rfl⟩ := List.mem_map.mp h
  exact inTable_mod _

lemma search_cycle (hstart : InTable start) (k n : Nat) (hn : k + (n + 1) = 32) (hfuel : n < fuel) :
    ∃ reads, search procs start fuel ((start + (k : Int)) % maxProcesses) =
        some ⟨reads, (cycle start k (n + 1)).find? fun i => (procs i).isNone⟩ ∧
      ∀ i ∈ reads, InTable i := by
  induction n generalizing k fuel with
  | zero =>
    obtain ⟨fuel, rfl⟩ : ∃ f, fuel = f + 1 := ⟨fuel - 1, by omega⟩
    obtain rfl : k = 31 := by omega
    refine ⟨[(start + (31 : Nat)) % maxProcesses], ?_, fun i hi => ?_⟩
    · have hlast : ((start + (31 : Nat)) % maxProcesses + 1) % maxProcesses = start := by
        have := hstart
        simp only [InTable, maxProcesses] at this ⊢
        omega
      rw [search, cycle_succ, List.find?_cons]
      cases procs ((start + (31 : Nat)) % maxProcesses) with
      | none => rfl
      | some j =>
        simp only [hlast, if_true]
        rfl
    · rw [List.mem_singleton.mp hi]
      exact inTable_mod _
  | succ n ih =>
    obtain ⟨fuel, rfl⟩ : ∃ f, fuel = f + 1 := ⟨fuel - 1, by omega⟩
    have hfuel : n < fuel := by omega
    obtain ⟨reads, hreads, hin⟩ := ih (k + 1) (by omega) hfuel
    have hnext : ((start + (k : Int)) % maxProcesses + 1) % maxProcesses =
        (start + ((k + 1 : Nat) : Int)) % maxProcesses := by
      simp only [maxProcesses]
      omega
    have hne : (start + ((k + 1 : Nat) : Int)) % maxProcesses ≠ start := by
      have := hstart
      simp only [InTable, maxProcesses] at this ⊢
      omega
    rw [search, cycle_succ, List.find?_cons]
    cases procs ((start + (k : Int)) % maxProcesses) with
    | none =>
      refine ⟨[(start + (k : Int)) % maxProcesses], rfl, fun i hi => ?_⟩
      rw [List.mem_singleton.mp hi]
      exact inTable_mod _
    | some j =>
      refine ⟨(start + (k : Int)) % maxProcesses :: reads, ?_, fun i hi => ?_⟩
      · simp only [hnext, if_neg hne, hreads, Option.map_some]
        rfl
      · rcases List.mem_cons.mp hi with rfl | hi
        · exact inTable_mod _
        · exact hin i hi

end Search

/-! ## Runs -/

/-- `find_next_pid` and the store of its result, for a process at `new`; and the store of
`NULL` at the end of `proc_destroy`. -/
inductive PidOp where
  | create (new : Nat)
  | destroy (pid : Int)

def PidStep (t : PidTable) : PidOp → PidTable → Prop
  | .create new, t' => ∃ fuel c, findNextPid fuel t = some c ∧
      t' = { c.after with procs := update c.after.procs c.result (some new) }
  | .destroy pid, t' => InTable pid ∧ (t.procs pid).isSome ∧
      t' = { t with procs := update t.procs pid none }

def kernelOnly (around : Int → Option Nat) : PidTable where
  procs pid := if pid = 0 then some 0 else if InTable pid then none else around pid
  currPid := 0

def booted (around : Int → Option Nat) : PidTable where
  procs := update (kernelOnly around).procs 1 (some 1)
  currPid := 2

/-- The entry that a call finds, for a `curr_pid` in the table. -/
def handedOut (t : PidTable) : Option Int :=
  (cycle t.currPid 0 32).find? fun i => (t.procs i).isNone

/-- A free pid from 1 to 31 if there is one, and otherwise -1. -/
def Picks (t : PidTable) (pid : Int) : Prop :=
  (1 ≤ pid ∧ pid < maxProcesses ∧ t.procs pid = none) ∨
    (pid = -1 ∧ ∀ q, 1 ≤ q → q < maxProcesses → t.procs q ≠ none)

/-- The call returns, has read nothing but the table, picks a pid as it should, and leaves
`curr_pid` in the table. -/
def Correct (t : PidTable) : Prop :=
  ∃ fuel c, findNextPid fuel t = some c ∧ (∀ i ∈ c.reads, InTable i) ∧ Picks t c.result ∧
    InTable c.after.currPid

/-- The last pid is not the next to be handed out, and neither is that of the kernel. -/
def SparesEnds (t : PidTable) : Prop := handedOut t ≠ some 0 ∧ handedOut t ≠ some 31

/-- The guard of the runs in which that is so. -/
def Sparing (t : PidTable) : PidOp → Prop
  | .create _ => SparesEnds t
  | .destroy _ => True

section Run

variable {around : Int → Option Nat} {t t' : PidTable} {fuel : Nat} {c : Call}

lemma findNextPid_unique {fuel' : Nat} {c' : Call} (h : findNextPid fuel t = some c)
    (h' : findNextPid fuel' t = some c') : c = c' := by
  obtain ⟨r, hr, rfl⟩ := Option.map_eq_some_iff.mp h
  obtain ⟨r', hr', rfl⟩ := Option.map_eq_some_iff.mp h'
  have hmax := search_mono (Nat.le_max_left fuel fuel') hr
  rw [search_mono (Nat.le_max_right fuel fuel') hr'] at hmax
  cases hmax
  rfl

lemma search_handedOut (hcurr : InTable t.currPid) :
    ∃ reads, search t.procs t.currPid 32 t.currPid = some ⟨reads, handedOut t⟩ ∧
      ∀ i ∈ reads, InTable i := by
  obtain ⟨reads, hreads, hin⟩ : ∃ reads, search t.procs t.currPid 32 _ = _ ∧ _ :=
    search_cycle hcurr 0 31 rfl (by decide)
  have hzero : (t.currPid + ((0 : Nat) : Int)) % maxProcesses = t.currPid := by
    have := hcurr
    simp only [InTable, maxProcesses] at this ⊢
    omega
  rw [hzero] at hreads
  exact ⟨reads, hreads, hin⟩

lemma findNextPid_handedOut (hcurr : InTable t.currPid) :
    ∃ reads, findNextPid 32 t = some (Search.call ⟨reads, handedOut t⟩ t) ∧
      ∀ i ∈ reads, InTable i := by
  obtain ⟨reads, hreads, hin⟩ := search_handedOut hcurr
  exact ⟨reads, congrArg (Option.map _) hreads, hin⟩

lemma inTable_handedOut {pid : Int} (h : handedOut t = some pid) :
    InTable pid ∧ t.procs pid = none := by
  refine ⟨inTable_of_mem_cycle (List.mem_of_find?_eq_some h), ?_⟩
  have hnone := List.find?_some h
  simpa using hnone

lemma mem_cycle (start : Int) {pid : Int} (hpid : InTable pid) : pid ∈ cycle start 0 32 := by
  refine List.mem_map.mpr ⟨((pid - start) % maxProcesses).toNat, ?_, ?_⟩
  · have hmod := inTable_mod (pid - start)
    simp only [InTable, maxProcesses] at hmod
    refine List.mem_range'_1.mpr ⟨Nat.zero_le _, ?_⟩
    simp only [maxProcesses]
    omega
  · simp only [InTable, maxProcesses] at hpid ⊢
    omega

lemma occupied_of_handedOut_none (h : handedOut t = none) {pid : Int} (hpid : InTable pid) :
    t.procs pid ≠ none := by
  intro hnone
  have hall := List.find?_eq_none.mp h pid (mem_cycle t.currPid hpid)
  exact hall (by simp [hnone])

lemma SparesEnds.correct (h : SparesEnds t) (hcurr : InTable t.currPid) : Correct t := by
  obtain ⟨reads, hcall, hin⟩ := findNextPid_handedOut hcurr
  cases hout : handedOut t with
  | none =>
    rw [hout] at hcall
    refine ⟨32, _, hcall, hin, .inr ⟨rfl, fun q h1 h31 => ?_⟩, hcurr⟩
    exact occupied_of_handedOut_none hout ⟨by omega, h31⟩
  | some pid =>
    obtain ⟨⟨h0, h32⟩, hnone⟩ := inTable_handedOut hout
    have hne0 : pid ≠ 0 := fun he => h.1 (by rw [hout, he])
    have hne31 : pid ≠ 31 := fun he => h.2 (by rw [hout, he])
    rw [hout] at hcall
    refine ⟨32, _, hcall, hin, .inl ⟨?_, h32, hnone⟩, ?_⟩
    · show 1 ≤ pid
      omega
    · show 0 ≤ pid + 1 % maxProcesses ∧ pid + 1 % maxProcesses < maxProcesses
      simp only [maxProcesses] at h32 ⊢
      omega

lemma not_correct_of_end (hcurr : InTable t.currPid) {pid : Int} (hout : handedOut t = some pid)
    (hend : pid = 0 ∨ pid = 31) : ¬ Correct t := by
  rintro ⟨fuel, c, hc, -, hpicks, hafter⟩
  obtain ⟨reads, hcall, -⟩ := findNextPid_handedOut hcurr
  obtain rfl := findNextPid_unique hc hcall
  simp only [hout, Search.call] at hpicks hafter
  rcases hend with rfl | rfl
  · rcases hpicks with ⟨h1, -⟩ | ⟨hneg, -⟩
    · exact absurd h1 (by decide)
    · exact absurd hneg (by decide)
  · exact absurd hafter (by decide)

lemma Sparing.keeps {op : PidOp} (hcurr : InTable t.currPid) (hs : Sparing t op)
    (hstep : PidStep t op t') : InTable t'.currPid := by
  cases op with
  | create new =>
    obtain ⟨fuel, c, hc, rfl⟩ := hstep
    obtain ⟨fuel', c', hc', -, -, hafter⟩ := hs.correct hcurr
    obtain rfl := findNextPid_unique hc hc'
    exact hafter
  | destroy pid =>
    obtain ⟨-, -, rfl⟩ := hstep
    exact hcurr

/-- As long as neither pid 31 nor the pid of the kernel has been handed out, a call of
`find_next_pid` is correct exactly if it does not hand out one of the two. -/
theorem findNextPid_correct_iff (hrun : Lts.Run PidStep Sparing (booted around) t) :
    Correct t ↔ SparesEnds t := by
  have hcurr : InTable t.currPid :=
    hrun.invariant (show InTable 2 by decide) fun hcurr hs hstep => hs.keeps hcurr hstep
  refine ⟨fun hcorrect => ⟨fun hout => ?_, fun hout => ?_⟩, fun hs => hs.correct hcurr⟩
  · exact not_correct_of_end hcurr hout (.inl rfl) hcorrect
  · exact not_correct_of_end hcurr hout (.inr rfl) hcorrect

end Run

instance (t : PidTable) : Decidable (SparesEnds t) := inferInstanceAs (Decidable (_ ∧ _))

instance (t : PidTable) : (op : PidOp) → Decidable (Sparing t op)
  | .create _ => inferInstanceAs (Decidable (SparesEnds t))
  | .destroy _ => .isTrue trivial

def PidOp.play : PidOp → PidTable → Option PidTable
  | .create new, t => (findNextPid 33 t).map fun c =>
      { c.after with procs := update c.after.procs c.result (some new) }
  | .destroy pid, t =>
      if InTable pid ∧ (t.procs pid).isSome then some { t with procs := update t.procs pid none }
      else none

lemma pidStep_of_play {op : PidOp} {t t' : PidTable} (h : op.play t = some t') :
    PidStep t op t' := by
  cases op with
  | create new =>
    obtain ⟨c, hc, rfl⟩ := Option.map_eq_some_iff.mp h
    exact ⟨33, c, hc, rfl⟩
  | destroy pid =>
    simp only [PidOp.play] at h
    split at h
    · rename_i hpid
      cases h
      exact ⟨hpid.1, hpid.2, rfl⟩
    · cases h

theorem findNextPid_correct_three :
    ∃ t, Lts.Run PidStep Sparing (booted fun _ => none) t ∧ handedOut t = some 3 ∧ Correct t := by
  obtain ⟨t, hrun, hout⟩ :
      ∃ t, Lts.Run PidStep Sparing (booted fun _ => none) t ∧ handedOut t = some 3 :=
    Lts.Run.exists_of_guarded_play pidStep_of_play [.create 2, .destroy 2] (by decide +kernel)
  refine ⟨t, hrun, hout, (findNextPid_correct_iff hrun).mpr ⟨?_, ?_⟩⟩
  · rw [hout]
    decide
  · rw [hout]
    decide

theorem pid_behind_table :
    ∃ t, Lts.Run PidStep Lts.anyStep (booted fun _ => none) t ∧ ¬ Correct t ∧
      ∃ c, findNextPid 33 t = some c ∧ 32 ∈ c.reads ∧ c.result = 32 := by
  obtain ⟨t, hrun, hcall⟩ : ∃ t, Lts.Run PidStep Lts.anyStep (booted fun _ => none) t ∧
      (findNextPid 33 t).any (fun c => 32 ∈ c.reads ∧ c.result = 32) = true :=
    Lts.Run.exists_of_play pidStep_of_play ((List.range 30).map fun k => .create (k + 2))
      (by decide +kernel)
  obtain ⟨c, hc, hread, hresult⟩ := Lts.exists_of_any hcall
  refine ⟨t, hrun, ?_, c, hc, hread, hresult⟩
  rintro ⟨fuel, c', hc', hin, -⟩
  obtain rfl := findNextPid_unique hc hc'
  exact absurd (hin 32 hread) (by decide)

end SpaghettiOS.Pids
