import SpaghettiOS.Proc.Pids
import SpaghettiOS.VM.Layout

/-!
# A process that cannot be started

`proc_create` puts the new process into `procs` before anything is allocated for it, and
when an allocation fails it leaves the entry where it is.  The steps of `proc_start` behind
it have one way out, which destroys the process and empties the entry.

When the table is full the pid is -1, and the process is put in front of the table.  The
steps that follow do not mind until `sos_map_buf` asks for the frames of its window: the number
of the first one is far behind the frame table, and `get_frame` returns a null pointer.

While the image is read nobody else touches the table or the new process.
-/

namespace SpaghettiOS.Starting

open Function (update)
open Fs (ProcState)
open Process (initProc)
open Coro (check ofOption bind_apply get_apply modify_apply pure_apply set_apply)
open Coroutine (Res)
open Pids (PidTable findNextPid)
open Vm (Region ProgramHeader segmentRegions loadable asDefineStack asDefineHeap
  asDefineSharedBuffer asDefineRegion processIpcBuffer pageSize)

structure Proc where
  pid : Int
  state : ProcState
  coroCount : Int
  regions : List Region

structure StartSys where
  table : PidTable
  /-- The structures that are allocated. -/
  heap : Nat → Option Proc
  next : Nat

inductive Step where
  | vspaceUt
  | asidPool
  | cspace
  | ipcBufferUt
  | userEp
  | mint
  | tcbUt
  | configure
  | priority
  | cpioFile
  | elfLoad
  | mapIpcBuffer
  | writeRegisters
deriving DecidableEq, Repr

/-- Which of the calls succeed, what the memory of a new structure reads as, the program,
and the size of the frame table. -/
structure Machine where
  ok : Step → Bool
  memory : ProcState
  headers : List ProgramHeader
  frameTableSize : Nat

inductive Stop where
  | diverges
  | nullPointer
  | dangling
  | assertion
deriving DecidableEq, Repr

abbrev StartM := Coro StartSys Empty Empty Stop

def StartSys.setProc (s : StartSys) (i : Nat) (p : Option Proc) : StartSys :=
  { s with heap := update s.heap i p }

def StartSys.setEntry (s : StartSys) (pid : Int) (i : Option Nat) : StartSys :=
  { s with table := { s.table with procs := update s.table.procs pid i } }

def deref (i : Nat) : StartM Proc := do
  let s ← get
  ofOption .dangling (s.heap i)

/-! ## The functions -/

/-- A step of a start: whether it succeeds, and the process after it.  There is no result
when it follows a null pointer. -/
abbrev StartStep := Proc → Option (Bool × Proc)

def Machine.call (m : Machine) (step : Step) : StartStep := fun p => some (m.ok step, p)

/-- The steps one after the other, up to the first that fails. -/
def allOk : List StartStep → StartStep
  | [], p => some (true, p)
  | step :: steps, p => (step p).bind fun x => if x.1 then allOk steps x.2 else some (false, x.2)

/-- The steps of `proc_create` after the assignment to `procs[pid]`.  The console can always
be opened. -/
def createSteps (m : Machine) : List StartStep :=
  [m.call .vspaceUt, m.call .asidPool, m.call .cspace, m.call .ipcBufferUt]

def procCreate (m : Machine) (fuel : Nat) : StartM (Option Nat) := do
  let s ← get
  let call ← ofOption .diverges (findNextPid fuel s.table)
  let new : Proc := ⟨call.result, m.memory, 0, []⟩
  set (({ s with table := call.after, next := s.next + 1 }.setProc s.next (some new)).setEntry
    call.result (some s.next))
  let (ok, _) ← ofOption .nullPointer (allOk (createSteps m) new)
  pure (if ok then some s.next else none)

def procDestroy (pid : Int) : StartM Int := do
  let s ← get
  let i ← ofOption .nullPointer (s.table.procs pid)
  let p ← deref i
  check (p.state = .zombie) .assertion
  if p.coroCount ≠ 0 then pure (-1)
  else do
    modify fun s => (s.setProc i none).setEntry pid none
    pure 0

/-- What `proc_start` does with the new process when a step has failed. -/
def startFails (new : Nat) : StartM Int := do
  let p ← deref new
  modify fun s => s.setProc new (some { p with state := .zombie })
  let _ ← procDestroy p.pid
  pure (-1)

/-- The image of the first process is in the archive.  Regions that the loader cannot
define are left out. -/
def loadImage (m : Machine) : StartStep := fun p =>
  if p.pid = initProc ∧ ¬ m.ok .cpioFile then some (false, p)
  else some (m.ok .elfLoad, { p with regions := segmentRegions (loadable m.headers) p.regions })

/-- A region is defined, unless it overlaps another one. -/
def define (f : List Region → Int × List Region) : StartStep := fun p =>
  some ((f p.regions).1 = 0, { p with regions := (f p.regions).2 })

/-- `sos_map_buf`, whose result is not looked at.  The pages of a window in front of the buffer
are numbered from 2^64 down, and `get_frame` has none behind the frame table. -/
def mapBuf (m : Machine) : StartStep := fun p =>
  if 0 ≤ p.pid ∧ p.pid.toNat * 256 + 255 ≤ m.frameTableSize then some (true, p) else none

/-- The steps of `proc_start` after `proc_create`.  The result of `init_process_stack` is not
looked at. -/
def startSteps (m : Machine) : List StartStep :=
  [m.call .userEp, m.call .mint, m.call .tcbUt, m.call .configure, m.call .priority,
    loadImage m, define asDefineStack, define asDefineHeap, define asDefineSharedBuffer,
    mapBuf m, m.call .mapIpcBuffer,
    define fun regions => asDefineRegion regions processIpcBuffer pageSize .readWrite,
    fun p => m.call .writeRegisters { p with state := .running }]

/-- `proc_start`, after `proc_create`. -/
def startNew (m : Machine) (new : Nat) : StartM Int := do
  let p ← deref new
  let (ok, p) ← ofOption .nullPointer (allOk (startSteps m) p)
  modify fun s => s.setProc new (some p)
  if ok then pure p.pid else startFails new

def procStart (m : Machine) (fuel : Nat) : StartM Int := do
  let new ← procCreate m fuel
  match new with
  | none => pure (-1)
  | some new => startNew m new

/-! ## What they do -/

def Created (m : Machine) : Prop :=
  m.ok .vspaceUt ∧ m.ok .asidPool ∧ m.ok .cspace ∧ m.ok .ipcBufferUt

instance (m : Machine) : Decidable (Created m) := inferInstanceAs (Decidable (_ ∧ _))

section Steps

variable {m : Machine} {p q : Proc} {ok : Bool}

/-- The pid and the count of requests are the same. -/
def Same (p q : Proc) : Prop := q.pid = p.pid ∧ q.coroCount = p.coroCount

/-- A step that changes neither of them. -/
def StartStep.Steady (step : StartStep) : Prop := ∀ p ok q, step p = some (ok, q) → Same p q

lemma allOk_same {steps : List StartStep} (h : ∀ step ∈ steps, step.Steady)
    (hrun : allOk steps p = some (ok, q)) :
    Same p q ∧ (ok = true → ∀ step ∈ steps, ∃ p' q', Same p p' ∧ step p' = some (true, q')) := by
  induction steps generalizing p with
  | nil =>
    cases hrun
    exact ⟨⟨rfl, rfl⟩, fun _ step hstep => by cases hstep⟩
  | cons step steps ih =>
    obtain ⟨⟨b, r⟩, hstep, hrest⟩ := Option.bind_eq_some_iff.mp hrun
    have hsame := h step List.mem_cons_self p b r hstep
    cases b with
    | false =>
      cases hrest
      exact ⟨hsame, fun hok => by cases hok⟩
    | true =>
      obtain ⟨hr, hall⟩ := ih (fun step hmem => h step (List.mem_cons_of_mem _ hmem)) hrest
      refine ⟨⟨hr.1.trans hsame.1, hr.2.trans hsame.2⟩, fun hok step' hmem => ?_⟩
      rcases List.mem_cons.mp hmem with rfl | hmem
      · exact ⟨p, r, ⟨rfl, rfl⟩, hstep⟩
      · obtain ⟨p', q', hp', hstep'⟩ := hall hok step' hmem
        exact ⟨p', q', ⟨hp'.1.trans hsame.1, hp'.2.trans hsame.2⟩, hstep'⟩

lemma startSteps_steady : ∀ step ∈ startSteps m, step.Steady := by
  intro step hstep p ok q hrun
  simp only [startSteps, List.mem_cons, List.not_mem_nil, or_false] at hstep
  rcases hstep with rfl | rfl | rfl | rfl | rfl | rfl | rfl | rfl | rfl | rfl | rfl | rfl | rfl
  case inr.inr.inr.inr.inr.inl =>
    unfold loadImage at hrun
    split at hrun
    all_goals
      cases hrun
      exact ⟨rfl, rfl⟩
  case inr.inr.inr.inr.inr.inr.inr.inr.inr.inl =>
    unfold mapBuf at hrun
    split at hrun
    · cases hrun
      exact ⟨rfl, rfl⟩
    · cases hrun
  all_goals
    cases hrun
    exact ⟨rfl, rfl⟩

/-- With the pid -1 no process gets through all the steps. -/
lemma pid_nonneg_of_started (hrun : allOk (startSteps m) p = some (true, q)) : 0 ≤ p.pid := by
  obtain ⟨p', q', hsame, hmap⟩ := (allOk_same startSteps_steady hrun).2 rfl (mapBuf m)
    (by simp [startSteps])
  unfold mapBuf at hmap
  split at hmap
  · rename_i hpid
    rw [← hsame.1]
    exact hpid.1
  · cases hmap

lemma allOk_createSteps (m : Machine) (p : Proc) :
    allOk (createSteps m) p = some (decide (Created m), p) := by
  simp only [createSteps, allOk, Machine.call, Created]
  grind

end Steps

section Start

variable {m : Machine} {fuel : Nat} {s s' : StartSys} {c : Pids.Call} {i : Nat} {p : Proc}

def StartSys.created (s : StartSys) (m : Machine) (c : Pids.Call) : StartSys :=
  ({ s with table := c.after, next := s.next + 1 }.setProc s.next
    (some ⟨c.result, m.memory, 0, []⟩)).setEntry c.result (some s.next)

lemma procCreate_eq (hc : findNextPid fuel s.table = some c) :
    procCreate m fuel s = .done (if Created m then some s.next else none) (s.created m c) := by
  simp only [procCreate, bind_apply, get_apply, Res.bind, hc, ofOption, pure_apply,
    set_apply, allOk_createSteps, StartSys.created, decide_eq_true_eq]

lemma procDestroy_eq {pid : Int} (hpid : s.table.procs pid = some i) (hi : s.heap i = some p)
    (hz : p.state = .zombie) (hcount : p.coroCount = 0) :
    procDestroy pid s = .done 0 ((s.setProc i none).setEntry pid none) := by
  simp only [procDestroy, deref, bind_apply, get_apply, Res.bind, hpid, hi, ofOption,
    pure_apply, check, hz, hcount, ne_eq, not_true_eq_false, if_true, if_false, modify_apply]

@[simp] lemma setProc_setProc (s : StartSys) (i : Nat) (p q : Option Proc) :
    (s.setProc i p).setProc i q = s.setProc i q := by
  simp [StartSys.setProc]

lemma startFails_eq (hi : s.heap i = some p) (hpid : s.table.procs p.pid = some i)
    (hcount : p.coroCount = 0) :
    startFails i s = .done (-1) ((s.setProc i none).setEntry p.pid none) := by
  have hdestroy := procDestroy_eq (s := s.setProc i (some { p with state := .zombie })) hpid
    (p := { p with state := .zombie }) (by simp [StartSys.setProc]) rfl hcount
  simp only [startFails, deref, bind_apply, get_apply, Res.bind, hi, ofOption,
    pure_apply, modify_apply, hdestroy, setProc_setProc]

lemma startNew_done {r : Int} (hi : s.heap i = some p) (hpid : s.table.procs p.pid = some i)
    (hcount : p.coroCount = 0) (hrun : startNew m i s = .done r s') :
    (r = p.pid ∧ 0 ≤ p.pid) ∨ (r = -1 ∧ s'.table.procs = update s.table.procs p.pid none) := by
  simp only [startNew, deref, bind_apply, get_apply, Res.bind, hi, ofOption, pure_apply] at hrun
  cases hsteps : allOk (startSteps m) p with
  | none =>
    rw [hsteps] at hrun
    cases hrun
  | some x =>
    obtain ⟨ok, q⟩ := x
    obtain ⟨hsame, hsame'⟩ := (allOk_same startSteps_steady hsteps).1
    rw [hsteps] at hrun
    cases ok with
    | true =>
      cases hrun
      exact .inl ⟨hsame, pid_nonneg_of_started hsteps⟩
    | false =>
      have hfails := startFails_eq (s := s.setProc i (some q)) (i := i) (p := q)
        (by simp [StartSys.setProc]) (by rw [hsame]; exact hpid) (hsame'.trans hcount)
      rw [hsame] at hfails
      cases hfails.symm.trans hrun
      exact .inr ⟨rfl, rfl⟩

/-- What a call that returns -1 has done to the table. -/
lemma procStart_failed (hc : findNextPid fuel s.table = some c)
    (hrun : procStart m fuel s = .done (-1) s') : s'.table.procs =
      update c.after.procs c.result (if Created m then none else some s.next) := by
  simp only [procStart, bind_apply, procCreate_eq hc, Res.bind] at hrun
  by_cases hcreated : Created m
  · have hnew : (s.created m c).heap s.next = some ⟨c.result, m.memory, 0, []⟩ := by
      simp [StartSys.created, StartSys.setProc, StartSys.setEntry]
    have hentry : (s.created m c).table.procs c.result = some s.next := by
      simp [StartSys.created, StartSys.setProc, StartSys.setEntry]
    simp only [hcreated, if_true] at hrun ⊢
    obtain ⟨hresult, hpid⟩ | ⟨-, htable⟩ := startNew_done hnew hentry rfl hrun
    · dsimp only at hresult hpid
      omega
    · rw [htable]
      simp [StartSys.created, StartSys.setProc, StartSys.setEntry]
  · simp only [hcreated, if_false] at hrun ⊢
    cases hrun
    rfl

lemma findNextPid_empty {t : PidTable} (hc : findNextPid fuel t = some c) :
    c.after.procs = t.procs ∧ (c.result ≠ -1 → t.procs c.result = none) := by
  obtain ⟨r, hr, rfl⟩ := Option.map_eq_some_iff.mp hc
  cases hfound : r.found with
  | none =>
    simp only [Pids.Search.call, hfound]
    exact ⟨trivial, fun hne => absurd rfl hne⟩
  | some pid =>
    simp only [Pids.Search.call, hfound]
    exact ⟨trivial, fun _ => Pids.search_found hr hfound⟩

/-- What it takes for a call that returns -1 to leave the table and what is around it as they
were. If the new process is destroyed, the word in front of a full table must have been `NULL`;
if not, the table must have been full, and that word the very pointer. -/
def Restores (m : Machine) (s : StartSys) (pid : Int) : Prop :=
  if Created m then pid = -1 → s.table.procs (-1) = none
  else pid = -1 ∧ s.table.procs (-1) = some s.next

/-- A start that fails leaves the process table as it was exactly if it fails in one of the
steps after `proc_create`, for a pid in the table. -/
theorem procStart_restores_iff (hc : findNextPid fuel s.table = some c)
    (hrun : procStart m fuel s = .done (-1) s') :
    s'.table.procs = s.table.procs ↔ Restores m s c.result := by
  obtain ⟨hafter, hempty⟩ := findNextPid_empty hc
  rw [procStart_failed hc hrun, hafter, Function.update_eq_self_iff, Restores]
  split
  · constructor
    · intro hnone hfull
      rw [← hfull, ← hnone]
    · intro hnone
      by_cases hfull : c.result = -1
      · rw [hfull, hnone hfull]
      · exact (hempty hfull).symm
  · constructor
    · intro hsome
      have hfull : c.result = -1 := by
        by_contra hne
        rw [hempty hne] at hsome
        cases hsome
      exact ⟨hfull, by rw [← hfull, ← hsome]⟩
    · rintro ⟨hfull, hsome⟩
      rw [hfull, hsome]

end Start

/-! ### Two starts -/

def startSys (last : Int) : StartSys where
  table := ⟨fun pid => if 0 ≤ pid ∧ pid ≤ last then some pid.toNat else none, 2⟩
  heap _ := none
  next := 32

def failsAt (step : Step) : Machine := ⟨fun s => s ≠ step, .running, [], 8192⟩

lemma findNextPid_startSys :
    findNextPid 32 (startSys 1).table = some ⟨[2], 2, ⟨(startSys 1).table.procs, 3⟩⟩ := rfl

theorem procStart_restores_load :
    ∃ s', procStart (failsAt .elfLoad) 32 (startSys 1) = .done (-1) s' ∧
      s'.table.procs = (startSys 1).table.procs := by
  obtain ⟨s', hs'⟩ : ∃ s', procStart (failsAt .elfLoad) 32 (startSys 1) = .done (-1) s' :=
    ⟨_, rfl⟩
  refine ⟨s', hs', (procStart_restores_iff findNextPid_startSys hs').mpr ?_⟩
  rw [Restores, if_pos (by decide)]
  exact fun hfull => absurd hfull (by decide)

theorem failed_start_changes_table :
    ∃ s', procStart (failsAt .vspaceUt) 32 (startSys 1) = .done (-1) s' ∧
      s'.table.procs 2 ≠ (startSys 1).table.procs 2 := by
  obtain ⟨s', hs'⟩ : ∃ s', procStart (failsAt .vspaceUt) 32 (startSys 1) = .done (-1) s' :=
    ⟨_, rfl⟩
  refine ⟨s', hs', ?_⟩
  rw [procStart_failed findNextPid_startSys hs', if_neg (by decide), Function.update_self]
  decide

end SpaghettiOS.Starting
