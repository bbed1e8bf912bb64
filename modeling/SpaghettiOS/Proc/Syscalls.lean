import SpaghettiOS.Proc.State

/-!
# Processes come, wait and go

`proc/proc.c`, `syscall/proc_syscalls.c` and the loop in `main.c`.  Each function here
is a stretch of a coroutine; nothing else runs in the meantime, except for the coroutines
that `proc_wait_wakeup` resumes itself.
-/

namespace SpaghettiOS.Process

open Fs (ProcState)
open Coro (abort check ofOption)

abbrev ProcM := Coro ProcSys Empty Empty Stop

/-! ## The table -/

/-- `proc_get`, which does not look at the bounds. -/
def procGet (pid : Int) : ProcM (Option Nat) := do
  check (0 ≤ pid ∧ pid < maxProcesses) .outOfBounds
  let s ← get
  pure (s.procs pid)

def procAt (pid : Int) : ProcM Nat := do
  let i ← procGet pid
  ofOption .nullPointer i

def deref (i : Nat) : ProcM Proc := do
  let s ← get
  ofOption .dangling (s.heap i)

def mallocNode (m : Machine) : ProcM Bool := do
  let s ← get
  set { s with mallocs := s.mallocs + 1 }
  pure (m.malloc s.mallocs)

def searchPid (start : Int) : Nat → Int → ProcM (Option Int)
  | 0, _ => pure none
  | fuel + 1, pid => do
      let i ← procGet pid
      match i with
      | none => pure (some pid)
      | some _ =>
          let pid := (pid + 1) % maxProcesses
          if pid = start then pure none else searchPid start fuel pid

/-- `find_next_pid`.  It is the 1 that is taken modulo `MAX_PROCESSES`. -/
def findNextPid : ProcM Int := do
  let s ← get
  let found ← searchPid s.currPid maxProcesses.toNat s.currPid
  match found with
  | none => pure (-1)
  | some pid => do
      modify fun s => { s with currPid := pid + 1 % maxProcesses }
      pure pid

/-! ## Lists -/

def procWaitListAdd (m : Machine) (pid pidToAdd : Int) : ProcM Int := do
  let node ← mallocNode m
  if node then do
    let i ← procAt pid
    modify fun s => s.addNode i ⟨pid, pidToAdd⟩
    pure 0
  else pure (-1)

def addChild (m : Machine) (parent child : Int) : ProcM Int := do
  let node ← mallocNode m
  if node then do
    let i ← procAt parent
    modify fun s => s.adopt i child
    pure 0
  else pure (-1)

/-- The body of the loop of `wait_all_child`. -/
def waitChild (m : Machine) (parent child : Int) : ProcM Unit := do
  let i ← procGet child
  match i with
  | none => pure ()
  | some _ => discard (procWaitListAdd m parent child)

def waitAllChild (m : Machine) (parent : Int) : ProcM Unit := do
  let i ← procAt parent
  let p ← deref i
  p.childList.forM (waitChild m parent)

/-- The body of the loop of `destroy_child_list`. -/
def reparent (m : Machine) (child : Int) : ProcM Unit := do
  let i ← procGet child
  match i with
  | none => pure ()
  | some _ => do
      let _ ← procWaitListAdd m child initProc
      discard (addChild m initProc child)

def destroyChildList (m : Machine) (pid : Int) : ProcM Unit := do
  let i ← procAt pid
  let p ← deref i
  p.childList.forM (reparent m)

def addReapList (m : Machine) (pid : Int) : ProcM Int := do
  let node ← mallocNode m
  if node then do
    modify fun s => { s with reapList := s.reapList ++ [pid] }
    pure 0
  else pure (-1)

/-! ## The end of a process -/

/-- The rest of `syscall_proc_wait`, when `proc_wait_wakeup` has resumed it with a
node. -/
def waitResumed (cause co : Nat) (job : Job) (pid : Int) (target : Option Nat)
    (node : WaitNode) : ProcM Unit := do
  modify fun s => s.resume co job
  let curproc ← procAt node.pidToWake
  modify fun s => s.setState curproc .running
  modify fun s => { s.reply job.caller with
    wakes := ⟨job.caller, pid, target, cause, node.owner⟩ :: s.wakes }

/-- The body of the loop of `proc_wait_wakeup`. -/
def wakeNode (cause : Nat) (node : WaitNode) : ProcM Unit := do
  let i ← procGet node.pidToWake
  match i with
  | none => pure ()
  | some i => do
      let wakeProc ← deref i
      if wakeProc.state = .waiting then do
        let co ← ofOption .dangling wakeProc.wakeCo
        let s ← get
        match s.jobs.lookup co with
        | some ⟨caller, .wait pid target, holder⟩ =>
            waitResumed cause co ⟨caller, .wait pid target, holder⟩ pid target node
        | _ => abort .dangling
      else pure ()

/-- `proc_wait_wakeup`.  The nodes are freed and the list still leads to them. -/
def procWaitWakeup (pid : Int) : ProcM Unit := do
  let i ← procAt pid
  let p ← deref i
  p.waitList.forM (wakeNode i)

/-- What `zombiefy` does with a process that it does not refuse. -/
def retire (m : Machine) (i : Nat) (pid : Int) : ProcM Unit := do
  modify fun s => { s.setState i .zombie with zombiefied := pid :: s.zombiefied }
  let r ← addReapList m pid
  check (r = 0) .assertion
  destroyChildList m pid
  procWaitWakeup pid
  modify fun s => s.setThread i .suspended

def zombiefy (m : Machine) (pid : Int) : ProcM Int := do
  let i ← procGet pid
  match i with
  | none => pure (-1)
  | some i => do
      let p ← deref i
      if p.state = .zombie then pure (-1)
      else if p.protectedProc then pure (-1)
      else do
        retire m i pid
        pure 0

/-- `proc_destroy`.  The files of a zombie are dropped without a suspension, and without
a change of `coro_count`. -/
def procDestroy (pid : Int) : ProcM Int := do
  let i ← procAt pid
  let p ← deref i
  check (p.state = .zombie) .assertion
  if p.coroCount ≠ 0 then pure (-1)
  else do
    modify fun s => s.free i pid
    pure 0

def reap : ProcM Unit := do
  let s ← get
  match s.reapList with
  | [] => pure ()
  | head :: _ => do
      let r ← procDestroy head
      if r = 0 then modify fun s => { s with reapList := s.reapList.tail } else pure ()

/-! ## The start of a process -/

/-- How far the first stretch of `proc_start` gets: `proc_create` returns `NULL` when the
process is in the table already, something fails before the image is loaded, or the
image is being loaded. -/
inductive Start where
  | noMemory
  | fails
  | loads
deriving DecidableEq, Repr

/-- `proc_create`, in memory that read as `state`. -/
def procCreate (state : ProcState) : ProcM Nat := do
  let pid ← findNextPid
  check (0 ≤ pid ∧ pid < maxProcesses) .outOfBounds
  let s ← get
  set (s.spawn pid state)
  pure s.next

/-- The way out of `proc_start` when something has failed. -/
def startFails (new : Nat) : ProcM Int := do
  let p ← deref new
  modify fun s => s.setState new .zombie
  let _ ← procDestroy p.pid
  pure (-1)

/-- The end of `proc_start`: the thread runs, whatever happened to it before. -/
def startRuns (new : Nat) : ProcM Int := do
  let p ← deref new
  modify fun s => (s.setState new .running).setThread new .user
  pure p.pid

/-- What is left of `proc_start` when the image has been loaded or could not be. -/
def startEnds (new : Nat) (ok : Bool) : ProcM Int := if ok then startRuns new else startFails new

/-- What is left of `syscall_proc_create`. -/
def procCreated (m : Machine) (caller new : Nat) (ok : Bool) : ProcM Unit := do
  let pid ← startEnds new ok
  if pid ≥ 2 then do
    let curproc ← deref caller
    discard (addChild m curproc.pid pid)
  else pure ()

/-- An operation on files begins, for a process that is not a zombie. -/
def holdProc (pid : Int) : ProcM Nat := do
  let i ← procAt pid
  let p ← deref i
  check (p.state ≠ .zombie) .disabled
  pure i

/-- `syscall_proc_create`.  The first process comes from the archive and the others from
the file system, which the kernel process reads. -/
def syscallProcCreate (m : Machine) (co caller : Nat) (state : ProcState) (start : Start) :
    ProcM Unit := do
  let new ← procCreate state
  let p ← deref new
  match start with
  | .noMemory => pure ()
  | .fails => discard (startFails new)
  | .loads =>
      if p.pid = initProc then procCreated m caller new true
      else do
        let kernel ← holdProc kernelProc
        modify fun s => s.suspend co ⟨caller, .load new, some kernel⟩

/-! ## The system calls -/

/-- What `syscall_proc_wait` is to wait for, if it is not to return at once: for -1 the
test reads in front of the table. -/
def waitTarget (m : Machine) (pid : Int) : ProcM (Option (Option Nat)) :=
  if pid = -1 then
    match m.below with
    | none | some .zombie => pure none
    | some .running | some .waiting => pure (some none)
  else do
    let i ← procGet pid
    match i with
    | none => pure none
    | some i => do
        let p ← deref i
        if p.state = .zombie then pure none else pure (some (some i))

/-- The nodes that are to wake a process. -/
def waitNodes (m : Machine) (pid curpid : Int) : ProcM Unit :=
  if pid ≥ 1 then discard (procWaitListAdd m pid curpid) else waitAllChild m curpid

/-- From the tests of `syscall_proc_wait` to its suspension. -/
def waitFor (m : Machine) (co curproc : Nat) (pid : Int) (target : Option Nat) : ProcM Unit := do
  let p ← deref curproc
  modify fun s => s.setState curproc .waiting
  waitNodes m pid p.pid
  modify fun s => s.modifyProc curproc fun p => { p with wakeCo := some co }
  modify fun s => s.suspend co ⟨curproc, .wait pid target, none⟩

def syscallProcWait (m : Machine) (co curproc : Nat) (pid : Int) : ProcM Unit :=
  if pid < -1 ∨ pid = kernelProc ∨ pid ≥ maxProcesses then pure ()
  else do
    let target ← waitTarget m pid
    match target with
    | none => pure ()
    | some target => waitFor m co curproc pid target

/-- Which process counts a suspended call: paging is done as the kernel. -/
def callHolder (pid : Int) : Call → ProcM (Option Nat)
  | .file => do
      let i ← holdProc pid
      pure (some i)
  | .fault => do
      let i ← holdProc kernelProc
      pure (some i)
  | .consoleRead | .sleep => pure none

/-! ## Events -/

/-- What happens next: a process calls, the coroutine of a call is resumed, or the main
loop reaps. -/
inductive Event where
  | create (co : Nat) (pid : Int) (state : ProcState) (start : Start)
  | delete (pid target : Int)
  | wait (co : Nat) (pid target : Int)
  | call (co : Nat) (pid : Int) (c : Call)
  | loaded (co : Nat) (ok : Bool)
  | finish (co : Nat)
  | reap
deriving DecidableEq, Repr

def sender (pid : Int) : ProcM Nat := do
  let i ← procAt pid
  let p ← deref i
  check (p.thread = .user) .disabled
  pure i

def freshCo (co : Nat) : ProcM Unit := do
  let s ← get
  check (co ∉ s.jobs.map Prod.fst) .disabled

def resumed (co : Nat) : ProcM Job := do
  let s ← get
  let job ← ofOption .disabled (s.jobs.lookup co)
  match job.holder with
  | none => modify fun s => s.resume co job
  | some i => do
      let _ ← deref i
      modify fun s => s.resume co job
  pure job

/-- The rest of a call, after the last suspension.  `vm_fault` still maps the page. -/
def callEnds (job : Job) : ProcM Unit :=
  match job.task with
  | .call .fault => discard (deref job.caller)
  | .call _ => pure ()
  | .load _ | .wait _ _ => abort .disabled

/-- The rest of `syscall_proc_create`. -/
def loadEnds (m : Machine) (job : Job) (ok : Bool) : ProcM Unit :=
  match job.task with
  | .load new => procCreated m job.caller new ok
  | .call _ | .wait _ _ => abort .disabled

def Event.run (m : Machine) : Event → ProcM Unit
  | .create co pid state start => do
      let i ← sender pid
      freshCo co
      syscallProcCreate m co i state start
  | .delete pid target => do
      let _ ← sender pid
      discard (zombiefy m target)
  | .wait co pid target => do
      let i ← sender pid
      freshCo co
      syscallProcWait m co i target
  | .call co pid c => do
      let i ← sender pid
      freshCo co
      let holder ← callHolder pid c
      modify fun s => s.suspend co ⟨i, .call c, holder⟩
  | .loaded co ok => do
      let job ← resumed co
      loadEnds m job ok
      modify fun s => s.reply job.caller
  | .finish co => do
      let job ← resumed co
      callEnds job
      modify fun s => s.reply job.caller
  | .reap => Process.reap

def ProcStep (m : Machine) (s : ProcSys) (e : Event) (t : ProcSys) : Prop :=
  e.run m s = .done ⟨⟩ t

def Event.play (m : Machine) (e : Event) (s : ProcSys) : Option ProcSys :=
  match e.run m s with
  | .done _ t => some t
  | .fail _ => none
  | .susp i _ _ => nomatch i

lemma procStep_of_play {m : Machine} {e : Event} {s t : ProcSys} (h : e.play m s = some t) :
    ProcStep m s e t := by
  unfold Event.play at h
  unfold ProcStep
  cases hrun : e.run m s with
  | done a u =>
    rw [hrun] at h
    cases h
    rfl
  | fail err =>
    rw [hrun] at h
    cases h
  | susp i _ _ => exact nomatch i

/-- After `proc_bootstrap`: the kernel process, whose state nobody has set, and the first
process, which runs. -/
def booted (state : ProcState) : ProcSys where
  procs pid := if pid = 0 then some 0 else if pid = 1 then some 1 else none
  heap i :=
    if i = 0 then some ⟨0, state, false, 0, [], [], none, .unborn, []⟩
    else if i = 1 then some ⟨1, .running, true, 0, [], [], none, .user, []⟩
    else none
  next := 2
  currPid := 2
  reapList := []
  jobs := []
  mallocs := 0
  exited := if state = .zombie then [0] else []
  zombiefied := []
  destroyed := []
  wakes := []

/-- A machine on which nothing fails and nothing is in front of the table. -/
def plainMachine : Machine := ⟨fun _ => true, none⟩

lemma exists_run_of_play {m : Machine} {G : ProcSys → Event → Prop} [∀ s e, Decidable (G s e)]
    {Q : ProcSys → Prop} [DecidablePred Q] (st : ProcState) (events : List Event)
    (h : (events.foldlM (fun s e => if G s e then e.play m s else none) (booted st)).any
      (fun s => Q s) = true) : ∃ s, Lts.Run (ProcStep m) G (booted st) s ∧ Q s :=
  Lts.Run.exists_of_guarded_play procStep_of_play events h

end SpaghettiOS.Process
