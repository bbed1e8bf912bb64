import SpaghettiOS.Fs.State

/-!
# The table of processes

The data of `proc/proc.c` and `proc.h`, and the coroutines that are suspended on behalf
of a process.  A process is known by the address of its structure.  Addresses are numbers
that are given out once, so that a pointer to a process that has been freed leads nowhere.
-/

namespace SpaghettiOS.Process

open Function (update)
open Fs (ProcState)

abbrev maxProcesses : Int := 32

abbrev kernelProc : Int := 0

abbrev initProc : Int := 1

structure WaitNode where
  owner : Int
  pidToWake : Int
deriving DecidableEq, Repr

/-- What the thread of a process is doing: it has not been started, runs, waits for the
reply to a call or a fault, or has been suspended by `seL4_TCB_Suspend`. -/
inductive Thread where
  | unborn
  | user
  | blocked
  | suspended
deriving DecidableEq, Repr

/-- `struct proc`.  `wake_co` has no value before the first wait. -/
structure Proc where
  pid : Int
  state : ProcState
  protectedProc : Bool
  coroCount : Int
  waitList : List WaitNode
  childList : List Int
  wakeCo : Option Nat
  thread : Thread
  /-- The processes on whose `child_list` it was put.  The code does not know them. -/
  parents : List Nat

/-- The calls and faults that a coroutine can be suspended in, apart from the two that
concern other processes: in an operation on NFS files, in the paging I/O of `vm_fault`,
in `console_read`, and in `syscall_usleep`. -/
inductive Call where
  | file
  | fault
  | consoleRead
  | sleep
deriving DecidableEq, Repr

/-- Where a coroutine is suspended: in one of these calls, in the loading of a new
process, or in `syscall_proc_wait` for a pid, which the process `target` had. -/
inductive Task where
  | call (c : Call)
  | load (new : Nat)
  | wait (pid : Int) (target : Option Nat)
deriving DecidableEq, Repr

/-- A suspended coroutine: the process that made the call, and the process whose
`coro_count` it is counted in. -/
structure Job where
  caller : Nat
  task : Task
  holder : Option Nat
deriving DecidableEq, Repr

/-- A return from `syscall_proc_wait`: who waited for what, the process whose end was
the cause, and the result. -/
structure Wake where
  waiter : Nat
  pid : Int
  target : Option Nat
  cause : Nat
  result : Int
deriving DecidableEq, Repr

structure ProcSys where
  procs : Int → Option Nat
  /-- The structures that are allocated. -/
  heap : Nat → Option Proc
  next : Nat
  currPid : Int
  reapList : List Int
  jobs : List (Nat × Job)
  /-- The number of calls of `malloc` for the nodes of lists. -/
  mallocs : Nat
  /-- The processes that have been `ZOMBIE` at some time. -/
  exited : List Nat
  /-- The pids that `zombiefy` has made a zombie. -/
  zombiefied : List Int
  destroyed : List Nat
  wakes : List Wake

/-- What is outside: whether a call of `malloc` succeeds, and what the word in front of
the table reads as, a null pointer or a process in some state. -/
structure Machine where
  malloc : Nat → Bool
  below : Option ProcState

/-- Why there is no next state: SOS reads outside of the table or through a bad pointer,
an assertion fails, or the event cannot occur. -/
inductive Stop where
  | outOfBounds
  | nullPointer
  | dangling
  | assertion
  | disabled
deriving DecidableEq, Repr

namespace ProcSys

variable (s : ProcSys)

def modifyProc (i : Nat) (f : Proc → Proc) : ProcSys :=
  { s with heap := update s.heap i ((s.heap i).map f) }

def setState (i : Nat) (state : ProcState) : ProcSys :=
  { s.modifyProc i fun p => { p with state } with
    exited := if state = .zombie then i :: s.exited else s.exited }

def setThread (i : Nat) (thread : Thread) : ProcSys :=
  s.modifyProc i fun p => { p with thread }

/-- A reply goes to a thread that still waits for it. -/
def reply (i : Nat) : ProcSys :=
  s.modifyProc i fun p => { p with thread := if p.thread = .blocked then .user else p.thread }

def addNode (i : Nat) (node : WaitNode) : ProcSys :=
  s.modifyProc i fun p => { p with waitList := node :: p.waitList }

def adopt (i : Nat) (child : Int) : ProcSys :=
  let t := s.modifyProc i fun p => { p with childList := child :: p.childList }
  match s.procs child with
  | none => t
  | some k => t.modifyProc k fun p => { p with parents := i :: p.parents }

def addCount (k : Int) : Option Nat → ProcSys
  | none => s
  | some i => s.modifyProc i fun p => { p with coroCount := p.coroCount + k }

/-- A coroutine is suspended, and the thread it works for waits. -/
def suspend (co : Nat) (job : Job) : ProcSys :=
  { (s.addCount 1 job.holder).setThread job.caller .blocked with jobs := (co, job) :: s.jobs }

def resume (co : Nat) (job : Job) : ProcSys :=
  { s.addCount (-1) job.holder with jobs := s.jobs.erase (co, job) }

/-- `proc_create`, up to the assignment to `procs[pid]`.  The state is whatever the
memory held. -/
def spawn (pid : Int) (state : ProcState) : ProcSys :=
  { s with
    procs := update s.procs pid (some s.next)
    heap := update s.heap s.next (some
      { pid
        state
        protectedProc := pid = initProc ∨ pid = kernelProc
        coroCount := 0
        waitList := []
        childList := []
        wakeCo := none
        thread := .unborn
        parents := [] })
    next := s.next + 1
    exited := if state = .zombie then s.next :: s.exited else s.exited }

def loading : List Nat :=
  s.jobs.filterMap fun x =>
    match x.2.task with
    | .load new => some new
    | .call _ | .wait _ _ => none

def free (i : Nat) (pid : Int) : ProcSys :=
  { s with
    procs := update s.procs pid none
    heap := update s.heap i none
    destroyed := i :: s.destroyed }

end ProcSys

end SpaghettiOS.Process
