import SpaghettiOS.VM.Paging

/-!
# Files, vnodes and the processes that use them

The data of `vfs/`, `fs/libnfs_vops.c`, `dev/console.c` and `syscall/filetable.c`, and
the fields of `struct proc` they touch.  A process is known by the address of its
structure, which is what a suspended operation keeps; `procs` says which structure a
pid stands for.  The bytes of a file are not part of this model.
-/

namespace SpaghettiOS.Fs

open Function (update)

inductive ProcState where
  | running
  | waiting
  | zombie
deriving DecidableEq, Repr

/-- The vnodes: the one device, and the files of the server by number. -/
inductive Vnode where
  | console
  | nfs (v : Nat)
deriving DecidableEq, Repr

/-- The `nfsfh` field: no handle, one that libnfs gave out, or some other bits. -/
inductive Fh where
  | null
  | handle (h : Nat)
  | junk
deriving DecidableEq, Repr

structure OpenFile where
  vn : Vnode
  flags : Nat
deriving DecidableEq, Repr

abbrev processMaxFiles : Nat := 16

instance : NeZero processMaxFiles := ⟨by decide⟩

abbrev FileTable := Fin processMaxFiles → Option OpenFile

/-- `struct proc`, as far as files are concerned.  The kernel process has no file
table. -/
structure Proc where
  state : ProcState
  coroCount : Int
  fdt : Option FileTable

/-- `struct vnode` with its `struct vnode_nfs_data`. -/
structure NfsVnode where
  path : String
  nfsfh : Fh
  refcount : Int

structure Stat where
  type : Nat
  fmode : Nat
  size : Nat
  ctime : Nat
  atime : Nat
deriving DecidableEq, Repr

structure Uio where
  len : Nat
  offset : Nat
  pid : Int

structure FsState where
  procs : Int → Option Nat
  heap : Nat → Proc
  /-- The structures `malloc` has handed out. -/
  allocated : Nat → Bool
  vnodes : Nat → NfsVnode
  /-- The vnodes in the order of their `next` fields, the root first. -/
  chain : List Nat
  nextVnode : Nat
  /-- `reader` of the console. -/
  reader : Option Nat
  /-- The paths of the handles that are open. -/
  handles : Nat → Option String
  nextHandle : Nat
  /-- The number of asynchronous calls made. -/
  calls : Nat
  /-- The operations that are past their first test and have not returned: the
  coroutine of each, its process and the pid it was invoked with. -/
  active : List (Nat × Nat × Int)

/-- The asynchronous calls of libnfs.  The callback of an open, a create or a close
knows the vnode; a close is also told which open file it is for, if there is one. -/
inductive NfsCall where
  | open (v : Nat) (path : String) (flags : Nat)
  | create (v : Nat) (path : String)
  | close (v : Nat) (fh : Fh) (file : Option (Nat × Fin processMaxFiles))
  | opendir
  | pread (fh : Fh) (offset len : Nat)
  | pwrite (fh : Fh) (offset len : Nat)
  | stat (path : String)

structure NfsReply where
  status : Int
  fh : Fh
  names : List String
  stat : Stat

/-- Why SOS stops: an `exit`, a failed assertion, or a pointer that leads nowhere. -/
inductive Crash where
  | nfsError
  | assertion
  | nullPointer
  | outOfBounds
  | noMemory
  /-- A pointer that was never set, or that `free` has overwritten. -/
  | wildPointer
deriving DecidableEq, Repr

abbrev FsM := Coro FsState NfsCall NfsReply Crash

/-- Whether libnfs accepts the calls, in the order in which they are made. -/
structure Libnfs where
  accepts : Nat → Bool

abbrev rootVnode : Nat := 0

abbrev kernelProc : Int := 0

/-- `insertAfter dir v`: `v` becomes the `next` of `dir`. -/
def insertAfter (dir v : Nat) : List Nat → List Nat
  | [] => []
  | x :: l => if x = dir then x :: v :: l else x :: insertAfter dir v l

namespace FsState

variable (s : FsState)

def setProc (a : Nat) (f : Proc → Proc) : FsState :=
  { s with heap := update s.heap a (f (s.heap a)) }

/-- `coro_count` of a process moves by `k`. -/
def addCount (a : Nat) (k : Int) : FsState :=
  s.setProc a fun p => { p with coroCount := p.coroCount + k }

lemma addCount_fdt (a b : Nat) (k : Int) : ((s.addCount a k).heap b).fdt = (s.heap b).fdt := by
  rcases eq_or_ne b a with rfl | hne
  · simp [addCount, setProc]
  · simp [addCount, setProc, hne]

lemma addCount_state (a b : Nat) (k : Int) :
    ((s.addCount a k).heap b).state = (s.heap b).state := by
  rcases eq_or_ne b a with rfl | hne
  · simp [addCount, setProc]
  · simp [addCount, setProc, hne]

def setFile (a : Nat) (fd : Fin processMaxFiles) (file : Option OpenFile) : FsState :=
  s.setProc a fun p => { p with fdt := p.fdt.map fun t => update t fd file }

def file (a : Nat) (fd : Fin processMaxFiles) : Option OpenFile :=
  (s.heap a).fdt.bind fun t => t fd

def enter (co a : Nat) (pid : Int) : FsState := { s with active := (co, a, pid) :: s.active }

def leave (co a : Nat) (pid : Int) : FsState := { s with active := s.active.erase (co, a, pid) }

def setFh (v : Nat) (fh : Fh) : FsState :=
  { s with vnodes := update s.vnodes v { s.vnodes v with nfsfh := fh } }

def incref (v : Nat) : FsState :=
  { s with vnodes := update s.vnodes v { s.vnodes v with refcount := (s.vnodes v).refcount + 1 } }

/-- `nfs_create_vnode` and the links `vnfs_creat` sets: the handle is what `malloc`
left there. -/
def addVnode (dir : Nat) (name : String) : FsState :=
  { s with
    vnodes := update s.vnodes s.nextVnode ⟨name, .junk, 1⟩
    chain := insertAfter dir s.nextVnode s.chain
    nextVnode := s.nextVnode + 1 }

def opened (path : String) : FsState :=
  { s with
    handles := update s.handles s.nextHandle (some path)
    nextHandle := s.nextHandle + 1 }

def closed : Fh → FsState
  | .handle h => { s with handles := update s.handles h none }
  | .null | .junk => s

end FsState

/-- What libnfs may answer: an open or a create gives a handle that was never used, or
fails, and a close ends the handle it was given and no other. -/
def Answers (call : NfsCall) (r : NfsReply) (s s' : FsState) : Prop :=
  match call with
  | .open _ path _ | .create _ path =>
      (r.status < 0 ∧ r.fh = .junk ∧ s' = s) ∨
        (0 ≤ r.status ∧ r.fh = .handle s.nextHandle ∧ s' = s.opened path)
  | .close _ fh _ => s' = s.closed fh
  | .opendir | .pread _ _ _ | .pwrite _ _ _ | .stat _ => s' = s

end SpaghettiOS.Fs
