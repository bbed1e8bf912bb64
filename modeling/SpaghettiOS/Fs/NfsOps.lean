import SpaghettiOS.Fs.State

/-!
# The operations on NFS vnodes

`fs/libnfs_vops.c`.  Every operation looks up its process, does nothing when that is a
zombie, and counts itself in `coro_count` until it returns.

A callback runs in front of the rest of the operation it resumes.  `co` is the
coroutine the operation runs in, `get_running()` of the source.
-/

namespace SpaghettiOS.Fs

open Coro (abort check ofOption)
open Vm (shareBufCheckLen)

/-- What all operations have in common: the test for a zombie, for which there is a
result of its own, and the count.  `body` is given the process. -/
def operation {α : Type} (co : Nat) (pid : Int) (skipped : α) (body : Nat → FsM α) : FsM α := do
  let s ← get
  let curproc ← ofOption .nullPointer (s.procs pid)
  if (s.heap curproc).state = .zombie then pure skipped
  else do
    modify fun s => (s.enter co curproc pid).addCount curproc 1
    let r ← body curproc
    modify fun s => s.leave co curproc pid
    pure r

/-- `curproc->coro_count--; return r;` -/
def ret {α : Type} (curproc : Nat) (r : α) : FsM α := do
  modify fun s => s.addCount curproc (-1)
  pure r

/-- An asynchronous call and the `yield` behind it; no reply when libnfs refuses the
call at once. -/
def call (n : Libnfs) (req : NfsCall) : FsM (Option NfsReply) := do
  let s ← get
  set { s with calls := s.calls + 1 }
  if n.accepts s.calls then do
    let reply ← Coro.yield req
    pure (some reply)
  else pure none

/-- An operation that makes one call and returns what its callback leaves. -/
def request {α : Type} (n : Libnfs) (curproc : Nat) (req : NfsCall) (refused : α)
    (callback : NfsReply → FsM α) : FsM α := do
  let reply ← call n req
  match reply with
  | none => ret curproc refused
  | some reply => do
      let r ← callback reply
      ret curproc r

/-- The names of `dev_list`, which only the root has. -/
def devList (dir : Nat) : List String := if dir = rootVnode then ["console"] else []

/-! ## Callbacks -/

/-- `nfs_open_cb`: what is stored after a failure is the message. -/
def nfsOpenCb (v : Nat) (reply : NfsReply) : FsM Int := do
  modify fun s => s.setFh v reply.fh
  pure reply.status

def nfsCloseCb (v : Nat) (reply : NfsReply) : FsM Int := do
  check (0 ≤ reply.status) .nfsError
  modify fun s => s.setFh v .null
  pure 0

def nfsCreateCb (v : Nat) (reply : NfsReply) : FsM Int := do
  modify fun s => s.setFh v reply.fh
  check (0 ≤ reply.status) .nfsError
  modify fun s => s.incref v
  pure 0

def nfsReadCb (reply : NfsReply) : FsM Int := do
  check (0 ≤ reply.status) .nfsError
  pure (shareBufCheckLen reply.status.toNat)

def nfsWriteCb (reply : NfsReply) : FsM Int := do
  check (0 ≤ reply.status) .nfsError
  pure reply.status

def nfsStat64Cb (reply : NfsReply) : FsM (Int × Option Stat) :=
  if reply.status < 0 then pure (-1, none)
  else pure (0, some { reply.stat with type := 0 })

/-- `nfs_dirent_cb`, for the entry `pos` of which the devices were the first `i`. -/
def nfsDirentCb (i pos : Nat) (reply : NfsReply) : FsM (Option String) := do
  check (0 ≤ reply.status) .nfsError
  pure reply.names[pos - i]?

/-! ## The operations -/

def vnfsEachopen (n : Libnfs) (co v flags : Nat) (pid : Int) : FsM Int :=
  operation co pid 0 fun curproc => do
    modify fun s => s.incref v
    let s ← get
    request n curproc (.open v (s.vnodes v).path flags) (-1) (nfsOpenCb v)

def vnfsWrite (n : Libnfs) (co v : Nat) (uio : Uio) : FsM Int :=
  operation co uio.pid 0 fun curproc => do
    let len := shareBufCheckLen (if uio.len > 2 ^ 14 then 2 ^ 14 else uio.len)
    let s ← get
    request n curproc (.pwrite (s.vnodes v).nfsfh uio.offset len) (-1) nfsWriteCb

def vnfsRead (n : Libnfs) (co v : Nat) (uio : Uio) : FsM Int :=
  operation co uio.pid 0 fun curproc => do
    let s ← get
    request n curproc (.pread (s.vnodes v).nfsfh uio.offset uio.len) (-1) nfsReadCb

/-- A name goes to the user and its size with the terminating zero is returned. -/
def retName (curproc : Nat) (name : String) : FsM Int := do
  check (shareBufCheckLen (name.length + 1) = name.length + 1) .assertion
  ret curproc (name.length + 1)

def vnfsGetdirent (n : Libnfs) (co dir : Nat) (uio : Uio) : FsM Int :=
  operation co uio.pid 0 fun curproc =>
    match (devList dir)[uio.len]? with
    | some name => retName curproc name
    | none => do
        let reply ← call n .opendir
        match reply with
        | none => ret curproc (-1)
        | some reply => do
            let path ← nfsDirentCb (devList dir).length uio.len reply
            match path with
            | none => ret curproc 0
            | some path => retName curproc path

def vnfsStat (n : Libnfs) (co v : Nat) (pid : Int) : FsM (Int × Option Stat) :=
  operation co pid (0, none) fun curproc => do
    let s ← get
    request n curproc (.stat (s.vnodes v).path) (-1, none) nfsStat64Cb

/-- `vnfs_creat`.  For a zombie the result is not set. -/
def vnfsCreat (co dir : Nat) (name : String) (pid : Int) : FsM (Int × Option Nat) :=
  operation co pid (0, none) fun curproc => do
    let s ← get
    set (s.addVnode dir name)
    ret curproc (0, some s.nextVnode)

def vnfsReclaim (n : Libnfs) (co v : Nat) (pid : Int)
    (file : Option (Nat × Fin processMaxFiles)) : FsM Int :=
  operation co pid 0 fun curproc => do
    let s ← get
    request n curproc (.close v (s.vnodes v).nfsfh file) (-1) (nfsCloseCb v)

/-- `nfs_lookup_cb`: a name that the server has gets a vnode, made as the kernel. -/
def nfsLookupCb (co dir : Nat) (pathname : String) (reply : NfsReply) :
    FsM (Int × Option Nat) := do
  check (0 ≤ reply.status) .nfsError
  if pathname ∈ reply.names then do
    let (_, result) ← vnfsCreat co dir pathname kernelProc
    pure (0, result)
  else pure (-1, some dir)

/-- The branch of `vnfs_lookup` that makes a new file: it is created and closed again.  When
libnfs refuses the call the handle that is closed was never set. -/
def createFile (n : Libnfs) (co dir : Nat) (pathname : String) (curproc : Nat) :
    FsM (Int × Option Nat) := do
  let (_, new) ← vnfsCreat co dir pathname kernelProc
  let new ← ofOption .nullPointer new
  let reply ← call n (.create new pathname)
  match reply with
  | none => abort .wildPointer
  | some reply => do
      let r ← nfsCreateCb new reply
      let _ ← vnfsReclaim n co new kernelProc none
      ret curproc (r, some new)

/-- `vnfs_lookup`.  A device is found and then forgotten.  When libnfs refuses to open the
directory, `d->path` is read after `d` has been freed. -/
def vnfsLookup (n : Libnfs) (co dir : Nat) (pathname : String) (create : Bool) (pid : Int) :
    FsM (Int × Option Nat) :=
  operation co pid (0, none) fun curproc => do
    let s ← get
    match (s.chain.dropWhile (· ≠ dir)).find? fun v => (s.vnodes v).path = pathname with
    | some v => ret curproc (0, some v)
    | none =>
        if pathname ∈ devList dir then ret curproc (0, none)
        else do
          let reply ← call n .opendir
          match reply with
          | none => abort .wildPointer
          | some reply => do
              let (r, vn) ← nfsLookupCb co dir pathname reply
              if r ≠ 0 ∧ create then createFile n co dir pathname curproc
              else ret curproc (r, vn)

def devStat : Stat := ⟨2, 6, 0, 0, 0⟩

def nfsGetStatbuf (n : Libnfs) (co dir : Nat) (path : String) (pid : Int) :
    FsM (Int × Option Stat) :=
  operation co pid (0, none) fun curproc =>
    if path ∈ devList dir then ret curproc (0, some devStat)
    else
      request n curproc (.stat (if path = ".." then "." else path)) (-1, none) nfsStat64Cb

end SpaghettiOS.Fs
