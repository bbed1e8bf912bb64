import SpaghettiOS.Fs.NfsOps

/-!
# Opening and closing files

`dev/console.c`, `vfs/vfs.c`, `syscall/filetable.c`, the two system calls that open and
close a file, and what `proc_create` and `proc_destroy` do with the files of a process.
-/

namespace SpaghettiOS.Fs

open Function (update)
open Coro (abort check ofOption)

/-! ## The console -/

abbrev oRdonly : Nat := 0
abbrev oWronly : Nat := 1
abbrev oRdwr : Nat := 2

/-- `O_ACCMODE`, which has the bit of `O_SEARCH`. -/
abbrev oAccmode : Nat := 0x200003

/-- `console_open`.  The comparison in `flags & O_ACCMODE == O_RDONLY` comes first. -/
def consoleOpen (flags : Nat) (pid : Int) : FsM Int := do
  if flags &&& (if oAccmode = oRdonly then 1 else 0) ≠ 0 then do
    let s ← get
    if s.reader ≠ none then pure (-1)
    else do
      set { s with reader := s.procs pid }
      pure 0
  else pure 0

lemma consoleOpen_eq (flags : Nat) (pid : Int) : consoleOpen flags pid = pure 0 := by
  simp [consoleOpen]

def consoleClose (pid : Int) : FsM Int := do
  modify fun s => if s.reader = s.procs pid then { s with reader := none } else s
  pure 0

/-! ## Vnodes of either kind -/

def vopEachopen (n : Libnfs) (co : Nat) (vn : Vnode) (flags : Nat) (pid : Int) : FsM Int :=
  match vn with
  | .console => consoleOpen flags pid
  | .nfs v => vnfsEachopen n co v flags pid

def vopReclaim (n : Libnfs) (co : Nat) (vn : Vnode) (pid : Int)
    (file : Option (Nat × Fin processMaxFiles)) : FsM Int :=
  match vn with
  | .console => consoleClose pid
  | .nfs v => vnfsReclaim n co v pid file

def findDevice (name : String) : Option Vnode := if name = "console" then some .console else none

def vfsLookup (n : Libnfs) (co : Nat) (path : String) (create : Bool) (pid : Int) :
    FsM (Int × Option Vnode) :=
  match findDevice path with
  | some vn => pure (0, some vn)
  | none =>
      if path ≠ "" then do
        let (r, v) ← vnfsLookup n co rootVnode path create pid
        pure (r, v.map .nfs)
      else pure (0, some (.nfs rootVnode))

/-- `vfs_open`: no vnode when it fails. -/
def vfsOpen (n : Libnfs) (co : Nat) (path : String) (mode : Nat) (pid : Int) :
    FsM (Option Vnode) := do
  let (r, res) ← vfsLookup n co path true pid
  if r ≠ 0 then pure none
  else do
    let res ← ofOption .nullPointer res
    let r ← vopEachopen n co res mode pid
    if r ≠ 0 then pure none else pure (some res)

lemma vfsOpen_console (n : Libnfs) (co mode : Nat) (pid : Int) :
    vfsOpen n co "console" mode pid = pure (some .console) := by
  simp [vfsOpen, vfsLookup, findDevice, vopEachopen, consoleOpen_eq, ofOption]

/-! ## File tables -/

/-- The lowest descriptor that is not in use. -/
def freeFd (t : FileTable) : Option (Fin processMaxFiles) :=
  (List.finRange processMaxFiles).find? fun fd => (t fd).isNone

def fdtPlace (curproc : Nat) (vn : Vnode) (mode : Nat) : FsM (Option (Fin processMaxFiles)) := do
  let s ← get
  let t ← ofOption .nullPointer (s.heap curproc).fdt
  match freeFd t with
  | none => pure none
  | some fd => do
      set (s.setFile curproc fd (some ⟨vn, mode⟩))
      pure (some fd)

def fdtPlaceat (curproc : Nat) (vn : Vnode) (mode : Nat) (fd : Fin processMaxFiles) : FsM Unit :=
  modify fun s => s.setFile curproc fd (some ⟨vn, mode⟩)

/-- The body of the loop of `fdt_destroy`. -/
def fdtDestroyAt (n : Libnfs) (co curproc : Nat) (pid : Int) (fd : Fin processMaxFiles) :
    FsM Unit := do
  let s ← get
  match s.file curproc fd with
  | none => pure ()
  | some f => do
      let _ ← vopReclaim n co f.vn pid (some (curproc, fd))
      modify fun s => s.setFile curproc fd none

def fdtDestroy (n : Libnfs) (co curproc : Nat) (pid : Int) : FsM Unit :=
  (List.finRange processMaxFiles).forM (fdtDestroyAt n co curproc pid)

/-! ## System calls -/

/-- `syscall_open`: the descriptor, if there is one. -/
def syscallOpen (n : Libnfs) (co : Nat) (pid : Int) (path : String) (mode : Nat) :
    FsM (Option (Fin processMaxFiles)) := do
  let s ← get
  let curproc ← ofOption .nullPointer (s.procs pid)
  let res ← vfsOpen n co path mode pid
  match res with
  | none => pure none
  | some vn => fdtPlace curproc vn mode

lemma syscallOpen_console (n : Libnfs) (co : Nat) (pid : Int) (mode : Nat) (s : FsState) :
    syscallOpen n co pid "console" mode s =
      (ofOption .nullPointer (s.procs pid) s).bind fun a => fdtPlace a .console mode := by
  simp [syscallOpen, vfsOpen_console, Coroutine.Res.bind]

def toFd (fd : Int) : Option (Fin processMaxFiles) :=
  if h : 0 ≤ fd ∧ fd < processMaxFiles then some ⟨fd.toNat, by omega⟩ else none

/-- `syscall_close`: neither the number nor the entry is tested. -/
def syscallClose (n : Libnfs) (co : Nat) (pid : Int) (fd : Int) : FsM Unit := do
  let s ← get
  let curproc ← ofOption .nullPointer (s.procs pid)
  let fd ← ofOption .outOfBounds (toFd fd)
  let f ← ofOption .nullPointer (s.file curproc fd)
  let _ ← vopReclaim n co f.vn pid (some (curproc, fd))
  modify fun s => s.setFile curproc fd none

/-! ## Processes -/

/-- One of the two descriptors `proc_create` opens. -/
def openStd (n : Libnfs) (co curproc : Nat) (pid : Int) (fd : Fin processMaxFiles) : FsM Unit := do
  let res ← vfsOpen n co "console" oWronly pid
  let res ← ofOption .nullPointer res
  fdtPlaceat curproc res oWronly fd

/-- What `proc_create` does with files, for a structure at `a` that `malloc` has
returned.  The state is whatever the memory held. -/
def procCreate (n : Libnfs) (co : Nat) (pid : Int) (a : Nat) (state : ProcState) : FsM Unit := do
  let s ← get
  check (s.procs pid = none ∧ s.allocated a = false) .noMemory
  set { s with
    procs := update s.procs pid (some a)
    heap := update s.heap a ⟨state, 0, some fun _ => none⟩
    allocated := update s.allocated a true }
  openStd n co a pid 1
  openStd n co a pid 2

/-- The assignment in `zombiefy`. -/
def procExit (pid : Int) : FsM Unit := do
  let s ← get
  let p ← ofOption .nullPointer (s.procs pid)
  set (s.setProc p fun q => { q with state := .zombie })

def dropFiles (n : Libnfs) (co p : Nat) (pid : Int) : FsM Unit := do
  let s ← get
  if (s.heap p).fdt.isSome then fdtDestroy n co p pid else pure ()

/-- What `proc_destroy` does with files. -/
def procDestroy (n : Libnfs) (co : Nat) (pid : Int) : FsM Int := do
  let s ← get
  let p ← ofOption .nullPointer (s.procs pid)
  check ((s.heap p).state = .zombie) .assertion
  if (s.heap p).coroCount ≠ 0 then pure (-1)
  else do
    dropFiles n co p pid
    let s ← get
    if (s.heap p).coroCount ≠ 0 then pure (-1)
    else do
      set { s with
        procs := update s.procs pid none
        allocated := update s.allocated p false }
      pure 0

/-! ### Taking a process down

A zombie's files are dropped without a call, so `proc_destroy` is not suspended. -/

/-- Nothing but open files, and the reader of the console, is different, and no file
is new. -/
structure FilesDrop (s s' : FsState) : Prop where
  procs : s'.procs = s.procs
  allocated : s'.allocated = s.allocated
  active : s'.active = s.active
  vnodes : s'.vnodes = s.vnodes
  chain : s'.chain = s.chain
  nextVnode : s'.nextVnode = s.nextVnode
  handles : s'.handles = s.handles
  nextHandle : s'.nextHandle = s.nextHandle
  state : ∀ a, (s'.heap a).state = (s.heap a).state
  coroCount : ∀ a, (s'.heap a).coroCount = (s.heap a).coroCount
  file : ∀ a fd f, s'.file a fd = some f → s.file a fd = some f

section Destroy

variable {a : Nat} {pid : Int} {s s' s'' : FsState} (n : Libnfs) (co : Nat)

lemma FilesDrop.refl (s : FsState) : FilesDrop s s :=
  ⟨rfl, rfl, rfl, rfl, rfl, rfl, rfl, rfl, fun _ => rfl, fun _ => rfl, fun _ _ _ h => h⟩

lemma FilesDrop.trans (h : FilesDrop s s') (h' : FilesDrop s' s'') : FilesDrop s s'' where
  procs := h'.procs.trans h.procs
  allocated := h'.allocated.trans h.allocated
  active := h'.active.trans h.active
  vnodes := h'.vnodes.trans h.vnodes
  chain := h'.chain.trans h.chain
  nextVnode := h'.nextVnode.trans h.nextVnode
  handles := h'.handles.trans h.handles
  nextHandle := h'.nextHandle.trans h.nextHandle
  state a := (h'.state a).trans (h.state a)
  coroCount a := (h'.coroCount a).trans (h.coroCount a)
  file a fd f hf := h.file a fd f (h'.file a fd f hf)

lemma FilesDrop.setReader (s : FsState) (r : Option Nat) : FilesDrop s { s with reader := r } :=
  ⟨rfl, rfl, rfl, rfl, rfl, rfl, rfl, rfl, fun _ => rfl, fun _ => rfl, fun _ _ _ h => h⟩

lemma file_setFile (s : FsState) (a b : Nat) (fd fd' : Fin processMaxFiles)
    (file : Option OpenFile) :
    (s.setFile a fd file).file b fd' =
      if b = a ∧ fd' = fd ∧ (s.heap a).fdt.isSome then file else s.file b fd' := by
  rcases eq_or_ne b a with rfl | hb
  · cases ht : (s.heap b).fdt with
    | none => simp [FsState.setFile, FsState.setProc, FsState.file, ht]
    | some t =>
      rcases eq_or_ne fd' fd with rfl | hfd
      · simp [FsState.setFile, FsState.setProc, FsState.file, ht]
      · simp [FsState.setFile, FsState.setProc, FsState.file, ht, hfd]
  · simp [FsState.setFile, FsState.setProc, FsState.file, hb]

lemma FilesDrop.setFile (s : FsState) (a : Nat) (fd : Fin processMaxFiles) :
    FilesDrop s (s.setFile a fd none) := by
  refine ⟨rfl, rfl, rfl, rfl, rfl, rfl, rfl, rfl, fun b => ?_, fun b => ?_, fun b fd' f hf => ?_⟩
  · rcases eq_or_ne b a with rfl | hne
    · simp [FsState.setFile, FsState.setProc]
    · simp [FsState.setFile, FsState.setProc, hne]
  · rcases eq_or_ne b a with rfl | hne
    · simp [FsState.setFile, FsState.setProc]
    · simp [FsState.setFile, FsState.setProc, hne]
  · rw [file_setFile] at hf
    split at hf
    · cases hf
    · exact hf

section Zombie

variable (hp : s.procs pid = some a) (hz : (s.heap a).state = .zombie)

include hp hz

lemma vopReclaim_zombie (vn : Vnode) (file : Option (Nat × Fin processMaxFiles)) :
    ∃ r s', vopReclaim n co vn pid file s = .done r s' ∧ FilesDrop s s' := by
  cases vn with
  | console =>
    refine ⟨0, if s.reader = s.procs pid then { s with reader := none } else s, rfl, ?_⟩
    split
    · exact .setReader s none
    · exact .refl s
  | nfs v =>
    refine ⟨0, s, ?_, .refl s⟩
    simp [vopReclaim, vnfsReclaim, operation, hp, ofOption, hz, Coroutine.Res.bind]

lemma fdtDestroyAt_zombie (fd : Fin processMaxFiles) :
    ∃ s', fdtDestroyAt n co a pid fd s = .done ⟨⟩ s' ∧ FilesDrop s s' := by
  simp only [fdtDestroyAt, Coro.bind_apply, Coro.get_apply, Coroutine.Res.bind]
  cases s.file a fd with
  | none => exact ⟨s, rfl, .refl s⟩
  | some f =>
    obtain ⟨r, s', hs', hdrop⟩ := vopReclaim_zombie n co hp hz f.vn (some (a, fd))
    refine ⟨s'.setFile a fd none, ?_, hdrop.trans (.setFile s' a fd)⟩
    simp only [Coro.bind_apply, hs', Coroutine.Res.bind, Coro.modify_apply]

lemma fdtDestroy_zombie : ∃ s', fdtDestroy n co a pid s = .done ⟨⟩ s' ∧ FilesDrop s s' := by
  unfold fdtDestroy
  generalize List.finRange processMaxFiles = l
  induction l generalizing s with
  | nil => exact ⟨s, rfl, .refl s⟩
  | cons fd l ih =>
    obtain ⟨s1, h1, hdrop₁⟩ := fdtDestroyAt_zombie n co hp hz fd
    obtain ⟨s2, h2, hdrop₂⟩ := ih (s := s1) (by rw [hdrop₁.procs, hp]) (by rw [hdrop₁.state, hz])
    refine ⟨s2, ?_, hdrop₁.trans hdrop₂⟩
    show (fdtDestroyAt n co a pid fd s).bind _ = _
    rw [h1]
    exact h2

lemma dropFiles_zombie : ∃ s', dropFiles n co a pid s = .done ⟨⟩ s' ∧ FilesDrop s s' := by
  simp only [dropFiles, Coro.bind_apply, Coro.get_apply, Coroutine.Res.bind]
  split
  · exact fdtDestroy_zombie n co hp hz
  · exact ⟨s, rfl, .refl s⟩

lemma procDestroy_zombie (hcount : (s.heap a).coroCount = 0)
    (hs' : dropFiles n co a pid s = .done ⟨⟩ s') (hdrop : FilesDrop s s') :
    procDestroy n co pid s = .done 0 { s' with
      procs := update s'.procs pid none
      allocated := update s'.allocated a false } := by
  have hcheck : check ((s.heap a).state = .zombie) .assertion s =
      (.done ⟨⟩ s : Coroutine.Res FsState NfsCall NfsReply Crash Unit) := by
    rw [check, if_pos hz]
    rfl
  have hcount' : (s'.heap a).coroCount = 0 := (hdrop.coroCount a).trans hcount
  simp only [procDestroy, Coro.bind_apply, Coro.get_apply, Coroutine.Res.bind, hp, ofOption,
    Coro.pure_apply, hcheck, hcount, ne_eq, not_true_eq_false, if_false, hs', hcount',
    Coro.set_apply]

end Zombie

lemma procDestroy_cases (pid : Int) (s : FsState) :
    (∃ e, procDestroy n co pid s = .fail e) ∨ procDestroy n co pid s = .done (-1) s ∨
      ∃ p s', s.procs pid = some p ∧ (s.heap p).coroCount = 0 ∧ FilesDrop s s' ∧
        procDestroy n co pid s = .done 0 { s' with
          procs := update s'.procs pid none
          allocated := update s'.allocated p false } := by
  cases hp : s.procs pid with
  | none =>
    refine .inl ⟨.nullPointer, ?_⟩
    simp [procDestroy, hp, ofOption, abort, Coroutine.Res.bind]
  | some p =>
    by_cases hz : (s.heap p).state = .zombie
    · by_cases hcount : (s.heap p).coroCount = 0
      · obtain ⟨s', hs', hdrop⟩ := dropFiles_zombie n co hp hz
        have hdestroy := procDestroy_zombie n co hp hz hcount hs' hdrop
        exact .inr (.inr ⟨p, s', rfl, hcount, hdrop, hdestroy⟩)
      · refine .inr (.inl ?_)
        simp [procDestroy, hp, ofOption, check, hz, hcount, Coroutine.Res.bind]
    · refine .inl ⟨.assertion, ?_⟩
      simp [procDestroy, hp, ofOption, check, abort, hz, Coroutine.Res.bind]

end Destroy

/-! ## Everything a coroutine may do -/

/-- The nine operations of the file system, the system calls, and the life of a
process. -/
inductive FsOp where
  | eachopen (v flags : Nat) (pid : Int)
  | write (v : Nat) (uio : Uio)
  | read (v : Nat) (uio : Uio)
  | getdirent (dir : Nat) (uio : Uio)
  | stat (v : Nat) (pid : Int)
  | lookup (dir : Nat) (pathname : String) (create : Bool) (pid : Int)
  | creat (dir : Nat) (name : String) (pid : Int)
  | reclaim (v : Nat) (pid : Int)
  | statbuf (dir : Nat) (path : String) (pid : Int)
  | open (pid : Int) (path : String) (mode : Nat)
  | close (pid fd : Int)
  | create (pid : Int) (a : Nat) (state : ProcState)
  | exit (pid : Int)
  | destroy (pid : Int)

def onVnode {α : Type} (v : Nat) (op : FsM α) : FsM Unit := do
  let s ← get
  check (v < s.nextVnode) .nullPointer
  discard op

def FsOp.body (n : Libnfs) (co : Nat) : FsOp → FsM Unit
  | .eachopen v flags pid => onVnode v (vnfsEachopen n co v flags pid)
  | .write v uio => onVnode v (vnfsWrite n co v uio)
  | .read v uio => onVnode v (vnfsRead n co v uio)
  | .getdirent dir uio => onVnode dir (vnfsGetdirent n co dir uio)
  | .stat v pid => onVnode v (vnfsStat n co v pid)
  | .lookup dir pathname new pid => onVnode dir (vnfsLookup n co dir pathname new pid)
  | .creat dir name pid => onVnode dir (vnfsCreat co dir name pid)
  | .reclaim v pid => onVnode v (vnfsReclaim n co v pid none)
  | .statbuf dir path pid => onVnode dir (nfsGetStatbuf n co dir path pid)
  | .open pid path mode => discard (syscallOpen n co pid path mode)
  | .close pid fd => syscallClose n co pid fd
  | .create pid a state => procCreate n co pid a state
  | .exit pid => procExit pid
  | .destroy pid => discard (procDestroy n co pid)

abbrev FsPool := Coroutine.Pool FsState NfsCall NfsReply Crash Nat

abbrev FsStep (n : Libnfs) : FsPool → Coroutine.Event Nat FsOp NfsReply → FsPool → Prop :=
  Coroutine.Pool.Step (FsOp.body n) fun _ => Answers

/-! ### A system that has booted -/

def bootedFs : FsPool where
  state :=
    { procs := fun pid => if pid = kernelProc then some 0 else none
      heap := fun _ => ⟨.running, 0, none⟩
      allocated := fun a => a = 0
      vnodes := fun _ => ⟨"", .junk, 1⟩
      chain := [rootVnode]
      nextVnode := 1
      reader := none
      handles := fun _ => none
      nextHandle := 0
      calls := 0
      active := [] }
  waiting := fun _ => none

def acceptAll : Libnfs := ⟨fun _ => true⟩

/-- A server that has the files of `names` and does whatever it is asked. -/
def serve (names : List String) (_co : Nat) (req : NfsCall) (s : FsState) : NfsReply × FsState :=
  match req with
  | .open _ path _ | .create _ path =>
      (⟨0, .handle s.nextHandle, [], devStat⟩, s.opened path)
  | .close _ fh _ => (⟨0, .null, [], devStat⟩, s.closed fh)
  | .opendir => (⟨0, .null, names, devStat⟩, s)
  | .pread _ _ len | .pwrite _ _ len => (⟨len, .null, [], devStat⟩, s)
  | .stat _ => (⟨0, .null, [], devStat⟩, s)

lemma answers_serve (names : List String) (co : Nat) (req : NfsCall) (s : FsState) :
    Answers req (serve names co req s).1 s (serve names co req s).2 := by
  cases req with
  | «open» v path flags | create v path => exact .inr ⟨le_rfl, rfl, rfl⟩
  | close v fh file | opendir | pread fh offset len | pwrite fh offset len | stat path => rfl

end SpaghettiOS.Fs
