import SpaghettiOS.VM.State

/-!
# Frames and the pagefile

`vm/frametable.c`, `vm/pager.c` and the copies of `vm/shared_buf.c`.  `pageout` and
`pagein` suspend the coroutine while the file server works.  `frame_alloc` and
`frame_alloc_important` differ in the flag they set, and are one definition here.
-/

namespace SpaghettiOS.Vm

open Coro (check ofOption)

/-! ## The shared buffer and the file server -/

def shareBufCheckLen (len : Nat) : Nat :=
  if len > shareBufBytes then shareBufBytes else len

lemma shareBufCheckLen_le (len : Nat) : shareBufCheckLen len ≤ shareBufBytes := by
  unfold shareBufCheckLen
  split
  · exact le_rfl
  · exact not_lt.mp ‹_›

def sosCopyin (m : Machine) (pid : Int) (kernelVaddr len : Nat) : VmM Nat := do
  let len := shareBufCheckLen len
  modify fun s => s.copyTo (m.getBufFromPid pid) len fun k => s.mem (kernelVaddr + k)
  pure len

def sosCopyout (m : Machine) (pid : Int) (kernelVaddr len : Nat) : VmM Nat := do
  let len := shareBufCheckLen len
  modify fun s => s.copyTo kernelVaddr len fun k => s.mem (m.getBufFromPid pid + k)
  pure len

/-- `vnfs_write` for the kernel process: the bytes are taken from the kernel's
window when the request is made, and at most 2^14 of them. -/
def vnfsWrite (m : Machine) (offset len : Nat) : VmM Nat := do
  let len := shareBufCheckLen (if len > 2 ^ 14 then 2 ^ 14 else len)
  let s ← get
  let reply ← Coro.yield (.write offset len fun k => s.mem (m.getBufFromPid kernelProc + k))
  check (0 ≤ reply.status) .nfsError
  pure reply.status.toNat

/-- `vnfs_read` for the kernel process: the callback copies what was read into
the kernel's window before the coroutine goes on. -/
def vnfsRead (m : Machine) (offset len : Nat) : VmM Nat := do
  let reply ← Coro.yield (.read offset len)
  check (0 ≤ reply.status) .nfsError
  let len := shareBufCheckLen reply.status.toNat
  modify fun s => s.copyTo (m.getBufFromPid kernelProc) len reply.data
  pure len

/-! ## The pagefile -/

def pagefileOpen (m : Machine) : VmM Bool := do
  let ok ← ask m.openOk
  if ok then do
    modify fun s => { s with pfVnode := true }
    pure true
  else pure false

/-- The test for an open pagefile at the top of `pageout`. -/
def ensureOpen (m : Machine) : VmM Bool := do
  let s ← get
  if s.pfVnode then pure true else pagefileOpen m

/-- `next_free_node`: the head of the free list, or a slot at the end. -/
def nextFreeNode (l : PagefileList) : Nat × PagefileList :=
  match l.free with
  | ind :: rest => (ind, { l with free := rest })
  | [] => (l.size, { l with size := l.size + 1 })

/-- `add_free_list`: a smaller index goes to the front, any other right behind
the head. -/
def addFreeList (entry : Nat) : List Nat → List Nat
  | [] => [entry]
  | curr :: rest => if entry ≤ curr then entry :: curr :: rest else curr :: entry :: rest

def VmState.addFree (s : VmState) (entry : Nat) : VmState :=
  { s with pfList := { s.pfList with free := addFreeList entry s.pfList.free } }

/-- The part of `pageout` in front of the write: the entry of the victim's page
is made to name the slot, and the bytes go to the kernel's window. -/
def pageoutVictim (m : Machine) (page : Nat) : VmM Nat := do
  let s ← get
  let fte ← ofOption .nullPointer (m.getFrame s page)
  check (fte.pid ≥ 0 ∧ fte.pid ≤ maxProcesses) .victimPid
  check (fte.important = false) .victimImportant
  let as ← ofOption .nullPointer (s.procs fte.pid)
  let _ ← ofOption .noEntry (pageLookup as.pt fte.userVaddr)
  let (ind, pfList) := nextFreeNode s.pfList
  set { s with pfList := pfList }
  let entry := pageUpdateEntry pPagefile ind
  modify fun s => s.modifyTable fte.pid fun t => t.setWord (getPtIndex fte.userVaddr) entry
  check (pageEntryNumber entry = ind) .entryNumber
  let bytesWritten ← sosCopyin m kernelProc (m.pageNumToVaddr page) pageSize
  check (bytesWritten = pageSize) .copyLength
  pure ind

def pageout (m : Machine) (page : Nat) : VmM Int := do
  let opened ← ensureOpen m
  if opened then
    let ind ← pageoutVictim m page
    let bytesWritten ← vnfsWrite m (ind * pageSize) pageSize
    check (bytesWritten = pageSize) .writeLength
    pure 0
  else pure (-1)

/-- `pagein`.  The address is null when `frame_alloc` had no memory. -/
def pagein (m : Machine) (entry kernelVaddr : Nat) : VmM Int := do
  let s ← get
  if entry > s.pfList.size then pure (-1)
  else do
    let bytesRead ← vnfsRead m (entry * pageSize) pageSize
    check (bytesRead = pageSize) .readLength
    check (kernelVaddr ≠ 0) .nullPointer
    let bytesRead ← sosCopyout m kernelProc kernelVaddr pageSize
    check (bytesRead = pageSize) .copyLength
    modify fun s => s.addFree entry
    pure 0

def pagefileRemove (entry : Nat) : VmM Int := do
  let s ← get
  if entry > s.pfList.size then pure (-1)
  else do
    set (s.addFree entry)
    pure 0

/-! ## The frame table -/

/-- One turn of the eviction loop, at a frame whose reference bit is set. -/
def sweepStep (m : Machine) (s : VmState) : VmState :=
  let curr := s.frameTable s.clockCurr
  let s' :=
    if curr.important = false ∨ curr.pid ≤ maxProcesses then
      (s.setFrame s.clockCurr fun e => { e with refBit := false }).pageUnmap
        curr.userCap s.clockCurr
    else s
  { s' with clockCurr := (s.clockCurr + 1) % m.frameTableSize }

/-- The eviction loop of `frame_alloc`.  No fuel left means that the loop is
still going. -/
def sweep (m : Machine) : Nat → VmState → Option VmState
  | 0, s => if (s.frameTable s.clockCurr).refBit then none else some s
  | n + 1, s => if (s.frameTable s.clockCurr).refBit then sweep m n (sweepStep m s) else some s

/-- What `frame_free` does to a frame in use. -/
def VmState.release (s : VmState) (page : Nat) : VmState :=
  { (s.pageUnmap (s.frameTable page).userCap page).setFrame page fun e =>
      { e with nextFreePage := s.nextFreePage, cap := 0, userCap := 0, userVaddr := 0, pid := -1 }
    with
    frameTableCurrSize := s.frameTableCurrSize - 1
    nextFreePage := page
    log := .freed s.running page :: s.log }

def frameFree (m : Machine) (page : Nat) : VmM Unit := do
  let s ← get
  if page > m.frameTableSize then pure ()
  else do
    check ((s.frameTable page).cap ≠ 0) .alreadyFree
    set (s.release page)

/-- What `frame_alloc` does once the frame has memory behind it. -/
def VmState.take (s : VmState) (m : Machine) (important : Bool) (page : Nat) : VmState :=
  { (s.clearPage (m.pageNumToVaddr page)).setFrame page fun e =>
      { e with cap := s.nextSlot + 1, important := important, userVaddr := 0, pid := -1,
               userCap := 0, refBit := true }
    with
    nextFreePage := (s.frameTable page).nextFreePage
    frameTableCurrSize := s.frameTableCurrSize + 1
    nextSlot := s.nextSlot + 1
    log := .returned s.running page :: s.log }

/-- The eviction inside `frame_alloc`.  A failed `pageout` is logged and the
victim is freed all the same. -/
def evict (m : Machine) : VmM Nat := do
  let s ← get
  let swept ← ofOption .sweepForever (sweep m (2 * m.frameTableSize) s)
  set swept
  let _ ← pageout m swept.clockCurr
  let s ← get
  frameFree m s.clockCurr
  let s ← get
  pure s.clockCurr

/-- The page `frame_alloc` goes for. -/
def choosePage (m : Machine) : VmM Nat := do
  let s ← get
  if s.frameTableCurrSize = m.frameTableSize then evict m else pure s.nextFreePage

/-- `frame_alloc` and `frame_alloc_important`: the page and its address, both
zero when the allocators below have nothing left. -/
def frameAllocWith (m : Machine) (important : Bool) : VmM (Nat × Nat) := do
  let s ← get
  check (s.frameTableCurrSize ≤ m.frameTableSize) .tableOverfull
  let page ← choosePage m
  let ok ← ask m.allocOk
  if ok then do
    modify fun s => s.take m important page
    pure (page, m.pageNumToVaddr page)
  else pure (0, 0)

def frameAlloc (m : Machine) : VmM (Nat × Nat) := frameAllocWith m false

def frameAllocImportant (m : Machine) : VmM (Nat × Nat) := frameAllocWith m true

end SpaghettiOS.Vm
