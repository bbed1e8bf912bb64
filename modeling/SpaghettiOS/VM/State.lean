import SpaghettiOS.Lib.Coro
import SpaghettiOS.VM.PageTable

/-!
# The state of the pager

The globals of `vm/frametable.c`, `vm/pager.c` and `vm/shared_buf.c`, the
address spaces of the processes, and what the hardware and the file server hold.

Two fields have no counterpart in the source: `time` counts the questions put to
code below this one, and `log` records what the frame allocator did for whom.
No function reads `log`.
-/

namespace SpaghettiOS.Vm

open Function (update)

/-- `struct frame_table_entry`, without the untyped object behind the frame. -/
structure FrameTableEntry where
  cap : Nat
  userCap : Nat
  nextFreePage : Nat
  pid : Int
  userVaddr : Nat
  refBit : Bool
  important : Bool
deriving DecidableEq, Repr

/-- `struct pagefile_list`: the slots ever handed out and the free ones. -/
structure PagefileList where
  size : Nat
  free : List Nat
deriving DecidableEq, Repr

/-- `struct region`, with the three bits of `accmode`. -/
structure Region where
  vbase : Nat
  vtop : Nat
  read : Bool
  write : Bool
  exec : Bool
deriving DecidableEq, Repr

structure AddrSpace where
  regions : List Region
  pt : PageTable

/-- `seL4_Error`, as far as the callers tell the codes apart. -/
inductive SeL4Error where
  | noError
  | failedLookup
  | deleteFirst
  | other
deriving DecidableEq, Repr

structure CapRights where
  grant : Bool
  read : Bool
  write : Bool
deriving DecidableEq, Repr

def allRights : CapRights := ⟨true, true, true⟩

/-- What is fixed when the system has booted: the layout of kernel memory, and the answers of
the allocators, of the file server to an open, and of the kernel, in the order of the questions.
-/
structure Machine where
  frameTableSize : Nat
  baseVaddr : Nat
  sharedBufBegin : Nat
  allocOk : Nat → Bool
  openOk : Nat → Bool
  pageMap : Nat → SeL4Error
  retypeMap : Nat → SeL4Error
  capCopy : Nat → SeL4Error
  size_pos : 0 < frameTableSize
  size_lt : frameTableSize < 2 ^ 52
  base_pos : 0 < baseVaddr

/-- The answer at this time and the `n` answers before it were failed lookups, each of
them the retry of the one before, after less than `gap` other questions. -/
def Machine.Retried (m : Machine) (gap : Nat) : Nat → Nat → Prop
  | 0, t => m.pageMap t = .failedLookup
  | n + 1, t => m.pageMap t = .failedLookup ∧ ∃ t' < t, t ≤ t' + gap ∧ m.Retried gap n t'

/-- What the frame allocator did: `frame_alloc` returned a page to the coroutine
of a process, a page was freed by it, and the coroutine ended. -/
inductive FrameEvent where
  | returned (co : Int) (page : Nat)
  | freed (co : Int) (page : Nat)
  | finished (co : Int)
deriving DecidableEq, Repr

structure VmState where
  frameTable : Nat → FrameTableEntry
  nextFreePage : Nat
  frameTableCurrSize : Nat
  clockCurr : Nat
  pfList : PagefileList
  pfVnode : Bool
  procs : Int → Option AddrSpace
  /-- The bytes of kernel memory. -/
  mem : Nat → UInt8
  pagefile : Nat → UInt8
  /-- The capability and the frame a user page is mapped through. -/
  vspace : Int → Nat → Option (Nat × Nat)
  /-- The rights a user page was last mapped with. -/
  rights : Int → Nat → CapRights
  nextSlot : Nat
  running : Int
  time : Nat
  log : List FrameEvent

/-- The two requests that suspend a coroutine in the pager. -/
inductive NfsReq where
  | write (offset len : Nat) (data : Nat → UInt8)
  | read (offset len : Nat)

/-- The status and the data a libnfs callback is given. -/
structure NfsReply where
  status : Int
  data : Nat → UInt8

/-- Why the system stops: a failed assertion, an `exit`, a null pointer, or a
loop that never ends. -/
inductive Abort where
  | tableOverfull
  | victimPid
  | victimImportant
  | noEntry
  | entryNumber
  | copyLength
  | writeLength
  | readLength
  | alreadyFree
  | refBitSet
  | pidZero
  | nullPointer
  | nfsError
  | sweepForever
  | faultFailed
  | segmentSize
  | loadForever
  | searchForever
deriving DecidableEq, Repr

abbrev VmM := Coro VmState NfsReq NfsReply Abort

abbrev maxProcesses : Int := 32

abbrev kernelProc : Int := 0

abbrev pageSize : Nat := 4096

/-- The bytes of one process's window of the shared buffer. -/
abbrev shareBufBytes : Nat := 256 * pageSize

/-- `PROCESS_SHARED_BUF_TOP`, where a process finds the end of its window. -/
abbrev processSharedBufTop : Nat := 0xD0000000

/-- The next answer of code below this one. -/
def ask {α : Type} (answers : Nat → α) : VmM α := do
  let s ← get
  set { s with time := s.time + 1 }
  pure (answers s.time)

namespace VmState

variable (s : VmState)

def setFrame (page : Nat) (f : FrameTableEntry → FrameTableEntry) : VmState :=
  { s with frameTable := update s.frameTable page (f (s.frameTable page)) }

def modifyTable (pid : Int) (f : PageTable → PageTable) : VmState :=
  { s with procs := update s.procs pid ((s.procs pid).map fun as => { as with pt := f as.pt }) }

def clearPage (vaddr : Nat) : VmState :=
  { s with mem := fun a => if vaddr ≤ a ∧ a < vaddr + pageSize then 0 else s.mem a }

/-- `memcpy` of `len` bytes given by `src`. -/
def copyTo (dst len : Nat) (src : Nat → UInt8) : VmState :=
  { s with mem := fun a => if dst ≤ a ∧ a < dst + len then src (a - dst) else s.mem a }

/-- `seL4_ARM_Page_Map` of a frame through a capability. -/
def pageMap (pid : Int) (vaddr cap : Nat) (r : CapRights) (page : Nat) : VmState :=
  { s with
    vspace := update s.vspace pid (update (s.vspace pid) vaddr (some (cap, page)))
    rights := update s.rights pid (update (s.rights pid) vaddr r) }

/-- `seL4_ARM_Page_Unmap` of a capability that is not null: the mapping made
through it goes. -/
def pageUnmap (cap page : Nat) : VmState :=
  { s with
    vspace := fun p v =>
      if cap ≠ 0 ∧ s.vspace p v = some (cap, page) then none else s.vspace p v }

def pte (pid : Int) (vaddr : Nat) : Pte :=
  match s.procs pid with
  | none => .invalid
  | some as => as.pt.pte (getPtIndex vaddr)

def tableFrame (pid : Int) (x : PageTable.Place) : Option Nat :=
  (s.procs pid).bind fun as => as.pt.frameAt x

def allocated (page : Nat) : Prop := (s.frameTable page).cap ≠ 0

@[simp] lemma log_setFrame (page : Nat) (f : FrameTableEntry → FrameTableEntry) :
    (s.setFrame page f).log = s.log := rfl

/-! A copy changes bytes and nothing else. -/

section
variable (dst len : Nat) (src : Nat → UInt8)

@[simp] lemma frameTable_copyTo : (s.copyTo dst len src).frameTable = s.frameTable := rfl

@[simp] lemma procs_copyTo : (s.copyTo dst len src).procs = s.procs := rfl

@[simp] lemma pte_copyTo : (s.copyTo dst len src).pte = s.pte := rfl

@[simp] lemma pagefile_copyTo : (s.copyTo dst len src).pagefile = s.pagefile := rfl

@[simp] lemma vspace_copyTo : (s.copyTo dst len src).vspace = s.vspace := rfl

@[simp] lemma log_copyTo : (s.copyTo dst len src).log = s.log := rfl

end

end VmState

namespace Machine

variable (m : Machine)

def pageNumToVaddr (page : Nat) : Nat := page * pageSize + m.baseVaddr

def vaddrToPageNum (vaddr : Nat) : Nat := (vaddr - m.baseVaddr) / pageSize

def getBufFromPid (pid : Int) : Nat := m.sharedBufBegin + pid.toNat * shareBufBytes

/-- `get_frame`, whose bound lets the page just past the table through. -/
def getFrame (s : VmState) (page : Nat) : Option FrameTableEntry :=
  if page > m.frameTableSize then none else some (s.frameTable page)

end Machine

end SpaghettiOS.Vm
