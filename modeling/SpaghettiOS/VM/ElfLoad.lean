import SpaghettiOS.VM.Regions

/-!
# Loading an ELF image

`elf.c`.  A segment is loaded page by page: each page gets a frame of its own,
which is mapped into the new process with the rights of the segment and for a
moment into SOS, where the bytes of the file are copied into it.

The file is an array of bytes with its program headers read off; the entry point
and the system call table, which the loader only passes on, are left out.
-/

namespace SpaghettiOS.Vm

open Coro (abort check ofOption)

structure ProgramHeader where
  type : Nat
  offset : Nat
  fileSize : Nat
  memorySize : Nat
  vaddr : Nat
  flags : Word

structure ElfFile where
  wellFormed : Bool
  headers : List ProgramHeader
  byte : Nat → UInt8

abbrev ptLoad : Nat := 1

abbrev pfX : Word := 1

abbrev pfW : Word := 2

abbrev pfR : Word := 4

def getSel4RightsFromElf (permissions : Word) : CapRights :=
  let canRead := permissions &&& pfR ≠ 0 ∨ permissions &&& pfX ≠ 0
  let canWrite := permissions &&& pfW ≠ 0
  if ¬ canRead ∧ ¬ canWrite then allRights else ⟨false, canRead, canWrite⟩

def permFromElf (permissions : Word) : Perm :=
  ⟨permissions &&& pfR ≠ 0, permissions &&& pfW ≠ 0, permissions &&& pfX ≠ 0⟩

abbrev sosElfVmem : Nat := 0xD0000000

/-- `cspace_delete` of a capability for a frame. -/
def cspaceDelete (cap page : Nat) : VmM Unit :=
  modify fun s => s.pageUnmap cap page

/-- The mapping of a frame into the process that is being loaded, with what follows
an error.  The result is zero when the loader goes on with the frame. -/
def mapLoadee (m : Machine) (pid : Int) (h : ProgramHeader) (loadeeVaddr loadeeSlot page : Nat) :
    VmM Int := do
  let err ← sosMapFrame m pid pid loadeeSlot loadeeVaddr (getSel4RightsFromElf h.flags) page true
  settle pid loadeeVaddr loadeeSlot page
  if err ≠ 0 ∧ err ≠ SeL4Error.deleteFirst.code then do
    cspaceDelete loadeeSlot page
    frameFree m page
    pure err
  else if err = SeL4Error.deleteFirst.code then do
    let s ← get
    let r ← ofOption .nullPointer (s.regionAt pid loadeeVaddr)
    if r.accmode ≠ permFromElf h.flags then do
      cspaceDelete loadeeSlot page
      frameFree m page
      pure SeL4Error.failedLookup.code
    else pure 0
  else pure 0

/-- The second mapping of the frame, into SOS, and the copy of the file's bytes
through it. -/
def copyPage (m : Machine) (pid : Int) (dst loadeeSlot page len : Nat) (bytes : Nat → UInt8) :
    VmM Int := do
  let loaderVaddr := pageAlign ((sosElfVmem + dst) % 2 ^ 64)
  let loaderSlot ← cspaceAllocSlot m
  if loaderSlot = 0 then pure (-1)
  else do
    let err ← ask m.capCopy
    if err ≠ .noError then do
      cspaceDelete loadeeSlot page
      pure err.code
    else do
      let err ← sosMapFrame m pid kernelProc loaderSlot loaderVaddr allRights page false
      if err ≠ 0 then do
        cspaceDelete loadeeSlot page
        cspaceDelete loaderSlot page
        pure err
      else do
        modify fun s => s.copyTo (m.pageNumToVaddr page + dst % pageSize) len bytes
        cspaceDelete loaderSlot page
        pure 0

/-- The body of the loop of `load_segment_into_vspace`, at byte `pos` of the
segment. -/
def loadPage (m : Machine) (pid : Int) (file : Nat → UInt8) (h : ProgramHeader)
    (pos dst src : Nat) : VmM Int := do
  let (page, _) ← frameAlloc m
  let loadeeSlot ← cspaceAllocSlot m
  if loadeeSlot = 0 then pure (-1)
  else do
    let err ← ask m.capCopy
    if err ≠ .noError then pure err.code
    else do
      let err ← mapLoadee m pid h (pageAlign dst) loadeeSlot page
      if err ≠ 0 then pure err
      else do
        let nbytes := pageSize - dst % pageSize
        let len := if pos < h.fileSize then min nbytes (h.fileSize - pos) else 0
        copyPage m pid dst loadeeSlot page len fun k => file (src + k)

/-- The loop of `load_segment_into_vspace`.  The counter is an `unsigned int`: it
never reaches the size of a segment of 4 GiB or more. -/
def loadLoop (m : Machine) (pid : Int) (file : Nat → UInt8) (h : ProgramHeader) :
    Nat → Nat → Nat → Nat → VmM Int
  | 0, pos, _, _ => if pos < h.memorySize then abort .loadForever else pure 0
  | n + 1, pos, dst, src =>
      if pos < h.memorySize then do
        let err ← loadPage m pid file h pos dst src
        if err ≠ 0 then pure err
        else
          let nbytes := pageSize - dst % pageSize
          loadLoop m pid file h n ((pos + nbytes) % 2 ^ 32) ((dst + nbytes) % 2 ^ 64) (src + nbytes)
      else pure 0

/-- `load_segment_into_vspace`.  No segment takes more turns than this. -/
def loadSegmentIntoVspace (m : Machine) (pid : Int) (file : Nat → UInt8) (h : ProgramHeader) :
    VmM Int := do
  check (h.fileSize ≤ h.memorySize) .segmentSize
  loadLoop m pid file h (h.memorySize / pageSize + 2) 0 h.vaddr h.offset

/-- One loadable segment in `elf_load`. -/
def loadSegment (m : Machine) (pid : Int) (file : Nat → UInt8) (h : ProgramHeader) : VmM Int := do
  let err ← loadSegmentIntoVspace m pid file h
  if err ≠ 0 then pure (-1)
  else do
    modify fun s => s.setRegions pid fun regions =>
      (asDefineRegion regions h.vaddr h.memorySize (permFromElf h.flags)).2
    pure 0

/-- The loop of `elf_load` over the headers. -/
def loadSegments (m : Machine) (pid : Int) (file : Nat → UInt8) : List ProgramHeader → VmM Int
  | [] => pure 0
  | h :: rest =>
      if h.type ≠ ptLoad then loadSegments m pid file rest
      else do
        let err ← loadSegment m pid file h
        if err ≠ 0 then pure (-1) else loadSegments m pid file rest

def elfLoad (m : Machine) (pid : Int) (elfFile : Option ElfFile) : VmM Int :=
  match elfFile with
  | none => pure (-1)
  | some f => if f.wellFormed then loadSegments m pid f.byte f.headers else pure (-1)

end SpaghettiOS.Vm
