import SpaghettiOS.VM.Destroy

/-!
# Page tables in memory

`vm/pagetable.c` on the memory that the structures of a page table lie in.  A pointer is
the address of a frame, and a frame that is not in use cannot be read.  What
`page_table_destroy` gives back is kept in the order of the calls.

`frame_alloc_important` is a request.  It is answered with a frame that is not in use,
or with none.
-/

namespace SpaghettiOS.TableMemory

open Vm
open Coro (check ofOption abort yield)
open Function (update)

/-- What a frame in use holds: one of the structures of `pagetable.h`, or a page of a
process.  The three upper levels are arrays of pointers alike. -/
inductive Content where
  | table (pgd seL4Pages : Nat)
  | dir (slot : Fin 512 → Nat)
  | pt (page : Fin 512 → Word)
  | chunk (size nextframe : Nat) (objects : Nat → Nat × Nat)
  | page

def Content.table? : Content → Option (Nat × Nat)
  | .table pgd pages => some (pgd, pages)
  | _ => none

def Content.dir? : Content → Option (Fin 512 → Nat)
  | .dir slot => some slot
  | _ => none

def Content.pt? : Content → Option (Fin 512 → Word)
  | .pt entries => some entries
  | _ => none

/-- The size, the next chunk and the objects. -/
def Content.chunk? : Content → Option (Nat × Nat × (Nat → Nat × Nat))
  | .chunk size next objects => some (size, next, objects)
  | _ => none

/-- The calls that give something back. -/
inductive Release where
  | frameFree (page : Nat)
  | pagefileRemove (ind : Nat)
  | utFree (ut : Nat)
  | cspaceDelete (cap : Nat)
  | cspaceFreeSlot (cap : Nat)
deriving DecidableEq

structure Memory where
  frame : Nat → Option Content
  released : List Release

/-- A frame gets another content. -/
def Memory.put (s : Memory) (page : Nat) (c : Content) : Memory :=
  { s with frame := update s.frame page (some c) }

inductive MemAbort where
  | nullPointer
  | notInUse
  | otherStructure
  | noFrame
  | walkForever

abbrev MemM := Coro Memory Content (Option Nat) MemAbort

section Program

variable (m : Machine)

/-- Reads the structure that a pointer leads to. -/
def read {α : Type} (view : Content → Option α) (p : Nat) : MemM α := do
  check (p ≠ 0) .nullPointer
  let s ← get
  let c ← ofOption .notInUse (s.frame (m.vaddrToPageNum p))
  ofOption .otherStructure (view c)

/-- Writes the structure that a pointer leads to. -/
def write (p : Nat) (c : Content) : MemM Unit :=
  modify fun s => s.put (m.vaddrToPageNum p) c

/-- `frame_alloc_important` for a structure: the address of a cleared frame, or null. -/
def frameAllocImportant (cleared : Content) : MemM Nat := do
  match ← yield cleared with
  | none => pure 0
  | some page => pure (m.pageNumToVaddr page)

def release (x : Release) : MemM Unit :=
  modify fun s => { s with released := s.released ++ [x] }

def frameFree (page : Nat) : MemM Unit := do
  release (.frameFree page)
  if page > m.frameTableSize then pure ()
  else do
    let s ← get
    check (s.frame page ≠ none) .notInUse
    set { s with frame := update s.frame page none }

/-! ## Building -/

def pageTableInit : MemM Nat := do
  let pageTable ← frameAllocImportant m (.table 0 0)
  let pgd ← frameAllocImportant m (.dir fun _ => 0)
  let (_, pages) ← read m Content.table? pageTable
  write m pageTable (.table pgd pages)
  pure pageTable

/-- One level of `page_table_insert`: a structure that is missing is given a frame,
which is filled before it is linked.  The result is null when there is none. -/
def ensureSlot (parent : Nat) (i : Fin 512) (cleared filled : Content) : MemM Nat := do
  let slot ← read m Content.dir? parent
  if slot i = 0 then do
    let p ← frameAllocImportant m cleared
    if p = 0 then pure 0
    else do
      write m p filled
      let slot ← read m Content.dir? parent
      write m parent (.dir (update slot i p))
      pure p
  else pure (slot i)

def pageTableInsert (pageTable vaddr : Nat) (pageNum : Word) : MemM Int := do
  let (pgd, _) ← read m Content.table? pageTable
  let i := getPtIndex vaddr
  let pud ← ensureSlot m pgd i.l1 (.dir fun _ => 0) (.dir fun _ => 0)
  if pud = 0 then pure (-1)
  else do
    let pd ← ensureSlot m pud i.l2 (.dir fun _ => 0) (.dir fun _ => 0)
    if pd = 0 then pure (-1)
    else do
      let pt ← ensureSlot m pd i.l3 (.pt fun _ => 0) (.pt fun _ => pageUpdateEntry pInvalid 0)
      if pt = 0 then pure (-1)
      else do
        let page ← read m Content.pt? pt
        write m pt (.pt (update page i.l4 pageNum))
        pure 0

/-- `page_lookup`, dereferenced. -/
def pageLookup (pageTable vaddr : Nat) : MemM (Option Word) := do
  let (pgd, _) ← read m Content.table? pageTable
  let i := getPtIndex vaddr
  let slot ← read m Content.dir? pgd
  if slot i.l1 = 0 then pure none
  else do
    let slot ← read m Content.dir? (slot i.l1)
    if slot i.l2 = 0 then pure none
    else do
      let slot ← read m Content.dir? (slot i.l2)
      if slot i.l3 = 0 then pure none
      else do
        let page ← read m Content.pt? (slot i.l3)
        pure (some (page i.l4))

/-- The loop of `save_seL4_info` to the last chunk. -/
def lastChunk : Nat → Nat → MemM Nat
  | 0, _ => abort .walkForever
  | fuel + 1, frame => do
      let (_, next, _) ← read m Content.chunk? frame
      if next = 0 then pure frame else lastChunk fuel next

/-- The chunk that `save_seL4_info` writes to.  When there is no frame for a new one the
source goes on through a pointer that was never set, or past the end of the last chunk. -/
def chunkForObject (fuel pageTable : Nat) : MemM Nat := do
  let (pgd, pages) ← read m Content.table? pageTable
  if pages = 0 then do
    let p ← frameAllocImportant m (.chunk 0 0 fun _ => (0, 0))
    write m pageTable (.table pgd p)
    check (p ≠ 0) .noFrame
    pure p
  else do
    let last ← lastChunk m fuel pages
    let (size, _, objects) ← read m Content.chunk? last
    if size = pageObjectSize then do
      let p ← frameAllocImportant m (.chunk 0 0 fun _ => (0, 0))
      write m last (.chunk size p objects)
      check (p ≠ 0) .noFrame
      pure p
    else pure last

def saveSeL4Info (fuel pageTable ut slot : Nat) : MemM Unit := do
  let frame ← chunkForObject m fuel pageTable
  let (size, next, objects) ← read m Content.chunk? frame
  write m frame (.chunk (size + 1) next (update objects size (ut, slot)))

/-! ## Taking down -/

/-- `pgd->pud[i]`. -/
def pudAt (pgd : Nat) (i : Fin 512) : MemM Nat := do
  let slot ← read m Content.dir? pgd
  pure (slot i)

/-- `pgd->pud[i]->pd[j]`. -/
def pdAt (pgd : Nat) (i j : Fin 512) : MemM Nat := do
  let pud ← pudAt m pgd i
  let slot ← read m Content.dir? pud
  pure (slot j)

/-- `pgd->pud[i]->pd[j]->pt[k]`. -/
def ptAt (pgd : Nat) (i j k : Fin 512) : MemM Nat := do
  let pd ← pdAt m pgd i j
  let slot ← read m Content.dir? pd
  pure (slot k)

/-- `pgd->pud[i]->pd[j]->pt[k]->page[l]`. -/
def pageAt (pgd : Nat) (i j k l : Fin 512) : MemM Word := do
  let pt ← ptAt m pgd i j k
  let page ← read m Content.pt? pt
  pure (page l)

/-- The body of the innermost loop of `page_table_destroy`. -/
def destroyEntry (w : Word) : MemM Unit :=
  if pInvalid &&& pageGetBits w ≠ 0 then pure ()
  else if pPagefile &&& pageGetBits w ≠ 0 then release (.pagefileRemove (pageEntryNumber w))
  else frameFree m (pageEntryNumber w)

/-- The body of the other three: what lies below a structure that is there, and then its
frame, whose pointer is read again. -/
def destroyBelow (pointer : MemM Nat) (below : MemM Unit) : MemM Unit := do
  let p ← pointer
  if p ≠ 0 then do
    below
    let p ← pointer
    frameFree m (m.vaddrToPageNum p)
  else pure ()

def destroyPt (pgd : Nat) (i j k : Fin 512) : MemM Unit :=
  destroyBelow m (ptAt m pgd i j k) <| (List.finRange 512).forM fun l => do
    let w ← pageAt m pgd i j k l
    destroyEntry m w

def destroyPd (pgd : Nat) (i j : Fin 512) : MemM Unit :=
  destroyBelow m (pdAt m pgd i j) <| (List.finRange 512).forM (destroyPt m pgd i j)

def destroyPud (pgd : Nat) (i : Fin 512) : MemM Unit :=
  destroyBelow m (pudAt m pgd i) <| (List.finRange 512).forM (destroyPd m pgd i)

/-- The loops of `page_table_destroy` over the tree. -/
def destroyTree (pgd : Nat) : MemM Unit := (List.finRange 512).forM (destroyPud m pgd)

def destroyObject (frame i : Nat) : MemM Unit := do
  let (_, _, objects) ← read m Content.chunk? frame
  release (.utFree (objects i).1)
  release (.cspaceDelete (objects i).2)
  release (.cspaceFreeSlot (objects i).2)

/-- The loop of `page_table_destroy` over the chunks of kernel objects. -/
def destroyChunks : Nat → Nat → MemM Unit
  | fuel, frame =>
      if frame = 0 then pure ()
      else
        match fuel with
        | 0 => abort .walkForever
        | fuel + 1 => do
            let (size, _, _) ← read m Content.chunk? frame
            (List.range size).forM fun i => destroyObject m frame i
            let (_, next, _) ← read m Content.chunk? frame
            frameFree m (m.vaddrToPageNum frame)
            destroyChunks fuel next

def pageTableDestroy (fuel pageTable : Nat) : MemM Unit := do
  let (pgd, _) ← read m Content.table? pageTable
  destroyTree m pgd
  let (_, pages) ← read m Content.table? pageTable
  destroyChunks m fuel pages
  frameFree m (m.vaddrToPageNum pgd)
  frameFree m (m.vaddrToPageNum pageTable)

end Program

end SpaghettiOS.TableMemory
