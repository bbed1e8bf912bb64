import SpaghettiOS.VM.Paging

/-!
# Page faults and the end of an address space

`page_table_insert`, `page_table_destroy` and `vm_fault` of `vm/pagetable.c`, and
`sos_map_frame` of `mapping.c`.  A page table belongs to the address space of a
process and is named by its pid here.
-/

namespace SpaghettiOS.Vm

open Coro (check ofOption)

/-! ## Mapping a frame -/

def pageTableOf (pid : Int) : VmM PageTable := do
  let s ← get
  let as ← ofOption .nullPointer (s.procs pid)
  pure as.pt

/-- One level of `page_table_insert`: a node that is missing is given a frame.
The result is `false` when there is none. -/
def ensureNode (m : Machine) (pid : Int) (present : PageTable → Bool)
    (add : PageTable → Nat → PageTable) : VmM Bool := do
  let t ← pageTableOf pid
  if present t then pure true
  else do
    let (page, vaddr) ← frameAllocImportant m
    if vaddr = 0 then pure false
    else do
      modify fun s => s.modifyTable pid fun t => add t page
      pure true

def pageTableInsert (m : Machine) (pid : Int) (vaddr pageNum : Nat) : VmM Int := do
  let i := getPtIndex vaddr
  let hasPud ← ensureNode m pid (fun t => (t.pud i.l1).isSome) fun t => t.addPud i.l1
  if hasPud then
    let hasPd ← ensureNode m pid (fun t => (t.pd i.l1 i.l2).isSome) fun t => t.addPd i.l1 i.l2
    if hasPd then
      let hasPt ← ensureNode m pid (fun t => (t.pt i.l1 i.l2 i.l3).isSome)
        fun t => t.addPt i.l1 i.l2 i.l3
      if hasPt then
        modify fun s => s.modifyTable pid fun t => t.setWord i (BitVec.ofNat 64 pageNum)
        pure 0
      else pure (-1)
    else pure (-1)
  else pure (-1)

abbrev pageObjectSize : Nat := 253

def bumpLast : List ObjectsFrame → List ObjectsFrame
  | [] => []
  | [n] => [{ n with size := n.size + 1 }]
  | n :: rest => n :: bumpLast rest

/-- Whether `save_seL4_info` needs a new chunk. -/
def chunksFull (t : PageTable) : Bool :=
  match t.seL4Pages.getLast? with
  | none => true
  | some n => n.size == pageObjectSize

/-- The first half of `save_seL4_info`.  Without a frame for the chunk the source
goes on through a pointer that was never set. -/
def ensureChunk (m : Machine) (pid : Int) : VmM Unit := do
  let t ← pageTableOf pid
  if chunksFull t then do
    let (page, vaddr) ← frameAllocImportant m
    check (vaddr ≠ 0) .nullPointer
    modify fun s => s.modifyTable pid fun t =>
      { t with seL4Pages := t.seL4Pages ++ [⟨page, 0⟩] }
  else pure ()

def saveSeL4Info (m : Machine) (pid : Int) : VmM Unit := do
  ensureChunk m pid
  modify fun s => s.modifyTable pid fun t => { t with seL4Pages := bumpLast t.seL4Pages }

/-- `seL4_ARM_Page_Map` of a frame into an address space.  A page that is mapped
through another capability stays as it is. -/
def seL4PageMap (m : Machine) (vspace : Int) (vaddr cap : Nat) (r : CapRights) (page : Nat) :
    VmM SeL4Error := do
  let err ← ask m.pageMap
  if err = .noError then do
    let s ← get
    if (s.vspace vspace vaddr).any fun x => x.1 ≠ cap then pure .deleteFirst
    else do
      set (s.pageMap vspace vaddr cap r page)
      pure err
  else pure err

lemma seL4PageMap_cases (m : Machine) (vspace : Int) (vaddr cap : Nat) (r : CapRights)
    (page : Nat) (s : VmState) :
    (m.pageMap s.time ≠ .noError ∧ seL4PageMap m vspace vaddr cap r page s =
      .done (m.pageMap s.time) { s with time := s.time + 1 }) ∨
    ((∃ x, s.vspace vspace vaddr = some x ∧ x.1 ≠ cap) ∧ seL4PageMap m vspace vaddr cap r page s =
      .done .deleteFirst { s with time := s.time + 1 }) ∨
    (∀ x, s.vspace vspace vaddr = some x → x.1 = cap) ∧ seL4PageMap m vspace vaddr cap r page s =
      .done .noError ({ s with time := s.time + 1 }.pageMap vspace vaddr cap r page) := by
  have hmap : seL4PageMap m vspace vaddr cap r page s = if m.pageMap s.time = .noError then
        if (s.vspace vspace vaddr).any fun x => x.1 ≠ cap then
          .done .deleteFirst { s with time := s.time + 1 }
        else
          .done (m.pageMap s.time) ({ s with time := s.time + 1 }.pageMap vspace vaddr cap r page)
      else .done (m.pageMap s.time) { s with time := s.time + 1 } := by
    simp only [seL4PageMap, ask, Coro.bind_apply, Coro.get_apply, Coro.set_apply, Coro.pure_apply,
      Coroutine.Res.bind]
    split
    · simp only [Coro.bind_apply, Coro.get_apply, Coroutine.Res.bind]
      split <;> rfl
    · rfl
  by_cases herr : m.pageMap s.time = .noError
  · right
    rw [if_pos herr, herr] at hmap
    cases hx : s.vspace vspace vaddr with
    | none => exact .inr ⟨by simp, by rw [hmap, hx]; rfl⟩
    | some x =>
      by_cases hcap : x.1 = cap
      · exact .inr ⟨fun y hy => Option.some.inj hy ▸ hcap, by simp [hmap, hx, hcap]⟩
      · exact .inl ⟨⟨x, rfl, hcap⟩, by simp [hmap, hx, hcap]⟩
  · exact .inl ⟨herr, by rw [hmap, if_neg herr]⟩

lemma vspace_pageMap (s : VmState) (vs : Int) (v cap : Nat) (r : CapRights) (f : Nat) (p : Int)
    (w : Nat) : (s.pageMap vs v cap r f).vspace p w =
      if p = vs ∧ w = v then some (cap, f) else s.vspace p w := by
  rcases eq_or_ne p vs with rfl | hp
  · rcases eq_or_ne w v with rfl | hw
    · simp [VmState.pageMap]
    · simp [VmState.pageMap, hw]
  · simp [VmState.pageMap, hp]

/-- The second try of a mapping, once a paging structure has been added. -/
def retryMap (m : Machine) (vspace : Int) (vaddr cap : Nat) (r : CapRights) (page : Nat)
    (err : SeL4Error) : VmM SeL4Error :=
  if err = .noError then seL4PageMap m vspace vaddr cap r page else pure err

/-- The loop of `sos_map_frame` that adds missing paging structures, which are noted
in the page table of process `pid`.  There is no result when untyped memory or slots
run out. -/
def mapLevels (m : Machine) (pid vspace : Int) (vaddr cap : Nat) (r : CapRights) (page : Nat) :
    Nat → SeL4Error → VmM (Option SeL4Error)
  | n + 1, .failedLookup => do
      let ut ← ask m.allocOk
      if ut then
        let slot ← ask m.allocOk
        if slot then
          let err ← ask m.retypeMap
          saveSeL4Info m pid
          let err ← retryMap m vspace vaddr cap r page err
          mapLevels m pid vspace vaddr cap r page n err
        else pure none
      else pure none
  | _, err => pure (some err)

lemma mapLevels_done (m : Machine) (pid vspace : Int) (vaddr cap : Nat) (r : CapRights)
    (page n : Nat) {err : SeL4Error} (h : err ≠ .failedLookup) :
    mapLevels m pid vspace vaddr cap r page n err = pure (some err) := by
  cases err with
  | failedLookup => exact absurd rfl h
  | noError | deleteFirst | other => cases n <;> rfl

abbrev mappingSlots : Nat := 3

def SeL4Error.code : SeL4Error → Int
  | .noError => 0
  | .failedLookup => 6
  | .deleteFirst => 8
  | .other => 1

/-- `sos_map_frame` of the frame `page` through a capability for it.  For a page that
SOS keeps track of the error of the mapping itself is overwritten by the result of
`page_table_insert`. -/
def sosMapFrame (m : Machine) (pid vspace : Int) (cap vaddr : Nat) (r : CapRights) (page : Nat)
    (isSosAddr : Bool) : VmM Int := do
  let err ← seL4PageMap m vspace vaddr cap r page
  let err ← mapLevels m pid vspace vaddr cap r page mappingSlots err
  match err with
  | none => pure (-1)
  | some err => if isSosAddr then pageTableInsert m pid vaddr page else pure err.code

/-! ## The fault handler -/

def asSeekRegion (as : AddrSpace) (vaddr : Nat) : Option Region :=
  as.regions.find? fun r => r.vbase ≤ vaddr ∧ vaddr ≤ r.vtop

def pageAlign (vaddr : Nat) : Nat := vaddr / pageSize * pageSize

lemma pageAddr_pageAlign {vaddr : Nat} (h : vaddr < 2 ^ 48) : PageAddr (pageAlign vaddr) := by
  unfold PageAddr pageAlign pageSize
  omega

/-- `cspace_alloc_slot`, zero when the cspace is full. -/
def cspaceAllocSlot (m : Machine) : VmM Nat := do
  let ok ← ask m.allocOk
  if ok then do
    let s ← get
    set { s with nextSlot := s.nextSlot + 1 }
    pure (s.nextSlot + 1)
  else pure 0

def settle (pid : Int) (vaddr slot page : Nat) : VmM Unit :=
  modify fun s => s.setFrame page fun e =>
    { e with pid := pid, userVaddr := vaddr, userCap := slot }

/-- The branch for a page that is in its frame and has been unmapped by a sweep.
The second assertion of the source assigns the pid. -/
def remapPage (m : Machine) (pid : Int) (vaddr entry : Nat) : VmM Unit := do
  let s ← get
  let fte ← ofOption .nullPointer (m.getFrame s entry)
  check (fte.refBit = false) .refBitSet
  modify fun s => s.setFrame entry fun e => { e with pid := pid }
  check (pid ≠ 0) .pidZero
  let _ ← seL4PageMap m pid vaddr fte.userCap allRights entry
  modify fun s => s.setFrame entry fun e => { e with refBit := true }

/-- The frame and the capability both allocating branches begin with. -/
def allocPage (m : Machine) : VmM (Nat × Nat × Nat) := do
  let (page, kernelVaddr) ← frameAlloc m
  let slot ← cspaceAllocSlot m
  pure (page, kernelVaddr, slot)

/-- The branch for a page in the pagefile. -/
def readPage (m : Machine) (pid : Int) (vaddr entry : Nat) : VmM Unit := do
  let (page, kernelVaddr, slot) ← allocPage m
  let _ ← sosMapFrame m pid pid slot vaddr allRights page true
  let _ ← pagein m entry kernelVaddr
  let _ ← sosCopyin m pid m.sharedBufBegin pageSize
  settle pid vaddr slot page

/-- The branch for a page that has no frame and no slot yet. -/
def newPage (m : Machine) (pid : Int) (vaddr : Nat) : VmM Unit := do
  let (page, _, slot) ← allocPage m
  let _ ← sosMapFrame m pid pid slot vaddr allRights page true
  settle pid vaddr slot page

/-- The branches of `vm_fault`, chosen by the bits of the entry. -/
def handleFault (m : Machine) (pid : Int) (vaddr : Nat) (entry : Option Word) : VmM Unit :=
  match entry with
  | none => newPage m pid vaddr
  | some w =>
      if pageGetBits w = 0 then remapPage m pid vaddr (pageEntryNumber w)
      else if pageGetBits w &&& pPagefile ≠ 0 then readPage m pid vaddr (pageEntryNumber w)
      else newPage m pid vaddr

def vmFault (m : Machine) (pid : Int) (faultaddress : Nat) : VmM Unit := do
  let s ← get
  let as ← ofOption .nullPointer (s.procs pid)
  let reg ← ofOption .faultFailed (asSeekRegion as faultaddress)
  check (reg.read ∨ reg.write) .faultFailed
  let vaddr := pageAlign faultaddress
  handleFault m pid vaddr (pageLookup as.pt vaddr)

/-- The coroutine a fault message starts. -/
def faultCo (m : Machine) (pid : Int) (faultaddress : Nat) : VmM Unit := do
  modify fun s => { s with running := pid }
  vmFault m pid faultaddress
  modify fun s => { s with log := .finished pid :: s.log }

/-! ## Destroying a page table -/

/-- The body of the innermost loop of `page_table_destroy`. -/
def destroyEntry (m : Machine) (w : Word) : VmM Unit :=
  if pInvalid &&& pageGetBits w ≠ 0 then pure ()
  else if pPagefile &&& pageGetBits w ≠ 0 then do
    let _ ← pagefileRemove (pageEntryNumber w)
  else frameFree m (pageEntryNumber w)

/-- A node after its slots. -/
def destroyNode {α : Type} (m : Machine) (slot : α → VmM Unit) (n : Node α) : VmM Unit := do
  (List.finRange 512).forM fun i => slot (n.slot i)
  frameFree m n.frame

def ifPresent {α : Type} (f : α → VmM Unit) : Option α → VmM Unit
  | none => pure ()
  | some x => f x

def destroyPt (m : Machine) : Pt → VmM Unit := destroyNode m (destroyEntry m)

def destroyPd (m : Machine) : Pd → VmM Unit := destroyNode m (ifPresent (destroyPt m))

def destroyPud (m : Machine) : Pud → VmM Unit := destroyNode m (ifPresent (destroyPd m))

/-- `page_table_destroy`.  The frame of the top level goes after the chunks of
kernel objects. -/
def pageTableDestroy (m : Machine) (t : PageTable) : VmM Unit := do
  (List.finRange 512).forM fun i => ifPresent (destroyPud m) (t.pgd.slot i)
  t.seL4Pages.forM fun n => frameFree m n.frame
  frameFree m t.pgd.frame
  frameFree m t.frame

/-- The part of `proc_destroy` that takes the address space down. -/
def asDestroy (m : Machine) (pid : Int) : VmM Unit := do
  let t ← pageTableOf pid
  pageTableDestroy m t
  modify fun s => { s with procs := Function.update s.procs pid none }

end SpaghettiOS.Vm
