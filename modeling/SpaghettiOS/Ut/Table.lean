import Mathlib.Algebra.Ring.Nat
import SpaghettiOS.Lib.Linked

/-!
# The table of untyped memory

The kernel's memory is handed out as untyped objects of 2^4 to 2^12 bytes.  A node (`ut_t`)
stands for one of them; free ones are on a list for each size, and a node without an untyped
is on the list of free structures.  A smaller untyped comes from a split: `ut_alloc` gets one
of twice the size and retypes it into two.

What the cspace takes for itself, which slots it finds and whether seL4 does what it is asked
is left open: a `Machine` answers at each time.
-/

namespace SpaghettiOS.Ut

def pageBits : Nat := 12

def endpointBits : Nat := 4

def nUntypedLists : Nat := pageBits - endpointBits + 1

def pageSize4K : Nat := 4096

def sizeofUt : Nat := 16

def sizeBitsToIndex (x : Nat) : Nat := x - endpointBits

/-! ## Capabilities -/

/-- An untyped object: where it is, its size, how much of it has been retyped and how many
objects in it there are. -/
structure Untyped where
  paddr : Nat
  bits : Nat
  used : Nat
  kids : Nat
deriving DecidableEq, Repr

inductive Object where
  | untyped (u : Untyped)
  | smallPage (paddr : Nat)
deriving DecidableEq, Repr

/-- What a slot holds, and the slot of the untyped that it was made from. -/
structure Cap where
  object : Object
  parent : Nat
deriving DecidableEq, Repr

inductive ObjectType where
  | untyped
  | smallPage
deriving DecidableEq, Repr

def ObjectType.make (paddr bits : Nat) : ObjectType → Object
  | .untyped => .untyped ⟨paddr, bits, 0, 0⟩
  | .smallPage => .smallPage paddr

def alignUp (n a : Nat) : Nat := (n + (a - 1)) / a * a

/-- Where in the untyped the next object goes.  seL4 starts anew in one that has none. -/
def Untyped.start (u : Untyped) (bits : Nat) : Nat :=
  alignUp (if u.kids = 0 then 0 else u.used) (2 ^ bits)

/-- `seL4_Untyped_Retype` of one object. -/
def seL4UntypedRetype (caps : Nat → Option Cap) (ut target : Nat) (type : ObjectType)
    (bits : Nat) : Option (Nat → Option Cap) :=
  match caps ut with
  | some ⟨.untyped u, parent⟩ =>
      if caps target = none ∧ u.start bits + 2 ^ bits ≤ 2 ^ u.bits then
        let u' := { u with used := u.start bits + 2 ^ bits, kids := u.kids + 1 }
        some (Function.update (Function.update caps ut (some ⟨.untyped u', parent⟩)) target
          (some ⟨type.make (u.paddr + u.start bits) bits, ut⟩))
      else none
  | _ => none

def Cap.disown : Cap → Cap
  | ⟨.untyped u, parent⟩ => ⟨.untyped { u with kids := u.kids - 1 }, parent⟩
  | c => c

def seL4CNodeDelete (caps : Nat → Option Cap) (slot : Nat) : Nat → Option Cap :=
  match caps slot with
  | none => caps
  | some c =>
      Function.update (Function.update caps c.parent ((caps c.parent).map Cap.disown)) slot none

/-! ## State -/

inductive Head where
  | freeUntypeds (k : Nat)
  | freeStructures
deriving DecidableEq, Repr

/-- What becomes of untypeds, apart from allocation: a page is added, used up by the cspace, by
page tables or by structures, or an untyped is split. -/
inductive Event where
  | added (node : Nat)
  | kept (node : Nat)
  | split (larger new1 new2 sizeBits : Nat)
deriving DecidableEq, Repr

/-- The answers of the cspace and of seL4 at each time. -/
structure Machine where
  /-- the slot that `cspace_alloc_slot` finds, 0 if there is none -/
  slot : Nat → Nat
  /-- the pages that the cspace allocates meanwhile, and whether it keeps each -/
  pages : Nat → List Bool
  /-- how many pages it maps for itself -/
  maps : Nat → Nat
  retypeOk : Nat → Bool
  mapOk : Nat → Bool

/-- The table, the capabilities that its nodes name and what it shares with the cspace.
`history` is not in the source: it records what the lists do not show. -/
structure UtState where
  lists : Linked.Heap Head Nat
  cap : Nat → Nat
  valid : Nat → Bool
  firstPaddr : Nat
  untypeds : Nat
  /-- the end of the memory that was given to `ut_init` -/
  tableEnd : Nat
  n4kUntyped : Nat
  nextFreeVaddr : Nat
  caps : Nat → Option Cap
  slots : Nat → Bool
  time : Nat
  history : List Event

namespace UtState

def push (s : UtState) (list : Head) (node : Nat) : UtState :=
  { s with lists := s.lists.push list node }

def pop (s : UtState) (list : Head) : Nat × UtState :=
  (s.lists.head list, { s with lists := s.lists.drop list })

def setCap (s : UtState) (node cptr : Nat) : UtState :=
  { s with cap := Function.update s.cap node cptr }

def log (s : UtState) (e : Event) : UtState := { s with history := e :: s.history }

def paddrToUt (s : UtState) (paddr : Nat) : Nat :=
  s.untypeds + (paddr - s.firstPaddr) / pageSize4K * sizeofUt

end UtState

open UtState

def pageList : Head := .freeUntypeds (sizeBitsToIndex pageBits)

/-! ## The functions of `ut.c` -/

/-- The body of the loop of `ut_add_untyped_range`. -/
def utAddUntyped (paddr cap : Nat) (device : Bool) (s : UtState) (i : Nat) : UtState :=
  let node := s.paddrToUt (paddr + i * pageSize4K)
  let s := { s.setCap node (cap + i) with valid := Function.update s.valid node true }
  if device then s
  else { (s.push pageList node).log (.added node) with n4kUntyped := s.n4kUntyped + 1 }

def utAddUntypedRange (s : UtState) (paddr cap n : Nat) (device : Bool) : UtState :=
  (List.range n).foldl (utAddUntyped paddr cap device) s

/-- The physical address, which the source returns through a pointer, is left out. -/
def utAlloc4kUntyped (s : UtState) : Nat × UtState :=
  if s.lists.head pageList = 0 then (0, s) else s.pop pageList

def utFree (s : UtState) (node sizeBits : Nat) : UtState :=
  if sizeBits < endpointBits ∨ sizeBits > pageBits then s
  else s.push (.freeUntypeds (sizeBitsToIndex sizeBits)) node

/-- Pages that the cspace allocates for itself.  Those that it finds no use for it frees. -/
def takePages : List Bool → UtState → UtState
  | [], s => s
  | keep :: rest, s =>
      match utAlloc4kUntyped s with
      | (node, s) =>
          if node = 0 then s
          else if keep then takePages rest (s.log (.kept node))
          else utFree (takePages rest s) node pageBits

def meanwhile (m : Machine) (s : UtState) : UtState :=
  { takePages (m.pages s.time) s with
    nextFreeVaddr := s.nextFreeVaddr + m.maps s.time * pageSize4K
    time := s.time + 1 }

/-- The cspace hands out a slot that is not in use, if it hands out one. -/
def cspaceAllocSlot (m : Machine) (s : UtState) : Nat × UtState :=
  let cptr := m.slot s.time
  let s := meanwhile m s
  if cptr = 0 ∨ s.slots cptr then (0, s)
  else (cptr, { s with slots := Function.update s.slots cptr true })

def cspaceFreeSlot (s : UtState) (cptr : Nat) : UtState :=
  { s with slots := Function.update s.slots cptr false }

def cspaceDelete (s : UtState) (cptr : Nat) : UtState :=
  { s with caps := seL4CNodeDelete s.caps cptr }

/-- `true` is `seL4_NoError`. -/
def cspaceUntypedRetype (m : Machine) (s : UtState) (ut target : Nat) (type : ObjectType)
    (sizeBits : Nat) : Bool × UtState :=
  match seL4UntypedRetype s.caps ut target type sizeBits with
  | some caps =>
      if m.retypeOk s.time then (true, { s with caps := caps, time := s.time + 1 })
      else (false, { s with time := s.time + 1 })
  | none => (false, { s with time := s.time + 1 })

/-- The page tables that the mapping needs are allocated as the cspace's pages are. -/
def bootstrapMapFrame (m : Machine) (s : UtState) (_cap : Nat) : Nat × UtState :=
  let ok := m.mapOk s.time
  let s := meanwhile m s
  if ok then (s.nextFreeVaddr, { s with nextFreeVaddr := s.nextFreeVaddr + pageSize4K })
  else (0, s)

/-- The part of `ensure_new_structures` that makes structures out of a page. -/
def structuresFrom (m : Machine) (s : UtState) (frame : Nat) : Bool × UtState :=
  match cspaceAllocSlot m s with
  | (cptr, s) =>
    if cptr = 0 then (false, s) else
    match cspaceUntypedRetype m s (s.cap frame) cptr .smallPage pageBits with
    | (false, s) => (false, s)
    | (true, s) =>
      match bootstrapMapFrame m s cptr with
      | (newUts, s) =>
        if newUts = 0 then (false, s) else
        (true, (List.range (pageSize4K / sizeofUt)).foldl
          (fun s i => s.push .freeStructures (newUts + i * sizeofUt)) (s.log (.kept frame)))

def ensureNewStructures (m : Machine) (s : UtState) : Bool × UtState :=
  if s.lists.head .freeStructures = 0 ∨ s.lists.next (s.lists.head .freeStructures) = 0 then
    match utAlloc4kUntyped s with
    | (frame, s) => if frame = 0 then (false, s) else structuresFrom m s frame
  else (true, s)

/-- `pop(&table.free_structures)` and the slot that is allocated for it. -/
def newStructure (m : Machine) (s : UtState) : Nat × UtState :=
  match s.pop .freeStructures with
  | (node, s) =>
    match cspaceAllocSlot m s with
    | (cptr, s) => (node, s.setCap node cptr)

/-- The two retypes of `ut_alloc`, up to its exits. -/
def retypeBoth (m : Machine) (s : UtState) (larger new1 new2 sizeBits : Nat) : Bool × UtState :=
  match cspaceUntypedRetype m s (s.cap larger) (s.cap new1) .untyped sizeBits with
  | (false, s) =>
      (false, (cspaceFreeSlot (cspaceFreeSlot s (s.cap new1)) (s.cap new2)).push
        .freeStructures new1)
  | (true, s) =>
      match cspaceUntypedRetype m s (s.cap larger) (s.cap new2) .untyped sizeBits with
      | (false, s) =>
          let s := cspaceDelete s (s.cap new1)
          let s := cspaceFreeSlot (cspaceFreeSlot s (s.cap new1)) (s.cap new2)
          (false, (s.push .freeStructures new1).push .freeStructures new2)
      | (true, s) =>
          let list := .freeUntypeds (sizeBitsToIndex sizeBits)
          (true, ((s.push list new1).push list new2).log (.split larger new1 new2 sizeBits))

/-- The part of `ut_alloc` that makes two untypeds out of a larger one, up to its exits. -/
def split (m : Machine) (s : UtState) (larger sizeBits : Nat) : Bool × UtState :=
  match ensureNewStructures m s with
  | (false, s) => (false, s)
  | (true, s) =>
    match newStructure m s with
    | (new1, s) =>
      if s.cap new1 = 0 then (false, s) else
      match newStructure m s with
      | (new2, s) =>
        if s.cap new2 = 0 then (false, cspaceFreeSlot s (s.cap new1))
        else retypeBoth m s larger new1 new2 sizeBits

/-- `ut_alloc` of the size `depth` below that of a page. -/
def utAllocBelow (m : Machine) : Nat → UtState → Nat × UtState
  | 0, s => utAlloc4kUntyped s
  | depth + 1, s =>
      let sizeBits := pageBits - (depth + 1)
      let list := .freeUntypeds (sizeBitsToIndex sizeBits)
      if s.lists.head list = 0 then
        match utAllocBelow m depth s with
        | (larger, s) =>
          if larger = 0 then (0, s) else
          match split m s larger sizeBits with
          | (false, s) => (0, utFree s larger pageBits)
          | (true, s) => s.pop list
      else s.pop list

def utAlloc (m : Machine) (s : UtState) (sizeBits : Nat) : Nat × UtState :=
  if sizeBits > pageBits then (0, s)
  else if sizeBits < endpointBits then (0, s)
  else utAllocBelow m (pageBits - sizeBits) s

end SpaghettiOS.Ut
