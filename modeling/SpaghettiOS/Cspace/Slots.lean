import SpaghettiOS.Cspace.Bitfield
import SpaghettiOS.Lib.Coro

/-!
# Capability slots

A cspace has one level, with a bit for each slot, or two: then each bit of the upper field
stands for a cnode of 128 slots, and is set when that cnode is full.  A node for 169 cnodes is
made when it is first needed, through slots that were set aside for that (the watermark).

Memory, seL4 and the cspace that a new one is made from answer requests.
-/

namespace SpaghettiOS.Cspace

def cnodeSizeBits : Nat := 12

def cnodeSlotBits (x : Nat) : Nat := x - 5

def cnodeSlots (x : Nat) : Nat := 2 ^ cnodeSlotBits x

def bitfieldSize (x : Nat) : Nat := cnodeSlots x / wordBits

def botLvlPerNode : Nat := (4096 - 8 * 3) / 24

def mappingSlots : Nat := 3

def watermarkSlots : Nat := mappingSlots + 1

def nodeIndex (cptr : Nat) : Nat := cptr / cnodeSlots cnodeSizeBits / botLvlPerNode

def cnodeIndex (cptr : Nat) : Nat := cptr / cnodeSlots cnodeSizeBits % botLvlPerNode

def topLvlIndex (cptr : Nat) : Nat := cptr >>> cnodeSlotBits cnodeSizeBits

def botLvlIndex (cptr : Nat) : Nat := cptr &&& (2 ^ cnodeSlotBits cnodeSizeBits - 1)

/-! ## State -/

/-- How many cnodes the node has, and the field of each. -/
structure BotLvlNode where
  nCnodes : Nat
  bf : Nat → List Word

structure CsState where
  rootCnode : Nat
  twoLevel : Bool
  topLvlSizeBits : Nat
  topBf : List Word
  botLvlNodes : Nat → BotLvlNode
  nBotLvlNodes : Nat
  watermark : Nat → Nat

inductive Fault where
  /-- `bf_first_free` reads beyond a field in which every bit is set -/
  | fieldFull
  /-- an assertion fails -/
  | assertion
  /-- allocations of slots for the watermark are nested too deeply -/
  | tooDeep
deriving DecidableEq, Repr

/-- What is asked of the outside: memory (`calloc`, 4K untypeds), seL4 and, for a new cspace,
the one that it is made from. -/
inductive Request where
  | calloc
  | alloc4kUntyped
  | retype
  | mapFrame
  | bootstrapSlot
  | mint
  | move
deriving DecidableEq, Repr

/-- Whether it could be done, the slot that was found and the slots that a mapping has used. -/
structure Reply where
  ok : Bool
  slot : Nat
  used : Word

abbrev CsM := Coro CsState Request Reply Fault

/-- The outside answers as it likes and leaves the cspace alone. -/
def Outside (_ : Request) (_ : Reply) (s t : CsState) : Prop := t = s

def CsState.setField (cs : CsState) (node cnode : Nat) (bf : List Word) : CsState :=
  let fields := Function.update (cs.botLvlNodes node).bf cnode bf
  { cs with
    botLvlNodes := Function.update cs.botLvlNodes node ⟨(cs.botLvlNodes node).nCnodes, fields⟩ }

def CsState.initBotLvlNode (cs : CsState) (node : Nat) : CsState :=
  { cs with
    nBotLvlNodes := cs.nBotLvlNodes + 1
    botLvlNodes := Function.update cs.botLvlNodes node
      ⟨0, fun _ => List.replicate (bitfieldSize cnodeSizeBits) 0⟩ }

def CsState.addCnode (cs : CsState) (node : Nat) : CsState :=
  { cs with
    botLvlNodes := Function.update cs.botLvlNodes node
      ⟨(cs.botLvlNodes node).nCnodes + 1, (cs.botLvlNodes node).bf⟩ }

/-! ## The functions of `cspace.c` -/

/-- `retype_helper`, whether it could be done. -/
def retypeHelper : CsM Bool := do
  let untyped ← Coro.yield .alloc4kUntyped
  if untyped.ok then
    let err ← Coro.yield .retype
    pure err.ok
  else pure false

/-- The part of `ensure_levels` that makes a node.  `used` are the slots of the watermark that
have been used. -/
def addNode (node : Nat) (used : Word) : CsM (Bool × Word) := do
  let used := used ||| bit mappingSlots
  let untyped ← retypeHelper
  if untyped then
    let vaddr ← Coro.yield .mapFrame
    let used := used ||| vaddr.used
    if vaddr.ok then
      modify fun cs => cs.initBotLvlNode node
      pure (true, used)
    else pure (false, used &&& ~~~ bit mappingSlots)
  else pure (false, used)

/-- The part of `ensure_levels` that makes a cnode. -/
def addCnode (node : Nat) : CsM Bool := do
  let ok ← retypeHelper
  if ok then
    modify fun cs => cs.addCnode node
    pure true
  else pure false

def ensureNode (node : Nat) (used : Word) : CsM (Bool × Word) := do
  let cs ← get
  if cs.nBotLvlNodes ≤ node then addNode node used else pure (true, used)

def ensureCnode (node cnode : Nat) : CsM Bool := do
  let cs ← get
  Coro.check (node < cs.nBotLvlNodes) .assertion
  if (cs.botLvlNodes node).nCnodes ≤ cnode then addCnode node else pure true

def ensureLevels (cptr : Nat) (used : Word) : CsM (Bool × Word) := do
  let cs ← get
  if cs.twoLevel then
    let cspaceSize := 2 ^ (cnodeSlotBits cs.topLvlSizeBits + cnodeSlotBits cnodeSizeBits)
    if nodeIndex cptr ≥ (cspaceSize + (botLvlPerNode - 1)) / botLvlPerNode then pure (false, used)
    else
      let r ← ensureNode (nodeIndex cptr) used
      if r.1 then
        let ok ← ensureCnode (nodeIndex cptr) (cnodeIndex cptr)
        pure (ok, r.2)
      else pure (false, r.2)
  else pure (true, used)

/-- Only the first slot that was used is replaced. -/
def refillWatermark (allocSlot : CsM Nat) (used : Word) : CsM Unit :=
  match (List.range watermarkSlots).find? used.getLsbD with
  | some i => do
      let cptr ← allocSlot
      modify fun cs => { cs with watermark := Function.update cs.watermark i cptr }
  | none => pure ⟨⟩

/-- The part of `cspace_alloc_slot` that takes a slot of a cnode that is there. -/
def takeSlot (allocSlot : CsM Nat) (topIndex : Nat) (used : Word) : CsM Nat := do
  let cptr := topIndex <<< cnodeSlotBits cnodeSizeBits
  let cs ← get
  let bf := (cs.botLvlNodes (nodeIndex cptr)).bf (cnodeIndex cptr)
  let botIndex ← Coro.ofOption .fieldFull (bfFirstFree bf)
  let bf := bfSetBit bf botIndex
  modify fun cs => cs.setField (nodeIndex cptr) (cnodeIndex cptr) bf
  let next ← Coro.ofOption .fieldFull (bfFirstFree bf)
  if next ≥ cnodeSlots cnodeSizeBits - 1 then
    modify fun cs => { cs with topBf := bfSetBit cs.topBf topIndex }
  refillWatermark allocSlot used
  pure (cptr + botIndex)

/-- `cspace_alloc_slot`.  The depth bounds the allocations that the watermark makes. -/
def allocSlotBelow : Nat → CsM Nat
  | 0 => Coro.abort .tooDeep
  | depth + 1 => do
      let cs ← get
      let topIndex ← Coro.ofOption .fieldFull (bfFirstFree cs.topBf)
      if (cs.twoLevel ∧ topIndex > cnodeSlots cs.topLvlSizeBits) ∨
          topIndex ≥ cnodeSlots cs.topLvlSizeBits then pure 0
      else if cs.twoLevel then
        let cptr := topIndex <<< cnodeSlotBits cnodeSizeBits
        if cs.nBotLvlNodes ≤ nodeIndex cptr ∨
            (cs.botLvlNodes (nodeIndex cptr)).nCnodes ≤ cnodeIndex cptr then
          let r ← ensureLevels cptr 0
          if r.1 then takeSlot (allocSlotBelow depth) topIndex r.2
          else pure 0
        else takeSlot (allocSlotBelow depth) topIndex 0
      else
        modify fun cs => { cs with topBf := bfSetBit cs.topBf topIndex }
        pure topIndex

/-- The slot that the watermark gets is in the cnode of the one before, so that nothing is
nested deeper than this. -/
def cspaceAllocSlot : CsM Nat := allocSlotBelow 2

def cspaceFreeSlot (cs : CsState) (cptr : Nat) : CsState :=
  if cptr = 0 then cs
  else if cs.twoLevel then
    let cs := { cs with topBf := bfClrBit cs.topBf (topLvlIndex cptr) }
    let node := nodeIndex cptr
    if cs.nBotLvlNodes > node ∧ (cs.botLvlNodes node).nCnodes > cnodeIndex cptr then
      cs.setField node (cnodeIndex cptr)
        (bfClrBit ((cs.botLvlNodes node).bf (cnodeIndex cptr)) (botLvlIndex cptr))
    else cs
  else if cptr > cnodeSlots cs.topLvlSizeBits then cs
  else { cs with topBf := bfClrBit cs.topBf cptr }

/-- What `memset` and the first assignments of `cspace_create` make of a cspace. -/
def CsState.blank (twoLevel : Bool) : CsState where
  rootCnode := 0
  twoLevel := twoLevel
  topLvlSizeBits := cnodeSizeBits
  topBf := []
  botLvlNodes _ := ⟨0, fun _ => []⟩
  nBotLvlNodes := 0
  watermark _ := 0

/-- The first node of a new cspace, in a frame that the other cspace maps. -/
def firstNode : CsM Bool := do
  let slot ← Coro.yield .bootstrapSlot
  if slot.ok then
    let untyped ← retypeHelper
    if untyped then
      let vaddr ← Coro.yield .mapFrame
      if vaddr.ok then
        modify fun cs => cs.initBotLvlNode 0
        pure true
      else pure false
    else pure false
  else pure false

def createNodes (twoLevel : Bool) : CsM Bool :=
  if twoLevel then firstNode else pure true

def callocNodes (twoLevel : Bool) : CsM Bool :=
  if twoLevel then do
    let nodes ← Coro.yield .calloc
    pure nodes.ok
  else pure true

/-- The part of `cspace_create` that makes the root cnode.  Whether there was a slot for it is
tested on the cspace it is made from, which has had its root cnode for long. -/
def createRoot (bootstrapRoot : Nat) : CsM Bool := do
  let tmp ← Coro.yield .bootstrapSlot
  if tmp.ok then
    let untyped ← retypeHelper
    if untyped then
      let root ← Coro.yield .bootstrapSlot
      modify fun cs => { cs with rootCnode := root.slot }
      if bootstrapRoot = 0 then pure false
      else
        let err ← Coro.yield .mint
        pure err.ok
    else pure false
  else pure false

/-- The part of `cspace_create` that takes the first slots of a cspace that has its levels. -/
def firstSlots : CsM Unit := do
  let null ← cspaceAllocSlot
  Coro.check (null = 0) .assertion
  let cs ← get
  if cs.twoLevel then
    refillWatermark cspaceAllocSlot (BitVec.ofNat 64 (2 ^ watermarkSlots - 1))
    let slot ← cspaceAllocSlot
    Coro.check (slot ≠ 0) .assertion
    let err ← Coro.yield .move
    Coro.check (err.ok = true) .assertion
  else pure ⟨⟩

/-- `true` is `CSPACE_NOERROR`; otherwise the new cspace has been destroyed. -/
def cspaceCreate (bootstrapRoot : Nat) (twoLevel : Bool) : CsM Bool := do
  set (CsState.blank twoLevel)
  let topBf ← Coro.yield .calloc
  if topBf.ok then
    modify fun cs => { cs with topBf := List.replicate (bitfieldSize cs.topLvlSizeBits) 0 }
    let nodes ← callocNodes twoLevel
    if nodes then
      let root ← createRoot bootstrapRoot
      if root then
        let node ← createNodes twoLevel
        if node then
          firstSlots
          pure true
        else pure false
      else pure false
    else pure false
  else pure false

end SpaghettiOS.Cspace
