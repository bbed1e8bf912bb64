import Mathlib.Data.Option.Basic
import SpaghettiOS.Cspace.Watermark

/-!
# Bootstrapping

`sos_bootstrap` uses slots before there is bookkeeping to allocate them from, and records
them afterwards.  The loop that fills the field of a full cnode has a counter of the same name
as the loop around it, so that it is the field of the first cnode of the node that is filled,
each time.
-/

namespace SpaghettiOS.Cspace

open Coro (bind_apply get_apply modify_apply pure_apply)
open Coroutine (Res Exec)
open Function (update)

/-! ## The slots that are used -/

def initialTaskCnodeSizeBits : Nat := 18

def pageBits : Nat := 12

def pageTableIndexBits : Nat := 9

def dmaSizeBits : Nat := 21

def maxUntypedBits : Nat := 47

def capInitThreadCNode : Nat := 2

/-- What is read of the boot info: the first slot that is empty, the number of pages of the
table of untypeds (`ut_pages_for_region`), and the size of each untyped. -/
structure BootInfo where
  emptyStart : Nat
  utPages : Nat
  untypeds : List Nat

def BootInfo.calculateUtCaps (bi : BootInfo) (sizeBits : Nat) : Nat :=
  ((bi.untypeds.filter (sizeBits ≤ ·)).map fun bits => 2 ^ (bits - sizeBits)).sum

def BootInfo.availBytes (bi : BootInfo) : List Nat := bi.untypeds.map (2 ^ ·)

/-- The first untyped that has the bytes loses them. -/
def takeBytes (bytes : Nat) : List Nat → Option (List Nat)
  | [] => none
  | avail :: rest =>
      if bytes ≤ avail then some ((avail - bytes) :: rest)
      else (takeBytes bytes rest).map (avail :: ·)

def stealUntyped (sizeBits : Nat) (avail : List Nat) : Option (List Nat) :=
  if pageBits ≤ sizeBits ∧ sizeBits ≤ maxUntypedBits then takeBytes (2 ^ sizeBits) avail else none

def BootInfo.nPts (bi : BootInfo) : Nat := (bi.utPages >>> pageTableIndexBits) + 1

def BootInfo.nSlots (bi : BootInfo) : Nat :=
  bi.emptyStart - 1 + bi.utPages + bi.nPts + 2 + 1 + bi.calculateUtCaps pageBits
    - 2 ^ (dmaSizeBits - pageBits)

def BootInfo.nCnodes (bi : BootInfo) : Nat := bi.nSlots / cnodeSlots cnodeSizeBits + 2

/-- `size`, the memory that is stolen first. -/
def BootInfo.size (bi : BootInfo) : Nat :=
  bi.utPages * 2 ^ pageBits + bi.nPts * 2 ^ 12 + 2 ^ 12 + 2 ^ 12
    + bi.nCnodes * 2 ^ cnodeSizeBits + 2 ^ initialTaskCnodeSizeBits

/-- `first_free_slot` when all the untypeds have been retyped: there were the slots of the boot
info, two paging structures, the page tables and pages of the table, DMA memory and what is
left of each untyped in pages. -/
def BootInfo.usedSlots (bi : BootInfo) : Option Nat := do
  guard (bi.nCnodes ≤ cnodeSlots initialTaskCnodeSizeBits)
  let avail ← stealUntyped (bi.size.log2 + 1) bi.availBytes
  let avail ← stealUntyped dmaSizeBits avail
  pure (bi.emptyStart + 1 + 1 + bi.nPts + bi.utPages + 1 + (avail.map (· / 2 ^ pageBits)).sum)

def nBotLvl (usedSlots nCnodes : Nat) : Nat :=
  max (usedSlots / cnodeSlots cnodeSizeBits + 1) nCnodes / botLvlPerNode + 1

def firstFreeSlot (usedSlots nCnodes : Nat) : Nat := usedSlots + nBotLvl usedSlots nCnodes

/-! ### There are enough cnodes -/

variable {avail avail' : List Nat} {bi : BootInfo} {used k nodes f : Nat}

lemma takeBytes_pages {bytes : Nat} (hdvd : 2 ^ pageBits ∣ bytes)
    (h : takeBytes bytes avail = some avail') : (avail.map (· / 2 ^ pageBits)).sum =
      (avail'.map (· / 2 ^ pageBits)).sum + bytes / 2 ^ pageBits := by
  induction avail generalizing avail' with
  | nil => cases h
  | cons a rest ih =>
    unfold takeBytes at h
    split at h
    · rename_i hle
      cases h
      simp only [List.map_cons, List.sum_cons]
      obtain ⟨k, rfl⟩ := hdvd
      have hpos : 0 < 2 ^ pageBits := Nat.two_pow_pos _
      have hk : k ≤ a / 2 ^ pageBits := (Nat.le_div_iff_mul_le hpos).mpr (by rwa [Nat.mul_comm])
      rw [Nat.sub_mul_div, Nat.mul_div_cancel_left k hpos]
      omega
    · obtain ⟨rest', hrest, rfl⟩ := Option.map_eq_some_iff.mp h
      simp only [List.map_cons, List.sum_cons, ih hrest]
      omega

lemma stealUntyped_pages {sizeBits : Nat}
    (h : stealUntyped sizeBits avail = some avail') : (avail.map (· / 2 ^ pageBits)).sum =
      (avail'.map (· / 2 ^ pageBits)).sum + 2 ^ (sizeBits - pageBits) := by
  unfold stealUntyped at h
  split at h
  · rename_i hbits
    rw [takeBytes_pages (Nat.pow_dvd_pow 2 hbits.1) h, Nat.pow_div hbits.1 (by decide)]
  · cases h

lemma BootInfo.calculateUtCaps_eq (bi : BootInfo) :
    bi.calculateUtCaps pageBits = (bi.availBytes.map (· / 2 ^ pageBits)).sum := by
  unfold BootInfo.calculateUtCaps BootInfo.availBytes
  induction bi.untypeds with
  | nil => rfl
  | cons bits rest ih =>
    simp only [List.map_cons, List.sum_cons, ← ih]
    by_cases hle : pageBits ≤ bits
    · rw [List.filter_cons_of_pos (by simpa using hle), List.map_cons, List.sum_cons,
        Nat.pow_div hle (by decide)]
    · have hzero : 2 ^ bits / 2 ^ pageBits = 0 :=
        Nat.div_eq_of_lt (Nat.pow_lt_pow_right (by decide) (by omega))
      rw [List.filter_cons_of_neg (by simpa using hle), hzero, Nat.zero_add]

lemma BootInfo.usedSlots_le (h : bi.usedSlots = some used) :
    used ≤ bi.nSlots ∧ bi.nCnodes ≤ cnodeSlots initialTaskCnodeSizeBits := by
  unfold BootInfo.usedSlots at h
  obtain ⟨_, hguard, h⟩ := Option.bind_eq_some_iff.mp h
  obtain ⟨avail₁, hfirst, h⟩ := Option.bind_eq_some_iff.mp h
  obtain ⟨avail₂, hdma, h⟩ := Option.bind_eq_some_iff.mp h
  have hcount := stealUntyped_pages hfirst
  rw [← bi.calculateUtCaps_eq, stealUntyped_pages hdma] at hcount
  have hone : 1 ≤ 2 ^ (bi.size.log2 + 1 - pageBits) := Nat.one_le_two_pow
  refine ⟨?_, ?_⟩
  · cases h
    unfold BootInfo.nSlots
    omega
  · by_contra hgt
    simp [hgt] at hguard

lemma BootInfo.firstFreeSlot_lt (h : bi.usedSlots = some used) :
    firstFreeSlot used bi.nCnodes < bi.nCnodes * 128 ∧
      nBotLvl used bi.nCnodes = bi.nCnodes / botLvlPerNode + 1 := by
  obtain ⟨hused, hcnodes⟩ := usedSlots_le h
  have hslots : cnodeSlots initialTaskCnodeSizeBits = 8192 := rfl
  have hn : bi.nCnodes = bi.nSlots / 128 + 2 := rfl
  have hmax : max (used / cnodeSlots cnodeSizeBits + 1) bi.nCnodes = bi.nCnodes := by
    rw [cnodeSlots_cnodeSizeBits]
    omega
  have hnodes : nBotLvl used bi.nCnodes = bi.nCnodes / botLvlPerNode + 1 := by
    rw [nBotLvl, hmax]
  refine ⟨?_, hnodes⟩
  rw [firstFreeSlot, hnodes]
  rw [botLvlPerNode_eq]
  omega

/-! ## The bookkeeping -/

/-- The cspace that is finished by hand, with its nodes. -/
def bootCspace (nodes : Nat) : CsState :=
  (List.range nodes).foldl CsState.initBotLvlNode
    { rootCnode := capInitThreadCNode
      twoLevel := true
      topLvlSizeBits := initialTaskCnodeSizeBits
      topBf := List.replicate (bitfieldSize initialTaskCnodeSizeBits) 0
      botLvlNodes := fun _ => ⟨0, fun _ => []⟩
      nBotLvlNodes := 0
      watermark := fun _ => 0 }

def CsState.setWord (cs : CsState) (node cnode i : Nat) (w : Word) : CsState :=
  cs.setField node cnode (((cs.botLvlNodes node).bf cnode).set i w)

/-- The inner loop.  Its counter is the only one that it knows. -/
def fillField (node : Nat) (cs : CsState) : CsState :=
  (List.range (cnodeSlots cnodeSizeBits / wordBits)).foldl
    (fun cs i => cs.setWord node (cnodeIndex i) i (BitVec.allOnes 64)) cs

/-- A cnode that is full, with its first slot. -/
def recordFull (i : Nat) : CsM Unit := do
  let cs ← get
  Coro.check (nodeIndex i < cs.nBotLvlNodes) .assertion
  modify fun cs => cs.addCnode (nodeIndex i)
  modify (fillField (nodeIndex i))
  modify fun cs => { cs with topBf := bfSetBit cs.topBf (topLvlIndex i) }

/-- `ALIGN_DOWN`, to a power of two. -/
def alignDown (x n : Nat) : Nat := x / n * n

def recordPartial (firstFree : Nat) (cs : CsState) : CsState :=
  let start := alignDown firstFree (cnodeSlots cnodeSizeBits)
  let node := firstFree / cnodeSlots cnodeSizeBits / botLvlPerNode
  (List.range' start (firstFree - start)).foldl
    (fun cs i => cs.setField node (cnodeIndex i)
      (bfSetBit ((cs.botLvlNodes node).bf (cnodeIndex i)) (botLvlIndex i)))
    (cs.addCnode node)

def recordExtra (firstFree nCnodes : Nat) (cs : CsState) : CsState :=
  let start := firstFree / cnodeSlots cnodeSizeBits + 1
  (List.range' start (nCnodes - start)).foldl (fun cs i => cs.addCnode (i / botLvlPerNode)) cs

def recordUsed (firstFree nCnodes : Nat) : CsM Unit := do
  let slots := cnodeSlots cnodeSizeBits
  (List.range' 0 (alignDown firstFree slots / slots) slots).forM recordFull
  modify (recordPartial firstFree)
  modify (recordExtra firstFree nCnodes)

def allocWatermarkSlot (i : Nat) : CsM Unit := do
  let cptr ← cspaceAllocSlot
  modify fun cs => { cs with watermark := update cs.watermark i cptr }
  Coro.check (cptr ≠ 0) .assertion

def allocWatermark : CsM Unit := (List.range watermarkSlots).forM allocWatermarkSlot

/-! ### What the loops leave behind -/

lemma bootCspace_succ (nodes : Nat) :
    bootCspace (nodes + 1) = (bootCspace nodes).initBotLvlNode nodes := by
  unfold bootCspace
  rw [List.range_succ, List.foldl_append]
  rfl

/-- The state when the first `k` cnodes have been recorded as full. -/
structure RecordedFull (cs : CsState) (k nodes : Nat) : Prop where
  levels : Levels cs k
  count : cs.nBotLvlNodes = nodes
  size : cs.topLvlSizeBits = initialTaskCnodeSizeBits
  field : ∀ t < botLvlPerNode * nodes, ∀ b,
    (bfGetBit (cs.field t) b = true ↔ t % botLvlPerNode = 0 ∧ t < k ∧ b < 128)
  top : ∀ t, bfGetBit cs.topBf t = true ↔ t < k

lemma bootCspace_recorded (nodes : Nat) : RecordedFull (bootCspace nodes) 0 nodes := by
  have hstate : (bootCspace nodes).twoLevel = true ∧
      (bootCspace nodes).topLvlSizeBits = initialTaskCnodeSizeBits ∧
      (bootCspace nodes).topBf = List.replicate (bitfieldSize initialTaskCnodeSizeBits) 0 ∧
      (bootCspace nodes).nBotLvlNodes = nodes ∧
      ∀ j < nodes, (bootCspace nodes).botLvlNodes j = ⟨0, fun _ => List.replicate 2 0⟩ := by
    induction nodes with
    | zero => exact ⟨rfl, rfl, rfl, rfl, fun j hj => absurd hj (Nat.not_lt_zero j)⟩
    | succ nodes ih =>
      obtain ⟨hlevel, hsize, htop, hcount, hnode⟩ := ih
      rw [bootCspace_succ]
      refine ⟨hlevel, hsize, htop, congrArg (· + 1) hcount, fun j hj => ?_⟩
      show update (bootCspace nodes).botLvlNodes nodes _ j = _
      by_cases hj' : j = nodes
      · rw [hj', Function.update_self]
        rfl
      · rw [Function.update_of_ne hj', hnode j (by omega)]
  obtain ⟨hlevel, hsize, htop, hcount, hnode⟩ := hstate
  have hfield : ∀ t < botLvlPerNode * nodes, (bootCspace nodes).field t = List.replicate 2 0 := by
    intro t ht
    rw [CsState.field, hnode _ (by rw [botLvlPerNode_eq] at ht ⊢; omega)]
  have hzero : ∀ t, bfGetBit (bootCspace nodes).topBf t = false := fun t => by
    rw [htop]
    exact bfGetBit_replicate _ t
  refine ⟨⟨hlevel, by rw [htop, hsize, List.length_replicate]; rfl, fun j hj => ?_,
    Nat.zero_le _, fun t ht => ?_, fun t _ ht b => ?_, fun t _ hset => ?_⟩, hcount, hsize,
    fun t ht b => ?_, fun t => ?_⟩
  · rw [hnode j (hcount ▸ hj), Nat.zero_sub, Nat.min_zero]
  · rw [hfield t (hcount ▸ ht)]
    rfl
  · rw [hfield t (hcount ▸ ht)]
    exact bfGetBit_replicate 2 b
  · rw [hzero] at hset
    cases hset
  · rw [hfield t ht, bfGetBit_replicate]
    simp
  · rw [hzero]
    simp

lemma setField_setField (cs : CsState) (node cnode : Nat) (bf bf' : List Word) :
    (cs.setField node cnode bf).setField node cnode bf' = cs.setField node cnode bf' := by
  unfold CsState.setField
  simp only [Function.update_self, Function.update_idem]

lemma bfGetBit_allOnes (words n : Nat) :
    bfGetBit (List.replicate words (BitVec.allOnes 64)) n = true ↔ n < words * wordBits := by
  have hmod : n % wordBits < 64 := Nat.mod_lt n (by decide)
  rw [← Nat.div_lt_iff_lt_mul (by decide), bfGetBit_eq, List.getD_eq_getElem?_getD,
    List.getElem?_replicate]
  split
  · rename_i hlt
    rw [Option.getD_some, BitVec.getLsbD_allOnes]
    exact iff_of_true (decide_eq_true hmod) hlt
  · rename_i hge
    exact iff_of_false (by simp) hge

lemma fillField_eq {cs : CsState} {node : Nat} (hlen : ((cs.botLvlNodes node).bf 0).length = 2) :
    fillField node cs =
      cs.setFieldOf (botLvlPerNode * node) (List.replicate 2 (BitVec.allOnes 64)) := by
  have hdiv : botLvlPerNode * node / botLvlPerNode = node := by
    rw [botLvlPerNode_eq]
    omega
  obtain ⟨w, w', hbf⟩ := List.length_eq_two.mp hlen
  have hread : ∀ bf, ((cs.setField node 0 bf).botLvlNodes node).bf 0 = bf := fun bf => by
    unfold CsState.setField
    simp only [Function.update_self]
  rw [CsState.setFieldOf, hdiv, Nat.mul_mod_right]
  show ((cs.setWord node 0 0 (BitVec.allOnes 64)).setWord node 0 1 (BitVec.allOnes 64)) = _
  unfold CsState.setWord
  rw [hread, setField_setField, hbf]
  rfl

lemma RecordedFull.step {cs : CsState} (h : RecordedFull cs k nodes)
    (hroom : k < botLvlPerNode * nodes) (hk : k < cnodeSlots initialTaskCnodeSizeBits) :
    ∃ cs', recordFull (k * 128) cs = .done ⟨⟩ cs' ∧ RecordedFull cs' (k + 1) nodes := by
  have hroom' : k < botLvlPerNode * cs.nBotLvlNodes := by rwa [h.count]
  have hnode : k / botLvlPerNode < cs.nBotLvlNodes := by
    rw [botLvlPerNode_eq] at hroom' ⊢
    omega
  have hfirst : botLvlPerNode * (k / botLvlPerNode) < k + 1 := by
    rw [botLvlPerNode_eq]
    omega
  have htop : k < cs.topBf.length * wordBits := by rwa [h.levels.size, h.size]
  have hadded := h.levels.addCnode hroom'
  have hlen : (((cs.addCnode (k / botLvlPerNode)).botLvlNodes (k / botLvlPerNode)).bf 0).length
      = 2 := by
    have hfield := hadded.length (botLvlPerNode * (k / botLvlPerNode))
      (Nat.lt_of_lt_of_le hfirst hadded.room)
    rwa [CsState.field, Nat.mul_mod_right, Nat.mul_div_cancel_left _ (by decide)] at hfield
  have hfill := fillField_eq hlen
  refine ⟨{ fillField (k / botLvlPerNode) (cs.addCnode (k / botLvlPerNode)) with
      topBf := bfSetBit cs.topBf k }, ?_, ?_⟩
  · unfold recordFull
    simp only [nodeIndex_mul, topLvlIndex_eq, bind_apply, get_apply, modify_apply,
      pure_apply, Coro.check, if_pos hnode, Res.bind, Nat.mul_div_cancel k (show 0 < 128 by decide)]
    rw [hfill]
    rfl
  · rw [hfill]
    refine ⟨(hadded.setFieldOf hfirst rfl).setTop (Nat.lt_succ_self k), h.count, h.size,
      fun t ht b => ?_, fun t => ?_⟩
    · show bfGetBit (((cs.addCnode (k / botLvlPerNode)).setFieldOf
        (botLvlPerNode * (k / botLvlPerNode)) _).field t) b = true ↔ _
      rw [field_setFieldOf, field_addCnode]
      split
      · rename_i heq
        rw [bfGetBit_allOnes, heq, Nat.mul_mod_right]
        exact ⟨fun hb => ⟨rfl, hfirst, hb⟩, fun hb => hb.2.2⟩
      · rename_i hne
        rw [h.field t ht b]
        refine and_congr_right fun hmod => and_congr_left fun _ => ?_
        rw [botLvlPerNode_eq] at hmod hne
        omega
    · show bfGetBit (bfSetBit cs.topBf k) t = true ↔ _
      rw [bfGetBit_set htop, Bool.or_eq_true, h.top, decide_eq_true_eq]
      omega

lemma RecordedFull.loop {cs : CsState} (h : RecordedFull cs k nodes) (m : Nat)
    (hroom : k + m ≤ botLvlPerNode * nodes) (hm : k + m ≤ cnodeSlots initialTaskCnodeSizeBits) :
    ∃ cs', (List.range' (k * 128) m 128).forM recordFull cs = .done ⟨⟩ cs' ∧
      RecordedFull cs' (k + m) nodes := by
  induction m generalizing cs k with
  | zero => exact ⟨cs, rfl, h⟩
  | succ m ih =>
    obtain ⟨cs1, hrun, h1⟩ := h.step (by omega) (by omega)
    obtain ⟨cs2, hloop, h2⟩ := ih h1 (by omega) (by omega)
    refine ⟨cs2, ?_, by rwa [show k + 1 + m = k + (m + 1) by omega] at h2⟩
    rw [List.range'_succ]
    show (recordFull (k * 128) cs).bind (fun _ => (List.range' (k * 128 + 128) m 128).forM
      recordFull) = _
    rw [hrun, show k * 128 + 128 = (k + 1) * 128 by omega]
    exact hloop

lemma setFieldOf_self (cs : CsState) (t : Nat) : cs.setFieldOf t (cs.field t) = cs := by
  unfold CsState.setFieldOf CsState.setField CsState.field
  simp only [Function.update_eq_self]

lemma Levels.recordSlots {cs : CsState} {n : Nat} (h : Levels cs n) {t : Nat} (ht : t < n)
    {m : Nat} (hm : m ≤ 128) : ∃ bf, (List.range' (t * 128) m).foldl
        (fun cs i => cs.setField (t / botLvlPerNode) (cnodeIndex i)
          (bfSetBit ((cs.botLvlNodes (t / botLvlPerNode)).bf (cnodeIndex i)) (botLvlIndex i))) cs
        = cs.setFieldOf t bf ∧ bf.length = 2 ∧
      ∀ b, bfGetBit bf b = true ↔ bfGetBit (cs.field t) b = true ∨ b < m := by
  have hlen : (cs.field t).length = 2 := h.length t (Nat.lt_of_lt_of_le ht h.room)
  induction m with
  | zero => exact ⟨cs.field t, (setFieldOf_self cs t).symm, hlen, fun b => by simp⟩
  | succ m ih =>
    obtain ⟨bf, hfold, hbf, hbits⟩ := ih (by omega)
    have hcnode : cnodeIndex (t * 128 + m) = t % botLvlPerNode := by
      rw [cnodeIndex, cnodeSlots_cnodeSizeBits, show (t * 128 + m) / 128 = t by omega]
    have hbit : botLvlIndex (t * 128 + m) = m := by
      rw [botLvlIndex_eq]
      omega
    have hread : ((cs.setFieldOf t bf).botLvlNodes (t / botLvlPerNode)).bf (t % botLvlPerNode)
        = bf := by
      have hfield := field_setFieldOf cs t t bf
      rwa [if_pos rfl] at hfield
    refine ⟨bfSetBit bf m, ?_, by rwa [length_bfSetBit], fun b => ?_⟩
    · rw [List.range'_1_concat, List.foldl_append, hfold]
      simp only [List.foldl_cons, List.foldl_nil, hcnode, hbit, hread]
      exact setField_setField ..
    · rw [bfGetBit_set (by rw [hbf]; unfold wordBits; omega), Bool.or_eq_true, hbits,
        decide_eq_true_eq, or_assoc]
      exact or_congr_right (by omega)

lemma Levels.addCnodes {cs : CsState} {n : Nat} (h : Levels cs n) (m : Nat)
    (hroom : n + m ≤ botLvlPerNode * cs.nBotLvlNodes) :
    Levels ((List.range' n m).foldl (fun cs i => cs.addCnode (i / botLvlPerNode)) cs) (n + m) ∧
      (∀ t, ((List.range' n m).foldl (fun cs i => cs.addCnode (i / botLvlPerNode)) cs).field t
        = cs.field t) ∧
      ((List.range' n m).foldl (fun cs i => cs.addCnode (i / botLvlPerNode)) cs).topBf
        = cs.topBf := by
  induction m generalizing cs n with
  | zero => exact ⟨h, fun _ => rfl, rfl⟩
  | succ m ih =>
    have hnext := h.addCnode (by omega)
    obtain ⟨hlevels, hfield, htop⟩ := ih hnext (by rw [show n + 1 + m = n + (m + 1) by omega]
                                                   exact hroom)
    rw [List.range'_succ, List.foldl_cons]
    refine ⟨?_, fun t => (hfield t).trans (field_addCnode cs _ t), htop⟩
    rwa [show n + 1 + m = n + (m + 1) by omega] at hlevels

structure Booked (cs : CsState) (f n : Nat) : Prop where
  levels : Levels cs n
  covers : f / 128 < n
  field : ∀ t < n, ∀ b, bfGetBit (cs.field t) b = true ↔
    (t % botLvlPerNode = 0 ∧ t < f / 128 ∧ b < 128) ∨ (t = f / 128 ∧ b < f % 128)
  top : ∀ t, bfGetBit cs.topBf t = true ↔ t < f / 128

lemma RecordedFull.partly {cs : CsState} (h : RecordedFull cs (f / 128) nodes)
    (hf : f / 128 < botLvlPerNode * nodes) :
    Booked (recordPartial f cs) f (f / 128 + 1) ∧ (recordPartial f cs).nBotLvlNodes = nodes := by
  have hlt : f / 128 < f / 128 + 1 := Nat.lt_succ_self _
  have hmod : f % 128 ≤ 128 := Nat.le_of_lt (Nat.mod_lt f (by decide))
  have hadded := h.levels.addCnode (by rw [h.count]; exact hf)
  obtain ⟨bf, hfold, hlen, hbits⟩ := hadded.recordSlots hlt hmod
  have heq : recordPartial f cs
      = (cs.addCnode (f / 128 / botLvlPerNode)).setFieldOf (f / 128) bf := by
    unfold recordPartial alignDown
    simp only [cnodeSlots_cnodeSizeBits]
    rw [show f - f / 128 * 128 = f % 128 by omega]
    exact hfold
  rw [heq]
  refine ⟨⟨hadded.setFieldOf hlt hlen, hlt, fun t ht b => ?_, h.top⟩, h.count⟩
  have hold := h.field t (by omega) b
  rw [field_setFieldOf]
  split
  · rename_i heq
    rw [heq] at hold ⊢
    rw [hbits, field_addCnode, hold]
    simp only [true_and]
  · rename_i hne
    rw [field_addCnode, hold]
    simp only [hne, false_and, or_false]

lemma recordUsed_booked {f nCnodes nodes : Nat} (hf : f / 128 < botLvlPerNode * nodes)
    (hcnodes : nCnodes ≤ botLvlPerNode * nodes)
    (hbound : f / 128 ≤ cnodeSlots initialTaskCnodeSizeBits) :
    ∃ cs, recordUsed f nCnodes (bootCspace nodes) = .done ⟨⟩ cs ∧
      Booked cs f (max (f / 128 + 1) nCnodes) := by
  obtain ⟨cs1, hloop, h1⟩ := (bootCspace_recorded nodes).loop (f / 128) (by omega) (by omega)
  rw [Nat.zero_add] at h1
  rw [Nat.zero_mul] at hloop
  obtain ⟨h2, hnodes⟩ := h1.partly hf
  obtain ⟨h3, hfield, htop⟩ := h2.levels.addCnodes (nCnodes - (f / 128 + 1))
    (by rw [hnodes]; omega)
  have hcount : f / 128 + 1 + (nCnodes - (f / 128 + 1)) = max (f / 128 + 1) nCnodes := by omega
  rw [hcount] at h3
  refine ⟨recordExtra f nCnodes (recordPartial f cs1), ?_, h3, by omega, fun t ht b => ?_,
    fun t => ?_⟩
  · have hstart : alignDown f 128 / 128 = f / 128 := Nat.mul_div_cancel _ (by decide)
    unfold recordUsed
    simp only [cnodeSlots_cnodeSizeBits, hstart, bind_apply, hloop, Res.bind, modify_apply]
  · have hfield' : (recordExtra f nCnodes (recordPartial f cs1)).field t
        = (recordPartial f cs1).field t := hfield t
    rw [hfield']
    by_cases hlt : t < f / 128 + 1
    · exact h2.field t hlt b
    · rw [h2.levels.unused t (by omega) (by rw [hnodes]; omega) b]
      simp only [Bool.false_eq_true, false_iff]
      omega
  · have htop' : (recordExtra f nCnodes (recordPartial f cs1)).topBf
        = (recordPartial f cs1).topBf := htop
    rw [htop']
    exact h2.top t

/-! ## Allocations and frees that follow -/

/-- An allocation keeps what is taken, and what it hands out was not taken before. -/
def Keeps (cs : CsState) (r : Nat) (cs' : CsState) : Prop :=
  (∃ n, Levels cs' n) ∧ (∀ c, cs.Taken c → cs'.Taken c) ∧ (r ≠ 0 → ¬ cs.Taken r ∧ cs'.Taken r)

section Following

variable {cs : CsState} {n : Nat}

lemma Levels.cspaceAllocSlot_keeps (h : Levels cs n) :
    (cspaceAllocSlot cs).Ends Outside (Keeps cs) :=
  (@Levels.alloc_tracks cs n (fun _ => False) h).ends fun _ _ _ heffect =>
    ⟨heffect.levels.imp fun _ hn => hn.2, heffect.mono, heffect.fresh⟩

lemma Levels.cspaceFreeSlot_keeps (h : Levels cs n) (c : Nat) : Levels (cspaceFreeSlot cs c) n ∧
      ∀ d, d ≠ c → cs.Taken d → (cspaceFreeSlot cs c).Taken d := by
  by_cases hc : c = 0
  · unfold cspaceFreeSlot
    rw [if_pos hc]
    exact ⟨h, fun _ _ => id⟩
  · by_cases hlt : c / 128 < n
    · rw [h.freeSlot_eq hc hlt]
      refine ⟨h.unmark hlt _, fun d hne hd => ?_⟩
      exact (h.taken_unmark hlt (by omega) d).mpr ⟨hd, by omega⟩
    · have hmissing := (h.missing_iff (c / 128)).mpr (by omega)
      have heq : cspaceFreeSlot cs c = { cs with topBf := bfClrBit cs.topBf (c / 128) } := by
        unfold cspaceFreeSlot nodeIndex cnodeIndex
        rw [if_neg hc, if_pos h.level, topLvlIndex_eq, cnodeSlots_cnodeSizeBits]
        dsimp only
        rw [if_neg (by omega)]
      have h' := h.clrTop (c / 128)
      rw [heq]
      exact ⟨h', fun d _ hd => h.taken_mono h' le_rfl (fun _ _ => rfl) hd⟩

lemma allocWatermarkSlot_keeps (h : Levels cs n) (i : Nat) :
    (allocWatermarkSlot i cs).Ends Outside fun _ cs' =>
      (∃ n, Levels cs' n) ∧ ∀ c, cs.Taken c → cs'.Taken c := by
  unfold allocWatermarkSlot
  refine h.cspaceAllocSlot_keeps.bind ?_
  rintro c cs' ⟨⟨n', h'⟩, hmono, -⟩
  simp only [bind_apply, modify_apply, Res.bind, Coro.check]
  split
  · exact ⟨⟨n', { h' with }⟩, hmono⟩
  · trivial

lemma allocWatermark_keeps (h : Levels cs n) : (allocWatermark cs).Ends Outside fun _ cs' =>
      (∃ n, Levels cs' n) ∧ ∀ c, cs.Taken c → cs'.Taken c := by
  unfold allocWatermark
  induction List.range watermarkSlots generalizing cs n with
  | nil => exact ⟨⟨n, h⟩, fun _ => id⟩
  | cons i is ih =>
    refine (allocWatermarkSlot_keeps h i).bind ?_
    rintro - cs' ⟨⟨n', h'⟩, hmono⟩
    exact (ih h').mono fun _ _ hlater => ⟨hlater.1, fun c hc => hlater.2 c (hmono c hc)⟩

end Following

/-! ## When the slots are recorded -/

/-- Every slot below `f` has its bit in the field of its own cnode, and every cnode all of
whose slots are below `f` has its upper bit. -/
structure UsedRecorded (f : Nat) (cs : CsState) : Prop where
  slots : ∀ c < f,
    bfGetBit ((cs.botLvlNodes (nodeIndex c)).bf (cnodeIndex c)) (botLvlIndex c) = true
  cnodes : ∀ t, (t + 1) * cnodeSlots cnodeSizeBits ≤ f → bfGetBit cs.topBf t = true

structure Running where
  cs : CsState
  freed : List Nat

inductive CsOp where
  | alloc
  | free (cptr : Nat)

def CsStep (s : Running) : CsOp → Running → Prop
  | .alloc, t => t.freed = s.freed ∧ ∃ r, Exec Outside (cspaceAllocSlot s.cs) r t.cs
  | .free cptr, t => t = ⟨cspaceFreeSlot s.cs cptr, cptr :: s.freed⟩

/-- Whatever is allocated and freed, a slot below `f` that was not freed is not handed out. -/
def UsedKept (f : Nat) (cs : CsState) : Prop :=
  ∀ t, Lts.Run CsStep Lts.anyStep ⟨cs, []⟩ t → ∀ r cs', Exec Outside (cspaceAllocSlot t.cs) r cs' →
    r ≠ 0 → r < f → r ∈ t.freed

/-- Slots below `f` that were not freed are taken. -/
structure Running.Sound (f : Nat) (s : Running) : Prop where
  levels : ∃ n, Levels s.cs n
  taken : ∀ c < f, c ∉ s.freed → s.cs.Taken c

lemma Running.Sound.step {s t : Running} {op : CsOp} (h : s.Sound f)
    (hstep : CsStep s op t) : t.Sound f := by
  obtain ⟨n, hlevels⟩ := h.levels
  cases op with
  | alloc =>
    obtain ⟨hfreed, r, hexec⟩ := hstep
    obtain ⟨hlevels', hmono, -⟩ := hlevels.cspaceAllocSlot_keeps.exec hexec
    exact ⟨hlevels', fun c hc hnot => hmono c (h.taken c hc (hfreed ▸ hnot))⟩
  | free cptr =>
    subst hstep
    obtain ⟨hlevels', hmono⟩ := hlevels.cspaceFreeSlot_keeps cptr
    refine ⟨⟨n, hlevels'⟩, fun c hc hnot => ?_⟩
    rw [List.mem_cons, not_or] at hnot
    exact hmono c hnot.1 (h.taken c hc hnot.2)

lemma UsedKept.of_taken {f n : Nat} {cs : CsState} (h : Levels cs n)
    (htaken : ∀ c < f, cs.Taken c) : UsedKept f cs := by
  intro t hrun r cs' hexec hr hlt
  have hsound : t.Sound f := hrun.invariant (I := Running.Sound f)
    ⟨⟨n, h⟩, fun c hc _ => htaken c hc⟩ fun hs _ hstep => hs.step hstep
  obtain ⟨n', h'⟩ := hsound.levels
  by_contra hnot
  exact ((h'.cspaceAllocSlot_keeps.exec hexec).2.2 hr).1 (hsound.taken r hlt hnot)

lemma slot_bit_eq (cs : CsState) (c : Nat) :
    bfGetBit ((cs.botLvlNodes (nodeIndex c)).bf (cnodeIndex c)) (botLvlIndex c)
      = bfGetBit (cs.field (c / 128)) (c % 128) := by
  rw [botLvlIndex_eq]
  rfl

lemma Booked.recorded_iff {cs : CsState} {f n : Nat} (h : Booked cs f n) :
    UsedRecorded f cs ↔ f < 256 := by
  have hcovers := h.covers
  constructor
  · intro hrec
    by_contra hge
    have hbit := hrec.slots 128 (by omega)
    rw [slot_bit_eq, h.field _ (by omega), botLvlPerNode_eq] at hbit
    omega
  · refine fun hlt => ⟨fun c hc => ?_, fun t ht => ?_⟩
    · rw [slot_bit_eq, h.field _ (by omega), botLvlPerNode_eq]
      omega
    · rw [cnodeSlots_cnodeSizeBits] at ht
      rw [h.top]
      omega

lemma Booked.taken {cs : CsState} {f n : Nat} (h : Booked cs f n) (hrec : UsedRecorded f cs) :
    ∀ c < f, cs.Taken c := fun c hc => by
  have hcovers := h.covers
  have hbit := hrec.slots c hc
  rw [slot_bit_eq] at hbit
  exact (h.levels.taken_iff c).mpr ⟨by omega, hbit⟩

/-- The slots that were used are recorded, and not handed out again, exactly if there are less
than 256 of them. -/
theorem bootstrap_records_iff {bi : BootInfo} {used : Nat} (h : bi.usedSlots = some used) :
    (recordUsed (firstFreeSlot used bi.nCnodes) bi.nCnodes
        (bootCspace (nBotLvl used bi.nCnodes))).Meets Outside (fun _ cs =>
      UsedRecorded (firstFreeSlot used bi.nCnodes) cs ∧
        ∀ cs', Exec Outside (allocWatermark cs) ⟨⟩ cs' →
          UsedKept (firstFreeSlot used bi.nCnodes) cs') ↔ firstFreeSlot used bi.nCnodes < 256 := by
  obtain ⟨hlt, hnodes⟩ := BootInfo.firstFreeSlot_lt h
  obtain ⟨-, hcnodes⟩ := BootInfo.usedSlots_le h
  have hroom : bi.nCnodes < botLvlPerNode * nBotLvl used bi.nCnodes := by
    rw [hnodes, botLvlPerNode_eq]
    omega
  obtain ⟨cs, hrun, hbooked⟩ := recordUsed_booked (f := firstFreeSlot used bi.nCnodes)
    (by omega) (Nat.le_of_lt hroom) (by omega)
  rw [hrun]
  refine ⟨fun hrec => hbooked.recorded_iff.mp hrec.1, fun hsmall => ?_⟩
  have hrec := hbooked.recorded_iff.mpr hsmall
  refine ⟨hrec, fun cs' hexec => ?_⟩
  obtain ⟨⟨n, hlevels⟩, hmono⟩ := (allocWatermark_keeps hbooked.levels).exec hexec
  exact UsedKept.of_taken hlevels fun c hc => hmono c (hbooked.taken hrec c hc)

theorem bootstrap_records_few :
    ∃ cs, recordUsed 156 4 (bootCspace 1) = .done ⟨⟩ cs ∧ UsedRecorded 156 cs := by
  have hused : (BootInfo.mk 20 3 [20, 21]).usedSlots = some 155 := by decide
  have hmeets := (bootstrap_records_iff hused).mpr (by decide)
  obtain ⟨cs, hrun, -⟩ := @recordUsed_booked 156 4 1 (by decide) (by decide) (by decide)
  have hfirst : firstFreeSlot 155 (BootInfo.mk 20 3 [20, 21]).nCnodes = 156 := by decide
  have hnodes : nBotLvl 155 (BootInfo.mk 20 3 [20, 21]).nCnodes = 1 := by decide
  have hcnodes : (BootInfo.mk 20 3 [20, 21]).nCnodes = 4 := by decide
  rw [hfirst, hnodes, hcnodes, hrun] at hmeets
  exact ⟨cs, hrun, hmeets.1⟩

theorem bootstrap_loses_slot :
    ∃ cs cs', (BootInfo.mk 20 4 [22]).usedSlots = some 412 ∧
      firstFreeSlot 412 (BootInfo.mk 20 4 [22]).nCnodes = 413 ∧
      recordUsed 413 (BootInfo.mk 20 4 [22]).nCnodes (bootCspace 1) = .done ⟨⟩ cs ∧
      Exec Outside (allocWatermark cs) ⟨⟩ cs' ∧ ¬ UsedRecorded 413 cs ∧ ¬ UsedKept 413 cs' := by
  have hcnodes : (BootInfo.mk 20 4 [22]).nCnodes = 6 := by decide
  obtain ⟨cs, hrun, hbooked⟩ := @recordUsed_booked 413 6 1 (by decide) (by decide) (by decide)
  have hplay : (((recordUsed 413 6 (bootCspace 1)).run granting).toOption.bind fun x =>
      ((allocWatermark x.2).run granting).toOption.bind fun y =>
        ((cspaceAllocSlot (cspaceFreeSlot y.2 129)).run granting).toOption).any
          (fun z => z.1 = 128) = true := by decide +kernel
  rw [hrun] at hplay
  obtain ⟨⟨r, cs''⟩, hlast, rfl⟩ := Lts.exists_of_any hplay
  obtain ⟨_, hdone, hlast⟩ := Option.bind_eq_some_iff.mp hlast
  cases hdone
  obtain ⟨⟨⟨⟩, cs'⟩, hwater, halloc⟩ := Option.bind_eq_some_iff.mp hlast
  refine ⟨cs, cs', by decide, by decide, by rw [hcnodes, hrun],
    Res.exec_of_toOption granting_outside hwater, fun hrec => ?_, fun hkept => ?_⟩
  · exact absurd (hbooked.recorded_iff.mp hrec) (by decide)
  · have hfree : Lts.Run CsStep Lts.anyStep ⟨cs', []⟩ ⟨cspaceFreeSlot cs' 129, [129]⟩ :=
      .tail (a := CsOp.free 129) .refl trivial rfl
    have hmem := hkept _ hfree 128 cs'' (Res.exec_of_toOption granting_outside halloc) (by decide)
      (by decide)
    exact absurd (List.mem_singleton.mp hmem) (by decide)

end SpaghettiOS.Cspace
