import SpaghettiOS.Lib.Linked
import SpaghettiOS.VM.Sweep

/-!
# The slots of the pagefile

`next_free_node` and `add_free_list` of `vm/pager.c` on the nodes they link, and
the lists of `VM/Paging` as what those nodes stand for.  The insertion loop of
`add_free_list` never moves its cursor, so that the list is not sorted, but it is a
permutation of what was freed.
-/

namespace SpaghettiOS.Vm

open Function (update)

namespace Pagefile

/-! ## The nodes -/

/-- `struct pagefile_list` and the nodes that hang off it, each at its address. -/
structure PfHeap where
  size : Nat
  index : Nat → Nat
  links : Linked.Heap Unit Nat

/-- What `pager_bootstrap` sets up, whatever memory holds. -/
def pagerBootstrap (index next : Nat → Nat) : PfHeap :=
  ⟨0, index, ⟨next, fun _ => 0⟩⟩

def nextFreeNode (h : PfHeap) : Nat × PfHeap :=
  if h.links.head () ≠ 0 then
    (h.index (h.links.head ()), { h with links := h.links.drop () })
  else (h.size, { h with size := h.size + 1 })

/-- The loop of `add_free_list`, for as many turns as it is given.  No turn moves
`curr`. -/
def insertLoop (entry newNode curr : Nat) (h : PfHeap) : Nat → Option PfHeap
  | 0 => none
  | turns + 1 =>
      if curr ≠ 0 then
        if entry ≥ h.index curr ∨ h.links.next curr = 0 then
          some { h with links := h.links.insertBehind curr newNode }
        else insertLoop entry newNode curr h turns
      else some h

/-- `add_free_list` with the node `malloc` gave it.  The source writes to the node
before it tests the pointer, so a `malloc` that fails stops the system. -/
def addFreeList (entry newNode turns : Nat) (h : PfHeap) : Option PfHeap :=
  let h := { h with index := update h.index newNode entry }
  let curr := h.links.head ()
  if curr = 0 then some { h with links := h.links.push () newNode }
  else if entry ≤ h.index curr then some { h with links := h.links.push () newNode }
  else insertLoop entry newNode curr h turns

variable {h : PfHeap} {l : PagefileList} {newNode entry : Nat} {allocated : List Nat}

lemma insertLoop_succ {curr turns : Nat} {h' : PfHeap}
    (hloop : insertLoop entry newNode curr h turns = some h') :
    insertLoop entry newNode curr h (turns + 1) = some h' := by
  induction turns with
  | zero => cases hloop
  | succ turns ih =>
    rw [insertLoop] at hloop ⊢
    split at hloop
    · rename_i hcurr
      rw [if_pos hcurr]
      split at hloop
      · rename_i hplace
        rw [if_pos hplace]
        exact hloop
      · rename_i hplace
        rw [if_neg hplace]
        exact ih hloop
    · rename_i hcurr
      rw [if_neg hcurr]
      exact hloop

lemma addFreeList_succ {turns : Nat} {h' : PfHeap}
    (hadd : addFreeList entry newNode turns h = some h') :
    addFreeList entry newNode (turns + 1) h = some h' := by
  simp only [addFreeList] at hadd ⊢
  split at hadd
  · rw [if_pos ‹_›]
    exact hadd
  · rw [if_neg ‹_›]
    split at hadd
    · rw [if_pos ‹_›]
      exact hadd
    · rw [if_neg ‹_›]
      exact insertLoop_succ hadd

/-- The nodes of the list are these, in this order. -/
def Nodes (h : PfHeap) (nodes : List Nat) : Prop := h.links.Holds fun _ => nodes

/-- The free list holds these slots, in this order. -/
def Lists (h : PfHeap) (l : PagefileList) : Prop :=
  h.size = l.size ∧ ∃ nodes, Nodes h nodes ∧ nodes.map h.index = l.free

/-- `malloc` gives out no node that is in use. -/
def Fresh (h : PfHeap) (newNode : Nat) : Prop :=
  newNode ≠ 0 ∧ ∀ nodes, Nodes h nodes → newNode ∉ nodes

lemma lists_pagerBootstrap (index next : Nat → Nat) : Lists (pagerBootstrap index next) ⟨0, []⟩ :=
  ⟨rfl, [], ⟨fun _ => rfl, fun _ => List.nodup_nil, fun _ _ hij => absurd rfl hij⟩, rfl⟩

lemma Lists.nextFreeNode (hl : Lists h l) : (nextFreeNode h).1 = (Vm.nextFreeNode l).1 ∧
      Lists (nextFreeNode h).2 (Vm.nextFreeNode l).2 := by
  obtain ⟨hsize, nodes, hnodes, hfree⟩ := hl
  cases nodes with
  | nil =>
    have hhead : h.links.head () = 0 := (hnodes.head_eq_zero_iff ()).mpr rfl
    have hnil : l.free = [] := hfree.symm
    simp only [Pagefile.nextFreeNode, Vm.nextFreeNode, hhead, hnil, ne_eq, not_true_eq_false,
      if_false]
    exact ⟨hsize, congrArg (· + 1) hsize, [], hnodes, rfl⟩
  | cons c rest =>
    obtain ⟨hhead, hc, -⟩ := hnodes.chain ()
    have hcons : l.free = h.index c :: rest.map h.index := hfree.symm
    have hdrop := hnodes.drop (i := ()) rfl
    have hconst : update (fun _ : Unit => c :: rest) () rest = fun _ => rest :=
      funext fun _ => rfl
    rw [hconst] at hdrop
    simp only [Pagefile.nextFreeNode, Vm.nextFreeNode, hhead, hcons, ne_eq, hc,
      not_false_eq_true, if_true]
    exact ⟨trivial, hsize, rest, hdrop, rfl⟩

lemma Lists.addFreeList (hl : Lists h l) (entry : Nat) (hnew : Fresh h newNode) (turns : Nat) :
    ∃ h', addFreeList entry newNode (turns + 1) h = some h' ∧
      Lists h' { l with free := Vm.addFreeList entry l.free } := by
  obtain ⟨hsize, nodes, hnodes, hfree⟩ := hl
  have hout : newNode ∉ nodes := hnew.2 nodes hnodes
  have hmap : nodes.map (update h.index newNode entry) = l.free := by
    rw [← hfree]
    exact List.map_congr_left fun x hx =>
      Function.update_of_ne (fun hxn : x = newNode => hout (hxn ▸ hx)) _ _
  have hconst (l' : List Nat) : update (fun _ : Unit => nodes) () l' = fun _ => l' :=
    funext fun _ => rfl
  have hpush := hnodes.push () hnew.1 fun _ => hout
  rw [hconst] at hpush
  cases nodes with
  | nil =>
    have hhead : h.links.head () = 0 := (hnodes.head_eq_zero_iff ()).mpr rfl
    have hnil : l.free = [] := hfree.symm
    refine ⟨{ h with index := update h.index newNode entry, links := h.links.push () newNode },
      by simp only [Pagefile.addFreeList, hhead, if_true], hsize, _, hpush, ?_⟩
    simp only [List.map_cons, List.map_nil, Function.update_self, hnil, Vm.addFreeList]
  | cons c rest =>
    obtain ⟨hhead, hc, -⟩ := hnodes.chain ()
    have hcons : l.free = update h.index newNode entry c
        :: rest.map (update h.index newNode entry) := hmap.symm
    by_cases hle : entry ≤ update h.index newNode entry c
    · refine ⟨{ h with index := update h.index newNode entry, links := h.links.push () newNode },
        by simp only [Pagefile.addFreeList, hhead, hc, hle, if_false, if_true], hsize, _, hpush, ?_⟩
      simp only [List.map_cons, Function.update_self, hcons, Vm.addFreeList, hle, if_true]
    · have hge : entry ≥ update h.index newNode entry c := (not_le.mp hle).le
      have hinsert := hnodes.insertBehind (i := ()) rfl hnew.1 fun _ => hout
      rw [hconst] at hinsert
      refine ⟨{ h with index := update h.index newNode entry,
                       links := h.links.insertBehind c newNode },
        by simp only [Pagefile.addFreeList, insertLoop, hhead, hc, hle, hge, if_false, if_true,
          true_or, ne_eq, not_false_eq_true], hsize, _, hinsert, ?_⟩
      simp only [List.map_cons, Function.update_self, hcons, Vm.addFreeList, hle, if_false]

lemma addFreeList_perm (entry : Nat) (free : List Nat) :
    (Vm.addFreeList entry free).Perm (entry :: free) := by
  cases free with
  | nil => exact List.Perm.refl _
  | cons curr rest =>
    rw [Vm.addFreeList]
    split
    · exact List.Perm.refl _
    · exact List.Perm.swap entry curr rest

/-! ## Slots in use -/

structure Slots where
  heap : PfHeap
  allocated : List Nat

inductive SlotOp where
  | next
  | add (entry newNode : Nat)

/-- A call of `next_free_node` or of `add_free_list` that returns. -/
inductive SlotStep : Slots → SlotOp → Slots → Prop where
  | next {s : Slots} :
      SlotStep s .next ⟨(nextFreeNode s.heap).2, (nextFreeNode s.heap).1 :: s.allocated⟩
  | add {s : Slots} {entry newNode turns : Nat} {h : PfHeap} :
      addFreeList entry newNode turns s.heap = some h →
      SlotStep s (.add entry newNode) ⟨h, s.allocated.erase entry⟩

/-- A slot is given back only while it is in use, and `malloc` gives a new node. -/
def SlotAllowed (s : Slots) : SlotOp → Prop
  | .next => True
  | .add entry newNode => entry ∈ s.allocated ∧ Fresh s.heap newNode

/-- Each slot is on the free list or in use, once. -/
structure Partition (l : PagefileList) (allocated : List Nat) : Prop where
  free_nodup : l.free.Nodup
  allocated_nodup : allocated.Nodup
  disjoint : ∀ i ∈ l.free, i ∉ allocated
  cover : ∀ i, i < l.size ↔ i ∈ l.free ∨ i ∈ allocated

lemma Partition.next_not_mem (h : Partition l allocated) : (Vm.nextFreeNode l).1 ∉ allocated := by
  obtain ⟨size, free⟩ := l
  cases free with
  | nil => exact fun hmem => absurd ((h.cover size).mpr (.inr hmem)) (lt_irrefl size)
  | cons ind rest => exact h.disjoint ind List.mem_cons_self

lemma Partition.next (h : Partition l allocated) :
    Partition (Vm.nextFreeNode l).2 ((Vm.nextFreeNode l).1 :: allocated) := by
  have hnodup := List.nodup_cons.mpr ⟨h.next_not_mem, h.allocated_nodup⟩
  obtain ⟨size, free⟩ := l
  cases free with
  | nil =>
    refine ⟨List.nodup_nil, hnodup, fun i hi => absurd hi List.not_mem_nil, fun i => ?_⟩
    have hcover : i < size ↔ i ∈ allocated := by
      simpa using h.cover i
    show i < size + 1 ↔ i ∈ [] ∨ i ∈ size :: allocated
    simp only [List.not_mem_nil, List.mem_cons, false_or, ← hcover]
    omega
  | cons ind rest =>
    obtain ⟨hout, hrest⟩ := List.nodup_cons.mp h.free_nodup
    refine ⟨hrest, hnodup, fun i hi => ?_, fun i => ?_⟩
    · refine List.not_mem_cons_of_ne_of_not_mem ?_ (h.disjoint i (List.mem_cons_of_mem ind hi))
      rintro rfl
      exact hout hi
    · refine (h.cover i).trans ?_
      show i ∈ ind :: rest ∨ i ∈ allocated ↔ i ∈ rest ∨ i ∈ ind :: allocated
      simp only [List.mem_cons]
      tauto

lemma Partition.add (h : Partition l allocated) (hentry : entry ∈ allocated) :
    Partition { l with free := Vm.addFreeList entry l.free } (allocated.erase entry) := by
  have hperm := addFreeList_perm entry l.free
  refine ⟨?_, h.allocated_nodup.erase entry, fun i hi hmem => ?_, fun i => ?_⟩
  · exact hperm.nodup_iff.mpr
      (List.nodup_cons.mpr ⟨fun hfree => h.disjoint entry hfree hentry, h.free_nodup⟩)
  · obtain ⟨hne, hmem⟩ := h.allocated_nodup.mem_erase_iff.mp hmem
    rcases List.mem_cons.mp (hperm.mem_iff.mp hi) with rfl | hfree
    · exact hne rfl
    · exact h.disjoint i hfree hmem
  · rw [h.allocated_nodup.mem_erase_iff, hperm.mem_iff, List.mem_cons]
    refine (h.cover i).trans ?_
    by_cases hi : i = entry
    · simp only [hi, hentry, or_true, true_or]
    · simp only [hi, false_or, ne_eq, not_false_eq_true, true_and]

/-- The nodes form a list, and it makes a partition with the slots in use. -/
def Slots.Sound (s : Slots) : Prop := ∃ l, Lists s.heap l ∧ Partition l s.allocated

lemma sound_pagerBootstrap (index next : Nat → Nat) : Slots.Sound ⟨pagerBootstrap index next, []⟩ :=
  ⟨⟨0, []⟩, lists_pagerBootstrap index next, List.nodup_nil, List.nodup_nil,
    fun _ hi => absurd hi List.not_mem_nil, fun i => by simp⟩

lemma Slots.Sound.step {s t : Slots} {op : SlotOp} (hs : s.Sound) (hop : SlotAllowed s op)
    (hstep : SlotStep s op t) : t.Sound := by
  obtain ⟨l, hl, hpart⟩ := hs
  cases hstep with
  | next =>
    obtain ⟨hret, hnext⟩ := hl.nextFreeNode
    refine ⟨_, hnext, ?_⟩
    rw [hret]
    exact hpart.next
  | @add entry newNode turns h hadd =>
    obtain ⟨h', hadd', hl'⟩ := hl.addFreeList entry hop.2 turns
    obtain rfl : h' = h := Option.some.inj (hadd'.symm.trans (addFreeList_succ hadd))
    exact ⟨_, hl', hpart.add hop.1⟩

lemma fresh_of_nodes {nodes : List Nat} (hnodes : Nodes h nodes) (hne : newNode ≠ 0)
    (hout : newNode ∉ nodes) : Fresh h newNode := by
  refine ⟨hne, fun nodes' hnodes' => ?_⟩
  have heq : nodes = nodes' := congrFun (hnodes.unique hnodes') ()
  exact heq ▸ hout

/-- In every state calls on slots in use lead to, the free slots and those in use are the
slots below `size`, each once; the next slot is not in use; and the loop that gives one
back ends. -/
theorem pagefile_slots_partitioned (index next : Nat → Nat) {s : Slots}
    (hrun : Lts.Run SlotStep SlotAllowed ⟨pagerBootstrap index next, []⟩ s) :
    (∃ l, Lists s.heap l ∧ l.free.Nodup ∧ (∀ i ∈ l.free, i ∉ s.allocated) ∧
      ∀ i, i < s.heap.size ↔ i ∈ l.free ∨ i ∈ s.allocated) ∧ (nextFreeNode s.heap).1 ∉ s.allocated ∧
    ∀ entry ∈ s.allocated, ∀ newNode, Fresh s.heap newNode →
      (addFreeList entry newNode 1 s.heap).isSome := by
  obtain ⟨l, hl, hpart⟩ := hrun.invariant (sound_pagerBootstrap index next) Slots.Sound.step
  refine ⟨⟨l, hl, hpart.free_nodup, hpart.disjoint, ?_⟩, ?_, fun entry _ newNode hnew => ?_⟩
  · rw [hl.1]
    exact hpart.cover
  · rw [hl.nextFreeNode.1]
    exact hpart.next_not_mem
  · obtain ⟨h, hadd, -⟩ := hl.addFreeList entry hnew 0
    rw [hadd]
    rfl

theorem pagefile_slots_partitioned_two :
    ∃ s : Slots, s.heap.size = 2 ∧ Lists s.heap ⟨2, [0, 1]⟩ ∧
      (nextFreeNode s.heap).1 ∉ s.allocated := by
  have hnodes₀ : Nodes (pagerBootstrap id id) [] :=
    ⟨fun _ => rfl, fun _ => List.nodup_nil, fun _ _ hij => absurd rfl hij⟩
  have hrun₂ : Lts.Run SlotStep SlotAllowed ⟨pagerBootstrap id id, []⟩
      ⟨{ pagerBootstrap id id with size := 2 }, [1, 0]⟩ :=
    .tail (a := SlotOp.next) (.tail (a := SlotOp.next) .refl trivial .next) trivial .next
  obtain ⟨h₁, hadd₁, hl₁⟩ := Lists.addFreeList (h := { pagerBootstrap id id with size := 2 })
    (l := ⟨2, []⟩) ⟨rfl, [], hnodes₀, rfl⟩ 0 (fresh_of_nodes hnodes₀ (by decide) (by decide) :
      Fresh _ 8) 0
  have hrun₁ := hrun₂.tail (a := SlotOp.add 0 8)
    ⟨by decide, fresh_of_nodes hnodes₀ (by decide) (by decide)⟩ (.add hadd₁)
  cases hadd₁
  have hfresh : Fresh _ 16 := fresh_of_nodes
    (⟨fun _ => ⟨rfl, by decide, rfl⟩, fun _ => List.nodup_singleton 8,
      fun _ _ hij => absurd rfl hij⟩ : Nodes { pagerBootstrap id id with
        size := 2, index := update id 8 0,
        links := (pagerBootstrap id id).links.push () 8 } [8]) (by decide) (by decide)
  obtain ⟨h₂, hadd₂, hl₂⟩ := hl₁.addFreeList 1 hfresh 0
  have hrun := hrun₁.tail (a := SlotOp.add 1 16) ⟨by decide, hfresh⟩ (.add hadd₂)
  exact ⟨_, hl₂.1, hl₂, (pagefile_slots_partitioned id id hrun).2.1⟩

end Pagefile

/-! ## Entries that name a slot -/

lemma pageSetBits_getLsbD (entry : Word) (bits : BitVec 8) {i : Nat} (hi : i < 52) :
    (pageSetBits entry bits).getLsbD i = entry.getLsbD i := by
  have hmod : (pageSetBits entry bits).toNat % 2 ^ 52 = entry.toNat % 2 ^ 52 := by
    rw [toNat_pageSetBits]
    omega
  have htest (e : Word) : e.getLsbD i = (e.toNat % 2 ^ 52).testBit i := by
    rw [Nat.testBit_mod_two_pow, decide_eq_true hi, Bool.true_and, BitVec.testBit_toNat]
  rw [htest, htest, hmod]

lemma pageSetBits_pageSetBits (entry : Word) (bits bits' : BitVec 8) :
    pageSetBits (pageSetBits entry bits) bits' = pageSetBits entry bits' := by
  apply BitVec.eq_of_toNat_eq
  simp only [toNat_pageSetBits]
  omega

lemma pageoutVictim_ne_entryNumber (m : Machine) (page : Nat) {s : VmState}
    (hind : (nextFreeNode s.pfList).1 < 2 ^ 52) : pageoutVictim m page s ≠ .fail .entryNumber := by
  have hnumber (bits : BitVec 8) :
      pageEntryNumber (pageUpdateEntry bits (nextFreeNode s.pfList).1)
        = (nextFreeNode s.pfList).1 := by
    rw [pageEntryNumber_update, Nat.mod_eq_of_lt hind]
  unfold pageoutVictim
  refine Coro.ofOption_bind_ne_fail (by decide) fun fte => ?_
  refine Coro.check_bind_ne_fail (by decide) ?_
  refine Coro.check_bind_ne_fail (by decide) ?_
  refine Coro.ofOption_bind_ne_fail (by decide) fun as => ?_
  refine Coro.ofOption_bind_ne_fail (by decide) fun _ => ?_
  simp only [Coro.bind_apply, Coro.set_apply, Coro.modify_apply, Coroutine.Res.bind, Coro.check,
    hnumber, if_true, Coro.pure_apply, sosCopyin]
  split
  · exact fun h => by cases h
  · exact fun h => by cases h

/-- What `page_update_entry` puts into an entry is what `page_get_bits` and
`page_entry_number` read, the number in 52 bits; `page_set_bits` touches the other twelve
only and the last one counts; and the assertion of `pageout` holds. -/
theorem page_entries_decode (m : Machine) (page : Nat) (s : VmState) (num entry : Word)
    (bits bits' : BitVec 8) :
    pageGetBits (pageUpdateEntry bits num.toNat) = bits ∧
    pageEntryNumber (pageUpdateEntry bits num.toNat) = num.toNat % 2 ^ 52 ∧
    (∀ i < 52, (pageSetBits entry bits).getLsbD i = entry.getLsbD i) ∧
    pageSetBits (pageSetBits entry bits) bits' = pageSetBits entry bits' ∧ (num.toNat < 2 ^ 52 →
      (pageGetBits (pageUpdateEntry bits num.toNat),
        pageEntryNumber (pageUpdateEntry bits num.toNat)) = (bits, num.toNat)) ∧
    ((nextFreeNode s.pfList).1 < 2 ^ 52 → pageoutVictim m page s ≠ .fail .entryNumber) := by
  have hbits : pageGetBits (pageUpdateEntry bits num.toNat) = bits := pageGetBits_setBits _ bits
  refine ⟨hbits, pageEntryNumber_update bits, fun i hi => pageSetBits_getLsbD entry bits hi,
    pageSetBits_pageSetBits entry bits bits', fun hnum => ?_, pageoutVictim_ne_entryNumber m page⟩
  rw [hbits, pageEntryNumber_update, Nat.mod_eq_of_lt hnum]

theorem page_entries_decode_seven :
    (pageGetBits (pageUpdateEntry pPagefile 7), pageEntryNumber (pageUpdateEntry pPagefile 7))
      = (pPagefile, 7) ∧
    pageoutVictim (grantingMachine 2) 0 (fullTable 2 fun _ => ⟨1, 0, 0, 1, 0, false,
      false⟩) ≠ .fail .entryNumber := by
  have h := page_entries_decode (grantingMachine 2) 0
    (fullTable 2 fun _ => ⟨1, 0, 0, 1, 0, false, false⟩) 7 0 pPagefile 0
  exact ⟨h.2.2.2.2.1 (by decide), h.2.2.2.2.2 (by decide)⟩

end SpaghettiOS.Vm
