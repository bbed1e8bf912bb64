import SpaghettiOS.VM.FreeFrames
import SpaghettiOS.VM.SharedBuffer

/-!
# While there are free frames

With enough free frames nothing is evicted: the functions that take frames for
page tables run to their end at once.  `Fills` says which frames were taken and
what stays as it was.
-/

namespace SpaghettiOS.Vm

open Coro (bind_apply get_apply modify_apply pure_apply set_apply)
open Coroutine (Res)

/-- The list of free frames is in order and has at least `n` of them. -/
structure Room (m : Machine) (n : Nat) (s : VmState) : Prop where
  list : ∃ l, FreeList m s (fun f => ¬ s.allocated f) l
  enough : s.frameTableCurrSize + n ≤ m.frameTableSize

/-- At most `n` free frames were taken, those of `l` and important ones.  What is on
record for the other frames in use stays, and so do their bytes. -/
structure Fills (m : Machine) (n : Nat) (l : List Nat) (s t : VmState) : Prop where
  entries : ∀ f ∉ l, s.allocated f → t.frameTable f = s.frameTable f
  fresh : ∀ f ∉ l, t.allocated f → ¬ s.allocated f → (t.frameTable f).important = true
  bytes : ∀ f ∉ l, s.allocated f → ∀ j < pageSize, m.frameByte t f j = m.frameByte s f j
  allocated : ∀ f, s.allocated f → t.allocated f
  nextSlot : s.nextSlot ≤ t.nextSlot
  procs : ∀ p, s.procs p ≠ none → t.procs p ≠ none
  list : ∃ free, FreeList m t (fun f => ¬ t.allocated f) free
  size : t.frameTableCurrSize ≤ s.frameTableCurrSize + n

/-- Only nodes were added to the page tables, in important frames. -/
structure Builds (m : Machine) (n : Nat) (s t : VmState) : Prop extends Fills m n [] s t where
  pte : t.pte = s.pte
  vspace : t.vspace = s.vspace
  later : s.time ≤ t.time
  time : t.time ≤ s.time + n
  nodes : ∀ p x, s.tableFrame p x ≠ none → t.tableFrame p x ≠ none

variable {c : Int} {as : AddrSpace} {f j : Nat}

section Supply

variable {m : Machine} {n k : Nat} {l l' : List Nat} {s t u : VmState}

lemma Room.mono (h : Room m n s) (hle : k ≤ n) : Room m k s :=
  ⟨h.list, (Nat.add_le_add_left hle _).trans h.enough⟩

/-! ## Steps that take no frame -/

section Same

variable (hfree : ∃ free, FreeList m s (fun f => ¬ s.allocated f) free)
include hfree

lemma Fills.of_same (l : List Nat) (hframes : t.frameTable = s.frameTable)
    (hnext : t.nextFreePage = s.nextFreePage)
    (hsize : t.frameTableCurrSize = s.frameTableCurrSize) (hmem : t.mem = s.mem)
    (hslot : s.nextSlot ≤ t.nextSlot) (hprocs : ∀ p, s.procs p ≠ none → t.procs p ≠ none) :
    Fills m 0 l s t where
  entries f _ _ := congrFun hframes f
  fresh f _ ht hs := by
    unfold VmState.allocated at ht hs
    rw [hframes] at ht
    exact absurd ht hs
  bytes f _ _ j _ := by
    unfold Machine.frameByte
    rw [hmem]
  allocated f hf := by
    unfold VmState.allocated at hf ⊢
    rwa [hframes]
  nextSlot := hslot
  procs := hprocs
  list := by
    obtain ⟨free, hl⟩ := hfree
    refine ⟨free, ?_, hl.nodup, fun f => ?_, by rw [hsize]; exact hl.count⟩
    · rw [hnext, hframes]
      exact hl.chain
    · rw [hl.mem_iff f, VmState.allocated, VmState.allocated, hframes]
  size := le_of_eq hsize

lemma Fills.tick (l : List Nat) (time : Nat) : Fills m 0 l s { s with time := time } :=
  .of_same hfree l rfl rfl rfl rfl le_rfl fun _ hp => hp

lemma Fills.note {g : FrameTableEntry → FrameTableEntry}
    (hcap : ∀ e, (g e).cap = e.cap) (hnext : ∀ e, (g e).nextFreePage = e.nextFreePage) (f : Nat) :
    Fills m 0 [f] s (s.setFrame f g) := by
  have hframe : ∀ f', f' ≠ f → (s.setFrame f g).frameTable f' = s.frameTable f' :=
    fun f' hne => Function.update_of_ne hne _ _
  have hself : (s.setFrame f g).frameTable f = g (s.frameTable f) := Function.update_self _ _ _
  have hused : ∀ f', (s.setFrame f g).allocated f' ↔ s.allocated f' := by
    intro f'
    unfold VmState.allocated
    rcases eq_or_ne f' f with rfl | hne
    · rw [hself, hcap]
    · rw [hframe f' hne]
  obtain ⟨free, hl⟩ := hfree
  refine ⟨fun f' hf' _ => hframe f' (by simpa using hf'), fun f' _ ht hs => ?_,
    fun _ _ _ _ _ => rfl, fun f' => (hused f').mpr, le_rfl, fun _ hp => hp,
    ⟨free, hl.chain.congr fun f' _ => ?_, hl.nodup, fun f' => ?_, hl.count⟩, le_rfl⟩
  · exact absurd ((hused f').mp ht) hs
  · rcases eq_or_ne f' f with rfl | hne
    · rw [hself, hnext]
    · rw [hframe f' hne]
  · rw [hl.mem_iff f', hused]

lemma Fills.modifyTable (l : List Nat) (c : Int) (g : PageTable → PageTable) :
    Fills m 0 l s (s.modifyTable c g) :=
  .of_same hfree l rfl rfl rfl rfl le_rfl fun _ hp => procs_modifyTable_ne_none.mpr hp

lemma Builds.refl : Builds m 0 s s where
  toFills := .of_same hfree [] rfl rfl rfl rfl le_rfl fun _ hp => hp
  pte := rfl
  vspace := rfl
  later := le_rfl
  time := le_rfl
  nodes _ _ h := h

lemma Builds.addNode (has : s.procs c = some as) {g : PageTable → PageTable} {x : PageTable.Place}
    (hadd : AddsNode x as.pt (g as.pt) f) : Builds m 0 s (s.modifyTable c g) := by
  refine ⟨Fills.modifyTable hfree [] c g, pte_addNode has hadd, rfl, le_rfl, le_rfl,
    fun p y hy => ?_⟩
  rw [tableFrame_modifyTable has]
  split
  · subst p
    rw [hadd.frameAt]
    rcases eq_or_ne y x with rfl | hne
    · rw [Function.update_self]
      simp
    · rw [Function.update_of_ne hne]
      rwa [tableFrame_of_procs has] at hy
  · exact hy

end Same

/-! ## Steps one after the other -/

lemma Fills.trans (h : Fills m n l s t) (h' : Fills m k l t u) : Fills m (n + k) l s u where
  entries f hf hs := (h'.entries f hf (h.allocated f hs)).trans (h.entries f hf hs)
  fresh f hf hu hs := by
    by_cases ht : t.allocated f
    · rw [h'.entries f hf ht]
      exact h.fresh f hf ht hs
    · exact h'.fresh f hf hu ht
  bytes f hf hs j hj := (h'.bytes f hf (h.allocated f hs) j hj).trans (h.bytes f hf hs j hj)
  allocated f hs := h'.allocated f (h.allocated f hs)
  nextSlot := h.nextSlot.trans h'.nextSlot
  procs p hp := h'.procs p (h.procs p hp)
  list := h'.list
  size := by
    have h1 := h.size
    have h2 := h'.size
    omega

lemma Fills.mono (h : Fills m n l s t) (hl : l ⊆ l') (hn : n ≤ k) : Fills m k l' s t :=
  { h with
    entries := fun f hf => h.entries f fun hmem => hf (hl hmem)
    fresh := fun f hf => h.fresh f fun hmem => hf (hl hmem)
    bytes := fun f hf => h.bytes f fun hmem => hf (hl hmem)
    size := h.size.trans (Nat.add_le_add_left hn _) }

lemma Fills.room (h : Fills m n l s t) (hroom : Room m (n + k) s) : Room m k t := by
  refine ⟨h.list, ?_⟩
  have h1 := hroom.enough
  have h2 := h.size
  omega

lemma Builds.trans (h : Builds m n s t) (h' : Builds m k t u) : Builds m (n + k) s u where
  toFills := h.toFills.trans h'.toFills
  pte := h'.pte.trans h.pte
  vspace := h'.vspace.trans h.vspace
  later := h.later.trans h'.later
  time := by
    have h1 := h.time
    have h2 := h'.time
    omega
  nodes p x hx := h'.nodes p x (h.nodes p x hx)

lemma Builds.mono (h : Builds m n s t) (hle : n ≤ k) : Builds m k s t :=
  { h with
    toFills := h.toFills.mono (fun _ hf => hf) hle
    time := h.time.trans (Nat.add_le_add_left hle _) }

/-! ## A frame from the free list -/

lemma frameByte_take {f g : Nat} (hne : g ≠ f) (imp : Bool) (hj : j < pageSize) :
    m.frameByte (s.take m imp f) g j = m.frameByte s g j :=
  frameByte_clearPage hne hj

lemma frameByte_take_self (f : Nat) (imp : Bool) (hj : j < pageSize) :
    m.frameByte (s.take m imp f) f j = 0 :=
  frameByte_clearPage_self f hj

/-- What an allocation from the free list returns. -/
structure Granted (m : Machine) (imp : Bool) (s : VmState) (r : Nat × Nat) (t : VmState) : Prop
    extends Fills m 1 [r.1] s t where
  pte : t.pte = s.pte
  vspace : t.vspace = s.vspace
  time : t.time = s.time + 1
  tables : t.procs = s.procs
  vaddr : r.2 = m.pageNumToVaddr r.1
  lt : r.1 < m.frameTableSize
  free : ¬ s.allocated r.1
  taken : t.allocated r.1
  zero : ∀ j < pageSize, m.frameByte t r.1 j = 0
  important : (t.frameTable r.1).important = imp

lemma Granted.builds {r : Nat × Nat} (h : Granted m true s r t) : Builds m 1 s t := by
  have hother : ∀ f, s.allocated f → f ∉ [r.1] := by
    intro f hf hmem
    exact h.free (List.mem_singleton.mp hmem ▸ hf)
  refine { h.toFills with
    entries := fun f _ hs => h.entries f (hother f hs) hs
    fresh := fun f _ ht hs => ?_
    bytes := fun f _ hs => h.bytes f (hother f hs) hs
    pte := h.pte
    vspace := h.vspace
    later := by rw [h.time]; exact Nat.le_succ _
    time := le_of_eq h.time
    nodes := fun p x hx => by rwa [VmState.tableFrame_procs h.tables] }
  by_cases hf : f ∈ [r.1]
  · exact List.mem_singleton.mp hf ▸ h.important
  · exact h.fresh f hf ht hs

lemma granted_take (h : Room m (n + 1) s) (imp : Bool) :
    Granted m imp s (s.nextFreePage, m.pageNumToVaddr s.nextFreePage)
      ({ s with time := s.time + 1 }.take m imp s.nextFreePage) := by
  obtain ⟨l, hl⟩ := h.list
  have henough := h.enough
  cases l with
  | nil =>
    have hcount := hl.count
    simp only [List.length_nil] at hcount
    omega
  | cons f l =>
    obtain rfl := hl.chain.1
    obtain ⟨hlt, hfree⟩ := (hl.mem_iff s.nextFreePage).mp (by simp)
    have hne : ∀ g, s.allocated g → g ≠ s.nextFreePage := fun g hg he => hfree (he ▸ hg)
    have htable := frameTable_take (s := { s with time := s.time + 1 })
      (m := m) imp s.nextFreePage
    have halloc : ∀ g, ({ s with time := s.time + 1 }.take m imp s.nextFreePage).allocated g ↔
        s.allocated g ∨ g = s.nextFreePage := by
      intro g
      rw [VmState.allocated, htable]
      split
      · rename_i hg
        simp [hg]
      · rename_i hg
        simp [VmState.allocated, hg]
    have hl' : FreeList m ({ s with time := s.time + 1 }.take m imp s.nextFreePage)
        (fun f => ¬ s.allocated f ∧ f ≠ s.nextFreePage) l :=
      FreeList.take (s := { s with time := s.time + 1 })
        ⟨hl.chain, hl.nodup, hl.mem_iff, hl.count⟩ imp
    refine ⟨⟨fun g hg _ => ?_, fun g hg ht hs => ?_, fun g _ hg j hj => ?_,
      fun g hg => (halloc g).mpr (.inl hg), Nat.le_succ _, fun _ hp => hp,
      ⟨l, hl'.chain, hl'.nodup, fun g => ?_, hl'.count⟩, le_rfl⟩, rfl, rfl, rfl, rfl, rfl, hlt,
      hfree, (halloc _).mpr (.inr rfl), fun j hj => frameByte_take_self _ imp hj, ?_⟩
    · exact (htable g).trans (if_neg fun he => hg (List.mem_singleton.mpr he))
    · exact absurd (List.mem_singleton.mpr (((halloc g).mp ht).resolve_left hs)) hg
    · exact frameByte_take (hne g hg) imp hj
    · rw [hl'.mem_iff g, halloc g]
      tauto
    · rw [htable, if_pos rfl]

lemma frameAllocWith_fromFree (halloc : ∀ t, m.allocOk t = true) (h : Room m (n + 1) s)
    (imp : Bool) : (frameAllocWith m imp s).Returns (Granted m imp s) := by
  have henough := h.enough
  have hroom : ¬ s.frameTableCurrSize = m.frameTableSize := by omega
  simp only [frameAllocWith, choosePage, bind_apply, get_apply, Res.bind]
  refine Res.Returns.check_bind (by omega) ?_
  simp only [bind_apply, get_apply, Res.bind, if_neg hroom, pure_apply, ask,
    set_apply, halloc, if_true, modify_apply]
  exact granted_take h imp

lemma ensureNode_builds (halloc : ∀ t, m.allocOk t = true) (h : Room m (n + 1) s)
    (hproc : s.procs c ≠ none) {present : PageTable → Bool} {add : PageTable → Nat → PageTable}
    (x : PageTable.Place) (hpresent : ∀ t, present t = (t.frameAt x).isSome)
    (hadd : ∀ as f, s.procs c = some as → as.pt.frameAt x = none →
      AddsNode x as.pt (add as.pt f) f) : (ensureNode m c present add s).Returns fun b t =>
      b = true ∧ Builds m 1 s t ∧ t.tableFrame c x ≠ none := by
  obtain ⟨as, has⟩ := Option.ne_none_iff_exists'.mp hproc
  simp only [ensureNode, pageTableOf, bind_apply, get_apply, pure_apply, Res.bind,
    has, Coro.ofOption]
  rw [hpresent]
  cases hx : as.pt.frameAt x with
  | some f =>
    refine ⟨rfl, (Builds.refl h.list).mono (Nat.zero_le 1), ?_⟩
    rw [tableFrame_of_procs has, hx]
    simp
  | none =>
    refine Res.Returns.bind (frameAllocWith_fromFree halloc h true) ?_
    rintro ⟨page, vaddr⟩ t ht
    have hv : vaddr = m.pageNumToVaddr page := ht.vaddr
    have hne : vaddr ≠ 0 := hv ▸ pageNumToVaddr_ne_zero m page
    simp only [if_neg hne, bind_apply, modify_apply, pure_apply, Res.bind]
    have hsame : t.procs c = some as := ht.tables ▸ has
    refine ⟨rfl, ht.builds.trans (.addNode ht.list hsame (hadd as page has hx)), ?_⟩
    rw [tableFrame_modifyTable hsame, if_pos rfl, (hadd as page has hx).frameAt]
    simp

lemma word_ne_none_of_node {v : Nat} (has : s.procs c = some as)
    (h : s.tableFrame c (.pt (getPtIndex v).l1 (getPtIndex v).l2 (getPtIndex v).l3) ≠ none) :
    as.pt.word (getPtIndex v) ≠ none := by
  intro hn
  rw [tableFrame_of_procs has] at h
  exact h (Option.map_eq_none_iff.mpr (Option.map_eq_none_iff.mp hn))

lemma pageTableInsert_builds (halloc : ∀ t, m.allocOk t = true) (h : Room m (n + 3) s)
    (hproc : s.procs c ≠ none) (v f : Nat) :
    (pageTableInsert m c v f s).Returns fun r t => r = 0 ∧ ∃ u as, Builds m 3 s u ∧
      u.procs c = some as ∧ as.pt.word (getPtIndex v) ≠ none ∧
      t = u.modifyTable c fun table => table.setWord (getPtIndex v) (BitVec.ofNat 64 f) := by
  refine Res.Returns.bind (ensureNode_builds halloc (Room.mono h (by omega : 2 + 1 ≤ n + 3)) hproc
    (.pud (getPtIndex v).l1) ?_ ?_) ?_
  · intro t
    simp [PageTable.frameAt]
  · intro as f' _ hx
    exact addsNode_pud hx f'
  rintro _ s1 ⟨rfl, h1, hpud⟩
  have hr1 : Room m (n + 2) s1 := h1.room (h.mono (by omega))
  refine Res.Returns.bind (ensureNode_builds halloc (Room.mono hr1 (by omega : 1 + 1 ≤ n + 2))
    (h1.procs c hproc) (.pd (getPtIndex v).l1 (getPtIndex v).l2) ?_ ?_) ?_
  · intro t
    simp [PageTable.frameAt]
  · intro as f' has hx
    rw [tableFrame_of_procs has] at hpud
    exact addsNode_pd hpud hx f'
  rintro _ s2 ⟨rfl, h2, hpd⟩
  have hr2 : Room m (n + 1) s2 := h2.room (hr1.mono (by omega))
  have hproc₂ := h2.procs c (h1.procs c hproc)
  refine Res.Returns.bind (ensureNode_builds halloc hr2 hproc₂
    (.pt (getPtIndex v).l1 (getPtIndex v).l2 (getPtIndex v).l3) ?_ ?_) ?_
  · intro t
    simp [PageTable.frameAt]
  · intro as f' has hx
    rw [tableFrame_of_procs has] at hpd
    exact addsNode_pt hpd hx f'
  rintro _ s3 ⟨rfl, h3, hpt⟩
  obtain ⟨as, has⟩ := Option.ne_none_iff_exists'.mp (h3.procs c hproc₂)
  exact ⟨rfl, s3, as, (h1.trans h2).trans h3, has, word_ne_none_of_node has hpt, rfl⟩

lemma saveSeL4Info_builds (halloc : ∀ t, m.allocOk t = true) (h : Room m (n + 1) s)
    (hproc : s.procs c ≠ none) : (saveSeL4Info m c s).Returns fun _ t => Builds m 1 s t := by
  obtain ⟨as, has⟩ := Option.ne_none_iff_exists'.mp hproc
  have hbump : ∀ {t : VmState}, (∃ free, FreeList m t (fun f => ¬ t.allocated f) free) →
      Builds m 0 t
        (t.modifyTable c fun table => { table with seL4Pages := bumpLast table.seL4Pages }) :=
    fun hfree => ⟨.modifyTable hfree [] c _, pte_sameTable word_bumpLast, rfl, le_rfl, le_rfl,
      fun p x hx => by rwa [tableFrame_sameTable frameAt_bumpLast]⟩
  have hchunk : (ensureChunk m c s).Returns fun _ t => Builds m 1 s t := by
    simp only [ensureChunk, pageTableOf, bind_apply, get_apply, pure_apply, Res.bind,
      has, Coro.ofOption]
    split
    · refine Res.Returns.bind (frameAllocWith_fromFree halloc h true) ?_
      rintro ⟨page, vaddr⟩ t ht
      have hv : vaddr = m.pageNumToVaddr page := ht.vaddr
      refine Res.Returns.check_bind (hv ▸ pageNumToVaddr_ne_zero m page) ?_
      have hsame : t.procs c = some as := ht.tables ▸ has
      exact ht.builds.trans (.addNode (x := .objects as.pt.seL4Pages.length)
        (g := fun table => { table with seL4Pages := table.seL4Pages ++ [⟨page, 0⟩] }) ht.list hsame
        (addsNode_objects as.pt page))
    · exact (Builds.refl h.list).mono (Nat.zero_le 1)
  refine Res.Returns.bind hchunk fun _ t ht => ?_
  exact ht.trans (hbump ht.list)

end Supply

end SpaghettiOS.Vm
