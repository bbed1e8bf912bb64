import SpaghettiOS.VM.ElfLoad
import SpaghettiOS.VM.Moves

/-!
# What the functions of the pager map

None of the functions of the pager changes the regions of a process, and the only
user pages they map are those that are asked for: a fault maps its own page, with
all rights, and the loader the pages of its segment.
-/

namespace SpaghettiOS.Vm

open Coro (Keeps)
open Coroutine (Res)

/-- The regions are the same, and a page that is mapped was mapped with the same rights
before, or is one that `P` allows with the rights it has. -/
structure Touches (P : Int → Nat → CapRights → Prop) (s t : VmState) : Prop where
  regions : ∀ p, (t.procs p).map AddrSpace.regions = (s.procs p).map AddrSpace.regions
  mapped : ∀ p v, t.vspace p v ≠ none →
    s.vspace p v ≠ none ∧ t.rights p v = s.rights p v ∨ P p v (t.rights p v)

section Footprint

variable {P : Int → Nat → CapRights → Prop} {m : Machine} {pid : Int}

instance : Std.Refl (Touches P) where
  refl _ := ⟨fun _ => rfl, fun _ _ h => .inl ⟨h, rfl⟩⟩

instance : IsTrans VmState (Touches P) where
  trans s t u hst htu := by
    refine ⟨fun p => (htu.regions p).trans (hst.regions p), fun p v hv => ?_⟩
    rcases htu.mapped p v hv with ⟨ht, hr⟩ | hP
    · rcases hst.mapped p v ht with ⟨hs, hr'⟩ | hP
      · exact .inl ⟨hs, hr.trans hr'⟩
      · exact .inr (hr ▸ hP)
    · exact .inr hP

lemma Touches.of_unmaps {s t : VmState} (hprocs : t.procs = s.procs) (hrights : t.rights = s.rights)
    (hmapped : ∀ p v, t.vspace p v = s.vspace p v ∨ t.vspace p v = none) : Touches P s t := by
  refine ⟨fun p => by rw [hprocs], fun p v hv => .inl ⟨?_, by rw [hrights]⟩⟩
  rcases hmapped p v with h | h
  · rwa [← h]
  · exact absurd h hv

lemma Touches.of_same {s t : VmState} (hprocs : t.procs = s.procs)
    (hrights : t.rights = s.rights) (hmapped : t.vspace = s.vspace) : Touches P s t :=
  .of_unmaps hprocs hrights fun p v => .inl (by rw [hmapped])

lemma pageUnmap_unmaps (s : VmState) (cap page : Nat) (p : Int) (v : Nat) :
    (s.pageUnmap cap page).vspace p v = s.vspace p v ∨
      (s.pageUnmap cap page).vspace p v = none := by
  simp only [VmState.pageUnmap]
  split
  · exact .inr rfl
  · exact .inl rfl

lemma Touches.pageUnmap (s : VmState) (cap page : Nat) : Touches P s (s.pageUnmap cap page) :=
  .of_unmaps rfl rfl (pageUnmap_unmaps s cap page)

lemma Touches.release (s : VmState) (page : Nat) : Touches P s (s.release page) :=
  .of_unmaps rfl rfl (pageUnmap_unmaps s (s.frameTable page).userCap page)

lemma Touches.modifyTable (s : VmState) (c : Int) (f : PageTable → PageTable) :
    Touches P s (s.modifyTable c f) := by
  refine ⟨fun p => ?_, fun p v hv => .inl ⟨hv, rfl⟩⟩
  rcases eq_or_ne p c with rfl | hne
  · simp [VmState.modifyTable, Function.comp_def]
  · simp [VmState.modifyTable, hne]

lemma Touches.pageMap (s : VmState) {vs : Int} {vaddr : Nat} {r : CapRights}
    (h : P vs vaddr r) (cap page : Nat) : Touches P s (s.pageMap vs vaddr cap r page) := by
  refine ⟨fun p => rfl, fun p v hv => ?_⟩
  by_cases hpv : p = vs ∧ v = vaddr
  · obtain ⟨rfl, rfl⟩ := hpv
    right
    simpa [VmState.pageMap] using h
  · left
    rcases eq_or_ne p vs with rfl | hp
    · have hne : v ≠ vaddr := fun h => hpv ⟨rfl, h⟩
      simpa [VmState.pageMap, hne] using hv
    · simpa [VmState.pageMap, hp] using hv

lemma touches_pageout : PageoutMoves (Touches P) where
  same := by
    intro s t h _
    rw [h]
    exact .of_same rfl rfl rfl
  swapOut s _ _ := .modifyTable s _ _

lemma touches_moves : TableMoves m (Touches P) where
  toPageoutMoves := touches_pageout
  turn s := by
    refine .of_unmaps ?_ ?_ fun p v => ?_
    · rw [sweepStep_rest]
    · rw [sweepStep_rest]
    · rcases sweepStep_vspace (m := m) (s := s) p v with h | ⟨h, -, -⟩
      · exact .inl h
      · exact .inr h
  release := .release
  take _ _ _ := .of_same rfl rfl rfl
  table := .modifyTable

section Map

variable {vs : Int} {vaddr : Nat} {r : CapRights}

lemma seL4PageMap_touches (h : P vs vaddr r) (cap page : Nat) :
    Keeps (Served pid) (Touches P) (seL4PageMap m vs vaddr cap r page) :=
  seL4PageMap_keeps touches_pageout.same fun s => .pageMap s h cap page

lemma sosMapFrame_touches (h : P vs vaddr r) (c : Int) (cap page : Nat) (isSosAddr : Bool) :
    Keeps (Served pid) (Touches P) (sosMapFrame m c vs cap vaddr r page isSosAddr) :=
  sosMapFrame_keeps touches_moves (seL4PageMap_touches h cap page) c isSosAddr

end Map

lemma cspaceAllocSlot_touches : Keeps (Served pid) (Touches P) (cspaceAllocSlot m) :=
  cspaceAllocSlot_keeps touches_pageout.same fun _ => .of_same rfl rfl rfl

lemma settle_touches (c : Int) (vaddr slot page : Nat) :
    Keeps (Served pid) (Touches P) (settle c vaddr slot page) :=
  fun _ => .of_same rfl rfl rfl

/-! ## The fault handler -/

section Fault

variable {c : Int} {vaddr : Nat}

lemma remapPage_touches (h : P c vaddr allRights) (entry : Nat) :
    Keeps (Served pid) (Touches P) (remapPage m c vaddr entry) := by
  refine Keeps.bind .get fun s => Keeps.bind (.ofOption _ _) fun fte => ?_
  refine Keeps.bind (.check _ _) fun _ =>
    Keeps.bind (.modify fun s => .of_same rfl rfl rfl) fun _ => ?_
  refine Keeps.bind (.check _ _) fun _ => Keeps.bind (seL4PageMap_touches h _ _) fun _ => ?_
  exact .modify fun s => .of_same rfl rfl rfl

lemma allocPage_touches : Keeps (Served pid) (Touches P) (allocPage m) :=
  Keeps.bind (frameAllocWith_keeps touches_moves.toAllocMoves false) fun _ =>
    Keeps.bind cspaceAllocSlot_touches fun _ => .pure _

lemma readPage_touches (h : P c vaddr allRights) (entry : Nat) :
    Keeps (Served pid) (Touches P) (readPage m c vaddr entry) := by
  refine Keeps.bind allocPage_touches fun x => ?_
  refine Keeps.bind (sosMapFrame_touches h _ _ _ _) fun _ => ?_
  refine Keeps.bind (pagein_keeps touches_pageout.same _ _) fun _ =>
    Keeps.bind (sosCopyin_keeps touches_pageout.same _ _ _) fun _ => ?_
  exact settle_touches _ _ _ _

lemma newPage_touches (h : P c vaddr allRights) :
    Keeps (Served pid) (Touches P) (newPage m c vaddr) := by
  refine Keeps.bind allocPage_touches fun x => ?_
  exact Keeps.bind (sosMapFrame_touches h _ _ _ _) fun _ => settle_touches _ _ _ _

lemma faultCo_touches {fa : Nat} (h : P c (pageAlign fa) allRights) :
    Keeps (Served pid) (Touches P) (faultCo m c fa) := by
  refine Keeps.bind (.modify fun s => .of_same rfl rfl rfl) fun _ => Keeps.bind ?_ fun _ =>
    .modify fun s => .of_same rfl rfl rfl
  refine Keeps.bind .get fun s => Keeps.bind (.ofOption _ _) fun as => ?_
  refine Keeps.bind (.ofOption _ _) fun reg => Keeps.bind (.check _ _) fun _ => ?_
  dsimp only [handleFault]
  split
  · exact newPage_touches h
  · split
    · exact remapPage_touches h _
    · split
      · exact readPage_touches h _
      · exact newPage_touches h

end Fault

/-! ## The end of an address space -/

lemma forM_touches {α : Type} (l : List α) {f : α → VmM Unit}
    (hf : ∀ x, Keeps (Served pid) (Touches P) (f x)) :
    Keeps (Served pid) (Touches P) (l.forM f) := by
  induction l with
  | nil => exact .pure _
  | cons x l ih => exact Keeps.bind (hf x) fun _ => ih

lemma destroyItem_touches (x : Item) : Keeps (Served pid) (Touches P) (destroyItem m x) := by
  cases x with
  | frame f => exact frameFree_keeps touches_moves.toAllocMoves f
  | slot i =>
    refine Keeps.bind (fun s => ?_) fun _ => .pure _
    simp only [pagefileRemove, Coro.bind_apply, Coro.get_apply, Res.bind]
    split
    · exact Std.Refl.refl s
    · exact .of_same rfl rfl rfl

lemma pageTableDestroy_touches (t : PageTable) :
    Keeps (Served pid) (Touches P) (pageTableDestroy m t) := by
  rw [pageTableDestroy_eq]
  generalize t.items = l
  exact forM_touches l destroyItem_touches

/-! ## The loader -/

lemma cspaceDelete_touches (cap page : Nat) :
    Keeps (Served pid) (Touches P) (cspaceDelete cap page) :=
  fun s => .pageUnmap s cap page

section Loader

variable {c : Int} {h : ProgramHeader}

lemma mapLoadee_touches {v : Nat} (hP : P c v (getSel4RightsFromElf h.flags)) (slot page : Nat) :
    Keeps (Served pid) (Touches P) (mapLoadee m c h v slot page) := by
  have hundo : ∀ err : Int, Keeps (Served pid) (Touches P)
      (do cspaceDelete slot page; frameFree m page; pure err : VmM Int) := fun err =>
    Keeps.bind (cspaceDelete_touches _ _) fun _ =>
      Keeps.bind (frameFree_keeps touches_moves.toAllocMoves _) fun _ => .pure _
  refine Keeps.bind (sosMapFrame_touches hP _ _ _ _) fun err => ?_
  refine Keeps.bind (settle_touches _ _ _ _) fun _ => ?_
  split
  · exact hundo _
  · split
    · refine Keeps.bind .get fun s => Keeps.bind (.ofOption _ _) fun r => ?_
      split
      · exact hundo _
      · exact .pure _
    · exact .pure _

variable (hkernel : ∀ v, P kernelProc v allRights)

include hkernel

lemma copyPage_touches (dst slot page len : Nat) (bytes : Nat → UInt8) :
    Keeps (Served pid) (Touches P) (copyPage m c dst slot page len bytes) := by
  refine Keeps.bind cspaceAllocSlot_touches fun loaderSlot => ?_
  split
  · exact .pure _
  · refine Keeps.bind (ask_keeps touches_pageout.same _) fun err => ?_
    split
    · exact Keeps.bind (cspaceDelete_touches _ _) fun _ => .pure _
    · refine Keeps.bind (sosMapFrame_touches (hkernel _) _ _ _ _) fun err => ?_
      split
      · refine Keeps.bind (cspaceDelete_touches _ _) fun _ => ?_
        exact Keeps.bind (cspaceDelete_touches _ _) fun _ => .pure _
      · refine Keeps.bind (.modify fun s => .of_same rfl rfl rfl) fun _ => ?_
        exact Keeps.bind (cspaceDelete_touches _ _) fun _ => .pure _

lemma loadPage_touches {dst : Nat} (hP : P c (pageAlign dst) (getSel4RightsFromElf h.flags))
    (file : Nat → UInt8) (pos src : Nat) :
    Keeps (Served pid) (Touches P) (loadPage m c file h pos dst src) := by
  refine Keeps.bind (frameAllocWith_keeps touches_moves.toAllocMoves false) fun x => ?_
  refine Keeps.bind cspaceAllocSlot_touches fun slot => ?_
  split
  · exact .pure _
  · refine Keeps.bind (ask_keeps touches_pageout.same _) fun err => ?_
    split
    · exact .pure _
    · refine Keeps.bind (mapLoadee_touches hP _ _) fun err => ?_
      split
      · exact .pure _
      · exact copyPage_touches hkernel _ _ _ _ _

omit hkernel in
lemma loadLoop_touches {I : Nat → Nat → Prop} {file : Nat → UInt8}
    (hpage : ∀ pos dst src, pos < h.memorySize → I pos dst →
      Keeps (Served pid) (Touches P) (loadPage m c file h pos dst src) ∧
        I ((pos + (pageSize - dst % pageSize)) % 2 ^ 32)
          ((dst + (pageSize - dst % pageSize)) % 2 ^ 64))
    (n : Nat) {pos dst : Nat} (hI : I pos dst) (src : Nat) :
    Keeps (Served pid) (Touches P) (loadLoop m c file h n pos dst src) := by
  induction n generalizing pos dst src with
  | zero =>
    unfold loadLoop
    split
    · exact fun _ => trivial
    · exact .pure _
  | succ n ih =>
    unfold loadLoop
    split
    · rename_i hpos
      obtain ⟨hkeeps, hnext⟩ := hpage pos dst src hpos hI
      refine Keeps.bind hkeeps fun err => ?_
      split
      · exact .pure _
      · exact ih hnext _
    · exact .pure _

lemma loadSegmentIntoVspace_touches (hP : ∀ pos < h.memorySize,
      P c (pageAlign ((h.vaddr + pos) % 2 ^ 64)) (getSel4RightsFromElf h.flags))
    (hsize : h.memorySize + pageSize ≤ 2 ^ 32) (hv : h.vaddr < 2 ^ 64) (file : Nat → UInt8) :
    Keeps (Served pid) (Touches P) (loadSegmentIntoVspace m c file h) := by
  refine Keeps.bind (.check _ _) fun _ => loadLoop_touches
    (I := fun pos dst => dst = (h.vaddr + pos) % 2 ^ 64) ?_ _
    (by rw [Nat.add_zero, Nat.mod_eq_of_lt hv]) _
  rintro pos _ src hpos rfl
  refine ⟨loadPage_touches hkernel (hP pos hpos) file pos src, ?_⟩
  unfold pageSize at hsize ⊢
  omega

end Loader

end Footprint

end SpaghettiOS.Vm
