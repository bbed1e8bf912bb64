import Mathlib.Data.Finset.Card
import SpaghettiOS.VM.Fault
import SpaghettiOS.VM.Usage

/-!
# The steps of a fault, in the books

One lemma for each thing a page fault does to the frame table, the page tables
and the pagefile list between two suspensions.  Each says which use changes in
the account and what becomes of the claim of the coroutine.
-/

namespace SpaghettiOS.Vm

open Function (update update_of_ne update_self)

variable {m : Machine} {s : VmState} {u : Usage} {o : Int → Option Claim}
variable {c : Int} {k : Claim}

/-! ## Page tables in the state -/

variable {f v i : Nat} {p : Int} {as : AddrSpace} {l : List Nat} {free : Nat → Prop}

lemma pte_modifyTable (h : s.procs p = some as) (g : PageTable → PageTable) (q : Int) (v : Nat) :
    (s.modifyTable p g).pte q v = if q = p then (g as.pt).pte (getPtIndex v) else s.pte q v := by
  rcases eq_or_ne q p with rfl | hq
  · simp [VmState.pte, VmState.modifyTable, h]
  · simp [VmState.pte, VmState.modifyTable, hq]

lemma tableFrame_modifyTable (h : s.procs p = some as) (g : PageTable → PageTable) (q : Int) :
    (s.modifyTable p g).tableFrame q = if q = p then (g as.pt).frameAt else s.tableFrame q := by
  funext x
  rcases eq_or_ne q p with rfl | hq
  · simp [VmState.tableFrame, VmState.modifyTable, h]
  · simp [VmState.tableFrame, VmState.modifyTable, hq]

lemma procs_modifyTable_ne_none {q : Int} {g : PageTable → PageTable} :
    (s.modifyTable p g).procs q ≠ none ↔ s.procs q ≠ none := by
  rcases eq_or_ne q p with rfl | hq
  · simp [VmState.modifyTable]
  · simp [VmState.modifyTable, hq]

lemma pte_of_procs (h : s.procs p = some as) (v : Nat) : s.pte p v = as.pt.pte (getPtIndex v) := by
  simp [VmState.pte, h]

lemma tableFrame_of_procs (h : s.procs p = some as) : s.tableFrame p = as.pt.frameAt := by
  funext x
  simp [VmState.tableFrame, h]

lemma exists_word_of_pte (h : s.pte p v ≠ .invalid) :
    ∃ as, s.procs p = some as ∧ as.pt.word (getPtIndex v) ≠ none := by
  cases hp : s.procs p with
  | none => simp [VmState.pte, hp] at h
  | some as =>
    refine ⟨as, rfl, fun hw => h ?_⟩
    simp [pte_of_procs hp, PageTable.pte, hw]

lemma pte_setWord_state (h : s.procs p = some as) (hw : as.pt.word (getPtIndex v) ≠ none)
    (hv : PageAddr v) (w : Word) (q : Int) {x : Nat} (hx : PageAddr x) :
    (s.modifyTable p fun t => t.setWord (getPtIndex v) w).pte q x =
      if q = p ∧ x = v then .ofWord w else s.pte q x := by
  rw [pte_modifyTable h]
  rcases eq_or_ne q p with rfl | hq
  · rcases eq_or_ne x v with rfl | hxv
    · simp [PageTable.pte_setWord hw]
    · have hne : getPtIndex x ≠ getPtIndex v := fun he => hxv (getPtIndex_inj hx hv he)
      simp [PageTable.pte_setWord hw, hne, hxv, pte_of_procs h]
  · simp [hq]

lemma tableFrame_setWord_state (p : Int) (i : PtIndex) (w : Word) :
    (s.modifyTable p fun t => t.setWord i w).tableFrame = s.tableFrame := by
  funext q
  cases h : s.procs p with
  | none =>
    funext x
    by_cases hq : q = p <;> simp [VmState.tableFrame, VmState.modifyTable, h, hq]
  | some as =>
    rw [tableFrame_modifyTable h]
    split
    · subst q
      rw [PageTable.frameAt_setWord, tableFrame_of_procs h]
    · rfl

lemma wellFlagged_update_pagefile (n : Nat) : WellFlagged (pageUpdateEntry pPagefile n) :=
  .inr (.inr (pageGetBits_setBits _ _))

lemma wellFlagged_update_invalid (n : Nat) : WellFlagged (pageUpdateEntry pInvalid n) :=
  .inr (.inl (pageGetBits_setBits _ _))

lemma wellFlagged_ofNat {page : Nat} (h : page < 2 ^ 52) : WellFlagged (BitVec.ofNat 64 page) :=
  .inl (pageGetBits_ofNat h)

def Flagged (s : VmState) : Prop :=
  ∀ p as i w, s.procs p = some as → as.pt.word i = some w → WellFlagged w

lemma Flagged.modifyTable (h : Flagged s) (p : Int) {g : PageTable → PageTable}
    (hg : ∀ t i w, (g t).word i = some w → t.word i = some w ∨ WellFlagged w) :
    Flagged (s.modifyTable p g) := by
  intro q as i w hq hw
  rcases eq_or_ne q p with rfl | hne
  · cases hs : s.procs q with
    | none => simp [VmState.modifyTable, hs] at hq
    | some as' =>
      simp only [VmState.modifyTable, hs, update_self, Option.map_some, Option.some.injEq] at hq
      subst hq
      rcases hg _ _ _ hw with hold | hnew
      · exact h q as' i w hs hold
      · exact hnew
  · exact h q as i w (by simpa [VmState.modifyTable, hne] using hq) hw

lemma Flagged.setWord (h : Flagged s) (p : Int) (i : PtIndex) {w : Word} (hw : WellFlagged w) :
    Flagged (s.modifyTable p fun t => t.setWord i w) := by
  refine h.modifyTable p fun t j w' hj => ?_
  rw [PageTable.word_setWord] at hj
  split at hj
  · obtain ⟨_, -, rfl⟩ := Option.map_eq_some_iff.mp hj
    exact .inr hw
  · exact .inl hj

lemma Holds.of_update (hc : ∀ d, ClaimOk m s u d (update o c (some k) d)) : Holds m s u c k := by
  have hown := hc c
  rwa [update_self] at hown

/-! ## Taking a frame -/

lemma Matches.nextFree (hm : Matches m s u) (h : s.frameTableCurrSize < m.frameTableSize) :
    ∃ l, FreeList m s (fun f => u.frame f = .free) (s.nextFreePage :: l) := by
  obtain ⟨l, hl⟩ := hm.freeFrames
  cases l with
  | nil =>
    have hcount := hl.count
    simp only [List.length_nil] at hcount
    omega
  | cons f l =>
    obtain rfl := hl.chain.1
    exact ⟨l, hl⟩

lemma Matches.nextFree_free (hm : Matches m s u) (h : s.frameTableCurrSize < m.frameTableSize) :
    s.nextFreePage < m.frameTableSize ∧ u.frame s.nextFreePage = .free := by
  obtain ⟨l, hl⟩ := hm.nextFree h
  exact (hl.mem_iff s.nextFreePage).mp List.mem_cons_self

def takenBy (important : Bool) (c : Int) : FrameUse := if important then .spare c else .fresh c

def Claim.taking (k : Claim) (important : Bool) (page : Nat) : Claim :=
  if important then { k with spare := some page } else { k with page := some page }

def Claim.CanTake (k : Claim) (important : Bool) : Prop :=
  if important then k.spare = none else k.page = none ∧ k.linked = false

lemma frameTable_take (imp : Bool) (f g : Nat) :
    (s.take m imp f).frameTable g = if g = f then
        { s.frameTable f with
          cap := s.nextSlot + 1, important := imp, userVaddr := 0, pid := -1, userCap := 0,
          refBit := true }
      else s.frameTable g := by
  rcases eq_or_ne g f with rfl | hg
  · simp [VmState.take, VmState.setFrame, VmState.clearPage]
  · simp [VmState.take, VmState.setFrame, VmState.clearPage, hg]

lemma FreeList.take (h : FreeList m s free (s.nextFreePage :: l)) (imp : Bool) :
    FreeList m (s.take m imp s.nextFreePage) (fun f => free f ∧ f ≠ s.nextFreePage) l := by
  have hnot : s.nextFreePage ∉ l := (List.nodup_cons.mp h.nodup).1
  refine ⟨h.chain.2.congr fun f hf => ?_, h.nodup.of_cons, fun f => ?_, ?_⟩
  · have hne : f ≠ s.nextFreePage := fun he => hnot (he ▸ hf)
    rw [frameTable_take, if_neg hne]
  · have hmem := h.mem_iff f
    grind
  · have hcount := h.count
    simp only [VmState.take, List.length_cons] at hcount ⊢
    omega

lemma Matches.take (hm : Matches m s u) (h : s.frameTableCurrSize < m.frameTableSize)
    (imp : Bool) (c : Int) :
    Matches m (s.take m imp s.nextFreePage)
      { u with frame := update u.frame s.nextFreePage (takenBy imp c) } := by
  obtain ⟨l, hl⟩ := hm.nextFree h
  obtain ⟨hlt, hfree⟩ := (hl.mem_iff s.nextFreePage).mp (by simp)
  have hl' := hl.take imp
  refine { hm with
    frames := fun f hf => ?_
    freeFrames := ⟨l, hl'.chain, hl'.nodup, fun f => (hl'.mem_iff f).trans (by grind [takenBy]),
      hl'.count⟩
    framed := fun p v f hv => (hm.framed p v f hv).trans (by grind [takenBy])
    tables := fun p x f => (hm.tables p x f).trans (by grind [takenBy])
    leaving := fun f p v d hf hu => hm.leaving f p v d hf (by grind [takenBy]) }
  rw [frameTable_take]
  rcases eq_or_ne f s.nextFreePage with rfl | hne
  · cases imp <;> simp [FrameOk, takenBy]
  · simpa [hne] using hm.frames f hf

lemma Books.take (hb : Books m s (update o c (some k)))
    (h : s.frameTableCurrSize < m.frameTableSize) {imp : Bool} (hk : k.CanTake imp) :
    Books m (s.take m imp s.nextFreePage) (update o c (some (k.taking imp s.nextFreePage))) := by
  obtain ⟨u, hm, hc⟩ := hb
  obtain ⟨hlt, hfree⟩ := hm.nextFree_free h
  have hown := Holds.of_update hc
  refine Books.step _ (hm.take h imp c) ?_ hc fun d hd => ?_
  · cases imp with
    | false =>
      obtain ⟨hpage, hlinked⟩ := hk
      exact { hown with
        spare := fun f => Iff.trans (by grind [takenBy]) (hown.spare f)
        fresh := fun f => by
          have := hown.fresh f
          grind [takenBy, Claim.taking]
        linked := fun f v => by
          have := hown.linked f v
          grind [takenBy, Claim.taking]
        leaving := fun f p v => Iff.trans (by grind [takenBy]) (hown.leaving f p v)
        hasPage := fun _ => by simp [Claim.taking] }
    | true =>
      have hspare : k.spare = none := hk
      exact { hown with
        spare := fun f => by
          have := hown.spare f
          grind [takenBy, Claim.taking]
        fresh := fun f => Iff.trans (by grind [takenBy]) (hown.fresh f)
        linked := fun f v => Iff.trans (by grind [takenBy]) (hown.linked f v)
        leaving := fun f p v => Iff.trans (by grind [takenBy]) (hown.leaving f p v) }
  · exact {
      frame := fun f hf => by grind [takenBy, FrameUse.owner]
      slot := fun i => Iff.rfl
      toSlot := fun _ _ _ _ _ _ hi hs => ⟨hi, hs⟩
      proc := id
      entry := fun v _ _ => rfl
      tables := rfl }

/-! ## Writing a frame out -/

lemma FreeList.length_le (h : FreeList m s free l) (hf : f < m.frameTableSize) (hnot : ¬ free f) :
    l.length + 1 ≤ m.frameTableSize := by
  have hnodup : (f :: l).Nodup := List.nodup_cons.mpr
    ⟨fun hmem => hnot ((h.mem_iff f).mp hmem).2, h.nodup⟩
  have hsub : (f :: l).toFinset ⊆ Finset.range m.frameTableSize := by
    intro g hg
    rw [Finset.mem_range]
    rcases List.mem_cons.mp (List.mem_toFinset.mp hg) with rfl | hg
    · exact hf
    · exact ((h.mem_iff g).mp hg).1
  have hcard := Finset.card_le_card hsub
  rwa [List.toFinset_card_of_nodup hnodup, Finset.card_range, List.length_cons] at hcard

lemma frameTable_release (f g : Nat) :
    (s.release f).frameTable g = if g = f then
        { s.frameTable f with
          nextFreePage := s.nextFreePage, cap := 0, userCap := 0, userVaddr := 0, pid := -1 }
      else s.frameTable g := by
  rcases eq_or_ne g f with rfl | hg
  · simp [VmState.release, VmState.setFrame, VmState.pageUnmap]
  · simp [VmState.release, VmState.setFrame, VmState.pageUnmap, hg]

lemma FreeList.release (h : FreeList m s free l) (hf : f < m.frameTableSize) (hnot : ¬ free f) :
    FreeList m (s.release f) (fun g => free g ∨ g = f) (f :: l) := by
  have hmem : f ∉ l := fun hmem => hnot ((h.mem_iff f).mp hmem).2
  refine ⟨⟨rfl, ?_⟩, List.nodup_cons.mpr ⟨hmem, h.nodup⟩, fun g => ?_, ?_⟩
  · simp only [frameTable_release, if_true]
    refine h.chain.congr fun g hg => ?_
    rw [if_neg]
    rintro rfl
    exact hmem hg
  · have hiff := h.mem_iff g
    grind
  · have hcount := h.count
    have hle := h.length_le hf hnot
    simp only [VmState.release, List.length_cons]
    omega

lemma Matches.release (hm : Matches m s u) (hf : f < m.frameTableSize)
    (hu : u.frame f = .leaving p v c) :
    Matches m (s.release f) { u with frame := update u.frame f .free } := by
  obtain ⟨l, hl⟩ := hm.freeFrames
  have hl' := hl.release hf (by simp [hu])
  refine { hm with
    frames := fun g hg => ?_
    freeFrames := ⟨f :: l, hl'.chain, hl'.nodup,
      fun g => (hl'.mem_iff g).trans (by grind), hl'.count⟩
    framed := fun q w g hw => (hm.framed q w g hw).trans (by grind)
    tables := fun q x g => (hm.tables q x g).trans (by grind)
    leaving := fun g q w d hg hu' => hm.leaving g q w d hg (by grind) }
  rw [frameTable_release]
  rcases eq_or_ne g f with rfl | hne
  · simp [FrameOk]
  · simpa [hne] using hm.frames g hg

lemma Books.release (hb : Books m s (update o c (some k))) {l : Leaving}
    (hk : k.leaving = some l) :
    Books m (s.release l.frame) (update o c (some { k with leaving := none })) := by
  obtain ⟨u, hm, hc⟩ := hb
  have hown := Holds.of_update hc
  obtain ⟨f, p, v, i⟩ := l
  obtain ⟨hf, hu⟩ := (hown.leaving f p v).mpr ⟨i, hk⟩
  refine Books.step _ (hm.release hf hu) ?_ hc fun d hd => ?_
  · exact { hown with
      spare := fun g => Iff.trans (by grind) (hown.spare g)
      fresh := fun g => Iff.trans (by grind) (hown.fresh g)
      linked := fun g w => Iff.trans (by grind) (hown.linked g w)
      leaving := fun g q w => by
        have hiff := hown.leaving g q w
        grind
      toSlot := fun l h => by cases h }
  · exact {
      frame := fun g hg => by grind [FrameUse.owner]
      slot := fun i => Iff.rfl
      toSlot := fun _ _ _ _ _ _ hi hs => ⟨hi, hs⟩
      proc := id
      entry := fun w _ _ => rfl
      tables := rfl }

lemma Matches.nextFreeNode (hm : Matches m s u) {l : PagefileList}
    (h : nextFreeNode s.pfList = (i, l)) : i < l.size ∧ s.pfList.size ≤ l.size ∧ l.free.Nodup ∧
      (∀ j, j < l.size ↔ j < s.pfList.size ∨ j = i) ∧
      (∀ j, j ∈ l.free ↔ j ∈ s.pfList.free ∧ j ≠ i) ∧ (i < s.pfList.size → u.slot i = .free) := by
  obtain ⟨hnodup, hfree⟩ := hm.freeSlots
  unfold Vm.nextFreeNode at h
  split at h
  · rename_i ind rest hl
    obtain ⟨rfl, rfl⟩ := Prod.mk.inj h
    have hmem := hfree ind
    rw [hl] at hnodup hmem
    have hin := hmem.mp (by simp)
    refine ⟨hin.1, le_rfl, hnodup.of_cons, fun j => ?_, fun j => ?_, fun _ => hin.2⟩
    · grind
    · rw [hl]
      grind
  · rename_i hl
    obtain ⟨rfl, rfl⟩ := Prod.mk.inj h
    refine ⟨by simp, by simp, by simp [hl], fun j => ?_, fun j => ?_,
      fun hlt => absurd hlt (by simp)⟩
    · simp only
      omega
    · simp [hl]

lemma not_leaving_of_claims (hc : ∀ d, ClaimOk m s u d (update o c (some k) d))
    (hk : k.leaving = none) (hno : NoLeaving c o) (hf : f < m.frameTableSize) (p : Int) (v : Nat)
    (d : Int) : u.frame f ≠ .leaving p v d := by
  intro hu
  have hd := hc d
  rcases eq_or_ne d c with rfl | hne
  · rw [update_self] at hd
    obtain ⟨i, hl⟩ := (Holds.leaving hd f p v).mp ⟨hf, hu⟩
    rw [hk] at hl
    cases hl
  · rw [update_of_ne hne] at hd
    cases hod : o d with
    | none =>
      rw [hod] at hd
      exact hd.1 f hf (by rw [hu]; rfl)
    | some k' =>
      rw [hod] at hd
      obtain ⟨i, hl⟩ := (Holds.leaving hd f p v).mp ⟨hf, hu⟩
      rw [hno d k' hne hod] at hl
      cases hl

lemma Matches.victim (hm : Matches m s u) (hc : ∀ d, ClaimOk m s u d (update o c (some k) d))
    (hk : k.leaving = none) (hno : NoLeaving c o) (hf : f < m.frameTableSize)
    (hcap : s.allocated f) (himp : (s.frameTable f).important = false)
    (hpid : 0 ≤ (s.frameTable f).pid) :
    u.frame f = .page (s.frameTable f).pid (s.frameTable f).userVaddr := by
  have hok := hm.frames f hf
  cases hu : u.frame f with
  | free =>
    rw [hu] at hok
    exact absurd hok hcap
  | kernel =>
    rw [hu] at hok
    rcases hok.2 with hi | hp
    · rw [himp] at hi
      cases hi
    · omega
  | table p x | spare d =>
    rw [hu] at hok
    have htrue : (s.frameTable f).important = true := hok.2
    rw [himp] at htrue
    cases htrue
  | fresh d | linked d v =>
    rw [hu] at hok
    have hneg : (s.frameTable f).pid < 0 := hok.2.2
    omega
  | leaving p v d => exact absurd hu (not_leaving_of_claims hc hk hno hf p v d)
  | page p v =>
    rw [hu] at hok
    obtain ⟨-, -, rfl, rfl, -⟩ := hok
    rfl

/-- The entry of a page is made to name a slot of the pagefile. -/
def VmState.swapOut (s : VmState) (pid : Int) (vaddr ind : Nat) (l : PagefileList) : VmState :=
  { s with pfList := l }.modifyTable pid fun t =>
    t.setWord (getPtIndex vaddr) (pageUpdateEntry pPagefile ind)

lemma pte_swapOut {l : PagefileList} (hv : PageAddr v) (hpte : s.pte p v = .frame f)
    (hi : i < 2 ^ 52) (q : Int) {w : Nat} (hw : PageAddr w) :
    (s.swapOut p v i l).pte q w = if q = p ∧ w = v then .pagefile i else s.pte q w := by
  obtain ⟨as, has, hword⟩ := exists_word_of_pte (s := s) (p := p) (v := v) (by simp [hpte])
  rw [VmState.swapOut, pte_setWord_state (s := { s with pfList := l }) has hword hv _ q hw,
    ofWord_update_pagefile, Nat.mod_eq_of_lt hi]
  rfl

lemma tableFrame_swapOut (p : Int) (v i : Nat) (l : PagefileList) :
    (s.swapOut p v i l).tableFrame = s.tableFrame :=
  tableFrame_setWord_state (s := { s with pfList := l }) p _ _

lemma procs_swapOut_ne_none {q : Int} {l : PagefileList} :
    (s.swapOut p v i l).procs q ≠ none ↔ s.procs q ≠ none :=
  procs_modifyTable_ne_none (s := { s with pfList := l })

lemma Matches.swapOut (hm : Matches m s u) {l : PagefileList} (hf : f < m.frameTableSize)
    (hu : u.frame f = .page p v) (hclock : s.clockCurr = f)
    (hnext : Vm.nextFreeNode s.pfList = (i, l)) (hi : i < 2 ^ 52)
    (hno : ∀ g < m.frameTableSize, ∀ p v d, u.frame g ≠ .leaving p v d) :
    Matches m (s.swapOut p v i l)
      { frame := update u.frame f (.leaving p v c), slot := update u.slot i (.page p v) } := by
  obtain ⟨hilt, hle, hnodup, hsize, hmem, hwas⟩ := hm.nextFreeNode hnext
  have hok := hm.frames f hf
  rw [hu] at hok
  obtain ⟨-, -, -, -, hpos, hv⟩ := hok
  have hpte : s.pte p v = .frame f := (hm.framed p v f hv).mpr ⟨hf, .inl hu⟩
  have hpte' := fun q w hw => pte_swapOut (l := l) hv hpte hi q (w := w) hw
  refine { hm with
    pids := fun q hq => hm.pids q (procs_swapOut_ne_none.mp hq)
    frames := fun g hg => ?_
    freeFrames := ?_
    framed := fun q w g hw => ?_
    swapped := fun q w j hw => ?_
    slotAddr := fun j q w hj hs => ?_
    tables := fun q x g => ?_
    flagged := Flagged.setWord (s := { s with pfList := l }) hm.flagged p _
      (wellFlagged_update_pagefile i)
    freeSlots := ⟨hnodup, fun j => ?_⟩
    leaving := fun g q w d hg hug => ?_ }
  · show FrameOk (s.frameTable g) (update u.frame f _ g)
    have hok := hm.frames g hg
    rcases eq_or_ne g f with rfl | hne
    · rw [hu] at hok
      simpa [FrameOk] using hok
    · simpa [hne] using hok
  · obtain ⟨fl, hl⟩ := hm.freeFrames
    refine ⟨fl, hl.chain, hl.nodup, fun g => (hl.mem_iff g).trans (by grind), hl.count⟩
  · rw [hpte' q w hw]
    have hiff := hm.framed q w g hw
    have hiff' := hm.framed p v g hv
    grind
  · rw [hpte' q w hw]
    have hiff := hm.swapped q w j hw
    have hiff' := hm.swapped q w i hw
    have hsz := hsize j
    show _ ↔ j < l.size ∧ _
    grind
  · have haddr := hm.slotAddr j q w
    have hsz := (hsize j).mp hj
    grind
  · rw [tableFrame_swapOut]
    exact (hm.tables q x g).trans (by grind)
  · have hiff := hm.freeSlots.2 j
    have hsz := hsize j
    have hmm := hmem j
    show j ∈ l.free ↔ j < l.size ∧ _
    grind
  · rcases eq_or_ne g f with rfl | hne
    · simp only [update_self, FrameUse.leaving.injEq] at hug
      obtain ⟨rfl, rfl, rfl⟩ := hug
      exact ⟨hclock, i, hilt, by simp⟩
    · simp only [update_of_ne hne] at hug
      exact absurd hug (hno g hg q w d)

lemma Books.swapOut (hb : Books m s (update o c (some k))) (hk : k.leaving = none)
    (hno : NoLeaving c o) {l : PagefileList} (hclock : s.clockCurr = f) (hcap : s.allocated f)
    (himp : (s.frameTable f).important = false) (hpid : 0 ≤ (s.frameTable f).pid)
    (hnext : Vm.nextFreeNode s.pfList = (i, l)) (hi : i < 2 ^ 52) :
    Books m (s.swapOut (s.frameTable f).pid (s.frameTable f).userVaddr i l)
      (update o c (some { k with
        leaving := some ⟨f, (s.frameTable f).pid, (s.frameTable f).userVaddr, i⟩ })) := by
  obtain ⟨u, hm, hc⟩ := hb
  have hown := Holds.of_update hc
  have hf : f < m.frameTableSize := hclock ▸ hm.clock
  have hu := hm.victim hc hk hno hf hcap himp hpid
  generalize (s.frameTable f).pid = p at *
  generalize (s.frameTable f).userVaddr = v at *
  have hnone := fun g hg p v d => not_leaving_of_claims (f := g) hc hk hno hg p v d
  obtain ⟨hilt, hle, -, hsize, -, hwas⟩ := hm.nextFreeNode hnext
  have hpte : ∀ q w, PageAddr w → (∀ g, s.pte q w ≠ .frame g) →
      (s.swapOut p v i l).pte q w = s.pte q w := by
    intro q w hw hne
    have hok := hm.frames f hf
    rw [hu] at hok
    obtain ⟨-, -, -, -, -, hv⟩ := hok
    have hpv : s.pte p v = .frame f := (hm.framed p v f hv).mpr ⟨hf, .inl hu⟩
    rw [pte_swapOut hv hpv hi q hw, if_neg]
    rintro ⟨rfl, rfl⟩
    exact hne f hpv
  refine Books.step _ (hm.swapOut (c := c) hf hu hclock hnext hi hnone) ?_ hc fun d hd => ?_
  · refine { hown with
      spare := fun g => Iff.trans (by grind) (hown.spare g)
      fresh := fun g => Iff.trans (by grind) (hown.fresh g)
      linked := fun g w => Iff.trans (by grind) (hown.linked g w)
      leaving := fun g q w => ?_
      toSlot := fun l' hl' => by cases hl'; exact ⟨hilt, by simp⟩
      reading := fun j => ?_
      proc := procs_swapOut_ne_none.mpr hown.proc
      pending := fun hl => ?_
      shape := by rw [tableFrame_swapOut]; exact hown.shape }
    · rcases eq_or_ne g f with rfl | hne
      · simp [hf]
      · have hiff := hown.leaving g q w
        simp only [update_of_ne hne, hiff, hk]
        simp [hne.symm]
    · have hiff := hown.reading j
      have hsz := hsize j
      show j < l.size ∧ _ ↔ _
      grind
    · have hp := hown.pending hl
      rw [hpte c k.vaddr hown.addr fun g hg => k.entry_ne_frame g (hp.symm.trans hg)]
      exact hp
  · refine {
      frame := fun g hg => by grind [FrameUse.owner]
      slot := fun j => ?_
      toSlot := fun g q w j hg hug => absurd hug (hnone g hg q w d)
      proc := procs_swapOut_ne_none.mpr
      entry := hpte d
      tables := by rw [tableFrame_swapOut] }
    have hsz := hsize j
    show j < l.size ∧ _ ↔ _
    grind

/-! ## Growing a page table -/

/-- A table with one more node: its frame stands at a place that was empty, and
the entries in it are invalid. -/
structure AddsNode (x : PageTable.Place) (t t' : PageTable) (f : Nat) : Prop where
  empty : t.frameAt x = none
  frameAt : t'.frameAt = update t.frameAt x (some f)
  word : ∀ i, t'.word i = t.word i ∨ t.word i = none ∧ t'.word i = some (pageUpdateEntry pInvalid 0)

lemma addsNode_pud {t : PageTable} {a : Fin 512} (h : t.frameAt (.pud a) = none) (f : Nat) :
    AddsNode (.pud a) t (t.addPud a f) f := by
  have hpud : t.pud a = none := Option.map_eq_none_iff.mp h
  exact ⟨h, PageTable.frameAt_addPud hpud f,
    fun i => .inl (congrFun (PageTable.word_addPud hpud f) i)⟩

lemma addsNode_pd {t : PageTable} {a b : Fin 512} (hu : t.frameAt (.pud a) ≠ none)
    (h : t.frameAt (.pd a b) = none) (f : Nat) : AddsNode (.pd a b) t (t.addPd a b f) f := by
  have hpud : t.pud a ≠ none := fun hn => hu (Option.map_eq_none_iff.mpr hn)
  have hpd : t.pd a b = none := Option.map_eq_none_iff.mp h
  exact ⟨h, PageTable.frameAt_addPd hpud hpd f,
    fun i => .inl (congrFun (PageTable.word_addPd hpud hpd f) i)⟩

lemma addsNode_pt {t : PageTable} {a b d : Fin 512} (hd : t.frameAt (.pd a b) ≠ none)
    (h : t.frameAt (.pt a b d) = none) (f : Nat) : AddsNode (.pt a b d) t (t.addPt a b d f) f := by
  have hpd : t.pd a b ≠ none := fun hn => hd (Option.map_eq_none_iff.mpr hn)
  have hpt : t.pt a b d = none := Option.map_eq_none_iff.mp h
  exact ⟨h, PageTable.frameAt_addPt hpd f, PageTable.word_addPt hpd hpt f⟩

lemma addsNode_objects (t : PageTable) (f : Nat) :
    AddsNode (.objects t.seL4Pages.length) t
      { t with seL4Pages := t.seL4Pages ++ [⟨f, 0⟩] } f := by
  exact ⟨by simp [PageTable.frameAt], PageTable.frameAt_addObjects _, fun _ => .inl rfl⟩

lemma AddsNode.flagged {t t' : PageTable} {x : PageTable.Place} (h : AddsNode x t t' f)
    {i : PtIndex} {w : Word} (hw : t'.word i = some w) : t.word i = some w ∨ WellFlagged w := by
  rcases h.word i with hsame | ⟨-, hnew⟩
  · exact .inl (hsame ▸ hw)
  · cases hnew.symm.trans hw
    exact .inr (wellFlagged_update_invalid 0)

lemma pte_addNode (has : s.procs c = some as) {g : PageTable → PageTable} {x : PageTable.Place}
    (hadd : AddsNode x as.pt (g as.pt) f) : (s.modifyTable c g).pte = s.pte := by
  funext q w
  rw [pte_modifyTable has]
  split
  · subst q
    rw [PageTable.pte_of_grown hadd.word, pte_of_procs has]
  · rfl

lemma Books.addNode (hb : Books m s (update o c (some k))) (hk : k.spare = some f)
    (has : s.procs c = some as) {g : PageTable → PageTable} {x : PageTable.Place}
    (hadd : AddsNode x as.pt (g as.pt) f) :
    Books m (s.modifyTable c g)
      (update o c (some { k with spare := none, shape := update k.shape x (some f) })) := by
  obtain ⟨u, hm, hc⟩ := hb
  have hown := Holds.of_update hc
  obtain ⟨hf, hu⟩ := (hown.spare f).mpr hk
  have hpte := pte_addNode has hadd
  have htab : ∀ q, (s.modifyTable c g).tableFrame q =
      if q = c then update (s.tableFrame c) x (some f) else s.tableFrame q := by
    intro q
    rw [tableFrame_modifyTable has, hadd.frameAt, tableFrame_of_procs has]
  have hempty : s.tableFrame c x = none := by
    rw [tableFrame_of_procs has]
    exact hadd.empty
  refine Books.step (u := u) { u with frame := update u.frame f (.table c x) } ?_ ?_ hc
    fun d hd => ?_
  · refine { hm with
      pids := fun q hq => hm.pids q (procs_modifyTable_ne_none.mp hq)
      frames := fun h hh => ?_
      freeFrames := ?_
      framed := fun q w h hw => ?_
      swapped := fun q w j hw => by rw [hpte]; exact hm.swapped q w j hw
      tables := fun q y h => ?_
      flagged := ?_
      leaving := fun h q w d hh hu' => hm.leaving h q w d hh (by grind) }
    · show FrameOk (s.frameTable h) (update u.frame f _ h)
      have hok := hm.frames h hh
      rcases eq_or_ne h f with rfl | hne
      · rw [hu] at hok
        simpa [FrameOk] using hok
      · simpa [hne] using hok
    · obtain ⟨fl, hl⟩ := hm.freeFrames
      exact ⟨fl, hl.chain, hl.nodup, fun h => (hl.mem_iff h).trans (by grind), hl.count⟩
    · rw [hpte]
      exact (hm.framed q w h hw).trans (by grind)
    · rw [htab]
      have hiff := hm.tables q y h
      have hiff' := hm.tables c x h
      grind
    · intro q as' i w hq hw
      rcases eq_or_ne q c with rfl | hne
      · simp only [VmState.modifyTable, has, update_self, Option.map_some, Option.some.injEq] at hq
        subst hq
        exact (hadd.flagged hw).elim (hm.flagged q as i w has) id
      · exact hm.flagged q as' i w (by simpa [VmState.modifyTable, hne] using hq) hw
  · refine { hown with
      spare := fun h => ?_
      fresh := fun h => Iff.trans (by grind) (hown.fresh h)
      linked := fun h w => Iff.trans (by grind) (hown.linked h w)
      leaving := fun h q w => Iff.trans (by grind) (hown.leaving h q w)
      proc := procs_modifyTable_ne_none.mpr hown.proc
      pending := fun hl => by rw [hpte]; exact hown.pending hl
      shape := by rw [htab, if_pos rfl, hown.shape] }
    have hiff := hown.spare h
    grind
  · exact {
      frame := fun h hh => by grind [FrameUse.owner]
      slot := fun j => Iff.rfl
      toSlot := fun _ _ _ _ _ _ hi hs => ⟨hi, hs⟩
      proc := procs_modifyTable_ne_none.mpr
      entry := fun w _ _ => by rw [hpte]
      tables := by rw [htab, if_neg hd] }

section SameTable

variable {g : PageTable → PageTable}

lemma procs_modifyTable_none (has : s.procs c = none) : (s.modifyTable c g).procs = s.procs := by
  funext q
  rcases eq_or_ne q c with rfl | hq
  · simp [VmState.modifyTable, has]
  · simp [VmState.modifyTable, hq]

lemma pte_sameTable (hword : ∀ t, (g t).word = t.word) : (s.modifyTable c g).pte = s.pte := by
  cases has : s.procs c with
  | none => exact VmState.pte_procs (procs_modifyTable_none has)
  | some as =>
    funext q w
    rw [pte_modifyTable has]
    split
    · subst q
      rw [PageTable.pte_congr (congrFun (hword as.pt) _), pte_of_procs has]
    · rfl

lemma tableFrame_sameTable (hframe : ∀ t, (g t).frameAt = t.frameAt) :
    (s.modifyTable c g).tableFrame = s.tableFrame := by
  cases has : s.procs c with
  | none => exact VmState.tableFrame_procs (procs_modifyTable_none has)
  | some as =>
    funext q
    rw [tableFrame_modifyTable has]
    split
    · subst q
      rw [hframe, tableFrame_of_procs has]
    · rfl

lemma Books.sameTable (hb : Books m s o) (c : Int) (hword : ∀ t, (g t).word = t.word)
    (hframe : ∀ t, (g t).frameAt = t.frameAt) : Books m (s.modifyTable c g) o := by
  obtain ⟨u, hm, hc⟩ := hb
  have hpte : (s.modifyTable c g).pte = s.pte := pte_sameTable hword
  have htab : (s.modifyTable c g).tableFrame = s.tableFrame := tableFrame_sameTable hframe
  obtain ⟨l, hl⟩ := hm.freeFrames
  refine ⟨u, { hm with
    pids := fun q hq => hm.pids q (procs_modifyTable_ne_none.mp hq)
    freeFrames := ⟨l, hl.chain, hl.nodup, hl.mem_iff, hl.count⟩
    framed := by rw [hpte]; exact hm.framed
    swapped := by rw [hpte]; exact hm.swapped
    tables := by rw [htab]; exact hm.tables
    flagged := Flagged.modifyTable hm.flagged c fun t i w hw => .inl (by rwa [hword] at hw) },
    fun d => ?_⟩
  refine (hc d).untouched
    { frame := fun _ _ _ => rfl, slot := fun _ => Iff.rfl,
      toSlot := fun _ _ _ _ _ _ hi hs => ⟨hi, hs⟩, proc := ?_, entry := ?_, tables := ?_ }
  · exact procs_modifyTable_ne_none.mpr
  · intro v _ _
    rw [hpte]
  · rw [htab]

end SameTable

/-! ## The page of the fault -/

/-- The slot a page was in is being read once its entry names a frame. -/
def slotRead (slot : Nat → SlotUse) (old : Option Nat) (c : Int) (i : Nat) : SlotUse :=
  if old = some i then .reading c else slot i

lemma pte_link (hf : f < 2 ^ 52) (hv : PageAddr v) (has : s.procs c = some as)
    (hword : as.pt.word (getPtIndex v) ≠ none) (q : Int) {w : Nat} (hw : PageAddr w) :
    (s.modifyTable c fun t => t.setWord (getPtIndex v) (BitVec.ofNat 64 f)).pte q w =
      if q = c ∧ w = v then .frame f else s.pte q w := by
  rw [pte_setWord_state has hword hv _ q hw, ofWord_ofNat hf]

lemma Books.link (hb : Books m s (update o c (some k))) (hk : k.page = some f)
    (hl : k.linked = false) (hleave : k.leaving = none) (hno : NoLeaving c o)
    (has : s.procs c = some as) (hword : as.pt.word (getPtIndex k.vaddr) ≠ none) :
    Books m (s.modifyTable c fun t => t.setWord (getPtIndex k.vaddr) (BitVec.ofNat 64 f))
      (update o c (some { k with linked := true })) := by
  obtain ⟨u, hm, hc⟩ := hb
  have hown := Holds.of_update hc
  obtain ⟨hf, hu⟩ := (hown.fresh f).mpr ⟨hk, hl⟩
  have hsmall : f < 2 ^ 52 := hf.trans m.size_lt
  have hpend := hown.pending hl
  have hpte := fun q w hw => pte_link hsmall hown.addr has hword q (w := w) hw
  have hslot : ∀ i, i < s.pfList.size ∧ u.slot i = .page c k.vaddr ↔ k.old = some i := by
    intro i
    rw [← hm.swapped c k.vaddr i hown.addr, hpend, Claim.entry]
    split <;> simp_all
  have hnoread : ∀ i < s.pfList.size, u.slot i ≠ .reading c := by
    intro i hi hr
    have := ((hown.reading i).mp ⟨hi, hr⟩).1
    rw [hl] at this
    cases this
  refine Books.step ⟨update u.frame f (.linked c k.vaddr), slotRead u.slot k.old c⟩
    ?_ ?_ hc fun d hd => ?_
  · refine { hm with
      pids := fun q hq => hm.pids q (procs_modifyTable_ne_none.mp hq)
      frames := fun g hg => ?_
      freeFrames := ?_
      framed := fun q w g hw => ?_
      swapped := fun q w j hw => ?_
      slotAddr := fun j q w hj hs => hm.slotAddr j q w hj (by grind [slotRead])
      tables := fun q x g => ?_
      flagged := Flagged.setWord hm.flagged c _ (wellFlagged_ofNat hsmall)
      freeSlots := ⟨hm.freeSlots.1, fun j => ?_⟩
      leaving := fun g q w d hg hug => ?_ }
    · show FrameOk (s.frameTable g) (update u.frame f _ g)
      have hok := hm.frames g hg
      rcases eq_or_ne g f with rfl | hne
      · rw [hu] at hok
        simpa [FrameOk] using hok
      · simpa [hne] using hok
    · obtain ⟨fl, hfl⟩ := hm.freeFrames
      exact ⟨fl, hfl.chain, hfl.nodup, fun g => (hfl.mem_iff g).trans (by grind), hfl.count⟩
    · rw [hpte q w hw]
      have hiff := hm.framed q w g hw
      have hiff' := hm.framed c k.vaddr g hown.addr
      rw [hpend] at hiff'
      have hne := k.entry_ne_frame g
      grind
    · rw [hpte q w hw]
      have hiff := hm.swapped q w j hw
      have hiff' := hslot j
      show _ ↔ j < s.pfList.size ∧ _
      grind [slotRead]
    · rw [tableFrame_setWord_state]
      exact (hm.tables q x g).trans (by grind)
    · have hiff := hm.freeSlots.2 j
      have hiff' := hslot j
      show j ∈ s.pfList.free ↔ j < s.pfList.size ∧ _
      grind [slotRead]
    · exact absurd (by grind) (not_leaving_of_claims hc hleave hno hg q w d)
  · refine { hown with
      spare := fun g => Iff.trans (by grind) (hown.spare g)
      fresh := fun g => ?_
      linked := fun g w => ?_
      leaving := fun g q w => Iff.trans (by grind) (hown.leaving g q w)
      toSlot := fun l h => by
        have h' : k.leaving = some l := h
        rw [hleave] at h'
        cases h'
      reading := fun j => ?_
      proc := procs_modifyTable_ne_none.mpr hown.proc
      hasPage := fun _ => by simp [hk]
      pending := fun h => by cases h
      shape := by rw [tableFrame_setWord_state]; exact hown.shape }
    · have hiff := hown.fresh g
      grind
    · have hiff := hown.linked g w
      grind
    · have hiff := hslot j
      have hr := hnoread j
      show j < s.pfList.size ∧ _ ↔ _
      grind [slotRead]
  · refine {
      frame := fun g hg => by grind [FrameUse.owner]
      slot := fun j => ?_
      toSlot := fun g q w j hg hug =>
        absurd hug (not_leaving_of_claims hc hleave hno hg q w d)
      proc := procs_modifyTable_ne_none.mpr
      entry := fun w hw _ => by rw [hpte d w hw, if_neg fun h => hd h.1]
      tables := by rw [tableFrame_setWord_state] }
    have hiff := hslot j
    show j < s.pfList.size ∧ _ ↔ _
    grind [slotRead]

lemma mem_addFreeList {j : Nat} : j ∈ addFreeList i l ↔ j = i ∨ j ∈ l := by
  unfold addFreeList
  split
  · simp
  · split <;> grind

lemma nodup_addFreeList (h : l.Nodup) (hi : i ∉ l) : (addFreeList i l).Nodup := by
  unfold addFreeList
  split
  · simp
  · split <;> grind

lemma Books.readDone (hb : Books m s (update o c (some k))) (hk : k.old = some i)
    (hl : k.linked = true) :
    Books m (s.addFree i) (update o c (some { k with old := none })) := by
  obtain ⟨u, hm, hc⟩ := hb
  have hown := Holds.of_update hc
  obtain ⟨hi, hu⟩ := (hown.reading i).mpr ⟨hl, hk⟩
  have hnot : i ∉ s.pfList.free := by
    rw [hm.freeSlots.2 i, hu]
    simp
  refine Books.step { u with slot := update u.slot i .free } ?_ ?_ hc fun d hd => ?_
  · obtain ⟨l, hfl⟩ := hm.freeFrames
    refine { hm with
      freeFrames := ⟨l, hfl.chain, hfl.nodup, hfl.mem_iff, hfl.count⟩
      swapped := fun q w j hw => (hm.swapped q w j hw).trans ?_
      slotAddr := fun j q w hj hs => hm.slotAddr j q w hj (by grind)
      freeSlots := ⟨nodup_addFreeList hm.freeSlots.1 hnot, fun j => ?_⟩
      leaving := fun g q w d hg hug => ?_ }
    · show _ ↔ j < s.pfList.size ∧ _
      grind
    · have hiff := hm.freeSlots.2 j
      show j ∈ addFreeList i s.pfList.free ↔ j < s.pfList.size ∧ _
      rw [mem_addFreeList]
      grind
    · obtain ⟨hclock, j, hj, hsj⟩ := hm.leaving g q w d hg hug
      refine ⟨hclock, j, hj, ?_⟩
      grind
  · refine { hown with toSlot := fun l h => ?_, reading := fun j => ?_, pending := fun h => ?_ }
    · obtain ⟨hj, hs⟩ := hown.toSlot l h
      exact ⟨hj, by grind⟩
    · have hiff := hown.reading j
      show j < s.pfList.size ∧ _ ↔ _
      grind
    · have h' : k.linked = false := h
      rw [hl] at h'
      cases h'
  · refine { frame := fun _ _ _ => rfl, slot := fun j => ?_,
             toSlot := fun f p v j _ _ hj hs => ⟨hj, by grind⟩, proc := id,
             entry := fun _ _ _ => rfl, tables := rfl }
    show j < s.pfList.size ∧ _ ↔ _
    grind

lemma Books.settle (hb : Books m s (update o c (some k))) {slot : Nat} (hk : k.page = some f)
    (hl : k.linked = true) (hold : k.old = none) (hspare : k.spare = none)
    (hleave : k.leaving = none) :
    Books m (s.setFrame f fun e => { e with pid := c, userVaddr := k.vaddr, userCap := slot })
      (update o c none) := by
  obtain ⟨u, hm, hc⟩ := hb
  have hown := Holds.of_update hc
  obtain ⟨hf, hu⟩ := (hown.linked f k.vaddr).mpr ⟨hk, hl, rfl⟩
  have hpos := (hm.pids c hown.proc).1
  have hcore : ∀ g, ((s.setFrame f fun e =>
      { e with pid := c, userVaddr := k.vaddr, userCap := slot }).frameTable g).nextFreePage =
        (s.frameTable g).nextFreePage := by
    intro g
    rcases eq_or_ne g f with rfl | hne
    · simp [VmState.setFrame]
    · simp [VmState.setFrame, hne]
  refine Books.step { u with frame := update u.frame f (.page c k.vaddr) } ?_ ?_ hc
    fun d hd => ?_
  · refine { hm with
      frames := fun g hg => ?_
      freeFrames := ?_
      framed := fun q w g hw => (hm.framed q w g hw).trans (by grind)
      tables := fun q x g => (hm.tables q x g).trans (by grind)
      leaving := fun g q w d hg hug => hm.leaving g q w d hg (by grind) }
    · have hok := hm.frames g hg
      rcases eq_or_ne g f with rfl | hne
      · rw [hu] at hok
        simp [VmState.setFrame, FrameOk, hok.1, hok.2.1, hpos, hown.addr]
      · simpa [VmState.setFrame, hne] using hok
    · obtain ⟨fl, hfl⟩ := hm.freeFrames
      exact ⟨fl, hfl.chain.congr fun g _ => hcore g, hfl.nodup,
        fun g => (hfl.mem_iff g).trans (by grind), hfl.count⟩
  · refine ⟨fun g hg howner => ?_, fun j hj hr => ?_⟩
    · have h1 := hown.spare g
      have h2 := hown.fresh g
      have h3 := hown.linked g
      have h4 := hown.leaving g
      rcases eq_or_ne g f with rfl | hne
      · simp [FrameUse.owner] at howner
      · simp only [update_of_ne hne] at howner
        cases hug : u.frame g with
        | spare d => grind [FrameUse.owner]
        | fresh d => grind [FrameUse.owner]
        | linked d w => grind [FrameUse.owner]
        | leaving p w d => grind [FrameUse.owner]
        | free | kernel | table p x | page p w =>
          rw [hug] at howner
          cases howner
    · have hiff := (hown.reading j).mp ⟨hj, hr⟩
      rw [hold] at hiff
      cases hiff.2
  · exact {
      frame := fun g hg => by grind [FrameUse.owner]
      slot := fun j => Iff.rfl
      toSlot := fun _ _ _ _ _ _ hi hs => ⟨hi, hs⟩
      proc := id
      entry := fun _ _ _ => rfl
      tables := rfl }

def Claim.begin (vaddr : Nat) (old : Option Nat)
    (shape : PageTable.Place → Option Nat) : Claim where
  vaddr := vaddr
  cap := 0
  old := old
  page := none
  linked := false
  spare := none
  leaving := none
  shape := shape

lemma Books.withCap (hb : Books m s (update o c (some k))) (cap : Nat) :
    Books m s (update o c (some { k with cap := cap })) := by
  obtain ⟨u, hm, hc⟩ := hb
  have hown := Holds.of_update hc
  refine ⟨u, hm, fun d => ?_⟩
  have hd := hc d
  rcases eq_or_ne d c with rfl | hne
  · rw [update_self]
    exact { hown with }
  · rwa [update_of_ne hne] at hd ⊢

lemma Books.start (hb : Books m s o) (hnone : o c = none) (hv : PageAddr v)
    (hproc : s.procs c ≠ none) {old : Option Nat}
    (hentry : s.pte c v = (Claim.begin v old (s.tableFrame c)).entry) :
    Books m s (update o c (some (.begin v old (s.tableFrame c)))) := by
  obtain ⟨u, hm, hc⟩ := hb
  have hown := hc c
  rw [hnone] at hown
  obtain ⟨hframe, hslot⟩ := hown
  refine ⟨u, hm, fun d => ?_⟩
  rcases eq_or_ne d c with rfl | hd
  · rw [update_self]
    refine { spare := ?_, fresh := ?_, linked := ?_, leaving := ?_,
             reading := fun j => by grind [hslot j, Claim.begin],
             toSlot := fun l h => (nomatch h), proc := hproc, addr := hv,
             hasPage := fun h => (nomatch h), pending := fun _ => hentry, shape := rfl }
    all_goals
      intro g
      have hg := hframe g
      grind [FrameUse.owner, Claim.begin]
  · rw [update_of_ne hd]
    exact hc d

end SpaghettiOS.Vm
