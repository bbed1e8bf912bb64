import SpaghettiOS.VM.Agreement
import SpaghettiOS.VM.Rights

/-!
# Reference bits and accesses

`vm_fault` asserts that the reference bit of a page that is in its frame is clear.  A
page whose bit is set is mapped, as long as seL4 maps what it is asked to map and no
page is given two frames.  But a fault is delivered also for an access that the mapping
does not allow: a process that writes to its own text stops the system.
-/

namespace SpaghettiOS.Vm

open Coro (bind_apply get_apply modify_apply pure_apply set_apply)
open Coroutine (Res)
open Coroutine.Res (Ends)

/-! ## Accesses -/

inductive Access where
  | read
  | write
  | fetch
deriving DecidableEq, Repr

/-- What a page that is mapped with some rights can be used for.  Without the right to read
it is not for users at all. -/
def CapRights.permits (r : CapRights) : Access → Bool
  | .read | .fetch => r.read
  | .write => r.read && r.write

/-- An access in a region of the process that makes seL4 deliver a fault. -/
def Faults (s : VmState) (pid : Int) (vaddr : Nat) (access : Access) : Prop :=
  s.regionAt pid vaddr ≠ none ∧ (s.vspace pid (pageAlign vaddr) = none ∨
      (s.rights pid (pageAlign vaddr)).permits access = false)

/-- The assertion of the branch that maps a page again holds at every access that faults. -/
def AssertionHolds (s : VmState) : Prop :=
  ∀ p vaddr access f, Faults s p vaddr access → s.pte p (pageAlign vaddr) = .frame f →
    (s.frameTable f).refBit = false

/-! ## Faults -/

section Faults

variable {m : Machine} {s t : VmState} {pid c : Int} {out : Int → Nat → Prop} {v : Nat}

/-- The pages that are still in no frame when one has been set up. -/
def without (out : Int → Nat → Prop) (c : Int) (v : Nat) (p : Int) (w : Nat) : Prop :=
  out p w ∧ ¬ (p = c ∧ getPtIndex w = getPtIndex v)

lemma cspaceAllocSlot_begin (hm : Lasting m) (h : Tidy m (.idle out) s)
    (hout : ∀ f, s.pte c v ≠ .frame f) (f : Nat) {o : Option Nat}
    (ho : ∀ g ∈ o, s.allocated g ∧ (s.frameTable g).pid = -1) :
    (cspaceAllocSlot m s).Ends (Served pid) fun slot t => slot ≠ 0 ∧
      Tidy m ⟨out, some ⟨c, v, slot, f⟩, false, o, none⟩ t := by
  simp only [cspaceAllocSlot, ask, bind_apply, get_apply, set_apply,
    pure_apply, Res.bind, hm.alloc, if_true]
  have htick : Tidy m (.idle out) { s with time := s.time + 1 } := h.same rfl
  exact ⟨Nat.succ_ne_zero _, htick.begin hout f ho⟩

lemma allocPage_tidy (hm : Lasting m) (h : Tidy m (.idle out) s) (hout : out c v) :
    (allocPage m s).Ends (Served pid) fun r t => r.1 < m.frameTableSize ∧
      Tidy m ⟨out, some ⟨c, v, r.2.2, r.1⟩, false, some r.1, none⟩ t := by
  refine Ends.bind (frameAllocWith_tidy hm h rfl false) ?_
  rintro ⟨page, kernelVaddr⟩ s1 ⟨h1, hr, -⟩
  refine Ends.bind (cspaceAllocSlot_begin hm h1 (h1.out c v hout) page (o := some page) ?_) ?_
  · rintro g hg
    obtain rfl := Option.mem_some_iff.mp hg
    exact ⟨hr.allocated, hr.pid⟩
  · rintro slot s2 ⟨-, h2⟩
    exact ⟨hr.lt, h2⟩

lemma newPage_tidy (hm : Lasting m) (h : Tidy m (.idle out) s) (hout : out c v) (hv : PageAddr v) :
    (newPage m c v s).Ends (Served pid) fun _ t => Tidy m (.idle (without out c v)) t := by
  refine Ends.bind (allocPage_tidy hm h hout) ?_
  rintro ⟨page, kernelVaddr, slot⟩ s1 ⟨hlt, h1⟩
  refine Ends.bind (sosMapFrame_tidy hm (x := ⟨c, v, slot, page⟩) rfl rfl c allRights h1) ?_
  rintro _ _ ⟨-, u, as, hu, has, hword, rfl⟩
  exact hu.setUp has hword hv hlt

lemma readPage_tidy (hm : Lasting m) (h : Tidy m (.idle out) s) (hout : out c v)
    (hv : PageAddr v) (entry : Nat) : (readPage m c v entry s).Ends (Served pid) fun _ t =>
      Tidy m (.idle (without out c v)) t := by
  refine Ends.bind (allocPage_tidy hm h hout) ?_
  rintro ⟨page, kernelVaddr, slot⟩ s1 ⟨hlt, h1⟩
  refine Ends.bind (sosMapFrame_tidy hm (x := ⟨c, v, slot, page⟩) rfl rfl c allRights h1) ?_
  rintro _ s2 ⟨-, u, as, hu, has, hword, rfl⟩
  refine Ends.bind (pagein_keeps (G := SameTables) (fun h _ => h) _ _ _) fun _ s3 h3 => ?_
  refine Ends.bind (sosCopyin_keeps (G := SameTables) (fun h _ => h) _ _ _ _) fun _ s4 h4 => ?_
  refine (hu.setUp has hword hv hlt).same ?_
  rw [IsTrans.trans _ _ _ h3 h4]
  rfl

lemma Tidy.remapped (h : Tidy m (.idle out) s) (hv : PageAddr v) {f : Nat}
    (hpte : s.pte c v = .frame f) (hsame : SameFrames s t) (hclock : t.clockCurr = s.clockCurr)
    (hprocs : t.procs = s.procs) (hslot : t.nextSlot = s.nextSlot)
    (hframe : ∀ g, t.frameTable g =
      { s.frameTable g with refBit := if g = f then true else (s.frameTable g).refBit })
    (hvspace : ∀ p w, t.vspace p w =
      if p = c ∧ w = v then some ((s.frameTable f).userCap, f) else s.vspace p w) :
    Tidy m (.idle out) t := by
  have hentry : t.pte = s.pte := VmState.pte_procs hprocs
  have halloc : t.allocated = s.allocated := by
    funext g
    simp only [VmState.allocated, hsame.cap]
  exact {
    toFrameInv := h.toFrameInv.same hsame (hclock ▸ h.clock)
    users := fun p hp => h.users p (hprocs ▸ hp)
    caps := fun g => by
      rw [hframe, hslot]
      exact h.caps g
    framed := fun p w g hw hp => by
      rw [hentry] at hp
      rw [halloc, hframe]
      exact h.framed p w g hw hp
    named := fun g hg ha hp hstay => by
      rw [halloc] at ha
      rw [hframe] at hp ⊢
      rw [hentry]
      exact h.named g hg ha hp hstay
    mapped := fun p w y hy => by
      rw [hentry, hframe]
      rw [hvspace] at hy
      split at hy
      · rename_i hpw
        obtain ⟨rfl, rfl⟩ := hpw
        cases hy
        exact .inr ⟨rfl, (h.framed p w f hv hpte).2.2.2, .inl ⟨hv, hpte⟩⟩
      · exact h.mapped p w y hy
    held := fun p w g hw hp hbit => by
      rw [hentry] at hp
      rw [hvspace]
      split
      · simp
      · rename_i hpw
        have hne : g ≠ f := by
          rintro rfl
          obtain ⟨-, rfl, rfl, -⟩ := h.framed p w g hw hp
          obtain ⟨-, hc, hcv, -⟩ := h.framed c v g hv hpte
          exact hpw ⟨hc, hcv⟩
        rw [hframe, if_neg hne] at hbit
        exact h.held p w g hw hp hbit
    out := fun p w hout g => hentry ▸ h.out p w hout g
    flying := by simp [Plan.idle]
    unused := by simp [Plan.idle]
    slot := by simp [Plan.idle]
    there := by simp [Plan.idle]
    spare := by simp [Plan.idle]
    gone := by simp [Plan.idle] }

lemma remapPage_tidy (h : Tidy m (.idle out) s) (hv : PageAddr v) {f : Nat}
    (hpte : s.pte c v = .frame f) (hmap : m.pageMap s.time = .noError) :
    (remapPage m c v f s).Ends (Served pid) fun _ t => Tidy m (.idle out) t := by
  obtain ⟨-, hpid, -, -⟩ := h.framed c v f hv hpte
  simp only [remapPage, bind_apply, get_apply, Res.bind]
  refine Ends.ofOption_bind fun fte hfte => Ends.check_bind fun _ => ?_
  obtain rfl := getFrame_eq_some hfte
  simp only [bind_apply, modify_apply, Res.bind]
  refine Ends.check_bind fun _ => ?_
  obtain ⟨herr, -⟩ | ⟨⟨y, hy, hcap⟩, -⟩ | ⟨-, hrun⟩ := seL4PageMap_cases m c v
    (s.frameTable f).userCap allRights f (s.setFrame f fun e => { e with pid := c })
  · exact absurd hmap herr
  · obtain ⟨-, hyc, -⟩ := h.mapped_frame hpte hy
    exact absurd hyc.symm hcap
  rw [bind_apply, hrun]
  refine h.remapped hv hpte ⟨fun g => ?_, fun g => ?_, rfl, rfl, rfl⟩ rfl rfl rfl (fun g => ?_)
    fun p w => ?_
  · rcases eq_or_ne g f with rfl | hne
    · simp [VmState.setFrame, VmState.pageMap]
    · simp [VmState.setFrame, VmState.pageMap, hne]
  · rcases eq_or_ne g f with rfl | hne
    · simp [VmState.setFrame, VmState.pageMap]
    · simp [VmState.setFrame, VmState.pageMap, hne]
  · rcases eq_or_ne g f with rfl | hne
    · simp [VmState.setFrame, VmState.pageMap, hpid]
    · simp [VmState.setFrame, VmState.pageMap, hne]
  · rcases eq_or_ne p c with rfl | hp
    · rcases eq_or_ne w v with rfl | hw
      · simp [VmState.setFrame, VmState.pageMap]
      · simp [VmState.setFrame, VmState.pageMap, hw]
    · simp [VmState.setFrame, VmState.pageMap, hp]

lemma Tidy.withOut {k : Plan} (h : Tidy m k s) {out' : Int → Nat → Prop}
    (hout : ∀ p v, out' p v → ∀ f, s.pte p v ≠ .frame f) : Tidy m { k with out := out' } s :=
  { h with out := hout }

lemma handleFault_tidy (hm : Lasting m) (h : Tidy m (.idle out) s) (hv : PageAddr v)
    {as : AddrSpace} (has : s.procs c = some as)
    (hmap : ∀ f, s.pte c v = .frame f → m.pageMap s.time = .noError) :
    (handleFault m c v (pageLookup as.pt v) s).Ends (Served pid) fun _ t =>
      Tidy m (.idle fun _ _ => False) t := by
  have hpte : s.pte c v = as.pt.pte (getPtIndex v) := pte_of_procs has v
  have hdone : ∀ {out' : Int → Nat → Prop} {t : VmState}, Tidy m (.idle out') t →
      Tidy m (.idle fun _ _ => False) t := fun ht => ht.withOut fun _ _ hf => hf.elim
  have hout : (∀ f, s.pte c v ≠ .frame f) → Tidy m (.idle fun p w => p = c ∧ w = v) s := by
    intro hne
    refine h.withOut ?_
    rintro p w ⟨rfl, rfl⟩
    exact hne
  have hnew : (∀ f, s.pte c v ≠ .frame f) → (newPage m c v s).Ends (Served pid) fun _ t =>
      Tidy m (.idle fun _ _ => False) t := fun hne =>
    (newPage_tidy hm (hout hne) ⟨rfl, rfl⟩ hv).mono fun _ _ ht => hdone ht
  unfold handleFault pageLookup
  unfold PageTable.pte at hpte
  cases hw : as.pt.word (getPtIndex v) with
  | none =>
    rw [hw] at hpte
    exact hnew (by simp [hpte])
  | some w =>
    rw [hw] at hpte
    change s.pte c v = Pte.ofWord w at hpte
    unfold Pte.ofWord at hpte
    dsimp only
    split
    · rename_i hbits
      rw [if_pos hbits] at hpte
      exact (remapPage_tidy h hv hpte (hmap _ hpte)).mono fun _ _ ht => hdone ht
    · rename_i hbits
      rw [if_neg hbits] at hpte
      split
      · rename_i hpage
        rw [if_pos hpage] at hpte
        have hne : ∀ f, s.pte c v ≠ .frame f := by simp [hpte]
        exact (readPage_tidy hm (hout hne) ⟨rfl, rfl⟩ hv _).mono fun _ _ ht => hdone ht
      · rename_i hpage
        rw [if_neg hpage] at hpte
        exact hnew (by simp [hpte])

lemma FrameInv.finished (h : FrameInv m s) (c : Int) :
    FrameInv m { s with log := .finished c :: s.log } := by
  obtain ⟨l, hl⟩ := h.list
  exact ⟨h.clock, ⟨l, hl.chain, hl.nodup, hl.mem_iff, hl.count⟩, h.live, h.noDouble⟩

lemma faultCo_tidy (hm : Lasting m) {fa : Nat} (h : Tidy m (.idle out) s) (hfa : fa < 2 ^ 48)
    (hmap : ∀ f, s.pte c (pageAlign fa) = .frame f → m.pageMap s.time = .noError) :
    (faultCo m c fa s).Ends (Served pid) fun _ t => Tidy m (.idle fun _ _ => False) t := by
  have hrun : Tidy m (.idle out) { s with running := c } := h.same rfl
  simp only [faultCo, bind_apply, modify_apply, Res.bind]
  refine Ends.bind (Q := fun _ t => Tidy m (.idle fun _ _ => False) t) ?_ fun _ t ht => ?_
  · simp only [vmFault, bind_apply, get_apply, Res.bind]
    refine Ends.ofOption_bind fun as has => Ends.ofOption_bind fun _ _ => ?_
    exact Ends.check_bind fun _ =>
      handleFault_tidy hm hrun (pageAddr_pageAlign hfa) has hmap
  · exact ht.congr (ht.toFrameInv.finished c) rfl rfl (fun _ hp => hp) rfl le_rfl

end Faults

/-! ## The loader -/

section Loader

variable {m : Machine} {s t : VmState} {pid c : Int} {out : Int → Nat → Prop} {h : ProgramHeader}

lemma mapLoadee_tidy (hm : Lasting m) {v slot page : Nat}
    (ht : Tidy m ⟨out, some ⟨c, v, slot, page⟩, false, some page, none⟩ s)
    (hlt : page < m.frameTableSize) (hv : PageAddr v) :
    (mapLoadee m c h v slot page s).Ends (Served pid) fun err t =>
      err = 0 ∧ Tidy m (.idle (without out c v)) t := by
  refine Ends.bind (sosMapFrame_tidy hm (x := ⟨c, v, slot, page⟩) rfl rfl c _ ht) ?_
  rintro _ _ ⟨rfl, u, as, hu, has, hword, rfl⟩
  exact ⟨rfl, hu.setUp has hword hv hlt⟩

lemma Tidy.unmapped {x : Mapping} {d : Bool} (ht : Tidy m ⟨out, some x, d, none, none⟩ s) :
    Tidy m (.idle out) (s.pageUnmap x.cap x.frame) := by
  obtain ⟨hcap, hunused⟩ := ht.unused x rfl
  have hvspace : ∀ p v, (s.pageUnmap x.cap x.frame).vspace p v =
      if x.cap ≠ 0 ∧ s.vspace p v = some (x.cap, x.frame) then none else s.vspace p v :=
    fun _ _ => rfl
  exact {
    toFrameInv := ht.toFrameInv.same ⟨fun _ => rfl, fun _ => rfl, rfl, rfl, rfl⟩ ht.clock
    users := ht.users
    caps := ht.caps
    framed := ht.framed
    named := ht.named
    mapped := fun p v y hy => by
      rw [hvspace] at hy
      split at hy
      · cases hy
      · rename_i hother
        rcases ht.mapped p v y hy with ⟨x', hx', -, -, rfl⟩ | hold
        · obtain rfl := Option.mem_some_iff.mp hx'
          exact absurd ⟨hcap, hy⟩ hother
        · exact .inr hold
    held := fun p v f hv hp hbit => by
      rw [hvspace]
      split
      · rename_i hx
        obtain ⟨-, hc, -⟩ := ht.mapped_frame hp hx.2
        exact absurd hc (hunused f)
      · exact ht.held p v f hv hp hbit
    out := ht.out
    flying := nofun
    unused := nofun
    slot := nofun
    there := nofun
    spare := nofun
    gone := nofun }

lemma copyPage_tidy (hm : Lasting m) (ht : Tidy m (.idle out) s) (dst loadeeSlot page len : Nat)
    (bytes : Nat → UInt8) :
    (copyPage m c dst loadeeSlot page len bytes s).Ends (Served pid) fun err t =>
      err = 0 ∧ Tidy m (.idle out) t := by
  have hkernel : ∀ f, s.pte kernelProc (pageAlign ((sosElfVmem + dst) % 2 ^ 64)) ≠ .frame f :=
    fun f hp => absurd (ht.pos hp) (lt_irrefl 0)
  refine Ends.bind (cspaceAllocSlot_begin hm ht hkernel page (o := none) nofun) ?_
  rintro slot s1 ⟨hne, h1⟩
  simp only [if_neg hne, ask, bind_apply, get_apply, set_apply, pure_apply,
    Res.bind, hm.copy, ne_eq, not_true_eq_false, if_false]
  have htick : Tidy m ⟨out, some ⟨kernelProc, pageAlign ((sosElfVmem + dst) % 2 ^ 64), slot, page⟩,
      false, none, none⟩ { s1 with time := s1.time + 1 } := h1.same rfl
  refine Ends.bind (sosMapFrame_kernel_tidy hm rfl rfl c allRights htick) ?_
  rintro _ s2 ⟨rfl, h2⟩
  have h3 := (h2.same (t := s2.copyTo (m.pageNumToVaddr page + dst % pageSize) len bytes) rfl)
  exact ⟨rfl, h3.unmapped⟩

lemma loadPage_tidy (hm : Lasting m) (ht : Tidy m (.idle out) s) (file : Nat → UInt8)
    (pos src : Nat) {dst : Nat} (hout : out c (pageAlign dst)) (hdst : dst < 2 ^ 48) :
    (loadPage m c file h pos dst src s).Ends (Served pid) fun err t =>
      err = 0 ∧ Tidy m (.idle (without out c (pageAlign dst))) t := by
  refine Ends.bind (frameAllocWith_tidy hm ht rfl false) ?_
  rintro ⟨page, kernelVaddr⟩ s1 ⟨h1, hr, -⟩
  refine Ends.bind (cspaceAllocSlot_begin hm h1 (h1.out _ _ hout) page (o := some page) ?_) ?_
  · rintro g hg
    obtain rfl := Option.mem_some_iff.mp hg
    exact ⟨hr.allocated, hr.pid⟩
  rintro slot s2 ⟨hne, h2⟩
  simp only [if_neg hne, ask, bind_apply, get_apply, set_apply, pure_apply,
    Res.bind, hm.copy, ne_eq, not_true_eq_false, if_false]
  have htick : Tidy m ⟨out, some ⟨c, pageAlign dst, slot, page⟩, false, some page, none⟩
      { s2 with time := s2.time + 1 } := h2.same rfl
  refine Ends.bind (mapLoadee_tidy hm htick hr.lt (pageAddr_pageAlign hdst)) ?_
  rintro _ s3 ⟨rfl, h3⟩
  exact copyPage_tidy hm h3 _ _ _ _ _

/-- The pages of a segment from a position on. -/
def Ahead (c : Int) (h : ProgramHeader) (pos : Nat) (p : Int) (v : Nat) : Prop :=
  p = c ∧ ∃ pos' < h.memorySize, pos ≤ pos' ∧ v = pageAlign (h.vaddr + pos')

lemma loadLoop_tidy (hm : Lasting m) (hsize : h.memorySize + pageSize ≤ 2 ^ 32)
    (hend : h.vaddr + h.memorySize ≤ 2 ^ 48) (file : Nat → UInt8) (n : Nat) {pos dst : Nat}
    (hdst : dst = h.vaddr + pos) (src : Nat) (ht : Tidy m (.idle (Ahead c h pos)) s) :
    (loadLoop m c file h n pos dst src s).Ends (Served pid) fun err t =>
      err = 0 ∧ Tidy m (.idle fun _ _ => False) t := by
  have hover : ∀ {out' : Int → Nat → Prop} {t : VmState}, Tidy m (.idle out') t →
      Tidy m (.idle fun _ _ => False) t := fun ht => ht.withOut fun _ _ hf => hf.elim
  induction n generalizing s pos dst src with
  | zero =>
    unfold loadLoop
    split
    · trivial
    · exact ⟨rfl, hover ht⟩
  | succ n ih =>
    unfold loadLoop
    split
    · rename_i hpos
      have hpage : Ahead c h pos c (pageAlign dst) := ⟨rfl, pos, hpos, le_rfl, hdst ▸ rfl⟩
      refine Ends.bind (loadPage_tidy hm ht file pos src hpage (by omega)) ?_
      rintro _ t ⟨rfl, ht'⟩
      have hnext : (pos + (pageSize - dst % pageSize)) % 2 ^ 32 =
          pos + (pageSize - dst % pageSize) := by
        unfold pageSize at hsize ⊢
        omega
      have hdst' : (dst + (pageSize - dst % pageSize)) % 2 ^ 64 =
          dst + (pageSize - dst % pageSize) := by
        unfold pageSize
        omega
      simp only [ne_eq, not_true_eq_false, if_false, hnext, hdst']
      refine ih (by omega) _ (ht'.withOut ?_)
      rintro p v ⟨rfl, pos', hlt, hle, rfl⟩
      refine ht'.out p _ ⟨⟨rfl, pos', hlt, by omega, rfl⟩, ?_⟩
      rintro ⟨-, hi⟩
      have heq := getPtIndex_inj (pageAddr_pageAlign (by omega))
        (pageAddr_pageAlign (by omega)) hi
      unfold pageAlign pageSize at heq
      unfold pageSize at hle
      omega
    · exact ⟨rfl, hover ht⟩

lemma pte_setRegions (f : List Region → List Region) : (s.setRegions c f).pte = s.pte := by
  funext p v
  rcases eq_or_ne p c with rfl | hne
  · cases hp : s.procs p with
    | none => simp [VmState.pte, VmState.setRegions, hp]
    | some as => simp [VmState.pte, VmState.setRegions, hp]
  · simp [VmState.pte, VmState.setRegions, hne]

lemma Tidy.setRegions {k : Plan} (ht : Tidy m k s) (f : List Region → List Region) :
    Tidy m k (s.setRegions c f) := by
  refine ht.congr (ht.toFrameInv.same ⟨fun _ => rfl, fun _ => rfl, rfl, rfl, rfl⟩ ht.clock) rfl
    (pte_setRegions f) (fun p hp hnone => hp ?_) rfl le_rfl
  rcases eq_or_ne p c with rfl | hne
  · simp [VmState.setRegions, hnone]
  · simpa [VmState.setRegions, hne] using hnone

lemma loadSegment_tidy (hm : Lasting m) (hsize : h.memorySize + pageSize ≤ 2 ^ 32)
    (hend : h.vaddr + h.memorySize ≤ 2 ^ 48) (file : Nat → UInt8) (ht : Tidy m (.idle out) s)
    (hout : ∀ pos < h.memorySize, ∀ f, s.pte c (pageAlign (h.vaddr + pos)) ≠ .frame f) :
    (loadSegment m c file h s).Ends (Served pid) fun _ t => Tidy m (.idle fun _ _ => False) t := by
  have hahead : Tidy m (.idle (Ahead c h 0)) s := ht.withOut (by
    rintro p v ⟨rfl, pos, hpos, -, rfl⟩
    exact hout pos hpos)
  refine Ends.bind (Q := fun err t => err = 0 ∧ Tidy m (.idle fun _ _ => False) t) ?_ ?_
  · exact Ends.check_bind fun _ => loadLoop_tidy hm hsize hend file _ rfl _ hahead
  · rintro _ t ⟨rfl, ht'⟩
    simp only [ne_eq, not_true_eq_false, if_false]
    exact ht'.setRegions fun regions =>
      (asDefineRegion regions h.vaddr h.memorySize (permFromElf h.flags)).2

end Loader

/-! ## Runs -/

/-- A segment has no page in common with what is in frames already, no address is beyond
48 bits, and a page that was mapped before can be mapped again. -/
def Undisturbed (m : Machine) (s : VmState) : SpaceOp → Prop
  | .load pid _ h =>
      h.vaddr + h.memorySize ≤ 2 ^ 48 ∧ h.memorySize + pageSize ≤ 2 ^ 32 ∧
        ∀ pos < h.memorySize, ∀ f, s.pte pid (pageAlign (h.vaddr + pos)) ≠ .frame f
  | .area _ _ _ => True
  | .fault pid fa => fa < 2 ^ 48 ∧
      ∀ f, s.pte pid (pageAlign fa) = .frame f → m.pageMap s.time = .noError
  | .exit _ => False

section Runs

variable {m : Machine} {s t : VmState}

lemma SpaceStep.tidy (hm : Lasting m) (ht : Tidy m (.idle fun _ _ => False) s) {op : SpaceOp}
    (hg : Undisturbed m s op) (hstep : SpaceStep m s op t) : Tidy m (.idle fun _ _ => False) t := by
  cases op with
  | load pid file h =>
    obtain ⟨r, he⟩ := hstep
    obtain ⟨hend, hsize, hout⟩ := hg
    exact (loadSegment_tidy hm hsize hend file ht hout).exec he
  | area pid vbase size =>
    obtain rfl := hstep
    exact ht.setRegions _
  | fault pid fa => exact (faultCo_tidy hm ht hg.1 hg.2).exec hstep
  | exit pid => exact hg.elim

/-- In every such run the assertion of `vm_fault` holds exactly as long as each page in a
region whose bit is set is mapped for reading and writing, and is below 2^48. -/
theorem assertionHolds_iff (hm : Lasting m) (ht : Tidy m (.idle fun _ _ => False) s)
    (hrun : Lts.Run (SpaceStep m) (Undisturbed m) s t) :
    AssertionHolds t ↔ ∀ p vaddr f, t.regionAt p vaddr ≠ none →
      t.pte p (pageAlign vaddr) = .frame f → (t.frameTable f).refBit = true →
      vaddr < 2 ^ 48 ∧ (t.rights p (pageAlign vaddr)).read = true ∧
        (t.rights p (pageAlign vaddr)).write = true := by
  have htidy : Tidy m (.idle fun _ _ => False) t :=
    hrun.invariant ht fun ht hg hstep => hstep.tidy hm ht hg
  have haddr : ∀ {p vaddr}, t.vspace p (pageAlign vaddr) ≠ none → vaddr < 2 ^ 48 := by
    intro p vaddr hmapped
    obtain ⟨y, hy⟩ := Option.ne_none_iff_exists'.mp hmapped
    obtain ⟨x, hx, -⟩ | ⟨-, -, ⟨⟨hlt, -⟩, -⟩ | ⟨hl, -⟩⟩ := htidy.mapped _ _ y hy
    · cases hx
    · unfold pageAlign pageSize at hlt
      omega
    · cases hl
  constructor
  · intro hassert p vaddr f hreg hpte hbit
    have hpermits : ∀ access, ¬ Faults t p vaddr access := fun access hfault =>
      absurd hbit (by simp [hassert p vaddr access f hfault hpte])
    have hmapped : t.vspace p (pageAlign vaddr) ≠ none :=
      fun hnone => hpermits .read ⟨hreg, .inl hnone⟩
    have hwrite : (t.rights p (pageAlign vaddr)).permits .write = true := by
      by_contra hno
      exact hpermits .write ⟨hreg, .inr (Bool.eq_false_iff.mpr hno)⟩
    exact ⟨haddr hmapped, by simpa [CapRights.permits] using hwrite⟩
  · intro hrights p vaddr access f hfault hpte
    by_contra hbit
    obtain ⟨hlt, hread, hwrite⟩ := hrights p vaddr f hfault.1 hpte (by simpa using hbit)
    rcases hfault.2 with hnone | hdenied
    · exact htidy.held p _ f (pageAddr_pageAlign hlt) hpte (by simpa using hbit) hnone
    · cases access <;> simp [CapRights.permits, hread, hwrite] at hdenied

end Runs

/-! ## A write to a read-only segment -/

/-- The same system, with the allocations of its frames on record. -/
def loggedSystem : VmState :=
  { almostFull with log := [0, 1, 2, 3, 4, 6].map (FrameEvent.returned 0) }

lemma lasting_granting (size : Nat) (h : 0 < size ∧ size < 2 ^ 52) :
    Lasting (grantingMachine size h) where
  alloc _ := rfl
  opens _ := rfl
  copy _ := rfl
  retype _ := rfl
  maps _ := .inl rfl
  levels _ hr := by
    obtain ⟨hfail, -⟩ := hr
    cases hfail

lemma pte_loggedSystem (p : Int) {v : Nat} (hv : PageAddr v) :
    loggedSystem.pte p v = if p = 1 ∧ v = 0x1000 then .frame 6 else .invalid := by
  rcases eq_or_ne p 1 with rfl | hne
  · have hprocs : loggedSystem.procs 1 =
        some ⟨[⟨0x1000, 0x2fff, true, true, false⟩], smallTable 0 (fewPages 6 false)⟩ := rfl
    rw [pte_of_procs hprocs, pte_fewPages (by decide) 0 false hv]
    simp
  · simp [VmState.pte, loggedSystem, almostFull, hne]

lemma frameInv_loggedSystem : FrameInv (grantingMachine 7) loggedSystem := by
  have hfew : ∀ f < 7, (f = 5 ↔ ¬ loggedSystem.allocated f) ∧
      (live loggedSystem.log f = true ↔ loggedSystem.allocated f) := by decide +kernel
  have hlog : ∀ f, live loggedSystem.log f = true → f < 7 := by
    intro f hf
    simp only [loggedSystem, List.map, live] at hf
    by_contra hge
    simp [show ¬ 0 = f by omega, show ¬ 1 = f by omega, show ¬ 2 = f by omega,
      show ¬ 3 = f by omega, show ¬ 4 = f by omega, show ¬ 6 = f by omega] at hf
  refine ⟨by decide, ⟨[5], ⟨rfl, trivial⟩, by decide, fun f => ?_, rfl⟩, fun f => ?_, ?_⟩
  · rw [List.mem_singleton]
    constructor
    · rintro rfl
      exact ⟨by decide, (hfew 5 (by decide)).1.mp rfl⟩
    · rintro ⟨hlt, hfree⟩
      exact (hfew f hlt).1.mpr hfree
  · constructor
    · intro hf
      exact ⟨hlog f hf, (hfew f (hlog f hf)).2.mp hf⟩
    · rintro ⟨hlt, halloc⟩
      exact (hfew f hlt).2.mpr halloc
  · refine ⟨rfl, rfl, rfl, rfl, rfl, rfl, trivial⟩

lemma tidy_loggedSystem :
    Tidy (grantingMachine 7) (.idle fun _ _ => False) loggedSystem := by
  have hframe : ∀ {p v f}, PageAddr v → loggedSystem.pte p v = .frame f →
      p = 1 ∧ v = 0x1000 ∧ f = 6 := by
    intro p v f hv hp
    rw [pte_loggedSystem p hv] at hp
    split at hp
    · rename_i hpv
      exact ⟨hpv.1, hpv.2, (Pte.frame.inj hp).symm⟩
    · cases hp
  have hpage : PageAddr 0x1000 := by decide
  have hsix : loggedSystem.pte 1 0x1000 = .frame 6 := by
    rw [pte_loggedSystem 1 hpage]
    rfl
  exact {
    toFrameInv := frameInv_loggedSystem
    users := fun p hp => by
      rcases eq_or_ne p 1 with rfl | hne
      · decide
      · simp [loggedSystem, almostFull, hne] at hp
    caps := fun f => by
      simp only [loggedSystem, almostFull]
      split
      · exact Nat.zero_le 100
      · split
        · decide
        · exact Nat.zero_le 100
    framed := fun p v f hv hp => by
      obtain ⟨rfl, rfl, rfl⟩ := hframe hv hp
      decide
    named := fun f hf _ hpid _ => by
      obtain rfl : f = 6 := by
        by_contra hne
        have hnone : (loggedSystem.frameTable f).pid = -1 := by
          simp only [loggedSystem, almostFull, hne, if_false]
          split
          · rfl
          · rfl
        omega
      exact ⟨hpage, hsix⟩
    mapped := fun p v y hy => by
      simp only [loggedSystem, almostFull] at hy
      split at hy
      · rename_i hpv
        obtain ⟨rfl, rfl⟩ := hpv
        cases hy
        exact .inr ⟨rfl, by decide, .inl ⟨hpage, hsix⟩⟩
      · cases hy
    held := fun p v f hv hp hbit => by
      obtain ⟨rfl, rfl, rfl⟩ := hframe hv hp
      cases hbit
    out := nofun
    flying := nofun
    unused := nofun
    slot := nofun
    there := nofun
    spare := nofun
    gone := nofun }

theorem assertionHolds_remapped :
    ∃ t, SpaceStep (grantingMachine 7) loggedSystem (.fault 1 0x1000) t ∧
      (t.frameTable 6).refBit = true ∧ AssertionHolds t := by
  obtain ⟨t, ht, hbit⟩ := Lts.exists_of_any (P := fun t => (t.frameTable 6).refBit = true)
    (o := (SpaceOp.fault 1 0x1000).play (grantingMachine 7) loggedSystem)
    (by decide +kernel)
  have hstep := SpaceOp.step_of_play ht
  have hguard : Undisturbed (grantingMachine 7) loggedSystem (.fault 1 0x1000) :=
    ⟨by decide, fun _ _ => rfl⟩
  have hlasting := lasting_granting 7 (by decide)
  refine ⟨t, hstep, hbit, (assertionHolds_iff hlasting tidy_loggedSystem
    (.tail .refl hguard hstep)).mpr fun p vaddr f hreg hpte hset => ?_⟩
  have htouch : Touches (fun _ _ r => r = allRights) loggedSystem t :=
    (faultCo_touches (P := fun _ _ r => r = allRights) rfl).exec hstep
  have hlow : vaddr < 2 ^ 48 := by
    obtain ⟨reg, hreg⟩ := Option.ne_none_iff_exists'.mp hreg
    rw [htouch.regionAt] at hreg
    rcases eq_or_ne p 1 with rfl | hne
    · have hprocs : loggedSystem.procs 1 =
          some ⟨[⟨0x1000, 0x2fff, true, true, false⟩], smallTable 0 (fewPages 6 false)⟩ := rfl
      rw [VmState.regionAt, hprocs, Option.bind_some] at hreg
      obtain ⟨hmem, -, htop⟩ := asSeekRegion_eq_some hreg
      obtain rfl := List.mem_singleton.mp hmem
      simp only at htop
      omega
    · simp [VmState.regionAt, loggedSystem, almostFull, hne] at hreg
  have hmapped := (hstep.tidy hlasting tidy_loggedSystem hguard).held p _ f
    (pageAddr_pageAlign hlow) hpte hset
  have hrights : t.rights p (pageAlign vaddr) = allRights := by
    rcases htouch.mapped p _ hmapped with ⟨-, heq⟩ | hall
    · exact heq
    · exact hall
  rw [hrights]
  exact ⟨hlow, rfl, rfl⟩

theorem write_to_text_stops_sos :
    Lasting (grantingMachine 7) ∧ Tidy (grantingMachine 7) (.idle fun _ _ => False) loggedSystem ∧
      ∃ t, Lts.Run (SpaceStep (grantingMachine 7))
          (Undisturbed (grantingMachine 7)) loggedSystem t ∧
        Faults t 1 0x5000 .write ∧ ¬ AssertionHolds t ∧
        (faultCo (grantingMachine 7) 1 0x5000 t).run (wholePages 1) = .error .refBitSet := by
  refine ⟨lasting_granting 7 (by decide), tidy_loggedSystem, ?_⟩
  have hplay : ((SpaceOp.load 1 (fun _ => 9) readOnlySegment).play
      (grantingMachine 7) loggedSystem).any (fun t =>
        decide ((t.regionAt 1 0x5000).isSome ∧ (t.rights 1 0x5000).permits .write = false ∧
          t.pte 1 0x5000 = .frame 5 ∧ (t.frameTable 5).refBit = true) &&
        match (faultCo (grantingMachine 7) 1 0x5000 t).run (wholePages 1) with
        | .error e => e == .refBitSet
        | .ok _ => false) = true := by
    decide +kernel
  obtain ⟨t, ht, htest⟩ := (Option.any_eq_true _ _).mp hplay
  obtain ⟨hstate, hstop⟩ := Bool.and_eq_true_iff.mp htest
  obtain ⟨hreg, hdenied, hpte, hbit⟩ := of_decide_eq_true hstate
  have hfault : Faults t 1 0x5000 .write := ⟨Option.isSome_iff_ne_none.mp hreg, .inr hdenied⟩
  have hguard : Undisturbed (grantingMachine 7) loggedSystem
      (.load 1 (fun _ => 9) readOnlySegment) := by
    refine ⟨by decide, by decide, fun pos hpos f hp => ?_⟩
    have hpage : PageAddr (pageAlign (readOnlySegment.vaddr + pos)) :=
      pageAddr_pageAlign (by simp only [readOnlySegment] at hpos ⊢; omega)
    rw [pte_loggedSystem 1 hpage, if_neg] at hp
    · cases hp
    · rintro ⟨-, heq⟩
      simp only [pageAlign, pageSize, readOnlySegment] at heq
      omega
  refine ⟨t, .tail .refl hguard (SpaceOp.step_of_play ht), hfault, fun h => ?_, ?_⟩
  · exact absurd hbit (by simp [h 1 0x5000 .write 5 hfault hpte])
  · split at hstop
    · rename_i e he
      rw [he, beq_iff_eq.mp hstop]
    · cases hstop

end SpaghettiOS.Vm
