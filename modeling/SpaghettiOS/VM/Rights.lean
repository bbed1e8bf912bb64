import SpaghettiOS.VM.Footprint

/-!
# Rights of user pages

The loader maps the pages of a segment with the rights of its flags, and the region
of the segment gets the same bits.  A fault maps its page with all rights, whatever
the region says.

A page may hold addresses of more than one region; it is mapped with too many rights
if one of them does not allow writing.
-/

namespace SpaghettiOS.Vm

open Coroutine (Res Exec)

/-- No address of a region without `WRITE` lies in a user page that is mapped writable. -/
def RightsOk (s : VmState) : Prop :=
  ∀ p vaddr reg, p ≠ kernelProc → s.regionAt p vaddr = some reg →
    s.vspace p (pageAlign vaddr) ≠ none → (s.rights p (pageAlign vaddr)).write = true →
    reg.write = true

/-- What happens to an address space: a segment is loaded, `proc_start` defines an
area for reading and writing, a page fault is handled, and it comes to its end. -/
inductive SpaceOp where
  | load (pid : Int) (file : Nat → UInt8) (h : ProgramHeader)
  | area (pid : Int) (vbase size : Nat)
  | fault (pid : Int) (faultaddress : Nat)
  | exit (pid : Int)

def SpaceStep (m : Machine) (s : VmState) : SpaceOp → VmState → Prop
  | .load pid file h, t => ∃ r, Exec (Served pid) (loadSegment m pid file h s) r t
  | .area pid vbase size, t =>
      t = s.setRegions pid fun regions => (asDefineRegion regions vbase size .readWrite).2
  | .fault pid faultaddress, t => Exec (Served pid) (faultCo m pid faultaddress s) ⟨⟩ t
  | .exit pid, t => Exec (Served pid) (asDestroy m pid s) ⟨⟩ t

/-- All regions with an address in the page have `WRITE`. -/
def PageWritable (s : VmState) (pid : Int) (page : Nat) : Prop :=
  ∀ vaddr reg, pageAlign vaddr = page → s.regionAt pid vaddr = some reg → reg.write = true

/-- A segment meets the regions around it: pages that will be writable lie in writable
regions only, and a region that will not be writable has no writable page yet. -/
def SegmentFits (s : VmState) (pid : Int) (h : ProgramHeader) : Prop :=
  if h.flags &&& pfW ≠ 0 then
    ∀ pos < h.memorySize, PageWritable s pid (pageAlign ((h.vaddr + pos) % 2 ^ 64))
  else
    (h.flags &&& pfR ≠ 0 ∨ h.flags &&& pfX ≠ 0) ∧
      ∀ vaddr, (Region.make h.vaddr h.memorySize (permFromElf h.flags)).Has vaddr →
        s.vspace pid (pageAlign vaddr) ≠ none → (s.rights pid (pageAlign vaddr)).write = false

def Grants (s : VmState) : SpaceOp → Prop
  | .load pid _ h =>
      h.vaddr < 2 ^ 64 ∧ h.memorySize + pageSize ≤ 2 ^ 32 ∧ SegmentFits s pid h
  | .area _ _ _ => True
  | .fault pid faultaddress => PageWritable s pid (pageAlign faultaddress)
  | .exit _ => True

section Rights

variable {m : Machine} {s t : VmState} {pid : Int}

lemma Touches.regionAt {P : Int → Nat → CapRights → Prop} (h : Touches P s t) (p : Int)
    (vaddr : Nat) : t.regionAt p vaddr = s.regionAt p vaddr := by
  have hreg := h.regions p
  unfold VmState.regionAt asSeekRegion
  cases ht : t.procs p with
  | none =>
    rw [ht] at hreg
    rw [Option.map_eq_none_iff.mp hreg.symm]
  | some as =>
    rw [ht] at hreg
    obtain ⟨as', has', heq⟩ := Option.map_eq_some_iff.mp hreg.symm
    rw [has', Option.bind_some, Option.bind_some, heq]

lemma RightsOk.touches {P : Int → Nat → CapRights → Prop} (h : RightsOk s) (ht : Touches P s t)
    (hP : ∀ p v r, p ≠ kernelProc → P p v r → r.write = true → PageWritable s p v) :
    RightsOk t := by
  intro p vaddr reg hp hreg hmapped hwrite
  rw [ht.regionAt] at hreg
  rcases ht.mapped p _ hmapped with ⟨hs, hr⟩ | hnew
  · exact h p vaddr reg hp hreg hs (hr ▸ hwrite)
  · exact hP p _ _ hp hnew hwrite vaddr reg rfl hreg

lemma regionAt_define {q : Int} {vaddr vbase size : Nat} {accmode : Perm} {reg : Region}
    (h : (s.setRegions pid fun regions => (asDefineRegion regions vbase size accmode).2).regionAt
      q vaddr = some reg) : s.regionAt q vaddr = some reg ∨
      q = pid ∧ reg = Region.make vbase size accmode ∧ reg.Has vaddr := by
  unfold VmState.regionAt VmState.setRegions at h
  rcases eq_or_ne q pid with rfl | hne
  · cases hprocs : s.procs q with
    | none => simp [hprocs] at h
    | some as =>
      simp only [hprocs, Function.update_self, Option.map_some, Option.bind_some] at h
      rcases asSeekRegion_define h with hold | hnew
      · exact .inl (by rw [VmState.regionAt, hprocs, Option.bind_some, hold])
      · exact .inr ⟨rfl, hnew⟩
  · simp only [Function.update_of_ne hne] at h
    exact .inl h

lemma RightsOk.define (h : RightsOk s) {vbase size : Nat} {accmode : Perm}
    (hnew : accmode.write = true ∨
      ∀ vaddr, (Region.make vbase size accmode).Has vaddr → s.vspace pid (pageAlign vaddr) ≠ none →
        (s.rights pid (pageAlign vaddr)).write = false) :
    RightsOk (s.setRegions pid fun regions => (asDefineRegion regions vbase size accmode).2) := by
  intro p vaddr reg hp hreg hmapped hwrite
  rcases regionAt_define hreg with hold | ⟨rfl, rfl, hhas⟩
  · exact h p vaddr reg hp hold hmapped hwrite
  · rcases hnew with hw | hno
    · exact hw
    · have hfalse := hno vaddr hhas hmapped
      exact absurd (hwrite.symm.trans hfalse) (by decide)

lemma RightsOk.fault (h : RightsOk s) {fa : Nat} (hg : PageWritable s pid (pageAlign fa))
    (he : Exec (Served pid) (faultCo m pid fa s) ⟨⟩ t) : RightsOk t := by
  have hkeeps : Coro.Keeps (Served pid)
      (Touches fun p v r => p = pid ∧ v = pageAlign fa ∧ r = allRights) (faultCo m pid fa) :=
    faultCo_touches ⟨rfl, rfl, rfl⟩
  have ht := hkeeps.exec he
  refine h.touches ht ?_
  rintro p v r - ⟨rfl, rfl, -⟩ -
  exact hg

lemma RightsOk.exit (h : RightsOk s) (he : Exec (Served pid) (asDestroy m pid s) ⟨⟩ t) :
    RightsOk t := by
  have hends : (asDestroy m pid s).Ends (Served pid) fun _ t => ∃ u,
      Touches (fun _ _ _ => False) s u ∧
        t = { u with procs := Function.update u.procs pid none } := by
    simp only [asDestroy, Coro.bind_apply]
    refine Res.Ends.bind (pageTableOf_keeps (G := Touches fun _ _ _ => False) pid s)
      fun table s1 h1 => ?_
    have htable : Coro.Keeps (Served pid) (Touches fun _ _ _ => False) (pageTableDestroy m table) :=
      @pageTableDestroy_touches (fun _ _ _ => False) m pid table
    generalize pageTableDestroy m table = destroy at htable ⊢
    refine Res.Ends.bind (htable s1) fun _ s2 h2 => ?_
    exact ⟨s2, IsTrans.trans _ _ _ h1 h2, rfl⟩
  obtain ⟨u, hu, rfl⟩ := hends.exec he
  have hok : RightsOk u := h.touches hu fun _ _ _ _ hP => hP.elim
  intro p vaddr reg hp hreg
  have hne : p ≠ pid := by
    rintro rfl
    simp [VmState.regionAt] at hreg
  refine hok p vaddr reg hp ?_
  simpa [VmState.regionAt, hne] using hreg

def SegmentMaps (pid : Int) (h : ProgramHeader) (p : Int) (v : Nat) (r : CapRights) : Prop :=
  p = kernelProc ∨ p = pid ∧ r = getSel4RightsFromElf h.flags ∧
    ∃ pos < h.memorySize, v = pageAlign ((h.vaddr + pos) % 2 ^ 64)

lemma write_getSel4RightsFromElf {flags : Word} (hw : flags &&& pfW = 0)
    (hr : flags &&& pfR ≠ 0 ∨ flags &&& pfX ≠ 0) : (getSel4RightsFromElf flags).write = false := by
  have hread : ¬ (¬ (flags &&& pfR ≠ 0 ∨ flags &&& pfX ≠ 0) ∧ ¬ flags &&& pfW ≠ 0) :=
    fun h => h.1 hr
  simp only [getSel4RightsFromElf]
  rw [if_neg hread]
  exact decide_eq_false (not_not_intro hw)

lemma loadSegment_ends (file : Nat → UInt8) {h : ProgramHeader} (hv : h.vaddr < 2 ^ 64)
    (hsize : h.memorySize + pageSize ≤ 2 ^ 32) :
    (loadSegment m pid file h s).Ends (Served pid) fun _ t => ∃ u, Touches (SegmentMaps pid h) s u ∧
      (t = u ∨ t = u.setRegions pid fun regions =>
        (asDefineRegion regions h.vaddr h.memorySize (permFromElf h.flags)).2) := by
  refine Res.Ends.bind (loadSegmentIntoVspace_touches (P := SegmentMaps pid h) (fun _ => .inl rfl)
    (fun pos hpos => .inr ⟨rfl, rfl, pos, hpos, rfl⟩) hsize hv file s) fun err u hu => ?_
  split
  · exact ⟨u, hu, .inl rfl⟩
  · exact ⟨u, hu, .inr rfl⟩

lemma RightsOk.load (hok : RightsOk s) {file : Nat → UInt8} {h : ProgramHeader}
    (hv : h.vaddr < 2 ^ 64) (hsize : h.memorySize + pageSize ≤ 2 ^ 32)
    (hfits : SegmentFits s pid h) {r : Int}
    (he : Exec (Served pid) (loadSegment m pid file h s) r t) : RightsOk t := by
  obtain ⟨u, hu, ht⟩ := (loadSegment_ends file hv hsize).exec he
  unfold SegmentFits at hfits
  split at hfits
  · -- the segment is writable, and so are all regions its pages meet
    rename_i hw
    have hu' : RightsOk u := by
      refine hok.touches hu ?_
      rintro p v r hp (rfl | ⟨rfl, -, pos, hpos, rfl⟩) -
      · exact absurd rfl hp
      · exact hfits pos hpos
    rcases ht with rfl | rfl
    · exact hu'
    · exact hu'.define (.inl (by simpa [permFromElf] using hw))
  · -- its pages are mapped without the right to write
    rename_i hw
    obtain ⟨hread, hclear⟩ := hfits
    have hrights := write_getSel4RightsFromElf (of_not_not hw) hread
    have hu' : RightsOk u := by
      refine hok.touches hu ?_
      rintro p v r hp (rfl | ⟨rfl, rfl, -⟩) hwrite
      · exact absurd rfl hp
      · exact absurd (hwrite.symm.trans hrights) (by decide)
    rcases ht with rfl | rfl
    · exact hu'
    · rcases eq_or_ne pid kernelProc with rfl | hpid
      · intro p vaddr reg hp hreg
        rcases regionAt_define hreg with hold | ⟨rfl, -⟩
        · exact hu' p vaddr reg hp hold
        · exact absurd rfl hp
      · refine hu'.define (.inr fun vaddr hhas hmapped => ?_)
        rcases hu.mapped pid _ hmapped with ⟨hs, hr⟩ | hP | ⟨-, hr, -⟩
        · rw [hr]
          exact hclear vaddr hhas hs
        · exact absurd hP hpid
        · rw [hr]
          exact hrights

lemma SpaceStep.rightsOk (h : RightsOk s) {op : SpaceOp} (hg : Grants s op)
    (hstep : SpaceStep m s op t) : RightsOk t := by
  cases op with
  | load pid file hd =>
    obtain ⟨r, he⟩ := hstep
    exact h.load hg.1 hg.2.1 hg.2.2 he
  | area pid vbase size =>
    obtain rfl := hstep
    exact h.define (.inl rfl)
  | fault pid fa => exact h.fault hg hstep
  | exit pid => exact h.exit hstep

/-- In every run whose loads fit the regions around them and whose faults are in
writable pages, no user page is mapped with more rights than its regions allow. -/
theorem rights_within_regions (h : RightsOk s) (hrun : Lts.Run (SpaceStep m) Grants s t) :
    RightsOk t :=
  hrun.invariant h fun h hg hstep => hstep.rightsOk h hg

end Rights

/-! ## A read-only segment -/

/-- Plays one operation with a file server that takes and returns whole pages. -/
def SpaceOp.play (m : Machine) (op : SpaceOp) (s : VmState) : Option VmState :=
  match op with
  | .load pid file h => ((loadSegment m pid file h s).run (wholePages pid)).toOption.map (·.2)
  | .area pid vbase size =>
      some (s.setRegions pid fun regions => (asDefineRegion regions vbase size .readWrite).2)
  | .fault pid fa => ((faultCo m pid fa s).run (wholePages pid)).toOption.map (·.2)
  | .exit pid => ((asDestroy m pid s).run (wholePages pid)).toOption.map (·.2)

lemma exec_of_toOption {α : Type} {pid : Int} {x : Res VmState NfsReq NfsReply Abort α}
    {t : VmState} (h : (x.run (wholePages pid)).toOption.map (·.2) = some t) :
    ∃ a, Exec (Served pid) x a t := by
  obtain ⟨⟨a, t'⟩, hrun, rfl⟩ := Option.map_eq_some_iff.mp h
  exact ⟨a, Res.exec_of_toOption (served_wholePages pid) hrun⟩

lemma SpaceOp.step_of_play {m : Machine} {op : SpaceOp} {s t : VmState}
    (h : op.play m s = some t) : SpaceStep m s op t := by
  cases op with
  | load pid file hd => exact exec_of_toOption h
  | area pid vbase size => exact (Option.some.inj h).symm
  | fault pid fa => exact (exec_of_toOption h).choose_spec
  | exit pid => exact (exec_of_toOption h).choose_spec

/-- Process 1 has the page 0x1000 in frame 6, in a region for reading and writing;
frame 5 is free. -/
def almostFull : VmState where
  frameTable f :=
    if f < 5 then ⟨f + 1, 0, 0, -1, 0, true, true⟩
    else if f = 6 then ⟨7, 21, 0, 1, 0x1000, false, false⟩
    else ⟨0, 0, 0, -1, 0, false, false⟩
  nextFreePage := 5
  frameTableCurrSize := 6
  clockCurr := 5
  pfList := ⟨0, []⟩
  pfVnode := true
  procs p :=
    if p = 1 then some ⟨[⟨0x1000, 0x2fff, true, true, false⟩], smallTable 0 (fewPages 6 false)⟩
    else none
  mem _ := 0
  pagefile _ := 0
  vspace p v := if p = 1 ∧ v = 0x1000 then some (21, 6) else none
  rights _ _ := allRights
  nextSlot := 100
  running := 0
  time := 0
  log := []

def readOnlySegment : ProgramHeader := ⟨ptLoad, 0, 0x800, 0x800, 0x5000, pfR⟩

lemma rightsOk_almostFull : RightsOk almostFull := by
  intro p vaddr reg hp hreg _ _
  rcases eq_or_ne p 1 with rfl | h1
  · have hprocs : almostFull.procs 1 =
        some ⟨[⟨0x1000, 0x2fff, true, true, false⟩], smallTable 0 (fewPages 6 false)⟩ := rfl
    rw [VmState.regionAt, hprocs, Option.bind_some] at hreg
    obtain ⟨hmem, -⟩ := asSeekRegion_eq_some hreg
    obtain rfl := List.mem_singleton.mp hmem
    rfl
  · simp [VmState.regionAt, almostFull, h1] at hreg

theorem rights_within_regions_load :
    ∃ t, SpaceStep (grantingMachine 7) almostFull (.load 1 (fun _ => 9) readOnlySegment)
        t ∧ t.vspace 1 0x5000 ≠ none ∧ RightsOk t := by
  obtain ⟨t, ht, hmapped⟩ := Lts.exists_of_any (P := fun t => (t.vspace 1 0x5000).isSome = true)
    (o := (SpaceOp.load 1 (fun _ => 9) readOnlySegment).play (grantingMachine 7)
      almostFull) (by decide +kernel)
  have hstep := SpaceOp.step_of_play ht
  refine ⟨t, hstep, Option.isSome_iff_ne_none.mp hmapped, ?_⟩
  refine rights_within_regions rightsOk_almostFull
    (.tail (a := .load 1 (fun _ => 9) readOnlySegment) .refl ⟨by decide, by decide, ?_⟩ hstep)
  have hflags : ¬ readOnlySegment.flags &&& pfW ≠ 0 := by decide
  rw [SegmentFits, if_neg hflags]
  refine ⟨by decide, fun vaddr hhas hmapped => ?_⟩
  have hpage : pageAlign vaddr ≠ 0x1000 := by
    obtain ⟨hlow, -⟩ : 0x5000 ≤ vaddr ∧ _ := hhas
    unfold pageAlign pageSize
    omega
  exact absurd (by simp [almostFull, hpage]) hmapped

theorem remapped_page_writable :
    RightsOk almostFull ∧ ∃ t, Lts.Run (SpaceStep (grantingMachine 7)) Lts.anyStep
      almostFull t ∧ ¬ RightsOk t := by
  have hplay : ([SpaceOp.load 1 (fun _ => 9) readOnlySegment, .fault 1 0x2000,
      .fault 1 0x5000].foldlM (fun s op => SpaceOp.play (grantingMachine 7) op s)
      almostFull).any (fun t => (t.vspace 1 0x5000).isSome ∧ (t.rights 1 0x5000).write ∧
        t.regionAt 1 0x5000 = some ⟨0x5000, 0x5800, true, false, false⟩) = true := by
    decide +kernel
  obtain ⟨t, ht, hmapped, hwrite, hreg⟩ := Lts.exists_of_any hplay
  refine ⟨rightsOk_almostFull, t, Lts.Run.of_play SpaceOp.step_of_play _ .refl ht, fun h => ?_⟩
  exact absurd (h 1 0x5000 _ (by decide) hreg (Option.isSome_iff_ne_none.mp hmapped) hwrite)
    (by decide)

end SpaghettiOS.Vm
