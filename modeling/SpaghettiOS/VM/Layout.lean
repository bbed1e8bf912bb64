import SpaghettiOS.VM.Image
import SpaghettiOS.VM.Rights

/-!
# The layout of an address space

The end of a region is its base plus its size, and `as_seek_region` and
`valid_new_region` count the end in, so that a region that begins where another one
ends cannot be defined.  `elf_load` does not look at the result of `as_define_region`: of
two segments that adjoin, the later one has no region.

The heap that `proc_start` defines reaches to the last address of the machine, but
the page table is indexed with 36 bits of the page number.
-/

namespace SpaghettiOS.Vm

open Coro (Keeps)
open Coroutine (Res Exec)

/-! ## The bytes of a region -/

/-- No region was defined for a byte of the interval. -/
def Free (regions : List Region) (vbase size : Nat) : Prop :=
  ∀ r ∈ regions, vbase + size ≤ r.vbase ∨ r.vtop ≤ vbase

/-- The interval begins where a region ends, or ends where one begins. -/
def Adjoins (regions : List Region) (vbase size : Nat) : Prop :=
  ∃ r ∈ regions, vbase + size = r.vbase ∨ r.vtop = vbase

instance (regions : List Region) (vbase size : Nat) : Decidable (Adjoins regions vbase size) :=
  inferInstanceAs (Decidable (∃ r ∈ regions, _))

/-- `as_define_region` on an address space. -/
def AddrSpace.define (as : AddrSpace) (vbase size : Nat) (accmode : Perm) : Int × AddrSpace :=
  let (result, regions) := asDefineRegion as.regions vbase size accmode
  (result, { as with regions := regions })

/-- What defining a region is for: it succeeds when the bytes are free, and the address
is found in the region when it is one of the bytes. -/
structure ExactAt (as : AddrSpace) (vbase size : Nat) (accmode : Perm) (vaddr : Nat) : Prop where
  defined : (as.define vbase size accmode).1 = 0 ↔ Free as.regions vbase size
  found : (as.define vbase size accmode).1 = 0 →
    (asSeekRegion (as.define vbase size accmode).2 vaddr = some (Region.make vbase size accmode) ↔
      vbase ≤ vaddr ∧ vaddr < vbase + size)

section Bytes

variable {regions : List Region} {vbase size vaddr : Nat} {accmode : Perm}

lemma asDefineRegion_zero_iff : (asDefineRegion regions vbase size accmode).1 = 0 ↔
      ∀ r ∈ regions, ¬ (Region.make vbase size accmode).Clashes r := by
  rw [← validNewRegion_iff, asDefineRegion]
  cases hvalid : validNewRegion regions (Region.make vbase size accmode) with
  | true => simp
  | false => simp

lemma asDefineRegion_zero_iff_free (hregions : ∀ r ∈ regions, r.vbase < r.vtop)
    (hsize : 0 < size) (hend : vbase + size < 2 ^ 64) :
    (asDefineRegion regions vbase size accmode).1 = 0 ↔
      Free regions vbase size ∧ ¬ Adjoins regions vbase size := by
  rw [asDefineRegion_zero_iff]
  have hclash : ∀ r ∈ regions, ¬ (Region.make vbase size accmode).Clashes r ↔
      vbase + size < r.vbase ∨ r.vtop < vbase := by
    intro r hr
    have hr' := hregions r hr
    simp only [Region.Clashes, Region.make, Nat.mod_eq_of_lt hend]
    omega
  constructor
  · intro h
    refine ⟨fun r hr => ?_, ?_⟩
    · have hr' := (hclash r hr).mp (h r hr)
      omega
    · rintro ⟨r, hr, hadj⟩
      have hr' := (hclash r hr).mp (h r hr)
      have hpos := hregions r hr
      omega
  · rintro ⟨hfree, hadj⟩ r hr
    have hr' := hfree r hr
    have hadj' : ¬ (vbase + size = r.vbase ∨ r.vtop = vbase) := fun h => hadj ⟨r, hr, h⟩
    exact (hclash r hr).mpr (by omega)

lemma asDefineRegion_of_zero (h : (asDefineRegion regions vbase size accmode).1 = 0) :
    (asDefineRegion regions vbase size accmode).2 = Region.make vbase size accmode :: regions := by
  simp only [asDefineRegion] at h ⊢
  split at h
  · rw [if_pos ‹_›]
  · exact absurd h (by simp)

lemma asDefineRegion_of_ne_zero (h : (asDefineRegion regions vbase size accmode).1 ≠ 0) :
    (asDefineRegion regions vbase size accmode).2 = regions := by
  simp only [asDefineRegion] at h ⊢
  split at h
  · exact absurd rfl h
  · rw [if_neg ‹_›]

variable {as : AddrSpace}

lemma asSeekRegion_make (hend : vbase + size < 2 ^ 64) (h : (as.define vbase size accmode).1 = 0) :
    asSeekRegion (as.define vbase size accmode).2 vaddr = some (Region.make vbase size accmode) ↔
      vbase ≤ vaddr ∧ vaddr ≤ vbase + size := by
  have hhas : (Region.make vbase size accmode).Has vaddr ↔
      vbase ≤ vaddr ∧ vaddr ≤ vbase + size := by
    simp only [Region.Has, Region.make, Nat.mod_eq_of_lt hend]
  have hlist : (as.define vbase size accmode).2.regions = _ := asDefineRegion_of_zero h
  rw [← hhas]
  constructor
  · intro hseek
    exact (asSeekRegion_eq_some hseek).2
  · rintro ⟨hlow, hhigh⟩
    rw [asSeekRegion, hlist]
    simp [hlow, hhigh]

lemma exactAt_iff (hregions : ∀ r ∈ as.regions, r.vbase < r.vtop) (hsize : 0 < size)
    (hend : vbase + size < 2 ^ 64) : ExactAt as vbase size accmode vaddr ↔
      ¬ Free as.regions vbase size ∨ ¬ Adjoins as.regions vbase size ∧ vaddr ≠ vbase + size := by
  have hzero : (as.define vbase size accmode).1 = 0 ↔ _ :=
    asDefineRegion_zero_iff_free hregions hsize hend
  constructor
  · rintro ⟨hdefined, hfound⟩
    by_cases hfree : Free as.regions vbase size
    · have hok := hdefined.mpr hfree
      refine .inr ⟨(hzero.mp hok).2, ?_⟩
      rintro rfl
      have hseek := (asSeekRegion_make hend hok).mpr ⟨Nat.le_add_right _ _, le_rfl⟩
      exact absurd ((hfound hok).mp hseek).2 (Nat.lt_irrefl _)
    · exact .inl hfree
  · rintro (hbusy | ⟨hadj, hne⟩)
    · have hfail : ¬ (as.define vbase size accmode).1 = 0 := fun hok => hbusy (hzero.mp hok).1
      exact ⟨⟨fun hok => absurd hok hfail, fun hfree => absurd hfree hbusy⟩,
        fun hok => absurd hok hfail⟩
    · refine ⟨⟨fun hok => (hzero.mp hok).1, fun hfree => hzero.mpr ⟨hfree, hadj⟩⟩, fun hok => ?_⟩
      rw [asSeekRegion_make hend hok]
      omega

end Bytes

/-! ## The regions of a program -/

/-- The regions `elf_load` defines for the segments, one after the other. -/
def segmentRegions : List ProgramHeader → List Region → List Region
  | [], regions => regions
  | h :: rest, regions =>
      segmentRegions rest
        (asDefineRegion regions h.vaddr h.memorySize (permFromElf h.flags)).2

def ProgramHeader.region (h : ProgramHeader) : Region :=
  Region.make h.vaddr h.memorySize (permFromElf h.flags)

/-- The segments have bytes, none beyond the last word, and no byte in common. -/
structure SegmentsApart (segments : List ProgramHeader) : Prop where
  nonempty : ∀ h ∈ segments, 0 < h.memorySize
  fits : ∀ h ∈ segments, h.vaddr + h.memorySize < 2 ^ 64
  apart : segments.Pairwise fun h h' =>
    h.vaddr + h.memorySize ≤ h'.vaddr ∨ h'.vaddr + h'.memorySize ≤ h.vaddr

/-- Every byte of every segment has a region with the permissions of the segment. -/
def AllCovered (s : VmState) (pid : Int) (segments : List ProgramHeader) : Prop :=
  ∀ h ∈ segments, ∀ vaddr, h.vaddr ≤ vaddr → vaddr < h.vaddr + h.memorySize →
    ∃ r, s.regionAt pid vaddr = some r ∧ r.accmode = permFromElf h.flags

section Segments

variable {segments rest : List ProgramHeader} {regions : List Region} {h : ProgramHeader}

lemma sublist_asDefineRegion (vbase size : Nat) (accmode : Perm) :
    regions.Sublist (asDefineRegion regions vbase size accmode).2 := by
  by_cases hok : (asDefineRegion regions vbase size accmode).1 = 0
  · rw [asDefineRegion_of_zero hok]
    exact List.sublist_cons_self _ _
  · rw [asDefineRegion_of_ne_zero hok]

lemma segmentRegions_append (segments rest : List ProgramHeader) (regions : List Region) :
    segmentRegions (segments ++ rest) regions
      = segmentRegions rest (segmentRegions segments regions) := by
  induction segments generalizing regions with
  | nil => rfl
  | cons h segments ih => exact ih _

lemma sublist_segmentRegions (segments : List ProgramHeader) (regions : List Region) :
    regions.Sublist (segmentRegions segments regions) := by
  induction segments generalizing regions with
  | nil => exact .refl _
  | cons h segments ih => exact (sublist_asDefineRegion _ _ _).trans (ih _)

lemma mem_segmentRegions {r : Region} (hr : r ∈ segmentRegions segments regions) :
    r ∈ regions ∨ ∃ h ∈ segments, r = h.region := by
  induction segments generalizing regions with
  | nil => exact .inl hr
  | cons h segments ih =>
    rcases ih hr with hr | ⟨h', hh', rfl⟩
    · by_cases hok : (asDefineRegion regions h.vaddr h.memorySize (permFromElf h.flags)).1 = 0
      · rw [asDefineRegion_of_zero hok] at hr
        rcases List.mem_cons.mp hr with rfl | hr
        · exact .inr ⟨h, List.mem_cons_self, rfl⟩
        · exact .inl hr
      · rw [asDefineRegion_of_ne_zero hok] at hr
        exact .inl hr
    · exact .inr ⟨h', List.mem_cons_of_mem _ hh', rfl⟩

lemma segmentRegions_apart (happ : regions.Pairwise Region.Apart) :
    (segmentRegions segments regions).Pairwise Region.Apart := by
  induction segments generalizing regions with
  | nil => exact happ
  | cons h segments ih =>
    have hstep : RegionStep regions (.define h.vaddr h.memorySize (permFromElf h.flags)) _ := rfl
    exact ih (hstep.apart happ)

lemma region_vtop (hfits : h.vaddr + h.memorySize < 2 ^ 64) :
    h.region.vtop = h.vaddr + h.memorySize :=
  Nat.mod_eq_of_lt hfits

lemma asDefineRegion_segment (happ : SegmentsApart (segments ++ h :: rest)) :
    (asDefineRegion (segmentRegions segments []) h.vaddr h.memorySize (permFromElf h.flags)).1 = 0 ↔
      ¬ Adjoins (segmentRegions segments []) h.vaddr h.memorySize := by
  have hh : h ∈ segments ++ h :: rest := by simp
  have hbefore : ∀ r ∈ segmentRegions segments [], ∃ h' ∈ segments, r = h'.region ∧
      r.vbase = h'.vaddr ∧ r.vtop = h'.vaddr + h'.memorySize := by
    intro r hr
    rcases mem_segmentRegions hr with hr | ⟨h', hh', rfl⟩
    · cases hr
    · exact ⟨h', hh', rfl, rfl, region_vtop (happ.fits h' (List.mem_append_left _ hh'))⟩
  rw [asDefineRegion_zero_iff_free ?_ (happ.nonempty h hh) (happ.fits h hh)]
  · refine ⟨And.right, fun hadj => ⟨fun r hr => ?_, hadj⟩⟩
    obtain ⟨h', hh', -, hbase, htop⟩ := hbefore r hr
    have hdisj := (List.pairwise_append.mp happ.apart).2.2 h' hh' h List.mem_cons_self
    rw [hbase, htop]
    exact hdisj.symm
  · intro r hr
    obtain ⟨h', hh', -, hbase, htop⟩ := hbefore r hr
    have hpos := happ.nonempty h' (List.mem_append_left _ hh')
    omega

lemma eq_of_region_has {h' : ProgramHeader} {vaddr : Nat}
    (hfits : h'.vaddr + h'.memorySize < 2 ^ 64)
    (hdisj : h'.vaddr + h'.memorySize ≤ h.vaddr ∨ h.vaddr + h.memorySize ≤ h'.vaddr)
    (hlow : h.vaddr ≤ vaddr) (hhigh : vaddr < h.vaddr + h.memorySize)
    (hhas : h'.region.Has vaddr) : vaddr = h.vaddr ∧ h'.region.vtop = h.vaddr := by
  obtain ⟨hlow', hhigh'⟩ := hhas
  have hbase : h'.region.vbase = h'.vaddr := rfl
  rw [hbase] at hlow'
  rw [region_vtop hfits] at hhigh' ⊢
  omega

lemma covered_refused_iff (happ : SegmentsApart (segments ++ h :: rest)) (pt : PageTable)
    (hadj : Adjoins (segmentRegions segments []) h.vaddr h.memorySize) :
    (∀ vaddr, h.vaddr ≤ vaddr → vaddr < h.vaddr + h.memorySize →
      ∃ r, asSeekRegion ⟨segmentRegions (segments ++ h :: rest) [], pt⟩ vaddr = some r ∧
        r.accmode = permFromElf h.flags) ↔
    h.memorySize = 1 ∧ ∃ r ∈ segmentRegions (segments ++ h :: rest) [],
      r.vtop = h.vaddr ∧ r.accmode = permFromElf h.flags := by
  have hpos := happ.nonempty h (by simp)
  have hapart : (segmentRegions (segments ++ h :: rest) []).Pairwise Region.Apart :=
    segmentRegions_apart .nil
  have hother : ∀ r ∈ segmentRegions (segments ++ h :: rest) [], ∃ h' : ProgramHeader,
      r = h'.region ∧ h'.vaddr + h'.memorySize < 2 ^ 64 ∧
      (h'.vaddr + h'.memorySize ≤ h.vaddr ∨ h.vaddr + h.memorySize ≤ h'.vaddr) := by
    intro r hr
    have hrefused : (asDefineRegion (segmentRegions segments []) h.vaddr h.memorySize
        (permFromElf h.flags)).1 ≠ 0 := fun hok => (asDefineRegion_segment happ).mp hok hadj
    rw [segmentRegions_append, segmentRegions, asDefineRegion_of_ne_zero hrefused] at hr
    obtain ⟨-, hrest, hcross⟩ := List.pairwise_append.mp happ.apart
    rcases mem_segmentRegions hr with hr | ⟨h', hh', rfl⟩
    · rcases mem_segmentRegions hr with hr | ⟨h', hh', rfl⟩
      · cases hr
      · have hmem : h' ∈ segments ++ h :: rest := List.mem_append_left _ hh'
        exact ⟨h', rfl, happ.fits h' hmem, hcross h' hh' h List.mem_cons_self⟩
    · have hmem : h' ∈ segments ++ h :: rest := by simp [hh']
      exact ⟨h', rfl, happ.fits h' hmem, ((List.pairwise_cons.mp hrest).1 h' hh').symm⟩
  constructor
  · intro hall
    have hfirst : ∀ vaddr, h.vaddr ≤ vaddr → vaddr < h.vaddr + h.memorySize →
        ∃ r ∈ segmentRegions (segments ++ h :: rest) [], vaddr = h.vaddr ∧ r.vtop = h.vaddr ∧
          r.accmode = permFromElf h.flags := by
      intro vaddr hlow hhigh
      obtain ⟨r, hseek, hmode⟩ := hall vaddr hlow hhigh
      obtain ⟨hr, hhas⟩ := asSeekRegion_eq_some hseek
      obtain ⟨h', rfl, hfits', hdisj⟩ := hother r hr
      obtain ⟨heq, htop⟩ := eq_of_region_has hfits' hdisj hlow hhigh hhas
      exact ⟨_, hr, heq, htop, hmode⟩
    obtain ⟨r, hr, -, htop, hmode⟩ := hfirst h.vaddr le_rfl (by omega)
    refine ⟨?_, r, hr, htop, hmode⟩
    by_contra hmore
    obtain ⟨-, -, heq, -⟩ := hfirst (h.vaddr + 1) (by omega) (by omega)
    omega
  · rintro ⟨hone, r, hr, htop, hmode⟩ vaddr hlow hhigh
    have hvaddr : vaddr = h.vaddr := by omega
    refine ⟨r, (asSeekRegion_eq_some_iff hapart pt).mpr ⟨hr, ?_⟩, hmode⟩
    obtain ⟨h', rfl, hfits', -⟩ := hother r hr
    rw [region_vtop hfits'] at htop
    refine ⟨?_, ?_⟩
    · show h'.vaddr ≤ vaddr
      omega
    · rw [region_vtop hfits']
      omega

lemma covered_defined (happ : SegmentsApart (segments ++ h :: rest)) (pt : PageTable)
    (hadj : ¬ Adjoins (segmentRegions segments []) h.vaddr h.memorySize) {vaddr : Nat}
    (hlow : h.vaddr ≤ vaddr) (hhigh : vaddr < h.vaddr + h.memorySize) :
    asSeekRegion ⟨segmentRegions (segments ++ h :: rest) [], pt⟩ vaddr = some h.region := by
  refine (asSeekRegion_eq_some_iff (segmentRegions_apart .nil) pt).mpr ⟨?_, hlow, ?_⟩
  · rw [segmentRegions_append, segmentRegions,
      asDefineRegion_of_zero ((asDefineRegion_segment happ).mpr hadj)]
    exact (sublist_segmentRegions rest _).subset List.mem_cons_self
  · rw [region_vtop (happ.fits h (by simp))]
    omega

end Segments

/-! ## Loading a program -/

section Load

variable {m : Machine} {pid : Int} {s t : VmState} {file : Nat → UInt8} {h : ProgramHeader}

lemma loadSegment_regions : (loadSegment m pid file h s).Ends (Served pid) fun err t => err = 0 →
      (t.procs pid).map AddrSpace.regions = (s.procs pid).map fun as =>
        (asDefineRegion as.regions h.vaddr h.memorySize (permFromElf h.flags)).2 := by
  have hloop : Keeps (Served pid) (Touches fun _ _ _ => True)
      (loadSegmentIntoVspace m pid file h) :=
    Keeps.bind (.check _ _) fun _ => loadLoop_touches (I := fun _ _ => True)
      (fun pos _ src _ _ => ⟨loadPage_touches (fun _ => trivial) trivial file pos src, trivial⟩)
      _ trivial _
  refine Res.Ends.bind (hloop s) fun err u hu => ?_
  split
  · exact fun hzero => absurd hzero (by decide)
  · intro _
    have hregions := hu.regions pid
    simp only [VmState.setRegions, Function.update_self, Option.map_map]
    cases hs : s.procs pid with
    | none =>
      rw [hs] at hregions
      rw [Option.map_eq_none_iff.mp hregions]
      rfl
    | some as =>
      rw [hs] at hregions
      obtain ⟨as', has', heq⟩ := Option.map_eq_some_iff.mp hregions
      simp [has', heq]

lemma loadSegments_regions {headers : List ProgramHeader} :
    (loadSegments m pid file headers s).Ends (Served pid) fun err t => err = 0 →
      (t.procs pid).map AddrSpace.regions = (s.procs pid).map fun as =>
        segmentRegions (loadable headers) as.regions := by
  induction headers generalizing s with
  | nil => exact fun _ => rfl
  | cons h headers ih =>
    unfold loadSegments
    split
    · rename_i htype
      have hskip : loadable (h :: headers) = loadable headers := by simp [loadable, htype]
      rw [hskip]
      exact ih
    · rename_i htype
      have hload : loadable (h :: headers) = h :: loadable headers := by
        simp [loadable, of_not_not htype]
      rw [hload]
      refine Res.Ends.bind loadSegment_regions fun err u hu => ?_
      split
      · exact fun hzero => absurd hzero (by decide)
      · rename_i herr
        have hu := hu (of_not_not herr)
        refine ih.mono fun err' t ht hzero => ?_
        rw [ht hzero]
        cases hs : s.procs pid with
        | none =>
          rw [hs] at hu
          rw [Option.map_eq_none_iff.mp hu]
          rfl
        | some as =>
          rw [hs] at hu
          obtain ⟨as', has', heq⟩ := Option.map_eq_some_iff.mp hu
          simp [has', heq, segmentRegions]

end Load

/-- A region is exact, at an address, unless another one adjoins or the address is the one
behind its bytes. In a program whose segments are disjoint every byte has its region exactly
when a segment that adjoins one with a region is a single byte that the region in front reaches,
with the same permissions. -/
theorem regions_exact_iff {as : AddrSpace} {vbase size : Nat} (accmode : Perm) (vaddr : Nat)
    (hregions : ∀ r ∈ as.regions, r.vbase < r.vtop) (hsize : 0 < size)
    (hend : vbase + size < 2 ^ 64) :
    (ExactAt as vbase size accmode vaddr ↔
      ¬ Free as.regions vbase size ∨ ¬ Adjoins as.regions vbase size ∧ vaddr ≠ vbase + size) ∧
    ∀ (m : Machine) (pid : Int) (f : ElfFile) (s t : VmState),
      (s.procs pid).map AddrSpace.regions = some [] → SegmentsApart (loadable f.headers) →
      Exec (Served pid) (elfLoad m pid (some f) s) 0 t → (AllCovered t pid (loadable f.headers) ↔
        ∀ before h after, loadable f.headers = before ++ h :: after →
          Adjoins (segmentRegions before []) h.vaddr h.memorySize →
          h.memorySize = 1 ∧ ∃ r ∈ segmentRegions (loadable f.headers) [],
            r.vtop = h.vaddr ∧ r.accmode = permFromElf h.flags) := by
  refine ⟨exactAt_iff hregions hsize hend, fun m pid f s t hfresh happ hexec => ?_⟩
  obtain ⟨as, hs, hnil⟩ := Option.map_eq_some_iff.mp hfresh
  have hload : Exec (Served pid) (loadSegments m pid f.byte f.headers s) 0 t := by
    unfold elfLoad at hexec
    cases hwf : f.wellFormed with
    | true => simpa only [hwf, if_true] using hexec
    | false =>
        have hfail : (pure (-1) : VmM Int) s = Res.done (-1) s := rfl
        simp only [hwf, Bool.false_eq_true, if_false, hfail] at hexec
        cases hexec
  have hregions := loadSegments_regions.exec hload rfl
  rw [hs, Option.map_some, hnil] at hregions
  obtain ⟨as', ht, hlist⟩ := Option.map_eq_some_iff.mp hregions
  have hseek : ∀ vaddr, t.regionAt pid vaddr
      = asSeekRegion ⟨segmentRegions (loadable f.headers) [], as'.pt⟩ vaddr := by
    intro vaddr
    rw [VmState.regionAt, ht, Option.bind_some, ← hlist]
  unfold AllCovered
  simp only [hseek]
  generalize loadable f.headers = segments at happ
  constructor
  · rintro hall before h after rfl hadj
    exact (covered_refused_iff happ as'.pt hadj).mp (hall h (by simp))
  · intro hrefused h hh
    obtain ⟨before, after, rfl⟩ := List.append_of_mem hh
    by_cases hadj : Adjoins (segmentRegions before []) h.vaddr h.memorySize
    · exact (covered_refused_iff happ as'.pt hadj).mpr (hrefused before h after rfl hadj)
    · exact fun vaddr hlow hhigh => ⟨h.region, covered_defined happ as'.pt hadj hlow hhigh, rfl⟩

lemma segmentsApart_two {data : Nat} (hlow : 0x1020 ≤ data) (hhigh : data < 2 ^ 63) :
    SegmentsApart (loadable (twoSegments data).headers) := by
  have hlist : loadable (twoSegments data).headers = (twoSegments data).headers := rfl
  rw [hlist]
  refine ⟨?_, ?_, List.pairwise_pair.mpr (.inl hlow)⟩
  · simp [twoSegments]
  · simp only [twoSegments, List.mem_cons, List.not_mem_nil, or_false, forall_eq_or_imp, forall_eq]
    omega

theorem regions_exact_apart :
    ExactAt ⟨[⟨0x1000, 0x2000, true, true, false⟩], smallTable 0 fun _ => 0⟩ 0x3000 0x1000
        .readWrite 0x3fff ∧
      ∃ t, Exec (Served 1) (elfLoad (grantingMachine 64) 1 (some (twoSegments 0x2000))
        newProcess) 0 t ∧ AllCovered t 1 (loadable (twoSegments 0x2000).headers) := by
  obtain ⟨_, t, hexec, rfl⟩ := Res.exists_exec (P := fun r _ => r = 0)
    (m := elfLoad (grantingMachine 64) 1 (some (twoSegments 0x2000)) newProcess)
    (served_wholePages 1) (by decide +kernel)
  have hsized : ∀ r ∈ (⟨[⟨0x1000, 0x2000, true, true, false⟩], smallTable 0 fun _ => 0⟩ :
      AddrSpace).regions, r.vbase < r.vtop := by decide
  have hfar : 0x3000 + 0x1000 < 2 ^ 64 := by decide
  obtain ⟨hexact, hload⟩ := regions_exact_iff .readWrite 0x3fff hsized (by decide) hfar
  refine ⟨hexact.mpr (.inr ⟨by decide, by decide⟩), t, hexec, ?_⟩
  refine (hload _ 1 _ newProcess t rfl (segmentsApart_two (by decide) (by decide)) hexec).mpr ?_
  intro before h after hsplit hadj
  have hlist : loadable (twoSegments 0x2000).headers = (twoSegments 0x2000).headers := rfl
  rw [hlist, twoSegments] at hsplit
  match before with
  | [] =>
      obtain ⟨r, hr, -⟩ := hadj
      cases hr
  | [first] =>
      simp only [List.cons_append, List.nil_append, List.cons.injEq] at hsplit
      obtain ⟨rfl, rfl, -⟩ := hsplit
      exact absurd hadj (by decide)
  | first :: second :: before => simp at hsplit

theorem adjoining_region_refused :
    ¬ ExactAt ⟨[⟨0x1000, 0x2000, true, true, false⟩], smallTable 0 fun _ => 0⟩ 0x2000 0x1000
        .readWrite 0x2800 ∧
      ∃ t, Exec (Served 1) (elfLoad (grantingMachine 64) 1 (some (twoSegments 0x1020))
        newProcess) 0 t ∧ ¬ AllCovered t 1 (loadable (twoSegments 0x1020).headers) := by
  refine ⟨fun h => absurd (h.defined.mpr ?_) (by decide), ?_⟩
  · intro r hr
    obtain rfl := List.mem_singleton.mp hr
    exact .inr le_rfl
  · obtain ⟨_, t, hexec, rfl, hnone⟩ := Res.exists_exec
      (m := elfLoad (grantingMachine 64) 1 (some (twoSegments 0x1020)) newProcess)
      (P := fun r t => r = 0 ∧ t.regionAt 1 0x1030 = none) (served_wholePages 1)
      (by decide +kernel)
    refine ⟨t, hexec, fun hall => ?_⟩
    obtain ⟨reg, hreg, -⟩ := hall ⟨ptLoad, 0x10, 0x10, 0x20, 0x1020, pfR ||| pfW⟩
      (List.mem_cons_of_mem _ List.mem_cons_self) 0x1030 (by decide) (by decide)
    rw [hnone] at hreg
    cases hreg

/-! ## The regions of a process -/

abbrev processStackTop : Nat := 0x9000000000

abbrev stackPages : Nat := 4000

abbrev processIpcBuffer : Nat := 0xA0000000

abbrev processMax : Nat := 0xFFFFFFFFFFFFFFFF

def asDefineStack (regions : List Region) : Int × List Region :=
  asDefineRegion regions (processStackTop - pageSize * stackPages) (pageSize * stackPages)
    .readWrite

def asDefineHeap (regions : List Region) : Int × List Region :=
  asDefineRegion regions (processStackTop + pageSize) (processMax - processStackTop - pageSize)
    .readWrite

def asDefineSharedBuffer (regions : List Region) : Int × List Region :=
  asDefineRegion regions (processSharedBufTop - shareBufBytes) shareBufBytes .readWrite

/-- The regions `proc_start` defines behind those of the program, in its order.  It gives
up when a definition fails. -/
def procStartRegions (program : List Region) : Option (List Region) := do
  let regions ← defined (asDefineStack program)
  let regions ← defined (asDefineHeap regions)
  let regions ← defined (asDefineSharedBuffer regions)
  defined (asDefineRegion regions processIpcBuffer pageSize .readWrite)
where
  defined : Int × List Region → Option (List Region)
    | (result, regions) => if result = 0 then some regions else none

def heapRegion : Region :=
  Region.make (processStackTop + pageSize) (processMax - processStackTop - pageSize) .readWrite

section Start

variable {program regions : List Region}

lemma procStartRegions.defined_eq_some {vbase size : Nat} {accmode : Perm}
    (h : procStartRegions.defined (asDefineRegion program vbase size accmode) = some regions) :
    (asDefineRegion program vbase size accmode).1 = 0 ∧
      regions = Region.make vbase size accmode :: program := by
  unfold procStartRegions.defined at h
  split at h
  rename_i result regions' heq
  split at h
  · rename_i hzero
    have hok : (asDefineRegion program vbase size accmode).1 = 0 := by rw [heq, hzero]
    cases h
    refine ⟨hok, ?_⟩
    rw [← asDefineRegion_of_zero hok, heq]
  · cases h

lemma heapRegion_has (hwords : ∀ r ∈ program, r.vtop < 2 ^ 64)
    (h : procStartRegions program = some regions) {r : Region} {v : Nat} (hr : r ∈ regions)
    (hhas : r.Has v) (hv : 2 ^ 48 ≤ v) : heapRegion.Has v := by
  simp only [procStartRegions, Option.bind_eq_bind, Option.bind_eq_some_iff] at h
  obtain ⟨regions₁, h1, regions₂, h2, regions₃, h3, h4⟩ := h
  obtain ⟨-, rfl⟩ := procStartRegions.defined_eq_some h1
  obtain ⟨hheap, rfl⟩ := procStartRegions.defined_eq_some h2
  obtain ⟨-, rfl⟩ := procStartRegions.defined_eq_some h3
  obtain ⟨-, rfl⟩ := procStartRegions.defined_eq_some h4
  have hlow : ∀ (vbase size : Nat), vbase + size < 2 ^ 48 →
      ¬ (Region.make vbase size .readWrite).Has v := by
    rintro vbase size hsum ⟨-, hle⟩
    have hmod : (vbase + size) % 2 ^ 64 = vbase + size := Nat.mod_eq_of_lt (by omega)
    simp only [Region.make, hmod] at hle
    omega
  simp only [List.mem_cons] at hr
  rcases hr with rfl | rfl | rfl | rfl | hr
  · exact absurd hhas (hlow _ _ (by decide))
  · exact absurd hhas (hlow _ _ (by decide))
  · exact hhas
  · exact absurd hhas (hlow _ _ (by decide))
  · -- a region of the program that got there would clash with the heap
    have hclash := asDefineRegion_zero_iff.mp hheap r (List.mem_cons_of_mem _ hr)
    have hheapHas : heapRegion.Has v := by
      have hword := hwords r hr
      have hle := hhas.2
      have hbase : heapRegion.vbase = 0x9000001000 := rfl
      have htop : heapRegion.vtop = 0xFFFFFFFFFFFFFFFF := rfl
      unfold Region.Has
      omega
    exact absurd hhas (Region.disjoint_of_not_clashes hclash hheapHas)

/-- Two addresses of a process in different pages have different entries of the page table,
unless one is a heap address that the index cuts off and the pages agree in the 36 bits that it
keeps. -/
theorem pt_index_differs_iff (hwords : ∀ r ∈ program, r.vtop < 2 ^ 64)
    (h : procStartRegions program = some regions) (pt : PageTable) {v w : Nat}
    (hv : (asSeekRegion ⟨regions, pt⟩ v).isSome) (hw : (asSeekRegion ⟨regions, pt⟩ w).isSome)
    (hpages : v / pageSize ≠ w / pageSize) :
    getPtIndex v ≠ getPtIndex w ↔
      ¬ ((heapRegion.Has v ∧ 2 ^ 48 ≤ v ∨ heapRegion.Has w ∧ 2 ^ 48 ≤ w) ∧
        v / pageSize % 2 ^ 36 = w / pageSize % 2 ^ 36) := by
  obtain ⟨r, hr⟩ := Option.isSome_iff_exists.mp hv
  obtain ⟨r', hr'⟩ := Option.isSome_iff_exists.mp hw
  obtain ⟨hmem, hhas⟩ := asSeekRegion_eq_some hr
  obtain ⟨hmem', hhas'⟩ := asSeekRegion_eq_some hr'
  rw [Ne, getPtIndex_eq_iff_mod, not_iff_not]
  refine ⟨fun heq => ⟨?_, heq⟩, And.right⟩
  rcases Nat.lt_or_ge v (2 ^ 48) with hlow | hhigh
  · rcases Nat.lt_or_ge w (2 ^ 48) with hlow' | hhigh'
    · unfold pageSize at hpages
      omega
    · exact .inr ⟨heapRegion_has hwords h hmem' hhas' hhigh', hhigh'⟩
  · exact .inl ⟨heapRegion_has hwords h hmem hhas hhigh, hhigh⟩

end Start

def startedRegions : List Region :=
  [⟨0xA0000000, 0xA0001000, true, true, false⟩, ⟨0xCFF00000, 0xD0000000, true, true, false⟩,
    ⟨0x9000001000, 0xFFFFFFFFFFFFFFFF, true, true, false⟩,
    ⟨0x8FFF060000, 0x9000000000, true, true, false⟩, ⟨0x400000, 0x410000, true, false, true⟩]

theorem pt_index_differs_stack :
    procStartRegions [⟨0x400000, 0x410000, true, false, true⟩] = some startedRegions ∧
      getPtIndex 0x400800 ≠ getPtIndex 0x8FFFFFF000 := by
  have hstart : procStartRegions [⟨0x400000, 0x410000, true, false, true⟩]
      = some startedRegions := by decide
  refine ⟨hstart, (pt_index_differs_iff ?_ hstart (smallTable 0 fun _ => 0) ?_ ?_ ?_).mpr ?_⟩
  · simp
  · decide
  · decide
  · decide
  · decide

theorem heap_pages_alias :
    procStartRegions [⟨0x400000, 0x410000, true, false, true⟩] = some startedRegions ∧
      (asSeekRegion ⟨startedRegions, smallTable 0 fun _ => 0⟩ 0x9000001000).isSome ∧
      (asSeekRegion ⟨startedRegions, smallTable 0 fun _ => 0⟩ 0x1009000001000).isSome ∧
      0x9000001000 / pageSize ≠ 0x1009000001000 / pageSize ∧
      getPtIndex 0x9000001000 = getPtIndex 0x1009000001000 := by
  decide

end SpaghettiOS.Vm
