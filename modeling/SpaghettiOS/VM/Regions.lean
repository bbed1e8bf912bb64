import Mathlib.Data.List.Pairwise
import SpaghettiOS.VM.Fault

/-!
# Regions of an address space

`vm/address_space.c`.  An address space keeps a list of regions, the newest one
first.  The last address of a region belongs to it, so two regions that meet in one
address overlap.

`as_destroy_region` walks the list with a pointer to the previous region that it
never moves: whatever lies between the head and the region it looks for goes too.
-/

namespace SpaghettiOS.Vm

structure Perm where
  read : Bool
  write : Bool
  exec : Bool
deriving DecidableEq, Repr

def Perm.readWrite : Perm := ⟨true, true, false⟩

def Region.accmode (r : Region) : Perm := ⟨r.read, r.write, r.exec⟩

/-- The address lies in the region, as `as_seek_region` tests it. -/
def Region.Has (r : Region) (vaddr : Nat) : Prop := r.vbase ≤ vaddr ∧ vaddr ≤ r.vtop

instance (r : Region) (vaddr : Nat) : Decidable (r.Has vaddr) :=
  inferInstanceAs (Decidable (_ ∧ _))

/-- The four tests `valid_new_region` makes against one region. -/
def Region.Clashes (new curr : Region) : Prop :=
  (new.vbase ≥ curr.vbase ∧ new.vbase ≤ curr.vtop) ∨
  (new.vtop ≥ curr.vbase ∧ new.vtop ≤ curr.vtop) ∨ (new.vtop ≥ curr.vtop ∧ new.vbase ≤ curr.vbase) ∨
  (new.vtop ≤ curr.vtop ∧ new.vbase ≥ curr.vbase)

instance (new curr : Region) : Decidable (new.Clashes curr) :=
  inferInstanceAs (Decidable (_ ∨ _))

def validNewRegion (regions : List Region) (new : Region) : Bool :=
  regions.all fun curr => !decide (new.Clashes curr)

/-- The region `as_define_region` makes.  The sum is one of words. -/
def Region.make (vbase size : Nat) (accmode : Perm) : Region :=
  ⟨vbase, (vbase + size) % 2 ^ 64, accmode.read, accmode.write, accmode.exec⟩

/-- `as_define_region`: the result and the list. -/
def asDefineRegion (regions : List Region) (vbase size : Nat) (accmode : Perm) :
    Int × List Region :=
  let new := Region.make vbase size accmode
  if validNewRegion regions new then (0, new :: regions) else (-1, regions)

/-- What is left behind the first region that has the address. -/
def dropThrough (vaddr : Nat) : List Region → Option (List Region)
  | [] => none
  | curr :: rest => if curr.Has vaddr then some rest else dropThrough vaddr rest

/-- `as_destroy_region`: the result and the list. -/
def asDestroyRegion (regions : List Region) (vaddr : Nat) : Int × List Region :=
  match regions with
  | [] => (-1, [])
  | head :: rest =>
      if head.Has vaddr then (0, rest)
      else match dropThrough vaddr rest with
        | some tail => (0, head :: tail)
        | none => (-1, head :: rest)

def VmState.regionAt (s : VmState) (pid : Int) (vaddr : Nat) : Option Region :=
  (s.procs pid).bind fun as => asSeekRegion as vaddr

def VmState.setRegions (s : VmState) (pid : Int) (f : List Region → List Region) : VmState :=
  { s with
    procs := Function.update s.procs pid
      ((s.procs pid).map fun as => { as with regions := f as.regions }) }

section Regions

variable {regions : List Region} {new r : Region} {vaddr : Nat}

lemma asSeekRegion_eq_some {as : AddrSpace} (h : asSeekRegion as vaddr = some r) :
    r ∈ as.regions ∧ r.Has vaddr := by
  unfold asSeekRegion at h
  exact ⟨List.mem_of_find?_eq_some h, by simpa [Region.Has] using List.find?_some h⟩

lemma Region.disjoint_of_not_clashes {curr : Region} (h : ¬ new.Clashes curr)
    (hnew : new.Has vaddr) : ¬ curr.Has vaddr := by
  unfold Region.Clashes at h
  unfold Region.Has at hnew ⊢
  omega

lemma Region.clashes_iff {curr : Region} (hnew : new.vbase ≤ new.vtop)
    (hcurr : curr.vbase ≤ curr.vtop) :
    new.Clashes curr ↔ ∃ vaddr, new.Has vaddr ∧ curr.Has vaddr := by
  constructor
  · intro h
    refine ⟨max new.vbase curr.vbase, ?_⟩
    unfold Region.Clashes at h
    unfold Region.Has
    omega
  · rintro ⟨vaddr, hn, hc⟩
    by_contra h
    exact Region.disjoint_of_not_clashes h hn hc

lemma validNewRegion_iff :
    validNewRegion regions new = true ↔ ∀ curr ∈ regions, ¬ new.Clashes curr := by
  simp [validNewRegion]

lemma asSeekRegion_define {as : AddrSpace} {vbase size : Nat} {accmode : Perm}
    (h : asSeekRegion { as with regions := (asDefineRegion as.regions vbase size accmode).2 } vaddr
      = some r) :
    asSeekRegion as vaddr = some r ∨ r = Region.make vbase size accmode ∧ r.Has vaddr := by
  simp only [asDefineRegion] at h
  split at h
  · unfold asSeekRegion at h
    rw [List.find?_cons] at h
    split at h
    · rename_i hhas
      cases h
      exact .inr ⟨rfl, by simpa [Region.Has] using hhas⟩
    · exact .inl h
  · exact .inl h

/-! ## Any number of definitions and destructions -/

inductive RegionOp where
  | define (vbase size : Nat) (accmode : Perm)
  | destroy (vaddr : Nat)
deriving DecidableEq, Repr

def RegionOp.apply (regions : List Region) : RegionOp → Int × List Region
  | .define vbase size accmode => asDefineRegion regions vbase size accmode
  | .destroy vaddr => asDestroyRegion regions vaddr

def RegionStep (regions : List Region) (op : RegionOp) (regions' : List Region) : Prop :=
  regions' = (op.apply regions).2

/-- The regions have no address in common. -/
def Region.Apart (r r' : Region) : Prop := ∀ vaddr, ¬ (r.Has vaddr ∧ r'.Has vaddr)

instance : Std.Symm Region.Apart where
  symm _ _ h vaddr hboth := h vaddr hboth.symm

lemma dropThrough_sublist {rest : List Region} (h : dropThrough vaddr regions = some rest) :
    rest.Sublist regions := by
  induction regions with
  | nil => cases h
  | cons curr tail ih =>
    rw [dropThrough] at h
    split at h
    · cases h
      exact List.sublist_cons_self curr _
    · exact (ih h).cons curr

lemma asDestroyRegion_sublist : (asDestroyRegion regions vaddr).2.Sublist regions := by
  cases regions with
  | nil => exact .refl []
  | cons head rest =>
    rw [asDestroyRegion]
    split
    · exact List.sublist_cons_self head rest
    · split
      · rename_i tail htail
        exact (dropThrough_sublist htail).cons_cons head
      · exact .refl _

lemma RegionStep.apart {op : RegionOp} {regions' : List Region}
    (h : regions.Pairwise Region.Apart) (hstep : RegionStep regions op regions') :
    regions'.Pairwise Region.Apart := by
  subst hstep
  cases op with
  | define vbase size accmode =>
    simp only [RegionOp.apply, asDefineRegion]
    split
    · rename_i hvalid
      refine List.pairwise_cons.mpr ⟨fun curr hcurr vaddr hboth => ?_, h⟩
      exact Region.disjoint_of_not_clashes (validNewRegion_iff.mp hvalid curr hcurr)
        hboth.1 hboth.2
    · exact h
  | destroy vaddr => exact h.sublist asDestroyRegion_sublist

lemma asSeekRegion_eq_some_iff (h : regions.Pairwise Region.Apart) (pt : PageTable) :
    asSeekRegion ⟨regions, pt⟩ vaddr = some r ↔ r ∈ regions ∧ r.Has vaddr := by
  constructor
  · exact asSeekRegion_eq_some
  · rintro ⟨hmem, hhas⟩
    have hfound : (asSeekRegion ⟨regions, pt⟩ vaddr).isSome := by
      rw [asSeekRegion, List.find?_isSome]
      exact ⟨r, hmem, by simpa [Region.Has] using hhas⟩
    obtain ⟨r', hr'⟩ := Option.isSome_iff_exists.mp hfound
    obtain ⟨hmem', hhas'⟩ := asSeekRegion_eq_some hr'
    rcases eq_or_ne r' r with rfl | hne
    · exact hr'
    · exact absurd ⟨hhas', hhas⟩ (h.forall hmem' hmem hne vaddr)

/-- However regions are defined and destroyed, no two have an address in common, so that
`as_seek_region` finds the same one in whichever order they are listed.  A definition
that fails leaves the list as it is. -/
theorem regions_never_overlap (hrun : Lts.Run RegionStep Lts.anyStep [] regions) :
    regions.Pairwise Region.Apart ∧
      (∀ (regions' : List Region) (pt : PageTable) (v : Nat), regions'.Perm regions →
        asSeekRegion ⟨regions', pt⟩ v = asSeekRegion ⟨regions, pt⟩ v) ∧
      ∀ vbase size accmode, (asDefineRegion regions vbase size accmode).1 ≠ 0 →
        (asDefineRegion regions vbase size accmode).2 = regions := by
  have hapart : regions.Pairwise Region.Apart :=
    hrun.invariant (I := fun regions => regions.Pairwise Region.Apart) .nil
      fun h _ hstep => hstep.apart h
  refine ⟨hapart, fun regions' pt v hperm => ?_, fun vbase size accmode hfail => ?_⟩
  · have hapart' : regions'.Pairwise Region.Apart :=
      hperm.symm.pairwise hapart fun h => Std.Symm.symm _ _ h
    ext r
    rw [asSeekRegion_eq_some_iff hapart', asSeekRegion_eq_some_iff hapart, hperm.mem_iff]
  · simp only [asDefineRegion] at hfail ⊢
    split at hfail
    · exact absurd rfl hfail
    · rw [if_neg ‹_›]

end Regions

theorem regions_never_overlap_wrapped :
    ∃ regions, Lts.Run RegionStep Lts.anyStep [] regions ∧ regions.length = 2 ∧
      regions.Pairwise Region.Apart := by
  have hfirst : Lts.Run RegionStep Lts.anyStep [] _ :=
    .tail .refl trivial (a := .define 0xfffffffffffff000 0x1800 .readWrite) rfl
  have hrun := Lts.Run.tail hfirst trivial (a := .define 0x100 0x100 .readWrite) rfl
  exact ⟨_, hrun, by decide, (regions_never_overlap hrun).1⟩

/-! ## Destroying one region -/

section Destroy

variable {regions : List Region} {r : Region} {vaddr : Nat}

lemma dropThrough_eq_none (h : ∀ r ∈ regions, ¬ r.Has vaddr) :
    dropThrough vaddr regions = none := by
  induction regions with
  | nil => rfl
  | cons curr rest ih =>
    obtain ⟨hcurr, hrest⟩ := List.forall_mem_cons.mp h
    rw [dropThrough, if_neg hcurr, ih hrest]

lemma dropThrough_length (hr : r ∈ regions) (hhas : r.Has vaddr) :
    ∃ tail, dropThrough vaddr regions = some tail ∧ tail.length < regions.length := by
  induction regions with
  | nil => cases hr
  | cons curr rest ih =>
    rw [dropThrough]
    by_cases hcurr : curr.Has vaddr
    · exact ⟨rest, if_pos hcurr, Nat.lt_succ_self _⟩
    · rw [if_neg hcurr]
      rcases List.mem_cons.mp hr with rfl | hr
      · exact absurd hhas hcurr
      · obtain ⟨tail, htail, hlt⟩ := ih hr
        exact ⟨tail, htail, Nat.lt_succ_of_lt hlt⟩

lemma asDestroyRegion_none (h : ∀ r ∈ regions, ¬ r.Has vaddr) :
    asDestroyRegion regions vaddr = (-1, regions) := by
  cases regions with
  | nil => rfl
  | cons head rest =>
    obtain ⟨hhead, hrest⟩ := List.forall_mem_cons.mp h
    simp only [asDestroyRegion, if_neg hhead, dropThrough_eq_none hrest]

lemma asDestroyRegion_first (h : ∃ r ∈ regions.take 2, r.Has vaddr) :
    asDestroyRegion regions vaddr = (0, regions.eraseP fun r => r.Has vaddr) := by
  obtain ⟨r, hr, hhas⟩ := h
  match regions with
  | [] => cases hr
  | head :: rest =>
    by_cases hhead : head.Has vaddr
    · simp [asDestroyRegion, hhead]
    · match rest with
      | [] =>
        have hr : r = head := by simpa using hr
        exact absurd (hr ▸ hhas) hhead
      | second :: rest =>
        have hsecond : second.Has vaddr := by
          simp only [List.take_succ_cons, List.take_zero, List.mem_cons, List.not_mem_nil,
            or_false] at hr
          rcases hr with rfl | rfl
          · exact absurd hhas hhead
          · exact hhas
        simp [asDestroyRegion, hhead, dropThrough, hsecond]

/-- What `as_destroy_region` is for: the region that has the address goes and all others
stay, in their order, and nothing happens if there is none. -/
def DestroysOne (regions : List Region) (vaddr : Nat) : Prop :=
  asDestroyRegion regions vaddr =
    if ∃ r ∈ regions, r.Has vaddr then (0, regions.eraseP fun r => r.Has vaddr) else (-1, regions)

instance (regions : List Region) (vaddr : Nat) : Decidable (DestroysOne regions vaddr) :=
  inferInstanceAs (Decidable (_ = _))

/-- `as_destroy_region` destroys one region exactly when the address is in none from the
third one on.  A region that was just defined is the first one. -/
theorem destroys_one_iff (h : regions.Pairwise Region.Apart) :
    (DestroysOne regions vaddr ↔ ∀ r ∈ regions.drop 2, ¬ r.Has vaddr) ∧
      ∀ vbase size accmode, (asDefineRegion regions vbase size accmode).1 = 0 →
        (Region.make vbase size accmode).Has vaddr →
        asDestroyRegion (asDefineRegion regions vbase size accmode).2 vaddr = (0, regions) := by
  refine ⟨⟨fun hone r hr hhas => ?_, fun hfar => ?_⟩, fun vbase size accmode hdefine hhas => ?_⟩
  · have hmem : r ∈ regions := List.mem_of_mem_drop hr
    rw [DestroysOne, if_pos ⟨r, hmem, hhas⟩] at hone
    match regions with
    | [] => cases hr
    | [_] => cases hr
    | head :: second :: rest =>
        have hr : r ∈ rest := hr
        have hhead : ¬ head.Has vaddr := fun hhead =>
          (List.pairwise_cons.mp h).1 r (List.mem_cons_of_mem _ hr) vaddr ⟨hhead, hhas⟩
        have hsecond : ¬ second.Has vaddr := fun hsecond =>
          (List.pairwise_cons.mp h.of_cons).1 r hr vaddr ⟨hsecond, hhas⟩
        obtain ⟨tail, htail, hlt⟩ := dropThrough_length hr hhas
        have hlen := congrArg (fun x => x.2.length) hone
        have herase : (rest.eraseP fun r => r.Has vaddr).length = rest.length - 1 :=
          List.length_eraseP_of_mem hr (by simpa using hhas)
        simp [asDestroyRegion, hhead, hsecond, dropThrough, htail, herase] at hlen
        omega
  · unfold DestroysOne
    split
    · rename_i hsome
      obtain ⟨r, hr, hhas⟩ := hsome
      refine asDestroyRegion_first ⟨r, ?_, hhas⟩
      rw [← List.take_append_drop 2 regions] at hr
      rcases List.mem_append.mp hr with hr | hr
      · exact hr
      · exact absurd hhas (hfar r hr)
    · rename_i hnone
      push Not at hnone
      exact asDestroyRegion_none hnone
  · simp only [asDefineRegion] at hdefine ⊢
    split at hdefine
    · rename_i hvalid
      simp [hvalid, asDestroyRegion, hhas]
    · exact absurd hdefine (by simp)

end Destroy

theorem destroys_one_second :
    DestroysOne [⟨0x5000, 0x6000, true, true, false⟩, ⟨0x1000, 0x2000, true, true, false⟩] 0x1800 ∧
      asDestroyRegion (asDefineRegion [⟨0x5000, 0x6000, true, true, false⟩] 0x1000 0x1000
        .readWrite).2 0x1800 = (0, [⟨0x5000, 0x6000, true, true, false⟩]) := by
  have hapart : Region.Apart ⟨0x5000, 0x6000, true, true, false⟩
      ⟨0x1000, 0x2000, true, true, false⟩ := by
    rintro vaddr ⟨⟨hlow, -⟩, ⟨-, hhigh⟩⟩
    dsimp only at hlow hhigh
    omega
  refine ⟨(destroys_one_iff ?_).1.mpr nofun, ?_⟩
  · exact List.pairwise_pair.mpr hapart
  · exact (destroys_one_iff (List.pairwise_singleton _ _)).2 0x1000 0x1000 .readWrite
      (by decide) (by decide)

theorem destroys_two :
    ∃ regions, Lts.Run RegionStep Lts.anyStep [] regions ∧ regions.length = 3 ∧
      ¬ DestroysOne regions 0x1800 ∧
      asDestroyRegion regions 0x1800 = (0, [⟨0x5000, 0x6000, true, true, false⟩]) := by
  have hfirst : Lts.Run RegionStep Lts.anyStep [] _ :=
    .tail .refl trivial (a := .define 0x1000 0x1000 .readWrite) rfl
  have hsecond := hfirst.tail trivial (a := .define 0x3000 0x1000 .readWrite) rfl
  have hthird := hsecond.tail trivial (a := .define 0x5000 0x1000 .readWrite) rfl
  exact ⟨_, hthird, by decide, by decide, by decide⟩

end SpaghettiOS.Vm
