import Mathlib.Algebra.BigOperators.Fin
import Mathlib.Data.Fintype.BigOperators
import Mathlib.Order.Interval.Finset.Basic
import Mathlib.Data.Int.Interval
import SpaghettiOS.Proc.Handlers

/-!
# The status of the processes

`syscall_proc_status` takes the number of descriptors that there is room for as the first
pid that it is not to look at.  The size of a process is counted by `get_proc_size`, which
counts the entries whose address is not `NULL`.  No address is, so that every page table that
is there counts with all of its 512 entries, valid or not.
-/

namespace SpaghettiOS.Process

open Coroutine (Res)
open Vm (Word PageTable PtIndex Pt Pd Pud Node pageGetBits pageUpdateEntry pInvalid)

/-! ## The size of a process -/

def sumSlots {α : Type} (f : α → Nat) (n : Node α) : Nat :=
  ((List.finRange 512).map fun i => f (n.slot i)).sum

/-- The inner loop of `get_proc_size`.  A pointer to a slot is the slot. -/
def ptSize (n : Pt) : Nat := sumSlots (fun entry => if some entry ≠ none then 1 else 0) n

def getProcSize (t : PageTable) : Nat :=
  sumSlots (fun pud : Option Pud => pud.elim 0
    (sumSlots fun pd : Option Pd => pd.elim 0
      (sumSlots fun pt : Option Pt => pt.elim 0 ptSize))) t.pgd

/-- The entry is not `P_INVALID`: the page is in memory or in the pagefile. -/
def Valid (entry : Word) : Prop := pageGetBits entry &&& pInvalid = 0

instance (entry : Word) : Decidable (Valid entry) := inferInstanceAs (Decidable (_ = _))

def PtIndex.equiv : PtIndex ≃ Fin 512 × Fin 512 × Fin 512 × Fin 512 where
  toFun i := (i.l1, i.l2, i.l3, i.l4)
  invFun x := ⟨x.1, x.2.1, x.2.2.1, x.2.2.2⟩
  left_inv _ := rfl
  right_inv _ := rfl

local instance : Fintype PtIndex := Fintype.ofEquiv _ PtIndex.equiv.symm

def entries (t : PageTable) : Finset PtIndex := Finset.univ.filter fun i => (t.word i).isSome

def validEntries (t : PageTable) : Finset PtIndex :=
  Finset.univ.filter fun i => (t.word i).any fun w => Valid w

section Size

variable {t : PageTable}

lemma sumSlots_eq {α : Type} (f : α → Nat) (n : Node α) :
    sumSlots f n = ∑ i, f (n.slot i) := (Fin.sum_univ_def _).symm

lemma elim_sumSlots {β : Type} {f : Option β → Nat} (hf : f none = 0)
    (n : Option (Node (Option β))) : n.elim 0 (sumSlots f) = ∑ i, f (n.bind fun n => n.slot i) := by
  cases n with
  | none => simp [hf]
  | some n => simp [sumSlots_eq]

lemma elim_ptSize (n : Option Pt) :
    n.elim 0 ptSize = ∑ i, if (n.map fun n => n.slot i).isSome then 1 else 0 := by
  cases n with
  | none => simp
  | some n => simp [ptSize, sumSlots_eq]

lemma getProcSize_eq (t : PageTable) : getProcSize t = (entries t).card := by
  calc getProcSize t
      = ∑ a, (t.pud a).elim 0 (sumSlots fun pd : Option Pd => pd.elim 0
          (sumSlots fun pt : Option Pt => pt.elim 0 ptSize)) := sumSlots_eq _ _
    _ = ∑ a, ∑ b, (t.pd a b).elim 0 (sumSlots fun pt : Option Pt => pt.elim 0 ptSize) :=
        Finset.sum_congr rfl fun a _ => elim_sumSlots rfl _
    _ = ∑ a, ∑ b, ∑ c, (t.pt a b c).elim 0 ptSize :=
        Finset.sum_congr rfl fun a _ => Finset.sum_congr rfl fun b _ => elim_sumSlots rfl _
    _ = ∑ a, ∑ b, ∑ c, ∑ d, if (t.word ⟨a, b, c, d⟩).isSome then 1 else 0 :=
        Finset.sum_congr rfl fun a _ => Finset.sum_congr rfl fun b _ =>
          Finset.sum_congr rfl fun c _ => elim_ptSize _
    _ = ∑ x : Fin 512 × Fin 512 × Fin 512 × Fin 512,
          if (t.word (PtIndex.equiv.symm x)).isSome then 1 else 0 := by
        simp only [Fintype.sum_prod_type]
        rfl
    _ = ∑ i : PtIndex, if (t.word i).isSome then 1 else 0 :=
        Fintype.sum_equiv PtIndex.equiv.symm _ _ fun _ => rfl
    _ = (entries t).card := (Finset.card_filter _ _).symm

lemma mem_entries {i : PtIndex} : i ∈ entries t ↔ ∃ w, t.word i = some w := by
  rw [entries, Finset.mem_filter, and_iff_right (Finset.mem_univ i), Option.isSome_iff_exists]

lemma mem_validEntries {i : PtIndex} : i ∈ validEntries t ↔ ∃ w, t.word i = some w ∧ Valid w := by
  rw [validEntries, Finset.mem_filter, and_iff_right (Finset.mem_univ i), Option.any_eq_true]
  simp only [decide_eq_true_eq]

attribute [irreducible] entries validEntries getProcSize

lemma validEntries_subset (t : PageTable) : validEntries t ⊆ entries t := by
  intro i hi
  obtain ⟨w, hw, -⟩ := mem_validEntries.mp hi
  exact mem_entries.mpr ⟨w, hw⟩

lemma getProcSize_eq_iff :
    getProcSize t = (validEntries t).card ↔ ∀ i w, t.word i = some w → Valid w := by
  rw [getProcSize_eq]
  constructor
  · intro hcard i w hw
    have heq := Finset.eq_of_subset_of_card_le (validEntries_subset t) hcard.le
    have hi : i ∈ validEntries t := by
      rw [heq]
      exact mem_entries.mpr ⟨w, hw⟩
    obtain ⟨w', hw', hvalid⟩ := mem_validEntries.mp hi
    obtain rfl := Option.some.inj (hw.symm.trans hw')
    exact hvalid
  · intro hvalid
    refine congrArg Finset.card (Finset.Subset.antisymm (fun i hi => ?_) (validEntries_subset t))
    obtain ⟨w, hw⟩ := mem_entries.mp hi
    exact mem_validEntries.mpr ⟨w, hw, hvalid i w hw⟩

end Size

/-! ## The descriptors -/

/-- What the descriptors are made of: the fields of `struct proc` and of its address
space. -/
structure ProcInfo where
  stime : Nat
  name : String
  pt : PageTable

structure Descriptor where
  pid : Int
  size : Nat
  stime : Nat
  command : String

def describe (info : Nat → ProcInfo) (x : Int × Nat) : Descriptor :=
  ⟨x.1, getProcSize (info x.2).pt, (info x.2).stime, (info x.2).name⟩

def procStatus (info : Nat → ProcInfo) (w : Word) : ProcM (List Descriptor) := do
  let processes ← syscallProcStatus w
  pure (processes.map (describe info))

def livePids (s : ProcSys) : Finset Int :=
  ((Finset.range maxProcesses.toNat).image Int.ofNat).filter fun pid =>
    1 ≤ pid ∧ (s.procs pid).isSome

/-- The call returns as many descriptors as there is room for, of as many processes, each
with its pid and its size. -/
def Accurate (info : Nat → ProcInfo) (s : ProcSys) (w : Word) : Prop :=
  ∃ processes, procStatus info w s = .done processes s ∧
    processes.length = min (toMax w) (livePids s).card ∧ (processes.map Descriptor.pid).Nodup ∧
    ∀ d ∈ processes, d.pid ∈ livePids s ∧ ∃ i, s.procs d.pid = some i ∧
      d.size = (validEntries (info i).pt).card

section Status

variable {info : Nat → ProcInfo} {s : ProcSys} {w : Word}

def activeList (procs : Int → Option Nat) : Nat → Int → List (Int × Nat)
  | 0, _ => []
  | n + 1, id =>
      match procs id with
      | none => activeList procs n (id + 1)
      | some i => (id, i) :: activeList procs n (id + 1)

lemma activeProcs_eq {n : Nat} {id : Int} (hid : 0 ≤ id) (hn : id + (n : Int) ≤ maxProcesses) :
    activeProcs n id s = .done (activeList s.procs n id) s := by
  induction n generalizing id with
  | zero => rfl
  | succ n ih =>
    have hget : procGet id s = .done (s.procs id) s := procGet_inside ⟨hid, by omega⟩ s
    have hrest : activeProcs n (id + 1) s = .done (activeList s.procs n (id + 1)) s :=
      ih (by omega) (by push_cast at hn; omega)
    simp only [activeProcs, activeList, Coro.bind_apply, hget, Res.bind, hrest]
    cases s.procs id with
    | none => rfl
    | some i => rfl

lemma mem_activeList {procs : Int → Option Nat} {n : Nat} {id : Int} {x : Int × Nat} :
    x ∈ activeList procs n id ↔ id ≤ x.1 ∧ x.1 < id + (n : Int) ∧ procs x.1 = some x.2 := by
  induction n generalizing id with
  | zero =>
    refine ⟨nofun, fun ⟨hlow, hhigh, _⟩ => ?_⟩
    push_cast at hhigh
    omega
  | succ n ih =>
    rw [activeList]
    cases hid : procs id with
    | none =>
      rw [ih]
      constructor
      · rintro ⟨hlow, hhigh, hx⟩
        exact ⟨by omega, by push_cast; omega, hx⟩
      · rintro ⟨hlow, hhigh, hx⟩
        have hne : x.1 ≠ id := by
          intro heq
          rw [heq, hid] at hx
          cases hx
        push_cast at hhigh
        exact ⟨by omega, by omega, hx⟩
    | some i =>
      rw [List.mem_cons, ih]
      constructor
      · rintro (rfl | ⟨hlow, hhigh, hx⟩)
        · refine ⟨le_rfl, ?_, hid⟩
          show id < id + ((n + 1 : Nat) : Int)
          push_cast
          omega
        · exact ⟨by omega, by push_cast; omega, hx⟩
      · rintro ⟨hlow, hhigh, hx⟩
        by_cases heq : x.1 = id
        · left
          rw [heq, hid] at hx
          exact Prod.ext heq (Option.some.inj hx).symm
        · right
          push_cast at hhigh
          exact ⟨by omega, by omega, hx⟩

lemma activeList_sorted (procs : Int → Option Nat) (n : Nat) (id : Int) :
    (activeList procs n id).Pairwise fun x y => x.1 < y.1 := by
  induction n generalizing id with
  | zero => exact .nil
  | succ n ih =>
    rw [activeList]
    cases procs id with
    | none => exact ih (id + 1)
    | some i =>
      refine .cons (fun y hy => ?_) (ih (id + 1))
      have hlow := (mem_activeList.mp hy).1
      show id < y.1
      omega

lemma nodup_activeList (procs : Int → Option Nat) (n : Nat) (id : Int) :
    ((activeList procs n id).map Prod.fst).Nodup :=
  List.pairwise_map.mpr ((activeList_sorted procs n id).imp fun hlt => hlt.ne)

lemma mem_livePids {pid : Int} :
    pid ∈ livePids s ↔ 1 ≤ pid ∧ pid < maxProcesses ∧ ∃ i, s.procs pid = some i := by
  rw [livePids, Finset.mem_filter, Finset.mem_image, Option.isSome_iff_exists]
  constructor
  · rintro ⟨⟨k, hk, rfl⟩, hone, hlive⟩
    exact ⟨hone, Int.ofNat_lt.mpr (Finset.mem_range.mp hk), hlive⟩
  · rintro ⟨hone, hlt, hlive⟩
    refine ⟨⟨pid.toNat, Finset.mem_range.mpr ?_, Int.toNat_of_nonneg (by omega)⟩, hone, hlive⟩
    exact (Int.toNat_lt_toNat (by decide)).mpr hlt

def described (s : ProcSys) (w : Word) : List (Int × Nat) := activeList s.procs (toMax w - 1) 1

lemma mem_described {x : Int × Nat} (hle : (toMax w : Int) ≤ maxProcesses) :
    x ∈ described s w ↔ x.1 ∈ livePids s ∧ x.1 < toMax w ∧ s.procs x.1 = some x.2 := by
  rw [described, mem_activeList, mem_livePids]
  constructor
  · rintro ⟨hlow, hhigh, hx⟩
    exact ⟨⟨hlow, by omega, x.2, hx⟩, by omega, hx⟩
  · rintro ⟨⟨hlow, -, -⟩, hhigh, hx⟩
    exact ⟨hlow, by omega, hx⟩

lemma procStatus_eq (info : Nat → ProcInfo) (hle : (toMax w : Int) ≤ maxProcesses) :
    procStatus info w s = .done ((described s w).map (describe info)) s := by
  have hlast : 1 + ((toMax w - 1 : Nat) : Int) ≤ maxProcesses := by
    simp only [maxProcesses] at hle ⊢
    omega
  have hactive : syscallProcStatus w s = .done (described s w) s :=
    activeProcs_eq (by decide) hlast
  simp only [procStatus, Coro.bind_apply, hactive, Res.bind, Coro.pure_apply]

def below (s : ProcSys) (w : Word) : Finset Int := (livePids s).filter fun pid => pid < toMax w

lemma length_described (hle : (toMax w : Int) ≤ maxProcesses) :
    (described s w).length = (below s w).card := by
  have hset : ((described s w).map Prod.fst).toFinset = below s w := by
    ext pid
    rw [List.mem_toFinset, List.mem_map, below, Finset.mem_filter]
    constructor
    · rintro ⟨x, hx, rfl⟩
      obtain ⟨hlive, hlt, -⟩ := (mem_described hle).mp hx
      exact ⟨hlive, hlt⟩
    · rintro ⟨hlive, hlt⟩
      obtain ⟨-, -, i, hi⟩ := mem_livePids.mp hlive
      exact ⟨(pid, i), (mem_described hle).mpr ⟨hlive, hlt, hi⟩, rfl⟩
  have hnodup : ((described s w).map Prod.fst).Nodup := nodup_activeList _ _ _
  rw [← hset, List.toFinset_card_of_nodup hnodup, List.length_map]

lemma card_below_le (s : ProcSys) (w : Word) : (below s w).card ≤ toMax w - 1 := by
  have hsub : below s w ⊆ Finset.Ico 1 (toMax w : Int) := by
    intro pid hpid
    obtain ⟨hlive, hlt⟩ := Finset.mem_filter.mp hpid
    exact Finset.mem_Ico.mpr ⟨(mem_livePids.mp hlive).1, hlt⟩
  have hcard := Finset.card_le_card hsub
  rw [Int.card_Ico] at hcard
  omega

lemma Accurate.max_le (h : Accurate info s w) : (toMax w : Int) ≤ maxProcesses := by
  obtain ⟨processes, hrun, -⟩ := h
  by_contra hlarge
  have hfail : syscallProcStatus w s = .fail .outOfBounds :=
    activeProcs_outside (by decide) (by decide) (by omega)
  simp only [procStatus, Coro.bind_apply, hfail, Res.bind] at hrun
  cases hrun

lemma Accurate.spec (h : Accurate info s w) : (below s w).card = min (toMax w) (livePids s).card ∧
      ∀ x ∈ described s w, ∀ i v, (info x.2).pt.word i = some v → Valid v := by
  have hle := h.max_le
  obtain ⟨processes, hrun, hlength, -, hall⟩ := h
  rw [procStatus_eq info hle] at hrun
  injection hrun with hprocesses
  subst hprocesses
  rw [List.length_map, length_described hle] at hlength
  refine ⟨hlength, fun x hx => ?_⟩
  obtain ⟨-, i, hi, hsize⟩ := hall (describe info x) (List.mem_map_of_mem hx)
  have hx' := ((mem_described hle).mp hx).2.2
  obtain rfl : x.2 = i := Option.some.inj (hx'.symm.trans hi)
  exact getProcSize_eq_iff.mp hsize

lemma Accurate.all_below (h : Accurate info s w) (hne : toMax w ≠ 0) : below s w = livePids s := by
  have hcard := h.spec.1
  have hle := card_below_le s w
  refine Finset.eq_of_subset_of_card_le (Finset.filter_subset _ _) ?_
  show (livePids s).card ≤ (below s w).card
  omega

lemma accurate_of_below (hle : (toMax w : Int) ≤ maxProcesses)
    (hcard : (below s w).card = min (toMax w) (livePids s).card)
    (hvalid : ∀ x ∈ described s w, ∀ i v, (info x.2).pt.word i = some v → Valid v) :
    Accurate info s w := by
  refine ⟨_, procStatus_eq info hle, ?_, ?_, fun d hd => ?_⟩
  · rw [List.length_map, length_described hle, hcard]
  · rw [List.map_map]
    exact nodup_activeList s.procs (toMax w - 1) 1
  · obtain ⟨x, hx, rfl⟩ := List.mem_map.mp hd
    obtain ⟨hlive, -, hi⟩ := (mem_described hle).mp hx
    exact ⟨hlive, x.2, hi, getProcSize_eq_iff.mpr (hvalid x hx)⟩

/-- The status is accurate exactly if there is room for nothing, or `max` is at most 32, every
process has a pid below `max`, and no page table of a process has an invalid entry. -/
theorem procStatus_accurate_iff (info : Nat → ProcInfo) (s : ProcSys) (w : Word) :
    Accurate info s w ↔ toMax w = 0 ∨ ((toMax w : Int) ≤ maxProcesses ∧
      ∀ pid i, pid ∈ livePids s → s.procs pid = some i →
        pid < toMax w ∧ ∀ j v, (info i).pt.word j = some v → Valid v) := by
  constructor
  · intro h
    rw [or_iff_not_imp_left]
    refine fun hne => ⟨h.max_le, fun pid i hlive hi => ?_⟩
    have hpid : pid ∈ below s w := by
      rw [h.all_below hne]
      exact hlive
    have hlt := (Finset.mem_filter.mp hpid).2
    exact ⟨hlt, h.spec.2 (pid, i) ((mem_described h.max_le).mpr ⟨hlive, hlt, hi⟩)⟩
  · rintro (hzero | ⟨hle, hall⟩)
    · have hle : (toMax w : Int) ≤ maxProcesses := by
        rw [hzero]
        decide
      have hempty := card_below_le s w
      refine accurate_of_below hle (by omega) fun x hx => ?_
      obtain ⟨hlive, hlt, -⟩ := (mem_described hle).mp hx
      have hone := (mem_livePids.mp hlive).1
      omega
    · have hbelow : below s w = livePids s := by
        refine Finset.filter_true_of_mem fun pid hpid => ?_
        obtain ⟨-, -, i, hi⟩ := mem_livePids.mp hpid
        exact (hall pid i hpid hi).1
      have hcard := card_below_le s w
      refine accurate_of_below hle ?_ fun x hx => ?_
      · rw [hbelow] at hcard ⊢
        omega
      · obtain ⟨hlive, -, hi⟩ := (mem_described hle).mp hx
        exact (hall x.1 x.2 hlive hi).2

def oneLeaf : PageTable where
  frame := 0
  pgd := ⟨0, fun a => if a = 0 then some pud else none⟩
  seL4Pages := []
where
  pt : Pt := ⟨3, fun _ => pageUpdateEntry pInvalid 0⟩
  pd : Pd := ⟨2, fun c => if c = 0 then some pt else none⟩
  pud : Pud := ⟨1, fun b => if b = 0 then some pd else none⟩

lemma not_valid_oneLeaf :
    oneLeaf.word ⟨0, 0, 0, 0⟩ = some (pageUpdateEntry pInvalid 0) ∧
      ¬ Valid (pageUpdateEntry pInvalid 0) := ⟨rfl, by decide⟩

theorem status_counts_wrong :
    (∀ info, ¬ Accurate info (booted .running) 1) ∧
      ¬ Accurate (fun _ => ⟨0, "", oneLeaf⟩) (booted .running) 32 := by
  have hlive : (1 : Int) ∈ livePids (booted .running) :=
    mem_livePids.mpr ⟨by decide, by decide, 1, rfl⟩
  refine ⟨fun info h => ?_, fun h => ?_⟩
  · have hbelow : (1 : Int) ∈ below (booted .running) 1 := by
      rw [h.all_below (by decide)]
      exact hlive
    have hlt := (Finset.mem_filter.mp hbelow).2
    exact absurd hlt (by decide)
  · have hlisted : ((1 : Int), 1) ∈ described (booted .running) 32 :=
      (mem_described (by decide)).mpr ⟨hlive, by decide, rfl⟩
    exact not_valid_oneLeaf.2 (h.spec.2 _ hlisted _ _ not_valid_oneLeaf.1)

end Status

end SpaghettiOS.Process
