import SpaghettiOS.VM.NoMemory

/-!
# Victims that are not written out

When the pagefile cannot be opened `pageout` gives up, and `frame_alloc` frees the victim and
uses its frame all the same.  The entry of the victim's page goes on naming the frame.

A fault that finds as many free frames as it may need has no victim, and whether the pagefile
could be opened makes no difference to it; in a full table it is the first victim that counts.
-/

namespace SpaghettiOS.Vm

open Coro (Keeps bind_apply get_apply pure_apply set_apply)
open Coroutine (Res Exec)

/-! ## Faults without a victim -/

/-- The pagefile is open, or so many frames are free. -/
def Spare (m : Machine) (n : Nat) (s : VmState) : Prop := s.pfVnode = true ∨ n ≤ (s.stock m).room

/-- With `k` frames to spare beyond those that are left over, a run of `x` is a run of `y`. -/
def Follows {α : Type} (m : Machine) (p : Int) (k : Nat) (x y : VmM α) : Prop :=
  ∀ n s a t, Spare m (n + k) s → Exec (Served p) (x s) a t → Exec (Served p) (y s) a t ∧ Spare m n t

def KeepsRoom (m : Machine) (s t : VmState) : Prop :=
  (s.pfVnode = true → t.pfVnode = true) ∧ (s.stock m).room ≤ (t.stock m).room

section Follows

variable {α β : Type} {m : Machine} {p pid : Int} {j k : Nat} {s t : VmState}

instance : Std.Refl (KeepsRoom m) where
  refl _ := ⟨id, le_rfl⟩

instance : IsTrans VmState (KeepsRoom m) where
  trans _ _ _ h h' := ⟨h'.1 ∘ h.1, h.2.trans h'.2⟩

lemma keepsRoom_same (h : SameTables s t) (hopen : s.pfVnode = true → t.pfVnode = true) :
    KeepsRoom m s t := by
  refine ⟨hopen, ?_⟩
  rw [h]
  exact le_rfl

lemma Follows.bind {x y : VmM α} {f g : α → VmM β} (hx : Follows m p k x y)
    (hf : ∀ a, Follows m p j (f a) (g a)) : Follows m p (j + k) (x >>= f) (y >>= g) := by
  intro n s b t hs h
  obtain ⟨a, u, hxu, hfu⟩ := Exec.of_bind h
  obtain ⟨hyu, hu⟩ := hx (n + j) s a u (by rwa [Nat.add_assoc]) hxu
  obtain ⟨hgu, ht⟩ := hf a n u b t hu hfu
  exact ⟨hyu.bind hgu, ht⟩

lemma Follows.of_keeps {x : VmM α} (h : Keeps (Served p) (KeepsRoom m) x) : Follows m p k x x := by
  intro n s a t hs hx
  obtain ⟨hopen, hroom⟩ := h.exec hx
  exact ⟨hx, hs.imp hopen fun hn => by omega⟩

lemma Follows.pure (a : α) : Follows m p k (Pure.pure a) (Pure.pure a) := .of_keeps (.pure a)

lemma sweep_opening (n : Nat) (s : VmState) : sweep m.opening n s = sweep m n s := by
  induction n generalizing s with
  | zero => rfl
  | succ n ih =>
    simp only [sweep, ih]
    rfl

lemma frameAllocWith_opening (important : Bool) (h : s.pfVnode = true ∨
    s.frameTableCurrSize ≠ m.frameTableSize ∨ m.openOk s.time = true) :
    frameAllocWith m important s = frameAllocWith m.opening important s := by
  have hchoose : choosePage m s = choosePage m.opening s := by
    simp only [choosePage, bind_apply, get_apply, Res.bind]
    by_cases hfull : s.frameTableCurrSize = m.frameTableSize
    · rw [if_pos hfull, if_pos (show _ = m.opening.frameTableSize from hfull)]
      simp only [evict, bind_apply, get_apply, Res.bind]
      rw [sweep_opening, show m.opening.frameTableSize = m.frameTableSize from rfl]
      cases hswept : sweep m (2 * m.frameTableSize) s with
      | none => rfl
      | some swept =>
        have hopen : swept.pfVnode = true ∨ m.openOk swept.time = true := by
          obtain ⟨i, -, -, rfl⟩ := (sweep_eq_some _).mp hswept
          rw [turn_rest]
          exact h.imp_right fun h => h.resolve_left fun hne => hne hfull
        have hensure : ensureOpen m swept = ensureOpen m.opening swept := by
          simp only [ensureOpen, bind_apply, get_apply, Res.bind]
          cases hv : swept.pfVnode with
          | true => rfl
          | false =>
            simp only [Bool.false_eq_true, if_false, pagefileOpen, ask, bind_apply, get_apply,
              set_apply, pure_apply, Res.bind, hopen.resolve_left (by simp [hv])]
            rfl
        simp only [Coro.ofOption, pure_apply, set_apply, bind_apply, Res.bind, pageout, hensure]
        rfl
    · rw [if_neg hfull, if_neg (show ¬ _ = m.opening.frameTableSize from hfull)]
  simp only [frameAllocWith, bind_apply, get_apply, Res.bind, Coro.check]
  by_cases hle : s.frameTableCurrSize ≤ m.frameTableSize
  · rw [if_pos hle, if_pos (show _ ≤ m.opening.frameTableSize from hle)]
    simp only [pure_apply, bind_apply, Res.bind, hchoose]
    rfl
  · rw [if_neg hle, if_neg (show ¬ _ ≤ m.opening.frameTableSize from hle)]
    rfl

section Grants

variable (halloc : ∀ i, m.allocOk i = true)

include halloc

/-- A frame that is had without a victim, or with a victim that is written out, is had by a
machine that can open the pagefile at any time as well. -/
lemma frameAllocWith_opens (important : Bool) {n : Nat} {a : Nat × Nat} (hs : Spare m (n + 1) s ∨
      s.frameTableCurrSize = m.frameTableSize ∧ m.openOk s.time = true)
    (h : Exec (Served p) (frameAllocWith m important s) a t) :
    Exec (Served p) (frameAllocWith m.opening important s) a t ∧ Spare m n t := by
  have hstock := (frameAllocWith_stock important).exec h
  rw [if_pos (show (s.stock m).grants m = true from halloc _)] at hstock
  have hopened : t.pfVnode = ((s.stock m).ready m).opened := congrArg Stock.opened hstock.2
  have hrest : (t.stock m).room = (s.stock m).room - 1 := congrArg Stock.room hstock.2
  rcases hs with (hopen | hroom) | ⟨hfull, hok⟩
  · refine ⟨frameAllocWith_opening important (.inl hopen) ▸ h, .inl ?_⟩
    rw [hopened]
    simp [Stock.ready, VmState.stock, hopen]
  · have hne : s.frameTableCurrSize ≠ m.frameTableSize := by
      simp only [VmState.stock] at hroom
      omega
    exact ⟨frameAllocWith_opening important (.inr (.inl hne)) ▸ h, .inr (by omega)⟩
  · refine ⟨frameAllocWith_opening important (.inr (.inr hok)) ▸ h, .inl ?_⟩
    rw [hopened]
    cases hopen : s.pfVnode with
    | true => simp [Stock.ready, VmState.stock, hopen]
    | false => simp [Stock.ready, VmState.stock, hopen, hfull, hok]

lemma frameAllocWith_follows (important : Bool) :
    Follows m p 1 (frameAllocWith m important) (frameAllocWith m.opening important) :=
  fun _ _ _ _ hs h => frameAllocWith_opens halloc important (.inl hs) h

lemma ensureNode_follows (present : PageTable → Bool) (add : PageTable → Nat → PageTable) :
    Follows m p 1 (ensureNode m pid present add) (ensureNode m.opening pid present add) := by
  refine Follows.bind (k := 0) (.of_keeps (pageTableOf_keeps pid)) fun t => ?_
  split
  · exact .pure true
  · refine Follows.bind (j := 0) (frameAllocWith_follows halloc true) fun r => ?_
    split
    split
    · exact .pure false
    · exact Follows.bind (k := 0) (.of_keeps (.modify fun _ => ⟨id, le_rfl⟩)) fun _ => .pure true

lemma pageTableInsert_follows (v page : Nat) :
    Follows m p 3 (pageTableInsert m pid v page) (pageTableInsert m.opening pid v page) := by
  refine Follows.bind (j := 2) (ensureNode_follows halloc _ _) fun hasPud => ?_
  split
  · refine Follows.bind (j := 1) (ensureNode_follows halloc _ _) fun hasPd => ?_
    split
    · refine Follows.bind (j := 0) (ensureNode_follows halloc _ _) fun hasPt => ?_
      split
      · exact Follows.bind (k := 0) (.of_keeps (.modify fun _ => ⟨id, le_rfl⟩)) fun _ => .pure _
      · exact .pure _
    · exact .pure _
  · exact .pure _

lemma saveSeL4Info_follows :
    Follows m p 1 (saveSeL4Info m pid) (saveSeL4Info m.opening pid) := by
  unfold saveSeL4Info ensureChunk
  refine Follows.bind (j := 0) (k := 1) ?_ fun _ => ?_
  · refine Follows.bind (k := 0) (.of_keeps (pageTableOf_keeps pid)) fun t => ?_
    split
    · refine Follows.bind (j := 0) (frameAllocWith_follows halloc true) fun r => ?_
      exact .of_keeps (Keeps.bind (.check _ _) fun _ => .modify fun _ => ⟨id, le_rfl⟩)
    · exact .pure _
  · exact .of_keeps (.modify fun _ => ⟨id, le_rfl⟩)

omit halloc in
lemma seL4PageMap_keepsRoom (v cap : Nat) (r : CapRights) (page : Nat) :
    Keeps (Served p) (KeepsRoom m) (seL4PageMap m pid v cap r page) :=
  seL4PageMap_keeps keepsRoom_same fun _ => ⟨id, le_rfl⟩

lemma mapLevels_follows (v cap : Nat) (r : CapRights) (page n : Nat) (err : SeL4Error) :
    Follows m p n (mapLevels m pid pid v cap r page n err)
      (mapLevels m.opening pid pid v cap r page n err) := by
  induction n generalizing err with
  | zero => exact .pure _
  | succ n ih =>
    cases err with
    | noError | deleteFirst | other => exact .pure _
    | failedLookup =>
      refine Follows.bind (k := 0) (.of_keeps (ask_keeps keepsRoom_same _)) fun ut => ?_
      split
      · refine Follows.bind (k := 0) (.of_keeps (ask_keeps keepsRoom_same _)) fun slot => ?_
        split
        · refine Follows.bind (k := 0) (.of_keeps (ask_keeps keepsRoom_same _)) fun err => ?_
          refine Follows.bind (saveSeL4Info_follows halloc) fun _ => ?_
          refine Follows.bind (k := 0) ?_ fun err => ih err
          unfold retryMap
          split
          · exact .of_keeps (seL4PageMap_keepsRoom _ _ _ _)
          · exact .pure _
        · exact .pure _
      · exact .pure _

lemma useFrame_follows (v : Nat) (entry : Option Word) (page kernelVaddr : Nat) :
    Follows m p 6 (useFrame m pid v entry page kernelVaddr)
      (useFrame m.opening pid v entry page kernelVaddr) := by
  have hsettle : ∀ slot, Keeps (Served p) (KeepsRoom m) (settle pid v slot page) := fun _ =>
    .modify fun _ => ⟨id, le_rfl⟩
  refine Follows.bind (k := 0)
    (.of_keeps (cspaceAllocSlot_keeps keepsRoom_same fun _ => ⟨id, le_rfl⟩)) fun slot => ?_
  refine Follows.bind (j := 0) (k := 6) ?_ fun _ => ?_
  · refine Follows.bind (k := 0) (.of_keeps (seL4PageMap_keepsRoom _ _ _ _)) fun err => ?_
    refine Follows.bind (j := 3) (mapLevels_follows halloc _ _ _ _ mappingSlots err) fun err => ?_
    cases err with
    | none => exact .pure _
    | some err => exact pageTableInsert_follows halloc v page
  · cases pagefileSlot entry with
    | none => exact .of_keeps (hsettle slot)
    | some i =>
      exact .of_keeps (Keeps.bind (pagein_keeps keepsRoom_same i kernelVaddr) fun _ =>
        Keeps.bind (sosCopyin_keeps keepsRoom_same pid _ _) fun _ => hsettle slot)

end Grants

end Follows

/-! ## Runs of faults -/

/-- As `Saves`, for the victims the fault really has: in a full table the pagefile need only be
opened for the first of them, and where seven frames are free there is none. -/
def SavesVictims (m : Machine) (s : VmState) : PagingOp → Prop
  | .fault pid faultaddress => Saves m s (.fault pid faultaddress) ∨
      if s.frameTableCurrSize = m.frameTableSize then m.openOk s.time = true
      else s.frameTableCurrSize + 7 ≤ m.frameTableSize
  | .destroy _ => True

section Run

variable {m : Machine} {pid : Int} {fa f : Nat} {s t : VmState} {as : AddrSpace}

lemma vmFault_cases (h : Exec (Served pid) (vmFault m pid fa s) ⟨⟩ t) :
    (∃ f, s.pte pid (pageAlign fa) = .frame f) ∨ ∃ as, NeedsFrame s pid fa as := by
  simp only [vmFault, bind_apply, get_apply, Res.bind] at h
  cases has : s.procs pid with
  | none =>
    rw [has] at h
    cases h
  | some as =>
    simp only [has, Coro.ofOption, pure_apply, Res.bind] at h
    cases hreg : asSeekRegion as fa with
    | none =>
      rw [hreg] at h
      cases h
    | some reg =>
      simp only [hreg, bind_apply, pure_apply, Res.bind, Coro.check] at h
      split at h
      case isFalse => cases h
      case isTrue haccess =>
        by_cases hbits : ∀ w, pageLookup as.pt (pageAlign fa) = some w → pageGetBits w ≠ 0
        · exact .inr ⟨as, has, ⟨reg, hreg, haccess⟩, hbits⟩
        · obtain ⟨w, hw⟩ := not_forall.mp hbits
          obtain ⟨hw, hzero⟩ := Classical.not_imp.mp hw
          refine .inl ⟨pageEntryNumber w, ?_⟩
          rw [pte_of_procs has, PageTable.pte, show as.pt.word _ = some w from hw]
          exact if_pos (not_not.mp hzero)

lemma faultCo_exec_iff : Exec (Served pid) (faultCo m pid fa s) ⟨⟩ t ↔
    ∃ u, Exec (Served pid) (vmFault m pid fa { s with running := pid }) ⟨⟩ u ∧
      t = { u with log := .finished pid :: u.log } := by
  have hfault : faultCo m pid fa s = (vmFault m pid fa { s with running := pid }).bind
      fun _ u => .done ⟨⟩ { u with log := .finished pid :: u.log } := rfl
  rw [hfault]
  constructor
  · intro h
    obtain ⟨⟨⟩, u, hu, hdone⟩ := Exec.of_bind h
    cases hdone
    exact ⟨u, hu, rfl⟩
  · rintro ⟨u, hu, rfl⟩
    exact hu.bind .done

lemma PagingStep.saved (halloc : ∀ i, m.allocOk i = true) (hc : Consistent m s)
    (hw : WellFormed m s) {op : PagingOp} (hop : SavesVictims m s op) (h : PagingStep m s op t) :
    Consistent m t ∧ WellFormed m t := by
  cases op with
  | destroy pid =>
    have hsaves : Saves m s (.destroy pid) := trivial
    exact PagingStep.consistent halloc hc hw hsaves h
  | fault pid fa =>
    rcases hop with hsaves | hsave
    · exact PagingStep.consistent halloc hc hw hsaves h
    obtain ⟨u, hfault, ht⟩ := faultCo_exec_iff.mp h
    rcases vmFault_cases hfault with hframe | ⟨as, hneeds⟩
    · have hsaves : Saves m s (.fault pid fa) := .inr (.inr hframe)
      exact PagingStep.consistent halloc hc hw hsaves h
    rw [vmFault_eq hneeds] at hfault
    obtain ⟨r, s₁, hframe, huse⟩ := Exec.of_bind hfault
    have hspare : Spare m (6 + 1) { s with running := pid } ∨
        s.frameTableCurrSize = m.frameTableSize ∧ m.openOk s.time = true := by
      split at hsave
      case isTrue hfull => exact .inr ⟨hfull, hsave⟩
      case isFalse => exact .inl (.inr (Nat.le_sub_of_add_le' hsave))
    obtain ⟨hframe, hspare⟩ := frameAllocWith_opens halloc false hspare hframe
    obtain ⟨huse, -⟩ := useFrame_follows halloc _ _ _ _ 0 s₁ _ u hspare huse
    have hopened : Exec (Served pid) (faultCo m.opening pid fa s) ⟨⟩ t := by
      refine faultCo_exec_iff.mpr ⟨u, ?_, ht⟩
      rw [vmFault_eq hneeds]
      exact hframe.bind huse
    obtain ⟨hct, hwt⟩ := faultCo_consistent (m := m.opening) halloc (hc.ofSize rfl)
      (hw.ofSize rfl) (.inr fun _ => rfl) fa.2 hopened
    exact ⟨hct.ofSize rfl, hwt.ofSize rfl⟩

end Run

end SpaghettiOS.Vm
