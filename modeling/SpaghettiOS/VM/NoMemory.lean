import SpaghettiOS.VM.Stock

/-!
# Faults without memory

`frame_alloc` returns zero when there is no memory, and zero is also the number of the
first frame.  `vm_fault` goes on with frame 0: the frame is mapped at the page that
faulted, and the record of who has it is overwritten.  When the page was to be read
back, `pagein` copies it to the null address, and that is the end of SOS.
-/

namespace SpaghettiOS.Vm

open Coroutine (Res Exec)

/-! ## What follows `frame_alloc` -/

/-- The slot of the pagefile an entry names. -/
def pagefileSlot : Option Word → Option Nat
  | none => none
  | some w => if pageGetBits w &&& pPagefile ≠ 0 then some (pageEntryNumber w) else none

/-- What the allocating branches of `vm_fault` do with the page and the address that
`frame_alloc` returned. -/
def useFrame (m : Machine) (pid : Int) (vaddr : Nat) (entry : Option Word)
    (page kernelVaddr : Nat) : VmM Unit := do
  let slot ← cspaceAllocSlot m
  let _ ← sosMapFrame m pid pid slot vaddr allRights page true
  match pagefileSlot entry with
  | some i => do
      let _ ← pagein m i kernelVaddr
      let _ ← sosCopyin m pid m.sharedBufBegin pageSize
      settle pid vaddr slot page
  | none => settle pid vaddr slot page

/-- The fault is in a region that can be read or written, and its page is in no frame. -/
def NeedsFrame (s : VmState) (pid : Int) (faultaddress : Nat) (as : AddrSpace) : Prop :=
  s.procs pid = some as ∧
    (∃ reg, asSeekRegion as faultaddress = some reg ∧ (reg.read ∨ reg.write)) ∧
    ∀ w, pageLookup as.pt (pageAlign faultaddress) = some w → pageGetBits w ≠ 0

section NoMemory

variable {m : Machine} {pid : Int} {fa : Nat} {s t : VmState} {as : AddrSpace}

/-- `vm_fault` for a page that needs a frame is `frame_alloc` and what follows it. -/
lemma vmFault_eq (h : NeedsFrame s pid fa as) :
    vmFault m pid fa s = (frameAlloc m >>= fun r =>
      useFrame m pid (pageAlign fa) (pageLookup as.pt (pageAlign fa)) r.1 r.2) s := by
  obtain ⟨hprocs, ⟨reg, hreg, haccess⟩, hentry⟩ := h
  have hfault : vmFault m pid fa s =
      handleFault m pid (pageAlign fa) (pageLookup as.pt (pageAlign fa)) s := by
    simp only [vmFault, Coro.bind_apply, Coro.get_apply, Res.bind, hprocs, Coro.ofOption, hreg,
      Coro.check, if_pos haccess, Coro.pure_apply]
  have hnew : ∀ {entry}, pagefileSlot entry = none → newPage m pid (pageAlign fa) =
      frameAlloc m >>= fun r => useFrame m pid (pageAlign fa) entry r.1 r.2 := fun h => by
    simp only [newPage, allocPage, useFrame, h, bind_assoc, pure_bind]
  have hread : ∀ {entry i}, pagefileSlot entry = some i → readPage m pid (pageAlign fa) i =
      frameAlloc m >>= fun r => useFrame m pid (pageAlign fa) entry r.1 r.2 := fun h => by
    simp only [readPage, allocPage, useFrame, h, bind_assoc, pure_bind]
  rw [hfault]
  generalize pageLookup as.pt (pageAlign fa) = entry at hentry
  cases entry with
  | none => exact congrFun (hnew rfl) s
  | some w =>
    simp only [handleFault, if_neg (hentry w rfl)]
    split
    case isTrue hpf =>
      have hslot : pagefileSlot (some w) = some (pageEntryNumber w) := if_pos hpf
      exact congrFun (hread hslot) s
    case isFalse hpf =>
      have hslot : pagefileSlot (some w) = none := if_neg hpf
      exact congrFun (hnew hslot) s

/-! ## Faults that fail -/

/-- Nothing more is mapped in the process, and the owners of frames, the entries of page
tables and the free slots of the pagefile are the same. -/
structure Unmoved (pid : Int) (s t : VmState) : Prop where
  mapped : ∀ v x, t.vspace pid v = some x → s.vspace pid v = some x
  owners : ∀ f, (t.frameTable f).pid = (s.frameTable f).pid ∧
    (t.frameTable f).userVaddr = (s.frameTable f).userVaddr ∧
    (t.frameTable f).userCap = (s.frameTable f).userCap
  entries : ∀ p v, t.pte p v = s.pte p v
  freeSlots : t.pfList.free = s.pfList.free

/-- When `frame_alloc` has no memory for a fault, `vm_fault` comes to its end from there,
and leaves things as they were. -/
def FailsCleanly (m : Machine) (pid : Int) (faultaddress : Nat) (s : VmState) : Prop :=
  ∀ as page s₁, NeedsFrame s pid faultaddress as → Exec (Served pid) (frameAlloc m s) (page, 0) s₁ →
    let rest := useFrame m pid (pageAlign faultaddress)
      (pageLookup as.pt (pageAlign faultaddress)) page 0 s₁
    (∃ t, Exec (Served pid) rest ⟨⟩ t) ∧ ∀ t, Exec (Served pid) rest ⟨⟩ t → Unmoved pid s₁ t

/-- A frame keeps its owner and page, or has no owner any more. -/
def Disowns (s t : VmState) : Prop :=
  ∀ f, (t.frameTable f).pid = -1 ∨ (t.frameTable f).pid = (s.frameTable f).pid ∧
    (t.frameTable f).userVaddr = (s.frameTable f).userVaddr

instance : Std.Refl Disowns where
  refl _ _ := .inr ⟨rfl, rfl⟩

instance : IsTrans VmState Disowns where
  trans s t u hst htu f := by
    rcases htu f with hnone | ⟨hpid, hvaddr⟩
    · exact .inl hnone
    · rw [hpid, hvaddr]
      exact hst f

lemma Disowns.update {page : Nat} {e : FrameTableEntry} (he : e.pid = -1)
    (htable : t.frameTable = Function.update s.frameTable page e) : Disowns s t := by
  intro f
  rw [htable]
  rcases eq_or_ne f page with rfl | hne
  · rw [Function.update_self]
    exact .inl he
  · rw [Function.update_of_ne hne]
    exact .inr ⟨rfl, rfl⟩

lemma disowns_moves : AllocMoves m Disowns where
  same := by
    intro s t h _
    rw [h]
    exact fun _ => .inr ⟨rfl, rfl⟩
  swapOut _ _ _ _ := .inr ⟨rfl, rfl⟩
  turn s := by
    intro f
    rw [sweepStep_frameTable]
    split
    · exact .inr ⟨rfl, rfl⟩
    · exact .inr ⟨rfl, rfl⟩
  release _ _ := .update rfl rfl
  take _ _ _ := .update rfl rfl

lemma useFrame_records (vaddr : Nat) (entry : Option Word) (page kernelVaddr : Nat) :
    (useFrame m pid vaddr entry page kernelVaddr s).Ends (Served pid) fun _ t =>
      (t.frameTable page).pid = pid ∧ (t.frameTable page).userVaddr = vaddr := by
  have hsettle : ∀ slot t, (settle pid vaddr slot page t).Ends (Served pid) fun _ t =>
      (t.frameTable page).pid = pid ∧ (t.frameTable page).userVaddr = vaddr := fun slot t => by
    simp [settle, Res.Ends, VmState.setFrame]
  refine Res.Ends.after fun slot s1 => Res.Ends.after fun _ s2 => ?_
  cases pagefileSlot entry with
  | some i => exact Res.Ends.after fun _ s3 => Res.Ends.after fun _ s4 => hsettle slot s4
  | none => exact hsettle slot s2

lemma frameAlloc_answer : (frameAlloc m s).Ends (Served pid) fun r _ =>
    (r.2 ≠ 0 ↔ (s.stock m).grants m = true) ∧ (r.2 = 0 → r.1 = 0) := by
  refine (frameAllocWith_stock false).mono fun r t h => ?_
  split at h
  case isTrue hok => exact ⟨iff_of_true h.1 hok, fun h0 => absurd h0 h.1⟩
  case isFalse hok =>
    subst h
    exact ⟨iff_of_false (fun h => h rfl) hok, fun _ => rfl⟩

lemma FailsCleanly.frameAlloc_ne_null (h : FailsCleanly m pid fa s) (hpid : 0 ≤ pid)
    (hzero : (s.frameTable 0).pid = pid → (s.frameTable 0).userVaddr ≠ pageAlign fa)
    (hneeds : NeedsFrame s pid fa as) (page : Nat) :
    ¬ Exec (Served pid) (frameAlloc m s) (page, 0) t := by
  intro halloc
  obtain ⟨⟨u, hu⟩, hclean⟩ := h as page t hneeds halloc
  obtain rfl : page = 0 := (frameAlloc_answer.exec halloc).2 rfl
  obtain ⟨hp, hv⟩ := (useFrame_records _ _ _ _).exec hu
  obtain ⟨hp', hv', -⟩ := (hclean u hu).owners 0
  rcases (frameAllocWith_keeps disowns_moves false).exec halloc 0 with hnone | ⟨hp1, hv1⟩
  · omega
  · exact hzero (hp1.symm.trans (hp'.symm.trans hp)) (hv1.symm.trans (hv'.symm.trans hv))

/-- A fault that needs a frame is `frame_alloc` and what follows it, and where frame 0 is not
recorded for its page it fails cleanly only when the allocators grant the question that
`frame_alloc` asks. -/
theorem failsCleanly_iff (hpid : 0 ≤ pid)
    (hzero : (s.frameTable 0).pid = pid → (s.frameTable 0).userVaddr ≠ pageAlign fa)
    (hneeds : NeedsFrame s pid fa as)
    (hreturns : ∃ r s₁, Exec (Served pid) (frameAlloc m s) r s₁) :
    (∀ t, Exec (Served pid) (vmFault m pid fa s) ⟨⟩ t ↔ ∃ page kernelVaddr s₁,
        Exec (Served pid) (frameAlloc m s) (page, kernelVaddr) s₁ ∧
        Exec (Served pid) (useFrame m pid (pageAlign fa)
          (pageLookup as.pt (pageAlign fa)) page kernelVaddr s₁) ⟨⟩ t) ∧
      (FailsCleanly m pid fa s ↔ m.allocOk ((s.stock m).ready m).time = true) := by
  refine ⟨fun t => ?_, ?_, ?_⟩
  · rw [vmFault_eq hneeds]
    constructor
    · intro h
      obtain ⟨⟨page, kernelVaddr⟩, s₁, halloc, huse⟩ := Exec.of_bind h
      exact ⟨page, kernelVaddr, s₁, halloc, huse⟩
    · rintro ⟨page, kernelVaddr, s₁, halloc, huse⟩
      exact halloc.bind huse
  · intro h
    obtain ⟨⟨page, kernelVaddr⟩, s₁, halloc⟩ := hreturns
    refine (frameAlloc_answer.exec halloc).1.mp ?_
    rintro rfl
    exact h.frameAlloc_ne_null hpid hzero hneeds page halloc
  · intro hok as page s₁ _ halloc
    exact absurd rfl ((frameAlloc_answer.exec halloc).1.mpr hok)

end NoMemory

/-- Process 1 of the small system has no frame for its page at 0x2000. -/
lemma needsFrame_smallSystem : NeedsFrame (smallSystem 0 true) 1 0x2000
    ⟨[⟨0, 0xffff, true, true, false⟩], smallTable 0 (fewPages 10 true)⟩ := by
  refine ⟨rfl, ⟨_, rfl, .inl rfl⟩, fun w hw => ?_⟩
  obtain rfl := Option.some.inj hw
  decide +kernel

theorem failsCleanly_granting :
    FailsCleanly (grantingMachine 12) 1 0x2000 (smallSystem 0 true) := by
  refine (failsCleanly_iff (by decide) (by decide) needsFrame_smallSystem ?_).2.mpr rfl
  obtain ⟨r, t, hexec, -⟩ := Res.exists_exec (P := fun _ _ => True)
    (m := frameAlloc (grantingMachine 12) (smallSystem 0 true)) (served_wholePages 1)
    (by decide +kernel)
  exact ⟨r, t, hexec⟩

/-- A kernel that has no memory when it is asked for the first time. -/
def emptyMachine (size : Nat) (h : 0 < size ∧ size < 2 ^ 52 := by decide) : Machine :=
  { grantingMachine size h with allocOk := fun t => t ≠ 0 }

theorem frame_zero_mapped :
    Consistent (emptyMachine 12) (smallSystem 0 true) ∧
      ¬ FailsCleanly (emptyMachine 12) 1 0x2000 (smallSystem 0 true) ∧
      (smallSystem 0 true).tableFrame 1 .table = some 0 ∧
      ∃ t, Exec (Served 1) (vmFault (emptyMachine 12) 1 0x2000 (smallSystem 0 true))
          ⟨⟩ t ∧ (t.vspace 1 0x2000).map Prod.snd = some 0 ∧ t.pte 1 0x2000 = .frame 0 ∧
        (t.frameTable 0).pid = 1 := by
  refine ⟨consistent_smallSystem true rfl, fun h => ?_, rfl, ?_⟩
  · obtain ⟨_, t, hexec, rfl⟩ := Res.exists_exec (P := fun r _ => r = (0, 0))
      (m := frameAlloc (emptyMachine 12) (smallSystem 0 true)) (served_wholePages 1)
      (by decide +kernel)
    exact h.frameAlloc_ne_null (by decide) (by decide) needsFrame_smallSystem 0 hexec
  · obtain ⟨⟨⟩, t, hexec, htest⟩ := Res.exists_exec
      (m := vmFault (emptyMachine 12) 1 0x2000 (smallSystem 0 true))
      (P := fun _ t => (t.vspace 1 0x2000).map Prod.snd = some 0 ∧ t.pte 1 0x2000 = .frame 0 ∧
        (t.frameTable 0).pid = 1) (served_wholePages 1) (by decide +kernel)
    exact ⟨t, hexec, htest⟩

end SpaghettiOS.Vm
