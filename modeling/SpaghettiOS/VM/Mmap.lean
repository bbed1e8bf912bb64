import SpaghettiOS.VM.Footprint
import SpaghettiOS.VM.Image

/-!
# The kernel's own mmap

`sys/morecore.c`.  A large `malloc` of SOS ends in `sys_mmap`, which looks for room
in the address space of the kernel process.  When the block does not fit at the first
free address, the next address is taken from a region that was not found.  A block that
ends behind `MMAP_TOP` is refused after it has been defined.  And `as_destroy_region` takes
other blocks along when the one it looks for is not among the first two of the list.
-/

namespace SpaghettiOS.Vm

open Coro (abort ofOption Keeps)
open Coroutine (Res Exec)

abbrev mmapBot : Nat := 0xF0000000

abbrev mmapTop : Nat := 0x1000000000

/-- The address behind a region that the search goes on from. -/
def Region.behind (r : Region) : Nat := (pageAlign r.vtop + pageSize) % 2 ^ 64

/-- The loop of `sys_mmap`: the address it stops at.  The next address depends on the
region alone, so a loop that takes more turns than there are regions never ends. -/
def mmapSearch (length : Nat) : Nat → AddrSpace → Nat → Except Abort (Nat × AddrSpace)
  | fuel, as, addr =>
      if addr < mmapTop then
        match asSeekRegion as addr with
        | none =>
            let (err, regions) := asDefineRegion as.regions addr length .readWrite
            if err = 0 then .ok (addr, { as with regions := regions }) else .error .nullPointer
        | some reg =>
            match fuel with
            | 0 => .error .searchForever
            | fuel + 1 => mmapSearch length fuel as reg.behind
      else .ok (addr, as)

/-- The part of `sys_mmap` in front of the frames: the region of the block, if there
is one. -/
def mmapReserve (as : AddrSpace) (length : Nat) : Except Abort (Option Region × AddrSpace) := do
  let (addr, as) ← mmapSearch length as.regions.length as mmapBot
  if addr > mmapTop ∨ (addr + length) % 2 ^ 64 > mmapTop then .ok (none, as)
  else
    match asSeekRegion as addr with
    | none => .error .nullPointer
    | some reg => .ok (some reg, as)

def bytesTo4KPages (b : Nat) : Nat := b / pageSize + if b % pageSize > 0 then 1 else 0

/-- One turn of the loop of `sys_mmap` over the pages of the block. -/
def mmapPage (m : Machine) (vaddr : Nat) : VmM Unit := do
  let (page, _) ← frameAllocImportant m
  let s ← get
  let _ ← ofOption .nullPointer (m.getFrame s page)
  let slot ← cspaceAllocSlot m
  let _ ← ask m.capCopy
  let _ ← sosMapFrame m kernelProc kernelProc slot vaddr allRights page true
  modify fun s => s.setFrame page fun e => { e with userCap := slot }

/-- `sys_mmap`, whose first argument has to be zero. -/
def sysMmap (m : Machine) (ogaddr length : Nat) : VmM Int :=
  if ogaddr ≠ 0 then pure (-1)
  else do
    let length := (length + pageSize) % 2 ^ 64
    let s ← get
    let as ← ofOption .nullPointer (s.procs kernelProc)
    match mmapReserve as length with
    | .error e => abort e
    | .ok (reg, as) => do
        modify fun s => s.setRegions kernelProc fun _ => as.regions
        match reg with
        | none => pure (-1)
        | some reg => do
            (List.range (bytesTo4KPages length)).forM fun i =>
              mmapPage m (reg.vbase + i * pageSize)
            pure reg.vbase

/-- The loop of `sys_munmap`; `false` when a page has no frame. -/
def munmapPages (m : Machine) (vbase : Nat) : List Nat → VmM Bool
  | [] => pure true
  | i :: rest => do
      let vaddr := pageAlign (vbase + i * pageSize)
      let t ← pageTableOf kernelProc
      match pageLookup t vaddr with
      | none => pure false
      | some w =>
          if pageGetBits w = 0 then do
            frameFree m (pageEntryNumber w)
            modify fun s => s.modifyTable kernelProc fun t =>
              t.setWord (getPtIndex vaddr) (pageUpdateEntry pInvalid 0)
            munmapPages m vbase rest
          else pure false

def sysMunmap (m : Machine) (addr length : Nat) : VmM Int := do
  let s ← get
  let as ← ofOption .nullPointer (s.procs kernelProc)
  let reg ← ofOption .nullPointer (asSeekRegion as addr)
  let freed ← munmapPages m reg.vbase (List.range (bytesTo4KPages length))
  if freed then do
    modify fun s => s.setRegions kernelProc fun regions => (asDestroyRegion regions addr).2
    pure 0
  else pure (-1)

/-! ## Runs -/

/-- What happens to the kernel's address space.  A block is unmapped with the address
and the length it was asked for with; faults of processes come in between. -/
inductive MmapOp where
  | mmap (length : Nat)
  | munmap (base length : Nat)
  | fault (pid : Int) (faultaddress : Nat)

/-- The memory, and the blocks that were handed out and not unmapped. -/
structure MmapState where
  vm : VmState
  blocks : List (Nat × Nat)

def MmapStep (m : Machine) (s : MmapState) (op : MmapOp) (t : MmapState) : Prop :=
  match op with
  | .mmap length => length + pageSize < 2 ^ 64 ∧ ∃ result,
      Exec (Served kernelProc) (sysMmap m 0 length s.vm) result t.vm ∧
        t.blocks = if result = -1 then s.blocks else (result.toNat, length) :: s.blocks
  | .munmap base length => (base, length) ∈ s.blocks ∧ ∃ result,
      Exec (Served kernelProc) (sysMunmap m base length s.vm) result t.vm ∧
        t.blocks = s.blocks.erase (base, length)
  | .fault pid fa =>
      Exec (Served pid) (faultCo m pid fa s.vm) ⟨⟩ t.vm ∧ t.blocks = s.blocks

def VmState.kernelRegions (s : VmState) : Option (List Region) :=
  (s.procs kernelProc).map AddrSpace.regions

/-- The first address the search finds free, or one at which it has passed the top. -/
def mmapSpot : Nat → AddrSpace → Nat → Option Nat
  | fuel, as, addr =>
      if addr < mmapTop then
        match asSeekRegion as addr with
        | none => some addr
        | some reg =>
            match fuel with
            | 0 => none
            | fuel + 1 => mmapSpot fuel as reg.behind
      else some addr

/-- A block of `length` bytes fits where the search first finds a free address, or
there is no free address. -/
def MmapFits (as : AddrSpace) (length : Nat) : Prop :=
  ∀ a, mmapSpot as.regions.length as mmapBot = some a → (a < mmapTop → a + length ≤ mmapTop ∧
      validNewRegion as.regions (Region.make a length .readWrite) = true) ∧
    (a = mmapTop → a + length < 2 ^ 64)

instance (as : AddrSpace) (length : Nat) : Decidable (MmapFits as length) :=
  match h : mmapSpot as.regions.length as mmapBot with
  | none => isTrue fun _ ha => nomatch h.symm.trans ha
  | some a =>
      decidable_of_iff
        ((a < mmapTop → a + length ≤ mmapTop ∧
          validNewRegion as.regions (Region.make a length .readWrite) = true) ∧
          (a = mmapTop → a + length < 2 ^ 64))
        ⟨fun hfits _ hb => Option.some.inj (h.symm.trans hb) ▸ hfits, fun hfits => hfits a h⟩

/-- Blocks fit where they are put, and the block that is unmapped is one of the first
two regions of the list. -/
def MmapGuard (s : MmapState) (op : MmapOp) : Prop :=
  match op with
  | .mmap length => ∀ as, s.vm.procs kernelProc = some as → MmapFits as (length + pageSize)
  | .munmap base _ => ∀ as, s.vm.procs kernelProc = some as → ∃ r ∈ as.regions.take 2, r.Has base
  | .fault _ _ => True

/-- What a call of `sys_mmap` should do: the search ends and finds a region to look at,
a failure leaves the regions alone, and a block lies in its range, apart from the
others. -/
structure MmapMeets (m : Machine) (s : MmapState) (length : Nat) : Prop where
  ends : ∃ as x, s.vm.procs kernelProc = some as ∧ mmapReserve as (length + pageSize) = .ok x
  fails : ∀ t, Exec (Served kernelProc) (sysMmap m 0 length s.vm) (-1) t →
    t.kernelRegions = s.vm.kernelRegions
  succeeds : ∀ result t, Exec (Served kernelProc) (sysMmap m 0 length s.vm) result t →
    result ≠ -1 → ∃ base : Nat, result = base ∧ base % pageSize = 0 ∧ mmapBot ≤ base ∧
      base + length ≤ mmapTop ∧ ∀ b ∈ s.blocks, base + length ≤ b.1 ∨ b.1 + b.2 ≤ base

/-! ## The search -/

/-- The kernel's regions are page aligned blocks in their range, apart from each other. -/
structure Laid (regions : List Region) : Prop where
  aligned : ∀ r ∈ regions, r.vbase % pageSize = 0
  bot : ∀ r ∈ regions, mmapBot ≤ r.vbase
  full : ∀ r ∈ regions, r.vbase < r.vtop
  top : ∀ r ∈ regions, r.vtop ≤ mmapTop
  apart : regions.Pairwise fun r r' => ∀ v, r.Has v → ¬ r'.Has v

variable {r : Region} {a addr : Nat}

section Search

variable {as : AddrSpace} {length : Nat}

lemma lt_pageAlign_add (a : Nat) : a < pageAlign a + pageSize := by
  unfold pageAlign pageSize
  omega

lemma Region.behind_eq (h : r.vtop ≤ mmapTop) : r.behind = pageAlign r.vtop + pageSize := by
  unfold Region.behind pageAlign
  have hle : r.vtop / pageSize * pageSize ≤ r.vtop := Nat.div_mul_le_self _ _
  refine Nat.mod_eq_of_lt ?_
  unfold mmapTop at h
  unfold pageSize at hle ⊢
  omega

lemma countP_lt_of_passed {regions : List Region} {b : Nat} (hr : r ∈ regions) (ha : a ≤ r.vtop)
    (hb : r.vtop < b) :
    regions.countP (fun r => b ≤ r.vtop) < regions.countP fun r => a ≤ r.vtop := by
  induction regions with
  | nil => cases hr
  | cons x l ih =>
    have hle : l.countP (fun r => b ≤ r.vtop) ≤ l.countP fun r => a ≤ r.vtop := by
      refine List.countP_mono_left fun y _ hy => ?_
      simp only [decide_eq_true_eq] at hy ⊢
      omega
    simp only [List.countP_cons, decide_eq_true_eq]
    rcases List.mem_cons.mp hr with rfl | hmem
    · rw [if_neg (by omega), if_pos ha]
      omega
    · have hlt := ih hmem
      split_ifs <;> omega

lemma mmapSpot_of_laid (h : Laid as.regions) {fuel : Nat} (haddr : addr % pageSize = 0)
    (hbot : mmapBot ≤ addr) (hfuel : as.regions.countP (fun r => addr ≤ r.vtop) ≤ fuel) :
    ∃ a, mmapSpot fuel as addr = some a ∧ a % pageSize = 0 ∧ mmapBot ≤ a ∧
      (a < mmapTop → asSeekRegion as a = none) ∧
      (a = addr ∨ ∃ r ∈ as.regions, a = pageAlign r.vtop + pageSize) := by
  fun_induction mmapSpot fuel as addr with
  | case1 fuel as addr hlt hseek => exact ⟨addr, rfl, haddr, hbot, fun _ => hseek, .inl rfl⟩
  | case2 as addr hlt r hseek =>
    obtain ⟨hr, hhas⟩ := asSeekRegion_eq_some hseek
    have hnone := List.countP_eq_zero.mp (Nat.le_zero.mp hfuel) r hr
    exact absurd hhas.2 (by simpa using hnone)
  | case3 as addr hlt r hseek fuel ih =>
    obtain ⟨hr, hhas⟩ := asSeekRegion_eq_some hseek
    have hbehind := Region.behind_eq (h.top r hr)
    have hpast : r.vtop < r.behind := by
      rw [hbehind]
      exact lt_pageAlign_add _
    have hfewer := countP_lt_of_passed hr hhas.2 hpast
    have hal : r.behind % pageSize = 0 := by
      rw [hbehind]
      simp [pageAlign]
    obtain ⟨a, hspot, haa, hba, hfree, hlast⟩ :=
      ih h hal (hbot.trans (hhas.2.trans hpast.le)) (by omega)
    refine ⟨a, hspot, haa, hba, hfree, .inr ?_⟩
    exact hlast.elim (fun heq => ⟨r, hr, heq.trans hbehind⟩) id
  | case4 fuel as addr hge => exact ⟨addr, rfl, haddr, hbot, fun hlt => absurd hlt hge, .inl rfl⟩

lemma mmapSearch_eq {fuel : Nat} (h : mmapSpot fuel as addr = some a) :
    mmapSearch length fuel as addr = if a < mmapTop then
        if validNewRegion as.regions (Region.make a length .readWrite) = true then
          .ok (a, { as with regions := Region.make a length .readWrite :: as.regions })
        else .error .nullPointer
      else .ok (a, as) := by
  unfold mmapSearch
  fun_induction mmapSpot fuel as addr with
  | case1 fuel as addr hlt hseek =>
    cases h
    simp only [asDefineRegion, hlt, if_true, hseek]
    split <;> simp
  | case2 as addr hlt r hseek => cases h
  | case3 as addr hlt r hseek fuel ih =>
    rw [if_pos hlt, hseek, ← ih h]
    dsimp only
    rw [mmapSearch]
  | case4 fuel as addr hge =>
    cases h
    rw [if_neg hge, if_neg hge]

lemma asSeekRegion_head {regions : List Region} (h : r.Has addr) :
    asSeekRegion { as with regions := r :: regions } addr = some r := by
  unfold asSeekRegion
  rw [List.find?_cons_of_pos]
  simpa [Region.Has] using h

lemma Laid.none_at_top (h : Laid as.regions) (hr : r ∈ as.regions)
    (hbehind : mmapTop = pageAlign r.vtop + pageSize) : asSeekRegion as mmapTop = none := by
  cases hseek : asSeekRegion as mmapTop with
  | none => rfl
  | some r' =>
    obtain ⟨hr', hhas⟩ := asSeekRegion_eq_some hseek
    have hbelow : r.vtop < mmapTop := by
      rw [hbehind]
      exact lt_pageAlign_add _
    have hne : r' ≠ r := by
      rintro rfl
      exact absurd hhas.2 (not_le_of_gt hbelow)
    have hover : r'.Has r.vtop := by
      have hal := h.aligned r' hr'
      have hlt : r'.vbase < mmapTop := (h.full r' hr').trans_le (h.top r' hr')
      refine ⟨?_, hbelow.le.trans hhas.2⟩
      unfold pageAlign at hbehind
      unfold pageSize mmapTop at *
      omega
    have hsymm : Std.Symm fun r r' : Region => ∀ v, r.Has v → ¬ r'.Has v :=
      ⟨fun _ _ hrr v hv hv' => hrr v hv' hv⟩
    exact absurd ⟨(h.full r hr).le, le_rfl⟩ (h.apart.forall hr' hr hne r.vtop hover)

lemma mmapReserve_of_fits (h : Laid as.regions) (hpos : 0 < length) (hfits : MmapFits as length) :
    mmapReserve as length = .ok (none, as) ∨
      ∃ a, a % pageSize = 0 ∧ mmapBot ≤ a ∧ a + length ≤ mmapTop ∧
        (∀ r ∈ as.regions, ¬ (Region.make a length .readWrite).Clashes r) ∧
        mmapReserve as length = .ok (some (Region.make a length .readWrite),
          { as with regions := Region.make a length .readWrite :: as.regions }) := by
  obtain ⟨a, hspot, hal, hbot, -⟩ :=
    mmapSpot_of_laid h (show mmapBot % pageSize = 0 by decide) le_rfl
    List.countP_le_length
  obtain ⟨hlow, hat⟩ := hfits a hspot
  unfold mmapReserve
  rw [mmapSearch_eq hspot]
  by_cases hlt : a < mmapTop
  · obtain ⟨hroom, hvalid⟩ := hlow hlt
    have hmod : (a + length) % 2 ^ 64 = a + length :=
      Nat.mod_eq_of_lt (lt_of_le_of_lt hroom (by decide))
    have hhas : (Region.make a length .readWrite).Has a :=
      ⟨le_rfl, by simp only [Region.make, hmod]; omega⟩
    refine .inr ⟨a, hal, hbot, hroom, validNewRegion_iff.mp hvalid, ?_⟩
    rw [if_pos hlt, if_pos hvalid]
    simp only [bind, Except.bind]
    rw [if_neg (by omega), asSeekRegion_head hhas]
  · refine .inl ?_
    rw [if_neg hlt]
    simp only [bind, Except.bind]
    rw [if_pos]
    rcases Nat.lt_or_ge mmapTop a with hgt | hle
    · exact .inl hgt
    · obtain rfl : a = mmapTop := by omega
      rw [Nat.mod_eq_of_lt (hat rfl)]
      omega

lemma mmapReserve_of_not_fits (h : Laid as.regions) (hlen : length < 2 ^ 64)
    (hfits : ¬ MmapFits as length) :
    (∃ e, mmapReserve as length = .error e) ∨
      ∃ r, mmapReserve as length = .ok (none, { as with regions := r :: as.regions }) := by
  obtain ⟨a, hspot, -, -, hfree, hlast⟩ :=
    mmapSpot_of_laid h (show mmapBot % pageSize = 0 by decide) le_rfl
    List.countP_le_length
  unfold mmapReserve
  rw [mmapSearch_eq hspot]
  by_cases hlt : a < mmapTop
  · rw [if_pos hlt]
    by_cases hvalid : validNewRegion as.regions (Region.make a length .readWrite) = true
    · rw [if_pos hvalid]
      simp only [bind, Except.bind]
      have hover : mmapTop < a + length := by
        by_contra hle
        refine hfits fun b hb => ?_
        obtain rfl := Option.some.inj (hspot.symm.trans hb)
        exact ⟨fun _ => ⟨not_lt.mp hle, hvalid⟩, fun heq => absurd heq hlt.ne⟩
      by_cases hwrap : a + length < 2 ^ 64
      · rw [Nat.mod_eq_of_lt hwrap, if_pos (.inr hover)]
        exact .inr ⟨_, rfl⟩
      · -- the end of the region has wrapped around, and nothing has the address
        left
        have hsmall : (a + length) % 2 ^ 64 < a := by omega
        rw [if_neg (by omega)]
        have hnone : asSeekRegion
            { as with regions := Region.make a length .readWrite :: as.regions } a = none := by
          unfold asSeekRegion
          rw [List.find?_cons_of_neg]
          · exact hfree hlt
          · have hnot : ¬ (a ≤ a ∧ a ≤ (a + length) % 2 ^ 64) := by omega
            simpa [Region.make] using hnot
        rw [hnone]
        exact ⟨_, rfl⟩
    · rw [if_neg hvalid]
      exact .inl ⟨_, rfl⟩
  · rw [if_neg hlt]
    simp only [bind, Except.bind]
    have htop : a = mmapTop ∧ 2 ^ 64 ≤ a + length := by
      by_contra hnot
      refine hfits fun b hb => ?_
      obtain rfl := Option.some.inj (hspot.symm.trans hb)
      exact ⟨fun hl => absurd hl hlt, fun heq => by omega⟩
    obtain ⟨rfl, hwrap⟩ := htop
    rw [if_neg (by omega)]
    rcases hlast with hbot | ⟨r, hr, hbehind⟩
    · exact absurd hbot (by decide)
    · rw [h.none_at_top hr hbehind]
      exact .inl ⟨_, rfl⟩

end Search

/-! ## What the calls do to the regions -/

section Calls

variable {m : Machine} {s t : VmState} {as : AddrSpace}

lemma Touches.kernelRegions {P : Int → Nat → CapRights → Prop} (h : Touches P s t) :
    t.kernelRegions = s.kernelRegions := h.regions kernelProc

lemma kernelRegions_setRegions (has : s.procs kernelProc = some as)
    (f : List Region → List Region) :
    (s.setRegions kernelProc f).kernelRegions = some (f as.regions) := by
  simp [VmState.kernelRegions, VmState.setRegions, has]

/-- The mappings a call on the kernel's own pages may make. -/
def anywhere (_ : Int) (_ : Nat) (_ : CapRights) : Prop := True

lemma mmapPage_touches (vaddr : Nat) :
    Keeps (Served kernelProc) (Touches anywhere) (mmapPage m vaddr) := by
  refine Keeps.bind (frameAllocWith_keeps touches_moves.toAllocMoves true) fun x =>
    Keeps.bind .get fun s => ?_
  refine Keeps.bind (.ofOption _ _) fun _ => Keeps.bind cspaceAllocSlot_touches fun slot => ?_
  refine Keeps.bind (ask_keeps touches_pageout.same _) fun _ =>
    Keeps.bind (sosMapFrame_touches trivial _ _ _ _) ?_
  exact fun _ => .modify fun s => .of_same rfl rfl rfl

lemma munmapPages_touches (vbase : Nat) (l : List Nat) :
    Keeps (Served kernelProc) (Touches anywhere) (munmapPages m vbase l) := by
  induction l with
  | nil => exact .pure _
  | cons i l ih =>
    refine Keeps.bind (pageTableOf_keeps _) fun t => ?_
    split
    · exact .pure _
    · split
      · refine Keeps.bind (frameFree_keeps touches_moves.toAllocMoves _) fun _ => ?_
        exact Keeps.bind (.modify fun s => .modifyTable s _ _) fun _ => ih
      · exact .pure _

lemma sysMmap_ends {length : Nat} {reg : Option Region} {as' : AddrSpace}
    (hlen : length + pageSize < 2 ^ 64) (has : s.procs kernelProc = some as)
    (h : mmapReserve as (length + pageSize) = .ok (reg, as')) :
    (sysMmap m 0 length s).Ends (Served kernelProc) fun result t =>
      t.kernelRegions = some as'.regions ∧ result = match reg with
          | none => -1
          | some reg => (reg.vbase : Int) := by
  simp only [sysMmap, ne_eq, not_true_eq_false, if_false, Nat.mod_eq_of_lt hlen, Coro.bind_apply,
    Coro.get_apply, Res.bind, has, ofOption, Coro.pure_apply, h, Coro.modify_apply]
  have hset := kernelRegions_setRegions has fun _ => as'.regions
  cases reg with
  | none => exact ⟨hset, rfl⟩
  | some reg =>
    generalize List.range (bytesTo4KPages (length + pageSize)) = pages
    have hpages : Keeps (Served kernelProc) (Touches anywhere)
        (pages.forM fun i => mmapPage m (reg.vbase + i * pageSize)) :=
      forM_touches pages fun i => mmapPage_touches _
    refine Res.Ends.bind (hpages _) fun _ t ht => ?_
    exact ⟨ht.kernelRegions.trans hset, rfl⟩

lemma sysMmap_refused {length : Nat} {as' : AddrSpace} (hlen : length + pageSize < 2 ^ 64)
    (has : s.procs kernelProc = some as)
    (h : mmapReserve as (length + pageSize) = .ok (none, as')) :
    Exec (Served kernelProc) (sysMmap m 0 length s) (-1)
      (s.setRegions kernelProc fun _ => as'.regions) := by
  simp only [sysMmap, ne_eq, not_true_eq_false, if_false, Nat.mod_eq_of_lt hlen, Coro.bind_apply,
    Coro.get_apply, Res.bind, has, ofOption, Coro.pure_apply, h, Coro.modify_apply]
  exact .done

lemma sysMunmap_ends {base length : Nat} (has : s.procs kernelProc = some as) :
    (sysMunmap m base length s).Ends (Served kernelProc) fun _ t =>
      t.kernelRegions = some as.regions ∨
        t.kernelRegions = some (asDestroyRegion as.regions base).2 := by
  have hold : s.kernelRegions = some as.regions := by simp [VmState.kernelRegions, has]
  simp only [sysMunmap, Coro.bind_apply, Coro.get_apply, Res.bind, has]
  refine Res.Ends.ofOption_bind fun as1 has1 => ?_
  cases has1
  refine Res.Ends.ofOption_bind fun reg _ => ?_
  refine Res.Ends.bind (munmapPages_touches _ _ s) fun freed u hu => ?_
  have hregions : u.kernelRegions = some as.regions := hu.kernelRegions.trans hold
  split
  · right
    obtain ⟨as', has', heq⟩ := Option.map_eq_some_iff.mp hregions
    have hset := kernelRegions_setRegions has' fun regions => (asDestroyRegion regions base).2
    rw [heq] at hset
    exact hset
  · exact .inl hregions

end Calls

/-! ## The list of blocks -/

def blockRegion (b : Nat × Nat) : Region := Region.make b.1 (b.2 + pageSize) .readWrite

structure Blocks (s : MmapState) (regions : List Region) : Prop extends Laid regions where
  list : s.vm.kernelRegions = some regions
  block : ∀ b ∈ s.blocks, blockRegion b ∈ regions
  inside : ∀ b ∈ s.blocks, b.1 + (b.2 + pageSize) ≤ mmapTop
  nodup : (s.blocks.map blockRegion).Nodup

section Blocks

variable {m : Machine} {s t : MmapState} {regions : List Region}

lemma Laid.cons (h : Laid regions) {length : Nat} (hal : a % pageSize = 0) (hbot : mmapBot ≤ a)
    (hpos : 0 < length) (htop : a + length ≤ mmapTop)
    (hnew : ∀ r ∈ regions, ¬ (Region.make a length .readWrite).Clashes r) :
    Laid (Region.make a length .readWrite :: regions) := by
  have hmod : (a + length) % 2 ^ 64 = a + length :=
    Nat.mod_eq_of_lt (lt_of_le_of_lt htop (by decide))
  have hvtop : (Region.make a length .readWrite).vtop = a + length := hmod
  refine ⟨?_, ?_, ?_, ?_, .cons (fun r hr v hv => ?_) h.apart⟩
  · exact List.forall_mem_cons.mpr ⟨hal, h.aligned⟩
  · exact List.forall_mem_cons.mpr ⟨hbot, h.bot⟩
  · exact List.forall_mem_cons.mpr ⟨by rw [hvtop]; exact Nat.lt_add_of_pos_right hpos, h.full⟩
  · exact List.forall_mem_cons.mpr ⟨by rwa [hvtop], h.top⟩
  · exact Region.disjoint_of_not_clashes (hnew r hr) hv

lemma Laid.sublist {l : List Region} (h : Laid regions) (hl : l.Sublist regions) : Laid l where
  aligned r hr := h.aligned r (hl.subset hr)
  bot r hr := h.bot r (hl.subset hr)
  full r hr := h.full r (hl.subset hr)
  top r hr := h.top r (hl.subset hr)
  apart := h.apart.sublist hl

lemma mem_asDestroyRegion (hfirst : ∃ r ∈ regions.take 2, r.Has a) (hr : r ∈ regions)
    (hnot : ¬ r.Has a) : r ∈ (asDestroyRegion regions a).2 := by
  rw [asDestroyRegion_first hfirst]
  exact (List.mem_eraseP_of_neg (by simpa using hnot)).mpr hr

lemma Blocks.mmap {length : Nat} (h : Blocks s regions) (hlen : length + pageSize < 2 ^ 64)
    (hg : MmapGuard s (.mmap length)) {result : Int}
    (he : Exec (Served kernelProc) (sysMmap m 0 length s.vm) result t.vm)
    (ht : t.blocks = if result = -1 then s.blocks else (result.toNat, length) :: s.blocks) :
    ∃ regions', Blocks t regions' := by
  obtain ⟨as, has, rfl⟩ := Option.map_eq_some_iff.mp h.list
  have hpos : 0 < length + pageSize := Nat.add_pos_right _ (by decide)
  rcases mmapReserve_of_fits h.toLaid hpos (hg as has) with
    hres | ⟨a, hal, hbot, htop, hnew, hres⟩
  · obtain ⟨hregions, rfl⟩ := (sysMmap_ends hlen has hres).exec he
    rw [if_pos rfl] at ht
    exact ⟨_, h.toLaid, hregions, ht ▸ h.block, ht ▸ h.inside, ht ▸ h.nodup⟩
  · obtain ⟨hregions, rfl⟩ := (sysMmap_ends hlen has hres).exec he
    have hne : ((Region.make a (length + pageSize) .readWrite).vbase : Int) ≠ -1 := by omega
    rw [if_neg hne] at ht
    have hlaid := h.toLaid.cons hal hbot hpos htop hnew
    have hself : (Region.make a (length + pageSize) .readWrite).vbase ≤
        (Region.make a (length + pageSize) .readWrite).vtop :=
      (hlaid.full _ List.mem_cons_self).le
    have hfresh : ∀ b ∈ s.blocks, blockRegion b ≠ blockRegion (a, length) := by
      intro b hb heq
      refine hnew _ (h.block b hb) ?_
      rw [heq]
      exact (Region.clashes_iff hself hself).mpr ⟨a, ⟨le_rfl, hself⟩, le_rfl, hself⟩
    refine ⟨_, hlaid, hregions, ?_, ?_, ?_⟩
    · rw [ht]
      exact List.forall_mem_cons.mpr
        ⟨List.mem_cons_self, fun b hb => List.mem_cons_of_mem _ (h.block b hb)⟩
    · rw [ht]
      exact List.forall_mem_cons.mpr ⟨htop, h.inside⟩
    · rw [ht, List.map_cons]
      refine List.nodup_cons.mpr ⟨fun hmem => ?_, h.nodup⟩
      obtain ⟨b, hb, heq⟩ := List.mem_map.mp hmem
      exact hfresh b hb heq

lemma Blocks.munmap {base length : Nat} (h : Blocks s regions)
    (hb : (base, length) ∈ s.blocks) (hg : MmapGuard s (.munmap base length)) {result : Int}
    (he : Exec (Served kernelProc) (sysMunmap m base length s.vm) result t.vm)
    (ht : t.blocks = s.blocks.erase (base, length)) : ∃ regions', Blocks t regions' := by
  obtain ⟨as, has, rfl⟩ := Option.map_eq_some_iff.mp h.list
  have hsub : t.blocks.Sublist s.blocks := ht ▸ List.erase_sublist
  have hrest : ∀ b ∈ t.blocks, b ∈ s.blocks := fun b hb => hsub.subset hb
  have hnodup := h.nodup.sublist (hsub.map blockRegion)
  rcases (sysMunmap_ends has).exec he with hregions | hregions
  · exact ⟨_, h.toLaid, hregions, fun b hb => h.block b (hrest b hb),
      fun b hb => h.inside b (hrest b hb), hnodup⟩
  · refine ⟨_, h.toLaid.sublist asDestroyRegion_sublist, hregions, fun b hb' => ?_,
      fun b hb => h.inside b (hrest b hb), hnodup⟩
    have hne : blockRegion b ≠ blockRegion (base, length) := by
      intro heq
      have hinj := List.inj_on_of_nodup_map h.nodup (hrest b hb') hb heq
      rw [ht, hinj] at hb'
      exact (List.Nodup.of_map _ h.nodup).not_mem_erase hb'
    have hsymm : Std.Symm fun r r' : Region => ∀ v, r.Has v → ¬ r'.Has v :=
      ⟨fun _ _ hrr v hv hv' => hrr v hv' hv⟩
    have hapart := h.apart.forall (h.block _ hb) (h.block b (hrest b hb')) hne.symm
    exact mem_asDestroyRegion (hg as has) (h.block b (hrest b hb'))
      (hapart base ⟨le_rfl, (h.full _ (h.block _ hb)).le⟩)

lemma Blocks.step {op : MmapOp} (h : Blocks s regions) (hg : MmapGuard s op)
    (hstep : MmapStep m s op t) : ∃ regions', Blocks t regions' := by
  cases op with
  | mmap length =>
    obtain ⟨hlen, result, he, ht⟩ := hstep
    exact h.mmap hlen hg he ht
  | munmap base length =>
    obtain ⟨hb, result, he, ht⟩ := hstep
    exact h.munmap hb hg he ht
  | fault pid fa =>
    obtain ⟨he, ht⟩ := hstep
    have hkeeps : Keeps (Served pid) (Touches anywhere) (faultCo m pid fa) :=
      faultCo_touches trivial
    have hlist := (hkeeps.exec he).kernelRegions.trans h.list
    exact ⟨regions, h.toLaid, hlist, ht ▸ h.block, ht ▸ h.inside, ht ▸ h.nodup⟩

lemma Blocks.apart_of_new {as : AddrSpace} {length : Nat} (h : Blocks s as.regions)
    (htop : a + (length + pageSize) ≤ mmapTop)
    (hnew : ∀ r ∈ as.regions, ¬ (Region.make a (length + pageSize) .readWrite).Clashes r)
    {b : Nat × Nat} (hb : b ∈ s.blocks) : a + length ≤ b.1 ∨ b.1 + b.2 ≤ a := by
  have hclash := hnew _ (h.block b hb)
  have hinside := h.inside b hb
  have hmod : ∀ n, n ≤ mmapTop → n % 2 ^ 64 = n := fun n hn =>
    Nat.mod_eq_of_lt (lt_of_le_of_lt hn (by decide))
  simp only [Region.Clashes, blockRegion, Region.make, hmod _ htop, hmod _ hinside] at hclash
  omega

/-- In every state a guarded run leads to, the next call of `sys_mmap` does what it
should exactly when its block fits. -/
theorem sys_mmap_meets_iff {s₀ : MmapState} {length : Nat}
    (hregions : s₀.vm.kernelRegions = some []) (hblocks : s₀.blocks = [])
    (hrun : Lts.Run (MmapStep m) MmapGuard s₀ s) (hlen : length + pageSize < 2 ^ 64) :
    MmapMeets m s length ↔ MmapGuard s (.mmap length) := by
  obtain ⟨regions, h⟩ : ∃ regions, Blocks s regions := by
    refine hrun.invariant (I := fun s => ∃ regions, Blocks s regions) ?_ ?_
    · refine ⟨[], ⟨nofun, nofun, nofun, nofun, .nil⟩, hregions, ?_, ?_, ?_⟩
      · simp [hblocks]
      · simp [hblocks]
      · simp [hblocks]
    · rintro t u op ⟨regions, ht⟩ hg hstep
      exact ht.step hg hstep
  obtain ⟨as, has, rfl⟩ := Option.map_eq_some_iff.mp h.list
  constructor
  · intro hmeets as' has'
    obtain rfl := Option.some.inj (has.symm.trans has')
    by_contra hfits
    obtain ⟨as', x, has', hok⟩ := hmeets.ends
    obtain rfl := Option.some.inj (has.symm.trans has')
    rcases mmapReserve_of_not_fits h.toLaid hlen hfits with ⟨e, herr⟩ | ⟨r, hnone⟩
    · rw [herr] at hok
      cases hok
    · have hsame := hmeets.fails _ (sysMmap_refused hlen has hnone)
      rw [kernelRegions_setRegions has, h.list] at hsame
      exact List.cons_ne_self _ _ (Option.some.inj hsame)
  · intro hg
    have hpos : 0 < length + pageSize := Nat.add_pos_right _ (by decide)
    rcases mmapReserve_of_fits h.toLaid hpos (hg as has) with
      hres | ⟨a, hal, hbot, htop, hnew, hres⟩
    · refine ⟨⟨as, _, has, hres⟩, fun t he => ?_, fun result t he hne => ?_⟩
      · exact ((sysMmap_ends hlen has hres).exec he).1.trans h.list.symm
      · exact absurd ((sysMmap_ends hlen has hres).exec he).2 hne
    · refine ⟨⟨as, _, has, hres⟩, fun t he => ?_, fun result t he hne => ?_⟩
      · have hneg := ((sysMmap_ends hlen has hres).exec he).2
        simp only at hneg
        omega
      · refine ⟨a, ((sysMmap_ends hlen has hres).exec he).2, hal, hbot, by omega, fun b hb => ?_⟩
        exact h.apart_of_new htop hnew hb

end Blocks

/-! ## Blocks of two sizes -/

def bootedKernel : MmapState where
  vm := { newProcess with
    procs := fun p =>
      if p = 0 then some ⟨[], smallTable 0 fun _ => pageUpdateEntry pInvalid 0⟩ else none }
  blocks := []

/-- The state a call leads to when the file server transfers whole pages. -/
def MmapOp.play (m : Machine) (op : MmapOp) (s : MmapState) : Option MmapState :=
  match op with
  | .mmap length =>
      if length + pageSize < 2 ^ 64 then
        ((sysMmap m 0 length s.vm).run (wholePages kernelProc)).toOption.map fun x =>
          ⟨x.2, if x.1 = -1 then s.blocks else (x.1.toNat, length) :: s.blocks⟩
      else none
  | .munmap base length =>
      if (base, length) ∈ s.blocks then
        ((sysMunmap m base length s.vm).run (wholePages kernelProc)).toOption.map fun x =>
          ⟨x.2, s.blocks.erase (base, length)⟩
      else none
  | .fault pid fa =>
      ((faultCo m pid fa s.vm).run (wholePages pid)).toOption.map fun x => ⟨x.2, s.blocks⟩

lemma MmapOp.step_of_play {m : Machine} {op : MmapOp} {s t : MmapState}
    (h : op.play m s = some t) : MmapStep m s op t := by
  cases op with
  | mmap length =>
    simp only [MmapOp.play] at h
    split at h
    · rename_i hlen
      obtain ⟨⟨r, v⟩, hrun, rfl⟩ := Option.map_eq_some_iff.mp h
      exact ⟨hlen, r, Res.exec_of_toOption (served_wholePages _) hrun, rfl⟩
    · cases h
  | munmap base length =>
    simp only [MmapOp.play] at h
    split at h
    · rename_i hmem
      obtain ⟨⟨r, v⟩, hrun, rfl⟩ := Option.map_eq_some_iff.mp h
      exact ⟨hmem, r, Res.exec_of_toOption (served_wholePages _) hrun, rfl⟩
    · cases h
  | fault pid fa =>
    obtain ⟨⟨r, v⟩, hrun, rfl⟩ := Option.map_eq_some_iff.mp h
    exact ⟨Res.exec_of_toOption (served_wholePages _) hrun, rfl⟩

theorem sys_mmap_meets_second :
    ∃ s, Lts.Run (MmapStep (grantingMachine 64)) MmapGuard bootedKernel s ∧
      s.blocks = [(0xF0000000, 0x1000)] ∧ MmapMeets (grantingMachine 64) s 0x1000 := by
  obtain ⟨s, hs, hblocks, hfits⟩ := Lts.exists_of_any
    (o := MmapOp.play (grantingMachine 64) (.mmap 0x1000) bootedKernel)
    (P := fun s => s.blocks = [(0xF0000000, 0x1000)] ∧
      (s.vm.procs kernelProc).all (fun as => MmapFits as 0x2000) = true) (by decide +kernel)
  have hfirst : MmapGuard bootedKernel (.mmap 0x1000) := by
    intro as has
    cases has
    decide +kernel
  have hrun : Lts.Run (MmapStep (grantingMachine 64)) MmapGuard bootedKernel s :=
    .tail .refl hfirst (MmapOp.step_of_play hs)
  refine ⟨s, hrun, hblocks, (sys_mmap_meets_iff rfl rfl hrun (by decide)).mpr fun as has => ?_⟩
  rw [has, Option.all_some] at hfits
  exact of_decide_eq_true hfits

theorem small_hole_null_read :
    ∃ s, Lts.Run (MmapStep (grantingMachine 64)) Lts.anyStep bootedKernel s ∧
      s.blocks = [(0xF0003000, 0x1000)] ∧ ¬ MmapMeets (grantingMachine 64) s 0x4000 := by
  have hplay : ([.mmap 0x1000, .mmap 0x1000, .munmap 0xF0000000 0x1000].foldlM (fun s op =>
      MmapOp.play (grantingMachine 64) op s) bootedKernel).any
      (fun s => s.blocks = [(0xF0003000, 0x1000)] ∧ (s.vm.procs kernelProc).all fun as =>
        (mmapReserve as 0x5000).toOption.isNone) = true := by decide +kernel
  obtain ⟨s, hs, hblocks, hnull⟩ := Lts.exists_of_any hplay
  refine ⟨s, Lts.Run.of_play MmapOp.step_of_play _ .refl hs, hblocks, fun hmeets => ?_⟩
  obtain ⟨as, x, has, hok⟩ : ∃ as x, _ ∧ mmapReserve as 0x5000 = .ok x := hmeets.ends
  rw [has, Option.all_some, hok] at hnull
  cases hnull

end SpaghettiOS.Vm
