import SpaghettiOS.VM.FreeFrames
import SpaghettiOS.VM.SharedBuffer

/-!
# The windows of the shared buffer

`frame_table_init` links the frames in their order, and `shared_buf_init`, which comes next,
takes the first 8192 of them one by one.  It never asks for frames in a row; that they are
is `Booting.alloc`, once for each allocation.
-/

namespace SpaghettiOS.Vm

open Coro (check ofOption bind_apply get_apply set_apply pure_apply modify_apply)
open Coroutine (Res)

abbrev shareBufSize : Nat := 256

/-- `SHARE_BUF_SIZE * MAX_PROCESSES`. -/
abbrev bufferFrames : Nat := shareBufSize * 32

/-! ## Booting -/

/-- `frame_alloc_important` before `vfs_bootstrap`.  A full table is the end: `pageout` opens the
pagefile, and `vfs_lookup` asks a root that is null still. -/
def bootFrameAlloc (m : Machine) : VmM (Nat × Nat) := do
  let s ← get
  check (s.frameTableCurrSize ≠ m.frameTableSize) .nullPointer
  frameAllocImportant m

/-- The loop of `shared_buf_init`, with the address of the last frame. -/
def allocBufFrames (m : Machine) : Nat → Nat → VmM Nat
  | 0, vaddr => pure vaddr
  | n + 1, _ => do
      let (_, vaddr) ← bootFrameAlloc m
      allocBufFrames m n vaddr

/-- `shared_buf_init`, with the address that becomes `shared_buf_begin`. -/
def sharedBufInit (m : Machine) : VmM Nat := do
  let (_, firstFrame) ← bootFrameAlloc m
  let vaddr ← allocBufFrames m (bufferFrames - 1) 0
  check (firstFrame ≠ 0) .nullPointer
  check (vaddr ≠ 0) .nullPointer
  pure firstFrame

/-! ## Mapping a window -/

/-- One turn of `sos_map_buf`, which does not test how it went. -/
def mapBufFrame (m : Machine) (pid : Int) (vaddr page : Nat) : VmM Unit := do
  let s ← get
  let _ ← ofOption .nullPointer (m.getFrame s page)
  let slot ← cspaceAllocSlot m
  let _ ← ask m.capCopy
  let _ ← sosMapFrame m pid pid slot vaddr allRights page false
  modify fun s => s.setFrame page fun e => { e with userCap := slot }

def sosMapBuf (m : Machine) (pid : Int) : VmM Unit := do
  let s ← get
  let as ← ofOption .nullPointer (s.procs pid)
  let reg ← ofOption .nullPointer (asSeekRegion as processSharedBufTop)
  (List.range shareBufSize).forM fun i => mapBufFrame m pid (reg.vbase + i * pageSize)
    (m.vaddrToPageNum (m.getBufFromPid pid + i * pageSize))

/-! ## Frames in a row -/

section Booting

variable {m : Machine} {k : Nat} {s : VmState}

/-- The first `k` frames have been taken, and the others are linked in their order. -/
structure Booting (m : Machine) (k : Nat) (s : VmState) : Prop where
  count : s.frameTableCurrSize = k
  next : k < m.frameTableSize → s.nextFreePage = k
  taken : ∀ f < k, s.allocated f ∧ (s.frameTable f).important = true
  rest : ∀ f, k ≤ f → f + 1 < m.frameTableSize → (s.frameTable f).nextFreePage = f + 1

lemma frameTableInit_booting (m : Machine) (s : VmState) : Booting m 0 (frameTableInit m s) := by
  refine ⟨rfl, fun _ => rfl, fun f hf => absurd hf (Nat.not_lt_zero f), fun f _ hf => ?_⟩
  simp [frameTableInit, show f < m.frameTableSize by omega, Nat.ne_of_lt hf]

lemma Booting.alloc (h : Booting m k s) (hk : k < m.frameTableSize)
    (hok : m.allocOk s.time = true) :
    ∃ t, bootFrameAlloc m s = .done (k, m.pageNumToVaddr k) t ∧ Booting m (k + 1) t ∧
      t.time = s.time + 1 := by
  refine ⟨{ s with time := s.time + 1 }.take m true k, ?_, ?_, rfl⟩
  · unfold bootFrameAlloc frameAllocImportant frameAllocWith choosePage
    simp only [bind_apply, get_apply, set_apply, pure_apply, modify_apply, check, Res.bind, ask,
      h.count, h.next hk, ne_eq, Nat.ne_of_lt hk, not_false_eq_true, if_true, if_false, hok,
      Nat.le_of_lt hk]
  · refine ⟨congrArg (· + 1) h.count, fun hlt => h.rest k le_rfl hlt, fun f hf => ?_,
      fun f hf hlt => ?_⟩
    · rcases eq_or_ne f k with rfl | hne
      · simp [VmState.allocated, VmState.take, VmState.setFrame]
      · have htaken := h.taken f (by omega)
        simpa [VmState.allocated, VmState.take, VmState.setFrame, VmState.clearPage, hne]
          using htaken
    · have hne : f ≠ k := by omega
      have hrest := h.rest f (by omega) hlt
      simpa [VmState.take, VmState.setFrame, VmState.clearPage, hne] using hrest

lemma Booting.full (h : Booting m m.frameTableSize s) :
    bootFrameAlloc m s = .fail .nullPointer := by
  unfold bootFrameAlloc
  simp only [bind_apply, get_apply, check, h.count, ne_eq, not_true_eq_false, if_false, Res.bind]
  rfl

lemma Booting.loop (h : Booting m k s) (n vaddr : Nat)
    (hok : ∀ i < n, m.allocOk (s.time + i) = true) :
    (k + n ≤ m.frameTableSize → ∃ t, allocBufFrames m n vaddr s =
        .done (if n = 0 then vaddr else m.pageNumToVaddr (k + n - 1)) t ∧ Booting m (k + n) t) ∧
      (k ≤ m.frameTableSize → m.frameTableSize < k + n →
        allocBufFrames m n vaddr s = .fail .nullPointer) := by
  induction n generalizing k s vaddr with
  | zero => exact ⟨fun _ => ⟨s, rfl, h⟩, fun h1 h2 => absurd h1 (by omega)⟩
  | succ n ih =>
    by_cases hk : k < m.frameTableSize
    · obtain ⟨t, hrun, ht, htime⟩ := h.alloc hk (hok 0 (Nat.succ_pos n))
      have hok' : ∀ i < n, m.allocOk (t.time + i) = true := fun i hi => by
        rw [htime, Nat.add_assoc, Nat.add_comm 1]
        exact hok (i + 1) (by omega)
      have hstep : allocBufFrames m (n + 1) vaddr s =
          allocBufFrames m n (m.pageNumToVaddr k) t := by
        simp only [allocBufFrames, bind_apply, hrun, Res.bind]
      obtain ⟨hdone, hfail⟩ := ih ht (m.pageNumToVaddr k) hok'
      rw [hstep, show k + (n + 1) = k + 1 + n by omega]
      refine ⟨fun hroom => ?_, fun _ hfull => hfail (by omega) hfull⟩
      obtain ⟨u, hu, hbooting⟩ := hdone hroom
      refine ⟨u, ?_, hbooting⟩
      rw [hu]
      cases n with
      | zero => rfl
      | succ n => rfl
    · refine ⟨fun hroom => absurd hroom (by omega), fun hle _ => ?_⟩
      obtain rfl : k = m.frameTableSize := by omega
      simp only [allocBufFrames, bind_apply, h.full, Res.bind]

lemma Booting.sharedBufInit (h : Booting m 0 s)
    (hok : ∀ i < bufferFrames, m.allocOk (s.time + i) = true) :
    (bufferFrames ≤ m.frameTableSize → ∃ t, sharedBufInit m s = .done (m.pageNumToVaddr 0) t ∧
        Booting m bufferFrames t) ∧
      (m.frameTableSize < bufferFrames → sharedBufInit m s = .fail .nullPointer) := by
  obtain ⟨t, hrun, ht, htime⟩ := h.alloc m.size_pos (hok 0 (by decide))
  obtain ⟨hdone, hfail⟩ := ht.loop (bufferFrames - 1) 0 fun i hi => by
    rw [htime, Nat.add_assoc, Nat.add_comm 1]
    exact hok (i + 1) (by omega)
  unfold Vm.sharedBufInit
  simp only [bind_apply, hrun, Res.bind]
  constructor
  · intro hroom
    obtain ⟨u, hu, hbooting⟩ := hdone (by omega)
    refine ⟨u, ?_, hbooting⟩
    simp only [hu, check, pageNumToVaddr_ne_zero, ne_eq, not_false_eq_true, if_true, pure_apply,
      show bufferFrames - 1 ≠ 0 by decide, if_false, Res.bind, bind_apply]
  · intro hfull
    rw [hfail m.size_pos (by omega)]
    rfl

end Booting

/-! ## The windows -/

abbrev WindowPid (pid : Int) : Prop := 0 ≤ pid ∧ pid < maxProcesses

/-- What is copied into the window of a process and out of it again arrives, and the other windows
hold what they held, unless it is copied there. -/
def CopiesThrough (m : Machine) (pid : Int) : Prop :=
  ∀ (src dst len : Nat) (s : VmState), ∃ s',
    (do let _ ← sosCopyin m pid src len; sosCopyout m pid dst len : VmM Nat) s =
        .done (min len shareBufBytes) s' ∧
      (∀ i < min len shareBufBytes, s'.mem (dst + i) = s.mem (src + i)) ∧
      ∀ q, WindowPid q → q ≠ pid → ∀ j < shareBufBytes,
        ¬ (dst ≤ m.getBufFromPid q + j ∧ m.getBufFromPid q + j < dst + min len shareBufBytes) →
          s'.mem (m.getBufFromPid q + j) = s.mem (m.getBufFromPid q + j)

/-- Where a process has a region for its window and nothing is mapped there, `sos_map_buf` maps the
frames of the window, and them only, as long as slots and mappings are granted. -/
def MapsWindow (m : Machine) (pid : Int) : Prop :=
  ∀ (s : VmState) (as : AddrSpace) (reg : Region), s.procs pid = some as →
    asSeekRegion as processSharedBufTop = some reg →
    (∀ i < shareBufSize, s.vspace pid (reg.vbase + i * pageSize) = none) →
    (∀ k, m.allocOk k = true ∧ m.pageMap k = .noError) → ∃ t, sosMapBuf m pid s = .done ⟨⟩ t ∧
      (∀ i < shareBufSize, t.vspace pid (reg.vbase + i * pageSize) =
        some (s.nextSlot + i + 1, pid.toNat * shareBufSize + i)) ∧
      ∀ q v, (q = pid → ∀ i < shareBufSize, v ≠ reg.vbase + i * pageSize) →
        t.vspace q v = s.vspace q v

/-- The windows are frames in a row that belong to the kernel, those that `sos_map_buf` maps, and
have nothing in common. -/
structure PrivateWindows (m : Machine) (t : VmState) : Prop where
  frames : ∀ pid, WindowPid pid → ∀ j < shareBufBytes, m.getBufFromPid pid + j =
    m.pageNumToVaddr (pid.toNat * shareBufSize + j / pageSize) + j % pageSize
  important : ∀ pid, WindowPid pid → ∀ i < shareBufSize,
    pid.toNat * shareBufSize + i < m.frameTableSize ∧ t.allocated (pid.toNat * shareBufSize + i) ∧
      (t.frameTable (pid.toNat * shareBufSize + i)).important = true
  maps : ∀ pid, WindowPid pid → MapsWindow m pid
  apart : ∀ p q, WindowPid p → WindowPid q → p ≠ q → ∀ i < shareBufBytes, ∀ j < shareBufBytes,
    m.getBufFromPid p + i ≠ m.getBufFromPid q + j
  copies : ∀ pid, WindowPid pid → CopiesThrough m pid

section Windows

variable {m : Machine} {t : VmState}

lemma windowPage_lt {pid : Int} (hpid : WindowPid pid) {i : Nat} (hi : i < shareBufSize) :
    pid.toNat * shareBufSize + i < bufferFrames := by
  obtain ⟨h0, h32⟩ := hpid
  unfold maxProcesses at h32
  unfold bufferFrames shareBufSize at *
  omega

lemma windows_apart {p q : Int} (hp : WindowPid p) (hq : WindowPid q) (hne : p ≠ q) {i j : Nat}
    (hi : i < shareBufBytes) (hj : j < shareBufBytes) :
    m.getBufFromPid p + i ≠ m.getBufFromPid q + j := by
  obtain ⟨hp0, -⟩ := hp
  obtain ⟨hq0, -⟩ := hq
  unfold shareBufBytes pageSize at hi hj
  unfold Machine.getBufFromPid shareBufBytes pageSize
  omega

lemma shareBufCheckLen_eq (len : Nat) : shareBufCheckLen len = min len shareBufBytes := by
  unfold shareBufCheckLen
  split <;> omega

lemma copies_through (pid : Int) (hpid : WindowPid pid) : CopiesThrough m pid := by
  intro src dst len s
  generalize hn : min len shareBufBytes = n
  have hle : n ≤ shareBufBytes := hn ▸ min_le_right _ _
  refine ⟨(s.copyTo (m.getBufFromPid pid) n fun i => s.mem (src + i)).copyTo dst n fun i =>
    (s.copyTo (m.getBufFromPid pid) n fun i => s.mem (src + i)).mem (m.getBufFromPid pid + i),
    ?_, fun i hi => ?_, fun q hq hne j hj hout => ?_⟩
  · simp only [sosCopyin, sosCopyout, bind_apply, modify_apply, pure_apply, Res.bind,
      shareBufCheckLen_eq, hn]
  · rw [VmState.mem_copyTo, if_pos (by omega), Nat.add_sub_cancel_left, VmState.mem_copyTo,
      if_pos (by omega), Nat.add_sub_cancel_left]
  · rw [VmState.mem_copyTo, if_neg hout, VmState.mem_copyTo, if_neg]
    rintro ⟨h1, h2⟩
    have hi : m.getBufFromPid q + j - m.getBufFromPid pid < shareBufBytes := by omega
    exact windows_apart (m := m) hq hpid hne hj hi (by omega)

section Map

variable (pid : Int) {s : VmState} (hgrants : ∀ k, m.allocOk k = true ∧ m.pageMap k = .noError)

include hgrants

lemma mapBufFrame_granted {v page : Nat} (hpage : page < m.frameTableSize)
    (hfree : s.vspace pid v = none) :
    ∃ t, mapBufFrame m pid v page s = .done ⟨⟩ t ∧ t.nextSlot = s.nextSlot + 1 ∧
      t.vspace = (s.pageMap pid v (s.nextSlot + 1) allRights page).vspace := by
  have hframe : m.getFrame s page = some (s.frameTable page) := if_neg (by omega)
  simp only [mapBufFrame, cspaceAllocSlot, ask, sosMapFrame, seL4PageMap, bind_apply, get_apply,
    set_apply, pure_apply, modify_apply, Res.bind, hframe, ofOption, (hgrants _).1,
    (hgrants _).2, if_true, hfree, Option.any_none, Bool.false_eq_true, if_false, mapLevels]
  exact ⟨_, rfl, rfl, rfl⟩

/-- The turns `j` to `j + n - 1` of the loop. -/
lemma mapBufFrames_granted (base : Nat) (page : Nat → Nat) (n j : Nat)
    (hpage : ∀ i < j + n, page i < m.frameTableSize)
    (hfree : ∀ i, j ≤ i → i < j + n → s.vspace pid (base + i * pageSize) = none) :
    ∃ t, ((List.range' j n).forM fun i => mapBufFrame m pid (base + i * pageSize) (page i)) s =
        .done ⟨⟩ t ∧ (∀ i, j ≤ i → i < j + n → t.vspace pid (base + i * pageSize) =
        some (s.nextSlot + (i - j) + 1, page i)) ∧
      ∀ q v, (q = pid → ∀ i, j ≤ i → i < j + n → v ≠ base + i * pageSize) →
        t.vspace q v = s.vspace q v := by
  induction n generalizing j s with
  | zero => exact ⟨s, rfl, fun i h1 h2 => by omega, fun _ _ _ => rfl⟩
  | succ n ih =>
    obtain ⟨s1, hone, hslot, hspace⟩ := mapBufFrame_granted pid hgrants
      (hpage j (by omega)) (hfree j le_rfl (by omega))
    have hother : ∀ q v, (q = pid → v ≠ base + j * pageSize) → s1.vspace q v = s.vspace q v := by
      intro q v hne
      rw [hspace]
      simp only [VmState.pageMap]
      rcases eq_or_ne q pid with rfl | hq
      · rw [Function.update_self, Function.update_of_ne (hne rfl)]
      · rw [Function.update_of_ne hq]
    obtain ⟨t, hrest, hmapped, hsame⟩ := ih (s := s1) (j + 1) (fun i hi => hpage i (by omega))
      fun i h1 h2 => by
        rw [hother _ _ fun _ => by unfold pageSize; omega]
        exact hfree i (by omega) (by omega)
    refine ⟨t, ?_, fun i h1 h2 => ?_, fun q v hne => ?_⟩
    · rw [List.range'_succ]
      simp only [List.forM, bind_apply, hone]
      exact hrest
    · rcases Nat.eq_or_lt_of_le h1 with rfl | hlt
      · rw [hsame _ _ fun _ i h1 _ => by unfold pageSize; omega, hspace]
        simp [VmState.pageMap]
      · rw [hmapped i hlt (by omega), hslot, show s.nextSlot + 1 + (i - (j + 1)) =
          s.nextSlot + (i - j) by omega]
    · rw [hsame q v fun hq i h1 h2 => hne hq i (by omega) (by omega),
        hother q v fun hq => hne hq j le_rfl (by omega)]

end Map

lemma Booting.privateWindows (h : Booting m bufferFrames t)
    (hroom : bufferFrames ≤ m.frameTableSize) (hbegin : m.sharedBufBegin = m.pageNumToVaddr 0) :
    PrivateWindows m t where
  frames pid hpid j hj := by
    unfold Machine.getBufFromPid
    rw [hbegin]
    unfold Machine.pageNumToVaddr shareBufBytes shareBufSize pageSize
    omega
  important pid hpid i hi := by
    have hlt := windowPage_lt hpid hi
    exact ⟨by omega, h.taken _ hlt⟩
  maps pid hpid := by
    intro s as reg has hreg hfree hgrants
    have hpage : ∀ i, m.vaddrToPageNum (m.getBufFromPid pid + i * pageSize) =
        pid.toNat * shareBufSize + i := by
      intro i
      unfold Machine.vaddrToPageNum Machine.getBufFromPid
      rw [hbegin]
      unfold Machine.pageNumToVaddr shareBufBytes shareBufSize pageSize
      omega
    obtain ⟨t, hrun, hmapped, hsame⟩ := mapBufFrames_granted pid hgrants reg.vbase
      (fun i => pid.toNat * shareBufSize + i) shareBufSize 0
      (fun i hi => (windowPage_lt hpid (by omega)).trans_le hroom) fun i _ hi => hfree i (by omega)
    refine ⟨t, ?_, fun i hi => hmapped i (Nat.zero_le i) (by omega), fun q v hne =>
      hsame q v fun hq i _ hi => hne hq i (by omega)⟩
    simp only [sosMapBuf, bind_apply, get_apply, Res.bind, has, ofOption, pure_apply, hreg, hpage,
      List.range_eq_range']
    exact hrun
  apart _ _ hp hq hne _ hi _ hj := windows_apart hp hq hne hi hj
  copies := copies_through

/-- After `frame_table_init` and a `shared_buf_init` whose allocations succeed the windows are in
place.  It comes to its end exactly if there are enough frames. -/
theorem shared_buffer_windows {m : Machine} {s : VmState}
    (hok : ∀ i < bufferFrames, m.allocOk (s.time + i) = true) :
    ((∃ begins t, sharedBufInit m (frameTableInit m s) = .done begins t) ↔
        bufferFrames ≤ m.frameTableSize) ∧
      ∀ begins t, sharedBufInit m (frameTableInit m s) = .done begins t →
        PrivateWindows { m with sharedBufBegin := begins } t := by
  obtain ⟨hdone, hfail⟩ := (frameTableInit_booting m s).sharedBufInit hok
  have hroom : ∀ {begins t}, sharedBufInit m (frameTableInit m s) = .done begins t →
      bufferFrames ≤ m.frameTableSize := by
    intro begins t hrun
    by_contra hlt
    rw [hfail (by omega)] at hrun
    cases hrun
  refine ⟨⟨fun ⟨_, _, hrun⟩ => hroom hrun, fun hroom => ?_⟩, fun begins t hrun => ?_⟩
  · obtain ⟨t, hrun, -⟩ := hdone hroom
    exact ⟨_, t, hrun⟩
  · obtain ⟨u, hu, hbooting⟩ := hdone (hroom hrun)
    rw [hu] at hrun
    cases hrun
    exact Booting.privateWindows { hbooting with } (hroom hu) rfl

theorem shared_buffer_windows_granted :
    ∃ begins t, sharedBufInit (grantingMachine 8192) (frameTableInit
        (grantingMachine 8192)
        (fullTable 0 fun _ => ⟨0, 0, 0, 0, 0, false, false⟩)) = .done begins t ∧
      PrivateWindows { grantingMachine 8192 with sharedBufBegin := begins } t := by
  obtain ⟨hruns, hwindows⟩ := shared_buffer_windows
    (m := grantingMachine 8192)
    (s := fullTable 0 fun _ => ⟨0, 0, 0, 0, 0, false, false⟩) fun _ _ => rfl
  obtain ⟨begins, t, hrun⟩ := hruns.mpr le_rfl
  exact ⟨begins, t, hrun, hwindows begins t hrun⟩

end Windows

end SpaghettiOS.Vm
