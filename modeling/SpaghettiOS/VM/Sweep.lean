import Mathlib.Data.Nat.Find
import SpaghettiOS.VM.Paging

/-!
# The eviction sweep

What the clock loop of `frame_alloc` does to the frame table, and which frame it
stops at.  `turn m s k` is the state after `k` rounds of the loop body, whether
or not the loop would have stopped before.

The loop body is guarded by `!important || pid <= MAX_PROCESSES`.  The frames of
the kernel have the pid `-1`, so the guard lets them through as well.
-/

namespace SpaghettiOS.Vm

variable {m : Machine} {s s' : VmState}

/-- The guard of the loop body. -/
def Clearable (s : VmState) (page : Nat) : Prop :=
  (s.frameTable page).important = false ∨ (s.frameTable page).pid ≤ maxProcesses

instance (s : VmState) (page : Nat) : Decidable (Clearable s page) :=
  inferInstanceAs (Decidable (_ ∨ _))

/-! ## One round -/

lemma sweepStep_frameTable (page : Nat) :
    (sweepStep m s).frameTable page = if page = s.clockCurr ∧ Clearable s page then
        { s.frameTable page with refBit := false }
      else s.frameTable page := by
  by_cases hc : Clearable s s.clockCurr
  · have hclear : (sweepStep m s).frameTable =
        (s.setFrame s.clockCurr fun e => { e with refBit := false }).frameTable := by
      simp only [sweepStep, show _ ∨ _ from hc, if_true]
      rfl
    rw [hclear]
    rcases eq_or_ne page s.clockCurr with rfl | hp
    · simp [VmState.setFrame, hc]
    · simp [VmState.setFrame, hp]
  · have hkeep : (sweepStep m s).frameTable = s.frameTable := by
      simp only [sweepStep, show ¬ (_ ∨ _) from hc, if_false]
    rw [hkeep, if_neg]
    rintro ⟨rfl, h⟩
    exact hc h

lemma sweepStep_vspace_of_clearable (hc : Clearable s s.clockCurr) : (sweepStep m s).vspace =
      (s.pageUnmap (s.frameTable s.clockCurr).userCap s.clockCurr).vspace := by
  simp only [sweepStep, show _ ∨ _ from hc, if_true]
  rfl

lemma sweepStep_vspace_of_not (hc : ¬ Clearable s s.clockCurr) :
    (sweepStep m s).vspace = s.vspace := by
  simp only [sweepStep, show ¬ (_ ∨ _) from hc, if_false]

lemma sweepStep_vspace (p : Int) (v : Nat) : (sweepStep m s).vspace p v = s.vspace p v ∨
      (sweepStep m s).vspace p v = none ∧ Clearable s s.clockCurr ∧
        s.vspace p v = some ((s.frameTable s.clockCurr).userCap, s.clockCurr) := by
  by_cases hc : Clearable s s.clockCurr
  · rw [sweepStep_vspace_of_clearable hc]
    simp only [VmState.pageUnmap]
    split
    · rename_i h
      exact .inr ⟨rfl, hc, h.2⟩
    · exact .inl rfl
  · left
    rw [sweepStep_vspace_of_not hc]

lemma sweepStep_rest : sweepStep m s = { s with
      frameTable := (sweepStep m s).frameTable
      vspace := (sweepStep m s).vspace
      clockCurr := (s.clockCurr + 1) % m.frameTableSize } := by
  simp only [sweepStep]
  split <;> rfl

/-! ## Many rounds -/

def turn (m : Machine) (s : VmState) : Nat → VmState
  | 0 => s
  | k + 1 => sweepStep m (turn m s k)

def ahead (m : Machine) (s : VmState) (k : Nat) : Nat := (s.clockCurr + k) % m.frameTableSize

lemma turn_sweepStep (k : Nat) : turn m (sweepStep m s) k = turn m s (k + 1) := by
  induction k with
  | zero => rfl
  | succ k ih =>
    rw [turn, ih]
    rfl

lemma ahead_lt (k : Nat) : ahead m s k < m.frameTableSize := Nat.mod_lt _ m.size_pos

lemma ahead_mod (k : Nat) : ahead m s (k % m.frameTableSize) = ahead m s k := by
  simp [ahead, Nat.add_mod]

lemma ahead_add_size (k : Nat) : ahead m s (m.frameTableSize + k) = ahead m s k := by
  rw [← ahead_mod, Nat.add_mod_left, ahead_mod]

variable {k page : Nat}

lemma ahead_injective {j : Nat} (hj : j < m.frameTableSize) (hk : k < m.frameTableSize)
    (h : ahead m s j = ahead m s k) : j = k := by
  have hmod : j % m.frameTableSize = k % m.frameTableSize := Nat.ModEq.add_left_cancel' _ h
  rwa [Nat.mod_eq_of_lt hj, Nat.mod_eq_of_lt hk] at hmod

lemma turn_clockCurr (hclock : s.clockCurr < m.frameTableSize) (k : Nat) :
    (turn m s k).clockCurr = ahead m s k := by
  induction k with
  | zero => exact (Nat.mod_eq_of_lt hclock).symm
  | succ k ih =>
    rw [turn, sweepStep_rest, ih]
    simp [ahead, Nat.add_assoc]

lemma turn_rest (k : Nat) : turn m s k = { s with
      frameTable := (turn m s k).frameTable
      vspace := (turn m s k).vspace
      clockCurr := (turn m s k).clockCurr } := by
  induction k with
  | zero => rfl
  | succ k ih =>
    rw [turn, sweepStep_rest]
    rw [ih]

lemma turn_frame (k page : Nat) :
    (turn m s k).frameTable page =
      { s.frameTable page with refBit := ((turn m s k).frameTable page).refBit } := by
  induction k with
  | zero => rfl
  | succ k ih =>
    rw [turn, sweepStep_frameTable]
    split <;> rw [ih]

lemma turn_clearable (k page : Nat) : Clearable (turn m s k) page ↔ Clearable s page := by
  rw [Clearable, Clearable, turn_frame]

/-- The clock has come past a frame the guard lets through. -/
def Passed (m : Machine) (s : VmState) (k page : Nat) : Prop :=
  Clearable s page ∧ ∃ j < k, ahead m s j = page

lemma Passed.succ (h : Passed m s k page) : Passed m s (k + 1) page := by
  obtain ⟨hc, j, hj, hpage⟩ := h
  exact ⟨hc, j, by omega, hpage⟩

lemma turn_refBit (hclock : s.clockCurr < m.frameTableSize) (k page : Nat) :
    ((turn m s k).frameTable page).refBit = true ↔
      (s.frameTable page).refBit = true ∧ ¬ Passed m s k page := by
  induction k with
  | zero => simp [turn, Passed]
  | succ k ih =>
    rw [turn, sweepStep_frameTable, turn_clockCurr hclock]
    split
    · rename_i h
      obtain ⟨rfl, hc⟩ := h
      rw [turn_clearable] at hc
      simp only [Bool.false_eq_true, false_iff, not_and, not_not]
      exact fun _ => ⟨hc, k, Nat.lt_succ_self k, rfl⟩
    · rename_i h
      rw [ih]
      refine and_congr_right fun _ => not_congr ⟨Passed.succ, ?_⟩
      rintro ⟨hc, j, hj, rfl⟩
      rcases Nat.lt_succ_iff_lt_or_eq.mp hj with hj | rfl
      · exact ⟨hc, j, hj, rfl⟩
      · exact absurd ⟨rfl, (turn_clearable _ _).mpr hc⟩ h

lemma turn_mapping (hclock : s.clockCurr < m.frameTableSize) (h : ¬ Passed m s k page) (p : Int)
    (v cap : Nat) :
    (turn m s k).vspace p v = some (cap, page) ↔ s.vspace p v = some (cap, page) := by
  induction k with
  | zero => rfl
  | succ k ih =>
    rw [← ih fun hk => h hk.succ, turn]
    rcases sweepStep_vspace (m := m) (s := turn m s k) p v with heq | ⟨hnone, hc, hsome⟩
    · rw [heq]
    · rw [turn_clearable, turn_clockCurr hclock] at hc
      rw [turn_clockCurr hclock] at hsome
      have hne : ahead m s k ≠ page := by
        rintro rfl
        exact h ⟨hc, k, Nat.lt_succ_self k, rfl⟩
      simp [hnone, hsome, hne]

/-- The loop is still going at its `k`-th test. -/
def Goes (m : Machine) (s : VmState) (k : Nat) : Prop :=
  ((turn m s k).frameTable (turn m s k).clockCurr).refBit = true

def Ends (m : Machine) (s : VmState) (k : Nat) : Prop := ¬ Goes m s k ∧ ∀ j < k, Goes m s j

lemma Ends.unique {j : Nat} (hj : Ends m s j) (hk : Ends m s k) : j = k := by
  rcases lt_trichotomy j k with h | h | h
  · exact absurd (hk.2 j h) hj.1
  · exact h
  · exact absurd (hj.2 k h) hk.1

lemma sweep_eq_some (n : Nat) : sweep m n s = some s' ↔ ∃ k ≤ n, Ends m s k ∧ s' = turn m s k := by
  induction n generalizing s with
  | zero =>
    constructor
    · intro h
      simp only [sweep] at h
      split at h
      · cases h
      · cases h
        exact ⟨0, le_rfl, ⟨by assumption, by simp⟩, rfl⟩
    · rintro ⟨k, hk, hends, rfl⟩
      obtain rfl : k = 0 := by omega
      have h0 : ¬ (s.frameTable s.clockCurr).refBit = true := hends.1
      simp [sweep, h0, turn]
  | succ n ih =>
    by_cases hbit : (s.frameTable s.clockCurr).refBit = true
    · rw [sweep, if_pos hbit, ih]
      constructor
      · rintro ⟨k, hk, ⟨hstop, hgo⟩, rfl⟩
        refine ⟨k + 1, by omega, ⟨?_, fun j hj => ?_⟩, turn_sweepStep k⟩
        · rwa [Goes, ← turn_sweepStep]
        · cases j with
          | zero => exact hbit
          | succ j =>
            rw [Goes, ← turn_sweepStep]
            exact hgo j (by omega)
      · rintro ⟨k, hk, ⟨hstop, hgo⟩, rfl⟩
        cases k with
        | zero => exact absurd hbit hstop
        | succ k =>
          refine ⟨k, by omega, ⟨?_, fun j hj => ?_⟩, (turn_sweepStep k).symm⟩
          · rwa [Goes, turn_sweepStep]
          · rw [Goes, turn_sweepStep]
            exact hgo (j + 1) (by omega)
    · rw [sweep, if_neg hbit]
      constructor
      · intro h
        cases h
        exact ⟨0, by omega, ⟨hbit, by simp⟩, rfl⟩
      · rintro ⟨k, hk, ⟨hstop, hgo⟩, rfl⟩
        cases k with
        | zero => rfl
        | succ k => exact absurd (hgo 0 (by omega)) hbit

/-! ## Where the sweep ends -/

section
variable (hclock : s.clockCurr < m.frameTableSize)
include hclock

lemma goes_iff (k : Nat) : Goes m s k ↔
      (s.frameTable (ahead m s k)).refBit = true ∧ ¬ Passed m s k (ahead m s k) := by
  rw [Goes, turn_clockCurr hclock, turn_refBit hclock]

lemma goes_first (hk : k < m.frameTableSize) :
    Goes m s k ↔ (s.frameTable (ahead m s k)).refBit = true := by
  rw [goes_iff hclock, and_iff_left]
  rintro ⟨-, j, hj, heq⟩
  exact absurd (ahead_injective (by omega) hk heq) (by omega)

lemma goes_again (hk : m.frameTableSize ≤ k) : Goes m s k ↔
      (s.frameTable (ahead m s k)).refBit = true ∧ ¬ Clearable s (ahead m s k) := by
  rw [goes_iff hclock]
  refine and_congr_right fun _ => not_congr ⟨And.left, fun hc => ⟨hc, k % m.frameTableSize, ?_⟩⟩
  exact ⟨lt_of_lt_of_le (Nat.mod_lt _ m.size_pos) hk, ahead_mod k⟩

end

/-- The frame a sweep stops at: the first one ahead whose reference bit is clear,
or, when all of them are set, the first one whose bit the turn has cleared. -/
def FirstVictim (m : Machine) (s : VmState) (page : Nat) : Prop :=
  ∃ k < m.frameTableSize, ahead m s k = page ∧ ((s.frameTable page).refBit = false ∧
        (∀ j < k, (s.frameTable (ahead m s j)).refBit = true) ∨
      (∀ j < m.frameTableSize, (s.frameTable (ahead m s j)).refBit = true) ∧
        Clearable s page ∧ ∀ j < k, ¬ Clearable s (ahead m s j))

def Passes (m : Machine) (s : VmState) (page : Nat) : Prop :=
  ∃ k < m.frameTableSize, ahead m s k = page ∧ ∀ j ≤ k, (s.frameTable (ahead m s j)).refBit = true

section
variable (hclock : s.clockCurr < m.frameTableSize)
include hclock

lemma FirstVictim.ends (h : FirstVictim m s page) :
    ∃ k ≤ 2 * m.frameTableSize, Ends m s k ∧ ahead m s k = page := by
  obtain ⟨k, hk, rfl, ⟨hbit, hset⟩ | ⟨hset, hclear, hkeep⟩⟩ := h
  · refine ⟨k, by omega, ⟨?_, fun j hj => ?_⟩, rfl⟩
    · rw [goes_first hclock hk, hbit]
      exact Bool.false_ne_true
    · exact (goes_first hclock (by omega)).mpr (hset j hj)
  · refine ⟨m.frameTableSize + k, by omega, ⟨?_, fun j hj => ?_⟩, ahead_add_size k⟩
    · rw [goes_again hclock (by omega), ahead_add_size]
      exact fun h => h.2 hclear
    · by_cases hjN : j < m.frameTableSize
      · exact (goes_first hclock hjN).mpr (hset j hjN)
      · obtain ⟨i, rfl⟩ : ∃ i, j = m.frameTableSize + i := ⟨j - m.frameTableSize, by omega⟩
        rw [goes_again hclock (by omega), ahead_add_size]
        exact ⟨hset i (by omega), hkeep i (by omega)⟩

lemma exists_firstVictim (hpage : page < m.frameTableSize)
    (hc : Clearable s page ∨ (s.frameTable page).refBit = false) : ∃ v, FirstVictim m s v := by
  classical
  by_cases hset : ∀ j < m.frameTableSize, (s.frameTable (ahead m s j)).refBit = true
  · have hex : ∃ k, k < m.frameTableSize ∧ Clearable s (ahead m s k) := by
      obtain ⟨k, hk, rfl⟩ : ∃ k < m.frameTableSize, ahead m s k = page := by
        refine ⟨(page + (m.frameTableSize - s.clockCurr)) % m.frameTableSize,
          Nat.mod_lt _ m.size_pos, ?_⟩
        rw [ahead_mod, ahead,
          show s.clockCurr + (page + (m.frameTableSize - s.clockCurr)) = page + m.frameTableSize
            by omega, Nat.add_mod_right, Nat.mod_eq_of_lt hpage]
      exact ⟨k, hk, hc.resolve_right (by simp [hset k hk])⟩
    obtain ⟨hk, hclear⟩ := Nat.find_spec hex
    refine ⟨_, _, hk, rfl, .inr ⟨hset, hclear, fun j hj hcj => ?_⟩⟩
    exact Nat.find_min hex hj ⟨by omega, hcj⟩
  · have hex : ∃ k, k < m.frameTableSize ∧ ¬ (s.frameTable (ahead m s k)).refBit = true := by
      simpa using hset
    obtain ⟨hk, hbit⟩ := Nat.find_spec hex
    refine ⟨_, _, hk, rfl, .inl ⟨by simpa using hbit, fun j hj => ?_⟩⟩
    by_contra hj'
    exact Nat.find_min hex hj ⟨by omega, hj'⟩

lemma Passes.passed (h : Passes m s page) (hc : Clearable s page) (hends : Ends m s k) :
    Passed m s k page := by
  obtain ⟨j, hj, rfl, hset⟩ := h
  refine ⟨hc, j, ?_, rfl⟩
  by_contra hle
  have hk : k < m.frameTableSize := by omega
  exact hends.1 ((goes_first hclock hk).mpr (hset k (by omega)))

lemma Passed.passes (h : Passed m s k page) (hends : Ends m s k) : Passes m s page := by
  obtain ⟨-, j, hj, rfl⟩ := h
  have hmod : j % m.frameTableSize < m.frameTableSize := Nat.mod_lt _ m.size_pos
  have hle : j % m.frameTableSize ≤ j := Nat.mod_le _ _
  refine ⟨j % m.frameTableSize, hmod, ahead_mod j, fun i hi => ?_⟩
  exact (goes_first hclock (by omega)).mp (hends.2 i (by omega))

end

/-! ## Important frames -/

/-- A frame that `pageout` takes. -/
def Evictable (m : Machine) (s : VmState) (page : Nat) : Prop :=
  page < m.frameTableSize ∧ (s.frameTable page).important = false ∧
    0 ≤ (s.frameTable page).pid ∧ (s.frameTable page).pid ≤ maxProcesses

instance (m : Machine) (s : VmState) (page : Nat) : Decidable (Evictable m s page) :=
  inferInstanceAs (Decidable (_ ∧ _))

/-- The sweep leaves the reference bit and the user mappings of every important
frame alone, and it finds a frame for `pageout` when there is one. -/
structure SparesImportant (m : Machine) (s : VmState) : Prop where
  unchanged : ∀ {n s'}, sweep m n s = some s' → ∀ page < m.frameTableSize,
    (s.frameTable page).important = true →
      (s'.frameTable page).refBit = (s.frameTable page).refBit ∧
      (s'.frameTable page).userCap = (s.frameTable page).userCap ∧
        ∀ p v cap, s'.vspace p v = some (cap, page) ↔ s.vspace p v = some (cap, page)
  victim : (∃ page, Evictable m s page) →
    ∃ n s', sweep m n s = some s' ∧ Evictable m s' s'.clockCurr

/-- No important frame the guard lets through lies on the way to the victim, and
if some frame can be paged out then the first victim can. -/
def MeetsOnlyUserFrames (m : Machine) (s : VmState) : Prop :=
  (∀ page, Passes m s page → (s.frameTable page).important = true →
      ¬ (s.frameTable page).pid ≤ maxProcesses) ∧
    ((∃ page, Evictable m s page) → ∀ page, FirstVictim m s page → Evictable m s page)

lemma evictable_turn (k page : Nat) : Evictable m (turn m s k) page ↔ Evictable m s page := by
  rw [Evictable, Evictable, turn_frame]

lemma Evictable.clearable (h : Evictable m s page) : Clearable s page :=
  .inl h.2.1

lemma MeetsOnlyUserFrames.sparesImportant (hclock : s.clockCurr < m.frameTableSize)
    (h : MeetsOnlyUserFrames m s) : SparesImportant m s := by
  obtain ⟨hpass, hvictim⟩ := h
  refine ⟨fun {n s'} hsweep page hpage himp => ?_, fun hex => ?_⟩
  · obtain ⟨k, -, hends, rfl⟩ := (sweep_eq_some n).mp hsweep
    have hnot : ¬ Passed m s k page := fun hp =>
      hpass page (hp.passes hclock hends) himp (hp.1.resolve_left (by simp [himp]))
    refine ⟨?_, by rw [turn_frame], fun p v cap => turn_mapping hclock hnot p v cap⟩
    rw [Bool.eq_iff_iff, turn_refBit hclock, and_iff_left hnot]
  · obtain ⟨page, hpage⟩ := hex
    obtain ⟨v, hv⟩ := exists_firstVictim hclock hpage.1 (.inl hpage.clearable)
    obtain ⟨k, hk, hends, hahead⟩ := hv.ends hclock
    refine ⟨_, turn m s k, (sweep_eq_some _).mpr ⟨k, hk, hends, rfl⟩, ?_⟩
    rw [evictable_turn, turn_clockCurr hclock, hahead]
    exact hvictim ⟨page, hpage⟩ v hv

lemma SparesImportant.meetsOnlyUserFrames (hclock : s.clockCurr < m.frameTableSize)
    (h : SparesImportant m s) : MeetsOnlyUserFrames m s := by
  refine ⟨fun page hpass himp hpid => ?_, fun hex v hv => ?_⟩
  · obtain ⟨v, hv⟩ : ∃ v, FirstVictim m s v := by
      obtain ⟨k, hk, rfl, -⟩ := hpass
      exact exists_firstVictim hclock (ahead_lt k) (.inl (.inr hpid))
    obtain ⟨k, hk, hends, -⟩ := hv.ends hclock
    have hpage : page < m.frameTableSize := by
      obtain ⟨j, -, rfl, -⟩ := hpass
      exact ahead_lt j
    have hbit : (s.frameTable page).refBit = true := by
      obtain ⟨j, -, rfl, hset⟩ := hpass
      exact hset j le_rfl
    have hsame := (h.unchanged ((sweep_eq_some _).mpr ⟨k, hk, hends, rfl⟩) page hpage himp).1
    rw [hbit, turn_refBit hclock] at hsame
    exact hsame.2 (hpass.passed hclock (.inr hpid) hends)
  · obtain ⟨n, s', hsweep, hev⟩ := h.victim hex
    obtain ⟨k, -, hends, rfl⟩ := (sweep_eq_some n).mp hsweep
    obtain ⟨k', -, hends', rfl⟩ := hv.ends hclock
    rw [evictable_turn, turn_clockCurr hclock, hends.unique hends'] at hev
    exact hev

/-- A sweep spares the important frames exactly when it comes past none and its
first victim can be paged out. -/
theorem sweep_spares_important_iff (m : Machine) (s : VmState)
    (hclock : s.clockCurr < m.frameTableSize) :
    SparesImportant m s ↔ MeetsOnlyUserFrames m s :=
  ⟨fun h => h.meetsOnlyUserFrames hclock, fun h => h.sparesImportant hclock⟩

/-! Two frames, both referenced: a frame of the shared buffer that is mapped into
process 1, and a page of process 1. -/

/-- A machine with `size` frames on which every request below is granted. -/
def grantingMachine (size : Nat) (h : 0 < size ∧ size < 2 ^ 52 := by decide) : Machine where
  frameTableSize := size
  baseVaddr := 0x80000001000
  sharedBufBegin := 0x80000001000
  allocOk _ := true
  openOk _ := true
  pageMap _ := .noError
  capCopy _ := .noError
  retypeMap _ := .noError
  size_pos := h.1
  size_lt := h.2
  base_pos := by decide

def fullTable (size : Nat) (frames : Nat → FrameTableEntry) : VmState where
  frameTable := frames
  nextFreePage := 0
  frameTableCurrSize := size
  clockCurr := 0
  pfList := ⟨0, []⟩
  pfVnode := true
  procs _ := none
  mem _ := 0
  pagefile _ := 0
  vspace _ _ := none
  rights _ _ := allRights
  nextSlot := 100
  running := 0
  time := 0
  log := []

def bufferAndUserPage : Nat → FrameTableEntry
  | 0 => ⟨1, 11, 0, -1, 0, true, true⟩
  | _ => ⟨2, 12, 0, 1, 0x1000, true, false⟩

theorem sweep_clears_important :
    ¬ SparesImportant (grantingMachine 2) (fullTable 2 bufferAndUserPage) := by
  intro h
  have hpid := (h.meetsOnlyUserFrames (by decide)).1 0
    ⟨0, by decide, rfl, fun j hj => by obtain rfl := Nat.le_zero.mp hj; rfl⟩ rfl
  exact hpid (by decide)

theorem sweep_spares_important_at_clear :
    SparesImportant (grantingMachine 2)
      { (fullTable 2 bufferAndUserPage).setFrame 1 (fun e => { e with refBit := false }) with
        clockCurr := 1 } := by
  refine (sweep_spares_important_iff _ _ (by decide)).mpr ⟨?_, ?_⟩
  · rintro page ⟨k, -, -, hset⟩
    exact absurd (hset 0 (by omega)) (by decide)
  · rintro - page ⟨k, -, rfl, ⟨-, hset⟩ | ⟨hset, -⟩⟩
    · cases k with
      | zero => decide
      | succ k => exact absurd (hset 0 (by omega)) (by decide)
    · exact absurd (hset 0 (by decide)) (by decide)

end SpaghettiOS.Vm
