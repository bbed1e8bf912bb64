import SpaghettiOS.VM.Moves

/-!
# The sweep as a second-chance scan

When no frame is important the clock stops at the first frame ahead whose reference bit is
clear, or comes round to where it began.  The frames it has come past lose their bit and
their user mappings, and nothing else is touched.
-/

namespace SpaghettiOS.Vm

open Coro (Keeps bind_apply get_apply set_apply)
open Coroutine (Res Exec)

/-- The clock has come past a frame in `k` rounds. -/
def CameBy (m : Machine) (s : VmState) (k page : Nat) : Prop := ∃ j < k, ahead m s j = page

/-- `s'` is the state after a scan from `s` that has given `k` frames a second chance. -/
structure SecondChance (m : Machine) (s : VmState) (k : Nat) (s' : VmState) : Prop where
  victim : s'.clockCurr = ahead m s k
  before : ∀ j < k, (s.frameTable (ahead m s j)).refBit = true
  first : k < m.frameTableSize ∧ (s.frameTable (ahead m s k)).refBit = false ∨
    k = m.frameTableSize ∧ s'.clockCurr = s.clockCurr
  cleared : ∀ page, CameBy m s k page →
    s'.frameTable page = { s.frameTable page with refBit := false }
  others : ∀ page, ¬ CameBy m s k page → s'.frameTable page = s.frameTable page
  unmapped : ∀ page, CameBy m s k page → (s.frameTable page).userCap ≠ 0 → ∀ p v,
    s.vspace p v = some ((s.frameTable page).userCap, page) → s'.vspace p v = none
  mapped : ∀ p v, (∀ page, CameBy m s k page → (s.frameTable page).userCap ≠ 0 →
    s.vspace p v ≠ some ((s.frameTable page).userCap, page)) → s'.vspace p v = s.vspace p v
  rest : s' = { s with
    frameTable := s'.frameTable
    vspace := s'.vspace
    clockCurr := s'.clockCurr }

variable {p : Int} {v k : Nat}

section Scan

variable {m : Machine} {s : VmState}

lemma sweepStep_unmapped (hc : Clearable s s.clockCurr)
    (hcap : (s.frameTable s.clockCurr).userCap ≠ 0)
    (h : s.vspace p v = some ((s.frameTable s.clockCurr).userCap, s.clockCurr)) :
    (sweepStep m s).vspace p v = none := by
  rw [sweepStep_vspace_of_clearable hc]
  simp [VmState.pageUnmap, hcap, h]

lemma sweepStep_none (h : s.vspace p v = none) : (sweepStep m s).vspace p v = none := by
  rcases sweepStep_vspace (m := m) (s := s) p v with hsame | ⟨hnone, -⟩
  · rw [hsame, h]
  · exact hnone

lemma sweepStep_mapped (h : (s.frameTable s.clockCurr).userCap ≠ 0 →
      s.vspace p v ≠ some ((s.frameTable s.clockCurr).userCap, s.clockCurr)) :
    (sweepStep m s).vspace p v = s.vspace p v := by
  by_cases hc : Clearable s s.clockCurr
  · rw [sweepStep_vspace_of_clearable hc, VmState.pageUnmap]
    exact if_neg fun hboth => h hboth.1 hboth.2
  · rw [sweepStep_vspace_of_not hc]

variable (hclock : s.clockCurr < m.frameTableSize)

include hclock

lemma turn_unmapped {page : Nat} (h : Passed m s k page) (hcap : (s.frameTable page).userCap ≠ 0)
    (hv : s.vspace p v = some ((s.frameTable page).userCap, page)) :
    (turn m s k).vspace p v = none := by
  induction k with
  | zero =>
    obtain ⟨-, j, hj, -⟩ := h
    exact absurd hj (Nat.not_lt_zero j)
  | succ k ih =>
    by_cases hbefore : Passed m s k page
    · exact sweepStep_none (ih hbefore)
    · -- this round is the one that comes past the frame
      obtain ⟨hc, j, hj, rfl⟩ := h
      have hjk : j = k := by
        by_contra hne
        exact hbefore ⟨hc, j, by omega, rfl⟩
      subst hjk
      have hframe : ((turn m s j).frameTable (ahead m s j)).userCap
          = (s.frameTable (ahead m s j)).userCap := by rw [turn_frame]
      refine sweepStep_unmapped ?_ ?_ ?_
      · rw [turn_clockCurr hclock, turn_clearable]
        exact hc
      · rw [turn_clockCurr hclock, hframe]
        exact hcap
      · rw [turn_clockCurr hclock, hframe]
        exact (turn_mapping hclock hbefore p v _).mpr hv

lemma turn_mapped (h : ∀ page, CameBy m s k page → (s.frameTable page).userCap ≠ 0 →
      s.vspace p v ≠ some ((s.frameTable page).userCap, page)) :
    (turn m s k).vspace p v = s.vspace p v := by
  induction k with
  | zero => rfl
  | succ k ih =>
    have hbefore := ih fun page hpage => h page (by
      obtain ⟨j, hj, hahead⟩ := hpage
      exact ⟨j, by omega, hahead⟩)
    have hframe : ((turn m s k).frameTable (ahead m s k)).userCap
        = (s.frameTable (ahead m s k)).userCap := by rw [turn_frame]
    rw [turn, sweepStep_mapped, hbefore]
    rw [turn_clockCurr hclock, hframe, hbefore]
    exact h _ ⟨k, Nat.lt_succ_self k, rfl⟩

variable (huser : ∀ page < m.frameTableSize, (s.frameTable page).important = false)

include huser

omit hclock in
lemma passed_iff_cameBy (k page : Nat) : Passed m s k page ↔ CameBy m s k page := by
  refine ⟨And.right, fun h => ⟨.inl ?_, h⟩⟩
  obtain ⟨j, -, rfl⟩ := h
  exact huser _ (ahead_lt j)

lemma exists_ends : ∃ k ≤ m.frameTableSize, Ends m s k := by
  have hstart : Clearable s s.clockCurr := .inl (huser _ hclock)
  obtain ⟨page, hpage⟩ := exists_firstVictim hclock hclock (.inl hstart)
  obtain ⟨k, hk, rfl, ⟨hbit, hset⟩ | ⟨hset, -, hkeep⟩⟩ := hpage
  · refine ⟨k, by omega, ?_, fun j hj => (goes_first hclock (by omega)).mpr (hset j hj)⟩
    rw [goes_first hclock hk, hbit]
    exact Bool.false_ne_true
  · refine ⟨m.frameTableSize, le_rfl, ?_, fun j hj => (goes_first hclock hj).mpr (hset j hj)⟩
    rw [goes_again hclock le_rfl]
    exact fun hgo => hgo.2 (.inl (huser _ (ahead_lt _)))

lemma Ends.secondChance (hk : k ≤ m.frameTableSize) (h : Ends m s k) :
    SecondChance m s k (turn m s k) := by
  have hpassed := passed_iff_cameBy huser k
  have hbefore : ∀ j < k, (s.frameTable (ahead m s j)).refBit = true :=
    fun j hj => (goes_first hclock (by omega)).mp (h.2 j hj)
  refine ⟨turn_clockCurr hclock k, hbefore, ?_, fun page hpage => ?_, fun page hpage => ?_,
    fun page hpage hcap p v hv => ?_, fun p v hnot => turn_mapped hclock hnot, turn_rest k⟩
  · rcases Nat.lt_or_ge k m.frameTableSize with hlt | hge
    · have hstop := h.1
      rw [goes_first hclock hlt, Bool.not_eq_true] at hstop
      exact .inl ⟨hlt, hstop⟩
    · obtain rfl : k = m.frameTableSize := by omega
      refine .inr ⟨rfl, ?_⟩
      rw [turn_clockCurr hclock, ahead, Nat.add_mod_right, Nat.mod_eq_of_lt hclock]
  · have hbit : ((turn m s k).frameTable page).refBit = false := by
      have hiff := turn_refBit hclock k page
      rw [← Bool.not_eq_true, hiff]
      exact fun hset => hset.2 ((hpassed page).mpr hpage)
    rw [turn_frame, hbit]
  · have hbit : ((turn m s k).frameTable page).refBit = (s.frameTable page).refBit := by
      rw [Bool.eq_iff_iff, turn_refBit hclock, and_iff_left (mt (hpassed page).mp hpage)]
    rw [turn_frame, hbit]
  · exact turn_unmapped hclock ((hpassed page).mpr hpage) hcap hv

end Scan

/-! ## The frame that is returned -/

def SameClock (s t : VmState) : Prop := t.clockCurr = s.clockCurr

instance : Std.Refl SameClock where
  refl _ := rfl

instance : IsTrans VmState SameClock where
  trans _ _ _ h h' := Eq.trans h' h

lemma sameClock_pageout : PageoutMoves SameClock where
  same h _ := by
    rw [h]
    rfl
  swapOut _ _ _ := rfl

lemma frameFree_sameClock {m : Machine} {pid : Int} (page : Nat) :
    Keeps (Served pid) SameClock (frameFree m page) := by
  intro s
  simp only [frameFree, bind_apply, get_apply, Res.bind]
  split
  · exact Std.Refl.refl s
  · exact Res.Ends.check_bind fun _ => rfl

section Victim

variable {m : Machine} {s s' : VmState} {pid : Int}

lemma evict_ends (hsweep : sweep m (2 * m.frameTableSize) s = some s') :
    (evict m s).Ends (Served pid) fun page _ => page = s'.clockCurr := by
  simp only [evict, bind_apply, get_apply, Res.bind]
  refine Res.Ends.ofOption_bind fun swept hswept => ?_
  obtain rfl : swept = s' := Option.some.inj (hswept.symm.trans hsweep)
  simp only [bind_apply, set_apply, Res.bind]
  refine Res.Ends.bind (pageout_keeps sameClock_pageout _ swept) fun _ t ht => ?_
  simp only [bind_apply, get_apply, Res.bind]
  exact Res.Ends.bind (frameFree_sameClock t.clockCurr t) fun _ u hu => Eq.trans hu ht

lemma frameAllocWith_ends (hfull : s.frameTableCurrSize = m.frameTableSize)
    (hsweep : sweep m (2 * m.frameTableSize) s = some s') (important : Bool) :
    (frameAllocWith m important s).Ends (Served pid) fun r _ =>
      r = (s'.clockCurr, m.pageNumToVaddr s'.clockCurr) ∨
        r = (0, 0) ∧ ∃ i, m.allocOk i = false := by
  simp only [frameAllocWith, bind_apply, get_apply, Res.bind]
  refine Res.Ends.check_bind fun _ => ?_
  have hchoose : (choosePage m s).Ends (Served pid) fun page _ => page = s'.clockCurr := by
    simp only [choosePage, bind_apply, get_apply, Res.bind, hfull, if_true]
    exact evict_ends hsweep
  refine Res.Ends.bind hchoose fun page t hpage => ?_
  subst hpage
  simp only [bind_apply, ask, get_apply, set_apply, Coro.pure_apply, Res.bind]
  split
  case isTrue => exact .inl rfl
  case isFalse hrefused => exact .inr ⟨rfl, t.time, Bool.eq_false_iff.mpr hrefused⟩

/-- In a full table without important frames the sweep of either function is a
second-chance scan of at most one turn, and its victim is the frame they return. -/
theorem sweep_second_chance (hfull : s.frameTableCurrSize = m.frameTableSize)
    (hclock : s.clockCurr < m.frameTableSize)
    (huser : ∀ page < m.frameTableSize, (s.frameTable page).important = false) :
    ∃ k ≤ m.frameTableSize, ∃ s', sweep m k s = some s' ∧ SecondChance m s k s' ∧
      ∀ pid r t, Exec (Served pid) (frameAlloc m s) r t ∨
          Exec (Served pid) (frameAllocImportant m s) r t →
        r = (s'.clockCurr, m.pageNumToVaddr s'.clockCurr) ∨
          r = (0, 0) ∧ ∃ i, m.allocOk i = false := by
  obtain ⟨k, hk, hends⟩ := exists_ends hclock huser
  have hsweep : ∀ n, k ≤ n → sweep m n s = some (turn m s k) :=
    fun n hn => (sweep_eq_some n).mpr ⟨k, hn, hends, rfl⟩
  refine ⟨k, hk, turn m s k, hsweep k le_rfl, hends.secondChance hclock huser hk, ?_⟩
  rintro pid r t (hexec | hexec)
  · exact (frameAllocWith_ends hfull (hsweep _ (by omega)) false).exec hexec
  · exact (frameAllocWith_ends hfull (hsweep _ (by omega)) true).exec hexec

end Victim

/-- Three user pages, of which the last has not been referenced since the last turn. -/
def threeUserPages : Nat → FrameTableEntry
  | 2 => ⟨3, 13, 0, 1, 0x3000, false, false⟩
  | f => ⟨f + 1, f + 11, 0, 1, 0x1000 * (f + 1), true, false⟩

theorem sweep_second_chance_third :
    ∃ k ≤ 3, ∃ s', sweep (grantingMachine 3) k (fullTable 3 threeUserPages) = some s' ∧
      s'.clockCurr = 2 := by
  obtain ⟨k, hk, s', hsweep, hchance, -⟩ := sweep_second_chance
    (m := grantingMachine 3) (s := fullTable 3 threeUserPages) rfl (by decide)
    (by decide)
  have hk3 : k ≤ 3 := hk
  refine ⟨k, hk, s', hsweep, ?_⟩
  have hall : sweep (grantingMachine 3) 3 (fullTable 3 threeUserPages) = some s' := by
    obtain ⟨j, hj, hends, rfl⟩ := (sweep_eq_some k).mp hsweep
    exact (sweep_eq_some 3).mpr ⟨j, by omega, hends, rfl⟩
  have hclock : (sweep (grantingMachine 3) 3 (fullTable 3 threeUserPages)).map
      VmState.clockCurr = some 2 := rfl
  rw [hall] at hclock
  exact Option.some.inj hclock

end SpaghettiOS.Vm
