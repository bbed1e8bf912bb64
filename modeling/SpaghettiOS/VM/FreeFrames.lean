import SpaghettiOS.VM.Moves

/-!
# The free list of the frame table

`next_free_page` and the links of the entries are a list of the free frames, for
every sequence of allocations and frees.  An allocation takes the head of the list; when
the table is full the victim is freed first, so that it is the head.
-/

namespace SpaghettiOS.Vm

open Coro (bind_apply get_apply pure_apply set_apply)
open Coroutine (Res Exec)

instance (s : VmState) (page : Nat) : Decidable (s.allocated page) :=
  inferInstanceAs (Decidable (_ ≠ _))

/-- What `frame_table_init` leaves behind.  The globals it does not write are zero. -/
def frameTableInit (m : Machine) (s : VmState) : VmState :=
  { s with
    frameTable := fun f =>
      if f < m.frameTableSize then
        { cap := 0, userCap := 0, nextFreePage := if f + 1 = m.frameTableSize then 0 else f + 1,
          pid := -1, userVaddr := 0, refBit := false, important := false }
      else s.frameTable f
    nextFreePage := 0
    frameTableCurrSize := 0
    clockCurr := 0 }

/-- The pages met when the links are followed for a number of steps. -/
def freeWalk (s : VmState) : Nat → Nat → List Nat
  | 0, _ => []
  | n + 1, page => page :: freeWalk s n (s.frameTable page).nextFreePage

/-- The free list, as long as the counter says. -/
def freePages (m : Machine) (s : VmState) : List Nat :=
  freeWalk s (m.frameTableSize - s.frameTableCurrSize) s.nextFreePage

/-- The list holds the free frames once each, and the counter counts the others. -/
structure FreeListExact (m : Machine) (s : VmState) : Prop where
  nodup : (freePages m s).Nodup
  mem_iff : ∀ f, f ∈ freePages m s ↔ f < m.frameTableSize ∧ ¬ s.allocated f
  count : s.frameTableCurrSize =
    (List.range m.frameTableSize).countP fun f => decide ((s.frameTable f).cap ≠ 0)

/-- A page that was returned and has not been freed since, by the log. -/
def live : List FrameEvent → Nat → Bool
  | [], _ => false
  | .returned _ page :: log, f => if page = f then true else live log f
  | .freed _ page :: log, f => if page = f then false else live log f
  | .finished _ :: log, f => live log f

def NoDouble : List FrameEvent → Prop
  | [] => True
  | .returned _ page :: log => live log page = false ∧ NoDouble log
  | _ :: log => NoDouble log

section FreeFrames

variable {m : Machine} {s s' : VmState}

lemma freeWalk_chain {n : Nat} {l : List Nat}
    (h : Chain (fun f => (s.frameTable f).nextFreePage) n l) : freeWalk s l.length n = l := by
  induction l generalizing n with
  | nil => rfl
  | cons f l ih =>
    obtain ⟨rfl, hl⟩ := h
    rw [List.length_cons, freeWalk, ih hl]

lemma FreeList.exact {l : List Nat} (h : FreeList m s (fun f => ¬ s.allocated f) l) :
    FreeListExact m s := by
  have hcount := h.count
  have hpages : freePages m s = l := by
    have hlen : m.frameTableSize - s.frameTableCurrSize = l.length := by omega
    rw [freePages, hlen]
    exact freeWalk_chain h.chain
  refine ⟨hpages ▸ h.nodup, hpages ▸ h.mem_iff, ?_⟩
  have hperm : l.Perm ((List.range m.frameTableSize).filter fun f =>
      !decide ((s.frameTable f).cap ≠ 0)) := by
    refine (List.perm_ext_iff_of_nodup h.nodup (List.nodup_range.filter _)).mpr fun f => ?_
    rw [h.mem_iff f]
    simp [VmState.allocated]
  have hlen := hperm.length_eq
  rw [← List.countP_eq_length_filter] at hlen
  have hall := List.length_eq_countP_add_countP (fun f => decide ((s.frameTable f).cap ≠ 0))
    (l := List.range m.frameTableSize)
  rw [List.length_range] at hall
  simp only [Bool.not_eq_true, Bool.decide_eq_false] at hall
  omega

/-! ## What touches the list -/

structure SameFrames (s s' : VmState) : Prop where
  cap : ∀ f, (s'.frameTable f).cap = (s.frameTable f).cap
  next : ∀ f, (s'.frameTable f).nextFreePage = (s.frameTable f).nextFreePage
  nextFreePage : s'.nextFreePage = s.nextFreePage
  currSize : s'.frameTableCurrSize = s.frameTableCurrSize
  log : s'.log = s.log

lemma SameFrames.refl (s : VmState) : SameFrames s s :=
  ⟨fun _ => rfl, fun _ => rfl, rfl, rfl, rfl⟩

lemma SameFrames.trans {s'' : VmState} (h : SameFrames s s') (h' : SameFrames s' s'') :
    SameFrames s s'' where
  cap f := (h'.cap f).trans (h.cap f)
  next f := (h'.next f).trans (h.next f)
  nextFreePage := h'.nextFreePage.trans h.nextFreePage
  currSize := h'.currSize.trans h.currSize
  log := h'.log.trans h.log

lemma SameFrames.allocated (h : SameFrames s s') (f : Nat) : s'.allocated f ↔ s.allocated f := by
  simp only [VmState.allocated, h.cap f]

/-- The free list, the log and the clock, as allocations and frees keep them. -/
structure FrameInv (m : Machine) (s : VmState) : Prop where
  clock : s.clockCurr < m.frameTableSize
  list : ∃ l, FreeList m s (fun f => ¬ s.allocated f) l
  live : ∀ f, live s.log f = true ↔ f < m.frameTableSize ∧ s.allocated f
  noDouble : NoDouble s.log

lemma FrameInv.same (h : FrameInv m s) (hs : SameFrames s s')
    (hclock : s'.clockCurr < m.frameTableSize) : FrameInv m s' := by
  obtain ⟨l, hl⟩ := h.list
  refine ⟨hclock, ⟨l, ?_, hl.nodup, fun f => ?_, ?_⟩, fun f => ?_, hs.log ▸ h.noDouble⟩
  · rw [hs.nextFreePage]
    exact hl.chain.congr fun f _ => hs.next f
  · rw [hl.mem_iff f, hs.allocated f]
  · rw [hs.currSize]
    exact hl.count
  · rw [hs.log, h.live f, hs.allocated f]

lemma FrameInv.release (h : FrameInv m s) {f : Nat} (hf : f < m.frameTableSize)
    (hcap : s.allocated f) : FrameInv m (s.release f) := by
  obtain ⟨l, hl⟩ := h.list
  have hl' := hl.release hf (not_not_intro hcap)
  have halloc : ∀ g, (s.release f).allocated g ↔ s.allocated g ∧ g ≠ f := by
    intro g
    rw [VmState.allocated, frameTable_release]
    split
    · rename_i hg
      simp [hg]
    · rename_i hg
      simp [VmState.allocated, hg]
  refine ⟨h.clock, ⟨_, hl'.chain, hl'.nodup, fun g => ?_, hl'.count⟩, fun g => ?_, h.noDouble⟩
  · rw [hl'.mem_iff g, halloc g]
    grind
  · have hlive := h.live g
    show (if f = g then false else Vm.live s.log g) = true ↔ _
    rw [halloc g]
    grind

lemma FrameInv.take (h : FrameInv m s) (hroom : s.frameTableCurrSize < m.frameTableSize)
    (imp : Bool) : FrameInv m (s.take m imp s.nextFreePage) ∧ s.nextFreePage ∈ freePages m s := by
  obtain ⟨l, hl⟩ := h.list
  have hpages := hl.exact
  cases l with
  | nil =>
    have hcount := hl.count
    simp only [List.length_nil] at hcount
    omega
  | cons f l =>
    obtain rfl := hl.chain.1
    obtain ⟨hlt, hfree⟩ := (hl.mem_iff s.nextFreePage).mp (by simp)
    have hl' := hl.take imp
    have halloc : ∀ g, (s.take m imp s.nextFreePage).allocated g ↔
        s.allocated g ∨ g = s.nextFreePage := by
      intro g
      rw [VmState.allocated, frameTable_take]
      split
      · rename_i hg
        simp [hg]
      · rename_i hg
        simp [VmState.allocated, hg]
    refine ⟨⟨h.clock, ⟨l, hl'.chain, hl'.nodup, fun g => ?_, hl'.count⟩, fun g => ?_, ?_⟩,
      (hpages.mem_iff _).mpr ⟨hlt, hfree⟩⟩
    · rw [hl'.mem_iff g, halloc g]
      grind
    · have hlive := h.live g
      show (if s.nextFreePage = g then true else Vm.live s.log g) = true ↔ _
      rw [halloc g]
      grind
    · have hlive := h.live s.nextFreePage
      refine ⟨?_, h.noDouble⟩
      cases hl : Vm.live s.log s.nextFreePage with
      | false => rfl
      | true => exact absurd (hlive.mp hl).2 hfree

/-! ## Allocations -/

def Quiet (s s' : VmState) : Prop := SameFrames s s' ∧ s'.clockCurr = s.clockCurr

instance : Std.Refl Quiet where
  refl s := ⟨.refl s, rfl⟩

instance : IsTrans VmState Quiet where
  trans _ _ _ h h' := ⟨h.1.trans h'.1, h'.2.trans h.2⟩

lemma FrameInv.quiet (h : FrameInv m s) (hs : Quiet s s') : FrameInv m s' :=
  h.same hs.1 (hs.2 ▸ h.clock)

variable {pid : Int}

lemma quiet_pageout : PageoutMoves Quiet where
  same := by
    intro s t h _
    rw [h]
    exact ⟨⟨fun _ => rfl, fun _ => rfl, rfl, rfl, rfl⟩, rfl⟩
  swapOut _ _ _ := ⟨⟨fun _ => rfl, fun _ => rfl, rfl, rfl, rfl⟩, rfl⟩

lemma frameFree_releases {page : Nat} (hle : page ≤ m.frameTableSize) :
    (frameFree m page s).Ends (Served pid) fun _ s' => s.allocated page ∧ s' = s.release page := by
  simp only [frameFree, bind_apply, get_apply, Res.bind]
  rw [if_neg (not_lt_of_ge hle)]
  exact Res.Ends.check_bind fun hcap => ⟨hcap, rfl⟩

lemma evict_frees (h : FrameInv m s) :
    (evict m s).Ends (Served pid) (fun page s' => FrameInv m s' ∧ s'.nextFreePage = page ∧
      s'.frameTableCurrSize < m.frameTableSize ∧ ∃ c, s'.log = .freed c page :: s.log) := by
  simp only [evict, bind_apply, get_apply, Res.bind]
  refine Res.Ends.ofOption_bind fun swept hswept => ?_
  obtain ⟨hbooks, hclock, -, -⟩ := sweep_sameBooks h.clock hswept
  have hlog : swept.log = s.log := by
    obtain ⟨k, -, -, rfl⟩ := (sweep_eq_some _).mp hswept
    rw [turn_rest]
  have hsame : SameFrames s swept :=
    ⟨fun f => (congrArg FrameTableEntry.cap (hbooks.core f) :),
      fun f => (congrArg FrameTableEntry.nextFreePage (hbooks.core f) :), hbooks.nextFreePage,
      hbooks.currSize, hlog⟩
  simp only [bind_apply, set_apply, Res.bind]
  refine Res.Ends.bind (pageout_keeps quiet_pageout swept.clockCurr swept) fun _ s1 h1 => ?_
  have hinv1 := (h.same hsame hclock).quiet h1
  simp only [bind_apply, get_apply, Res.bind]
  refine Res.Ends.bind (frameFree_releases hinv1.clock.le) ?_
  rintro _ _ ⟨hcap, rfl⟩
  have hinv2 := hinv1.release hinv1.clock hcap
  refine ⟨hinv2, rfl, ?_, s1.running, ?_⟩
  · obtain ⟨l, hl⟩ := hinv2.list
    have hcount := hl.count
    have hmem := (hl.mem_iff s1.clockCurr).mpr ⟨hinv1.clock, by
      simp [VmState.allocated, frameTable_release]⟩
    have hpos := List.length_pos_of_mem hmem
    omega
  · show FrameEvent.freed s1.running s1.clockCurr :: s1.log = _
    rw [h1.1.log, hlog]
    rfl

def Returns (m : Machine) (s : VmState) (r : Nat × Nat) (s' : VmState) : Prop :=
  r.2 ≠ 0 → r.2 = m.pageNumToVaddr r.1 ∧ r.1 < m.frameTableSize ∧
    (r.1 ∈ freePages m s ∨ s.frameTableCurrSize = m.frameTableSize ∧
      ∃ c c', s'.log = .returned c r.1 :: .freed c' r.1 :: s.log)

lemma mem_freePages_lt (h : FrameInv m s) {f : Nat} (hf : f ∈ freePages m s) :
    f < m.frameTableSize := by
  obtain ⟨l, hl⟩ := h.list
  exact ((hl.exact.mem_iff f).mp hf).1

lemma frameAllocWith_returns (h : FrameInv m s) (imp : Bool) :
    (frameAllocWith m imp s).Ends (Served pid) (fun r s' => FrameInv m s' ∧ Returns m s r s') := by
  simp only [frameAllocWith, bind_apply, get_apply, Res.bind]
  refine Res.Ends.check_bind fun hle => ?_
  simp only [choosePage, bind_apply, get_apply, Res.bind]
  split
  · rename_i hfull
    refine Res.Ends.bind (evict_frees h) ?_
    rintro page s1 ⟨h1, rfl, hroom, c', hlog⟩
    refine Res.Ends.bind (ask_keeps quiet_pageout.same m.allocOk _) fun ok s2 h2 => ?_
    have hinv2 := h1.quiet h2
    split
    · rw [← h2.1.nextFreePage]
      rw [← h2.1.currSize] at hroom
      obtain ⟨hinv, hmem⟩ := hinv2.take hroom imp
      refine ⟨hinv, fun _ => ⟨rfl, mem_freePages_lt hinv2 hmem, .inr ⟨hfull, s2.running, c', ?_⟩⟩⟩
      show FrameEvent.returned s2.running s2.nextFreePage :: s2.log = _
      rw [h2.1.log, hlog, h2.1.nextFreePage]
    · exact ⟨hinv2, fun hne => absurd rfl hne⟩
  · rename_i hfull
    simp only [pure_apply, Res.bind]
    refine Res.Ends.bind (ask_keeps quiet_pageout.same m.allocOk _) fun ok s2 h2 => ?_
    have hinv2 := h.quiet h2
    split
    · have hroom : s2.frameTableCurrSize < m.frameTableSize := by
        rw [h2.1.currSize]
        omega
      rw [← h2.1.nextFreePage]
      obtain ⟨hinv, hmem⟩ := hinv2.take hroom imp
      refine ⟨hinv, fun _ => ⟨rfl, mem_freePages_lt hinv2 hmem, .inl ?_⟩⟩
      obtain ⟨l, hl⟩ := h.list
      obtain ⟨l2, hl2⟩ := hinv2.list
      rw [hl.exact.mem_iff, ← h2.1.allocated, ← hl2.exact.mem_iff]
      exact hmem
    · exact ⟨hinv2, fun hne => absurd rfl hne⟩

/-! ## Runs -/

/-- An allocation by a process, a free of a page, and whatever else goes on. -/
inductive FrameOp where
  | alloc (pid : Int) (important : Bool)
  | free (page : Nat)
  | elsewhere

/-- One operation of the frame table that comes to its end. Between two of them the rest of the
system may change the owners of the frames, their reference bits and everything outside the
table. -/
def FrameStep (m : Machine) (s : VmState) : FrameOp → VmState → Prop
  | .alloc pid important, s' => ∃ r, Exec (Served pid) (frameAllocWith m important s) r s'
  | .free page, s' => page < m.frameTableSize ∧ s.allocated page ∧
      Exec (Served 0) (frameFree m page s) ⟨⟩ s'
  | .elsewhere, s' => SameFrames s s' ∧ s'.clockCurr = s.clockCurr

lemma chain_init (m : Machine) (s : VmState) : ∀ n k, k + n = m.frameTableSize →
    Chain (fun f => ((frameTableInit m s).frameTable f).nextFreePage) k (List.range' k n) := by
  intro n
  induction n with
  | zero => exact fun _ _ => trivial
  | succ n ih =>
    intro k hk
    rw [List.range'_succ]
    refine ⟨rfl, ?_⟩
    cases n with
    | zero => trivial
    | succ n =>
      have hnext : ((frameTableInit m s).frameTable k).nextFreePage = k + 1 := by
        have hlt : k < m.frameTableSize := by omega
        have hne : ¬ k + 1 = m.frameTableSize := by omega
        simp [frameTableInit, hlt, hne]
      show Chain _ ((frameTableInit m s).frameTable k).nextFreePage _
      rw [hnext]
      exact ih (k + 1) (by omega)

lemma frameInv_init (m : Machine) {s : VmState} (hlog : s.log = []) :
    FrameInv m (frameTableInit m s) := by
  have hfree : ∀ f < m.frameTableSize, ¬ (frameTableInit m s).allocated f := by
    intro f hf
    simp [VmState.allocated, frameTableInit, hf]
  have hlog' : (frameTableInit m s).log = [] := hlog
  refine ⟨m.size_pos, ⟨List.range' 0 m.frameTableSize, chain_init m s _ 0 (Nat.zero_add _),
    List.nodup_range', fun f => ?_, ?_⟩, fun f => ?_, ?_⟩
  · rw [List.mem_range'_1]
    have hf := hfree f
    constructor
    · rintro ⟨-, hlt⟩
      exact ⟨by omega, hf (by omega)⟩
    · rintro ⟨hlt, -⟩
      omega
  · simp [frameTableInit]
  · rw [hlog']
    refine ⟨fun hl => (by cases hl), fun h => absurd h.2 (hfree f h.1)⟩
  · rw [hlog']
    trivial

lemma FrameInv.step (h : FrameInv m s) {op : FrameOp} (hstep : FrameStep m s op s') :
    FrameInv m s' := by
  cases op with
  | alloc pid important =>
    obtain ⟨r, hexec⟩ := hstep
    exact ((frameAllocWith_returns h important).exec hexec).1
  | free page =>
    obtain ⟨hlt, halloc, hexec⟩ := hstep
    obtain ⟨-, rfl⟩ := (frameFree_releases (le_of_lt hlt)).exec hexec
    exact h.release hlt halloc
  | elsewhere => exact h.quiet hstep

/-- After `frame_table_init`, in every sequence of allocations and frees, the list is
exact, the live pages are those in use, none was returned twice, and an allocation
returns the address of a page from the list or of the victim it evicted. -/
theorem free_list_exact {s₀ : VmState} (hlog : s₀.log = [])
    (hrun : Lts.Run (FrameStep m) Lts.anyStep (frameTableInit m s₀) s) :
    FreeListExact m s ∧ (∀ f, live s.log f = true ↔ f < m.frameTableSize ∧ s.allocated f) ∧
      NoDouble s.log ∧ ∀ pid important r t, Exec (Served pid) (frameAllocWith m important s) r t →
        Returns m s r t := by
  have h : FrameInv m s := hrun.invariant (I := FrameInv m) (frameInv_init m hlog)
    fun h _ hstep => h.step hstep
  obtain ⟨l, hl⟩ := h.list
  refine ⟨hl.exact, h.live, h.noDouble, fun pid important r t hexec => ?_⟩
  exact ((frameAllocWith_returns h important).exec hexec).2

end FreeFrames

theorem free_list_exact_three :
    ∃ t, Lts.Run (FrameStep (grantingMachine 3)) Lts.anyStep
        (frameTableInit (grantingMachine 3)
          (fullTable 0 fun _ => ⟨0, 0, 0, 0, 0, false, false⟩))
        t ∧ freePages (grantingMachine 3) t = [1, 2] ∧ FreeListExact (grantingMachine 3) t := by
  have hrun : Lts.Run (FrameStep (grantingMachine 3)) Lts.anyStep
      (frameTableInit (grantingMachine 3)
        (fullTable 0 fun _ => ⟨0, 0, 0, 0, 0, false, false⟩)) _ :=
    .tail (a := .free 1) (.tail (a := .alloc 0 false)
      (.tail (a := .alloc 0 true) .refl trivial ⟨_, .done⟩) trivial ⟨_, .done⟩) trivial
      ⟨by decide, by decide, .done⟩
  exact ⟨_, hrun, by decide, (free_list_exact rfl hrun).1⟩

end SpaghettiOS.Vm
