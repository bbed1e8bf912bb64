import Mathlib.Data.BitVec
import Mathlib.Data.Nat.Prime.Basic
import SpaghettiOS.Lib.Run

/-!
# DMA memory

`sos_dma_malloc` of `dma.c` hands out a 2 MiB frame from the front to the back.  Each
call rounds the next address up twice, the first time to a multiple of 7 instead of 2^7.
The limit is tested by an addition that can wrap, and a call that fails has moved the
pointer all the same.
-/

namespace SpaghettiOS.DmaMemory

abbrev Word := BitVec 64

/-- `ROUND_UP` of `utils/arith.h`. -/
def roundUp (n b : Word) : Word := n + (if n % b = 0 then 0 else b - n % b)

abbrev dmaAlignBits : Word := 7

def dmaAlign (a : Word) : Word := roundUp a dmaAlignBits

/-- `dma_t`, without the capabilities. -/
structure Dma where
  vstart : Word
  pstart : Word
  pnext : Word
  pend : Word
deriving DecidableEq, Repr

structure DmaAddr where
  vaddr : Word
  paddr : Word
deriving DecidableEq, Repr

def nullAddr : DmaAddr := ⟨0, 0⟩

abbrev largePageBits : Nat := 21

/-- `dma_init`, as far as the allocator goes. -/
def dmaInit (pstart vstart : Word) : Dma := ⟨vstart, pstart, pstart, pstart + 1 <<< largePageBits⟩

def Dma.physToVirt (d : Dma) (phys : Word) : Word := d.vstart + (phys - d.pstart)

/-- The next address, rounded twice.  An `int` that is not negative is the same number as
a word. -/
def Dma.rounded (d : Dma) (align : Nat) : Word :=
  roundUp (dmaAlign d.pnext) (BitVec.ofNat 64 align)

def sosDmaMalloc (d : Dma) (size : Word) (align : Nat) : DmaAddr × Dma :=
  let d := { d with pnext := d.rounded align }
  if d.pnext + size ≥ d.pend then (nullAddr, d)
  else (⟨d.physToVirt d.pnext, d.pnext⟩, { d with pnext := d.pnext + size })

/-! ## Runs -/

structure Block where
  addr : DmaAddr
  size : Word

def Block.Has (b : Block) (a : Nat) : Prop :=
  b.addr.paddr.toNat ≤ a ∧ a < b.addr.paddr.toNat + b.size.toNat

structure Sys where
  dma : Dma
  blocks : List Block

structure Call where
  size : Word
  align : Nat
  align_pos : 0 < align
  align_lt : align < 2 ^ 31

def Sys.step (s : Sys) (c : Call) : Sys :=
  let r := sosDmaMalloc s.dma c.size c.align
  ⟨r.2, if r.1 = nullAddr then s.blocks else ⟨r.1, c.size⟩ :: s.blocks⟩

def Step (s : Sys) (c : Call) (t : Sys) : Prop := t = s.step c

def boot (pstart vstart : Word) : Sys := ⟨dmaInit pstart vstart, []⟩

/-- What is promised of a block, in a state with the earlier ones. -/
structure Good (s : Sys) (align : Nat) (b : Block) : Prop where
  aligned : 128 ∣ b.addr.paddr.toNat
  asked : ∀ k, align = 2 ^ k → align ∣ b.addr.paddr.toNat
  mapped : b.addr.vaddr - s.dma.vstart = b.addr.paddr - s.dma.pstart
  above : s.dma.pstart.toNat ≤ b.addr.paddr.toNat
  below : b.addr.paddr.toNat + b.size.toNat ≤ s.dma.pend.toNat
  apart : ∀ e ∈ s.blocks, ∀ a, b.Has a → ¬ e.Has a

def Keeps (s : Sys) (c : Call) : Prop :=
  (sosDmaMalloc s.dma c.size c.align).1 ≠ nullAddr →
    Good s c.align ⟨(sosDmaMalloc s.dma c.size c.align).1, c.size⟩

def Steady (s : Sys) (c : Call) : Prop :=
  s.dma.pnext ≤ s.dma.rounded c.align ∧ ((sosDmaMalloc s.dma c.size c.align).1 ≠ nullAddr →
      (s.dma.rounded c.align).toNat + c.size.toNat < 2 ^ 64)

/-! ## Rounding -/

/-- The macro without the limits of a word. -/
def natRoundUp (n b : Nat) : Nat := n + (if n % b = 0 then 0 else b - n % b)

lemma dvd_natRoundUp (n b : Nat) (hb : 0 < b) : b ∣ natRoundUp n b := by
  have hlt := Nat.mod_lt n hb
  have hdiv := Nat.div_add_mod n b
  unfold natRoundUp
  split
  · rename_i h
    exact Nat.dvd_of_mod_eq_zero h
  · refine ⟨n / b + 1, ?_⟩
    rw [Nat.mul_add, Nat.mul_one]
    omega

lemma toNat_roundUp (n : Word) {b : Nat} (hpos : 0 < b) (hb : b < 2 ^ 64) :
    (roundUp n (BitVec.ofNat 64 b)).toNat = natRoundUp n.toNat b % 2 ^ 64 := by
  have hmod : (n % BitVec.ofNat 64 b).toNat = n.toNat % b := by
    rw [BitVec.toNat_umod, BitVec.toNat_ofNat, Nat.mod_eq_of_lt hb]
  have hzero : n % BitVec.ofNat 64 b = 0 ↔ n.toNat % b = 0 := by
    rw [← hmod]
    exact ⟨fun h => by rw [h]; rfl, fun h => BitVec.eq_of_toNat_eq h⟩
  have hlt : n.toNat % b < b := Nat.mod_lt _ hpos
  rw [roundUp, natRoundUp, BitVec.toNat_add]
  by_cases h : n.toNat % b = 0
  · rw [if_pos (hzero.mpr h), if_pos h]
    rfl
  · rw [if_neg (mt hzero.mp h), if_neg h, BitVec.toNat_sub, hmod, BitVec.toNat_ofNat]
    omega

lemma dvd_rounded (d : Dma) (c : Call) {k : Nat} (hk : c.align = 2 ^ k) :
    c.align ∣ (d.rounded c.align).toNat := by
  have hlt := c.align_lt
  have h64 : c.align ∣ 2 ^ 64 := by
    rw [hk]
    refine pow_dvd_pow 2 ?_
    have hk31 : k < 31 := (Nat.pow_lt_pow_iff_right (by decide)).mp (hk ▸ hlt)
    omega
  rw [Dma.rounded, toNat_roundUp _ c.align_pos (by omega), Nat.dvd_mod_iff h64]
  exact dvd_natRoundUp _ _ c.align_pos

/-! ## Blocks -/

section
variable {s : Sys} {c : Call}

lemma sosDmaMalloc_of_ne_null (h : (sosDmaMalloc s.dma c.size c.align).1 ≠ nullAddr) :
    s.dma.rounded c.align + c.size < s.dma.pend ∧ sosDmaMalloc s.dma c.size c.align
        = (⟨s.dma.physToVirt (s.dma.rounded c.align), s.dma.rounded c.align⟩,
            { s.dma with pnext := s.dma.rounded c.align + c.size }) := by
  unfold sosDmaMalloc at h ⊢
  dsimp only at h ⊢
  split at h
  · exact absurd rfl h
  · rename_i hlimit
    rw [if_neg hlimit]
    exact ⟨BitVec.not_le.mp hlimit, rfl⟩

lemma keeps_iff_place (s : Sys) (c : Call) :
    Keeps s c ↔ (sosDmaMalloc s.dma c.size c.align).1 = nullAddr ∨
      128 ∣ (s.dma.rounded c.align).toNat ∧ (s.dma.rounded c.align).toNat + c.size.toNat < 2 ^ 64 ∧
      s.dma.pstart.toNat ≤ (s.dma.rounded c.align).toNat ∧
      ∀ e ∈ s.blocks, ∀ a, (s.dma.rounded c.align).toNat ≤ a →
        a < (s.dma.rounded c.align).toNat + c.size.toNat → ¬ e.Has a := by
  by_cases hnull : (sosDmaMalloc s.dma c.size c.align).1 = nullAddr
  · exact iff_of_true (fun h => absurd hnull h) (.inl hnull)
  obtain ⟨hlimit, hret⟩ := sosDmaMalloc_of_ne_null hnull
  rw [BitVec.lt_def, BitVec.toNat_add] at hlimit
  rw [or_iff_right hnull, Keeps, hret]
  constructor
  · intro h
    have hgood := h (by rw [hret] at hnull; exact hnull)
    have hbelow : (s.dma.rounded c.align).toNat + c.size.toNat ≤ s.dma.pend.toNat := hgood.below
    have hpend := s.dma.pend.isLt
    exact ⟨hgood.aligned, by omega, hgood.above, fun e he a ha ha' => hgood.apart e he a ⟨ha, ha'⟩⟩
  · rintro ⟨haligned, hwrap, habove, hapart⟩ -
    rw [Nat.mod_eq_of_lt hwrap] at hlimit
    exact {
      aligned := haligned
      asked := fun k hk => dvd_rounded s.dma c hk
      mapped := by
        show s.dma.vstart + (s.dma.rounded c.align - s.dma.pstart) - s.dma.vstart = _
        rw [BitVec.add_comm, BitVec.add_sub_cancel]
      above := habove
      below := hlimit.le
      apart := fun e he a ha => hapart e he a ha.1 ha.2 }

/-- The next address is behind everything that was handed out. -/
structure Ahead (pstart : Word) (s : Sys) : Prop where
  start : s.dma.pstart = pstart
  above : pstart ≤ s.dma.pnext
  behind : ∀ e ∈ s.blocks, e.addr.paddr.toNat + e.size.toNat ≤ s.dma.pnext.toNat

lemma Ahead.step {pstart : Word} (hp : pstart ≠ 0) (h : Ahead pstart s) (hsteady : Steady s c) :
    Ahead pstart (s.step c) := by
  obtain ⟨hround, hwrap⟩ := hsteady
  have hmove : s.dma.pnext.toNat ≤ (s.dma.rounded c.align).toNat := BitVec.le_def.mp hround
  by_cases hlimit : s.dma.rounded c.align + c.size ≥ s.dma.pend
  · have hret : sosDmaMalloc s.dma c.size c.align
        = (nullAddr, { s.dma with pnext := s.dma.rounded c.align }) := by
      unfold sosDmaMalloc
      exact if_pos hlimit
    simp only [Sys.step, hret, if_true]
    exact ⟨h.start, BitVec.le_trans h.above hround, fun e he => (h.behind e he).trans hmove⟩
  · -- an address that is not below the start of the frame is not null
    have hne : (sosDmaMalloc s.dma c.size c.align).1 ≠ nullAddr := by
      have hret : (sosDmaMalloc s.dma c.size c.align).1.paddr = s.dma.rounded c.align := by
        unfold sosDmaMalloc
        rw [if_neg hlimit]
      intro hnull
      rw [hnull] at hret
      have hzero : pstart ≤ 0 := by
        have hle := BitVec.le_trans h.above hround
        rwa [← hret] at hle
      exact hp (BitVec.eq_of_toNat_eq (Nat.le_zero.mp (BitVec.le_def.mp hzero)))
    have hsum := hwrap hne
    obtain ⟨-, hret⟩ := sosDmaMalloc_of_ne_null hne
    have hadd : (s.dma.rounded c.align + c.size).toNat
        = (s.dma.rounded c.align).toNat + c.size.toNat := by
      rw [BitVec.toNat_add, Nat.mod_eq_of_lt hsum]
    rw [hret] at hne
    simp only [Sys.step, hret, hne, if_false]
    refine ⟨h.start, ?_, fun e he => ?_⟩
    · have habove := BitVec.le_def.mp h.above
      rw [BitVec.le_def, hadd]
      omega
    · rw [hadd]
      rcases List.mem_cons.mp he with rfl | he
      · exact le_rfl
      · have hbehind := h.behind e he
        omega

lemma ahead_boot (pstart vstart : Word) : Ahead pstart (boot pstart vstart) :=
  ⟨rfl, BitVec.le_refl pstart, fun _ he => absurd he List.not_mem_nil⟩

end

/-- When a call keeps the promise: in every state with any earlier blocks, and in those a
run leads to in which no addition has wrapped. -/
theorem dma_keeps_iff (pstart vstart : Word) (hp : pstart ≠ 0) (s : Sys) (c : Call) :
    (Keeps s c ↔ (sosDmaMalloc s.dma c.size c.align).1 = nullAddr ∨
      128 ∣ (s.dma.rounded c.align).toNat ∧ (s.dma.rounded c.align).toNat + c.size.toNat < 2 ^ 64 ∧
      s.dma.pstart.toNat ≤ (s.dma.rounded c.align).toNat ∧
      ∀ e ∈ s.blocks, ∀ a, (s.dma.rounded c.align).toNat ≤ a →
        a < (s.dma.rounded c.align).toNat + c.size.toNat → ¬ e.Has a) ∧
    (Lts.Run Step Steady (boot pstart vstart) s → s.dma.pnext ≤ s.dma.rounded c.align →
      (Keeps s c ↔ (sosDmaMalloc s.dma c.size c.align).1 = nullAddr ∨
        128 ∣ (s.dma.rounded c.align).toNat ∧
        (s.dma.rounded c.align).toNat + c.size.toNat < 2 ^ 64)) := by
  refine ⟨keeps_iff_place s c, fun hsteady hround => ?_⟩
  have hahead : Ahead pstart s := hsteady.invariant (ahead_boot pstart vstart)
    fun h hguard hstep => hstep ▸ h.step hp hguard
  have hmove := BitVec.le_def.mp hround
  have habove := BitVec.le_def.mp hahead.above
  rw [keeps_iff_place]
  refine or_congr_right ⟨fun h => ⟨h.1, h.2.1⟩, fun h => ⟨h.1, h.2, ?_, fun e he a ha _ hin => ?_⟩⟩
  · rw [hahead.start]
    omega
  · have hbehind := hahead.behind e he
    have hend := hin.2
    omega

theorem dma_keeps_aligned :
    Keeps ((boot 0x40000000 0xA0000000).step ⟨64, 128, by decide, by decide⟩)
      ⟨64, 128, by decide, by decide⟩ :=
  ((dma_keeps_iff 0x40000000 0xA0000000 (by decide) _ _).2
    (.tail .refl ⟨by decide, by decide⟩ rfl) (by decide)).mpr (.inr (by decide))

theorem dma_breaks :
    (sosDmaMalloc (dmaInit 0x40000000 0xA0000000) 64 1).1 = ⟨0xA0000006, 0x40000006⟩ ∧
    ¬ Keeps (boot 0x40000000 0xA0000000) ⟨64, 1, by decide, by decide⟩ ∧
    (sosDmaMalloc (dmaInit 0x40000000 0xA0000000) 0xFFFFFFFFC0000000 128).1
      = ⟨0xA0000080, 0x40000080⟩ ∧
    ¬ Keeps (boot 0x40000000 0xA0000000) ⟨0xFFFFFFFFC0000000, 128, by decide, by decide⟩ := by
  refine ⟨by decide, fun h => ?_, by decide, fun h => ?_⟩
  · exact absurd (h (by decide)).aligned (by decide)
  · exact absurd (h (by decide)).below (by decide)

end SpaghettiOS.DmaMemory
