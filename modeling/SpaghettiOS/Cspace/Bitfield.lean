import Mathlib.Algebra.Ring.Nat
import Mathlib.Data.List.Basic
import Mathlib.Tactic.Common

/-!
# Bit fields

A bit field is an array of words (`bitfield.h`).  `bf_first_free` passes the words that are
full and looks for the lowest zero in the next one.  When all are full it reads beyond the
field; that is the only case in which it has no result here.
-/

namespace SpaghettiOS.Cspace

abbrev Word := BitVec 64

abbrev wordBits : Nat := 64

def bit (n : Nat) : Word := BitVec.twoPow 64 n

def bfSetBit (bits : List Word) (n : Nat) : List Word :=
  bits.modify (n / wordBits) fun w => w ||| bit (n % wordBits)

def bfClrBit (bits : List Word) (n : Nat) : List Word :=
  bits.modify (n / wordBits) fun w => w &&& ~~~ bit (n % wordBits)

def bfGetBit (bits : List Word) (n : Nat) : Bool :=
  bits.getD (n / wordBits) 0 &&& bit (n % wordBits) != 0

/-- `CTZL`, the index of the lowest bit that is set. -/
def ctzl (val : Word) : Nat := ((List.range wordBits).find? val.getLsbD).getD 0

def bfFirstFree : List Word → Option Nat
  | [] => none
  | w :: bits =>
      if w = BitVec.allOnes 64 then (bfFirstFree bits).map (· + wordBits)
      else some (ctzl (~~~ w))

/-! ## Reading -/

lemma bfGetBit_eq (bits : List Word) (n : Nat) :
    bfGetBit bits n = (bits.getD (n / wordBits) 0).getLsbD (n % wordBits) := by
  have hlt : n % wordBits < 64 := Nat.mod_lt n (by decide)
  unfold bfGetBit bit
  rw [BitVec.and_twoPow]
  cases hbit : (bits.getD (n / wordBits) 0).getLsbD (n % wordBits) with
  | false => rfl
  | true =>
    rw [if_pos rfl, bne_iff_ne]
    intro hzero
    have hself : (BitVec.twoPow 64 (n % wordBits)).getLsbD (n % wordBits) = true := by
      simp only [BitVec.getLsbD_twoPow, hlt, decide_true, Bool.and_self]
    rw [hzero] at hself
    simp at hself

lemma getD_modify (bits : List Word) (f : Word → Word) (i j : Nat) :
    (bits.modify i f).getD j 0 =
      if i = j ∧ i < bits.length then f (bits.getD j 0) else bits.getD j 0 := by
  simp only [List.getD_eq_getElem?_getD, List.getElem?_modify]
  by_cases hij : i = j
  · subst hij
    by_cases hlt : i < bits.length
    · simp [hlt]
    · simp [hlt]
  · simp [hij]

variable {n : Nat} {bits : List Word}

lemma decide_bit_eq (n k : Nat) : decide (n = k) =
    decide (k / wordBits = n / wordBits ∧ k % wordBits = n % wordBits) := by
  unfold wordBits
  exact decide_eq_decide.mpr (by omega)

@[simp] lemma length_bfSetBit (bits : List Word) (n : Nat) :
    (bfSetBit bits n).length = bits.length :=
  List.length_modify ..

@[simp] lemma length_bfClrBit (bits : List Word) (n : Nat) :
    (bfClrBit bits n).length = bits.length :=
  List.length_modify ..

lemma bfGetBit_set {k : Nat} (hk : k < bits.length * wordBits) (n : Nat) :
    bfGetBit (bfSetBit bits k) n = (bfGetBit bits n || decide (n = k)) := by
  have hword : k / wordBits < bits.length := Nat.div_lt_of_lt_mul (Nat.mul_comm _ _ ▸ hk)
  have hlt : k % wordBits < 64 := Nat.mod_lt k (by decide)
  rw [bfGetBit_eq, bfGetBit_eq, bfSetBit, getD_modify, decide_bit_eq]
  by_cases hdiv : k / wordBits = n / wordBits
  · rw [if_pos ⟨hdiv, hword⟩, BitVec.getLsbD_or, bit, BitVec.getLsbD_twoPow]
    simp [hdiv, hlt]
  · simp [hdiv]

lemma bfGetBit_set_mono (k : Nat) (h : bfGetBit bits n = true) :
    bfGetBit (bfSetBit bits k) n = true := by
  rw [bfGetBit_eq] at h
  rw [bfGetBit_eq, bfSetBit, getD_modify]
  split
  · rw [BitVec.getLsbD_or, h, Bool.true_or]
  · exact h

lemma bfGetBit_clr (bits : List Word) (k n : Nat) :
    bfGetBit (bfClrBit bits k) n = (bfGetBit bits n && !decide (n = k)) := by
  have hk : k % wordBits < 64 := Nat.mod_lt k (by decide)
  have hn : n % wordBits < 64 := Nat.mod_lt n (by decide)
  rw [bfGetBit_eq, bfGetBit_eq, bfClrBit, getD_modify, decide_bit_eq]
  by_cases hdiv : k / wordBits = n / wordBits
  · by_cases hword : k / wordBits < bits.length
    · rw [if_pos ⟨hdiv, hword⟩, BitVec.getLsbD_and, BitVec.getLsbD_not, bit, BitVec.getLsbD_twoPow]
      simp [hdiv, hk, hn]
    · rw [if_neg fun h => hword h.2]
      rw [hdiv] at hword
      simp [List.getD_eq_getElem?_getD, List.getElem?_eq_none (Nat.le_of_not_lt hword)]
  · simp [hdiv]

@[simp] lemma bfGetBit_replicate (words n : Nat) : bfGetBit (List.replicate words 0) n = false := by
  rw [bfGetBit_eq, List.getD_eq_getElem?_getD, List.getElem?_replicate]
  split <;> simp

lemma bfGetBit_cons (w : Word) (bits : List Word) (n : Nat) :
    bfGetBit (w :: bits) n =
      if n < wordBits then w.getLsbD n else bfGetBit bits (n - wordBits) := by
  simp only [bfGetBit_eq]
  split
  · rename_i hlt
    rw [Nat.div_eq_of_lt hlt, Nat.mod_eq_of_lt hlt]
    rfl
  · rename_i hge
    have hdiv : n / wordBits = (n - wordBits) / wordBits + 1 := by
      unfold wordBits at hge ⊢
      omega
    have hmod : (n - wordBits) % wordBits = n % wordBits := by
      unfold wordBits at hge ⊢
      omega
    rw [hdiv, hmod]
    rfl

lemma bfGetBit_of_length_le (h : bits.length * wordBits ≤ n) : bfGetBit bits n = false := by
  have hword : bits.length ≤ n / wordBits := (Nat.le_div_iff_mul_le (by decide)).mpr h
  rw [bfGetBit_eq, List.getD_eq_getElem?_getD, List.getElem?_eq_none hword]
  simp

/-! ## The first free bit -/

lemma ctzl_spec {val : Word} (h : val ≠ 0) : ctzl val < wordBits ∧ val.getLsbD (ctzl val) = true ∧
      ∀ j < ctzl val, val.getLsbD j = false := by
  unfold ctzl
  cases hfind : (List.range wordBits).find? val.getLsbD with
  | none =>
    refine absurd (BitVec.eq_of_getLsbD_eq fun i hi => ?_) h
    have hnot := List.find?_eq_none.mp hfind i (List.mem_range.mpr hi)
    simpa using hnot
  | some i =>
    obtain ⟨hi, hmem, hbelow⟩ := List.find?_range_eq_some.mp hfind
    refine ⟨List.mem_range.mp hmem, hi, fun j hj => ?_⟩
    simpa using hbelow j hj

lemma bfFirstFree_eq_some (h : bfFirstFree bits = some n) :
    n < bits.length * wordBits ∧ bfGetBit bits n = false ∧ ∀ j < n, bfGetBit bits j = true := by
  induction bits generalizing n with
  | nil => cases h
  | cons w bits ih =>
    unfold bfFirstFree at h
    rw [List.length_cons, Nat.add_mul]
    split at h
    · rename_i hfull
      obtain ⟨k, hk, rfl⟩ := Option.map_eq_some_iff.mp h
      obtain ⟨hlt, hfree, hbelow⟩ := ih hk
      refine ⟨by omega, ?_, fun j hj => ?_⟩
      · rw [bfGetBit_cons, if_neg (by omega), Nat.add_sub_cancel]
        exact hfree
      · rw [bfGetBit_cons]
        split
        · rename_i hjw
          rw [hfull, BitVec.getLsbD_allOnes]
          exact decide_eq_true hjw
        · exact hbelow _ (by omega)
    · rename_i hfree
      have hne : ~~~ w ≠ 0 := by
        intro hzero
        refine hfree (BitVec.eq_of_getLsbD_eq fun i hi => ?_)
        have hbit := congrArg (fun v => BitVec.getLsbD v i) hzero
        simp only [BitVec.getLsbD_not, hi, decide_true, Bool.true_and] at hbit
        rw [BitVec.getLsbD_allOnes, decide_eq_true hi]
        simpa using hbit
      obtain ⟨hlt, hset, hbelow⟩ := ctzl_spec hne
      cases h
      refine ⟨by omega, ?_, fun j hj => ?_⟩
      · rw [bfGetBit_cons, if_pos hlt]
        simpa only [BitVec.getLsbD_not, hlt, decide_true, Bool.true_and,
          Bool.not_eq_true'] using hset
      · have hjw : j < 64 := Nat.lt_trans hj hlt
        have hj' := hbelow j hj
        rw [bfGetBit_cons, if_pos hjw]
        simpa only [BitVec.getLsbD_not, hjw, decide_true, Bool.true_and,
          Bool.not_eq_false'] using hj'

lemma bfFirstFree_isSome (hn : n < bits.length * wordBits) (hfree : bfGetBit bits n = false) :
    ∃ k, bfFirstFree bits = some k := by
  induction bits generalizing n with
  | nil => exact absurd hn (by simp)
  | cons w bits ih =>
    unfold bfFirstFree
    split
    · rename_i hfull
      rw [bfGetBit_cons] at hfree
      split at hfree
      · rename_i hnw
        rw [hfull, BitVec.getLsbD_allOnes, decide_eq_true hnw] at hfree
        cases hfree
      · rw [List.length_cons, Nat.add_mul] at hn
        obtain ⟨k, hk⟩ := ih (by omega) hfree
        exact ⟨k + wordBits, by rw [hk]; rfl⟩
    · exact ⟨_, rfl⟩

lemma bfFirstFree_eq (hn : n < bits.length * wordBits) (hfree : bfGetBit bits n = false)
    (hbelow : ∀ j < n, bfGetBit bits j = true) : bfFirstFree bits = some n := by
  obtain ⟨k, hk⟩ := bfFirstFree_isSome hn hfree
  obtain ⟨-, hkfree, hkbelow⟩ := bfFirstFree_eq_some hk
  rcases Nat.lt_trichotomy k n with hlt | rfl | hgt
  · rw [hbelow k hlt] at hkfree
    cases hkfree
  · exact hk
  · rw [hkbelow n hgt] at hfree
    cases hfree

end SpaghettiOS.Cspace
