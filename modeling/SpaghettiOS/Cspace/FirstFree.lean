import SpaghettiOS.Cspace.Slots

/-!
# A field and what lies behind it

`bf_first_free` passes the words that are full, then inverts the word it stopped at, and only
then tests whether that was one of the field.  In a field without a free bit it is the word
behind the field.  Here the call is made on memory, with the words it reads.
-/

namespace SpaghettiOS.Cspace

/-- Word `i`, counted from the first one of the field. -/
def wordAt (bits : List Word) (behind : Nat → Word) (i : Nat) : Word := bits.getD i (behind i)

/-- The loop of `bf_first_free`: the counter in the end and the words that were read.  No turns
left means that it is still going. -/
def scan (bits : List Word) (behind : Nat → Word) : Nat → BitVec 32 → Option (BitVec 32 × List Nat)
  | 0, _ => none
  | turns + 1, i =>
      if i.toNat < bits.length then
        if wordAt bits behind i.toNat = BitVec.allOnes 64 then
          (scan bits behind turns (i + 1)).map fun r => (r.1, i.toNat :: r.2)
        else some (i, [i.toNat])
      else some (i, [])

/-- The words that a call reads, and its result unless the assertion fails. -/
structure FirstFreeCall where
  reads : List Nat
  result : Option Nat

/-- `bf_first_free`. -/
def firstFreeCall (bits : List Word) (behind : Nat → Word) (turns : Nat) : Option FirstFreeCall :=
  (scan bits behind turns 0).map fun r =>
    let i := r.1.toNat
    let val := ~~~ wordAt bits behind i
    ⟨r.2 ++ [i], if val = 0 then none
      else some (i * wordBits + if i < bits.length then ctzl val else 0)⟩

/-- The call returns `r` and reads nothing but the field. -/
def Finds (bits : List Word) (behind : Nat → Word) (r : Nat) : Prop :=
  ∃ turns call, firstFreeCall bits behind turns = some call ∧
    (∀ i ∈ call.reads, i < bits.length) ∧ call.result = some r

variable {r n : Nat}

section Scan

variable {bits : List Word} {behind : Nat → Word}

lemma wordAt_of_lt {i : Nat} (hi : i < bits.length) : wordAt bits behind i = bits[i] := by
  rw [wordAt, List.getD_eq_getElem?_getD, List.getElem?_eq_getElem hi, Option.getD_some]

lemma scan_mono {turns turns' : Nat} (hle : turns ≤ turns') {i : BitVec 32}
    {r : BitVec 32 × List Nat} (h : scan bits behind turns i = some r) :
    scan bits behind turns' i = some r := by
  induction turns generalizing turns' i r with
  | zero => cases h
  | succ turns ih =>
    obtain ⟨turns', rfl⟩ : ∃ k, turns' = k + 1 := ⟨turns' - 1, by omega⟩
    unfold scan at h ⊢
    split at h
    · rename_i hlt
      rw [if_pos hlt]
      split at h
      · rename_i hfull
        obtain ⟨r', hr', rfl⟩ := Option.map_eq_some_iff.mp h
        rw [if_pos hfull, ih (by omega) hr']
        rfl
      · rename_i hfree
        rw [if_neg hfree]
        exact h
    · rename_i hge
      rw [if_neg hge]
      exact h

lemma Finds.unique {r' : Nat} (h : Finds bits behind r) (h' : Finds bits behind r') : r = r' := by
  obtain ⟨turns, call, hcall, -, hr⟩ := h
  obtain ⟨turns', call', hcall', -, hr'⟩ := h'
  obtain ⟨x, hx, rfl⟩ := Option.map_eq_some_iff.mp hcall
  obtain ⟨x', hx', rfl⟩ := Option.map_eq_some_iff.mp hcall'
  obtain rfl : x = x' := Option.some.inj
    ((scan_mono (Nat.le_max_left turns turns') hx).symm.trans
      (scan_mono (Nat.le_max_right turns turns') hx'))
  exact Option.some.inj (hr.symm.trans hr')

lemma scan_full (hfull : ∀ w ∈ bits.take (2 ^ 32), w = BitVec.allOnes 64) {turns : Nat}
    {i : BitVec 32} {r : BitVec 32 × List Nat} (h : scan bits behind turns i = some r) :
    bits.length ≤ r.1.toNat := by
  induction turns generalizing i r with
  | zero => cases h
  | succ turns ih =>
    unfold scan at h
    split at h
    · rename_i hlt
      have hword : wordAt bits behind i.toNat = BitVec.allOnes 64 := by
        have hmem : bits[i.toNat] ∈ bits.take (2 ^ 32) :=
          List.mem_take_iff_getElem.mpr ⟨i.toNat, Nat.lt_min.mpr ⟨i.isLt, hlt⟩, rfl⟩
        rw [wordAt_of_lt hlt]
        exact hfull _ hmem
      rw [if_pos hword] at h
      obtain ⟨r', hr', rfl⟩ := Option.map_eq_some_iff.mp h
      exact ih (r := r') hr'
    · rename_i hge
      cases h
      exact Nat.le_of_not_lt hge

lemma not_of_ne_allOnes {w : Word} (h : w ≠ BitVec.allOnes 64) : ~~~ w ≠ 0 := fun hzero =>
  h (by rw [← BitVec.not_not (b := w), hzero]; rfl)

lemma scan_reaches (suf : List Word) (i r : Nat) (hdrop : bits.drop i = suf)
    (h : bfFirstFree (suf.take (2 ^ 32 - i)) = some r) :
    ∃ turns j reads, scan bits behind turns (BitVec.ofNat 32 i) = some (j, reads) ∧
      (∀ k ∈ reads, k < bits.length) ∧ j.toNat < bits.length ∧ ~~~ wordAt bits behind j.toNat ≠ 0 ∧
      i * wordBits + r = j.toNat * wordBits + ctzl (~~~ wordAt bits behind j.toNat) := by
  induction suf generalizing i r with
  | nil =>
    rw [List.take_nil] at h
    cases h
  | cons w suf ih =>
    have hlt : i < bits.length := by
      by_contra hge
      rw [List.drop_eq_nil_of_le (by omega)] at hdrop
      cases hdrop
    have hsmall : i < 2 ^ 32 := by
      by_contra hge
      rw [show 2 ^ 32 - i = 0 by omega, List.take_zero] at h
      cases h
    have hi : (BitVec.ofNat 32 i).toNat = i := by
      rw [BitVec.toNat_ofNat, Nat.mod_eq_of_lt hsmall]
    have hword : wordAt bits behind i = w := by
      rw [wordAt_of_lt hlt, ← List.head_drop (by rw [hdrop]; nofun)]
      simp only [hdrop, List.head_cons]
    rw [show 2 ^ 32 - i = (2 ^ 32 - (i + 1)) + 1 by omega, List.take_succ_cons, bfFirstFree] at h
    split at h
    · rename_i hfull
      obtain ⟨r', hr', rfl⟩ := Option.map_eq_some_iff.mp h
      have hdrop' : bits.drop (i + 1) = suf := by
        rw [← List.tail_drop, hdrop, List.tail_cons]
      obtain ⟨turns, j, reads, hscan, hreads, hj, hne, hsum⟩ := ih (i + 1) r' hdrop' hr'
      refine ⟨turns + 1, j, i :: reads, ?_, ?_, hj, hne, by rw [← hsum, Nat.succ_mul]; omega⟩
      · unfold scan
        rw [hi, if_pos hlt, hword, if_pos hfull,
          show BitVec.ofNat 32 i + 1 = BitVec.ofNat 32 (i + 1) by rw [BitVec.ofNat_add]; rfl, hscan]
        rfl
      · exact List.forall_mem_cons.mpr ⟨hlt, hreads⟩
    · rename_i hfree
      cases h
      refine ⟨1, BitVec.ofNat 32 i, [i], ?_, ?_, by rwa [hi], ?_, by rw [hi, hword]⟩
      · unfold scan
        rw [hi, if_pos hlt, hword, if_neg hfree]
      · exact List.forall_mem_singleton.mpr hlt
      · rw [hi, hword]
        exact not_of_ne_allOnes hfree

lemma bfFirstFree_eq_none (h : bfFirstFree bits = none) : ∀ w ∈ bits, w = BitVec.allOnes 64 := by
  induction bits with
  | nil => nofun
  | cons w bits ih =>
    unfold bfFirstFree at h
    split at h
    · rename_i hfull
      exact List.forall_mem_cons.mpr ⟨hfull, ih (Option.map_eq_none_iff.mp h)⟩
    · cases h

/-- The call that reads nothing but the field finds what `bfFirstFree` finds in the words that
the counter can reach. -/
lemma finds_iff : Finds bits behind r ↔ bfFirstFree (bits.take (2 ^ 32)) = some r := by
  have hfinds : ∀ r, bfFirstFree (bits.take (2 ^ 32)) = some r → Finds bits behind r := by
    intro r h
    obtain ⟨turns, j, reads, hscan, hreads, hj, hne, hsum⟩ :=
      scan_reaches bits 0 r rfl h
    refine ⟨turns, ⟨reads ++ [j.toNat], some r⟩, ?_, ?_, rfl⟩
    · unfold firstFreeCall
      rw [show (0 : BitVec 32) = BitVec.ofNat 32 0 from rfl, hscan]
      simp only [Option.map_some, if_neg hne, if_pos hj, ← hsum, Nat.zero_mul, Nat.zero_add]
    · rintro k hk
      rcases List.mem_append.mp hk with hk | hk
      · exact hreads k hk
      · rw [List.mem_singleton.mp hk]
        exact hj
  refine ⟨fun h => ?_, hfinds r⟩
  cases hfirst : bfFirstFree (bits.take (2 ^ 32)) with
  | some r' => rw [h.unique (hfinds r' hfirst)]
  | none =>
    obtain ⟨turns, call, hcall, hreads, -⟩ := h
    obtain ⟨x, hx, rfl⟩ := Option.map_eq_some_iff.mp hcall
    have hend := scan_full (bfFirstFree_eq_none hfirst) hx
    exact absurd (hreads x.1.toNat (by simp)) (Nat.not_lt.mpr hend)

end Scan

/-! ## When the first free bit is found -/

/-- The least index of a bit that is clear, and the number of bits if all are set. -/
structure FirstFree (bits : List Word) (r : Nat) : Prop where
  least : ∀ n < bits.length * wordBits, bfGetBit bits n = false → bfGetBit bits r = false ∧ r ≤ n
  full : (∀ n < bits.length * wordBits, bfGetBit bits n = true) → r = bits.length * wordBits

/-- The first free bit is found without reading beyond the field, and from it the next one; and
a cspace with one level that has this field and no free slot says so. -/
structure LeastFree (bits : List Word) (behind : Nat → Word) : Prop where
  first : ∃ r, Finds bits behind r ∧ FirstFree bits r
  next : (∃ n < bits.length * wordBits, bfGetBit bits n = false) →
    ∃ r r', Finds bits behind r ∧ Finds (bfSetBit bits r) behind r' ∧ r < r'
  cspace : (∀ n < bits.length * wordBits, bfGetBit bits n = true) →
    ∀ cs : CsState, cs.twoLevel = false → cs.topBf = bits → cspaceAllocSlot cs = .done 0 cs

section LeastFree

variable {bits : List Word} {behind : Nat → Word}

lemma bfGetBit_take (hn : n < 2 ^ 32 * wordBits) :
    bfGetBit (bits.take (2 ^ 32)) n = bfGetBit bits n := by
  have hword : n / wordBits < 2 ^ 32 := Nat.div_lt_of_lt_mul (by rwa [Nat.mul_comm])
  rw [bfGetBit_eq, bfGetBit_eq, List.getD_eq_getElem?_getD, List.getD_eq_getElem?_getD,
    List.getElem?_take_of_lt hword]

def ClearWithin (bits : List Word) (n : Nat) : Prop :=
  n < bits.length * wordBits ∧ n < 2 ^ 32 * wordBits ∧ bfGetBit bits n = false

lemma lt_length_take : n < (bits.take (2 ^ 32)).length * wordBits ↔
    n < bits.length * wordBits ∧ n < 2 ^ 32 * wordBits := by
  rw [List.length_take]
  unfold wordBits
  omega

lemma Finds.clear (h : Finds bits behind r) :
    ClearWithin bits r ∧ ∀ j < r, bfGetBit bits j = true := by
  obtain ⟨hlt, hfree, hbelow⟩ := bfFirstFree_eq_some (finds_iff.mp h)
  obtain ⟨hlt, hsmall⟩ := lt_length_take.mp hlt
  rw [bfGetBit_take hsmall] at hfree
  refine ⟨⟨hlt, hsmall, hfree⟩, fun j hj => ?_⟩
  rw [← bfGetBit_take (Nat.lt_trans hj hsmall)]
  exact hbelow j hj

lemma ClearWithin.finds (h : ClearWithin bits n) (behind : Nat → Word) :
    ∃ r, Finds bits behind r := by
  obtain ⟨hlt, hsmall, hfree⟩ := h
  rw [← bfGetBit_take hsmall] at hfree
  obtain ⟨r, hr⟩ := bfFirstFree_isSome (lt_length_take.mpr ⟨hlt, hsmall⟩) hfree
  exact ⟨r, finds_iff.mpr hr⟩

lemma clearWithin_set (hr : ClearWithin bits r) :
    ClearWithin (bfSetBit bits r) n ↔ ClearWithin bits n ∧ n ≠ r := by
  unfold ClearWithin
  rw [length_bfSetBit, bfGetBit_set hr.1, Bool.or_eq_false_iff, decide_eq_false_iff_not]
  tauto

lemma Finds.le (h : Finds bits behind r) (hfree : bfGetBit bits n = false) : r ≤ n := by
  by_contra hlt
  rw [h.clear.2 n (by omega)] at hfree
  cases hfree

lemma LeastFree.twoClear (h : LeastFree bits behind) :
    ∃ n k, n < k ∧ ClearWithin bits n ∧ ClearWithin bits k := by
  obtain ⟨r, hr, -⟩ := h.first
  obtain ⟨r, r', hr, hr', hlt⟩ := h.next ⟨r, hr.clear.1.1, hr.clear.1.2.2⟩
  exact ⟨r, r', hlt, hr.clear.1, ((clearWithin_set hr.clear.1).mp hr'.clear.1).1⟩

/-- The first free bit is found, and so is the one after it, exactly if there are two that the
counter can reach. -/
theorem first_free_least_iff (bits : List Word) (behind : Nat → Word) :
    LeastFree bits behind ↔ ∃ n k, n < k ∧ ClearWithin bits n ∧ ClearWithin bits k := by
  constructor
  · exact LeastFree.twoClear
  · rintro ⟨n, k, hnk, hn, hk⟩
    obtain ⟨r, hr⟩ := hn.finds behind
    have hclear := hr.clear.1
    refine ⟨⟨r, hr, fun n _ hfree => ⟨hclear.2.2, hr.le hfree⟩, fun hfull => ?_⟩, fun _ => ?_,
      fun hfull => ?_⟩
    · exact absurd (hfull n hn.1) (by rw [hn.2.2]; decide)
    · have hrk : k ≠ r := by
        have hle := hr.le hn.2.2
        omega
      obtain ⟨r', hr'⟩ := ((clearWithin_set hclear).mpr ⟨hk, hrk⟩).finds behind
      obtain ⟨hclear', hne⟩ := (clearWithin_set hclear).mp hr'.clear.1
      exact ⟨r, r', hr, hr', Nat.lt_of_le_of_ne (hr.le hclear'.2.2) hne.symm⟩
    · exact absurd (hfull n hn.1) (by rw [hn.2.2]; decide)

def noSlots : CsState :=
  { CsState.blank false with topBf := List.replicate 2 (BitVec.allOnes 64) }

/-- In a full field the word behind it is read, and the assertion fails if that is full too.  The
same happens once the last free bit has been set. -/
theorem full_field_read_beyond :
    firstFreeCall [BitVec.allOnes 64] (fun _ => 0) 2 = some ⟨[0, 1], some 64⟩ ∧
      firstFreeCall [BitVec.allOnes 64] (fun _ => BitVec.allOnes 64) 2 = some ⟨[0, 1], none⟩ ∧
      cspaceAllocSlot noSlots = .fail .fieldFull ∧
      (∀ behind, ¬ LeastFree [BitVec.allOnes 64] behind) ∧
      ∀ behind, ¬ LeastFree [BitVec.allOnes 64 - 1] behind := by
  have hone : ∀ n, ClearWithin [BitVec.allOnes 64 - 1] n → n = 0 := by
    rintro n ⟨hlt, -, hfree⟩
    have hall : ∀ n < 64, bfGetBit [BitVec.allOnes 64 - 1] n = false → n = 0 := by decide
    exact hall n hlt hfree
  refine ⟨rfl, rfl, rfl, fun behind h => ?_, fun behind h => ?_⟩
  · obtain ⟨n, -, -, ⟨hlt, -, hfree⟩, -⟩ := h.twoClear
    have hall : ∀ n < 64, bfGetBit [BitVec.allOnes 64] n = true := by decide
    rw [hall n hlt] at hfree
    cases hfree
  · obtain ⟨n, k, hlt, hn, hk⟩ := h.twoClear
    rw [hone n hn, hone k hk] at hlt
    cases hlt

end LeastFree

end SpaghettiOS.Cspace
