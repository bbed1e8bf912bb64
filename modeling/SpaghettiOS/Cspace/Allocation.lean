import Mathlib.Data.Nat.Find
import SpaghettiOS.Cspace.Slots

/-!
# Allocation of slots

What a cspace is for: of the slots that are usable and not taken, `cspace_alloc_slot` takes
the lowest one, and `cspace_free_slot` gives one back.  With two levels the last slot of each
cnode is not usable, and a bit of the upper field is set exactly if its cnode has no other
free slot.
-/

namespace SpaghettiOS.Cspace

open Coro (bind_apply get_apply modify_apply pure_apply)
open Function (update_of_ne update_self)
open Coroutine (Res)

/-! ## Indices -/

lemma cnodeSlots_cnodeSizeBits : cnodeSlots cnodeSizeBits = 128 := rfl

lemma botLvlPerNode_eq : botLvlPerNode = 169 := rfl

lemma shift_eq (t : Nat) : t <<< cnodeSlotBits cnodeSizeBits = t * 128 := Nat.shiftLeft_eq ..

lemma topLvlIndex_eq (c : Nat) : topLvlIndex c = c / 128 := Nat.shiftRight_eq_div_pow ..

lemma botLvlIndex_eq (c : Nat) : botLvlIndex c = c % 128 := Nat.and_two_pow_sub_one_eq_mod c 7

def CsState.field (cs : CsState) (t : Nat) : List Word :=
  (cs.botLvlNodes (t / botLvlPerNode)).bf (t % botLvlPerNode)

variable {t b c : Nat}

lemma index_eq_iff {u : Nat} :
    t = u ↔ t / botLvlPerNode = u / botLvlPerNode ∧ t % botLvlPerNode = u % botLvlPerNode := by
  rw [botLvlPerNode_eq]
  omega

def CsState.setFieldOf (cs : CsState) (t : Nat) (bf : List Word) : CsState :=
  cs.setField (t / botLvlPerNode) (t % botLvlPerNode) bf

lemma field_setFieldOf (cs : CsState) (t u : Nat) (bf : List Word) :
    (cs.setFieldOf t bf).field u = if u = t then bf else cs.field u := by
  unfold CsState.field CsState.setFieldOf CsState.setField
  by_cases hdiv : u / botLvlPerNode = t / botLvlPerNode
  · simp only [hdiv, update_self]
    by_cases hmod : u % botLvlPerNode = t % botLvlPerNode
    · rw [if_pos (index_eq_iff.mpr ⟨hdiv, hmod⟩), hmod, update_self]
    · rw [if_neg fun h : u = t => hmod (by rw [h]), update_of_ne hmod]
  · simp only [update_of_ne hdiv]
    rw [if_neg fun h : u = t => hdiv (by rw [h])]

lemma nCnodes_setFieldOf (cs : CsState) (t : Nat) (bf : List Word) (j : Nat) :
    ((cs.setFieldOf t bf).botLvlNodes j).nCnodes = (cs.botLvlNodes j).nCnodes := by
  unfold CsState.setFieldOf CsState.setField
  by_cases hj : j = t / botLvlPerNode
  · simp only [hj, update_self]
  · simp only [update_of_ne hj]

/-! ## What the levels say -/

structure OneLevel (cs : CsState) : Prop where
  level : cs.twoLevel = false
  size : cs.topBf.length * wordBits = cnodeSlots cs.topLvlSizeBits

structure TwoLevel (cs : CsState) (n : Nat) : Prop where
  level : cs.twoLevel = true
  size : cs.topBf.length * wordBits = cnodeSlots cs.topLvlSizeBits
  cnodes : ∀ j < cs.nBotLvlNodes,
    (cs.botLvlNodes j).nCnodes = min botLvlPerNode (n - botLvlPerNode * j)
  room : n ≤ botLvlPerNode * cs.nBotLvlNodes
  bound : n ≤ cnodeSlots cs.topLvlSizeBits
  length : ∀ t < botLvlPerNode * cs.nBotLvlNodes, (cs.field t).length = 2
  unused : ∀ t, n ≤ t → t < botLvlPerNode * cs.nBotLvlNodes → ∀ b, bfGetBit (cs.field t) b = false
  last : ∀ t < n, bfGetBit (cs.field t) 127 = false
  full : ∀ t < cnodeSlots cs.topLvlSizeBits,
    (bfGetBit cs.topBf t = true ↔ t < n ∧ ∀ b < 127, bfGetBit (cs.field t) b = true)

/-- What is left of that if slots were recorded as used otherwise than by allocation: the last
bit of a cnode may be set, and an upper bit only stands for a cnode that is there. -/
structure Levels (cs : CsState) (n : Nat) : Prop where
  level : cs.twoLevel = true
  size : cs.topBf.length * wordBits = cnodeSlots cs.topLvlSizeBits
  cnodes : ∀ j < cs.nBotLvlNodes,
    (cs.botLvlNodes j).nCnodes = min botLvlPerNode (n - botLvlPerNode * j)
  room : n ≤ botLvlPerNode * cs.nBotLvlNodes
  length : ∀ t < botLvlPerNode * cs.nBotLvlNodes, (cs.field t).length = 2
  unused : ∀ t, n ≤ t → t < botLvlPerNode * cs.nBotLvlNodes → ∀ b, bfGetBit (cs.field t) b = false
  top : ∀ t < cnodeSlots cs.topLvlSizeBits, bfGetBit cs.topBf t = true → t < n

lemma TwoLevel.levels {cs : CsState} {n : Nat} (h : TwoLevel cs n) : Levels cs n :=
  ⟨h.level, h.size, h.cnodes, h.room, h.length, h.unused,
    fun t ht hset => ((h.full t ht).mp hset).1⟩

lemma Levels.missing_iff {cs : CsState} {n : Nat} (h : Levels cs n) (t : Nat) :
    (cs.nBotLvlNodes ≤ t / botLvlPerNode ∨
      (cs.botLvlNodes (t / botLvlPerNode)).nCnodes ≤ t % botLvlPerNode) ↔ n ≤ t := by
  have hroom := h.room
  by_cases hnode : cs.nBotLvlNodes ≤ t / botLvlPerNode
  · have hmul : botLvlPerNode * cs.nBotLvlNodes ≤ t :=
      Nat.le_trans (Nat.mul_le_mul_left _ hnode) (Nat.mul_div_le t _)
    exact ⟨fun _ => Nat.le_trans hroom hmul, fun _ => .inl hnode⟩
  · rw [h.cnodes _ (by omega)]
    rw [botLvlPerNode_eq] at hnode ⊢
    omega

def CsState.Usable (cs : CsState) (c : Nat) : Prop :=
  if cs.twoLevel then c / 128 < cnodeSlots cs.topLvlSizeBits ∧ c % 128 < 127
  else c < cnodeSlots cs.topLvlSizeBits

def CsState.Present (cs : CsState) (c : Nat) : Prop :=
  cs.twoLevel = true → c / 128 / botLvlPerNode < cs.nBotLvlNodes ∧
      c / 128 % botLvlPerNode < (cs.botLvlNodes (c / 128 / botLvlPerNode)).nCnodes

def CsState.Taken (cs : CsState) (c : Nat) : Prop :=
  cs.Present c ∧ if cs.twoLevel then bfGetBit (cs.field (c / 128)) (c % 128) = true
    else bfGetBit cs.topBf c = true

/-- The lowest slot that can be handed out and is not taken. -/
structure CsState.Lowest (cs : CsState) (c : Nat) : Prop where
  usable : cs.Usable c
  free : ¬ cs.Taken c
  below : ∀ d < c, cs.Usable d → cs.Taken d

def Sound (cs : CsState) : Prop := OneLevel cs ∨ ∃ n, TwoLevel cs n

section Reading

variable {cs : CsState} {n : Nat}

lemma Levels.present_iff (h : Levels cs n) (c : Nat) : cs.Present c ↔ c / 128 < n := by
  have hmissing := h.missing_iff (c / 128)
  unfold CsState.Present
  constructor
  · intro hp
    obtain ⟨hnode, hcnode⟩ := hp h.level
    by_contra hge
    rcases hmissing.mpr (by omega) with hlt | hlt <;> omega
  · intro hlt _
    by_contra hnot
    have hn := hmissing.mp (by omega)
    omega

lemma TwoLevel.present_iff (h : TwoLevel cs n) (c : Nat) : cs.Present c ↔ c / 128 < n :=
  h.levels.present_iff c

lemma Levels.taken_iff (h : Levels cs n) (c : Nat) :
    cs.Taken c ↔ c / 128 < n ∧ bfGetBit (cs.field (c / 128)) (c % 128) = true := by
  unfold CsState.Taken
  rw [h.present_iff, if_pos h.level]

lemma TwoLevel.taken_iff (h : TwoLevel cs n) (c : Nat) :
    cs.Taken c ↔ c / 128 < n ∧ bfGetBit (cs.field (c / 128)) (c % 128) = true :=
  h.levels.taken_iff c

lemma TwoLevel.usable_iff (h : TwoLevel cs n) (c : Nat) :
    cs.Usable c ↔ c / 128 < cnodeSlots cs.topLvlSizeBits ∧ c % 128 < 127 := by
  unfold CsState.Usable
  rw [if_pos h.level]

lemma OneLevel.present (h : OneLevel cs) (c : Nat) : cs.Present c := by
  intro htwo
  rw [h.level] at htwo
  cases htwo

lemma OneLevel.taken_iff (h : OneLevel cs) (c : Nat) : cs.Taken c ↔ bfGetBit cs.topBf c = true := by
  have hone : ¬ cs.twoLevel = true := by rw [h.level]; decide
  unfold CsState.Taken
  rw [if_neg hone]
  exact and_iff_right (h.present c)

lemma OneLevel.usable_iff (h : OneLevel cs) (c : Nat) :
    cs.Usable c ↔ c < cnodeSlots cs.topLvlSizeBits := by
  have hone : ¬ cs.twoLevel = true := by rw [h.level]; decide
  unfold CsState.Usable
  rw [if_neg hone]

lemma TwoLevel.room_of_lt (h : TwoLevel cs n) (ht : t < n) :
    t < botLvlPerNode * cs.nBotLvlNodes := Nat.lt_of_lt_of_le ht h.room

lemma TwoLevel.lowest_iff (h : TwoLevel cs n) (hb : b < 128) (hlt : t < n) :
    cs.Lowest (t * 128 + b) ↔ bfFirstFree cs.topBf = some t ∧
      bfFirstFree (cs.field t) = some b ∧ b < 127 := by
  have hdiv : (t * 128 + b) / 128 = t := by omega
  have hmod : (t * 128 + b) % 128 = b := by omega
  have hlen := h.length t (h.room_of_lt hlt)
  have htop : t < cnodeSlots cs.topLvlSizeBits := Nat.lt_of_lt_of_le hlt h.bound
  constructor
  · rintro ⟨husable, hfree, hbelow⟩
    rw [h.usable_iff, hdiv, hmod] at husable
    rw [h.taken_iff, hdiv, hmod] at hfree
    have hbit : bfGetBit (cs.field t) b = false := by
      simpa using fun hset => hfree ⟨hlt, hset⟩
    refine ⟨bfFirstFree_eq (h.size ▸ htop) ?_ fun u hu => ?_, bfFirstFree_eq ?_ hbit fun d hd => ?_,
      husable.2⟩
    · rw [Bool.eq_false_iff]
      intro hset
      rw [((h.full t htop).mp hset).2 b husable.2] at hbit
      cases hbit
    · refine (h.full u (by omega)).mpr ⟨by omega, fun d hd => ?_⟩
      have htaken := hbelow (u * 128 + d) (by omega) (by rw [h.usable_iff]; omega)
      rw [h.taken_iff] at htaken
      rw [show (u * 128 + d) / 128 = u by omega, show (u * 128 + d) % 128 = d by omega] at htaken
      exact htaken.2
    · rw [hlen]
      exact hb
    · have htaken := hbelow (t * 128 + d) (by omega) (by rw [h.usable_iff]; omega)
      rw [h.taken_iff] at htaken
      rw [show (t * 128 + d) / 128 = t by omega, show (t * 128 + d) % 128 = d by omega] at htaken
      exact htaken.2
  · rintro ⟨htopfree, hfieldfree, hb'⟩
    obtain ⟨-, -, htopbelow⟩ := bfFirstFree_eq_some htopfree
    obtain ⟨-, hbit, hbelow⟩ := bfFirstFree_eq_some hfieldfree
    refine ⟨?_, ?_, fun d hd husable => ?_⟩
    · rw [h.usable_iff, hdiv, hmod]
      exact ⟨htop, hb'⟩
    · rw [h.taken_iff, hdiv, hmod, hbit]
      simp
    · rw [h.usable_iff] at husable
      rw [h.taken_iff]
      by_cases hsame : d / 128 = t
      · refine ⟨by omega, ?_⟩
        rw [hsame]
        exact hbelow _ (by omega)
      · have hset := htopbelow (d / 128) (by omega)
        obtain ⟨hn, hall⟩ := (h.full _ husable.1).mp hset
        exact ⟨hn, hall _ husable.2⟩

lemma OneLevel.lowest_iff (h : OneLevel cs) : cs.Lowest c ↔ bfFirstFree cs.topBf = some c := by
  constructor
  · rintro ⟨husable, hfree, hbelow⟩
    rw [h.usable_iff] at husable
    rw [h.taken_iff, Bool.not_eq_true] at hfree
    refine bfFirstFree_eq (h.size ▸ husable) hfree fun d hd => ?_
    exact (h.taken_iff d).mp (hbelow d hd ((h.usable_iff d).mpr (by omega)))
  · intro hfirst
    obtain ⟨hlt, hfree, hbelow⟩ := bfFirstFree_eq_some hfirst
    rw [h.size] at hlt
    refine ⟨(h.usable_iff c).mpr hlt, ?_, fun d hd _ => (h.taken_iff d).mpr (hbelow d hd)⟩
    rw [h.taken_iff, hfree]
    simp

end Reading

/-! ## A slot is taken -/

structure Same (cs cs' : CsState) : Prop where
  usable : ∀ c, cs'.Usable c ↔ cs.Usable c
  present : ∀ c, cs'.Present c ↔ cs.Present c

section Taking

variable {cs : CsState} {n : Nat}

def CsState.mark (cs : CsState) (t b : Nat) : CsState :=
  let bf := bfSetBit (cs.field t) b
  if (bfFirstFree bf).any fun next => next ≥ cnodeSlots cnodeSizeBits - 1 then
    { cs.setFieldOf t bf with topBf := bfSetBit cs.topBf t }
  else cs.setFieldOf t bf

lemma field_mark (cs : CsState) (t b u : Nat) :
    (cs.mark t b).field u = if u = t then bfSetBit (cs.field t) b else cs.field u := by
  unfold CsState.mark
  dsimp only
  split
  · exact field_setFieldOf cs t u _
  · exact field_setFieldOf cs t u _

lemma mark_rest (cs : CsState) (t b : Nat) :
    (cs.mark t b).twoLevel = cs.twoLevel ∧ (cs.mark t b).topLvlSizeBits = cs.topLvlSizeBits ∧
      (cs.mark t b).nBotLvlNodes = cs.nBotLvlNodes ∧
      (∀ j, ((cs.mark t b).botLvlNodes j).nCnodes = (cs.botLvlNodes j).nCnodes) ∧
      (cs.mark t b).topBf.length = cs.topBf.length := by
  unfold CsState.mark
  dsimp only
  split
  · exact ⟨rfl, rfl, rfl, nCnodes_setFieldOf cs t _, length_bfSetBit ..⟩
  · exact ⟨rfl, rfl, rfl, nCnodes_setFieldOf cs t _, rfl⟩

/-- The last bit of a field is never set, so that the search for a free bit succeeds. -/
lemma TwoLevel.next_exists (h : TwoLevel cs n) (ht : t < n) (hb : b < 127) :
    ∃ next, bfFirstFree (bfSetBit (cs.field t) b) = some next := by
  have hlen : (cs.field t).length = 2 := h.length t (h.room_of_lt ht)
  have hlast : bfGetBit (bfSetBit (cs.field t) b) 127 = false := by
    rw [bfGetBit_set (by rw [hlen]; unfold wordBits; omega), h.last t ht]
    simp
    omega
  have hroom : 127 < (bfSetBit (cs.field t) b).length * wordBits := by
    rw [length_bfSetBit, hlen]
    decide
  exact bfFirstFree_isSome hroom hlast

/-- The upper bit is set when the last usable slot has been taken. -/
lemma TwoLevel.mark_top (h : TwoLevel cs n) (ht : t < n) (hb : b < 127) (u : Nat) :
    bfGetBit (cs.mark t b).topBf u = true ↔ bfGetBit cs.topBf u = true ∨
      u = t ∧ ∀ d < 127, bfGetBit (bfSetBit (cs.field t) b) d = true := by
  obtain ⟨next, hnext⟩ := h.next_exists ht hb
  obtain ⟨hlt, hfree, hbelow⟩ := bfFirstFree_eq_some hnext
  have htop : t < cs.topBf.length * wordBits := by
    rw [h.size]
    exact Nat.lt_of_lt_of_le ht h.bound
  have hfull : next ≥ 127 ↔ ∀ d < 127, bfGetBit (bfSetBit (cs.field t) b) d = true := by
    constructor
    · exact fun hge d hd => hbelow d (by omega)
    · intro hall
      by_contra hlt'
      rw [hall next (by omega)] at hfree
      cases hfree
  unfold CsState.mark
  simp only [hnext, Option.any_some, cnodeSlots_cnodeSizeBits]
  split
  · rename_i hge
    simp only [bfGetBit_set htop, Bool.or_eq_true, decide_eq_true_eq]
    exact or_congr_right (and_iff_left (hfull.mp (of_decide_eq_true hge))).symm
  · rename_i hlt'
    refine ⟨.inl, ?_⟩
    rintro (hset | ⟨-, hall⟩)
    · exact hset
    · exact absurd (decide_eq_true (hfull.mpr hall)) hlt'

lemma Levels.setFieldOf (h : Levels cs n) (ht : t < n) {bf : List Word} (hlen : bf.length = 2) :
    Levels (cs.setFieldOf t bf) n := by
  refine ⟨h.level, h.size, fun j hj => ?_, h.room, fun u hu => ?_, fun u hu hu' d => ?_, h.top⟩
  · rw [nCnodes_setFieldOf]
    exact h.cnodes j hj
  · rw [field_setFieldOf]
    split
    · exact hlen
    · exact h.length u hu
  · rw [field_setFieldOf, if_neg (by omega)]
    exact h.unused u hu hu' d

lemma Levels.setTop (h : Levels cs n) (ht : t < n) :
    Levels { cs with topBf := bfSetBit cs.topBf t } n := by
  refine { h with size := by rw [length_bfSetBit]; exact h.size, top := fun u hu hset => ?_ }
  by_contra hge
  have hu' : u < cnodeSlots cs.topLvlSizeBits := hu
  refine hge (h.top u hu' ?_)
  have htop : t < cs.topBf.length * wordBits := by
    rw [h.size]
    omega
  simp only [bfGetBit_set htop] at hset
  rwa [decide_eq_false (by omega), Bool.or_false] at hset

lemma Levels.mark (h : Levels cs n) (ht : t < n) (b : Nat) : Levels (cs.mark t b) n := by
  have hlen : (bfSetBit (cs.field t) b).length = 2 := by
    rw [length_bfSetBit]
    exact h.length t (Nat.lt_of_lt_of_le ht h.room)
  unfold CsState.mark
  dsimp only
  split
  · exact (h.setFieldOf ht hlen).setTop ht
  · exact h.setFieldOf ht hlen

lemma TwoLevel.mark (h : TwoLevel cs n) (ht : t < n) (hb : b < 127) : TwoLevel (cs.mark t b) n := by
  obtain ⟨-, hbits, -, -, -⟩ := mark_rest cs t b
  have hbit : ∀ d, bfGetBit (bfSetBit (cs.field t) b) d =
      (bfGetBit (cs.field t) d || decide (d = b)) := fun d =>
    bfGetBit_set (by rw [h.length t (h.room_of_lt ht)]; unfold wordBits; omega) d
  have hlevels := h.levels.mark ht b
  refine ⟨hlevels.level, hlevels.size, hlevels.cnodes, hlevels.room, hbits ▸ h.bound,
    hlevels.length, hlevels.unused, fun u hu => ?_, fun u hu => ?_⟩
  · rw [field_mark]
    split
    · rw [hbit, h.last t ht]
      simp
      omega
    · exact h.last u hu
  · rw [hbits] at hu
    rw [h.mark_top ht hb, h.full u hu, field_mark]
    by_cases hut : u = t
    · subst hut
      simp only [true_and, if_true]
      constructor
      · rintro (⟨-, hall⟩ | hall)
        · refine ⟨ht, fun d hd => ?_⟩
          rw [hbit, hall d hd]
          rfl
        · exact ⟨ht, hall⟩
      · exact fun hall => .inr hall.2
    · simp only [hut, false_and, or_false, if_false]

lemma Same.mark (h : TwoLevel cs n) (ht : t < n) (hb : b < 127) : Same cs (cs.mark t b) := by
  have h' := h.mark ht hb
  refine ⟨fun c => ?_, fun c => ?_⟩
  · rw [h.usable_iff, h'.usable_iff, (mark_rest cs t b).2.1]
  · rw [h.present_iff, h'.present_iff]

lemma TwoLevel.taken_mark (h : TwoLevel cs n) (ht : t < n) (hb : b < 127) (c : Nat) :
    (cs.mark t b).Taken c ↔ cs.Taken c ∨ c = t * 128 + b := by
  rw [h.taken_iff, (h.mark ht hb).taken_iff, field_mark]
  by_cases hc : c / 128 = t
  · rw [if_pos hc, bfGetBit_set (by rw [h.length t (h.room_of_lt ht)]; unfold wordBits; omega), hc]
    simp only [ht, true_and, Bool.or_eq_true, decide_eq_true_eq]
    exact or_congr_right (by omega)
  · rw [if_neg hc]
    exact (or_iff_left (by omega)).symm

end Taking

structure Takes (cs cs' : CsState) (c : Nat) : Prop where
  sound : Sound cs'
  same : Same cs cs'
  taken : ∀ x, cs'.Taken x ↔ cs.Taken x ∨ x = c

section Present

variable {cs : CsState} {n : Nat}

lemma nodeIndex_mul (t : Nat) : nodeIndex (t * 128) = t / botLvlPerNode := by
  rw [nodeIndex, cnodeSlots_cnodeSizeBits, Nat.mul_div_cancel t (by decide)]

lemma cnodeIndex_mul (t : Nat) : cnodeIndex (t * 128) = t % botLvlPerNode := by
  rw [cnodeIndex, cnodeSlots_cnodeSizeBits, Nat.mul_div_cancel t (by decide)]

lemma takeSlot_eq {next : Nat} (hfirst : bfFirstFree (cs.field t) = some b)
    (hnext : bfFirstFree (bfSetBit (cs.field t) b) = some next) (allocSlot : CsM Nat)
    (used : Word) : takeSlot allocSlot t used cs =
      (refillWatermark allocSlot used (cs.mark t b)).bind fun _ s => .done (t * 128 + b) s := by
  have hfield : (cs.botLvlNodes (t / botLvlPerNode)).bf (t % botLvlPerNode) = cs.field t := rfl
  unfold takeSlot
  simp only [shift_eq, nodeIndex_mul, cnodeIndex_mul, hfield, bind_apply, get_apply,
    modify_apply, Coro.ofOption, hfirst, hnext, pure_apply, Res.bind]
  unfold CsState.mark
  simp only [hnext, Option.any_some, decide_eq_true_eq]
  split
  · rfl
  · rfl

lemma takeSlot_cases (cs : CsState) (t : Nat) (allocSlot : CsM Nat) (used : Word) :
    takeSlot allocSlot t used cs = .fail .fieldFull ∨ ∃ b, bfFirstFree (cs.field t) = some b ∧
        takeSlot allocSlot t used cs =
          (refillWatermark allocSlot used (cs.mark t b)).bind fun _ s => .done (t * 128 + b) s := by
  have hfield : (cs.botLvlNodes (t / botLvlPerNode)).bf (t % botLvlPerNode) = cs.field t := rfl
  cases hfirst : bfFirstFree (cs.field t) with
  | none =>
    left
    unfold takeSlot
    simp only [shift_eq, nodeIndex_mul, cnodeIndex_mul, hfield, bind_apply, get_apply,
      Coro.ofOption, hfirst, Res.bind]
    rfl
  | some b =>
    cases hnext : bfFirstFree (bfSetBit (cs.field t) b) with
    | none =>
      left
      unfold takeSlot
      simp only [shift_eq, nodeIndex_mul, cnodeIndex_mul, hfield, bind_apply,
        get_apply, modify_apply, Coro.ofOption, hfirst, hnext, pure_apply, Res.bind]
      rfl
    | some next => exact .inr ⟨b, rfl, takeSlot_eq hfirst hnext allocSlot used⟩

lemma TwoLevel.takeSlot_eq (h : TwoLevel cs n) (ht : t < n) (hb : b < 127)
    (hfirst : bfFirstFree (cs.field t) = some b) (allocSlot : CsM Nat) (used : Word) :
    takeSlot allocSlot t used cs =
      (refillWatermark allocSlot used (cs.mark t b)).bind fun _ s => .done (t * 128 + b) s := by
  obtain ⟨next, hnext⟩ := h.next_exists ht hb
  exact Cspace.takeSlot_eq hfirst hnext allocSlot used

lemma refillWatermark_zero (allocSlot : CsM Nat) (cs : CsState) :
    refillWatermark allocSlot 0 cs = .done ⟨⟩ cs := rfl

lemma Levels.alloc_there (h : Levels cs n) (htop : bfFirstFree cs.topBf = some t) (ht : t < n)
    (depth : Nat) : allocSlotBelow (depth + 1) cs = takeSlot (allocSlotBelow depth) t 0 cs := by
  have hbound : t < cnodeSlots cs.topLvlSizeBits := h.size ▸ (bfFirstFree_eq_some htop).1
  have hthere : ¬ (cs.nBotLvlNodes ≤ t / botLvlPerNode ∨
      (cs.botLvlNodes (t / botLvlPerNode)).nCnodes ≤ t % botLvlPerNode) :=
    fun hmissing => absurd ((h.missing_iff _).mp hmissing) (by omega)
  conv_lhs => unfold allocSlotBelow
  simp only [bind_apply, get_apply, Coro.ofOption, htop, pure_apply, Res.bind]
  rw [if_neg (by omega), if_pos h.level, shift_eq, nodeIndex_mul, cnodeIndex_mul, if_neg hthere]

lemma Levels.alloc_next (h : Levels cs n) (htop : bfFirstFree cs.topBf = some n) (depth : Nat) :
    allocSlotBelow (depth + 1) cs = (ensureLevels (n * 128) 0 cs).bind fun r =>
      (if r.1 then takeSlot (allocSlotBelow depth) n r.2 else pure 0 : CsM Nat) := by
  have hbound : n < cnodeSlots cs.topLvlSizeBits := h.size ▸ (bfFirstFree_eq_some htop).1
  have hmissing := (h.missing_iff n).mpr (Nat.le_refl n)
  conv_lhs => unfold allocSlotBelow
  simp only [bind_apply, get_apply, Coro.ofOption, htop, pure_apply, Res.bind]
  rw [if_neg (by omega), if_pos h.level, shift_eq, nodeIndex_mul, cnodeIndex_mul, if_pos hmissing]
  rfl

lemma TwoLevel.alloc_present (h : TwoLevel cs n) (hlow : cs.Lowest c) (hlt : c / 128 < n)
    (depth : Nat) : allocSlotBelow (depth + 1) cs = .done c (cs.mark (c / 128) (c % 128)) ∧
      Takes cs (cs.mark (c / 128) (c % 128)) c := by
  have hc : c / 128 * 128 + c % 128 = c := Nat.div_add_mod' c 128
  obtain ⟨htop, hfield, hb⟩ := (h.lowest_iff (Nat.mod_lt c (by decide)) hlt).mp (hc.symm ▸ hlow)
  constructor
  · rw [h.levels.alloc_there htop hlt, h.takeSlot_eq hlt hb hfield, refillWatermark_zero,
      Res.bind, hc]
  · refine ⟨.inr ⟨n, h.mark hlt hb⟩, Same.mark h hlt hb, fun x => ?_⟩
    rw [h.taken_mark hlt hb, hc]

lemma OneLevel.alloc (h : OneLevel cs) (hlow : cs.Lowest c) (depth : Nat) :
    allocSlotBelow (depth + 1) cs = .done c { cs with topBf := bfSetBit cs.topBf c } ∧
      Takes cs { cs with topBf := bfSetBit cs.topBf c } c := by
  have hfirst := h.lowest_iff.mp hlow
  obtain ⟨hlt, -, -⟩ := bfFirstFree_eq_some hfirst
  have hone : ¬ cs.twoLevel = true := by rw [h.level]; decide
  have h' : OneLevel { cs with topBf := bfSetBit cs.topBf c } :=
    ⟨h.level, (congrArg (· * wordBits) (length_bfSetBit ..)).trans h.size⟩
  constructor
  · unfold allocSlotBelow
    simp only [bind_apply, get_apply, Coro.ofOption, hfirst, pure_apply, Res.bind]
    rw [h.size] at hlt
    rw [if_neg (by omega), if_neg hone]
    rfl
  · refine ⟨.inl h', ⟨fun x => ?_, fun x => ?_⟩, fun x => ?_⟩
    · rw [h.usable_iff, h'.usable_iff]
    · exact ⟨fun _ => h.present x, fun _ => h'.present x⟩
    · rw [h.taken_iff, h'.taken_iff, bfGetBit_set hlt]
      simp only [Bool.or_eq_true, decide_eq_true_eq]

lemma alloc_present (hs : Sound cs) (hlow : cs.Lowest c) (hp : cs.Present c) (depth : Nat) :
    ∃ cs', allocSlotBelow (depth + 1) cs = .done c cs' ∧ Takes cs cs' c := by
  rcases hs with h | ⟨n, h⟩
  · exact ⟨_, h.alloc hlow depth⟩
  · exact ⟨_, h.alloc_present hlow ((h.present_iff c).mp hp) depth⟩

end Present

/-! ## Cnodes and nodes are added -/

section Adding

variable {cs : CsState} {n : Nat}

lemma TwoLevel.watermark (h : TwoLevel cs n) (w : Nat → Nat) :
    TwoLevel { cs with watermark := w } n := { h with }

/-- What is left alone when nodes and cnodes are added after the first `n` cnodes. -/
structure Grown (cs cs' : CsState) (n : Nat) : Prop where
  topBf : cs'.topBf = cs.topBf
  size : cs'.topLvlSizeBits = cs.topLvlSizeBits
  field : ∀ t < n, cs'.field t = cs.field t

lemma Grown.refl (cs : CsState) (n : Nat) : Grown cs cs n := ⟨rfl, rfl, fun _ _ => rfl⟩

lemma Grown.trans {cs1 cs2 cs3 : CsState} (h : Grown cs1 cs2 n) (h' : Grown cs2 cs3 n) :
    Grown cs1 cs3 n :=
  ⟨h'.topBf.trans h.topBf, h'.size.trans h.size, fun t ht => (h'.field t ht).trans (h.field t ht)⟩

lemma TwoLevel.grown {cs' : CsState} {k : Nat} (h : TwoLevel cs n) (hlevels : Levels cs' k)
    (hgrown : Grown cs cs' n) (hbound : k ≤ cnodeSlots cs.topLvlSizeBits) (hle : n ≤ k)
    (hblank : ∀ t, n ≤ t → t < k → ∀ b, bfGetBit (cs'.field t) b = false) : TwoLevel cs' k := by
  refine ⟨hlevels.level, hlevels.size, hlevels.cnodes, hlevels.room, hgrown.size ▸ hbound,
    hlevels.length, hlevels.unused, fun t ht => ?_, fun t ht => ?_⟩
  · by_cases hlt : t < n
    · rw [hgrown.field t hlt]
      exact h.last t hlt
    · exact hblank t (by omega) ht 127
  · rw [hgrown.size] at ht
    rw [hgrown.topBf, h.full t ht]
    by_cases hlt : t < n
    · rw [hgrown.field t hlt]
      exact and_congr_left fun _ => ⟨fun _ => by omega, fun _ => hlt⟩
    · refine ⟨fun hall => absurd hall.1 hlt, fun ⟨hk, hall⟩ => ?_⟩
      have hzero := hblank t (by omega) hk 0
      rw [hall 0 (by decide)] at hzero
      cases hzero

lemma field_initBotLvlNode (cs : CsState) (node : Nat) :
    (cs.initBotLvlNode node).field t =
      if t / botLvlPerNode = node then List.replicate 2 0 else cs.field t := by
  unfold CsState.field CsState.initBotLvlNode
  dsimp only
  split
  · rename_i heq
    rw [heq, update_self]
    rfl
  · rename_i hne
    rw [update_of_ne hne]

lemma Levels.node_eq (h : Levels cs n) (hfull : cs.nBotLvlNodes ≤ n / botLvlPerNode) :
    n / botLvlPerNode = cs.nBotLvlNodes ∧ n = botLvlPerNode * cs.nBotLvlNodes := by
  have hroom := h.room
  rw [botLvlPerNode_eq] at hfull hroom ⊢
  omega

lemma Levels.field_init_old (h : Levels cs n) (hfull : cs.nBotLvlNodes ≤ n / botLvlPerNode)
    (ht : t < n) : (cs.initBotLvlNode (n / botLvlPerNode)).field t = cs.field t := by
  obtain ⟨hnode, hn⟩ := h.node_eq hfull
  rw [field_initBotLvlNode, if_neg]
  rw [hnode]
  rw [hn] at ht
  rw [botLvlPerNode_eq] at ht ⊢
  omega

lemma Levels.initBotLvlNode (h : Levels cs n) (hfull : cs.nBotLvlNodes ≤ n / botLvlPerNode) :
    Levels (cs.initBotLvlNode (n / botLvlPerNode)) n := by
  obtain ⟨hnode, hn⟩ := h.node_eq hfull
  have hnew : ∀ t, n ≤ t → t < botLvlPerNode * (cs.nBotLvlNodes + 1) →
      (cs.initBotLvlNode (n / botLvlPerNode)).field t = List.replicate 2 0 := by
    intro t ht ht'
    rw [field_initBotLvlNode, if_pos]
    rw [hnode]
    rw [hn] at ht
    rw [botLvlPerNode_eq] at ht ht' ⊢
    omega
  refine ⟨h.level, h.size, fun j hj => ?_, ?_, fun t ht => ?_, fun t ht ht' b => ?_, h.top⟩
  · have hj' : j < cs.nBotLvlNodes + 1 := hj
    change (Function.update cs.botLvlNodes (n / botLvlPerNode) _ j).nCnodes = _
    by_cases hjn : j = n / botLvlPerNode
    · rw [hjn, update_self]
      change 0 = _
      rw [botLvlPerNode_eq] at hn ⊢
      omega
    · rw [update_of_ne hjn]
      exact h.cnodes j (by omega)
  · change n ≤ botLvlPerNode * (cs.nBotLvlNodes + 1)
    rw [botLvlPerNode_eq] at hn ⊢
    omega
  · by_cases hlt : t < n
    · rw [h.field_init_old hfull hlt]
      exact h.length t (Nat.lt_of_lt_of_le hlt h.room)
    · rw [hnew t (by omega) ht]
      rfl
  · rw [hnew t ht ht']
    exact bfGetBit_replicate 2 b

lemma TwoLevel.initBotLvlNode (h : TwoLevel cs n) (hfull : cs.nBotLvlNodes ≤ n / botLvlPerNode) :
    TwoLevel (cs.initBotLvlNode (n / botLvlPerNode)) n :=
  h.grown (h.levels.initBotLvlNode hfull) ⟨rfl, rfl, fun _ ht => h.levels.field_init_old hfull ht⟩
    h.bound le_rfl fun _ ht ht' => absurd ht' (Nat.not_lt.mpr ht)

lemma field_addCnode (cs : CsState) (node t : Nat) : (cs.addCnode node).field t = cs.field t := by
  unfold CsState.field CsState.addCnode
  dsimp only
  by_cases heq : t / botLvlPerNode = node
  · rw [heq, update_self]
  · rw [update_of_ne heq]

lemma Levels.addCnode (h : Levels cs n) (hroom : n < botLvlPerNode * cs.nBotLvlNodes) :
    Levels (cs.addCnode (n / botLvlPerNode)) (n + 1) := by
  have hfield := field_addCnode cs (n / botLvlPerNode)
  refine ⟨h.level, h.size, fun j hj => ?_, hroom, fun t ht => ?_, fun t ht ht' b => ?_,
    fun t ht hset => Nat.lt_succ_of_lt (h.top t ht hset)⟩
  · have hj' : j < cs.nBotLvlNodes := hj
    have hcount := h.cnodes j hj'
    change (Function.update cs.botLvlNodes (n / botLvlPerNode) _ j).nCnodes = _
    by_cases hjn : j = n / botLvlPerNode
    · subst hjn
      rw [update_self]
      change (cs.botLvlNodes (n / botLvlPerNode)).nCnodes + 1 = _
      rw [hcount, botLvlPerNode_eq]
      omega
    · rw [update_of_ne hjn, hcount]
      rw [botLvlPerNode_eq] at hjn ⊢
      omega
  · rw [hfield]
    exact h.length t ht
  · rw [hfield]
    exact h.unused t (by omega) ht' b

lemma TwoLevel.addCnode (h : TwoLevel cs n) (hroom : n < botLvlPerNode * cs.nBotLvlNodes)
    (hbound : n < cnodeSlots cs.topLvlSizeBits) :
    TwoLevel (cs.addCnode (n / botLvlPerNode)) (n + 1) := by
  refine h.grown (h.levels.addCnode hroom) ⟨rfl, rfl, fun t _ => field_addCnode cs _ t⟩ hbound
    (Nat.le_succ n) fun t ht ht' b => ?_
  rw [field_addCnode]
  exact h.unused t ht (by omega) b

lemma retypeHelper_meets (cs : CsState) : (retypeHelper cs).Meets Outside fun _ s => s = cs := by
  unfold retypeHelper
  rintro untyped s rfl
  simp only [Res.bind]
  split
  · rintro err t rfl
    rfl
  · rfl

lemma addNode_meets (cs : CsState) (node : Nat) (used : Word) :
    (addNode node used cs).Meets Outside fun r cs' =>
      cs' = if r.1 then cs.initBotLvlNode node else cs := by
  unfold addNode
  refine (retypeHelper_meets cs).bind ?_
  rintro untyped s rfl
  split
  · rintro vaddr s' rfl
    simp only [Res.bind]
    split
    · rfl
    · rfl
  · rfl

lemma TwoLevel.ensureNode_meets (h : TwoLevel cs n) (used : Word) :
    (ensureNode (n / botLvlPerNode) used cs).Meets Outside fun r cs' =>
      TwoLevel cs' n ∧ Grown cs cs' n ∧ (r.1 = true → n < botLvlPerNode * cs'.nBotLvlNodes) := by
  unfold ensureNode
  simp only [bind_apply, get_apply, Res.bind]
  split
  · rename_i hfull
    obtain ⟨-, hn⟩ := h.levels.node_eq hfull
    refine (addNode_meets cs _ used).mono ?_
    rintro ⟨ok, used'⟩ cs' rfl
    cases ok with
    | false => exact ⟨h, Grown.refl cs n, by simp⟩
    | true =>
      refine ⟨h.initBotLvlNode hfull,
        ⟨rfl, rfl, fun t ht => h.levels.field_init_old hfull ht⟩, fun _ => ?_⟩
      change n < botLvlPerNode * (cs.nBotLvlNodes + 1)
      rw [botLvlPerNode_eq] at hn ⊢
      omega
  · rename_i hroom
    refine ⟨h, Grown.refl cs n, fun _ => ?_⟩
    rw [botLvlPerNode_eq] at hroom ⊢
    omega

lemma Levels.ensureCnode_eq (h : Levels cs n) (hroom : n < botLvlPerNode * cs.nBotLvlNodes) :
    ensureCnode (n / botLvlPerNode) (n % botLvlPerNode) cs
      = Cspace.addCnode (n / botLvlPerNode) cs := by
  have hmissing := (h.missing_iff n).mpr (Nat.le_refl n)
  have hthere : n / botLvlPerNode < cs.nBotLvlNodes := by
    rw [botLvlPerNode_eq] at hroom ⊢
    omega
  unfold ensureCnode
  simp only [bind_apply, get_apply, Res.bind, Coro.check, if_pos hthere, pure_apply]
  rw [if_pos (hmissing.resolve_left (by omega))]

lemma TwoLevel.ensureCnode_meets (h : TwoLevel cs n)
    (hroom : n < botLvlPerNode * cs.nBotLvlNodes) (hbound : n < cnodeSlots cs.topLvlSizeBits) :
    (ensureCnode (n / botLvlPerNode) (n % botLvlPerNode) cs).Meets Outside fun ok cs' =>
      Grown cs cs' n ∧ TwoLevel cs' (if ok then n + 1 else n) ∧
        (ok = true → ∀ b, bfGetBit (cs'.field n) b = false) := by
  rw [h.levels.ensureCnode_eq hroom]
  unfold Cspace.addCnode
  refine (retypeHelper_meets cs).bind ?_
  rintro ok s rfl
  split
  · refine ⟨⟨rfl, rfl, fun t _ => field_addCnode s _ t⟩, h.addCnode hroom hbound, fun _ b => ?_⟩
    rw [field_addCnode]
    exact h.unused n (Nat.le_refl n) hroom b
  · exact ⟨Grown.refl s n, h, fun hok => by cases hok⟩

lemma Levels.ensureLevels_eq (h : Levels cs n) (hbound : n < cnodeSlots cs.topLvlSizeBits) :
    ensureLevels (n * 128) 0 cs = (ensureNode (n / botLvlPerNode) 0 cs).bind fun r =>
      (if r.1 then do
        let ok ← ensureCnode (n / botLvlPerNode) (n % botLvlPerNode)
        pure (ok, r.2)
      else pure (false, r.2) : CsM (Bool × Word)) := by
  have hsize : ¬ n / botLvlPerNode ≥
      (2 ^ (cnodeSlotBits cs.topLvlSizeBits + cnodeSlotBits cnodeSizeBits) +
        (botLvlPerNode - 1)) / botLvlPerNode := by
    have hpow : 2 ^ (cnodeSlotBits cs.topLvlSizeBits + cnodeSlotBits cnodeSizeBits) =
        cnodeSlots cs.topLvlSizeBits * 128 := Nat.pow_add ..
    rw [hpow, botLvlPerNode_eq]
    omega
  unfold ensureLevels
  simp only [bind_apply, get_apply, Res.bind, nodeIndex_mul, cnodeIndex_mul,
    if_pos h.level, if_neg hsize]

lemma TwoLevel.ensureLevels_meets (h : TwoLevel cs n) (hbound : n < cnodeSlots cs.topLvlSizeBits) :
    (ensureLevels (n * 128) 0 cs).Meets Outside fun r cs' =>
      Grown cs cs' n ∧ TwoLevel cs' (if r.1 then n + 1 else n) ∧
        (r.1 = true → ∀ b, bfGetBit (cs'.field n) b = false) := by
  rw [h.levels.ensureLevels_eq hbound]
  refine (h.ensureNode_meets 0).bind ?_
  rintro ⟨ok, used⟩ cs' ⟨h', hgrown, hroom⟩
  cases ok with
  | false => exact ⟨hgrown, h', fun hr => by cases hr⟩
  | true =>
    refine (h'.ensureCnode_meets (hroom rfl) (hgrown.size ▸ hbound)).bind ?_
    exact fun ok s hs => ⟨hgrown.trans hs.1, hs.2⟩

end Adding

/-! ## What an allocation does -/

def CsState.NotFull (cs : CsState) : Prop := ∃ c, cs.Usable c ∧ ¬ cs.Taken c

open Classical in
lemma CsState.NotFull.exists_lowest {cs : CsState} (h : cs.NotFull) : ∃ c, cs.Lowest c := by
  refine ⟨Nat.find h, (Nat.find_spec h).1, (Nat.find_spec h).2, fun d hd husable => ?_⟩
  by_contra hfree
  exact Nat.find_min h hd ⟨husable, hfree⟩

/-- Memory ran out and nothing is taken; or the slot is the lowest one, and with it at most
slots above it are taken. -/
def Outcome (cs : CsState) (r : Nat) (cs' : CsState) : Prop :=
  Sound cs' ∧ (∀ c, cs'.Usable c ↔ cs.Usable c) ∧ ((r = 0 ∧ ∀ x, cs'.Taken x ↔ cs.Taken x) ∨
      cs.Lowest r ∧ cs'.Present r ∧ ∃ more : Nat → Prop, (∀ x, more x → r < x) ∧
        ∀ x, cs'.Taken x ↔ cs.Taken x ∨ x = r ∨ more x)

lemma Takes.outcome {cs cs' : CsState} (h : Takes cs cs' c) (hlow : cs.Lowest c)
    (hp : cs.Present c) : Outcome cs c cs' :=
  ⟨h.sound, h.same.usable, .inr ⟨hlow, (h.same.present c).mpr hp, fun _ => False,
    fun _ hx => hx.elim, fun x => (h.taken x).trans (by simp)⟩⟩

section Missing

variable {cs : CsState} {n : Nat}

lemma TwoLevel.lowest_missing (h : TwoLevel cs n) (hlow : cs.Lowest c) (hge : n ≤ c / 128) :
    c = n * 128 ∧ n < cnodeSlots cs.topLvlSizeBits ∧ bfFirstFree cs.topBf = some n := by
  have husable := (h.usable_iff c).mp hlow.usable
  have hn : n < cnodeSlots cs.topLvlSizeBits := Nat.lt_of_le_of_lt hge husable.1
  have hc : c = n * 128 := by
    by_contra hne
    have htaken := hlow.below (n * 128) (by omega) ((h.usable_iff _).mpr (by omega))
    rw [h.taken_iff] at htaken
    omega
  refine ⟨hc, hn, bfFirstFree_eq (h.size ▸ hn) ?_ fun u hu => ?_⟩
  · rw [Bool.eq_false_iff]
    intro hset
    exact absurd ((h.full n hn).mp hset).1 (Nat.lt_irrefl n)
  · refine (h.full u (by omega)).mpr ⟨hu, fun d hd => ?_⟩
    have htaken := hlow.below (u * 128 + d) (by omega) ((h.usable_iff _).mpr (by omega))
    rw [h.taken_iff, show (u * 128 + d) / 128 = u by omega,
      show (u * 128 + d) % 128 = d by omega] at htaken
    exact htaken.2

lemma Grown.taken_iff {cs' : CsState} {k : Nat} (h : TwoLevel cs n) (h' : TwoLevel cs' k)
    (hgrown : Grown cs cs' n) (hk : n ≤ k) (hzero : ∀ t, n ≤ t → t < k → ∀ b,
      bfGetBit (cs'.field t) b = false) (x : Nat) : cs'.Taken x ↔ cs.Taken x := by
  rw [h.taken_iff, h'.taken_iff]
  by_cases hx : x / 128 < n
  · rw [hgrown.field _ hx]
    exact and_congr_left fun _ => ⟨fun _ => hx, fun _ => by omega⟩
  · refine ⟨fun hset => ?_, fun hset => absurd hset.1 hx⟩
    rw [hzero _ (by omega) hset.1] at hset
    cases hset.2

lemma firstFree_blank {bf : List Word} (hlen : bf.length = 2)
    (hblank : ∀ b, bfGetBit bf b = false) :
    bfFirstFree bf = some 0 ∧ bfFirstFree (bfSetBit bf 0) = some 1 ∧
      bfFirstFree (bfSetBit (bfSetBit bf 0) 1) = some 2 := by
  have h0 : ∀ b, bfGetBit (bfSetBit bf 0) b = decide (b = 0) := fun b => by
    rw [bfGetBit_set (by rw [hlen]; decide), hblank, Bool.false_or]
  have h1 : ∀ b, bfGetBit (bfSetBit (bfSetBit bf 0) 1) b = (decide (b = 0) || decide (b = 1)) :=
    fun b => by rw [bfGetBit_set (by rw [length_bfSetBit, hlen]; decide), h0]
  refine ⟨bfFirstFree_eq (by rw [hlen]; decide) (hblank 0) fun j hj => absurd hj (by omega),
    bfFirstFree_eq (by rw [length_bfSetBit, hlen]; decide) (h0 1) fun j hj => ?_,
    bfFirstFree_eq (by simp only [length_bfSetBit, hlen]; decide) (h1 2) fun j hj => ?_⟩
  · rw [h0]
    exact decide_eq_true (by omega)
  · rw [h1, Bool.or_eq_true, decide_eq_true_eq, decide_eq_true_eq]
    omega

lemma Levels.alloc_second (h : Levels cs (n + 1)) (htop : bfFirstFree cs.topBf = some n)
    (hblank : ∀ b, bfGetBit (cs.field n) b = false) (depth : Nat) :
    allocSlotBelow (depth + 1) (cs.mark n 0) = .done (n * 128 + 1) ((cs.mark n 0).mark n 1) := by
  have hlt : n < n + 1 := Nat.lt_succ_self n
  obtain ⟨-, hone, htwo⟩ := firstFree_blank (h.length n (Nat.lt_of_lt_of_le hlt h.room)) hblank
  have hfield : (cs.mark n 0).field n = bfSetBit (cs.field n) 0 := by
    rw [field_mark, if_pos rfl]
  have htop' : (cs.mark n 0).topBf = cs.topBf := by
    unfold CsState.mark
    simp only [hone, Option.any_some]
    rfl
  rw [(h.mark hlt 0).alloc_there (htop' ▸ htop) hlt,
    takeSlot_eq (hfield ▸ hone) (by rw [hfield]; exact htwo), refillWatermark_zero, Res.bind]

lemma TwoLevel.refillWatermark_meets (h : TwoLevel cs (n + 1))
    (htop : bfFirstFree cs.topBf = some n) (hblank : ∀ b, bfGetBit (cs.field n) b = false)
    (used : Word) (depth : Nat) :
    (refillWatermark (allocSlotBelow (depth + 1)) used (cs.mark n 0)).Meets Outside fun _ cs' =>
      TwoLevel cs' (n + 1) ∧ Same cs cs' ∧ ∃ more : Nat → Prop, (∀ x, more x → n * 128 < x) ∧
        ∀ x, cs'.Taken x ↔ cs.Taken x ∨ x = n * 128 ∨ more x := by
  have hlt : n < n + 1 := Nat.lt_succ_self n
  have h1 := h.mark (b := 0) hlt (by decide)
  have htaken := h.taken_mark (b := 0) hlt (by decide)
  have hsame := Same.mark (b := 0) h hlt (by decide)
  unfold refillWatermark
  cases (List.range watermarkSlots).find? used.getLsbD with
  | some i =>
    have hsame' := Same.mark (b := 1) h1 hlt (by decide)
    simp only [bind_apply, h.levels.alloc_second htop hblank, Res.bind, modify_apply]
    refine ⟨(h1.mark hlt (by decide)).watermark _, ⟨fun c => ?_, fun c => ?_⟩,
      fun x => x = n * 128 + 1, fun x hx => by omega, fun x => ?_⟩
    · exact (hsame'.usable c).trans (hsame.usable c)
    · exact (hsame'.present c).trans (hsame.present c)
    · refine (h1.taken_mark (b := 1) hlt (by decide) x).trans ?_
      rw [htaken, or_assoc]
      rfl
  | none =>
    exact ⟨h1, hsame, fun _ => False, fun _ hx => hx.elim, fun x => (htaken x).trans (by simp)⟩

lemma TwoLevel.alloc_missing (h : TwoLevel cs n) (hlow : cs.Lowest c) (hge : n ≤ c / 128)
    (depth : Nat) : (allocSlotBelow (depth + 2) cs).Meets Outside (Outcome cs) := by
  obtain ⟨rfl, hn, htop⟩ := h.lowest_missing hlow hge
  have husable : ∀ {cs' : CsState} {k : Nat}, TwoLevel cs' k → Grown cs cs' n → ∀ c,
      cs'.Usable c ↔ cs.Usable c := by
    intro cs' k h' hgrown c
    rw [h.usable_iff, h'.usable_iff, hgrown.size]
  rw [h.levels.alloc_next htop]
  refine (h.ensureLevels_meets hn).bind ?_
  rintro ⟨ok, used⟩ cs' ⟨hgrown, h', hblank⟩
  cases ok with
  | false =>
    replace h' : TwoLevel cs' n := h'
    refine ⟨.inr ⟨n, h'⟩, husable h' hgrown, .inl ⟨rfl, fun x => ?_⟩⟩
    exact hgrown.taken_iff h h' (Nat.le_refl n) (fun t ht ht' => absurd ht (by omega)) x
  | true =>
    replace h' : TwoLevel cs' (n + 1) := h'
    have hlen := h'.length n (h'.room_of_lt (Nat.lt_succ_self n))
    have hfirst : bfFirstFree (cs'.field n) = some 0 := (firstFree_blank hlen (hblank rfl)).1
    have htaken := hgrown.taken_iff h h' (Nat.le_succ n) fun t ht ht' b => by
      rw [show t = n by omega]
      exact hblank rfl b
    simp only [if_true, h'.takeSlot_eq (Nat.lt_succ_self n) (show 0 < 127 by decide) hfirst]
    refine (h'.refillWatermark_meets (hgrown.topBf ▸ htop) (hblank rfl) used depth).bind ?_
    rintro ⟨⟩ s ⟨hs, hsame, more, hmore, hall⟩
    refine ⟨.inr ⟨n + 1, hs⟩, fun c => (hsame.usable c).trans (husable h' hgrown c),
      .inr ⟨hlow, ?_, more, hmore, fun x => ?_⟩⟩
    · rw [hs.present_iff]
      omega
    · exact (hall x).trans (or_congr_left (htaken x))

end Missing

lemma cspaceAllocSlot_meets {cs : CsState} (hs : Sound cs) (hfree : cs.NotFull) :
    (cspaceAllocSlot cs).Meets Outside (Outcome cs) := by
  obtain ⟨c, hlow⟩ := hfree.exists_lowest
  by_cases hp : cs.Present c
  · obtain ⟨cs', heq, htakes⟩ := alloc_present hs hlow hp 1
    unfold cspaceAllocSlot
    rw [heq]
    exact htakes.outcome hlow hp
  · rcases hs with h | ⟨n, h⟩
    · exact absurd (h.present c) hp
    · exact h.alloc_missing hlow (by rw [h.present_iff] at hp; omega) 0

end SpaghettiOS.Cspace
