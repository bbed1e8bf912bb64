import SpaghettiOS.Cspace.Reuse

/-!
# The watermark

A two-level cspace keeps four slots back, so that it can map the frame of a new node
without allocating anything.  An allocation that has used some of them refills one, the
first that was used: `refill_watermark` breaks out of its loop.

Which slots hold a capability is kept by an observer of the requests (`occupy`).
-/

namespace SpaghettiOS.Cspace

open Coro (bind_apply get_apply modify_apply pure_apply)
open Coroutine (Res Exec Observed)
open Function (update update_of_ne)

/-- The slots that hold a capability after a request.  A mapping that is made for a node has
its frame in the last slot of the watermark, from which it is deleted if the mapping fails,
and paging structures in those it says it has used. -/
def occupy (req : Request) (reply : Reply) (cs : CsState) (filled : Nat → Prop) : Nat → Prop :=
  match req with
  | .mapFrame => fun c => filled c ∨ (reply.ok = true ∧ c = cs.watermark mappingSlots) ∨
      ∃ i < mappingSlots, reply.used.getLsbD i = true ∧ c = cs.watermark i
  | _ => filled

/-- The entries of the watermark are different slots that are allocated and empty. -/
structure WatermarkFull (cs : CsState) (filled : Nat → Prop) : Prop where
  ne_null : ∀ i < watermarkSlots, cs.watermark i ≠ 0
  taken : ∀ i < watermarkSlots, cs.Taken (cs.watermark i)
  empty : ∀ i < watermarkSlots, ¬ filled (cs.watermark i)
  distinct : ∀ i < watermarkSlots, ∀ j < watermarkSlots, cs.watermark i = cs.watermark j → i = j

/-! ## What an allocation does to it -/

variable {cs' : CsState} {used : Word} {c t : Nat} {filled' : Nat → Prop}

section Allocation

variable {cs : CsState} {n : Nat} {filled : Nat → Prop}

lemma Levels.taken_mark_mono (h : Levels cs n) (ht : t < n) (b : Nat) (hc : cs.Taken c) :
    (cs.mark t b).Taken c := by
  rw [h.taken_iff] at hc
  rw [(h.mark ht b).taken_iff, field_mark]
  refine ⟨hc.1, ?_⟩
  split
  · rename_i heq
    rw [heq] at hc
    exact bfGetBit_set_mono b hc.2
  · exact hc.2

lemma watermark_mark (cs : CsState) (t b : Nat) : (cs.mark t b).watermark = cs.watermark := by
  unfold CsState.mark
  dsimp only
  split <;> rfl

lemma Levels.first_le (h : Levels cs n) (htop : bfFirstFree cs.topBf = some t) : t ≤ n := by
  obtain ⟨hlt, -, hbelow⟩ := bfFirstFree_eq_some htop
  rw [h.size] at hlt
  by_contra hgt
  exact absurd (h.top n (by omega) (hbelow n (by omega))) (lt_irrefl n)

lemma Levels.taken_mono {n' : Nat} (h : Levels cs n) (h' : Levels cs' n') (hle : n ≤ n')
    (hfield : ∀ t < n, cs'.field t = cs.field t) (hc : cs.Taken c) : cs'.Taken c := by
  rw [h.taken_iff] at hc
  rw [h'.taken_iff, hfield _ hc.1]
  exact ⟨Nat.lt_of_lt_of_le hc.1 hle, hc.2⟩

/-- What comes of making a cnode, and before it a node if that is missing.  Where the cnode
was not made (`ok`) the node may still be there. -/
structure MadeNext (cs : CsState) (n : Nat) (filled : Nat → Prop) (ok : Bool) (used : Word)
    (cs' : CsState) (filled' : Nat → Prop) : Prop where
  levels : Levels cs' (n + ok.toNat)
  blank : ok = true → ∀ b, bfGetBit (cs'.field n) b = false
  old : ∀ t < n, cs'.field t = cs.field t
  topBf : cs'.topBf = cs.topBf
  watermark : cs'.watermark = cs.watermark
  nodes : n < botLvlPerNode * cs.nBotLvlNodes → cs'.nBotLvlNodes = cs.nBotLvlNodes ∧ used = 0
  observed : ok = true → (used = 0 ∧ filled' = filled) ∨ ∃ u : Word, used = bit mappingSlots ||| u ∧
    ∀ c, filled' c ↔ filled c ∨ c = cs.watermark mappingSlots ∨
      ∃ i < mappingSlots, u.getLsbD i = true ∧ c = cs.watermark i

lemma retypeHelper_tracks (cs : CsState) (filled : Nat → Prop) :
    (retypeHelper cs).Tracks Outside occupy (fun _ s f => s = cs ∧ f = filled) filled := by
  unfold retypeHelper
  rintro untyped s rfl
  simp only [Res.bind]
  split
  · rintro err t rfl
    exact ⟨rfl, rfl⟩
  · exact ⟨rfl, rfl⟩

lemma addNode_tracks (cs : CsState) (node : Nat) (filled : Nat → Prop) :
    (addNode node 0 cs).Tracks Outside occupy (fun r cs' f =>
      cs' = (if r.1 then cs.initBotLvlNode node else cs) ∧
        (r.1 = true → ∃ u : Word, r.2 = bit mappingSlots ||| u ∧
          ∀ c, f c ↔ filled c ∨ c = cs.watermark mappingSlots ∨
            ∃ i < mappingSlots, u.getLsbD i = true ∧ c = cs.watermark i)) filled := by
  unfold addNode
  refine (retypeHelper_tracks cs filled).bind ?_
  rintro untyped s f ⟨rfl, rfl⟩
  split
  · rintro vaddr t rfl
    simp only [Res.bind]
    split
    · rename_i hok
      refine ⟨rfl, fun _ => ⟨vaddr.used, ?_, fun c => ?_⟩⟩
      · show 0#64 ||| bit mappingSlots ||| vaddr.used = _
        rw [BitVec.zero_or]
      · simp only [occupy, hok, true_and]
    · exact ⟨rfl, by simp⟩
  · exact ⟨rfl, by simp⟩

lemma addCnode_tracks (cs : CsState) (node : Nat) (filled : Nat → Prop) :
    (addCnode node cs).Tracks Outside occupy (fun ok cs' f =>
      cs' = (if ok then cs.addCnode node else cs) ∧ f = filled) filled := by
  unfold addCnode
  refine (retypeHelper_tracks cs filled).bind ?_
  rintro ok s f ⟨rfl, rfl⟩
  cases ok with
  | false => exact ⟨rfl, rfl⟩
  | true => exact ⟨rfl, rfl⟩

lemma Levels.madeNext {cs1 : CsState} {f : Nat → Prop} (h : Levels cs1 n)
    (hroom : n < botLvlPerNode * cs1.nBotLvlNodes) (hold : ∀ t < n, cs1.field t = cs.field t)
    (htop : cs1.topBf = cs.topBf) (hmark : cs1.watermark = cs.watermark)
    (hnodes : n < botLvlPerNode * cs.nBotLvlNodes → cs1.nBotLvlNodes = cs.nBotLvlNodes ∧ used = 0)
    (hobs : (used = 0 ∧ f = filled) ∨ ∃ u : Word, used = bit mappingSlots ||| u ∧
      ∀ c, f c ↔ filled c ∨ c = cs.watermark mappingSlots ∨
        ∃ i < mappingSlots, u.getLsbD i = true ∧ c = cs.watermark i) (ok : Bool) :
    MadeNext cs n filled ok used (if ok then cs1.addCnode (n / botLvlPerNode) else cs1) f := by
  cases ok with
  | false => exact ⟨h, nofun, hold, htop, hmark, hnodes, nofun⟩
  | true =>
    refine ⟨h.addCnode hroom, fun _ b => ?_, fun t ht => ?_, htop, hmark, hnodes, fun _ => hobs⟩
    · exact (congrArg (bfGetBit · b) (field_addCnode ..)).trans (h.unused n le_rfl hroom b)
    · exact (field_addCnode ..).trans (hold t ht)

lemma Levels.ensureLevels_room (h : Levels cs n) (hbound : n < cnodeSlots cs.topLvlSizeBits)
    (hroom : n < botLvlPerNode * cs.nBotLvlNodes) : ensureLevels (n * 128) 0 cs =
      (Cspace.addCnode (n / botLvlPerNode) cs).bind fun ok =>
        (pure (ok, 0) : CsM (Bool × Word)) := by
  have hnode : ¬ cs.nBotLvlNodes ≤ n / botLvlPerNode := by
    rw [botLvlPerNode_eq] at hroom ⊢
    omega
  rw [h.ensureLevels_eq hbound]
  unfold ensureNode
  simp only [bind_apply, get_apply, pure_apply, Res.bind, if_neg hnode, if_true,
    h.ensureCnode_eq hroom]

lemma Levels.ensureLevels_tracks (h : Levels cs n) (hbound : n < cnodeSlots cs.topLvlSizeBits) :
    (ensureLevels (n * 128) 0 cs).Tracks Outside occupy
      (fun r cs' f => MadeNext cs n filled r.1 r.2 cs' f) filled := by
  by_cases hnode : cs.nBotLvlNodes ≤ n / botLvlPerNode
  · obtain ⟨-, hn⟩ := h.node_eq hnode
    have hfull : ¬ n < botLvlPerNode * cs.nBotLvlNodes := by omega
    rw [h.ensureLevels_eq hbound]
    unfold ensureNode
    simp only [bind_apply, get_apply, Res.bind, if_pos hnode]
    refine (addNode_tracks cs _ filled).bind ?_
    rintro ⟨ok, used⟩ cs1 f ⟨rfl, hadded⟩
    cases ok with
    | false => exact ⟨h, by simp, fun _ _ => rfl, rfl, rfl, fun hlt => absurd hlt hfull, by simp⟩
    | true =>
      have hroom : n < botLvlPerNode * (cs.initBotLvlNode (n / botLvlPerNode)).nBotLvlNodes := by
        show n < botLvlPerNode * (cs.nBotLvlNodes + 1)
        rw [botLvlPerNode_eq] at hn ⊢
        omega
      have hlevels := h.initBotLvlNode hnode
      simp only [if_true, bind_apply, hlevels.ensureCnode_eq hroom]
      refine (addCnode_tracks _ _ f).bind ?_
      rintro ok cs2 f' ⟨rfl, rfl⟩
      exact hlevels.madeNext hroom (fun t ht => h.field_init_old hnode ht) rfl rfl
        (fun hlt => absurd hlt hfull) (.inr (hadded rfl)) ok
  · have hroom : n < botLvlPerNode * cs.nBotLvlNodes := by
      rw [botLvlPerNode_eq] at hnode ⊢
      omega
    rw [h.ensureLevels_room hbound hroom]
    refine (addCnode_tracks _ _ filled).bind ?_
    rintro ok cs2 f' ⟨rfl, rfl⟩
    exact h.madeNext hroom (fun _ _ => rfl) rfl rfl (fun _ => ⟨rfl, rfl⟩) (.inl ⟨rfl, rfl⟩) ok

lemma find_used (u : Word) :
    ∃ i, (List.range watermarkSlots).find? (bit mappingSlots ||| u).getLsbD = some i ∧
      (i = mappingSlots ∧ (∀ j < mappingSlots, u.getLsbD j = false) ∨
        i < mappingSlots ∧ u.getLsbD i = true) := by
  have hzero : ∀ j < 3, (bit mappingSlots).getLsbD j = false := by decide
  have hbit : ∀ j < 3, (bit mappingSlots ||| u).getLsbD j = u.getLsbD j := fun j hj => by
    rw [BitVec.getLsbD_or, hzero j hj, Bool.false_or]
  have hlast : (bit mappingSlots ||| u).getLsbD 3 = true := by
    rw [BitVec.getLsbD_or, show (bit mappingSlots).getLsbD 3 = true by decide, Bool.true_or]
  have hrange : List.range watermarkSlots = [0, 1, 2, 3] := rfl
  rw [hrange]
  simp only [List.find?, hbit 0 (by decide), hbit 1 (by decide), hbit 2 (by decide), hlast]
  cases h0 : u.getLsbD 0 with
  | true => exact ⟨0, rfl, .inr ⟨by decide, h0⟩⟩
  | false =>
    cases h1 : u.getLsbD 1 with
    | true => exact ⟨1, rfl, .inr ⟨by decide, h1⟩⟩
    | false =>
      cases h2 : u.getLsbD 2 with
      | true => exact ⟨2, rfl, .inr ⟨by decide, h2⟩⟩
      | false =>
        refine ⟨3, rfl, .inl ⟨rfl, fun j hj => ?_⟩⟩
        match j, hj with
        | 0, _ => exact h0
        | 1, _ => exact h1
        | 2, _ => exact h2

/-- A node was made with the entries that `used` names, and entry `i` refilled. -/
structure Refilled (cs : CsState) (n : Nat) (filled : Nat → Prop) (cs' : CsState)
    (filled' : Nat → Prop) (used : Word) (i : Nat) : Prop where
  observed : ∀ c, filled' c ↔ filled c ∨ c = cs.watermark mappingSlots ∨
    ∃ j < mappingSlots, used.getLsbD j = true ∧ c = cs.watermark j
  watermark : cs'.watermark = update cs.watermark i (n * 128 + 1)
  index : i = mappingSlots ∧ (∀ j < mappingSlots, used.getLsbD j = false) ∨
    i < mappingSlots ∧ used.getLsbD i = true
  taken : cs'.Taken (n * 128 + 1)

/-- What an allocation does: it keeps the slots that are taken, what it hands out was not
taken, and the watermark changes only with a new node. -/
structure AllocEffect (cs : CsState) (n : Nat) (filled : Nat → Prop) (r : Nat) (cs' : CsState)
    (filled' : Nat → Prop) : Prop where
  levels : ∃ n' ≤ n + 1, Levels cs' n'
  mono : ∀ c, cs.Taken c → cs'.Taken c
  fresh : r ≠ 0 → ¬ cs.Taken r ∧ cs'.Taken r
  nodes : n < botLvlPerNode * cs.nBotLvlNodes →
    cs'.nBotLvlNodes = cs.nBotLvlNodes ∧ cs'.watermark = cs.watermark
  observed : r ≠ 0 → (cs'.watermark = cs.watermark ∧ filled' = filled) ∨
    ∃ used i, Refilled cs n filled cs' filled' used i

lemma Levels.taken_mark_self (h : Levels cs n) {b : Nat} (ht : t < n) (hb : b < 128) :
    (cs.mark t b).Taken (t * 128 + b) := by
  have hlen : (cs.field t).length = 2 := h.length t (Nat.lt_of_lt_of_le ht h.room)
  rw [(h.mark ht b).taken_iff, show (t * 128 + b) / 128 = t by omega,
    show (t * 128 + b) % 128 = b by omega, field_mark, if_pos rfl,
    bfGetBit_set (by rw [hlen]; exact hb), decide_eq_true rfl, Bool.or_true]
  exact ⟨ht, rfl⟩

lemma Levels.not_taken (h : Levels cs n) (hc : n ≤ c / 128) : ¬ cs.Taken c :=
  fun htaken => absurd ((h.taken_iff c).mp htaken).1 (Nat.not_lt.mpr hc)

lemma MadeNext.takeSlot_tracks {cs1 : CsState} {f : Nat → Prop} (h : Levels cs n)
    (htop : bfFirstFree cs.topBf = some n) (hmade : MadeNext cs n filled true used cs1 f) :
    (takeSlot (allocSlotBelow 1) n used cs1).Tracks Outside occupy (AllocEffect cs n filled) f := by
  have hlt : n < n + 1 := Nat.lt_succ_self n
  have hlevels : Levels cs1 (n + 1) := hmade.levels
  have hlen := hlevels.length n (Nat.lt_of_lt_of_le hlt hlevels.room)
  obtain ⟨hzero, hone, -⟩ := firstFree_blank hlen (hmade.blank rfl)
  have hmarked := hlevels.mark hlt 0
  have hmono : ∀ c, cs.Taken c → (cs1.mark n 0).Taken c := fun c hc =>
    hlevels.taken_mark_mono hlt 0 (h.taken_mono hlevels (Nat.le_succ n) hmade.old hc)
  have hwater : (cs1.mark n 0).watermark = cs.watermark := by
    rw [watermark_mark, hmade.watermark]
  have hfresh : ¬ cs.Taken (n * 128 + 0) := h.not_taken (by omega)
  have hself := hlevels.taken_mark_self hlt (show 0 < 128 by decide)
  rw [takeSlot_eq hzero hone]
  rcases hmade.observed rfl with ⟨rfl, rfl⟩ | ⟨u, rfl, hf⟩
  · rw [refillWatermark_zero, Res.bind]
    exact ⟨⟨n + 1, le_rfl, hmarked⟩, hmono, fun _ => ⟨hfresh, hself⟩,
      fun hroom => ⟨(mark_rest cs1 n 0).2.2.1.trans (hmade.nodes hroom).1, hwater⟩,
      fun _ => .inl ⟨hwater, rfl⟩⟩
  · obtain ⟨i, hfind, hi⟩ := find_used u
    have hsecond := hlevels.alloc_second (hmade.topBf ▸ htop) (hmade.blank rfl) 0
    have hmarked' := hmarked.mark hlt 1
    have hmono' : ∀ c, (cs1.mark n 0).Taken c → ((cs1.mark n 0).mark n 1).Taken c := fun c hc =>
      hmarked.taken_mark_mono hlt 1 hc
    unfold refillWatermark
    simp only [hfind, bind_apply, hsecond, modify_apply, Res.bind]
    refine ⟨⟨n + 1, le_rfl, { hmarked' with }⟩, fun c hc => hmono' c (hmono c hc),
      fun _ => ⟨hfresh, hmono' _ hself⟩, fun hroom => ?_, fun _ => .inr ⟨u, i, hf, ?_, hi,
        hmarked.taken_mark_self hlt (by decide)⟩⟩
    · -- a node was made, so that there was no room
      have hbit : (bit mappingSlots ||| u).getLsbD 3 = false := by
        rw [(hmade.nodes hroom).2]
        rfl
      have hthird : (bit mappingSlots).getLsbD 3 = true := by decide
      rw [BitVec.getLsbD_or, hthird] at hbit
      cases hbit
    · show update ((cs1.mark n 0).mark n 1).watermark i _ = _
      rw [watermark_mark, hwater]

lemma Levels.alloc_tracks (h : Levels cs n) :
    (cspaceAllocSlot cs).Tracks Outside occupy (AllocEffect cs n filled) filled := by
  unfold cspaceAllocSlot
  cases htop : bfFirstFree cs.topBf with
  | none =>
    unfold allocSlotBelow
    simp only [bind_apply, get_apply, Coro.ofOption, htop, Res.bind]
    trivial
  | some t =>
    rcases Nat.lt_or_eq_of_le (h.first_le htop) with ht | rfl
    · rw [h.alloc_there htop ht]
      rcases takeSlot_cases cs t (allocSlotBelow 1) 0 with hfail | ⟨b, hfirst, heq⟩
      · rw [hfail]
        trivial
      · obtain ⟨hb, hfree, -⟩ := bfFirstFree_eq_some hfirst
        rw [h.length t (Nat.lt_of_lt_of_le ht h.room)] at hb
        have hb' : b < 128 := hb
        rw [heq, refillWatermark_zero, Res.bind]
        refine ⟨⟨n, Nat.le_succ n, h.mark ht b⟩, fun c hc => h.taken_mark_mono ht b hc,
          fun _ => ⟨fun htaken => ?_, h.taken_mark_self ht hb'⟩,
          fun _ => ⟨(mark_rest cs t b).2.2.1, watermark_mark cs t b⟩,
          fun _ => .inl ⟨watermark_mark cs t b, rfl⟩⟩
        rw [h.taken_iff, show (t * 128 + b) / 128 = t by omega,
          show (t * 128 + b) % 128 = b by omega, hfree] at htaken
        cases htaken.2
    · have hbound : t < cnodeSlots cs.topLvlSizeBits := h.size ▸ (bfFirstFree_eq_some htop).1
      rw [h.alloc_next htop]
      refine (h.ensureLevels_tracks hbound).bind ?_
      rintro ⟨ok, used⟩ cs1 f hmade
      cases ok with
      | false =>
        have h1 : Levels cs1 t := hmade.levels
        exact ⟨⟨t, Nat.le_succ t, h1⟩, fun c hc => h.taken_mono h1 le_rfl hmade.old hc,
          fun hr => absurd rfl hr, fun hroom => ⟨(hmade.nodes hroom).1, hmade.watermark⟩,
          fun hr => absurd rfl hr⟩
      | true => exact hmade.takeSlot_tracks h htop

lemma Refilled.of_frame {i : Nat} (hr : Refilled cs n filled cs' filled' used i)
    (hnone : ∀ j < mappingSlots, used.getLsbD j = false) (hc : filled' c) :
    filled c ∨ c = cs.watermark mappingSlots := by
  rcases (hr.observed c).mp hc with hc | hc | ⟨j, hj, hset, -⟩
  · exact .inl hc
  · exact .inr hc
  · rw [hnone j hj] at hset
    cases hset

lemma Refilled.watermarkFull (h : Levels cs n) (hfull : WatermarkFull cs filled)
    (hphys : ∀ c, filled c → cs.Present c) (hmono : ∀ c, cs.Taken c → cs'.Taken c)
    (hr : Refilled cs n filled cs' filled' used mappingSlots)
    (hnone : ∀ j < mappingSlots, used.getLsbD j = false) : WatermarkFull cs' filled' := by
  have hnew : ∀ c, cs.Present c → c ≠ n * 128 + 1 := by
    rintro c hc rfl
    rw [h.present_iff] at hc
    omega
  have hold : ∀ i < watermarkSlots, i ≠ mappingSlots → cs'.watermark i = cs.watermark i :=
    fun i _ hne => by rw [hr.watermark, update_of_ne hne]
  have hself : cs'.watermark mappingSlots = n * 128 + 1 := by
    rw [hr.watermark, Function.update_self]
  have hobs : ∀ c, filled' c → filled c ∨ c = cs.watermark mappingSlots := fun c hc =>
    hr.of_frame hnone hc
  have hlast : mappingSlots < watermarkSlots := Nat.lt_succ_self _
  refine ⟨fun i hi => ?_, fun i hi => ?_, fun i hi hc => ?_, fun i hi j hj heq => ?_⟩
  · by_cases hne : i = mappingSlots
    · rw [hne, hself]
      omega
    · rw [hold i hi hne]
      exact hfull.ne_null i hi
  · by_cases hne : i = mappingSlots
    · rw [hne, hself]
      exact hr.taken
    · rw [hold i hi hne]
      exact hmono _ (hfull.taken i hi)
  · by_cases hne : i = mappingSlots
    · rw [hne, hself] at hc
      rcases hobs _ hc with hc | hc
      · exact hnew _ (hphys _ hc) rfl
      · exact hnew _ (hfull.taken _ hlast).1 hc.symm
    · rw [hold i hi hne] at hc
      rcases hobs _ hc with hc | hc
      · exact hfull.empty i hi hc
      · exact hne (hfull.distinct i hi _ hlast hc)
  · by_cases hi' : i = mappingSlots
    · by_cases hj' : j = mappingSlots
      · rw [hi', hj']
      · rw [hi', hself, hold j hj hj'] at heq
        exact absurd heq.symm (hnew _ (hfull.taken j hj).1)
    · rw [hold i hi hi'] at heq
      by_cases hj' : j = mappingSlots
      · rw [hj', hself] at heq
        exact absurd heq (hnew _ (hfull.taken i hi).1)
      · rw [hold j hj hj'] at heq
        exact hfull.distinct i hi j hj heq

lemma Refilled.not_watermarkFull {i : Nat} (hr : Refilled cs n filled cs' filled' used i)
    (hi : i < mappingSlots) :
    ¬ WatermarkFull cs' filled' := fun hfull => by
  have hempty := hfull.empty mappingSlots (Nat.lt_succ_self _)
  rw [hr.watermark, update_of_ne (Nat.ne_of_gt hi)] at hempty
  exact hempty ((hr.observed _).mpr (.inr (.inl rfl)))

lemma AllocEffect.watermarkFull_iff {r : Nat} (h : Levels cs n)
    (hfull : WatermarkFull cs filled) (hphys : ∀ c, filled c → cs.Present c) (hr : r ≠ 0)
    (heffect : AllocEffect cs n filled r cs' filled') :
    WatermarkFull cs' filled' ↔ ∀ i < mappingSlots, ¬ filled' (cs.watermark i) := by
  have hmono := heffect.mono
  obtain ⟨hwater, rfl⟩ | ⟨used, i, hrefill⟩ := heffect.observed hr
  · refine iff_of_true ⟨?_, fun i hi => ?_, ?_, ?_⟩ fun i hi => hfull.empty i (Nat.lt_succ_of_lt hi)
    · rw [hwater]
      exact hfull.ne_null
    · rw [hwater]
      exact hmono _ (hfull.taken i hi)
    · rw [hwater]
      exact hfull.empty
    · rw [hwater]
      exact hfull.distinct
  · rcases hrefill.index with ⟨rfl, hnone⟩ | ⟨hi, hset⟩
    · have hfull' := hrefill.watermarkFull h hfull hphys hmono hnone
      refine iff_of_true hfull' fun i hi => ?_
      have hne : i ≠ mappingSlots := Nat.ne_of_lt hi
      have hempty := hfull'.empty i (Nat.lt_succ_of_lt hi)
      rwa [hrefill.watermark, update_of_ne hne] at hempty
    · refine iff_of_false (hrefill.not_watermarkFull hi) fun hnone => ?_
      exact hnone i hi ((hrefill.observed _).mpr (.inr (.inr ⟨i, hi, hset, rfl⟩)))

end Allocation

/-! ## New cspaces -/

/-- A cspace whose first slots are being taken: there is one node, which is not full, and only
the first entry of the watermark has been given a slot. -/
structure Early (cs : CsState) (k : Nat) : Prop where
  levels : ∃ n ≤ k, Levels cs n
  nodes : cs.nBotLvlNodes = 1
  rest : ∀ i, 0 < i → cs.watermark i = 0

section Creation

variable {cs : CsState} {k : Nat}

lemma Early.alloc (h : Early cs k) (hk : k < botLvlPerNode) :
    (cspaceAllocSlot cs).Ends Outside fun _ cs' => Early cs' (k + 1) := by
  obtain ⟨⟨n, hn, hlevels⟩, hnodes, hrest⟩ := h
  refine (@Levels.alloc_tracks cs n (fun _ => False) hlevels).ends fun r cs' _ heffect => ?_
  obtain ⟨n', hn', hlevels'⟩ := heffect.levels
  obtain ⟨hnodes', hwater⟩ := heffect.nodes (by rw [hnodes, Nat.mul_one]; omega)
  exact ⟨⟨n', by omega, hlevels'⟩, hnodes'.trans hnodes, fun i hi => hwater ▸ hrest i hi⟩

lemma Early.refill (h : Early cs k) (hk : k < botLvlPerNode) :
    (refillWatermark cspaceAllocSlot (BitVec.ofNat 64 (2 ^ watermarkSlots - 1)) cs).Ends Outside
      fun _ cs' => Early cs' (k + 1) := by
  have hfind : (List.range watermarkSlots).find? (BitVec.ofNat 64 (2 ^ watermarkSlots - 1)).getLsbD
      = some 0 := by decide
  unfold refillWatermark
  simp only [hfind]
  refine (h.alloc hk).bind ?_
  rintro c cs' ⟨⟨n, hn, hlevels⟩, hnodes, hrest⟩
  refine ⟨⟨n, hn, { hlevels with }⟩, hnodes, fun i hi => ?_⟩
  show update cs'.watermark 0 c i = 0
  rw [update_of_ne (Nat.ne_of_gt hi), hrest i hi]

lemma Early.firstSlots (h : Early cs 0) :
    (firstSlots cs).Ends Outside fun _ cs' => ∀ i, 0 < i → cs'.watermark i = 0 := by
  unfold Cspace.firstSlots
  refine (h.alloc (by decide)).bind fun null cs1 h1 => Res.Ends.check_bind fun _ => ?_
  simp only [bind_apply, get_apply, Res.bind]
  split
  · refine (h1.refill (by decide)).bind fun _ cs2 h2 => ?_
    refine (h2.alloc (by decide)).bind fun slot cs3 h3 => Res.Ends.check_bind fun _ => ?_
    rintro err s rfl
    simp only [Res.bind, Coro.check]
    split
    · exact h3.rest
    · trivial
  · exact h1.rest

lemma cspaceCreate_watermark (root : Nat) (cs : CsState) :
    (cspaceCreate root true cs).Ends Outside fun ok cs' =>
      ok = true → ∀ i, 0 < i → cs'.watermark i = 0 := by
  refine cspaceCreate_ends root true cs fun cs1 h hwater => Early.firstSlots ?_
  refine ⟨⟨0, le_rfl, (h.1.initBotLvlNode (Nat.le_of_eq h.2)).levels⟩, ?_, fun i _ => hwater i⟩
  show cs1.nBotLvlNodes + 1 = 1
  rw [h.2]

lemma WatermarkFull.not_of_create {root : Nat} {cs0 : CsState}
    (hcreate : Exec Outside (cspaceCreate root true cs0) true cs) (filled : Nat → Prop) :
    ¬ WatermarkFull cs filled := fun hfull =>
  hfull.ne_null 1 (by decide) ((cspaceCreate_watermark root cs0).exec hcreate rfl 1 (by decide))

end Creation

/-! ## When the watermark is full -/

/-- An allocation leaves the watermark full exactly if the mapping of its node, if it made one,
needed no paging structure.  The watermark of a new cspace is never full. -/
theorem watermark_full_iff {cs cs' : CsState} {n r : Nat} {filled filled' : Nat → Prop}
    (h : Levels cs n) (hfull : WatermarkFull cs filled) (hphys : ∀ c, filled c → cs.Present c)
    (hrun : Observed Outside occupy filled (cspaceAllocSlot cs) r cs' filled') (hr : r ≠ 0) :
    (WatermarkFull cs' filled' ↔ ∀ i < mappingSlots, ¬ filled' (cs.watermark i)) ∧
      ∀ root cs₀ new, Exec Outside (cspaceCreate root true cs₀) true new →
        ∀ f, ¬ WatermarkFull new f :=
  ⟨(h.alloc_tracks.observed hrun).watermarkFull_iff h hfull hphys hr,
    fun _ _ _ hcreate f => WatermarkFull.not_of_create hcreate f⟩

/-- A cspace with room for more cnodes than its node has.  Its 169 cnodes are full, and its
watermark is slots 1 to 4. -/
def fullNode : CsState where
  rootCnode := 1
  twoLevel := true
  topLvlSizeBits := cnodeSizeBits + 1
  topBf := [BitVec.allOnes 64, BitVec.allOnes 64, BitVec.ofNat 64 (2 ^ 41 - 1), 0]
  botLvlNodes _ := ⟨botLvlPerNode, fun _ => [BitVec.allOnes 64, BitVec.ofNat 64 (2 ^ 63 - 1)]⟩
  nBotLvlNodes := 1
  watermark i := i + 1

lemma fullNode_levels : Levels fullNode botLvlPerNode where
  level := rfl
  size := rfl
  cnodes j hj := by
    obtain rfl : j = 0 := Nat.lt_one_iff.mp hj
    rfl
  room := le_rfl
  length _ _ := rfl
  unused t hge hlt := absurd hlt (Nat.not_lt.mpr hge)
  top := by decide +kernel

lemma fullNode_watermark : WatermarkFull fullNode fun _ => False where
  ne_null _ _ := Nat.succ_ne_zero _
  taken := by decide +kernel
  empty _ _ := id
  distinct _ _ _ _ heq := Nat.succ.inj heq

/-- Everything is granted, and mappings use the paging structures that `used` names. -/
def mapping (used : Word) (_ : Request) (cs : CsState) : Reply × CsState := (⟨true, 1, used⟩, cs)

lemma fullNode_alloc (used : Word) (i : Nat)
    (hrun : (match (cspaceAllocSlot fullNode).run (mapping used) with
      | .ok (r, cs) => decide (r ≠ 0 ∧ cs.watermark i ≠ fullNode.watermark i)
      | .error _ => false) = true) :
    ∃ r cs' filled' u, Observed Outside occupy (fun _ => False) (cspaceAllocSlot fullNode) r cs'
      filled' ∧ r ≠ 0 ∧ Refilled fullNode botLvlPerNode (fun _ => False) cs' filled' u i := by
  split at hrun
  · rename_i r cs' hplay
    obtain ⟨hr, hne⟩ := of_decide_eq_true hrun
    have henv : ∀ q s, Outside q (mapping used q s).1 s (mapping used q s).2 := fun _ _ => rfl
    obtain ⟨filled', hobs⟩ : ∃ f, Observed Outside occupy (fun _ => False)
        (cspaceAllocSlot fullNode) r cs' f := (Res.exec_of_run henv hplay).observed _
    have heffect := fullNode_levels.alloc_tracks.observed hobs
    obtain ⟨hwater, -⟩ | ⟨u, j, hrefill⟩ := heffect.observed hr
    · rw [hwater] at hne
      exact absurd rfl hne
    · have hij : i = j := by
        by_contra hij
        rw [hrefill.watermark, update_of_ne hij] at hne
        exact hne rfl
      exact ⟨r, cs', filled', u, hobs, hr, hij ▸ hrefill⟩
  · cases hrun

theorem watermark_full_frame : ∃ r cs' filled',
    Observed Outside occupy (fun _ => False) (cspaceAllocSlot fullNode) r cs' filled' ∧ r ≠ 0 ∧
      cs'.watermark ≠ fullNode.watermark ∧ WatermarkFull cs' filled' := by
  obtain ⟨r, cs', filled', u, hobs, hr, hrefill⟩ :=
    fullNode_alloc 0 mappingSlots (by decide +kernel)
  have hnone : ∀ j < mappingSlots, u.getLsbD j = false := by
    rcases hrefill.index with ⟨-, hnone⟩ | ⟨hlt, -⟩
    · exact hnone
    · exact absurd hlt (lt_irrefl _)
  have hiff := (watermark_full_iff fullNode_levels fullNode_watermark (fun _ => False.elim) hobs
    hr).1
  refine ⟨r, cs', filled', hobs, hr, fun hsame => ?_, hiff.mpr fun i hi hc => ?_⟩
  · have hlast := congrFun (hrefill.watermark.symm.trans hsame) mappingSlots
    rw [Function.update_self] at hlast
    exact absurd hlast (by decide)
  · rcases hrefill.of_frame hnone hc with hc | hc
    · exact hc
    · exact Nat.ne_of_lt hi (Nat.succ.inj hc)

theorem watermark_not_full :
    (∃ r cs' filled', Levels fullNode botLvlPerNode ∧ WatermarkFull fullNode (fun _ => False) ∧
      Observed Outside occupy (fun _ => False) (cspaceAllocSlot fullNode) r cs' filled' ∧ r ≠ 0 ∧
      ¬ WatermarkFull cs' filled') ∧
    ∃ new, Exec Outside (cspaceCreate 1 true (CsState.blank true)) true new ∧
      ∀ filled, ¬ WatermarkFull new filled := by
  constructor
  · obtain ⟨r, cs', filled', u, hobs, hr, hrefill⟩ :=
      fullNode_alloc 1 0 (by decide +kernel)
    exact ⟨r, cs', filled', fullNode_levels, fullNode_watermark, hobs, hr,
      hrefill.not_watermarkFull (by decide)⟩
  · have hplay : (match (cspaceCreate 1 true (CsState.blank true)).run granting with
        | .ok (ok, _) => ok
        | .error _ => false) = true := by decide +kernel
    split at hplay
    · rename_i ok new hcreate
      subst hplay
      have hexec := Res.exec_of_run granting_outside hcreate
      exact ⟨new, hexec, WatermarkFull.not_of_create hexec⟩
    · cases hplay

end SpaghettiOS.Cspace
