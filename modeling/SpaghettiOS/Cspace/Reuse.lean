import SpaghettiOS.Cspace.Allocation

/-!
# Slots in use and slots that come back

Over any sequence of allocations and frees, a slot that `cspace_alloc_slot` has returned is
not returned again before it is freed.  A slot that is freed is the lowest free one again
after the slots below it, and if it was just allocated it comes back at once.
-/

namespace SpaghettiOS.Cspace

open Coro (bind_apply get_apply modify_apply pure_apply set_apply)
open Coroutine (Res Exec)

/-! ## Frees -/

variable {c t r : Nat} {cs' : CsState} {twoLevel : Bool}

section Free

variable {cs : CsState} {n : Nat}

def CsState.unmark (cs : CsState) (t b : Nat) : CsState :=
  CsState.setFieldOf { cs with topBf := bfClrBit cs.topBf t } t (bfClrBit (cs.field t) b)

lemma field_unmark (cs : CsState) (t b u : Nat) :
    (cs.unmark t b).field u = if u = t then bfClrBit (cs.field t) b else cs.field u :=
  field_setFieldOf _ t u _

lemma Levels.clrTop (h : Levels cs n) (t : Nat) :
    Levels { cs with topBf := bfClrBit cs.topBf t } n := by
  refine { h with size := by rw [length_bfClrBit]; exact h.size, top := fun u hu hset => ?_ }
  simp only [bfGetBit_clr, Bool.and_eq_true] at hset
  exact h.top u hu hset.1

lemma Levels.unmark (h : Levels cs n) (ht : t < n) (b : Nat) : Levels (cs.unmark t b) n := by
  have hlen : (bfClrBit (cs.field t) b).length = 2 := by
    rw [length_bfClrBit]
    exact h.length t (Nat.lt_of_lt_of_le ht h.room)
  exact (h.clrTop t).setFieldOf ht hlen

lemma TwoLevel.unmark (h : TwoLevel cs n) {b : Nat} (ht : t < n) (hb : b < 127) :
    TwoLevel (cs.unmark t b) n := by
  have hlevels := h.levels.unmark ht b
  refine ⟨hlevels.level, hlevels.size, hlevels.cnodes, hlevels.room, h.bound, hlevels.length,
    hlevels.unused, fun u hu => ?_, fun u hu => ?_⟩
  · rw [field_unmark]
    split
    · rw [bfGetBit_clr, h.last t ht]
      rfl
    · exact h.last u hu
  · change bfGetBit (bfClrBit cs.topBf t) u = true ↔ _
    rw [bfGetBit_clr, field_unmark]
    by_cases hut : u = t
    · subst hut
      simp only [if_true, decide_true, Bool.not_true, Bool.and_false, Bool.false_eq_true, false_iff]
      rintro ⟨-, hall⟩
      have hfree := hall b hb
      rw [bfGetBit_clr] at hfree
      simp at hfree
    · simp only [if_neg hut, decide_eq_false hut, Bool.not_false, Bool.and_true]
      exact h.full u hu

lemma Levels.taken_unmark (h : Levels cs n) {b : Nat} (ht : t < n) (hb : b < 128) (x : Nat) :
    (cs.unmark t b).Taken x ↔ cs.Taken x ∧ x ≠ t * 128 + b := by
  rw [h.taken_iff, (h.unmark ht b).taken_iff, field_unmark]
  by_cases hx : x / 128 = t
  · rw [if_pos hx, bfGetBit_clr, hx]
    simp only [ht, true_and, Bool.and_eq_true, Bool.not_eq_true', decide_eq_false_iff_not]
    exact and_congr_right fun _ => by omega
  · rw [if_neg hx]
    exact (and_iff_left (by omega)).symm

lemma TwoLevel.of_taken (h : TwoLevel cs n) (htaken : cs.Taken c) :
    c / 128 < n ∧ c % 128 < 127 := by
  obtain ⟨hlt, hset⟩ := (h.taken_iff c).mp htaken
  refine ⟨hlt, ?_⟩
  by_contra hge
  rw [show c % 128 = 127 by omega, h.last _ hlt] at hset
  cases hset

lemma Levels.freeSlot_eq (h : Levels cs n) (hc : c ≠ 0) (hlt : c / 128 < n) :
    cspaceFreeSlot cs c = cs.unmark (c / 128) (c % 128) := by
  have hthere : ¬ (cs.nBotLvlNodes ≤ c / 128 / botLvlPerNode ∨
      (cs.botLvlNodes (c / 128 / botLvlPerNode)).nCnodes ≤ c / 128 % botLvlPerNode) :=
    fun hmissing => absurd ((h.missing_iff _).mp hmissing) (by omega)
  unfold cspaceFreeSlot nodeIndex cnodeIndex
  rw [if_neg hc, if_pos h.level, topLvlIndex_eq, botLvlIndex_eq, cnodeSlots_cnodeSizeBits]
  dsimp only
  rw [if_pos (by omega)]
  rfl

structure Frees (cs cs' : CsState) (c : Nat) : Prop where
  sound : Sound cs'
  same : Same cs cs'
  taken : ∀ x, cs'.Taken x ↔ cs.Taken x ∧ x ≠ c

lemma cspaceFreeSlot_frees (hs : Sound cs) (htaken : cs.Taken c) (hc : c ≠ 0) :
    Frees cs (cspaceFreeSlot cs c) c := by
  rcases hs with h | ⟨n, h⟩
  · have hone : ¬ cs.twoLevel = true := by rw [h.level]; decide
    have hset := (h.taken_iff c).mp htaken
    have hlt : c < cs.topBf.length * wordBits := by
      by_contra hge
      rw [bfGetBit_of_length_le (by omega)] at hset
      cases hset
    rw [h.size] at hlt
    have h' : OneLevel { cs with topBf := bfClrBit cs.topBf c } :=
      ⟨h.level, (congrArg (· * wordBits) (length_bfClrBit ..)).trans h.size⟩
    have heq : cspaceFreeSlot cs c = { cs with topBf := bfClrBit cs.topBf c } := by
      unfold cspaceFreeSlot
      rw [if_neg hc, if_neg hone, if_neg (by omega)]
    rw [heq]
    refine ⟨.inl h', ⟨fun x => ?_, fun x => ?_⟩, fun x => ?_⟩
    · rw [h.usable_iff, h'.usable_iff]
    · exact ⟨fun _ => h.present x, fun _ => h'.present x⟩
    · rw [h.taken_iff, h'.taken_iff, bfGetBit_clr]
      simp only [Bool.and_eq_true, Bool.not_eq_true', decide_eq_false_iff_not, ne_eq]
  · obtain ⟨hlt, hb⟩ := h.of_taken htaken
    have hdm : c / 128 * 128 + c % 128 = c := Nat.div_add_mod' c 128
    have h' := h.unmark hlt hb
    rw [h.levels.freeSlot_eq hc hlt]
    refine ⟨.inr ⟨n, h'⟩, ⟨fun x => ?_, fun x => ?_⟩, fun x => ?_⟩
    · rw [h.usable_iff, h'.usable_iff]
      rfl
    · rw [h.present_iff, h'.present_iff]
    · rw [h.levels.taken_unmark hlt (by omega), hdm]

lemma Sound.usable_of_taken (hs : Sound cs) (htaken : cs.Taken c) : cs.Usable c := by
  rcases hs with h | ⟨n, h⟩
  · rw [h.usable_iff]
    by_contra hge
    have hset := (h.taken_iff c).mp htaken
    rw [bfGetBit_of_length_le (by rw [h.size]; omega)] at hset
    cases hset
  · obtain ⟨hlt, hb⟩ := h.of_taken htaken
    exact (h.usable_iff c).mpr ⟨Nat.lt_of_lt_of_le hlt h.bound, hb⟩

lemma Sound.present_of_le (hs : Sound cs) {d : Nat} (hp : cs.Present c) (hd : d ≤ c) :
    cs.Present d := by
  rcases hs with h | ⟨n, h⟩
  · exact h.present d
  · rw [h.present_iff] at hp ⊢
    omega

end Free

/-! ## Slots come back -/

def allocSlots : Nat → CsM (List Nat)
  | 0 => pure []
  | k + 1 => do
      let c ← cspaceAllocSlot
      let rest ← allocSlots k
      pure (c :: rest)

lemma allocatable {cs : CsState} (hs : Sound cs) (husable : cs.Usable c) (hfree : ¬ cs.Taken c)
    (hp : cs.Present c) : ∃ k slots cs', allocSlots k cs = .done slots cs' ∧ c ∈ slots := by
  obtain ⟨l, hlow⟩ := CsState.NotFull.exists_lowest ⟨c, husable, hfree⟩
  generalize hgap : c - l = gap
  induction gap using Nat.strong_induction_on generalizing cs l with
  | _ gap ih =>
    have hle : l ≤ c := by
      by_contra hlt
      exact hfree (hlow.below c (by omega) husable)
    obtain ⟨cs1, heq, htakes⟩ := alloc_present hs hlow (hs.present_of_le hp hle) 1
    by_cases hlc : l = c
    · subst hlc
      refine ⟨1, [l], cs1, ?_, List.mem_singleton_self l⟩
      simp only [allocSlots, cspaceAllocSlot, bind_apply, heq, Res.bind, pure_apply]
    · have husable₁ := (htakes.same.usable c).mpr husable
      have hfree₁ : ¬ cs1.Taken c := by
        rw [htakes.taken]
        rintro (htaken | rfl)
        · exact hfree htaken
        · exact hlc rfl
      have hp1 := (htakes.same.present c).mpr hp
      obtain ⟨l1, hlow1⟩ := CsState.NotFull.exists_lowest ⟨c, husable₁, hfree₁⟩
      have hup : l < l1 := by
        by_contra hge
        have htaken : cs1.Taken l1 := by
          rw [htakes.taken]
          by_cases hl : l1 = l
          · exact .inr hl
          · exact .inl (hlow.below l1 (by omega) ((htakes.same.usable l1).mp hlow1.usable))
        exact hlow1.free htaken
      have hle1 : l1 ≤ c := by
        by_contra hlt
        exact hfree₁ (hlow1.below c (by omega) husable₁)
      obtain ⟨k, slots, cs', hk, hin⟩ :=
        ih (c - l1) (by omega) htakes.sound husable₁ hfree₁ hp1 l1 hlow1 rfl
      refine ⟨k + 1, l :: slots, cs', ?_, List.mem_cons_of_mem l hin⟩
      simp only [allocSlots, cspaceAllocSlot, bind_apply, heq, Res.bind, hk, pure_apply]

lemma freed_allocatable {cs : CsState} (hs : Sound cs) (htaken : cs.Taken c) (hc : c ≠ 0) :
    ∃ k slots cs', allocSlots k (cspaceFreeSlot cs c) = .done slots cs' ∧ c ∈ slots := by
  have hfrees := cspaceFreeSlot_frees hs htaken hc
  refine allocatable hfrees.sound ((hfrees.same.usable c).mpr (hs.usable_of_taken htaken)) ?_
    ((hfrees.same.present c).mpr htaken.1)
  rw [hfrees.taken]
  exact fun h => h.2 rfl

lemma Outcome.again {cs : CsState} (h : Outcome cs r cs') (hr : r ≠ 0) :
    ∃ cs'', cspaceAllocSlot (cspaceFreeSlot cs' r) = .done r cs'' := by
  obtain ⟨hs, husable, ⟨rfl, -⟩ | ⟨hlow, hp, more, hmore, htaken⟩⟩ := h
  · exact absurd rfl hr
  have hfrees := cspaceFreeSlot_frees hs ((htaken r).mpr (.inr (.inl rfl))) hr
  have hlow' : (cspaceFreeSlot cs' r).Lowest r := by
    refine ⟨?_, ?_, fun d hd hd' => ?_⟩
    · rw [hfrees.same.usable, husable]
      exact hlow.usable
    · rw [hfrees.taken]
      exact fun h => h.2 rfl
    · rw [hfrees.same.usable, husable] at hd'
      rw [hfrees.taken, htaken]
      exact ⟨.inl (hlow.below d hd hd'), by omega⟩
  obtain ⟨cs'', heq, -⟩ := alloc_present hfrees.sound hlow' ((hfrees.same.present r).mpr hp) 1
  exact ⟨cs'', heq⟩

/-! ## New cspaces -/

lemma Sound.watermark {cs : CsState} (hs : Sound cs) (w : Nat → Nat) :
    Sound { cs with watermark := w } := by
  rcases hs with h | ⟨n, h⟩
  · exact .inl { h with }
  · exact .inr ⟨n, { h with }⟩

lemma cspaceAllocSlot_sound {cs : CsState} (hs : Sound cs) :
    (cspaceAllocSlot cs).Ends Outside fun _ cs' => Sound cs' := by
  by_cases hfull : cs.NotFull
  · exact (cspaceAllocSlot_meets hs hfull).ends.mono fun _ _ h => h.1
  · have hnone : bfFirstFree cs.topBf = none := by
      by_contra hsome
      obtain ⟨t, ht⟩ := Option.ne_none_iff_exists'.mp hsome
      obtain ⟨hlt, hfree, -⟩ := bfFirstFree_eq_some ht
      refine hfull ?_
      rcases hs with h | ⟨n, h⟩
      · have hlow := h.lowest_iff.mpr ht
        exact ⟨t, hlow.usable, hlow.free⟩
      · rw [h.size] at hlt
        have hopen : ∃ b < 127, ¬ (t < n ∧ bfGetBit (cs.field t) b = true) := by
          by_contra hall
          push Not at hall
          rw [(h.full t hlt).mpr ⟨(hall 0 (by decide)).1, fun b hb => (hall b hb).2⟩] at hfree
          cases hfree
        obtain ⟨b, hb, hopen⟩ := hopen
        refine ⟨t * 128 + b, (h.usable_iff _).mpr ⟨by omega, by omega⟩, ?_⟩
        rw [h.taken_iff, show (t * 128 + b) / 128 = t by omega,
          show (t * 128 + b) % 128 = b by omega]
        exact hopen
    unfold cspaceAllocSlot allocSlotBelow
    simp only [bind_apply, get_apply, Coro.ofOption, hnone, Res.bind]
    trivial

lemma refillWatermark_sound {cs : CsState} (hs : Sound cs) (used : Word) :
    (refillWatermark cspaceAllocSlot used cs).Ends Outside fun _ cs' => Sound cs' := by
  unfold refillWatermark
  cases (List.range watermarkSlots).find? used.getLsbD with
  | none => exact hs
  | some i =>
    refine (cspaceAllocSlot_sound hs).bind fun c cs' hs' => ?_
    exact hs'.watermark _

lemma firstSlots_sound {cs : CsState} (hs : Sound cs) :
    (firstSlots cs).Ends Outside fun _ cs' => Sound cs' := by
  unfold firstSlots
  refine (cspaceAllocSlot_sound hs).bind fun null cs1 h1 => Res.Ends.check_bind fun _ => ?_
  simp only [bind_apply, get_apply, Res.bind]
  split
  · refine (refillWatermark_sound h1 _).bind fun _ cs2 h2 => ?_
    refine (cspaceAllocSlot_sound h2).bind fun slot cs3 h3 => Res.Ends.check_bind fun _ => ?_
    rintro err s rfl
    simp only [Res.bind, Coro.check]
    split
    · exact h3
    · trivial
  · exact h1

def Fresh (twoLevel : Bool) (cs : CsState) : Prop :=
  if twoLevel then TwoLevel cs 0 ∧ cs.nBotLvlNodes = 0 else OneLevel cs

lemma fresh_blank (twoLevel : Bool) :
    Fresh twoLevel { CsState.blank twoLevel with
      topBf := List.replicate (bitfieldSize cnodeSizeBits) 0 } := by
  cases twoLevel with
  | false => exact ⟨rfl, rfl⟩
  | true =>
    refine ⟨⟨rfl, rfl, fun j hj => absurd hj (Nat.not_lt_zero j), Nat.zero_le _, Nat.zero_le _,
      fun t ht => absurd ht (Nat.not_lt_zero t), fun t _ ht => absurd ht (Nat.not_lt_zero t),
      fun t ht => absurd ht (Nat.not_lt_zero t), fun t _ => ?_⟩, rfl⟩
    rw [bfGetBit_replicate]
    simp

lemma Fresh.rootCnode {cs : CsState} (h : Fresh twoLevel cs) (root : Nat) :
    Fresh twoLevel { cs with rootCnode := root } := by
  cases twoLevel with
  | false => exact { (show OneLevel cs from h) with }
  | true => exact ⟨{ h.1 with }, h.2⟩

lemma createRoot_fresh {cs : CsState} (h : Fresh twoLevel cs) (root : Nat) :
    (createRoot root cs).Ends Outside fun _ cs' =>
      Fresh twoLevel cs' ∧ cs'.watermark = cs.watermark := by
  unfold createRoot
  rintro tmp s rfl
  simp only [Res.bind]
  split
  · refine (retypeHelper_meets s).ends.bind ?_
    rintro untyped s' rfl
    split
    · rintro slot s'' rfl
      simp only [Res.bind, bind_apply, modify_apply]
      split
      · exact ⟨h.rootCnode _, rfl⟩
      · rintro err t rfl
        exact ⟨h.rootCnode _, rfl⟩
    · exact ⟨h, rfl⟩
  · exact ⟨h, rfl⟩

/-- A cspace with its first node, if it has two levels. -/
def CsState.begun (cs : CsState) (twoLevel : Bool) : CsState :=
  if twoLevel then cs.initBotLvlNode 0 else cs

lemma createNodes_ends (twoLevel : Bool) (cs : CsState) :
    (createNodes twoLevel cs).Ends Outside fun ok cs' => ok = true → cs' = cs.begun twoLevel := by
  cases twoLevel with
  | false => exact fun _ => rfl
  | true =>
    unfold createNodes firstNode
    rintro slot s rfl
    simp only [Res.bind]
    split
    · refine (retypeHelper_meets s).ends.bind ?_
      rintro untyped s' rfl
      split
      · rintro vaddr s'' rfl
        simp only [Res.bind]
        split
        · exact fun _ => rfl
        · exact fun hok => by cases hok
      · exact fun hok => by cases hok
    · exact fun hok => by cases hok

lemma callocNodes_meets (twoLevel : Bool) (cs : CsState) :
    (callocNodes twoLevel cs).Meets Outside fun _ s => s = cs := by
  cases twoLevel with
  | false => rfl
  | true =>
    rintro nodes s rfl
    rfl

lemma cspaceCreate_ends {Q : CsState → Prop} (root : Nat) (twoLevel : Bool) (cs : CsState)
    (hfirst : ∀ cs1, Fresh twoLevel cs1 → (∀ i, cs1.watermark i = 0) →
      (firstSlots (cs1.begun twoLevel)).Ends Outside fun _ cs' => Q cs') :
    (cspaceCreate root twoLevel cs).Ends Outside fun ok cs' => ok = true → Q cs' := by
  unfold cspaceCreate
  simp only [bind_apply, set_apply, Res.bind]
  rintro topBf s rfl
  simp only [Res.bind]
  split
  · simp only [bind_apply, modify_apply, Res.bind]
    refine (callocNodes_meets twoLevel _).ends.bind ?_
    rintro nodes s rfl
    split
    · refine (createRoot_fresh (fresh_blank twoLevel) root).bind ?_
      rintro ok cs1 ⟨hfresh, hwater⟩
      split
      · refine (createNodes_ends twoLevel cs1).bind fun ok cs2 h2 => ?_
        split
        · rename_i hok
          rw [h2 hok]
          exact (hfirst cs1 hfresh fun i => by rw [hwater]; rfl).bind fun _ cs3 h3 _ => h3
        · exact fun hok => by cases hok
      · exact fun hok => by cases hok
    · exact fun hok => by cases hok
  · exact fun hok => by cases hok

lemma cspaceCreate_sound (root : Nat) (twoLevel : Bool) (cs : CsState) :
    (cspaceCreate root twoLevel cs).Ends Outside fun ok cs' => ok = true → Sound cs' := by
  refine cspaceCreate_ends root twoLevel cs fun cs1 h _ => firstSlots_sound ?_
  cases twoLevel with
  | false => exact .inl h
  | true => exact .inr ⟨0, h.1.initBotLvlNode (Nat.le_of_eq h.2)⟩

/-! ## Runs -/

structure Sys where
  cs : CsState
  held : List Nat

inductive Op where
  | alloc
  | free (cptr : Nat)
deriving DecidableEq, Repr

def Step (s : Sys) : Op → Sys → Prop
  | .alloc, t => ∃ r, Exec Outside (cspaceAllocSlot s.cs) r t.cs ∧
      t.held = if r = 0 then s.held else r :: s.held
  | .free c, t => t = ⟨cspaceFreeSlot s.cs c, s.held.erase c⟩

/-- Slots are allocated while there are some, and those that are freed were allocated. -/
def Allowed (s : Sys) : Op → Prop
  | .alloc => s.cs.NotFull
  | .free c => c ∈ s.held

structure Sys.Sound (s : Sys) : Prop where
  cs : Cspace.Sound s.cs
  nodup : s.held.Nodup
  taken : ∀ c ∈ s.held, c ≠ 0 ∧ s.cs.Taken c

lemma Outcome.taken_mono {cs : CsState} (h : Outcome cs r cs') (hc : cs.Taken c) : cs'.Taken c := by
  obtain ⟨-, -, ⟨-, hsame⟩ | ⟨-, -, more, -, htaken⟩⟩ := h
  · exact (hsame c).mpr hc
  · exact (htaken c).mpr (.inl hc)

lemma Outcome.taken_self {cs : CsState} (h : Outcome cs r cs') (hr : r ≠ 0) :
    cs'.Taken r ∧ ¬ cs.Taken r := by
  obtain ⟨-, -, ⟨rfl, -⟩ | ⟨hlow, -, more, -, htaken⟩⟩ := h
  · exact absurd rfl hr
  · exact ⟨(htaken r).mpr (.inr (.inl rfl)), hlow.free⟩

lemma Sys.Sound.step {s t : Sys} {op : Op} (h : s.Sound) (hop : Allowed s op)
    (hstep : Step s op t) : t.Sound := by
  cases op with
  | alloc =>
    obtain ⟨r, hexec, hheld⟩ := hstep
    have hout := (cspaceAllocSlot_meets h.cs hop).ends.exec hexec
    by_cases hr : r = 0
    · rw [if_pos hr] at hheld
      refine ⟨hout.1, hheld ▸ h.nodup, fun c hc => ?_⟩
      obtain ⟨hne, htaken⟩ := h.taken c (hheld ▸ hc)
      exact ⟨hne, hout.taken_mono htaken⟩
    · rw [if_neg hr] at hheld
      obtain ⟨hnow, hbefore⟩ := hout.taken_self hr
      refine ⟨hout.1, ?_, fun c hc => ?_⟩
      · rw [hheld]
        exact List.nodup_cons.mpr ⟨fun hin => hbefore (h.taken r hin).2, h.nodup⟩
      · rw [hheld] at hc
        rcases List.mem_cons.mp hc with rfl | hc
        · exact ⟨hr, hnow⟩
        · exact ⟨(h.taken c hc).1, hout.taken_mono (h.taken c hc).2⟩
  | free c =>
    obtain rfl := hstep
    obtain ⟨hne, htaken⟩ := h.taken c hop
    have hfrees := cspaceFreeSlot_frees h.cs htaken hne
    refine ⟨hfrees.sound, h.nodup.erase c, fun d hd => ?_⟩
    obtain ⟨hdc, hd⟩ := (h.nodup.mem_erase_iff).mp hd
    exact ⟨(h.taken d hd).1, (hfrees.taken d).mpr ⟨(h.taken d hd).2, hdc⟩⟩

/-- From a new cspace on, whatever is allocated and freed: a slot is not handed out while it is
held, and comes back at once if it is freed then; a held slot can be allocated again once freed;
and an upper bit is set only if its cnode has no free slot but the last. -/
theorem slot_not_handed_out_twice {root : Nat} {twoLevel : Bool} {cs₀ cs : CsState} {t : Sys}
    (hcreate : Exec Outside (cspaceCreate root twoLevel cs₀) true cs)
    (hrun : Lts.Run Step Allowed ⟨cs, []⟩ t) :
    (t.cs.NotFull → (cspaceAllocSlot t.cs).Meets Outside fun r cs' => r ≠ 0 →
      r ∉ t.held ∧ ∃ cs'', cspaceAllocSlot (cspaceFreeSlot cs' r) = .done r cs'') ∧
    (∀ c ∈ t.held, ∃ k slots cs', allocSlots k (cspaceFreeSlot t.cs c) = .done slots cs' ∧
      c ∈ slots) ∧
    (t.cs.twoLevel = true → ∀ i < cnodeSlots t.cs.topLvlSizeBits, bfGetBit t.cs.topBf i = true →
      ∀ b < cnodeSlots cnodeSizeBits - 1, bfGetBit (t.cs.field i) b = true) := by
  have hsound : Sound cs := (cspaceCreate_sound root twoLevel cs₀).exec hcreate rfl
  have ht : t.Sound := by
    refine hrun.invariant ⟨hsound, List.nodup_nil, fun c hc => ?_⟩ fun h hop hstep =>
      h.step hop hstep
    cases hc
  refine ⟨fun hfree => ?_, fun c hc => ?_, fun htwo i hi hset b hb => ?_⟩
  · refine (cspaceAllocSlot_meets ht.cs hfree).mono fun r cs' hout hr => ⟨fun hin => ?_, ?_⟩
    · exact (hout.taken_self hr).2 (ht.taken r hin).2
    · exact hout.again hr
  · exact freed_allocatable ht.cs (ht.taken c hc).2 (ht.taken c hc).1
  · rcases ht.cs with h | ⟨n, h⟩
    · rw [h.level] at htwo
      cases htwo
    · exact ((h.full i hi).mp hset).2 b hb

instance (cs : CsState) (c : Nat) : Decidable (cs.Present c) :=
  inferInstanceAs (Decidable (cs.twoLevel = true → c / 128 / botLvlPerNode < cs.nBotLvlNodes ∧
      c / 128 % botLvlPerNode < (cs.botLvlNodes (c / 128 / botLvlPerNode)).nCnodes))

instance (cs : CsState) (c : Nat) : Decidable (cs.Taken c) :=
  inferInstanceAs (Decidable (cs.Present c ∧
    if cs.twoLevel then bfGetBit (cs.field (c / 128)) (c % 128) = true
    else bfGetBit cs.topBf c = true))

instance (cs : CsState) (c : Nat) : Decidable (cs.Usable c) :=
  inferInstanceAs (Decidable (if cs.twoLevel then
      c / 128 < cnodeSlots cs.topLvlSizeBits ∧ c % 128 < 127
    else c < cnodeSlots cs.topLvlSizeBits))

def granting (_ : Request) (cs : CsState) : Reply × CsState := (⟨true, 1, 0⟩, cs)

lemma granting_outside (i : Request) (cs : CsState) :
    Outside i (granting i cs).1 cs (granting i cs).2 := rfl

theorem slot_three_not_handed_out_twice :
    ∃ cs t, Exec Outside (cspaceCreate 1 true (CsState.blank true)) true cs ∧
      Lts.Run Step Allowed ⟨cs, []⟩ t ∧ t.held = [3] ∧ t.cs.NotFull ∧
      (cspaceAllocSlot t.cs).Meets Outside fun r _ => r ≠ 3 := by
  have hplay : (match (cspaceCreate 1 true (CsState.blank true)).run granting with
      | .ok (ok, cs) => ok && decide (cs.Usable 3 ∧ ¬ cs.Taken 3) &&
          match (cspaceAllocSlot cs).run granting with
          | .ok (r, cs') => decide (r = 3 ∧ cs'.Usable 4 ∧ ¬ cs'.Taken 4)
          | .error _ => false
      | .error _ => false) = true := by decide +kernel
  split at hplay
  · rename_i ok cs hcreate
    obtain ⟨hok, hnext⟩ := Bool.and_eq_true_iff.mp hplay
    obtain ⟨rfl, hthree⟩ := Bool.and_eq_true_iff.mp hok
    split at hnext
    · rename_i r cs' halloc
      obtain ⟨rfl, hfour⟩ := of_decide_eq_true hnext
      have hexec := Res.exec_of_run granting_outside hcreate
      have hrun : Lts.Run Step Allowed ⟨cs, []⟩ ⟨cs', [3]⟩ :=
        .tail (a := .alloc) .refl ⟨3, of_decide_eq_true hthree⟩
          ⟨3, Res.exec_of_run granting_outside halloc, rfl⟩
      have hfree : cs'.NotFull := ⟨4, hfour⟩
      refine ⟨cs, ⟨cs', [3]⟩, hexec, hrun, rfl, hfree, ?_⟩
      refine ((slot_not_handed_out_twice hexec hrun).1 hfree).mono fun r _ hr => ?_
      rintro rfl
      exact (hr (by decide)).1 List.mem_cons_self
    · cases hnext
  · cases hplay

end SpaghettiOS.Cspace
