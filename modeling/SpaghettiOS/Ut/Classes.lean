import SpaghettiOS.Lib.Run
import SpaghettiOS.Ut.Ledger

/-!
# Size classes

The lists of free untypeds are in order when each node stands for an untyped of the size of
its list, when no two untypeds share a node or memory, and when no untyped is lost.

`ut_alloc` keeps them in order when it succeeds.  When a split fails, it frees the larger
untyped as a page, whatever its size, and it forgets the page it took for structures.
-/

namespace SpaghettiOS.Ut

open UtState
open Function (update_of_ne update update_self)
open List (mem_map append_assoc perm_middle nodup_cons map_cons mem_cons pairwise_cons
  mem_map_of_mem flatMap_nil nodup_nil)

variable {m : Machine} {s : UtState} {L : Head → List Nat} {out : List (Nat × Nat)}
  {spare : List Nat}

/-! ## Pages -/

lemma utAlloc4kUntyped_ledger (h : Ledger s L out spare) (hne : s.lists.head pageList ≠ 0) :
    ∃ L', Ledger (s.pop pageList).2 L' ((s.lists.head pageList, pageBits) :: out) spare ∧
      L' .freeStructures = L .freeStructures :=
  h.pop (k := sizeBitsToIndex pageBits) (by decide) hne

variable {b x larger : Nat}

lemma utFree_ledger (h : Ledger s L ((x, b) :: out) spare) (hlow : endpointBits ≤ b)
    (hhigh : b ≤ pageBits) :
    ∃ L', Ledger (utFree s x b) L' out spare ∧ L' .freeStructures = L .freeStructures := by
  have hb : sizeBitsToIndex b + endpointBits = b := Nat.sub_add_cancel hlow
  have hk : sizeBitsToIndex b < nUntypedLists := Nat.lt_succ_of_le (Nat.sub_le_sub_right hhigh _)
  obtain ⟨L', hL', hstruct, -⟩ := h.push hb.symm hk
  unfold utFree
  rw [if_neg (by omega)]
  exact ⟨L', hL', hstruct⟩

lemma takePages_eq (keeps : List Bool) (s : UtState) :
    ∃ lists history, takePages keeps s = { s with lists := lists, history := history } := by
  induction keeps generalizing s with
  | nil => exact ⟨s.lists, s.history, rfl⟩
  | cons keep rest ih =>
    unfold takePages utAlloc4kUntyped
    by_cases hz : s.lists.head pageList = 0
    · simp only [if_pos hz, if_true]
      exact ⟨s.lists, s.history, rfl⟩
    · simp only [if_neg hz, UtState.pop]
      cases keep with
      | true => exact ih _
      | false =>
        obtain ⟨lists, history, heq⟩ := ih { s with lists := s.lists.drop pageList }
        rw [heq]
        exact ⟨_, _, rfl⟩

lemma takePages_ledger (keeps : List Bool) (h : Ledger s L out spare) :
    ∃ L', Ledger (takePages keeps s) L' out spare ∧ L' .freeStructures = L .freeStructures := by
  induction keeps generalizing s L out with
  | nil => exact ⟨L, h, rfl⟩
  | cons keep rest ih =>
    unfold takePages utAlloc4kUntyped
    by_cases hz : s.lists.head pageList = 0
    · simp only [if_pos hz, if_true]
      exact ⟨L, h, rfl⟩
    · obtain ⟨L1, h1, hs1⟩ := utAlloc4kUntyped_ledger h hz
      simp only [if_neg hz, UtState.pop]
      cases keep with
      | true =>
        obtain ⟨L2, h2, hs2⟩ := ih h1.keep
        exact ⟨L2, h2, hs2.trans hs1⟩
      | false =>
        obtain ⟨L2, h2, hs2⟩ := ih h1
        obtain ⟨L3, h3, hs3⟩ := utFree_ledger h2 (by decide) (Nat.le_refl _)
        exact ⟨L3, h3, hs3.trans (hs2.trans hs1)⟩

structure Aside (s t : UtState) (L : Head → List Nat) (out : List (Nat × Nat)) (spare : List Nat)
    (L' : Head → List Nat) : Prop where
  ledger : Ledger t L' out spare
  structures : L' .freeStructures = L .freeStructures
  cap : t.cap = s.cap
  caps : t.caps = s.caps

lemma meanwhile_aside (m : Machine) (h : Ledger s L out spare) :
    ∃ L', Aside s (meanwhile m s) L out spare L' := by
  obtain ⟨L', h', hstruct⟩ := takePages_ledger (m.pages s.time) h
  obtain ⟨lists, history, heq⟩ := takePages_eq (m.pages s.time) s
  unfold meanwhile
  refine ⟨L', ?_, hstruct, ?_, ?_⟩
  · refine h'.congr rfl rfl rfl ?_ fun _ _ => rfl
    rw [heq]
    exact Nat.le_add_right _ _
  · rw [heq]
  · rw [heq]

lemma cspaceAllocSlot_aside (m : Machine) (h : Ledger s L out spare) :
    ∃ L', Aside s (cspaceAllocSlot m s).2 L out spare L' := by
  obtain ⟨L', h'⟩ := meanwhile_aside m h
  refine ⟨L', ?_⟩
  simp only [cspaceAllocSlot]
  split
  · exact h'
  · exact ⟨h'.ledger.congr rfl rfl rfl (Nat.le_refl _) fun _ _ => rfl, h'.structures, h'.cap,
      h'.caps⟩

/-! ## Retypes -/

lemma cspaceUntypedRetype_cases (m : Machine) (s : UtState) (ut target : Nat)
    (type : ObjectType) (bits : Nat) :
    (cspaceUntypedRetype m s ut target type bits = (false, { s with time := s.time + 1 })) ∨
      ∃ caps, seL4UntypedRetype s.caps ut target type bits = some caps ∧
        cspaceUntypedRetype m s ut target type bits =
          (true, { s with caps := caps, time := s.time + 1 }) := by
  unfold cspaceUntypedRetype
  split
  · rename_i caps hcaps
    split
    · exact .inr ⟨caps, hcaps, rfl⟩
    · exact .inl rfl
  · exact .inl rfl

lemma Ledger.cap_ne {slot : Nat} (h : Ledger s L out spare) (hslot : s.caps slot = none) :
    ∀ x ∈ s.came.map Prod.fst, s.cap x ≠ slot := by
  rintro x hx rfl
  obtain ⟨e, he, rfl⟩ := mem_map.mp hx
  obtain ⟨paddr, hp⟩ := h.sizes e he
  unfold UtState.extentOf extent at hp
  rw [hslot] at hp
  cases hp

lemma Ledger.retype {caps : Nat → Option Cap} {ut target bits : Nat} {type : ObjectType}
    (h : Ledger s L out spare) (hcaps : seL4UntypedRetype s.caps ut target type bits = some caps) :
    Ledger { s with caps := caps, time := s.time + 1 } L out spare := by
  obtain ⟨u, parent, -, htarget, -, -, -, hsame⟩ := seL4UntypedRetype_some hcaps
  exact h.congr rfl rfl rfl (Nat.le_refl _) fun x hx => hsame _ (h.cap_ne htarget x hx)

/-! ## Structures -/

def structuresAt (vaddr : Nat) : List Nat :=
  (List.range (pageSize4K / sizeofUt)).map fun i => vaddr + i * sizeofUt

lemma mem_structuresAt {vaddr : Nat} (hx : x ∈ structuresAt vaddr) :
    vaddr ≤ x ∧ x < vaddr + pageSize4K := by
  obtain ⟨i, hi, rfl⟩ := mem_map.mp hx
  have hlt : i < 256 := List.mem_range.mp hi
  unfold sizeofUt pageSize4K
  omega

lemma nodup_structuresAt (vaddr : Nat) : (structuresAt vaddr).Nodup := by
  refine List.nodup_range.map fun i j hij => ?_
  have heq : vaddr + i * sizeofUt = vaddr + j * sizeofUt := hij
  unfold sizeofUt at heq
  omega

lemma Ledger.map_page (h : Ledger s L out spare) (hne : s.nextFreeVaddr ≠ 0) :
    Ledger { s with nextFreeVaddr := s.nextFreeVaddr + pageSize4K } L out
      (structuresAt s.nextFreeVaddr ++ spare) := by
  have hgrow : s.nextFreeVaddr ≤ s.nextFreeVaddr + pageSize4K := Nat.le_add_right _ _
  have hperm : (L .freeStructures ++ (structuresAt s.nextFreeVaddr ++ spare)).Perm
      (structuresAt s.nextFreeVaddr ++ (L .freeStructures ++ spare)) := by
    rw [← append_assoc, ← append_assoc]
    exact List.perm_append_comm.append_right _
  have h' : Ledger { s with nextFreeVaddr := s.nextFreeVaddr + pageSize4K } L out spare :=
    h.congr rfl rfl rfl hgrow fun _ _ => rfl
  refine { h' with spare_nodup := hperm.nodup_iff.mpr ?_, blank := fun x hx => ?_,
                   high := fun x hx => ?_ }
  · refine List.nodup_append.mpr ⟨nodup_structuresAt _, h.spare_nodup, ?_⟩
    rintro x hx y hy rfl
    have hlow := (mem_structuresAt hx).1
    have hold := (h.high x hy).2.1
    omega
  · rcases List.mem_append.mp (hperm.mem_iff.mp hx) with hx | hx
    · intro hcame
      have hlow := (mem_structuresAt hx).1
      have hold := (h.low x hcame).1
      omega
    · exact h.blank x hx
  · rcases List.mem_append.mp (hperm.mem_iff.mp hx) with hx | hx
    · obtain ⟨hlow, hhigh⟩ := mem_structuresAt hx
      have hfits := h.fits
      exact ⟨Nat.le_trans hfits hlow, hhigh, by omega⟩
    · exact h'.high x hx

lemma Ledger.push_structures (nodes : List Nat) (h : Ledger s L out (nodes ++ spare)) :
    ∃ L', Ledger (nodes.foldl (fun s x => s.push .freeStructures x) s) L' out spare ∧
      (L' .freeStructures).length = (L .freeStructures).length + nodes.length := by
  induction nodes generalizing s L with
  | nil => exact ⟨L, h, rfl⟩
  | cons x nodes ih =>
    obtain ⟨L1, h1, hl1⟩ := h.push_structure
    obtain ⟨L2, h2, hl2⟩ := ih h1
    refine ⟨L2, h2, ?_⟩
    rw [hl2, hl1, List.length_cons, List.length_cons]
    omega

lemma bootstrapMapFrame_ledger (m : Machine) (h : Ledger s L out spare) (cptr : Nat) :
    ∃ L', Ledger (bootstrapMapFrame m s cptr).2 L' out
      ((if (bootstrapMapFrame m s cptr).1 = 0 then []
        else structuresAt (bootstrapMapFrame m s cptr).1) ++ spare) := by
  obtain ⟨L', h'⟩ := meanwhile_aside m h
  refine ⟨L', ?_⟩
  simp only [bootstrapMapFrame]
  by_cases hok : m.mapOk s.time = true
  · simp only [if_pos hok]
    by_cases hvaddr : (meanwhile m s).nextFreeVaddr = 0
    · rw [if_pos hvaddr, List.nil_append]
      exact h'.ledger.congr rfl rfl rfl (Nat.le_add_right _ _) fun _ _ => rfl
    · rw [if_neg hvaddr]
      exact h'.ledger.map_page hvaddr
  · simp only [if_neg hok, if_true, List.nil_append]
    exact h'.ledger

lemma structuresFrom_ledger (m : Machine) {frame : Nat}
    (h : Ledger s L ((frame, pageBits) :: out) []) : ((structuresFrom m s frame).1 = true ∧
      ∃ L', Ledger (structuresFrom m s frame).2 L' out [] ∧ 2 ≤ (L' .freeStructures).length) ∨
    ((structuresFrom m s frame).1 = false ∧
      ∃ L', Ledger (structuresFrom m s frame).2 L' ((frame, pageBits) :: out) []) := by
  obtain ⟨L1, h1⟩ := cspaceAllocSlot_aside m h
  unfold structuresFrom
  generalize cspaceAllocSlot m s = r at h1 ⊢
  obtain ⟨cptr, s1⟩ := r
  simp only at h1 ⊢
  split
  · exact .inr ⟨rfl, L1, h1.ledger⟩
  rcases cspaceUntypedRetype_cases m s1 (s1.cap frame) cptr .smallPage pageBits with
    hfail | ⟨caps, hcaps, hok⟩
  · simp only [hfail]
    exact .inr ⟨trivial, L1, h1.ledger.congr rfl rfl rfl (Nat.le_refl _) fun _ _ => rfl⟩
  · simp only [hok]
    obtain ⟨L2, h2⟩ := bootstrapMapFrame_ledger m (h1.ledger.retype hcaps) cptr
    generalize bootstrapMapFrame m { s1 with caps := caps, time := s1.time + 1 } cptr = r at h2 ⊢
    obtain ⟨newUts, s2⟩ := r
    simp only at h2 ⊢
    by_cases hnull : newUts = 0
    · rw [if_pos hnull] at h2 ⊢
      exact .inr ⟨rfl, L2, h2⟩
    · rw [if_neg hnull] at h2 ⊢
      obtain ⟨L3, h3, hlen⟩ := Ledger.push_structures _ h2.keep
      simp only [structuresAt, List.foldl_map] at h3
      dsimp only
      refine .inl ⟨rfl, L3, h3, ?_⟩
      rw [hlen, structuresAt, List.length_map, List.length_range]
      exact Nat.le_trans (by decide) (Nat.le_add_left _ _)

/-- There is a page, and `ensure_new_structures` fails. -/
def LosesPage (m : Machine) (s : UtState) : Prop :=
  (ensureNewStructures m s).1 = false ∧ s.lists.head pageList ≠ 0

lemma ensureNewStructures_ledger (m : Machine) (h : Ledger s L out []) :
    ((ensureNewStructures m s).1 = true ∧
      ∃ L', Ledger (ensureNewStructures m s).2 L' out [] ∧ 2 ≤ (L' .freeStructures).length) ∨
    ((ensureNewStructures m s).1 = false ∧ s.lists.head pageList = 0 ∧
      Ledger (ensureNewStructures m s).2 L out []) ∨ (LosesPage m s ∧
      ∃ L' frame, Ledger (ensureNewStructures m s).2 L' ((frame, pageBits) :: out) []) := by
  unfold LosesPage ensureNewStructures
  split
  · unfold utAlloc4kUntyped
    by_cases hz : s.lists.head pageList = 0
    · simp only [if_pos hz, if_true]
      exact .inr (.inl ⟨trivial, hz, h⟩)
    · obtain ⟨L1, h1, -⟩ := utAlloc4kUntyped_ledger h hz
      simp only [if_neg hz, UtState.pop] at h1 ⊢
      rcases structuresFrom_ledger m h1 with ⟨hok, L2, h2⟩ | ⟨hfail, L2, h2⟩
      · exact .inl ⟨hok, L2, h2⟩
      · exact .inr (.inr ⟨⟨hfail, hz⟩, L2, _, h2⟩)
  · rename_i hplenty
    rw [not_or] at hplenty
    obtain ⟨l, hl, hnext⟩ := h.lists.eq_cons hplenty.1
    refine .inl ⟨rfl, L, h, ?_⟩
    cases l with
    | nil => exact absurd (hnext.mpr rfl) hplenty.2
    | cons y l =>
      rw [hl]
      exact Nat.le_add_left 2 l.length

/-! ## Splits -/

lemma newStructure_aside (m : Machine) {l : List Nat} (h : Ledger s L out spare)
    (hl : L .freeStructures = x :: l) :
    ∃ L', (newStructure m s).1 = x ∧ Ledger (newStructure m s).2 L' out (x :: spare) ∧
      L' .freeStructures = l := by
  obtain ⟨L1, h1, hl1⟩ := h.pop_structure hl
  obtain ⟨L2, h2⟩ := cspaceAllocSlot_aside m h1
  have hx : s.lists.head .freeStructures = x := by
    have hchain := h.lists.chain .freeStructures
    rw [hl] at hchain
    exact hchain.1
  unfold newStructure
  simp only [UtState.pop, hx] at h1 h2 ⊢
  refine ⟨L2, trivial, h2.ledger.congr rfl rfl rfl (Nat.le_refl _) fun y hy => ?_,
    h2.structures.trans hl1⟩
  have hne : y ≠ x := by
    rintro rfl
    exact h2.ledger.blank y (by simp) hy
  simp only [UtState.extentOf, UtState.setCap, update_of_ne hne]

lemma Ledger.split {new1 new2 p q r : Nat}
    (h : Ledger s L ((larger, b + 1) :: out) (new2 :: new1 :: spare))
    (hlarger : s.extentOf larger = some (p, b + 1)) (hnew1 : s.extentOf new1 = some (q, b))
    (hnew2 : s.extentOf new2 = some (r, b)) (hlow : p ≤ q) (hmid : q + 2 ^ b ≤ r)
    (hhigh : r + 2 ^ b ≤ p + 2 ^ (b + 1)) :
    Ledger (s.log (.split larger new1 new2 b)) L ((new2, b) :: (new1, b) :: out) spare := by
  have hcame : (s.log (.split larger new1 new2 b)).came = (new1, b) :: (new2, b) :: s.came := rfl
  have hin1 : new1 ∈ L .freeStructures ++ new2 :: new1 :: spare := by simp
  have hin2 : new2 ∈ L .freeStructures ++ new2 :: new1 :: spare := by simp
  have hsub : (L .freeStructures ++ spare).Sublist (L .freeStructures ++ new2 :: new1 :: spare) :=
    List.Sublist.append_left ((List.sublist_cons_self _ _).trans (List.sublist_cons_self _ _)) _
  have hspare : (new2 :: new1 :: (L .freeStructures ++ spare)).Nodup :=
    (perm_middle.trans (perm_middle.cons _)).nodup_iff.mp h.spare_nodup
  obtain ⟨h2, hspare⟩ := nodup_cons.mp hspare
  obtain ⟨h1, -⟩ := nodup_cons.mp hspare
  have hne : new1 ≠ new2 := fun heq => h2 (heq ▸ List.mem_cons_self)
  constructor
  · exact h.lists
  · exact h.beyond
  · rw [hcame]
    have hgone : (s.log (.split larger new1 new2 b)).gone = (larger, b + 1) :: s.gone := rfl
    rw [hgone]
    refine ((h.adds_up.cons _).cons _).trans (List.perm_iff_count.mpr fun e => ?_)
    simp only [List.count_cons, List.count_append]
    omega
  · rw [hcame]
    simp only [map_cons]
    refine nodup_cons.mpr ⟨?_, nodup_cons.mpr ⟨h.blank new2 hin2, h.nodup⟩⟩
    exact List.not_mem_cons_of_ne_of_not_mem hne (h.blank new1 hin1)
  · exact h.spare_nodup.sublist hsub
  · rw [hcame]
    intro x hx
    simp only [map_cons]
    refine List.not_mem_cons_of_ne_of_not_mem ?_
      (List.not_mem_cons_of_ne_of_not_mem ?_ (h.blank x (hsub.subset hx)))
    · rintro rfl
      exact h1 hx
    · rintro rfl
      exact h2 (List.mem_cons_of_mem _ hx)
  · exact fun x hx => h.high x (hsub.subset hx)
  · rw [hcame]
    intro x hx
    simp only [map_cons, mem_cons] at hx
    rcases hx with rfl | rfl | hx
    · exact ⟨(h.high _ hin1).2.1, (h.high _ hin1).2.2⟩
    · exact ⟨(h.high _ hin2).2.1, (h.high _ hin2).2.2⟩
    · exact h.low x hx
  · exact h.fits
  · rw [hcame]
    intro e he
    rcases mem_cons.mp he with rfl | he
    · exact ⟨q, hnew1⟩
    rcases mem_cons.mp he with rfl | he
    · exact ⟨r, hnew2⟩
    · exact h.sizes e he
  · have hold : ((larger, b + 1) :: (entries L ++ out ++ s.keptPages)).Pairwise fun e f =>
        Separate (s.extentOf e.1) (s.extentOf f.1) := by
      refine separate_perm ?_ h.separate
      rw [append_assoc, List.cons_append, append_assoc]
      exact perm_middle
    obtain ⟨hpart, hrest⟩ := pairwise_cons.mp hold
    rw [hlarger] at hpart
    have hpos : 0 < 2 ^ b := Nat.two_pow_pos b
    refine separate_perm (l := (new2, b) :: (new1, b) :: (entries L ++ out ++ s.keptPages)) ?_ ?_
    · simp only [append_assoc, List.cons_append]
      exact (perm_middle.trans (perm_middle.cons _)).symm
    · refine pairwise_cons.mpr ⟨fun f hf => ?_, pairwise_cons.mpr ⟨fun f hf => ?_, hrest⟩⟩
      · change Separate (s.extentOf new2) (s.extentOf f.1)
        rw [hnew2]
        rcases mem_cons.mp hf with rfl | hf
        · change Separate _ (s.extentOf new1)
          rw [hnew1]
          exact .inr hmid
        · exact (hpart f hf).part (by omega) hhigh
      · change Separate (s.extentOf new1) (s.extentOf f.1)
        rw [hnew1]
        exact (hpart f hf).part hlow (by omega)

lemma retypeBoth_ledger (m : Machine) {new1 new2 : Nat}
    (h : Ledger s L ((larger, b + 1) :: out) [new2, new1]) (hlow : endpointBits ≤ b)
    (hhigh : b < pageBits) : ((retypeBoth m s larger new1 new2 b).1 = true ∧
      ∃ L', Ledger (retypeBoth m s larger new1 new2 b).2 L' out [] ∧
        L' (.freeUntypeds (sizeBitsToIndex b)) ≠ []) ∨
    ((retypeBoth m s larger new1 new2 b).1 = false ∧
      ∃ L', Ledger (retypeBoth m s larger new1 new2 b).2 L' ((larger, b + 1) :: out) []) := by
  obtain ⟨p, hp⟩ := h.sizes _ h.mem_out.1
  unfold retypeBoth
  rcases cspaceUntypedRetype_cases m s (s.cap larger) (s.cap new1) .untyped b with
    hfail | ⟨caps1, hcaps₁, hok⟩
  · simp only [hfail]
    have h' : Ledger (cspaceFreeSlot (cspaceFreeSlot { s with time := s.time + 1 } (s.cap new1))
        (s.cap new2)) L ((larger, b + 1) :: out) [new2, new1] :=
      h.congr rfl rfl rfl (Nat.le_refl _) fun _ _ => rfl
    obtain ⟨L', hL', -⟩ := (h'.spare_perm (List.Perm.swap _ _ _)).push_structure
    exact .inr ⟨trivial, L', hL'.drop_spare⟩
  simp only [hok]
  obtain ⟨-, -, -, hempty, -⟩ := seL4UntypedRetype_some hcaps₁
  have h1 := h.retype hcaps₁
  rcases cspaceUntypedRetype_cases m { s with caps := caps1, time := s.time + 1 }
    (s.cap larger) (s.cap new2) .untyped b with hfail | ⟨caps2, hcaps₂, hok⟩
  · simp only [hfail]
    have h' : Ledger (cspaceFreeSlot (cspaceFreeSlot (cspaceDelete
        { s with caps := caps1, time := s.time + 1 + 1 } (s.cap new1)) (s.cap new1))
        (s.cap new2)) L ((larger, b + 1) :: out) [new2, new1] :=
      h1.congr rfl rfl rfl (Nat.le_refl _) fun x hx =>
        extent_seL4CNodeDelete caps1 (h.cap_ne hempty x hx)
    obtain ⟨L1, hL1, -⟩ := (h'.spare_perm (List.Perm.swap _ _ _)).push_structure
    obtain ⟨L2, hL2, -⟩ := hL1.push_structure
    exact .inr ⟨trivial, L2, hL2⟩
  · simp only [hok]
    obtain ⟨q, r, hlarger, hnew1, hnew2, hq, hmid, hr⟩ := extent_retype_twice hcaps₁ hcaps₂ hp
    have hsplit := (h1.retype hcaps₂).split hlarger hnew1 hnew2 hq hmid hr
    have hb : b = sizeBitsToIndex b + endpointBits := (Nat.sub_add_cancel hlow).symm
    have hk : sizeBitsToIndex b < nUntypedLists :=
      Nat.lt_succ_of_le (Nat.sub_le_sub_right (Nat.le_of_lt hhigh) _)
    obtain ⟨L1, hL1, -, -⟩ := (hsplit.out_perm (List.Perm.swap _ _ _)).push hb hk
    obtain ⟨L2, hL2, -, hin⟩ := hL1.push hb hk
    exact .inl ⟨trivial, L2, hL2, List.ne_nil_of_mem hin⟩

lemma split_ledger (m : Machine) (h : Ledger s L ((larger, b + 1) :: out) [])
    (hlow : endpointBits ≤ b) (hhigh : b < pageBits) : ((split m s larger b).1 = true ∧
      ∃ L', Ledger (split m s larger b).2 L' out [] ∧ L' (.freeUntypeds (sizeBitsToIndex b)) ≠ []) ∨
    ((split m s larger b).1 = false ∧ ¬ LosesPage m s ∧
      ∃ L', Ledger (split m s larger b).2 L' ((larger, b + 1) :: out) []) ∨
    ((split m s larger b).1 = false ∧ LosesPage m s ∧ ∃ L' frame, Ledger (split m s larger b).2 L'
        ((frame, pageBits) :: (larger, b + 1) :: out) []) := by
  have hens := ensureNewStructures_ledger m h
  unfold LosesPage at hens ⊢
  unfold split
  generalize ensureNewStructures m s = r at hens ⊢
  obtain ⟨ok, s1⟩ := r
  simp only at hens
  rcases hens with ⟨rfl, L1, h1, hlen⟩ | ⟨rfl, hpages, h1⟩ | ⟨⟨rfl, hpages⟩, L1, frame, h1⟩
  · have hkept : ¬ (true = false ∧ s.lists.head pageList ≠ 0) := by simp
    simp only
    obtain ⟨x, y, l, hl⟩ : ∃ x y l, L1 .freeStructures = x :: y :: l := by
      match hL : L1 .freeStructures, hlen with
      | x :: y :: l, _ => exact ⟨x, y, l, rfl⟩
    obtain ⟨L2, hx, h2, hl2⟩ := newStructure_aside m h1 hl
    generalize newStructure m s1 = r at hx h2 ⊢
    obtain ⟨new1, s2⟩ := r
    obtain rfl : new1 = x := hx
    simp only at h2 ⊢
    split
    · exact .inr (.inl ⟨rfl, hkept, L2, h2.drop_spare⟩)
    obtain ⟨L3, hy, h3, -⟩ := newStructure_aside m h2 hl2
    generalize newStructure m s2 = r at hy h3 ⊢
    obtain ⟨new2, s3⟩ := r
    obtain rfl : new2 = y := hy
    simp only at h3 ⊢
    split
    · exact .inr (.inl ⟨rfl, hkept, L3, h3.drop_spare.drop_spare.congr rfl rfl rfl
        (Nat.le_refl _) fun _ _ => rfl⟩)
    · rcases retypeBoth_ledger m h3 hlow hhigh with hok | ⟨hfail, hL⟩
      · exact .inl hok
      · exact .inr (.inl ⟨hfail, hkept, hL⟩)
  · exact .inr (.inl ⟨rfl, fun hlose => hlose.2 hpages, L, h1⟩)
  · exact .inr (.inr ⟨rfl, ⟨rfl, hpages⟩, L1, frame, h1⟩)

/-! ## Order -/

def Apart (s : UtState) (e f : Nat × Nat) : Prop :=
  e.1 ≠ f.1 ∧ Separate (s.extentOf e.1) (s.extentOf f.1)

/-- Each list has untypeds of its size, those that are free, allocated or kept are apart, and
none is lost. -/
def InOrder (s : UtState) (allocated : List (Nat × Nat)) : Prop :=
  ∃ L, s.lists.Holds L ∧ (∀ k < nUntypedLists, ∀ x ∈ L (.freeUntypeds k),
      ∃ paddr, s.extentOf x = some (paddr, k + endpointBits)) ∧
    (entries L ++ allocated ++ s.keptPages).Pairwise (Apart s) ∧
    ∀ e ∈ s.came, e ∈ entries L ++ allocated ++ s.gone

lemma Ledger.inOrder (h : Ledger s L out spare) : InOrder s out := by
  refine ⟨L, h.lists, fun k hk x hx => ?_, ?_, fun e he => h.adds_up.mem_iff.mp he⟩
  · exact h.sizes (x, k + endpointBits) (h.live_came _ (List.mem_append_left _
      (List.mem_append_left _ (mem_entries.mpr ⟨k, hk, hx, rfl⟩))))
  · have hnodes : ((entries L ++ out ++ s.keptPages).map Prod.fst).Nodup :=
      ((h.adds_up.map Prod.fst).nodup_iff.mp h.nodup).sublist
        ((s.keptPages_sublist.append_left _).map Prod.fst)
    exact (List.pairwise_map.mp hnodes).and h.separate

lemma Ledger.not_inOrder_of_lost {e : Nat × Nat} (h : Ledger s L (e :: out) spare) :
    ¬ InOrder s out := by
  rintro ⟨L', hL', -, -, hall⟩
  obtain rfl := h.lists.unique hL'
  exact h.mem_out.2 e (hall e h.mem_out.1) rfl

lemma Ledger.not_inOrder_of_misplaced (h : Ledger s L ((x, b) :: out) spare) (hb : b ≠ pageBits)
    (allocated : List (Nat × Nat)) : ¬ InOrder (utFree s x pageBits) allocated := by
  rintro ⟨L', hL', hexact, -, -⟩
  have hx : x ≠ 0 := (h.low x (mem_map_of_mem h.mem_out.1)).2
  obtain rfl := (h.lists.push pageList hx fun j => h.out_not_mem j).unique hL'
  obtain ⟨paddr, hp⟩ := hexact (sizeBitsToIndex pageBits) (by decide) x (by
    change x ∈ update L pageList (x :: L pageList) pageList
    rw [update_self]
    exact List.mem_cons_self)
  obtain ⟨paddr', hp'⟩ := h.sizes _ h.mem_out.1
  have hbits := congrArg Prod.snd (Option.some.inj (hp'.symm.trans hp))
  exact hb hbits

/-! ## Allocations -/

/-- On the way to the size that is asked for, a split fails that is not that of a page, or
for which a page of structures was taken. -/
def StraysBelow (m : Machine) : Nat → UtState → Prop
  | 0, _ => False
  | depth + 1, s =>
      let r := utAllocBelow m depth s
      s.lists.head (.freeUntypeds (sizeBitsToIndex (pageBits - (depth + 1)))) = 0 ∧
        if r.1 = 0 then StraysBelow m depth s
        else (split m r.2 r.1 (pageBits - (depth + 1))).1 = false ∧ (depth ≠ 0 ∨ LosesPage m r.2)

instance (m : Machine) (s : UtState) : Decidable (LosesPage m s) :=
  inferInstanceAs (Decidable (_ ∧ _))

instance decidableStraysBelow (m : Machine) :
    ∀ (depth : Nat) (s : UtState), Decidable (StraysBelow m depth s)
  | 0, _ => .isFalse id
  | depth + 1, s =>
      have := decidableStraysBelow m depth s
      inferInstanceAs (Decidable
        (s.lists.head (.freeUntypeds (sizeBitsToIndex (pageBits - (depth + 1)))) = 0 ∧
          if (utAllocBelow m depth s).1 = 0 then StraysBelow m depth s
          else (split m (utAllocBelow m depth s).2 (utAllocBelow m depth s).1
              (pageBits - (depth + 1))).1 = false ∧
            (depth ≠ 0 ∨ LosesPage m (utAllocBelow m depth s).2)))

def Allocated (r : Nat × UtState) (b : Nat) (out : List (Nat × Nat)) : Prop :=
  ∃ L, Ledger r.2 L (if r.1 = 0 then out else (r.1, b) :: out) []

lemma pop_allocated (h : Ledger s L out []) (hlow : endpointBits ≤ b) (hhigh : b ≤ pageBits)
    (hne : L (.freeUntypeds (sizeBitsToIndex b)) ≠ []) :
    Allocated (s.pop (.freeUntypeds (sizeBitsToIndex b))) b out := by
  have hhead : s.lists.head (.freeUntypeds (sizeBitsToIndex b)) ≠ 0 :=
    fun hz => hne ((h.lists.head_eq_zero_iff _).mp hz)
  have hk : sizeBitsToIndex b < nUntypedLists := Nat.lt_succ_of_le (Nat.sub_le_sub_right hhigh _)
  obtain ⟨L', h', -⟩ := h.pop hk hhead
  have hb : sizeBitsToIndex b + endpointBits = b := Nat.sub_add_cancel hlow
  rw [hb] at h'
  exact ⟨L', (if_neg hhead).symm ▸ h'⟩

lemma utAlloc4kUntyped_allocated (h : Ledger s L out []) :
    Allocated (utAlloc4kUntyped s) pageBits out := by
  unfold utAlloc4kUntyped
  by_cases hz : s.lists.head pageList = 0
  · rw [if_pos hz]
    exact ⟨L, h⟩
  · rw [if_neg hz]
    exact pop_allocated h (by decide) (Nat.le_refl _) fun hnil =>
      hz ((h.lists.head_eq_zero_iff _).mpr hnil)

lemma utAllocBelow_ledger (m : Machine) {depth : Nat} (hdepth : depth ≤ pageBits - endpointBits)
    (h : Ledger s L out []) :
    (¬ StraysBelow m depth s → Allocated (utAllocBelow m depth s) (pageBits - depth) out) ∧
    (StraysBelow m depth s → (utAllocBelow m depth s).1 = 0 ∧
      ¬ InOrder (utAllocBelow m depth s).2 out) := by
  induction depth generalizing s L with
  | zero => exact ⟨fun _ => utAlloc4kUntyped_allocated h, fun hs => hs.elim⟩
  | succ depth ih =>
    have hlow : endpointBits ≤ pageBits - (depth + 1) := by omega
    have hhigh : pageBits - (depth + 1) < pageBits := by unfold pageBits; omega
    have hbits : pageBits - depth = pageBits - (depth + 1) + 1 := by omega
    obtain ⟨ihok, ihstray⟩ := ih (by omega) h
    simp only [StraysBelow, utAllocBelow]
    by_cases hhead : s.lists.head (.freeUntypeds (sizeBitsToIndex (pageBits - (depth + 1)))) = 0
    · simp only [hhead, true_and]
      generalize utAllocBelow m depth s = r at ihok ihstray ⊢
      obtain ⟨larger, t⟩ := r
      simp only at ihok ihstray ⊢
      by_cases hnull : larger = 0
      · simp only [if_pos hnull]
        refine ⟨fun hno => ?_, fun hs => ⟨rfl, (ihstray hs).2⟩⟩
        obtain ⟨L', h'⟩ := ihok hno
        rw [if_pos hnull] at h'
        exact ⟨L', h'⟩
      simp only [if_neg hnull]
      obtain ⟨L', h'⟩ := ihok fun hs => hnull (ihstray hs).1
      rw [if_neg hnull, hbits] at h'
      rcases split_ledger m h' hlow hhigh with
        ⟨hok, L1, h1, hne⟩ | ⟨hfail, hkept, L1, h1⟩ | ⟨hfail, hlost, L1, frame, h1⟩
      · generalize split m t larger (pageBits - (depth + 1)) = r at hok h1 ⊢
        obtain ⟨ok, u⟩ := r
        obtain rfl : ok = true := hok
        exact ⟨fun _ => pop_allocated h1 hlow (Nat.le_of_lt hhigh) hne, fun hs => by cases hs.1⟩
      · generalize split m t larger (pageBits - (depth + 1)) = r at hfail h1 ⊢
        obtain ⟨ok, u⟩ := r
        obtain rfl : ok = false := hfail
        by_cases htop : depth = 0
        · subst htop
          refine ⟨fun _ => ?_, fun hs => absurd hs.2 (by simp [hkept])⟩
          obtain ⟨L2, h2, -⟩ := utFree_ledger h1 (by decide) (by decide)
          exact ⟨L2, h2⟩
        · refine ⟨fun hno => absurd ⟨rfl, .inl htop⟩ hno, fun _ => ⟨rfl, ?_⟩⟩
          exact h1.not_inOrder_of_misplaced (by omega) out
      · generalize split m t larger (pageBits - (depth + 1)) = r at hfail h1 ⊢
        obtain ⟨ok, u⟩ := r
        obtain rfl : ok = false := hfail
        refine ⟨fun hno => absurd ⟨rfl, .inr hlost⟩ hno, fun _ => ⟨rfl, ?_⟩⟩
        have h2 := h1.out_perm (List.Perm.swap _ _ _)
        by_cases htop : depth = 0
        · subst htop
          obtain ⟨L2, h2, -⟩ := utFree_ledger h2 (by decide) (by decide)
          exact h2.not_inOrder_of_lost
        · exact h2.not_inOrder_of_misplaced (by omega) out
    · simp only [hhead, false_and, not_false_eq_true, forall_true_left,
        IsEmpty.forall_iff, and_true]
      exact pop_allocated h hlow (Nat.le_of_lt hhigh) fun hnil =>
        hhead ((h.lists.head_eq_zero_iff _).mpr hnil)

/-! ## Runs -/

structure Sys where
  table : UtState
  allocated : List (Nat × Nat)

inductive Op where
  | addUntypedRange (paddr cap n : Nat) (device : Bool)
  | alloc (sizeBits : Nat)
  | alloc4kUntyped
  | free (node sizeBits : Nat)
deriving DecidableEq, Repr

def Sys.hand (s : Sys) (r : Nat × UtState) (sizeBits : Nat) : Sys :=
  ⟨r.2, if r.1 = 0 then s.allocated else (r.1, sizeBits) :: s.allocated⟩

def Sys.step (m : Machine) (s : Sys) : Op → Sys
  | .addUntypedRange paddr cap n device =>
      { s with table := utAddUntypedRange s.table paddr cap n device }
  | .alloc sizeBits => s.hand (utAlloc m s.table sizeBits) sizeBits
  | .alloc4kUntyped => s.hand (utAlloc4kUntyped s.table) pageBits
  | .free node sizeBits => ⟨utFree s.table node sizeBits, s.allocated.erase (node, sizeBits)⟩

/-- A range is in the memory that the table was made for and new to it; if it is not a device's,
its slots hold pages that share nothing with what the table has. What is freed was allocated,
with that size. -/
def Allowed (s : Sys) : Op → Prop
  | .addUntypedRange paddr cap n device =>
      s.table.firstPaddr ≤ paddr ∧ ∀ i < n,
        s.table.paddrToUt (paddr + i * pageSize4K) ∉ s.table.came.map Prod.fst ∧
        s.table.paddrToUt (paddr + i * pageSize4K) < s.table.tableEnd ∧
        s.table.paddrToUt (paddr + i * pageSize4K) ≠ 0 ∧ (device = false →
          extent s.table.caps (cap + i) = some (paddr + i * pageSize4K, pageBits) ∧
          ∀ e ∈ s.table.came, Separate (some (paddr + i * pageSize4K, pageBits))
            (s.table.extentOf e.1))
  | .free node sizeBits => (node, sizeBits) ∈ s.allocated
  | _ => True

instance (s : Sys) : ∀ op, Decidable (Allowed s op)
  | .addUntypedRange _ _ _ _ => inferInstanceAs (Decidable (_ ∧ ∀ i < _, _ ∧ _ ∧ _ ∧ (_ → _ ∧ _)))
  | .free _ _ => inferInstanceAs (Decidable (_ ∈ _))
  | .alloc _ => .isTrue trivial
  | .alloc4kUntyped => .isTrue trivial

/-- An allocation that fails half-way. -/
def Strays (m : Machine) (s : Sys) : Op → Prop
  | .alloc sizeBits =>
      endpointBits ≤ sizeBits ∧ sizeBits ≤ pageBits ∧ StraysBelow m (pageBits - sizeBits) s.table
  | _ => False

instance (m : Machine) (s : Sys) : ∀ op, Decidable (Strays m s op)
  | .alloc _ => inferInstanceAs (Decidable (_ ∧ _ ∧ StraysBelow m _ s.table))
  | .addUntypedRange _ _ _ _ => .isFalse id
  | .alloc4kUntyped => .isFalse id
  | .free _ _ => .isFalse id

def Sys.InOrder (s : Sys) : Prop := Ut.InOrder s.table s.allocated

def Sys.Ledger (s : Sys) : Prop :=
  (∃ L, Ut.Ledger s.table L s.allocated []) ∧ ∀ e ∈ s.allocated, endpointBits ≤ e.2 ∧ e.2 ≤ pageBits

lemma paddrToUt_add (s : UtState) {paddr : Nat} (h : s.firstPaddr ≤ paddr) (i : Nat) :
    s.paddrToUt (paddr + i * pageSize4K) = s.paddrToUt paddr + i * sizeofUt := by
  unfold UtState.paddrToUt
  have hsub : paddr + i * pageSize4K - s.firstPaddr = paddr - s.firstPaddr + i * pageSize4K := by
    omega
  rw [hsub, Nat.add_mul_div_right _ _ (by decide), Nat.add_mul, Nat.add_assoc]

/-- After the first pages of a range have been added: what was there is as it was, and the
new pages are at their places. -/
structure Adding (s t : UtState) (paddr : Nat) (out : List (Nat × Nat)) (n : Nat) : Prop where
  ledger : ∃ L, Ledger t L out []
  caps : t.caps = s.caps
  table : t.firstPaddr = s.firstPaddr ∧ t.untypeds = s.untypeds ∧ t.tableEnd = s.tableEnd
  came : ∀ e ∈ t.came, e ∈ s.came ∧ t.extentOf e.1 = s.extentOf e.1 ∨
    ∃ j < n, e.1 = s.paddrToUt (paddr + j * pageSize4K) ∧
      t.extentOf e.1 = some (paddr + j * pageSize4K, pageBits)

lemma adding (h : Ledger s L out []) {paddr cap : Nat} {device : Bool} (n : Nat)
    (hallowed : Allowed ⟨s, out⟩ (.addUntypedRange paddr cap n device)) :
    Adding s (utAddUntypedRange s paddr cap n device) paddr out n := by
  obtain ⟨hfirst, hfresh⟩ := hallowed
  unfold utAddUntypedRange
  induction n with
  | zero => exact ⟨⟨L, h⟩, rfl, ⟨rfl, rfl, rfl⟩, fun e he => .inl ⟨he, rfl⟩⟩
  | succ n ih =>
    obtain ⟨⟨L', h'⟩, hcaps, ⟨htable₁, htable₂, htable₃⟩, hcame⟩ :=
      ih fun i hi => hfresh i (Nat.lt_succ_of_lt hi)
    rw [List.range_succ, List.foldl_append]
    simp only [List.foldl_cons, List.foldl_nil]
    generalize (List.range n).foldl (utAddUntyped paddr cap device) s = t at *
    obtain ⟨hnew, hend, hne, hpage⟩ := hfresh n (Nat.lt_succ_self n)
    have hnode : t.paddrToUt (paddr + n * pageSize4K) = s.paddrToUt (paddr + n * pageSize4K) := by
      unfold UtState.paddrToUt
      rw [htable₁, htable₂]
    simp only [utAddUntyped, hnode]
    generalize hx : s.paddrToUt (paddr + n * pageSize4K) = x at *
    have hnew' : x ∉ t.came.map Prod.fst := by
      intro hin
      obtain ⟨e, he, rfl⟩ := mem_map.mp hin
      rcases hcame e he with ⟨hold, -⟩ | ⟨j, hj, heq, -⟩
      · exact hnew (mem_map_of_mem hold)
      · rw [← hx, paddrToUt_add s hfirst, paddrToUt_add s hfirst] at heq
        have hjn : n * sizeofUt = j * sizeofUt := Nat.add_left_cancel heq
        exact absurd (Nat.eq_of_mul_eq_mul_right (by decide) hjn) (Nat.ne_of_gt hj)
    have hkeep : ∀ y ∈ t.came.map Prod.fst, UtState.extentOf { t.setCap x (cap + n) with
          valid := update t.valid x true } y = t.extentOf y := by
      intro y hy
      have hyx : y ≠ x := fun hyx => hnew' (hyx ▸ hy)
      simp only [UtState.extentOf, UtState.setCap, update_of_ne hyx]
    have h1 : Ledger { t.setCap x (cap + n) with valid := update t.valid x true }
        L' out [] := h'.congr rfl rfl rfl (Nat.le_refl _) hkeep
    have hcame₁ : ∀ e ∈ t.came, e ∈ s.came ∧
        extent t.caps (update t.cap x (cap + n) e.1) = s.extentOf e.1 ∨
        ∃ j < n + 1, e.1 = s.paddrToUt (paddr + j * pageSize4K) ∧
          extent t.caps (update t.cap x (cap + n) e.1) =
            some (paddr + j * pageSize4K, pageBits) := by
      intro e he
      have hsame := hkeep e.1 (mem_map_of_mem he)
      rcases hcame e he with ⟨hold, hext⟩ | ⟨j, hj, heq, hext⟩
      · exact .inl ⟨hold, hsame.trans hext⟩
      · exact .inr ⟨j, Nat.lt_succ_of_lt hj, heq, hsame.trans hext⟩
    cases device with
    | true => exact ⟨⟨L', h1⟩, hcaps, ⟨htable₁, htable₂, htable₃⟩, hcame₁⟩
    | false =>
      obtain ⟨hextent, hapart⟩ := hpage rfl
      have hself : extent t.caps (update t.cap x (cap + n) x) =
          some (paddr + n * pageSize4K, pageBits) := by
        rw [update_self, hcaps]
        exact hextent
      have h2 := h1.add hnew' (htable₃ ▸ hend) hne hself fun e he => by
        have hsame := hkeep e.1 (mem_map_of_mem he)
        rw [hsame]
        rcases hcame e he with ⟨hold, hext⟩ | ⟨j, hj, -, hext⟩
        · rw [hext]
          exact hapart e hold
        · rw [hext]
          refine .inr ?_
          have hjn : (j + 1) * pageSize4K ≤ n * pageSize4K := Nat.mul_le_mul_right _ hj
          rw [Nat.add_mul] at hjn
          have hsize : 2 ^ pageBits = 1 * pageSize4K := rfl
          omega
      obtain ⟨L3, h3, -⟩ := h2.push (k := sizeBitsToIndex pageBits) rfl (by decide)
      refine ⟨⟨L3, h3.congr rfl rfl rfl (Nat.le_refl _) fun _ _ => rfl⟩, hcaps,
        ⟨htable₁, htable₂, htable₃⟩, fun e he => ?_⟩
      rcases mem_cons.mp he with rfl | he
      · exact .inr ⟨n, Nat.lt_succ_self n, hx.symm, hself⟩
      · exact hcame₁ e he

lemma Sys.Ledger.hand {s : Sys} {r : Nat × UtState} (h : s.Ledger)
    (hr : Allocated r b s.allocated) (hlow : endpointBits ≤ b) (hhigh : b ≤ pageBits) :
    (s.hand r b).Ledger := by
  refine ⟨hr, fun e he => ?_⟩
  simp only [Sys.hand] at he
  split at he
  · exact h.2 e he
  · rcases mem_cons.mp he with rfl | he
    · exact ⟨hlow, hhigh⟩
    · exact h.2 e he

lemma Sys.Ledger.step {m : Machine} {s : Sys} (h : s.Ledger) {op : Op} (hop : Allowed s op) :
    (¬ Strays m s op → (s.step m op).Ledger) ∧ (Strays m s op → ¬ (s.step m op).InOrder) := by
  obtain ⟨⟨L, hL⟩, hsizes⟩ := h
  cases op with
  | addUntypedRange paddr cap n device =>
    exact ⟨fun _ => ⟨(adding hL n hop).ledger, hsizes⟩, fun hs => hs.elim⟩
  | alloc b =>
    unfold Strays
    by_cases hb : endpointBits ≤ b ∧ b ≤ pageBits
    · have hbits : pageBits - (pageBits - b) = b := by omega
      have hdepth : pageBits - b ≤ pageBits - endpointBits := by omega
      have hbelow := utAllocBelow_ledger m hdepth hL
      rw [hbits] at hbelow
      have heq : utAlloc m s.table b = utAllocBelow m (pageBits - b) s.table := by
        unfold utAlloc
        rw [if_neg (by omega), if_neg (by omega)]
      simp only [Sys.step, heq, hb, true_and]
      refine ⟨fun hno => Sys.Ledger.hand ⟨⟨L, hL⟩, hsizes⟩ (hbelow.1 hno) hb.1 hb.2, fun hs => ?_⟩
      obtain ⟨hnull, hdis⟩ := hbelow.2 hs
      unfold Sys.InOrder Sys.hand
      rw [if_pos hnull]
      exact hdis
    · refine ⟨fun _ => ?_, fun hs => absurd ⟨hs.1, hs.2.1⟩ hb⟩
      have heq : utAlloc m s.table b = (0, s.table) := by
        unfold utAlloc
        split
        · rfl
        · rw [if_pos (by omega)]
      simp only [Sys.step, heq, Sys.hand, if_true]
      exact ⟨⟨L, hL⟩, hsizes⟩
  | alloc4kUntyped =>
    exact ⟨fun _ => Sys.Ledger.hand ⟨⟨L, hL⟩, hsizes⟩ (utAlloc4kUntyped_allocated hL)
      (by decide) (Nat.le_refl _), fun hs => hs.elim⟩
  | free node b =>
    refine ⟨fun _ => ?_, fun hs => hs.elim⟩
    obtain ⟨hlow, hhigh⟩ := hsizes _ hop
    obtain ⟨L', h', -⟩ := utFree_ledger (hL.out_perm (List.perm_cons_erase hop)) hlow hhigh
    exact ⟨⟨L', h'⟩, fun e he => hsizes e (List.mem_of_mem_erase he)⟩

structure Sys.Initial (s : Sys) : Prop where
  heads : ∀ i, s.table.lists.head i = 0
  history : s.table.history = []
  allocated : s.allocated = []
  fits : s.table.tableEnd ≤ s.table.nextFreeVaddr

lemma Sys.Initial.ledger {s : Sys} (h : s.Initial) : s.Ledger := by
  have hcame : s.table.came = [] := by simp only [UtState.came, h.history, flatMap_nil]
  have hgone : s.table.gone = [] := by simp only [UtState.gone, h.history, flatMap_nil]
  have hkept : s.table.keptPages = [] := by
    simp only [UtState.keptPages, h.history, flatMap_nil]
  have hnil : ∀ {x : Nat} {P : Prop}, x ∈ ([] : List Nat) → P := fun hx => by cases hx
  refine ⟨⟨fun _ => [], ⟨fun i => h.heads i, fun _ => nodup_nil, fun _ _ _ _ hx => hnil hx⟩,
    fun _ _ => rfl, ?_, ?_, nodup_nil, fun _ hx => hnil hx, fun _ hx => hnil hx, ?_,
    h.fits, ?_, ?_⟩, ?_⟩
  · rw [hcame, hgone, h.allocated]
    exact List.Perm.refl []
  · rw [hcame]
    exact nodup_nil
  · rw [hcame]
    exact fun _ hx => hnil hx
  · rw [hcame]
    exact fun _ hx => by cases hx
  · rw [hkept, h.allocated]
    exact List.Pairwise.nil
  · rw [h.allocated]
    exact fun _ hx => by cases hx

/-- After any sequence of additions, allocations and frees in which no allocation strayed, the
lists are in order after the next one exactly if that does not stray. -/
theorem inOrder_iff {m : Machine} {s t : Sys} (hs : s.Initial)
    (hrun : Lts.Run (fun s op t => t = s.step m op) (fun s op => Allowed s op ∧ ¬ Strays m s op)
      s t) {op : Op} (hop : Allowed t op) :
    (t.step m op).InOrder ↔ ¬ Strays m t op := by
  have ht : t.Ledger := hrun.invariant hs.ledger fun h hg hstep => by
    subst hstep
    exact (h.step hg.1).1 hg.2
  refine ⟨fun horder hstray => (ht.step hop).2 hstray horder, fun hno => ?_⟩
  obtain ⟨⟨L, hL⟩, -⟩ := (ht.step hop).1 hno
  exact hL.inOrder

def threePages : Sys where
  allocated := []
  table :=
    { lists := ⟨fun _ => 0, fun _ => 0⟩, cap := fun _ => 0, valid := fun _ => false
      firstPaddr := 0x10000, untypeds := 0x1000, tableEnd := 0x2000, n4kUntyped := 0
      nextFreeVaddr := 0x2000
      caps := fun slot =>
        if 100 ≤ slot ∧ slot < 103 then
          some ⟨.untyped ⟨0x10000 + (slot - 100) * pageSize4K, pageBits, 0, 0⟩, 0⟩
        else none
      slots := fun slot => 100 ≤ slot && slot < 103
      time := 0, history := [] }

def slotsUntil (n : Nat) : Machine where
  slot t := if t < n then 200 + t else 0
  pages _ := []
  maps _ := 0
  retypeOk _ := true
  mapOk _ := true

def halved (m : Machine) : Sys :=
  (threePages.step m (.addUntypedRange 0x10000 100 3 false)).step m (.alloc 11)

lemma initial_threePages : threePages.Initial :=
  ⟨fun _ => rfl, rfl, rfl, by decide⟩

lemma run_halved {m : Machine} (hadd : Allowed threePages (.addUntypedRange 0x10000 100 3 false))
    (hno : ¬ Strays m (threePages.step m (.addUntypedRange 0x10000 100 3 false)) (.alloc 11)) :
    Lts.Run (fun s op t => t = s.step m op) (fun s op => Allowed s op ∧ ¬ Strays m s op)
      threePages (halved m) :=
  have hfirst : Lts.Run (fun s op t => t = s.step m op)
      (fun s op => Allowed s op ∧ ¬ Strays m s op) threePages
      (threePages.step m (.addUntypedRange 0x10000 100 3 false)) :=
    .tail .refl ⟨hadd, id⟩ rfl
  .tail (a := .alloc 11) hfirst ⟨trivial, hno⟩ rfl

theorem inOrder_quartered :
    Allowed (halved (slotsUntil 20)) (.alloc 10) ∧
      ((halved (slotsUntil 20)).step (slotsUntil 20) (.alloc 10)).InOrder :=
  have hop : Allowed (halved (slotsUntil 20)) (.alloc 10) := trivial
  ⟨hop, (inOrder_iff initial_threePages
    (run_halved (by decide +kernel) (by decide +kernel)) hop).mpr (by decide +kernel)⟩

theorem half_freed_as_page :
    threePages.Initial ∧ Lts.Run (fun s op t => t = s.step (slotsUntil 7) op)
        (fun s op => Allowed s op ∧ ¬ Strays (slotsUntil 7) s op) threePages
        (halved (slotsUntil 7)) ∧ (halved (slotsUntil 7)).InOrder ∧
      ((halved (slotsUntil 7)).step (slotsUntil 7) (.alloc 10)).table.extentOf
          (((halved (slotsUntil 7)).step (slotsUntil 7) (.alloc 10)).table.lists.head pageList) =
        some (0x12000, 11) ∧
      ¬ ((halved (slotsUntil 7)).step (slotsUntil 7) (.alloc 10)).InOrder := by
  have hrun := run_halved (m := slotsUntil 7) (by decide +kernel) (by decide +kernel)
  have hledger : (halved (slotsUntil 7)).Ledger :=
    hrun.invariant initial_threePages.ledger fun h hg hstep => by
      subst hstep
      exact (h.step hg.1).1 hg.2
  have hop : Allowed (halved (slotsUntil 7)) (.alloc 10) := trivial
  have hdis := (hledger.step (m := slotsUntil 7) hop).2 (by decide +kernel)
  obtain ⟨⟨L, hL⟩, -⟩ := hledger
  exact ⟨initial_threePages, hrun, hL.inOrder, by decide +kernel, hdis⟩

end SpaghettiOS.Ut
