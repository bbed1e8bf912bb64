import Mathlib.Data.List.Basic
import Mathlib.Data.List.Pairwise
import Mathlib.Data.List.Perm.Basic
import Mathlib.Tactic.Common
import SpaghettiOS.Ut.Table

/-!
# The ledger of the untypeds

Every untyped that the table has ever had is on the list of its size, is out of the lists,
or is gone: used up as a page or split.  The ledger holds when these add up, each untyped
once, and when no two of those that can still be used have memory in common.
-/

namespace SpaghettiOS.Ut

open UtState
open Function (update_of_ne update_self update update_eq_self)
open List (mem_map nodup_append mem_cons_self nodup_cons map_cons cons_append perm_middle
  mem_append_left mem_map_of_mem append_assoc mem_cons)

/-! ## Extents -/

def extent (caps : Nat → Option Cap) (slot : Nat) : Option (Nat × Nat) :=
  match caps slot with
  | some ⟨.untyped u, _⟩ => some (u.paddr, u.bits)
  | _ => none

def UtState.extentOf (s : UtState) (node : Nat) : Option (Nat × Nat) := extent s.caps (s.cap node)

def Separate : Option (Nat × Nat) → Option (Nat × Nat) → Prop
  | some (p, a), some (q, b) => p + 2 ^ a ≤ q ∨ q + 2 ^ b ≤ p
  | _, _ => True

instance : ∀ x y : Option (Nat × Nat), Decidable (Separate x y)
  | some (p, a), some (q, b) => inferInstanceAs (Decidable (p + 2 ^ a ≤ q ∨ q + 2 ^ b ≤ p))
  | none, _ => .isTrue trivial
  | some _, none => .isTrue trivial

lemma Separate.symm {x y : Option (Nat × Nat)} (h : Separate x y) : Separate y x := by
  match x, y with
  | some _, some _ => exact Or.symm h
  | none, none | none, some _ | some _, none => trivial

lemma separate_perm {s : UtState} {l l' : List (Nat × Nat)} (hperm : l.Perm l')
    (h : l.Pairwise fun e f => Separate (s.extentOf e.1) (s.extentOf f.1)) :
    l'.Pairwise fun e f => Separate (s.extentOf e.1) (s.extentOf f.1) :=
  (hperm.pairwise_iff fun h => Separate.symm h).mp h

variable {x k p a : Nat}

lemma Separate.part {q b : Nat} {x : Option (Nat × Nat)} (h : Separate (some (p, a)) x)
    (hlow : p ≤ q) (hhigh : q + 2 ^ b ≤ p + 2 ^ a) : Separate (some (q, b)) x := by
  match x with
  | none => trivial
  | some (r, c) =>
    rcases h with h | h
    · exact .inl (by omega)
    · exact .inr (by omega)

lemma le_alignUp (n : Nat) (ha : 0 < a) : n ≤ alignUp n a := by
  have hmod := Nat.mod_lt (n + (a - 1)) ha
  have hdiv := Nat.div_add_mod (n + (a - 1)) a
  rw [Nat.mul_comm] at hdiv
  unfold alignUp
  omega

lemma seL4UntypedRetype_some {caps caps' : Nat → Option Cap} {ut target bits : Nat}
    {type : ObjectType} (h : seL4UntypedRetype caps ut target type bits = some caps') :
    ∃ u parent, caps ut = some ⟨.untyped u, parent⟩ ∧ caps target = none ∧
      u.start bits + 2 ^ bits ≤ 2 ^ u.bits ∧
      caps' ut = some ⟨.untyped { u with used := u.start bits + 2 ^ bits, kids := u.kids + 1 },
        parent⟩ ∧ caps' target = some ⟨type.make (u.paddr + u.start bits) bits, ut⟩ ∧
      ∀ z, z ≠ target → extent caps' z = extent caps z := by
  unfold seL4UntypedRetype at h
  split at h
  · rename_i u parent hut
    split at h
    · rename_i hroom
      have hne : ut ≠ target := by
        rintro rfl
        rw [hut] at hroom
        cases hroom.1
      cases h
      refine ⟨u, parent, hut, hroom.1, hroom.2, ?_, update_self .., fun z hz => ?_⟩
      · rw [update_of_ne hne, update_self]
      · unfold extent
        rw [update_of_ne hz]
        by_cases hzu : z = ut
        · subst hzu
          rw [update_self, hut]
        · rw [update_of_ne hzu]
    · cases h
  · cases h

lemma extent_retype_twice {caps caps1 caps2 : Nat → Option Cap} {ut y bits : Nat}
    (h1 : seL4UntypedRetype caps ut x .untyped bits = some caps1)
    (h2 : seL4UntypedRetype caps1 ut y .untyped bits = some caps2)
    (hut : extent caps ut = some (p, a)) :
    ∃ q r, extent caps2 ut = some (p, a) ∧ extent caps2 x = some (q, bits) ∧
      extent caps2 y = some (r, bits) ∧ p ≤ q ∧ q + 2 ^ bits ≤ r ∧ r + 2 ^ bits ≤ p + 2 ^ a := by
  obtain ⟨u, parent, hu, -, -, hu1, hx, -⟩ := seL4UntypedRetype_some h1
  obtain ⟨u', parent', hu', hy, hroom, hu2, hy2, hsame⟩ := seL4UntypedRetype_some h2
  have hfill := Option.some.inj (hu'.symm.trans hu1)
  simp only [Cap.mk.injEq, Object.untyped.injEq] at hfill
  obtain ⟨rfl, -⟩ := hfill
  have hub : u.paddr = p ∧ u.bits = a := by
    simpa only [extent, hu, Option.some.injEq, Prod.mk.injEq] using hut
  have hxy : x ≠ y := by
    rintro rfl
    cases hx.symm.trans hy
  have hmid : u.start bits + 2 ^ bits ≤
      Untyped.start { u with used := u.start bits + 2 ^ bits, kids := u.kids + 1 } bits :=
    le_alignUp _ (Nat.two_pow_pos bits)
  generalize Untyped.start { u with used := u.start bits + 2 ^ bits, kids := u.kids + 1 } bits =
    r at hroom hu2 hy2 hmid
  refine ⟨p + u.start bits, p + r, ?_, ?_, ?_, Nat.le_add_right _ _, ?_, ?_⟩
  · simp only [extent, hu2, hub]
  · rw [hsame x hxy]
    simp only [extent, hx, ObjectType.make, hub]
  · simp only [extent, hy2, ObjectType.make, hub]
  · omega
  · simp only [hub] at hroom
    omega

lemma extent_disown (c : Option Cap) (caps : Nat → Option Cap) (slot : Nat) :
    extent (update caps slot (c.map Cap.disown)) slot = extent (update caps slot c) slot := by
  unfold extent
  simp only [update_self]
  match c with
  | none => rfl
  | some ⟨.untyped _, _⟩ => rfl
  | some ⟨.smallPage _, _⟩ => rfl

lemma extent_seL4CNodeDelete (caps : Nat → Option Cap) {slot z : Nat} (hz : z ≠ slot) :
    extent (seL4CNodeDelete caps slot) z = extent caps z := by
  unfold seL4CNodeDelete
  split
  · rfl
  · rename_i c _
    have hslot : extent (update (update caps c.parent
        ((caps c.parent).map Cap.disown)) slot none) z =
        extent (update caps c.parent ((caps c.parent).map Cap.disown)) z := by
      unfold extent
      rw [update_of_ne hz]
    rw [hslot]
    by_cases hp : z = c.parent
    · subst hp
      rw [extent_disown, update_eq_self]
    · unfold extent
      rw [update_of_ne hp]

/-! ## What came and what is gone -/

def Event.came : Event → List (Nat × Nat)
  | .added node => [(node, pageBits)]
  | .kept _ => []
  | .split _ new1 new2 sizeBits => [(new1, sizeBits), (new2, sizeBits)]

def Event.gone : Event → List (Nat × Nat)
  | .added _ => []
  | .kept node => [(node, pageBits)]
  | .split larger _ _ sizeBits => [(larger, sizeBits + 1)]

def Event.keptPages : Event → List (Nat × Nat)
  | .kept node => [(node, pageBits)]
  | _ => []

def UtState.came (s : UtState) : List (Nat × Nat) := s.history.flatMap Event.came

def UtState.gone (s : UtState) : List (Nat × Nat) := s.history.flatMap Event.gone

def UtState.keptPages (s : UtState) : List (Nat × Nat) := s.history.flatMap Event.keptPages

lemma UtState.keptPages_sublist (s : UtState) : s.keptPages.Sublist s.gone := by
  unfold UtState.keptPages UtState.gone
  induction s.history with
  | nil => exact .slnil
  | cons e es ih =>
    simp only [List.flatMap_cons]
    refine List.Sublist.append ?_ ih
    cases e with
    | added node => exact List.Sublist.refl _
    | kept node => exact List.Sublist.refl _
    | split larger new1 new2 sizeBits => exact List.nil_sublist _

def entries (L : Head → List Nat) : List (Nat × Nat) :=
  (List.range nUntypedLists).flatMap fun k =>
    (L (.freeUntypeds k)).map fun x => (x, k + endpointBits)

lemma mem_entries {L : Head → List Nat} {e : Nat × Nat} :
    e ∈ entries L ↔ ∃ k < nUntypedLists, e.1 ∈ L (.freeUntypeds k) ∧ e.2 = k + endpointBits := by
  obtain ⟨x, b⟩ := e
  simp only [entries, List.mem_flatMap, List.mem_range, mem_map, Prod.mk.injEq]
  constructor
  · rintro ⟨k, hk, y, hy, rfl, rfl⟩
    exact ⟨k, hk, hy, rfl⟩
  · rintro ⟨k, hk, hx, rfl⟩
    exact ⟨k, hk, x, hx, rfl, rfl⟩

lemma entries_structures (L : Head → List Nat) (l : List Nat) :
    entries (update L .freeStructures l) = entries L := by
  simp only [entries, update_of_ne (show Head.freeUntypeds _ ≠ .freeStructures by simp)]

lemma entries_cons (L : Head → List Nat) (hk : k < nUntypedLists) (x : Nat) :
    (entries (update L (.freeUntypeds k) (x :: L (.freeUntypeds k)))).Perm
      ((x, k + endpointBits) :: entries L) := by
  obtain ⟨front, back, hsplit⟩ := List.append_of_mem (List.mem_range.mpr hk)
  have hnodup : (front ++ k :: back).Nodup := hsplit ▸ List.nodup_range
  have hfront : ∀ j ∈ front, j ≠ k := by
    rintro j hj rfl
    exact (nodup_append.mp hnodup).2.2 j hj j mem_cons_self rfl
  have hback : ∀ j ∈ back, j ≠ k := by
    rintro j hj rfl
    exact (nodup_cons.mp (nodup_append.mp hnodup).2.1).1 hj
  have hsame : ∀ js : List Nat, (∀ j ∈ js, j ≠ k) →
      (js.flatMap fun j => (update L (.freeUntypeds k) (x :: L (.freeUntypeds k))
        (.freeUntypeds j)).map fun y => (y, j + endpointBits)) =
      js.flatMap fun j => (L (.freeUntypeds j)).map fun y => (y, j + endpointBits) := by
    intro js hjs
    refine List.flatMap_congr fun j hj => ?_
    rw [update_of_ne (by simpa using hjs j hj)]
  unfold entries
  rw [hsplit]
  simp only [List.flatMap_append, List.flatMap_cons, hsame front hfront, hsame back hback,
    update_self, map_cons, cons_append]
  exact perm_middle

lemma entries_eq_cons {L : Head → List Nat} (hk : k < nUntypedLists) {l : List Nat}
    (hl : L (.freeUntypeds k) = x :: l) : (entries L).Perm
      ((x, k + endpointBits) :: entries (update L (.freeUntypeds k) l)) := by
  have h := entries_cons (update L (.freeUntypeds k) l) hk x
  rwa [update_self, Function.update_idem, ← hl, update_eq_self] at h

/-! ## The ledger -/

/-- The lists `L`, the untypeds `out` that are on none of them and are not gone, and the
nodes `spare` that are on none of them and have no untyped. -/
structure Ledger (s : UtState) (L : Head → List Nat) (out : List (Nat × Nat))
    (spare : List Nat) : Prop where
  lists : s.lists.Holds L
  beyond : ∀ k, nUntypedLists ≤ k → L (.freeUntypeds k) = []
  adds_up : s.came.Perm (entries L ++ out ++ s.gone)
  nodup : (s.came.map Prod.fst).Nodup
  spare_nodup : (L .freeStructures ++ spare).Nodup
  blank : ∀ x ∈ L .freeStructures ++ spare, x ∉ s.came.map Prod.fst
  high : ∀ x ∈ L .freeStructures ++ spare, s.tableEnd ≤ x ∧ x < s.nextFreeVaddr ∧ x ≠ 0
  low : ∀ x ∈ s.came.map Prod.fst, x < s.nextFreeVaddr ∧ x ≠ 0
  fits : s.tableEnd ≤ s.nextFreeVaddr
  sizes : ∀ e ∈ s.came, ∃ paddr, s.extentOf e.1 = some (paddr, e.2)
  separate : (entries L ++ out ++ s.keptPages).Pairwise fun e f =>
    Separate (s.extentOf e.1) (s.extentOf f.1)

namespace Ledger

variable {s t : UtState} {L : Head → List Nat} {out out' : List (Nat × Nat)} {spare : List Nat}

lemma live_came (h : Ledger s L out spare) : ∀ e ∈ entries L ++ out ++ s.keptPages, e ∈ s.came := by
  intro e he
  refine h.adds_up.mem_iff.mpr ?_
  rcases List.mem_append.mp he with he | he
  · exact mem_append_left _ he
  · exact List.mem_append_right _ (s.keptPages_sublist.subset he)

lemma congr (h : Ledger s L out spare) (hlists : t.lists = s.lists)
    (hhistory : t.history = s.history) (hend : t.tableEnd = s.tableEnd)
    (hnext : s.nextFreeVaddr ≤ t.nextFreeVaddr)
    (hextent : ∀ x ∈ s.came.map Prod.fst, t.extentOf x = s.extentOf x) : Ledger t L out spare := by
  have hcame : t.came = s.came := by simp only [UtState.came, hhistory]
  have hgone : t.gone = s.gone := by simp only [UtState.gone, hhistory]
  have hkept : t.keptPages = s.keptPages := by simp only [UtState.keptPages, hhistory]
  have hsub : ∀ e ∈ entries L ++ out ++ s.keptPages, e.1 ∈ s.came.map Prod.fst :=
    fun e he => mem_map_of_mem (h.live_came e he)
  constructor
  · rw [hlists]; exact h.lists
  · exact h.beyond
  · rw [hcame, hgone]; exact h.adds_up
  · rw [hcame]; exact h.nodup
  · exact h.spare_nodup
  · rw [hcame]; exact h.blank
  · rw [hend]
    exact fun x hx => ⟨(h.high x hx).1, Nat.lt_of_lt_of_le (h.high x hx).2.1 hnext,
      (h.high x hx).2.2⟩
  · rw [hcame]
    exact fun x hx => ⟨Nat.lt_of_lt_of_le (h.low x hx).1 hnext, (h.low x hx).2⟩
  · rw [hend]; exact Nat.le_trans h.fits hnext
  · rw [hcame]
    intro e he
    rw [hextent e.1 (mem_map_of_mem he)]
    exact h.sizes e he
  · rw [hkept]
    refine h.separate.imp_of_mem fun {e f} he hf hef => ?_
    rw [hextent e.1 (hsub e he), hextent f.1 (hsub f hf)]
    exact hef

lemma out_perm (h : Ledger s L out spare) (hperm : out.Perm out') : Ledger s L out' spare :=
  { h with
    adds_up := h.adds_up.trans ((hperm.append_left _).append_right _)
    separate := separate_perm ((hperm.append_left _).append_right _) h.separate }

lemma spare_perm {spare' : List Nat} (h : Ledger s L out spare) (hperm : spare.Perm spare') :
    Ledger s L out spare' :=
  { h with
    spare_nodup := (hperm.append_left _).nodup_iff.mp h.spare_nodup
    blank := fun x hx => h.blank x ((hperm.append_left _).mem_iff.mpr hx)
    high := fun x hx => h.high x ((hperm.append_left _).mem_iff.mpr hx) }

lemma drop_spare (h : Ledger s L out (x :: spare)) : Ledger s L out spare := by
  have hsub : (L .freeStructures ++ spare).Sublist (L .freeStructures ++ x :: spare) :=
    (List.sublist_cons_self x spare).append_left _
  exact { h with
    spare_nodup := h.spare_nodup.sublist hsub
    blank := fun y hy => h.blank y (hsub.subset hy)
    high := fun y hy => h.high y (hsub.subset hy) }

lemma mem_out {e : Nat × Nat} (h : Ledger s L (e :: out) spare) :
    e ∈ s.came ∧ ∀ f ∈ entries L ++ out ++ s.gone, f.1 ≠ e.1 := by
  have hperm : s.came.Perm (e :: (entries L ++ out ++ s.gone)) := by
    refine h.adds_up.trans ?_
    rw [append_assoc, cons_append, append_assoc]
    exact perm_middle
  have hnodup : ((e :: (entries L ++ out ++ s.gone)).map Prod.fst).Nodup :=
    (hperm.map Prod.fst).nodup_iff.mp h.nodup
  refine ⟨hperm.mem_iff.mpr mem_cons_self, fun f hf heq => ?_⟩
  rw [map_cons] at hnodup
  exact (nodup_cons.mp hnodup).1 (heq ▸ mem_map_of_mem hf)

lemma out_not_mem {e : Nat × Nat} (h : Ledger s L (e :: out) spare) (i : Head) : e.1 ∉ L i := by
  obtain ⟨hcame, hother⟩ := h.mem_out
  cases i with
  | freeStructures =>
    exact fun hin => h.blank e.1 (mem_append_left _ hin) (mem_map_of_mem hcame)
  | freeUntypeds k =>
    intro hin
    by_cases hk : k < nUntypedLists
    · exact hother (e.1, k + endpointBits) (mem_append_left _ (mem_append_left _
        (mem_entries.mpr ⟨k, hk, hin, rfl⟩))) rfl
    · rw [h.beyond k (by omega)] at hin
      cases hin

lemma blank_not_mem (h : Ledger s L out spare) (hx : x ∈ L .freeStructures ++ spare) (k : Nat) :
    x ∉ L (.freeUntypeds k) := by
  intro hin
  by_cases hk : k < nUntypedLists
  · refine h.blank x hx (mem_map.mpr ⟨(x, k + endpointBits), ?_, rfl⟩)
    exact h.adds_up.mem_iff.mpr (mem_append_left _ (mem_append_left _
      (mem_entries.mpr ⟨k, hk, hin, rfl⟩)))
  · rw [h.beyond k (by omega)] at hin
    cases hin

/-! ## Lists of untypeds -/

lemma pop (h : Ledger s L out spare) (hk : k < nUntypedLists)
    (hne : s.lists.head (.freeUntypeds k) ≠ 0) : ∃ L', Ledger (s.pop (.freeUntypeds k)).2 L'
        ((s.lists.head (.freeUntypeds k), k + endpointBits) :: out) spare ∧
      L' .freeStructures = L .freeStructures := by
  obtain ⟨l, hl, -⟩ := h.lists.eq_cons hne
  have hstruct : update L (.freeUntypeds k) l .freeStructures = L .freeStructures :=
    update_of_ne (by simp) _ _
  have hperm : (entries L ++ out).Perm (entries (update L (.freeUntypeds k) l) ++
      (s.lists.head (.freeUntypeds k), k + endpointBits) :: out) :=
    ((entries_eq_cons hk hl).append_right out).trans perm_middle.symm
  refine ⟨update L (.freeUntypeds k) l, ?_, hstruct⟩
  exact { h with
    lists := h.lists.drop hl
    beyond := fun j hj => by
      rw [update_of_ne (by simp; omega)]
      exact h.beyond j hj
    adds_up := h.adds_up.trans (hperm.append_right _)
    spare_nodup := hstruct.symm ▸ h.spare_nodup
    blank := hstruct.symm ▸ h.blank
    high := hstruct.symm ▸ h.high
    separate := separate_perm (hperm.append_right _) h.separate }

lemma push {b : Nat} (h : Ledger s L ((x, b) :: out) spare) (hb : b = k + endpointBits)
    (hk : k < nUntypedLists) : ∃ L', Ledger (s.push (.freeUntypeds k) x) L' out spare ∧
      L' .freeStructures = L .freeStructures ∧ x ∈ L' (.freeUntypeds k) := by
  subst hb
  have hx : x ≠ 0 := (h.low x (mem_map_of_mem h.mem_out.1)).2
  have hstruct : update L (.freeUntypeds k) (x :: L (.freeUntypeds k))
      .freeStructures = L .freeStructures := update_of_ne (by simp) _ _
  have hperm : (entries L ++ (x, k + endpointBits) :: out).Perm
      (entries (update L (.freeUntypeds k) (x :: L (.freeUntypeds k))) ++ out) :=
    perm_middle.trans ((entries_cons L hk x).symm.append_right out)
  refine ⟨update L (.freeUntypeds k) (x :: L (.freeUntypeds k)), ?_, hstruct, ?_⟩
  · exact { h with
      lists := h.lists.push _ hx fun j => h.out_not_mem j
      beyond := fun j hj => by
        rw [update_of_ne (by simp; omega)]
        exact h.beyond j hj
      adds_up := h.adds_up.trans (hperm.append_right _)
      spare_nodup := hstruct.symm ▸ h.spare_nodup
      blank := hstruct.symm ▸ h.blank
      high := hstruct.symm ▸ h.high
      separate := separate_perm (hperm.append_right _) h.separate }
  · rw [update_self]
    exact mem_cons_self

lemma add {node : Nat} (h : Ledger s L out spare) (hnew : node ∉ s.came.map Prod.fst)
    (hend : node < s.tableEnd) (hne : node ≠ 0) (hextent : s.extentOf node = some (p, pageBits))
    (hapart : ∀ e ∈ s.came, Separate (some (p, pageBits)) (s.extentOf e.1)) :
    Ledger (s.log (.added node)) L ((node, pageBits) :: out) spare := by
  have hcame : (s.log (.added node)).came = (node, pageBits) :: s.came := rfl
  have hfits := h.fits
  constructor
  · exact h.lists
  · exact h.beyond
  · rw [hcame]
    refine (h.adds_up.cons _).trans ?_
    simp only [append_assoc, cons_append]
    exact perm_middle.symm
  · rw [hcame]
    exact nodup_cons.mpr ⟨hnew, h.nodup⟩
  · exact h.spare_nodup
  · rw [hcame]
    intro x hx
    refine List.not_mem_cons_of_ne_of_not_mem ?_ (h.blank x hx)
    rintro rfl
    exact absurd (h.high _ hx).1 (Nat.not_le_of_lt hend)
  · exact h.high
  · rw [hcame]
    intro x hx
    rcases mem_cons.mp hx with rfl | hx
    · exact ⟨Nat.lt_of_lt_of_le hend hfits, hne⟩
    · exact h.low x hx
  · exact hfits
  · rw [hcame]
    intro e he
    rcases mem_cons.mp he with rfl | he
    · exact ⟨p, hextent⟩
    · exact h.sizes e he
  · refine separate_perm (l := (node, pageBits) :: (entries L ++ out ++ s.keptPages)) ?_ ?_
    · simp only [append_assoc, cons_append]
      exact perm_middle.symm
    · refine List.pairwise_cons.mpr ⟨fun f hf => ?_, h.separate⟩
      change Separate (s.extentOf node) (s.extentOf f.1)
      rw [hextent]
      exact hapart f (h.live_came f hf)

lemma keep (h : Ledger s L ((x, pageBits) :: out) spare) :
    Ledger (s.log (.kept x)) L out spare := by
  have hgone : (entries L ++ (x, pageBits) :: out ++ s.gone).Perm
      (entries L ++ out ++ (x, pageBits) :: s.gone) := by
    simp only [append_assoc, cons_append]
    exact (perm_middle.symm).append_left _
  have hkept : (entries L ++ (x, pageBits) :: out ++ s.keptPages).Perm
      (entries L ++ out ++ (x, pageBits) :: s.keptPages) := by
    simp only [append_assoc, cons_append]
    exact (perm_middle.symm).append_left _
  exact { h with
    adds_up := h.adds_up.trans hgone
    separate := separate_perm hkept h.separate }

/-! ## Structures -/

lemma pop_structure {l : List Nat} (h : Ledger s L out spare) (hl : L .freeStructures = x :: l) :
    ∃ L', Ledger (s.pop .freeStructures).2 L' out (x :: spare) ∧ L' .freeStructures = l := by
  have hself : update L .freeStructures l .freeStructures = l := update_self ..
  have hperm : (L .freeStructures ++ spare).Perm (l ++ x :: spare) := by
    rw [hl]
    exact perm_middle.symm
  refine ⟨update L .freeStructures l, ?_, hself⟩
  exact { h with
    lists := h.lists.drop hl
    beyond := fun j hj => by
      rw [update_of_ne (by simp)]
      exact h.beyond j hj
    adds_up := by rw [entries_structures]; exact h.adds_up
    spare_nodup := by rw [hself]; exact hperm.nodup_iff.mp h.spare_nodup
    blank := by rw [hself]; exact fun y hy => h.blank y (hperm.mem_iff.mpr hy)
    high := by rw [hself]; exact fun y hy => h.high y (hperm.mem_iff.mpr hy)
    separate := by rw [entries_structures]; exact h.separate }

lemma push_structure (h : Ledger s L out (x :: spare)) :
    ∃ L', Ledger (s.push .freeStructures x) L' out spare ∧
      L' .freeStructures = x :: L .freeStructures := by
  have hself : update L .freeStructures (x :: L .freeStructures) .freeStructures =
      x :: L .freeStructures := update_self ..
  have hperm : (L .freeStructures ++ x :: spare).Perm ((x :: L .freeStructures) ++ spare) :=
    perm_middle
  have hx : x ∈ L .freeStructures ++ x :: spare := by simp
  have hnew : ∀ i, x ∉ L i := by
    intro i
    cases i with
    | freeStructures =>
      exact fun hin => (nodup_append.mp h.spare_nodup).2.2 x hin x mem_cons_self rfl
    | freeUntypeds k => exact h.blank_not_mem hx k
  refine ⟨update L .freeStructures (x :: L .freeStructures), ?_, hself⟩
  exact { h with
    lists := h.lists.push _ (h.high x hx).2.2 hnew
    beyond := fun j hj => by
      rw [update_of_ne (by simp)]
      exact h.beyond j hj
    adds_up := by rw [entries_structures]; exact h.adds_up
    spare_nodup := by rw [hself]; exact hperm.nodup_iff.mp h.spare_nodup
    blank := by rw [hself]; exact fun y hy => h.blank y (hperm.mem_iff.mpr hy)
    high := by rw [hself]; exact fun y hy => h.high y (hperm.mem_iff.mpr hy)
    separate := by rw [entries_structures]; exact h.separate }

end Ledger

end SpaghettiOS.Ut
