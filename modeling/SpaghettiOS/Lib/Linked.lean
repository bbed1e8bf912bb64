import Mathlib.Algebra.Notation.Defs
import Mathlib.Data.List.Nodup
import Mathlib.Logic.Function.Basic

/-!
# Linked lists in a heap

Several singly linked lists share one heap of cells, and a list is known by the place its
head is kept in.  The null pointer is 0.  `Heap.Holds h L` says that the lists of the heap
are `L`: each ends, no cell is on a list twice and no cell is on two of them.
-/

namespace Linked

open Function (update update_self update_of_ne)

variable {ι P : Type*} [Zero P]

structure Heap (ι P : Type*) where
  next : P → P
  head : ι → P

/-- The cells that are passed from `p` on until the null pointer are those of the list. -/
def Chain (next : P → P) : P → List P → Prop
  | p, [] => p = 0
  | p, x :: l => p = x ∧ x ≠ 0 ∧ Chain next (next x) l

variable {l : List P} {x p : P}

variable {next : P → P} {h : Heap ι P} {L : ι → List P} {i : ι}

lemma Chain.congr {next next' : P → P} (h : Chain next p l) (hsame : ∀ x ∈ l, next' x = next x) :
    Chain next' p l := by
  induction l generalizing p with
  | nil => exact h
  | cons x l ih =>
    obtain ⟨hp, hx, hl⟩ := h
    refine ⟨hp, hx, ?_⟩
    rw [hsame x List.mem_cons_self]
    exact ih hl fun y hy => hsame y (List.mem_cons_of_mem x hy)

lemma Chain.unique {l' : List P} (h : Chain next p l) (h' : Chain next p l') : l = l' := by
  induction l generalizing p l' with
  | nil =>
    cases l' with
    | nil => rfl
    | cons y l' => exact absurd (h'.1.symm.trans h) h'.2.1
  | cons x l ih =>
    cases l' with
    | nil => exact absurd (h.1.symm.trans h') h.2.1
    | cons y l' =>
      obtain rfl : x = y := h.1.symm.trans h'.1
      rw [ih h.2.2 h'.2.2]

lemma Chain.eq_zero_iff (h : Chain next p l) : p = 0 ↔ l = [] := by
  cases l with
  | nil => exact ⟨fun _ => rfl, fun _ => h⟩
  | cons x l => exact ⟨fun hp => absurd (h.1.symm.trans hp) h.2.1, fun hl => by cases hl⟩

namespace Heap

structure Holds (h : Heap ι P) (L : ι → List P) : Prop where
  chain : ∀ i, Chain h.next (h.head i) (L i)
  nodup : ∀ i, (L i).Nodup
  disjoint : ∀ i j, i ≠ j → ∀ x ∈ L i, x ∉ L j

lemma Holds.unique {L L' : ι → List P} (hL : h.Holds L) (hL' : h.Holds L') : L = L' :=
  funext fun i => (hL.chain i).unique (hL'.chain i)

lemma Holds.head_eq_zero_iff (hL : h.Holds L) (i : ι) : h.head i = 0 ↔ L i = [] :=
  (hL.chain i).eq_zero_iff

lemma Holds.eq_cons (hL : h.Holds L)
    (hne : h.head i ≠ 0) : ∃ l, L i = h.head i :: l ∧ (h.next (h.head i) = 0 ↔ l = []) := by
  have hchain := hL.chain i
  cases hl : L i with
  | nil => exact absurd ((hL.head_eq_zero_iff i).mpr hl) hne
  | cons x l =>
    rw [hl] at hchain
    obtain ⟨hx, -, hrest⟩ := hchain
    subst hx
    exact ⟨l, rfl, hrest.eq_zero_iff⟩

variable [DecidableEq ι] [DecidableEq P]

def push (h : Heap ι P) (i : ι) (x : P) : Heap ι P :=
  ⟨Function.update h.next x (h.head i), Function.update h.head i x⟩

/-- What is left of a list whose first cell is taken off. -/
def drop (h : Heap ι P) (i : ι) : Heap ι P :=
  { h with head := Function.update h.head i (h.next (h.head i)) }

def insertBehind (h : Heap ι P) (c x : P) : Heap ι P :=
  { h with next := Function.update (Function.update h.next x (h.next c)) c x }

omit [DecidableEq P] in
lemma Holds.grow (hL : h.Holds L) (i : ι) (hnew : ∀ j, x ∉ L j)
    (hl : l.Perm (x :: L i)) : (∀ j, (update L i l j).Nodup) ∧
      ∀ j k, j ≠ k → ∀ y ∈ update L i l j, y ∉ update L i l k := by
  refine ⟨fun j => ?_, fun j k hjk y hy => ?_⟩
  · by_cases hj : j = i
    · subst hj
      rw [update_self]
      exact hl.nodup_iff.mpr (List.nodup_cons.mpr ⟨hnew j, hL.nodup j⟩)
    · rw [update_of_ne hj]
      exact hL.nodup j
  · by_cases hj : j = i
    · subst hj
      rw [update_of_ne (Ne.symm hjk)]
      rw [update_self] at hy
      rcases List.mem_cons.mp (hl.mem_iff.mp hy) with rfl | hy
      · exact hnew k
      · exact hL.disjoint j k hjk y hy
    · rw [update_of_ne hj] at hy
      by_cases hk : k = i
      · subst hk
        rw [update_self, hl.mem_iff]
        refine List.not_mem_cons_of_ne_of_not_mem ?_ (hL.disjoint j k hjk y hy)
        rintro rfl
        exact hnew j hy
      · rw [update_of_ne hk]
        exact hL.disjoint j k hjk y hy

lemma Holds.push (hL : h.Holds L) (i : ι) (hx : x ≠ 0)
    (hnew : ∀ j, x ∉ L j) : (h.push i x).Holds (update L i (x :: L i)) := by
  have hold : ∀ j, Chain (h.push i x).next (h.head j) (L j) := fun j =>
    (hL.chain j).congr fun y hy =>
      update_of_ne (fun hyx : y = x => hnew j (hyx ▸ hy)) _ _
  obtain ⟨hnodup, hdisjoint⟩ := hL.grow i hnew (List.Perm.refl _)
  refine ⟨fun j => ?_, hnodup, hdisjoint⟩
  by_cases hj : j = i
  · subst hj
    simp only [Heap.push, update_self]
    refine ⟨rfl, hx, ?_⟩
    rw [update_self]
    exact hold j
  · simp only [Heap.push, update_of_ne hj]
    exact hold j

lemma Holds.insertBehind (hL : h.Holds L) {c : P}
    (hl : L i = c :: l) (hx : x ≠ 0) (hnew : ∀ j, x ∉ L j) :
    (h.insertBehind c x).Holds (update L i (c :: x :: l)) := by
  have hci : c ∈ L i := hl ▸ List.mem_cons_self
  have hcl : c ∉ l := (List.nodup_cons.mp (hl ▸ hL.nodup i)).1
  have hxl : x ∉ l := fun hmem => hnew i (hl ▸ List.mem_cons_of_mem c hmem)
  have hxc : x ≠ c := fun hxc => hnew i (hxc ▸ hci)
  have hsame : ∀ y, y ≠ c → y ≠ x → (h.insertBehind c x).next y = h.next y := fun y hyc hyx => by
    simp only [Heap.insertBehind, update_of_ne hyc, update_of_ne hyx]
  obtain ⟨hnodup, hdisjoint⟩ := hL.grow i hnew (l := c :: x :: l)
    (hl ▸ List.Perm.swap x c l)
  refine ⟨fun j => ?_, hnodup, hdisjoint⟩
  by_cases hj : j = i
  · subst hj
    have hchain := hL.chain j
    rw [hl] at hchain
    obtain ⟨hhead, hc, hrest⟩ := hchain
    rw [update_self]
    refine ⟨hhead, hc, ?_, hx, ?_⟩
    · simp only [Heap.insertBehind, update_self]
    · have hnext : (h.insertBehind c x).next x = h.next c := by
        simp only [Heap.insertBehind, update_of_ne hxc, update_self]
      rw [hnext]
      exact hrest.congr fun y hy =>
        hsame y (fun hyc => hcl (hyc ▸ hy)) fun hyx => hxl (hyx ▸ hy)
  · rw [update_of_ne hj]
    exact (hL.chain j).congr fun y hy =>
      hsame y (fun hyc => hL.disjoint i j (Ne.symm hj) c hci (hyc ▸ hy)) fun hyx =>
        hnew j (hyx ▸ hy)

omit [DecidableEq P] in
lemma Holds.drop (hL : h.Holds L) (hl : L i = x :: l) : (h.drop i).Holds (update L i l) := by
  have hsub : ∀ j, (update L i l j).Sublist (L j) := by
    intro j
    by_cases hj : j = i
    · subst hj
      rw [update_self, hl]
      exact List.sublist_cons_self x l
    · rw [update_of_ne hj]
  refine ⟨fun j => ?_, fun j => (hL.nodup j).sublist (hsub j), fun j k hjk y hy hyk =>
    hL.disjoint j k hjk y ((hsub j).subset hy) ((hsub k).subset hyk)⟩
  by_cases hj : j = i
  · subst hj
    have hchain := hL.chain j
    rw [hl] at hchain
    simp only [Heap.drop, update_self, hchain.1]
    exact hchain.2.2
  · simp only [Heap.drop, update_of_ne hj]
    exact hL.chain j

end Heap

end Linked
