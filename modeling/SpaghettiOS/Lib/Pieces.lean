import Mathlib.Algebra.Ring.Nat
import Mathlib.Data.List.Basic

/-!
# Lists put together from pieces

A transfer that is made in several steps leaves a list of pieces.  The pieces
joined are the front part of a list exactly if each of them is what the list has
at the place where the earlier ones end (`flatten_prefix_iff`).
-/

namespace Pieces

variable {α : Type*}

lemma append_prefix_iff {a b l : List α} : a ++ b <+: l ↔ a <+: l ∧ b <+: l.drop a.length := by
  constructor
  · rintro ⟨rest, rfl⟩
    rw [List.append_assoc, List.drop_left]
    exact ⟨List.prefix_append _ _, List.prefix_append _ _⟩
  · rintro ⟨⟨rest, rfl⟩, hb⟩
    rw [List.drop_left] at hb
    exact (List.prefix_append_right_inj a).mpr hb

/-- Each piece is what the list has where the pieces in front of it end. -/
def InPlace (l : List α) (ps : List (List α)) : Prop :=
  ∀ i, (hi : i < ps.length) → ps[i] <+: l.drop (ps.take i).flatten.length

lemma inPlace_cons {l p : List α} {ps : List (List α)} :
    InPlace l (p :: ps) ↔ p <+: l ∧ InPlace (l.drop p.length) ps := by
  constructor
  · refine fun h => ⟨h 0 (Nat.succ_pos _), fun i hi => ?_⟩
    have hi' := h (i + 1) (Nat.succ_lt_succ hi)
    rwa [List.take_succ_cons, List.flatten_cons, List.length_append, ← List.drop_drop] at hi'
  · rintro ⟨hp, hps⟩ i hi
    cases i with
    | zero => exact hp
    | succ i =>
      rw [List.take_succ_cons, List.flatten_cons, List.length_append, ← List.drop_drop]
      exact hps i (Nat.lt_of_succ_lt_succ hi)

lemma inPlace_map_take_iff {l : List α} {counts : List Nat} (hle : ∀ c ∈ counts, c ≤ l.length) :
    InPlace l (counts.map l.take) ↔
      ∀ i, (hi : i < counts.length) → l.take counts[i] <+: l.drop (counts.take i).sum := by
  have hsum (i : Nat) : ((counts.map l.take).take i).flatten.length = (counts.take i).sum := by
    rw [List.length_flatten, ← List.map_take, List.map_map]
    congr 1
    refine (List.map_congr_left fun c hc => ?_).trans (List.map_id _)
    exact List.length_take_of_le (hle c (List.mem_of_mem_take hc))
  constructor
  · intro h i hi
    have hi' := h i (by rwa [List.length_map])
    rwa [hsum, List.getElem_map] at hi'
  · intro h i hi
    rw [hsum, List.getElem_map]
    exact h i (by rwa [List.length_map] at hi)

lemma flatten_prefix_iff {l : List α} {ps : List (List α)} : ps.flatten <+: l ↔ InPlace l ps := by
  induction ps generalizing l with
  | nil => exact ⟨fun _ i hi => absurd hi (Nat.not_lt_zero i), fun _ => List.nil_prefix⟩
  | cons p ps ih => rw [List.flatten_cons, append_prefix_iff, inPlace_cons, ih]

end Pieces
