import Mathlib.Logic.Basic

/-!
# Runs of a labelled transition system

A run is a finite sequence of labelled steps.  `Run step guard s t` says that
`t` is reached from `s` by steps each of which meets `guard` in the state it is
taken from.
-/

namespace Lts

variable {σ α : Type*} {step : σ → α → σ → Prop} {guard guard' : σ → α → Prop}

inductive Run (step : σ → α → σ → Prop) (guard : σ → α → Prop) (s : σ) : σ → Prop where
  | refl : Run step guard s s
  | tail {t u : σ} {a : α} : Run step guard s t → guard t a → step t a u → Run step guard s u

def anyStep (_ : σ) (_ : α) : Prop := True

instance (s : σ) (a : α) : Decidable (anyStep s a) := .isTrue trivial

variable {s t s0 : σ} {play : α → σ → Option σ} {P : σ → Prop}

lemma Run.invariant {I : σ → Prop} (h : Run step guard s t) (h0 : I s)
    (hstep : ∀ {t u : σ} {a : α}, I t → guard t a → step t a u → I u) : I t := by
  induction h with
  | refl => exact h0
  | tail _ hg hs ih => exact hstep ih hg hs

lemma Run.mono (h : Run step guard s t) (hguard : ∀ s a, guard s a → guard' s a) :
    Run step guard' s t := by
  induction h with
  | refl => exact .refl
  | tail _ hg hs ih => exact .tail ih (hguard _ _ hg) hs

lemma Run.of_play (hplay : ∀ {a s t}, play a s = some t → step s a t)
    (ops : List α) (hrun : Run step anyStep s0 s)
    (h : ops.foldlM (fun s a => play a s) s = some t) : Run step anyStep s0 t := by
  induction ops generalizing s with
  | nil =>
    cases h
    exact hrun
  | cons a ops ih =>
    obtain ⟨u, hu, hrest⟩ := Option.bind_eq_some_iff.mp h
    exact ih (.tail hrun trivial (hplay hu)) hrest

lemma Run.of_guarded_play [∀ s a, Decidable (guard s a)]
    (hplay : ∀ {a s t}, play a s = some t → step s a t) (ops : List α)
    (hrun : Run step guard s0 s)
    (h : ops.foldlM (fun s a => if guard s a then play a s else none) s = some t) :
    Run step guard s0 t := by
  induction ops generalizing s with
  | nil =>
    cases h
    exact hrun
  | cons a ops ih =>
    obtain ⟨u, hu, hrest⟩ := Option.bind_eq_some_iff.mp h
    by_cases hg : guard s a
    · exact ih (.tail hrun hg (hplay ((if_pos hg).symm.trans hu))) hrest
    · cases (if_neg hg).symm.trans hu

/-! ## Runs on fixed inputs -/

lemma exists_of_any {o : Option σ} [DecidablePred P]
    (h : o.any (fun s => P s) = true) : ∃ s, o = some s ∧ P s := by
  obtain ⟨s, hs, hP⟩ := (Option.any_eq_true _ _).mp h
  exact ⟨s, hs, of_decide_eq_true hP⟩

lemma Run.exists_of_play [DecidablePred P]
    (hplay : ∀ {a s t}, play a s = some t → step s a t) (ops : List α)
    (h : (ops.foldlM (fun s a => play a s) s).any (fun t => P t) = true) :
    ∃ t, Run step anyStep s t ∧ P t := by
  obtain ⟨t, ht, hP⟩ := exists_of_any h
  exact ⟨t, .of_play hplay ops .refl ht, hP⟩

lemma Run.exists_of_guarded_play {G : σ → α → Prop} [∀ s a, Decidable (G s a)] [DecidablePred P]
    (hplay : ∀ {a s t}, play a s = some t → step s a t) (ops : List α)
    (h : (ops.foldlM (fun s a => if G s a then play a s else none) s).any (fun t => P t) = true) :
    ∃ t, Run step G s t ∧ P t := by
  obtain ⟨t, ht, hP⟩ := exists_of_any h
  exact ⟨t, .of_guarded_play hplay ops .refl ht, hP⟩

end Lts
