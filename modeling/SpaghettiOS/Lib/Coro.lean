import Mathlib.Logic.Function.Basic
import SpaghettiOS.Lib.Run

/-!
# Coroutines over a shared state

A coroutine runs on a state of type `σ` until it is done, aborts, or suspends
with a request `ι`; the rest of it waits for a reply `ρ` and for whatever state
the world is in by then.  `Res` is the outcome of one such stretch.  `Res.run` answers
every request by a function, `Exec` answers by a relation, and `Pool` keeps any number
of suspended coroutines and resumes them in any order.

`Res.Ok` is the proof rule for all three.  Every suspended coroutine leaves a token
behind, and an invariant `J` relates the state to the tokens.  A coroutine is `Ok` when
it re-establishes `J` at each suspension and can go on from every state that satisfies
`J` with its own token still in place.
-/

namespace Coroutine

variable {σ ι ρ ε α β : Type}

/-- The outcome of running a coroutine up to its next suspension. -/
inductive Res (σ ι ρ ε α : Type) where
  | done (a : α) (s : σ)
  | fail (e : ε)
  | susp (i : ι) (s : σ) (k : ρ → σ → Res σ ι ρ ε α)

def Res.bind : Res σ ι ρ ε α → (α → σ → Res σ ι ρ ε β) → Res σ ι ρ ε β
  | .done a s, f => f a s
  | .fail e, _ => .fail e
  | .susp i s k, f => .susp i s fun r s' => (k r s').bind f

lemma Res.bind_done (m : Res σ ι ρ ε α) : m.bind .done = m := by
  induction m with
  | done a s => rfl
  | fail e => rfl
  | susp i s k ih =>
    rw [Res.bind]
    congr
    funext r s'
    exact ih r s'

lemma Res.bind_assoc {γ : Type} (m : Res σ ι ρ ε α) (f : α → σ → Res σ ι ρ ε β)
    (g : β → σ → Res σ ι ρ ε γ) : (m.bind f).bind g = m.bind fun a s => (f a s).bind g := by
  induction m with
  | done a s => rfl
  | fail e => rfl
  | susp i s k ih =>
    simp only [Res.bind]
    congr
    funext r s'
    exact ih r s'

end Coroutine

def Coro (σ ι ρ ε α : Type) : Type := σ → Coroutine.Res σ ι ρ ε α

namespace Coro

open Coroutine

variable {σ ι ρ ε α β : Type}

instance : Monad (Coro σ ι ρ ε) where
  pure a := fun s => .done a s
  bind m f := fun s => (m s).bind f

instance : LawfulMonad (Coro σ ι ρ ε) := LawfulMonad.mk' _
  (fun m => funext fun s => (m s).bind_done)
  (fun _ _ => rfl)
  (fun m f g => funext fun s => (m s).bind_assoc f g)

instance : MonadStateOf σ (Coro σ ι ρ ε) where
  get := fun s => .done s s
  set s := fun _ => .done ⟨⟩ s
  modifyGet f := fun s => .done (f s).1 (f s).2

def abort (e : ε) : Coro σ ι ρ ε α := fun _ => .fail e

def yield (i : ι) : Coro σ ι ρ ε ρ := fun s => .susp i s .done

def check (p : Prop) [Decidable p] (e : ε) : Coro σ ι ρ ε Unit :=
  if p then pure ⟨⟩ else abort e

def ofOption (e : ε) : Option α → Coro σ ι ρ ε α
  | some a => pure a
  | none => abort e

@[simp] lemma pure_apply (a : α) (s : σ) : (pure a : Coro σ ι ρ ε α) s = .done a s := rfl

@[simp] lemma bind_apply (m : Coro σ ι ρ ε α) (f : α → Coro σ ι ρ ε β) (s : σ) :
    (m >>= f) s = (m s).bind f := rfl

@[simp] lemma get_apply (s : σ) : (get : Coro σ ι ρ ε σ) s = .done s s := rfl

@[simp] lemma set_apply (s s' : σ) : (set s' : Coro σ ι ρ ε PUnit) s = .done ⟨⟩ s' := rfl

@[simp] lemma modify_apply (f : σ → σ) (s : σ) :
    (modify f : Coro σ ι ρ ε PUnit) s = .done ⟨⟩ (f s) := rfl

/-! An error that comes neither from a test nor from what follows it. -/

lemma check_bind_ne_fail {p : Prop} [Decidable p] {e e' : ε} (hne : e ≠ e')
    {f : Unit → Coro σ ι ρ ε β} {s : σ} (hf : f ⟨⟩ s ≠ .fail e') :
    (check p e >>= f) s ≠ .fail e' := by
  rw [bind_apply, check]
  split
  · exact hf
  · exact fun h => hne (Res.fail.inj h)

lemma ofOption_bind_ne_fail {x : Option α} {e e' : ε} (hne : e ≠ e')
    {f : α → Coro σ ι ρ ε β} {s : σ} (hf : ∀ a, f a s ≠ .fail e') :
    (ofOption e x >>= f) s ≠ .fail e' := by
  cases x with
  | none => exact fun h => hne (Res.fail.inj h)
  | some a => exact hf a

end Coro

namespace Coroutine

open Function (update)

variable {σ ι ρ ε α β κ τ : Type}
variable {m : Res σ ι ρ ε α} {f : α → σ → Res σ ι ρ ε β} {a : α} {s : σ}

/-! ## Running -/

/-- Runs to the end, a function answering every request at once. -/
def Res.run (h : ι → σ → ρ × σ) : Res σ ι ρ ε α → Except ε (α × σ)
  | .done a s => .ok (a, s)
  | .fail e => .error e
  | .susp i s k => (k (h i s).1 (h i s).2).run h

def Res.requests (h : ι → σ → ρ × σ) : Res σ ι ρ ε α → List ι
  | .done _ _ | .fail _ => []
  | .susp i s k => i :: (k (h i s).1 (h i s).2).requests h

/-- Runs to the end, every request answered as `env` allows. -/
inductive Exec (env : ι → ρ → σ → σ → Prop) : Res σ ι ρ ε α → α → σ → Prop where
  | done {a : α} {s : σ} : Exec env (.done a s) a s
  | susp {i : ι} {r : ρ} {s s₁ s₂ : σ} {a : α} {k : ρ → σ → Res σ ι ρ ε α} :
      env i r s s₁ → Exec env (k r s₁) a s₂ → Exec env (.susp i s k) a s₂

variable {env : ι → ρ → σ → σ → Prop}

lemma Res.exec_of_run {h : ι → σ → ρ × σ}
    (henv : ∀ i s, env i (h i s).1 s (h i s).2) (hrun : m.run h = .ok (a, s)) : Exec env m a s := by
  induction m with
  | done b t =>
    cases hrun
    exact .done
  | fail e => cases hrun
  | susp i t k ih => exact .susp (henv i t) (ih _ _ hrun)

lemma Res.exec_of_toOption {h : ι → σ → ρ × σ}
    (henv : ∀ i s, env i (h i s).1 s (h i s).2) (hrun : (m.run h).toOption = some (a, s)) :
    Exec env m a s := by
  refine Res.exec_of_run henv (h := h) ?_
  cases hm : m.run h with
  | error e =>
    rw [hm] at hrun
    cases hrun
  | ok r =>
    rw [hm] at hrun
    exact congrArg Except.ok (Option.some.inj hrun)

lemma Res.exists_exec {h : ι → σ → ρ × σ} {P : α → σ → Prop}
    [∀ a s, Decidable (P a s)] (henv : ∀ i s, env i (h i s).1 s (h i s).2)
    (hm : (m.run h).toOption.any (fun x => P x.1 x.2) = true) : ∃ a s, Exec env m a s ∧ P a s := by
  obtain ⟨⟨a, s⟩, hrun, hP⟩ := Lts.exists_of_any hm
  exact ⟨a, s, Res.exec_of_toOption henv hrun, hP⟩

lemma Exec.of_bind {b : β} {t : σ} (he : Exec env (m.bind f) b t) :
    ∃ a s, Exec env m a s ∧ Exec env (f a s) b t := by
  induction m with
  | done a s => exact ⟨a, s, .done, he⟩
  | fail e => cases he
  | susp i s k ih =>
    cases he with
    | susp henv hk =>
      obtain ⟨a, s', hm, hf⟩ := ih _ _ hk
      exact ⟨a, s', .susp henv hm, hf⟩

lemma Exec.bind {b : β} {t : σ} (hm : Exec env m a s)
    (hf : Exec env (f a s) b t) : Exec env (m.bind f) b t := by
  induction hm with
  | done => exact hf
  | susp henv _ ih => exact .susp henv (ih hf)

lemma exec_bind_iff {b : β} {t : σ} :
    Exec env (m.bind f) b t ↔ ∃ a s, Exec env m a s ∧ Exec env (f a s) b t :=
  ⟨Exec.of_bind, fun ⟨_, _, hm, hf⟩ => hm.bind hf⟩

/-- Run alone, the outcome meets `Q` if it comes to an end. -/
def Res.Ends (env : ι → ρ → σ → σ → Prop) (Q : α → σ → Prop) : Res σ ι ρ ε α → Prop
  | .done a s => Q a s
  | .fail _ => True
  | .susp i s k => ∀ r s', env i r s s' → (k r s').Ends env Q

section Ends

variable {Q : α → σ → Prop}

lemma Res.Ends.bind {R : β → σ → Prop} (h : m.Ends env Q)
    (hf : ∀ a s, Q a s → (f a s).Ends env R) : (m.bind f).Ends env R := by
  induction m with
  | done a s => exact hf a s h
  | fail e => trivial
  | susp i s k ih => exact fun r s' henv => ih r s' (h r s' henv)

lemma Res.Ends.after {R : β → σ → Prop} (hf : ∀ a s, (f a s).Ends env R) :
    (m.bind f).Ends env R := by
  induction m with
  | done a s => exact hf a s
  | fail e => trivial
  | susp i s k ih => exact fun r s' _ => ih r s'

lemma Res.Ends.check_bind {p : Prop} [Decidable p] {e : ε} {f : Unit → σ → Res σ ι ρ ε α}
    (h : p → (f ⟨⟩ s).Ends env Q) : ((Coro.check p e s).bind f).Ends env Q := by
  unfold Coro.check
  split
  · rename_i hp
    exact h hp
  · trivial

lemma Res.Ends.ofOption_bind {e : ε} {x : Option β} {f : β → σ → Res σ ι ρ ε α}
    (h : ∀ b, x = some b → (f b s).Ends env Q) : ((Coro.ofOption e x s).bind f).Ends env Q := by
  cases x with
  | none => trivial
  | some b => exact h b rfl

lemma Res.Ends.mono {R : α → σ → Prop} (h : m.Ends env Q) (hQ : ∀ a s, Q a s → R a s) :
    m.Ends env R := by
  rw [← m.bind_done]
  exact h.bind hQ

lemma Res.Ends.and {R : α → σ → Prop} (hQ : m.Ends env Q) (hR : m.Ends env R) :
    m.Ends env fun a s => Q a s ∧ R a s := by
  induction m with
  | done a s => exact ⟨hQ, hR⟩
  | fail e => trivial
  | susp i s k ih => exact fun r s' henv => ih r s' (hQ r s' henv) (hR r s' henv)

lemma Res.Ends.forall {η : Sort*} {R : η → α → σ → Prop} (h : ∀ x, m.Ends env (R x)) :
    m.Ends env fun a s => ∀ x, R x a s := by
  induction m with
  | done a s => exact h
  | fail e => trivial
  | susp i s k ih => exact fun r s' henv => ih r s' fun x => h x r s' henv

lemma Res.Ends.exec (h : m.Ends env Q) (he : Exec env m a s) : Q a s := by
  induction he with
  | done => exact h
  | susp henv _ ih => exact ih (h _ _ henv)

end Ends

/-- Run alone, it does not abort and the outcome meets `Q`. -/
def Res.Meets (env : ι → ρ → σ → σ → Prop) (Q : α → σ → Prop) : Res σ ι ρ ε α → Prop
  | .done a s => Q a s
  | .fail _ => False
  | .susp i s k => ∀ r s', env i r s s' → (k r s').Meets env Q

section Meets

variable {Q : α → σ → Prop}

lemma Res.Meets.bind {R : β → σ → Prop} (h : m.Meets env Q)
    (hf : ∀ a s, Q a s → (f a s).Meets env R) : (m.bind f).Meets env R := by
  induction m with
  | done a s => exact hf a s h
  | fail e => exact h.elim
  | susp i s k ih => exact fun r s' henv => ih r s' (h r s' henv)

lemma Res.Meets.mono {R : α → σ → Prop} (h : m.Meets env Q) (hQ : ∀ a s, Q a s → R a s) :
    m.Meets env R := by
  rw [← m.bind_done]
  exact h.bind hQ

lemma Res.Meets.ends (h : m.Meets env Q) : m.Ends env Q := by
  induction m with
  | done a s => exact h
  | fail e => trivial
  | susp i s k ih => exact fun r s' henv => ih r s' (h r s' henv)

end Meets

/-- It comes to its end without a request, and the outcome meets `Q`. -/
def Res.Returns (Q : α → σ → Prop) : Res σ ι ρ ε α → Prop
  | .done a s => Q a s
  | .fail _ | .susp _ _ _ => False

section Returns

variable {Q : α → σ → Prop}

lemma Res.Returns.eq_done (h : m.Returns Q) : ∃ a s, m = .done a s ∧ Q a s := by
  cases m with
  | done a s => exact ⟨a, s, rfl, h⟩
  | fail e => exact h.elim
  | susp i s k => exact h.elim

lemma Res.Returns.bind {R : β → σ → Prop} (h : m.Returns Q)
    (hf : ∀ a s, Q a s → (f a s).Returns R) : (m.bind f).Returns R := by
  obtain ⟨a, s, rfl, hQ⟩ := h.eq_done
  exact hf a s hQ

lemma Res.Returns.mono {R : α → σ → Prop} (h : m.Returns Q) (hQ : ∀ a s, Q a s → R a s) :
    m.Returns R := by
  obtain ⟨a, s, rfl, ha⟩ := h.eq_done
  exact hQ a s ha

lemma Res.Returns.ends (h : m.Returns Q) : m.Ends env Q := by
  obtain ⟨a, s, rfl, ha⟩ := h.eq_done
  exact ha

lemma Res.Returns.check_bind {p : Prop} [Decidable p] {e : ε} {f : Unit → σ → Res σ ι ρ ε α}
    (hp : p) (h : (f ⟨⟩ s).Returns Q) : ((Coro.check p e s).bind f).Returns Q := by
  unfold Coro.check
  rw [if_pos hp]
  exact h

end Returns

/-! ## Observers

An observer keeps something in step with the requests and their replies, which the
coroutine itself knows nothing of. -/

section Observers

variable {γ : Type} {effect : ι → ρ → σ → γ → γ}

/-- Runs to the end as `Exec` does, and takes the observer from `g` along. -/
inductive Observed (env : ι → ρ → σ → σ → Prop) (effect : ι → ρ → σ → γ → γ) :
    γ → Res σ ι ρ ε α → α → σ → γ → Prop where
  | done {g : γ} {a : α} {s : σ} : Observed env effect g (.done a s) a s g
  | susp {g g' : γ} {i : ι} {r : ρ} {s s₁ s₂ : σ} {a : α} {k : ρ → σ → Res σ ι ρ ε α} :
      env i r s s₁ → Observed env effect (effect i r s g) (k r s₁) a s₂ g' →
      Observed env effect g (.susp i s k) a s₂ g'

lemma Exec.observed (h : Exec env m a s) (g : γ) : ∃ g', Observed env effect g m a s g' := by
  induction h generalizing g with
  | done => exact ⟨g, .done⟩
  | susp henv _ ih =>
    obtain ⟨g', h'⟩ := ih _
    exact ⟨g', .susp henv h'⟩

/-- If it comes to an end, the outcome and the observer meet `Q`. -/
def Res.Tracks (env : ι → ρ → σ → σ → Prop) (effect : ι → ρ → σ → γ → γ)
    (Q : α → σ → γ → Prop) : γ → Res σ ι ρ ε α → Prop
  | g, .done a s => Q a s g
  | _, .fail _ => True
  | g, .susp i s k => ∀ r s', env i r s s' → (k r s').Tracks env effect Q (effect i r s g)

lemma Res.Tracks.observed {Q : α → σ → γ → Prop} {g g' : γ} (h : m.Tracks env effect Q g)
    (hrun : Observed env effect g m a s g') : Q a s g' := by
  induction hrun with
  | done => exact h
  | susp henv _ ih => exact ih (h _ _ henv)

lemma Res.Tracks.bind {Q : α → σ → γ → Prop} {R : β → σ → γ → Prop} {g : γ}
    (h : m.Tracks env effect Q g) (hf : ∀ a s g, Q a s g → (f a s).Tracks env effect R g) :
    (m.bind f).Tracks env effect R g := by
  induction m generalizing g with
  | done a s => exact hf a s g h
  | fail e => trivial
  | susp i s k ih => exact fun r s' henv => ih r s' (h r s' henv)

lemma Res.Tracks.ends {Q : α → σ → γ → Prop} {R : α → σ → Prop} {g : γ}
    (h : m.Tracks env effect Q g) (hQ : ∀ a s g, Q a s g → R a s) : m.Ends env R := by
  induction m generalizing g with
  | done a s => exact hQ a s g h
  | fail e => trivial
  | susp i s k ih => exact fun r s' henv => ih r s' (h r s' henv)

end Observers

/-- The coroutines in flight, each with the request it waits on, and the state
they share. -/
structure Pool (σ ι ρ ε κ : Type) where
  state : σ
  waiting : κ → Option (ι × (ρ → σ → Res σ ι ρ ε Unit))

/-- What a pool does next: coroutine `c` starts, or its request is answered. -/
inductive Event (κ β ρ : Type) where
  | start (c : κ) (b : β)
  | resume (c : κ) (r : ρ)

section Pool
variable [DecidableEq κ]

/-- Puts coroutine `c` where it stopped.  An aborted coroutine takes the whole
pool with it. -/
def Pool.park (p : Pool σ ι ρ ε κ) (c : κ) : Res σ ι ρ ε Unit → Option (Pool σ ι ρ ε κ)
  | .done _ s => some ⟨s, update p.waiting c none⟩
  | .fail _ => none
  | .susp i s k => some ⟨s, update p.waiting c (some (i, k))⟩

inductive Pool.Step (body : κ → β → Coro σ ι ρ ε Unit) (env : κ → ι → ρ → σ → σ → Prop) :
    Pool σ ι ρ ε κ → Event κ β ρ → Pool σ ι ρ ε κ → Prop where
  | start {p p' : Pool σ ι ρ ε κ} {c : κ} {b : β} :
      p.waiting c = none → p.park c (body c b p.state) = some p' →
      Pool.Step body env p (.start c b) p'
  | resume {p p' : Pool σ ι ρ ε κ} {c : κ} {i : ι} {r : ρ} {s : σ}
      {k : ρ → σ → Res σ ι ρ ε Unit} :
      p.waiting c = some (i, k) → env c i r p.state s → p.park c (k r s) = some p' →
      Pool.Step body env p (.resume c r) p'

/-- Plays a schedule that can be evaluated: a coroutine starts, or `h` answers its
request. -/
def Pool.play (body : κ → β → Coro σ ι ρ ε Unit) (h : κ → ι → σ → ρ × σ) :
    List (κ × Option β) → Pool σ ι ρ ε κ → Option (Pool σ ι ρ ε κ)
  | [], p => some p
  | (c, some b) :: l, p =>
      match p.waiting c with
      | none => (p.park c (body c b p.state)).bind (Pool.play body h l)
      | some _ => none
  | (c, none) :: l, p =>
      match p.waiting c with
      | none => none
      | some (i, k) =>
          (p.park c (k (h c i p.state).1 (h c i p.state).2)).bind (Pool.play body h l)

variable {body : κ → β → Coro σ ι ρ ε Unit} {h : κ → ι → σ → ρ × σ}
variable {env : κ → ι → ρ → σ → σ → Prop} {p p' : Pool σ ι ρ ε κ}

lemma Pool.play_start {c : κ} {b : β} {l : List (κ × Option β)}
    (hplay : Pool.play body h ((c, some b) :: l) p = some p') :
    ∃ p1, Pool.Step body env p (.start c b) p1 ∧ Pool.play body h l p1 = some p' := by
  simp only [Pool.play] at hplay
  split at hplay
  · rename_i hw
    obtain ⟨p1, hpark, hl⟩ := Option.bind_eq_some_iff.mp hplay
    exact ⟨p1, .start hw hpark, hl⟩
  · cases hplay

lemma Pool.play_answer (henv : ∀ c i s, env c i (h c i s).1 s (h c i s).2) {c : κ}
    {l : List (κ × Option β)} (hplay : Pool.play body h ((c, none) :: l) p = some p') :
    ∃ r p1, Pool.Step body env p (.resume c r) p1 ∧ Pool.play body h l p1 = some p' := by
  simp only [Pool.play] at hplay
  split at hplay
  · cases hplay
  · rename_i i k hw
    obtain ⟨p1, hpark, hl⟩ := Option.bind_eq_some_iff.mp hplay
    exact ⟨_, p1, .resume hw (henv c i p.state) hpark, hl⟩

lemma Pool.run_of_play (henv : ∀ c i s, env c i (h c i s).1 s (h c i s).2)
    {l : List (κ × Option β)} (hplay : Pool.play body h l p = some p') :
    Lts.Run (Pool.Step body env) Lts.anyStep p p' := by
  have hprefix : ∀ p0, Lts.Run (Pool.Step body env) Lts.anyStep p0 p →
      Lts.Run (Pool.Step body env) Lts.anyStep p0 p' := by
    induction l generalizing p with
    | nil =>
      cases hplay
      exact fun _ hrun => hrun
    | cons x l ih =>
      intro p0 hrun
      obtain ⟨c, b⟩ := x
      cases b with
      | some b =>
        obtain ⟨p1, hstep, hl⟩ := Pool.play_start hplay
        exact ih hl p0 (.tail hrun trivial hstep)
      | none =>
        obtain ⟨r, p1, hstep, hl⟩ := Pool.play_answer henv hplay
        exact ih hl p0 (.tail hrun trivial hstep)
  exact hprefix p .refl

lemma Pool.exists_run {P : Pool σ ι ρ ε κ → Prop} [DecidablePred P]
    (henv : ∀ c i s, env c i (h c i s).1 s (h c i s).2) (l : List (κ × Option β))
    (hplay : (Pool.play body h l p).any (fun p => P p) = true) :
    ∃ p', Lts.Run (Pool.Step body env) Lts.anyStep p p' ∧ P p' := by
  obtain ⟨p', hp, hP⟩ := Lts.exists_of_any hplay
  exact ⟨p', Pool.run_of_play henv hp, hP⟩

end Pool

/-! ## The proof rule -/

section Ok
variable [DecidableEq κ]

/-- The outcome keeps `J` for coroutine `c`, the others' tokens being `o`. -/
def Res.Ok (J : σ → (κ → Option τ) → Prop) (fits : ι → τ → Prop)
    (env : ι → ρ → σ → σ → Prop) (c : κ) (Q : α → σ → (κ → Option τ) → Prop) :
    (κ → Option τ) → Res σ ι ρ ε α → Prop
  | o, .done a s => Q a s o
  | _, .fail _ => True
  | o, .susp i s k =>
      ∃ tok, fits i tok ∧ J s (update o c (some tok)) ∧
        ∀ r s₁ s₂ o', J s₁ (update o' c (some tok)) → env i r s₁ s₂ → (k r s₂).Ok J fits env c Q o'

variable {J : σ → (κ → Option τ) → Prop} {fits : ι → τ → Prop}
variable {c : κ} {Q : α → σ → (κ → Option τ) → Prop} {o : κ → Option τ}

lemma Res.Ok.bind {R : β → σ → (κ → Option τ) → Prop} (h : m.Ok J fits env c Q o)
    (hf : ∀ a s o, Q a s o → (f a s).Ok J fits env c R o) : (m.bind f).Ok J fits env c R o := by
  induction m generalizing o with
  | done a s => exact hf a s o h
  | fail e => trivial
  | susp i s k ih =>
    obtain ⟨tok, hfit, hJ, hk⟩ := h
    exact ⟨tok, hfit, hJ, fun r s1 s2 o' h1 h2 => ih r s2 (hk r s1 s2 o' h1 h2)⟩

lemma Res.Ok.mono {R : α → σ → (κ → Option τ) → Prop} (h : m.Ok J fits env c Q o)
    (hQ : ∀ a s o, Q a s o → R a s o) : m.Ok J fits env c R o := by
  rw [← m.bind_done]
  exact h.bind hQ

/-! The primitives, each in front of the rest of a coroutine. -/

lemma Res.Ok.check_bind {p : Prop} [Decidable p] {e : ε} {f : Unit → σ → Res σ ι ρ ε α}
    (h : p → (f ⟨⟩ s).Ok J fits env c Q o) : ((Coro.check p e s).bind f).Ok J fits env c Q o := by
  unfold Coro.check
  split
  · rename_i hp
    exact h hp
  · trivial

lemma Res.Ok.ofOption_bind {e : ε} {x : Option β} {f : β → σ → Res σ ι ρ ε α}
    (h : ∀ b, x = some b → (f b s).Ok J fits env c Q o) :
    ((Coro.ofOption e x s).bind f).Ok J fits env c Q o := by
  cases x with
  | none => trivial
  | some b => exact h b rfl

lemma Res.Ok.yield_bind {i : ι} {f : ρ → σ → Res σ ι ρ ε α} (tok : τ) (hfit : fits i tok)
    (hJ : J s (update o c (some tok)))
    (h : ∀ r s1 s2 o', J s1 (update o' c (some tok)) → env i r s1 s2 →
      (f r s2).Ok J fits env c Q o') : ((Coro.yield i s).bind f).Ok J fits env c Q o :=
  ⟨tok, hfit, hJ, h⟩

lemma Res.Ok.exec (h : m.Ok J fits env c Q o) (he : Exec env m a s) : Q a s o := by
  induction he with
  | done => exact h
  | susp henv _ ih =>
    obtain ⟨tok, -, hJ, hk⟩ := h
    exact ih (hk _ _ _ _ hJ henv)

end Ok

/-! ## Pools of `Ok` coroutines -/

section PoolOk
variable [DecidableEq κ] {J : σ → (κ → Option τ) → Prop} {fits : ι → τ → Prop}
variable {env : κ → ι → ρ → σ → σ → Prop}

def Finished (J : σ → (κ → Option τ) → Prop) (c : κ) (_ : Unit) (s : σ)
    (o : κ → Option τ) : Prop := J s (update o c none)

/-- `J` holds with one token for each suspended coroutine, and each of them is
ready to go on from `J`. -/
def Pool.Ok (J : σ → (κ → Option τ) → Prop) (fits : ι → τ → Prop)
    (env : κ → ι → ρ → σ → σ → Prop) (p : Pool σ ι ρ ε κ) (toks : κ → Option τ) : Prop :=
  J p.state toks ∧ ∀ c, match p.waiting c, toks c with
      | none, none => True
      | some (i, k), some tok => fits i tok ∧ ∀ r s₁ s₂ o', J s₁ (update o' c (some tok)) →
          env c i r s₁ s₂ → (k r s₂).Ok J fits (env c) c (Finished J c) o'
      | _, _ => False

lemma Pool.Ok.park {p p' : Pool σ ι ρ ε κ} {toks : κ → Option τ} {c : κ}
    {m : Res σ ι ρ ε Unit} (hp : p.Ok J fits env toks)
    (hm : m.Ok J fits (env c) c (Finished J c) toks) (h : p.park c m = some p') :
    ∃ toks', p'.Ok J fits env toks' := by
  cases m with
  | done a s =>
    cases h
    refine ⟨update toks c none, hm, fun d => ?_⟩
    rcases eq_or_ne d c with rfl | hd
    · simp
    · simpa [hd] using hp.2 d
  | fail e => cases h
  | susp i s k =>
    cases h
    obtain ⟨tok, hfit, hJ, hk⟩ := hm
    refine ⟨update toks c (some tok), hJ, fun d => ?_⟩
    rcases eq_or_ne d c with rfl | hd
    · simpa using ⟨hfit, hk⟩
    · simpa [hd] using hp.2 d

lemma Pool.Ok.step {body : κ → β → Coro σ ι ρ ε Unit} {p p' : Pool σ ι ρ ε κ}
    {toks : κ → Option τ} {e : Event κ β ρ} (hp : p.Ok J fits env toks)
    (hstart : ∀ c b, e = .start c b → toks c = none →
      (body c b p.state).Ok J fits (env c) c (Finished J c) toks)
    (h : Pool.Step body env p e p') : ∃ toks', p'.Ok J fits env toks' := by
  cases h with
  | @start _ c b hw hpark =>
    have ht : toks c = none := by
      have := hp.2 c
      cases htok : toks c with
      | none => rfl
      | some tok => simp [hw, htok] at this
    exact hp.park (hstart c b rfl ht) hpark
  | @resume _ c i r s k hw henv hpark =>
    have hc := hp.2 c
    cases htok : toks c with
    | none => simp [hw, htok] at hc
    | some tok =>
      simp only [hw, htok] at hc
      have hself : update toks c (some tok) = toks := by
        rw [← htok]
        exact Function.update_eq_self c toks
      exact hp.park (hc.2 r _ _ toks (by rw [hself]; exact hp.1) henv) hpark

end PoolOk

end Coroutine

/-! ## Coroutines that keep a relation

A relation between the state a coroutine starts from and the one it ends in, for
relations that are reflexive and transitive, is proved function by function. -/

namespace Coro

open Coroutine

variable {σ ι ρ ε α β : Type} {env : ι → ρ → σ → σ → Prop} {G : σ → σ → Prop}

/-- From any state, run alone, the coroutine ends in a state that `G` relates to the
one it started from. -/
def Keeps (env : ι → ρ → σ → σ → Prop) (G : σ → σ → Prop) (x : Coro σ ι ρ ε α) : Prop :=
  ∀ s, (x s).Ends env fun _ t => G s t

lemma Keeps.bind [IsTrans σ G] {x : Coro σ ι ρ ε α} {f : α → Coro σ ι ρ ε β}
    (hx : Keeps env G x) (hf : ∀ a, Keeps env G (f a)) : Keeps env G (x >>= f) :=
  fun s => (hx s).bind fun a t hst => (hf a t).mono fun _ _ htu => IsTrans.trans _ _ _ hst htu

lemma Keeps.pure [Std.Refl G] (a : α) : Keeps env G (Pure.pure a : Coro σ ι ρ ε α) :=
  Std.Refl.refl

lemma Keeps.get [Std.Refl G] : Keeps env G (MonadState.get : Coro σ ι ρ ε σ) := Std.Refl.refl

lemma Keeps.check [Std.Refl G] (p : Prop) [Decidable p] (e : ε) :
    Keeps env G (Coro.check p e : Coro σ ι ρ ε Unit) := by
  intro s
  unfold Coro.check
  split
  · exact Std.Refl.refl s
  · trivial

lemma Keeps.ofOption [Std.Refl G] (e : ε) (x : Option α) :
    Keeps env G (Coro.ofOption e x : Coro σ ι ρ ε α) := by
  intro s
  cases x with
  | none => trivial
  | some a => exact Std.Refl.refl s

lemma Keeps.modify {f : σ → σ} (h : ∀ s, G s (f s)) :
    Keeps env G (modify f : Coro σ ι ρ ε PUnit) := h

lemma Keeps.yield {i : ι} (h : ∀ r s t, env i r s t → G s t) :
    Keeps env G (Coro.yield i : Coro σ ι ρ ε ρ) := fun s r t henv => h r s t henv

lemma Keeps.exec {x : Coro σ ι ρ ε α} (h : Keeps env G x) {s t : σ} {a : α}
    (he : Exec env (x s) a t) : G s t := (h s).exec he

end Coro

/-! ## The requests of a coroutine -/

namespace Coroutine

variable {σ ι ρ ε α β : Type} {P : ι → Prop}

/-- Whatever the answers, only requests with `P` are made. -/
def Res.Calls (P : ι → Prop) : Res σ ι ρ ε α → Prop
  | .done _ _ | .fail _ => True
  | .susp i _ k => P i ∧ ∀ r s, (k r s).Calls P

lemma Res.Calls.bind {m : Res σ ι ρ ε α} {f : α → σ → Res σ ι ρ ε β} (h : m.Calls P)
    (hf : ∀ a s, (f a s).Calls P) : (m.bind f).Calls P := by
  induction m with
  | done a s => exact hf a s
  | fail e => trivial
  | susp i s k ih => exact ⟨h.1, fun r s => ih r s (h.2 r s)⟩

lemma Res.Calls.check (p : Prop) [Decidable p] (e : ε) (s : σ) :
    (Coro.check p e s : Res σ ι ρ ε Unit).Calls P := by
  unfold Coro.check
  split
  · trivial
  · trivial

lemma Res.Calls.ofOption (e : ε) (x : Option α) (s : σ) :
    (Coro.ofOption e x s : Res σ ι ρ ε α).Calls P := by
  cases x with
  | none => trivial
  | some a => trivial

/-! ## Two runs of one coroutine -/

variable {R : σ → σ → Prop}

/-- Two outcomes that make the same requests and end with the same result, in states that
`R` relates as long as it relates those in which they go on. -/
def Res.Related (R : σ → σ → Prop) : Res σ ι ρ ε α → Res σ ι ρ ε α → Prop
  | .done a s, .done b t => a = b ∧ R s t
  | .fail e, .fail e' => e = e'
  | .susp i s k, .susp j t l =>
      i = j ∧ R s t ∧ ∀ r s' t', R s' t' → (k r s').Related R (l r t')
  | _, _ => False

lemma Res.Related.bind {x y : Res σ ι ρ ε α} {f g : α → σ → Res σ ι ρ ε β}
    (h : x.Related R y) (hfg : ∀ a s t, R s t → (f a s).Related R (g a t)) :
    (x.bind f).Related R (y.bind g) := by
  induction x generalizing y with
  | done a s =>
    cases y with
    | done b t =>
      obtain ⟨rfl, hst⟩ := h
      exact hfg a s t hst
    | fail | susp => exact h.elim
  | fail e =>
    cases y with
    | fail e' => exact h
    | done | susp => exact h.elim
  | susp i s k ih =>
    cases y with
    | susp j t l =>
      obtain ⟨hij, hst, hk⟩ := h
      exact ⟨hij, hst, fun r s' t' hst' => ih r s' (hk r s' t' hst')⟩
    | done | fail => exact h.elim

section Handler

variable {h : ι → σ → ρ × σ}

lemma Res.Related.ofOption_bind {e : ε} {x : Option α} {s t : σ}
    {f g : α → σ → Res σ ι ρ ε β} (hfg : ∀ a, x = some a → (f a s).Related R (g a t)) :
    ((Coro.ofOption e x s).bind f).Related R ((Coro.ofOption e x t).bind g) := by
  cases x with
  | none => rfl
  | some a => exact hfg a rfl

/-- Answered by one handler, they make the same requests and end in the same way. -/
lemma Res.Related.run (hh : ∀ i s t, R s t → (h i s).1 = (h i t).1 ∧ R (h i s).2 (h i t).2)
    {x y : Res σ ι ρ ε α} (hxy : x.Related R y) : x.requests h = y.requests h ∧
      ((∃ e, x.run h = .error e ∧ y.run h = .error e) ∨
        ∃ a s t, x.run h = .ok (a, s) ∧ y.run h = .ok (a, t) ∧ R s t) := by
  induction x generalizing y with
  | done a s =>
    cases y with
    | done b t =>
      obtain ⟨rfl, hst⟩ := hxy
      exact ⟨rfl, .inr ⟨a, s, t, rfl, rfl, hst⟩⟩
    | fail | susp => exact hxy.elim
  | fail e =>
    cases y with
    | fail e' =>
      cases hxy
      exact ⟨rfl, .inl ⟨e, rfl, rfl⟩⟩
    | done | susp => exact hxy.elim
  | susp i s k ih =>
    cases y with
    | susp j t l =>
      obtain ⟨rfl, hst, hk⟩ := hxy
      obtain ⟨hreply, hst'⟩ := hh i s t hst
      obtain ⟨hrequests, hend⟩ := ih (h i s).1 (h i s).2 (hk (h i s).1 _ _ hst')
      rw [hreply] at hrequests hend
      exact ⟨by simpa only [Res.requests, hreply, List.cons.injEq, true_and] using hrequests,
        by simpa only [Res.run, hreply] using hend⟩
    | done | fail => exact hxy.elim

end Handler

/-! ## Coroutines whose stretches keep a relation

The same for what happens between two points where a coroutine stops, whatever the others
do while it is suspended. -/

variable {κ : Type} {G : σ → σ → Prop} {s : σ}

/-- Each stretch ends in a state that `G` relates to the one it started from, the first
of them from `s₀`. -/
def Res.Stretches (env : ι → ρ → σ → σ → Prop) (G : σ → σ → Prop) :
    σ → Res σ ι ρ ε α → Prop
  | s₀, .done _ t => G s₀ t
  | _, .fail _ => True
  | s₀, .susp i t k => G s₀ t ∧ ∀ r s₁ s₂, env i r s₁ s₂ → (k r s₂).Stretches env G s₁

lemma Res.Stretches.left [IsTrans σ G] {env : ι → ρ → σ → σ → Prop} {m : Res σ ι ρ ε α} {t : σ}
    (h : m.Stretches env G t) (hst : G s t) : m.Stretches env G s := by
  cases m with
  | done a u => exact IsTrans.trans _ _ _ hst h
  | fail e => trivial
  | susp i u k => exact ⟨IsTrans.trans _ _ _ hst h.1, h.2⟩

lemma Res.Stretches.bind [IsTrans σ G] {env : ι → ρ → σ → σ → Prop} {m : Res σ ι ρ ε α}
    {f : α → σ → Res σ ι ρ ε β} (h : m.Stretches env G s) (hf : ∀ a t, (f a t).Stretches env G t) :
    (m.bind f).Stretches env G s := by
  induction m generalizing s with
  | done a t => exact (hf a t).left h
  | fail e => trivial
  | susp i t k ih => exact ⟨h.1, fun r s1 s2 henv => ih r s2 (h.2 r s1 s2 henv)⟩

/-- So do those of every coroutine that is suspended. -/
def Pool.Stretches (env : κ → ι → ρ → σ → σ → Prop) (G : σ → σ → Prop)
    (p : Pool σ ι ρ ε κ) : Prop :=
  ∀ c i k, p.waiting c = some (i, k) → ∀ r s₁ s₂, env c i r s₁ s₂ → (k r s₂).Stretches (env c) G s₁

section Pool

variable [DecidableEq κ] {env : κ → ι → ρ → σ → σ → Prop} {p p' : Pool σ ι ρ ε κ}

lemma Pool.Stretches.park {c : κ} {m : Res σ ι ρ ε Unit} (hp : p.Stretches env G)
    (hm : m.Stretches (env c) G s) (h : p.park c m = some p') :
    G s p'.state ∧ p'.Stretches env G := by
  cases m with
  | done a t =>
    cases h
    refine ⟨hm, fun d i k hd => ?_⟩
    rcases eq_or_ne d c with rfl | hne
    · simp at hd
    · exact hp d i k (by simpa [hne] using hd)
  | fail e => cases h
  | susp i t k =>
    cases h
    refine ⟨hm.1, fun d i' k' hd => ?_⟩
    rcases eq_or_ne d c with rfl | hne
    · simp only [Function.update_self, Option.some.injEq, Prod.mk.injEq] at hd
      obtain ⟨rfl, rfl⟩ := hd
      exact hm.2
    · exact hp d i' k' (by simpa [hne] using hd)

lemma Pool.Stretches.step {body : κ → β → Coro σ ι ρ ε Unit} {e : Event κ β ρ}
    (hp : p.Stretches env G) (hbody : ∀ c b s, (body c b s).Stretches (env c) G s)
    (h : Pool.Step body env p e p') : G p.state p'.state ∧ p'.Stretches env G := by
  cases h with
  | start hw hpark => exact hp.park (hbody _ _ _) hpark
  | resume hw henv hpark => exact hp.park (hp _ _ _ hw _ _ _ henv) hpark

end Pool

end Coroutine

namespace Coro

open Coroutine

variable {σ ι ρ ε α β : Type} {env : ι → ρ → σ → σ → Prop} {G : σ → σ → Prop}

/-- From any state, every stretch of the coroutine keeps `G`. -/
def Stretches (env : ι → ρ → σ → σ → Prop) (G : σ → σ → Prop) (x : Coro σ ι ρ ε α) : Prop :=
  ∀ s, (x s).Stretches env G s

lemma Stretches.bind [IsTrans σ G] {x : Coro σ ι ρ ε α} {f : α → Coro σ ι ρ ε β}
    (hx : Stretches env G x) (hf : ∀ a, Stretches env G (f a)) : Stretches env G (x >>= f) :=
  fun s => (hx s).bind hf

lemma Stretches.pure [Std.Refl G] (a : α) : Stretches env G (Pure.pure a : Coro σ ι ρ ε α) :=
  Std.Refl.refl

lemma Stretches.get [Std.Refl G] : Stretches env G (MonadState.get : Coro σ ι ρ ε σ) :=
  Std.Refl.refl

lemma Stretches.check [Std.Refl G] (p : Prop) [Decidable p] (e : ε) :
    Stretches env G (Coro.check p e : Coro σ ι ρ ε Unit) := by
  intro s
  unfold Coro.check
  split
  · exact Std.Refl.refl s
  · trivial

lemma Stretches.ofOption [Std.Refl G] (e : ε) (x : Option α) :
    Stretches env G (Coro.ofOption e x : Coro σ ι ρ ε α) := by
  intro s
  cases x with
  | none => trivial
  | some a => exact Std.Refl.refl s

lemma Stretches.modify {f : σ → σ} (h : ∀ s, G s (f s)) :
    Stretches env G (modify f : Coro σ ι ρ ε PUnit) := h

lemma Stretches.yield [Std.Refl G] {i : ι} (h : ∀ r s t, env i r s t → G s t) :
    Stretches env G (Coro.yield i : Coro σ ι ρ ε ρ) :=
  fun s => ⟨Std.Refl.refl s, h⟩

end Coro
