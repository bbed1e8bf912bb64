import Mathlib.Logic.Function.Basic
import SpaghettiOS.Lib.Run

/-!
# Asymmetric coroutines

A coroutine hands control down by resuming another one and back up by yielding, so that the
coroutines that have started and not yielded form a stack.  `Prog` is what one of them does
between two such calls, and `Conf.Step` is what the calls mean.

An implementation moves control in several jumps.  `Soon` is for a machine like that: busy
states are passed, and the property is that of the state they lead to.
-/

namespace Asymmetric

open Function (update)

variable {W : Type} {σ ε : Type}

inductive Prog (W : Type) where
  | ret (v : W)
  | self (k : W → Prog W)
  | yield (v : W) (k : W → Prog W)
  | resume (c v : W) (k : W → Prog W)
  | create (f k : W → Prog W)

abbrev Cont (W : Type) := W → Prog W

/-- The coroutine in control, those that wait for it to yield or return, the suspended ones,
and every name that was given out. -/
structure Conf (W : Type) where
  prog : Prog W
  current : W
  stack : List (W × Cont W)
  waiting : W → Option (Cont W)
  issued : List W

/-- The coroutines that have been resumed and have not yielded since, the last one first. -/
def Conf.active (a : Conf W) : List W := a.current :: a.stack.map Prod.fst

inductive Conf.Step [Zero W] [DecidableEq W] : Conf W → Conf W → Prop where
  | self {k c st w g} : Step ⟨.self k, c, st, w, g⟩ ⟨k c, c, st, w, g⟩
  | yield {v k k' c d st w g} :
      Step ⟨.yield v k, c, (d, k') :: st, w, g⟩ ⟨k' v, d, st, update w c (some k), g⟩
  | ret {v k c d st w g} : Step ⟨.ret v, c, (d, k) :: st, w, g⟩ ⟨k v, d, st, w, g⟩
  | resume {v k f c d st w g} : w d = some f →
      Step ⟨.resume d v k, c, st, w, g⟩ ⟨f v, d, (c, k) :: st, update w d none, g⟩
  | create {f k c d st w g} : d ≠ 0 → w d = none → d ∉ c :: st.map Prod.fst →
      Step ⟨.create f k, c, st, w, g⟩ ⟨k d, c, st, update w d (some f), d :: g⟩

def Conf.Reach [Zero W] [DecidableEq W] (a b : Conf W) : Prop :=
  Lts.Run (fun a (_ : Unit) b => Step a b) Lts.anyStep a b

/-- A state with the property is reached once the busy states are passed. -/
inductive Soon (next : σ → Except ε σ) (busy : σ → Prop) (P : σ → Prop) : σ → Prop where
  | now {s} : ¬ busy s → P s → Soon next busy P s
  | later {s t} : busy s → next s = .ok t → Soon next busy P t → Soon next busy P s

variable {next : σ → Except ε σ} {busy P : σ → Prop} {guard : σ → Unit → Prop}

lemma Soon.mono {P' : σ → Prop} {s : σ} (h : Soon next busy P s) (hP : ∀ s, P s → P' s) :
    Soon next busy P' s := by
  induction h with
  | now hquiet hs => exact .now hquiet (hP _ hs)
  | later hbusy hnext _ ih => exact .later hbusy hnext ih

lemma Soon.reaches {s : σ} (h : Soon next busy P s) :
    ∃ t, Lts.Run (fun s (_ : Unit) t => next s = .ok t) Lts.anyStep s t ∧ ¬ busy t ∧ P t := by
  induction h with
  | now hquiet hs => exact ⟨_, .refl, hquiet, hs⟩
  | later _ hnext _ ih =>
    obtain ⟨t, hrun, ht⟩ := ih
    exact ⟨t, hrun.invariant (.tail (a := ()) .refl trivial hnext) .tail, ht⟩

lemma Soon.run (hstep : ∀ {s t}, ¬ busy s → P s → guard s () → next s = .ok t →
      Soon next busy P t) {s0 s : σ} (h0 : Soon next busy P s0)
    (hrun : Lts.Run (fun s (_ : Unit) t => next s = .ok t) guard s0 s) : Soon next busy P s := by
  refine hrun.invariant h0 fun {t u a} ht hguard hnext => ?_
  cases ht with
  | now hquiet hP => exact hstep hquiet hP hguard hnext
  | later _ hnext' hu =>
    rw [hnext'] at hnext
    cases hnext
    exact hu

end Asymmetric
