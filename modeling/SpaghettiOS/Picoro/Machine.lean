import Mathlib.Algebra.Ring.Nat
import SpaghettiOS.Lib.Asymmetric

/-!
# The coroutine library

Every system call and every fault is handled by a coroutine of this library, a `struct coro`
on its own stretch of the C stack.  The structures are numbered in the order the stack grows
over them, and 0 is the null pointer.  The lists are Lean lists, and the link of a structure is
what stands behind it.

`Point` is the places a jump can arrive at: each is a `setjmp` that returns a second time, with
what the code there still needs.  `Machine.step` runs from one such place, or from a call that a
coroutine makes, to the next jump.  The stack is taken to be large enough.
-/

namespace SpaghettiOS.Picoro

open Function (update)
open Asymmetric

inductive Point where
  /-- In the `pass` of `resume` or `yield`. -/
  | caller (k : Cont Nat)
  /-- At the fork in `coroutine`. -/
  | forking (f k : Cont Nat)
  /-- In `coroutine_main`, before it has had a function. -/
  | idling
  /-- At the fork in `coroutine_main`. -/
  | forkingMain (f : Cont Nat)
  /-- In the loop of `coroutine_main`, about to call the function. -/
  | waiting (f : Cont Nat)
  /-- In the loop of `coroutine_main`, after the function has returned. -/
  | looping

inductive Control where
  | run (p : Prog Nat)
  | jump

@[simp] def Control.isJump : Control → Bool
  | .run _ => false
  | .jump => true

/-- The argument of the call that comes next, if that is `resume`. -/
def Control.target : Control → Option Nat
  | .run (.resume c _ _) => some c
  | _ => none

inductive Stop where
  | assertion
  | null
  /-- A function pointer is used as a value, or a value is called. -/
  | value
  | exit (v : Nat)
  deriving DecidableEq

structure Memory where
  running : List Nat
  idle : List Nat
  state : Nat → Point
  /-- How many structures there are, `first` included. -/
  made : Nat

structure Machine extends Memory where
  saved : Nat ⊕ Cont Nat
  control : Control
  /-- The pointers `coroutine` returns to its callers; the code keeps no such list. -/
  given : List Nat

def first : Nat := 1

/-- What is behind a structure on a list, null behind the last one. -/
def follows (c : Nat) : List Nat → Nat
  | x :: y :: l => if x = c then y else follows c (y :: l)
  | _ => 0

/-- `pop` clears the link of the structure it returns. -/
def Memory.next (m : Memory) (c : Nat) : Nat :=
  follows c (if c ∈ m.running then m.running else m.idle)

def push (list : List Nat) (c : Nat) : List Nat := c :: list

def pop : List Nat → Except Stop (Nat × List Nat)
  | [] => .error .null
  | c :: list => .ok (c, list)

namespace Machine

variable (s : Machine)

def getRunning : Nat := s.running.headD 0

def resumable (c : Nat) : Prop := c ≠ 0 ∧ s.next c = 0

instance decidableResumable (c : Nat) : Decidable (s.resumable c) :=
  inferInstanceAs (Decidable (_ ∧ _))

/-- Saves the place and the value, and jumps to the head of the running list. -/
def pass (pt : Point) (me : Nat) (arg : Nat ⊕ Cont Nat) : Except Stop Machine :=
  if me = 0 ∨ s.running = [] then .error .null
  else .ok { s with saved := arg, state := update s.state me pt, control := .jump }

def resume (pt : Point) (c : Nat) (arg : Nat ⊕ Cont Nat) : Except Stop Machine :=
  if s.resumable c then
    let s := { s with running := push s.running c }
    s.pass pt (s.next c) arg
  else .error .assertion

def yield (pt : Point) (arg : Nat ⊕ Cont Nat) : Except Stop Machine := do
  let (me, running) ← pop s.running
  { s with running }.pass pt me arg

/-- The `setjmp` on the running coroutine's own state, and the new `coroutine_main` up to its
first `pass`.  The value passed is an address on the new stack, which nothing reads. -/
def coroutineStart (pt : Point) : Except Stop Machine :=
  let me := s.made + 1
  { s with state := update s.state s.getRunning pt, made := me, idle := push s.idle me }.pass
    .idling me (.inl me)

/-- The last line of `coroutine`. -/
def activate (f k : Cont Nat) : Except Stop Machine := do
  let (c, idle) ← pop s.idle
  { s with idle, given := c :: s.given }.resume (.caller k) c (.inr f)

def coroutine (f k : Cont Nat) : Except Stop Machine :=
  if s.idle = [] then s.coroutineStart (.forking f k) else s.activate f k

/-- What `coroutine_main` does when the function returns.  The code in control is always that
of the head of the running list, whose structure is `me`. -/
def finish (v : Nat) : Except Stop Machine := do
  let (me, running) ← pop s.running
  { s with running, idle := push s.idle me }.pass .looping me (.inl v)

def call : Prog Nat → Except Stop Machine
  | .ret v => if s.getRunning = first then .error (.exit v) else s.finish v
  | .self k => .ok { s with control := .run (k s.getRunning) }
  | .yield v k => s.yield (.caller k) (.inl v)
  | .resume c v k => s.resume (.caller k) c (.inl v)
  | .create f k => s.coroutine f k

/-- Goes on where the `setjmp` returns again. -/
def land : Point → Nat ⊕ Cont Nat → Except Stop Machine
  | .caller k, .inl v => .ok { s with control := .run (k v) }
  | .forking f k, _ => s.activate f k
  | .idling, .inr f => s.coroutineStart (.forkingMain f)
  | .forkingMain f, _ => s.yield (.waiting f) (.inl s.getRunning)
  | .waiting f, .inl v => .ok { s with control := .run (f v) }
  | .looping, .inr f => s.yield (.waiting f) (.inl s.getRunning)
  | _, _ => .error .value

def step : Except Stop Machine :=
  match s.control with
  | .run p => s.call p
  | .jump => s.land (s.state s.getRunning) s.saved

/-- Only `first` is there, and it runs the program. -/
def boot (p : Prog Nat) : Machine :=
  ⟨⟨[first], [], fun _ => .looping, first⟩, .inl 0, .run p, []⟩

def Busy : Prop := s.control.isJump

/-- A caller resumes only what `coroutine` has returned to it. -/
def Honest (s : Machine) (_ : Unit) : Prop := ∀ c ∈ s.control.target, c ∈ s.given

instance decidableBusy : DecidablePred Busy := fun s =>
  inferInstanceAs (Decidable (s.control.isJump = true))

instance decidableHonest (u : Unit) : Decidable (Honest s u) :=
  inferInstanceAs (Decidable (∀ c ∈ s.control.target, c ∈ s.given))

def Run (p : Prog Nat) (s : Machine) : Prop :=
  Lts.Run (fun s (_ : Unit) t => s.step = .ok t) Honest (boot p) s

end Machine

end SpaghettiOS.Picoro
