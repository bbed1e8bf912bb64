import SpaghettiOS.VM.Sweep

/-!
# What frames and slots are used for

An abstract account of memory: every frame of the table and every slot of the
pagefile has one use, given by two functions.  `Matches m s u` says that the
frame table, the free lists, the page tables and the pagefile list of a state
agree with an account `u`.

A page fault in flight owns frames and slots that no page table names yet, or no
longer names.  Its `Claim` says which; `Books m s o` says that some account matches
the state, with the claims `o`.
-/

namespace SpaghettiOS.Vm

open Function (update)

/-- What a frame is used for. The last four uses belong to a fault in flight: a frame for a
page-table node, one that no entry names yet, one that is named and has no owner recorded, and
one that is being written out. -/
inductive FrameUse where
  | free
  | kernel
  | table (pid : Int) (x : PageTable.Place)
  | page (pid : Int) (vaddr : Nat)
  | spare (co : Int)
  | fresh (co : Int)
  | linked (co : Int) (vaddr : Nat)
  | leaving (pid : Int) (vaddr : Nat) (co : Int)
deriving DecidableEq

/-- What a slot of the pagefile is used for.  A slot that is being read back is
named by no entry. -/
inductive SlotUse where
  | free
  | page (pid : Int) (vaddr : Nat)
  | reading (co : Int)
deriving DecidableEq

structure Usage where
  frame : Nat → FrameUse
  slot : Nat → SlotUse

/-- What the frame table says about a frame of the given use. -/
def FrameOk (e : FrameTableEntry) : FrameUse → Prop
  | .free => e.cap = 0
  | .kernel => e.cap ≠ 0 ∧ (e.important = true ∨ e.pid < 0)
  | .table _ _ => e.cap ≠ 0 ∧ e.important = true
  | .spare _ => e.cap ≠ 0 ∧ e.important = true
  | .page p v => e.cap ≠ 0 ∧ e.important = false ∧ e.pid = p ∧ e.userVaddr = v ∧ 0 < p ∧ PageAddr v
  | .leaving p v _ =>
      e.cap ≠ 0 ∧ e.important = false ∧ e.pid = p ∧ e.userVaddr = v ∧ 0 < p ∧ PageAddr v
  | .fresh _ => e.cap ≠ 0 ∧ e.important = false ∧ e.pid < 0
  | .linked _ _ => e.cap ≠ 0 ∧ e.important = false ∧ e.pid < 0

/-- `l` is the chain of free pages from `n` on.  The link of the last one leads
nowhere in particular. -/
def Chain (next : Nat → Nat) : Nat → List Nat → Prop
  | _, [] => True
  | n, f :: l => n = f ∧ Chain next (next f) l

lemma Chain.congr {next next' : Nat → Nat} {n : Nat} {l : List Nat} (h : Chain next n l)
    (heq : ∀ f ∈ l, next' f = next f) : Chain next' n l := by
  induction l generalizing n with
  | nil => trivial
  | cons f l ih =>
    obtain ⟨rfl, hl⟩ := h
    refine ⟨rfl, ?_⟩
    rw [heq n (by simp)]
    exact ih hl fun g hg => heq g (by simp [hg])

/-- The free list of the frame table holds the free frames once each, and the
counter counts the others. -/
structure FreeList (m : Machine) (s : VmState) (free : Nat → Prop) (l : List Nat) : Prop where
  chain : Chain (fun f => (s.frameTable f).nextFreePage) s.nextFreePage l
  nodup : l.Nodup
  mem_iff : ∀ f, f ∈ l ↔ f < m.frameTableSize ∧ free f
  count : s.frameTableCurrSize + l.length = m.frameTableSize

/-- The state agrees with an account of its frames and slots. -/
structure Matches (m : Machine) (s : VmState) (u : Usage) : Prop where
  clock : s.clockCurr < m.frameTableSize
  opens : s.pfVnode = true ∨ ∀ t, m.openOk t = true
  pids : ∀ p, s.procs p ≠ none → 0 < p ∧ p < maxProcesses
  frames : ∀ f < m.frameTableSize, FrameOk (s.frameTable f) (u.frame f)
  freeFrames : ∃ l, FreeList m s (fun f => u.frame f = .free) l
  framed : ∀ p v f, PageAddr v → (s.pte p v = .frame f ↔
      f < m.frameTableSize ∧ (u.frame f = .page p v ∨ u.frame f = .linked p v))
  swapped : ∀ p v i, PageAddr v →
    (s.pte p v = .pagefile i ↔ i < s.pfList.size ∧ u.slot i = .page p v)
  slotAddr : ∀ i p v, i < s.pfList.size → u.slot i = .page p v → PageAddr v
  tables : ∀ p x f, s.tableFrame p x = some f ↔ f < m.frameTableSize ∧ u.frame f = .table p x
  flagged : ∀ p as i w, s.procs p = some as → as.pt.word i = some w → WellFlagged w
  freeSlots : s.pfList.free.Nodup ∧ ∀ i, i ∈ s.pfList.free ↔ i < s.pfList.size ∧ u.slot i = .free
  leaving : ∀ f p v c, f < m.frameTableSize → u.frame f = .leaving p v c →
    s.clockCurr = f ∧ ∃ i < s.pfList.size, u.slot i = .page p v

/-- A frame that is being written out, the page it holds, and the slot. -/
structure Leaving where
  frame : Nat
  pid : Int
  vaddr : Nat
  slot : Nat
deriving DecidableEq

/-- What a page fault in flight holds: the page it is for, the slot the page is read from, the
frame it was given and whether its entry names it, a frame for a page-table node, the frame it
is writing out, and the frames of its own page table, to which nobody else adds. -/
structure Claim where
  vaddr : Nat
  cap : Nat
  old : Option Nat
  page : Option Nat
  linked : Bool
  spare : Option Nat
  leaving : Option Leaving
  shape : PageTable.Place → Option Nat

/-- The entry of the page before the fault has linked its frame. -/
def Claim.entry (k : Claim) : Pte :=
  match k.old with
  | none => .invalid
  | some i => .pagefile i

/-- The coroutine a use belongs to. -/
def FrameUse.owner : FrameUse → Option Int
  | .spare c | .fresh c | .linked c _ | .leaving _ _ c => some c
  | _ => none

/-- The uses by coroutine `c` in an account are those of its claim, and the claim
is about a page of the process that is still as it was. -/
structure Holds (m : Machine) (s : VmState) (u : Usage) (c : Int) (k : Claim) : Prop where
  spare : ∀ f, f < m.frameTableSize ∧ u.frame f = .spare c ↔ k.spare = some f
  fresh : ∀ f, f < m.frameTableSize ∧ u.frame f = .fresh c ↔ k.page = some f ∧ k.linked = false
  linked : ∀ f v, f < m.frameTableSize ∧ u.frame f = .linked c v ↔
    k.page = some f ∧ k.linked = true ∧ k.vaddr = v
  leaving : ∀ f p v, f < m.frameTableSize ∧ u.frame f = .leaving p v c ↔
    ∃ i, k.leaving = some ⟨f, p, v, i⟩
  toSlot : ∀ l, k.leaving = some l → l.slot < s.pfList.size ∧ u.slot l.slot = .page l.pid l.vaddr
  reading : ∀ i, i < s.pfList.size ∧ u.slot i = .reading c ↔ k.linked = true ∧ k.old = some i
  proc : s.procs c ≠ none
  addr : PageAddr k.vaddr
  hasPage : k.linked = true → k.page ≠ none
  pending : k.linked = false → s.pte c k.vaddr = k.entry
  shape : s.tableFrame c = k.shape

/-- A coroutine without a claim uses nothing. -/
def ClaimOk (m : Machine) (s : VmState) (u : Usage) (c : Int) : Option Claim → Prop
  | some k => Holds m s u c k
  | none => (∀ f < m.frameTableSize, (u.frame f).owner ≠ some c) ∧
      ∀ i < s.pfList.size, u.slot i ≠ .reading c

/-- The state and the claims of the faults in flight agree. -/
def Books (m : Machine) (s : VmState) (o : Int → Option Claim) : Prop :=
  ∃ u, Matches m s u ∧ ∀ c, ClaimOk m s u c (o c)

/-- No fault but that of `c` is writing a frame out. -/
def NoLeaving (c : Int) (o : Int → Option Claim) : Prop :=
  ∀ d k, d ≠ c → o d = some k → k.leaving = none

/-! ## Steps that do not touch the books -/

/-- The part of a frame-table entry the books are about. -/
def FrameTableEntry.core (e : FrameTableEntry) : FrameTableEntry :=
  { e with refBit := false, userCap := 0 }

/-- Nothing the books are about has changed, the clock apart. -/
structure SameBooks (s s' : VmState) : Prop where
  core : ∀ f, (s'.frameTable f).core = (s.frameTable f).core
  nextFreePage : s'.nextFreePage = s.nextFreePage
  currSize : s'.frameTableCurrSize = s.frameTableCurrSize
  pfList : s'.pfList = s.pfList
  procs : s'.procs = s.procs

lemma frameOk_core (e : FrameTableEntry) (x : FrameUse) : FrameOk e.core x ↔ FrameOk e x := by
  cases x <;> rfl

lemma VmState.pte_procs {s s' : VmState} (h : s'.procs = s.procs) : s'.pte = s.pte := by
  funext p v
  simp only [VmState.pte, h]

lemma VmState.tableFrame_procs {s s' : VmState} (h : s'.procs = s.procs) :
    s'.tableFrame = s.tableFrame := by
  funext p x
  simp only [VmState.tableFrame, h]

variable {m : Machine} {s s' : VmState} {u : Usage} {o : Int → Option Claim}

lemma Matches.congr (hm : Matches m s u) (h : SameBooks s s')
    (hclock : s'.clockCurr < m.frameTableSize)
    (hleave : s'.clockCurr = s.clockCurr ∨ ∀ f p v c, f < m.frameTableSize →
      u.frame f ≠ .leaving p v c)
    (hopens : s'.pfVnode = true ∨ s'.pfVnode = s.pfVnode) : Matches m s' u where
  clock := hclock
  opens := by
    rcases hopens with ho | ho
    · exact .inl ho
    · rw [ho]
      exact hm.opens
  pids := by
    rw [h.procs]
    exact hm.pids
  frames f hf := by
    rw [← frameOk_core, h.core, frameOk_core]
    exact hm.frames f hf
  freeFrames := by
    obtain ⟨l, hl⟩ := hm.freeFrames
    refine ⟨l, ?_, hl.nodup, hl.mem_iff, by rw [h.currSize]; exact hl.count⟩
    rw [h.nextFreePage]
    refine hl.chain.congr fun f _ => ?_
    simpa [FrameTableEntry.core] using congrArg FrameTableEntry.nextFreePage (h.core f)
  framed := by
    rw [VmState.pte_procs h.procs]
    exact hm.framed
  swapped := by
    rw [VmState.pte_procs h.procs, h.pfList]
    exact hm.swapped
  slotAddr := by
    rw [h.pfList]
    exact hm.slotAddr
  tables := by
    rw [VmState.tableFrame_procs h.procs]
    exact hm.tables
  flagged := by
    rw [h.procs]
    exact hm.flagged
  freeSlots := by
    rw [h.pfList]
    exact hm.freeSlots
  leaving f p v c hf hu := by
    rcases hleave with hc | hno
    · rw [hc, h.pfList]
      exact hm.leaving f p v c hf hu
    · exact absurd hu (hno f p v c hf)

lemma ClaimOk.congr {c : Int} {claim : Option Claim} (hc : ClaimOk m s u c claim)
    (h : SameBooks s s') : ClaimOk m s' u c claim := by
  cases claim with
  | none =>
    obtain ⟨hframe, hslot⟩ := hc
    refine ⟨hframe, ?_⟩
    rw [h.pfList]
    exact hslot
  | some k =>
    have hk : Holds m s u c k := hc
    refine
      { hk with toSlot := ?_, reading := ?_, proc := ?_, pending := ?_, shape := ?_ }
    · rw [h.pfList]
      exact hk.toSlot
    · rw [h.pfList]
      exact hk.reading
    · rw [h.procs]
      exact hk.proc
    · rw [VmState.pte_procs h.procs]
      exact hk.pending
    · rw [VmState.tableFrame_procs h.procs]
      exact hk.shape

lemma Books.congr (hb : Books m s o) (h : SameBooks s s') (hclock : s'.clockCurr = s.clockCurr)
    (hopens : s'.pfVnode = true ∨ s'.pfVnode = s.pfVnode) : Books m s' o := by
  obtain ⟨u, hm, hc⟩ := hb
  exact ⟨u, hm.congr h (hclock ▸ hm.clock) (.inl hclock) hopens, fun c => (hc c).congr h⟩

lemma Books.copyTo (hb : Books m s o) (dst len : Nat) (src : Nat → UInt8) :
    Books m (s.copyTo dst len src) o :=
  hb.congr ⟨fun _ => rfl, rfl, rfl, rfl, rfl⟩ rfl (.inr rfl)

lemma Books.moveClock (hb : Books m s o) (h : SameBooks s s')
    (hclock : s'.clockCurr < m.frameTableSize) (hopens : s'.pfVnode = s.pfVnode)
    (hno : ∀ c k, o c = some k → k.leaving = none) : Books m s' o := by
  obtain ⟨u, hm, hc⟩ := hb
  refine ⟨u, hm.congr h hclock (.inr fun f p v c hf hu => ?_) (.inr hopens),
    fun c => (hc c).congr h⟩
  have hcl := hc c
  cases ho : o c with
  | none =>
    rw [ho] at hcl
    exact hcl.1 f hf (by rw [hu]; rfl)
  | some k =>
    rw [ho] at hcl
    obtain ⟨i, hl⟩ := (hcl.leaving f p v).mp ⟨hf, hu⟩
    rw [hno c k ho] at hl
    cases hl

/-! ## The claims of the other faults -/

/-- What a step leaves alone for the claim of coroutine `d` to stay good: the uses
by `d`, the slot it writes to, the frames of its page table, and the entries that
name no frame. -/
structure Untouched (m : Machine) (s : VmState) (u : Usage) (s' : VmState) (u' : Usage)
    (d : Int) : Prop where
  frame : ∀ f < m.frameTableSize, (u.frame f).owner = some d ∨ (u'.frame f).owner = some d →
    u'.frame f = u.frame f
  slot : ∀ i, i < s'.pfList.size ∧ u'.slot i = .reading d ↔
    i < s.pfList.size ∧ u.slot i = .reading d
  toSlot : ∀ f p v i, f < m.frameTableSize → u.frame f = .leaving p v d →
    i < s.pfList.size → u.slot i = .page p v → i < s'.pfList.size ∧ u'.slot i = .page p v
  proc : s.procs d ≠ none → s'.procs d ≠ none
  entry : ∀ v, PageAddr v → (∀ f, s.pte d v ≠ .frame f) → s'.pte d v = s.pte d v
  tables : s'.tableFrame d = s.tableFrame d

lemma Claim.entry_ne_frame (k : Claim) (f : Nat) : k.entry ≠ .frame f := by
  unfold Claim.entry
  split <;> simp

lemma Holds.untouched {u' : Usage} {d : Int} {k : Claim}
    (hc : Holds m s u d k) (h : Untouched m s u s' u' d) : Holds m s' u' d k := by
  have hframe : ∀ f x, FrameUse.owner x = some d →
      (f < m.frameTableSize ∧ u'.frame f = x ↔ f < m.frameTableSize ∧ u.frame f = x) := by
    intro f x hx
    refine and_congr_right fun hf => ⟨fun hu => ?_, fun hu => ?_⟩
    · rw [← h.frame f hf (.inr (hu ▸ hx)), hu]
    · rw [h.frame f hf (.inl (hu ▸ hx)), hu]
  refine { hc with
    spare := fun f => (hframe f _ rfl).trans (hc.spare f)
    fresh := fun f => (hframe f _ rfl).trans (hc.fresh f)
    linked := fun f v => (hframe f _ rfl).trans (hc.linked f v)
    leaving := fun f p v => (hframe f _ rfl).trans (hc.leaving f p v)
    toSlot := fun l hl => ?_
    reading := fun i => (h.slot i).trans (hc.reading i)
    proc := h.proc hc.proc
    pending := fun hl => ?_
    shape := h.tables.trans hc.shape }
  · obtain ⟨hf, hu⟩ := (hc.leaving l.frame l.pid l.vaddr).mpr ⟨l.slot, hl⟩
    obtain ⟨hi, hs⟩ := hc.toSlot l hl
    exact h.toSlot l.frame l.pid l.vaddr l.slot hf hu hi hs
  · have hp := hc.pending hl
    rw [h.entry k.vaddr hc.addr fun f hf => k.entry_ne_frame f (hp.symm.trans hf), hp]

lemma ClaimOk.untouched {u' : Usage} {d : Int} {claim : Option Claim}
    (hc : ClaimOk m s u d claim) (h : Untouched m s u s' u' d) : ClaimOk m s' u' d claim := by
  cases claim with
  | some k => exact Holds.untouched hc h
  | none =>
    obtain ⟨hframe, hslot⟩ := hc
    refine ⟨fun f hf hu => ?_, fun i hi hu => ?_⟩
    · exact hframe f hf (h.frame f hf (.inr hu) ▸ hu)
    · obtain ⟨hi', hu'⟩ := (h.slot i).mp ⟨hi, hu⟩
      exact hslot i hi' hu'

lemma Books.step {c : Int} {claim old : Option Claim} (u' : Usage) (hm : Matches m s' u')
    (hc : ClaimOk m s' u' c claim) (ho : ∀ d, ClaimOk m s u d (update o c old d))
    (h : ∀ d, d ≠ c → Untouched m s u s' u' d) : Books m s' (update o c claim) := by
  refine ⟨u', hm, fun d => ?_⟩
  rcases eq_or_ne d c with rfl | hd
  · simpa using hc
  · have hother := (ho d).untouched (h d hd)
    simpa [hd] using hother

end SpaghettiOS.Vm
