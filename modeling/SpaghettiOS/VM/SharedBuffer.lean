import SpaghettiOS.VM.Consistency

/-!
# The shared buffer

System calls pass their data through a window of the shared buffer that belongs to
the process, and the pager moves pages through the window of the kernel.  All
windows lie in frames that the kernel took when it booted.

The file server is reliable here: a request transfers all its bytes, and a read
returns what the pagefile holds.
-/

namespace SpaghettiOS.Vm

open Coroutine (Res Exec)
open Function (update update_of_ne update_self)

/-! ## Frames of the buffer -/

/-- The frames behind the windows of `MAX_PROCESSES` processes, from frame `b` on. -/
def BufferFrame (b f : Nat) : Prop := b ≤ f ∧ f < b + 32 * 256

/-- The shared buffer begins at frame `b`, and its frames are the kernel's. -/
structure BufferOk (m : Machine) (b : Nat) (s : VmState) (o : Int → Option Claim) : Prop where
  begins : m.sharedBufBegin = m.pageNumToVaddr b
  frames : ∀ f, BufferFrame b f →
    f < m.frameTableSize ∧ s.allocated f ∧ (s.frameTable f).important = true
  tables : ∀ f p x, BufferFrame b f → s.tableFrame p x ≠ some f
  spare : ∀ f c k, BufferFrame b f → o c = some k → k.spare ≠ some f

variable {j f a g : Nat} {r : NfsReply}

section Buffer

variable {m : Machine} {b : Nat} {s s' : VmState} {u : Usage} {o : Int → Option Claim}
variable {c : Int} {k k' : Claim}

lemma BufferOk.kernel (h : BufferOk m b s o) (hm : Matches m s u)
    (hc : ∀ d, ClaimOk m s u d (o d)) (hf : BufferFrame b f) : u.frame f = .kernel := by
  obtain ⟨hlt, hcap, himp⟩ := h.frames f hf
  have hok := hm.frames f hlt
  cases hu : u.frame f with
  | kernel => rfl
  | free =>
    rw [hu] at hok
    exact absurd hok hcap
  | table p x => exact absurd ((hm.tables p x f).mpr ⟨hlt, hu⟩) (h.tables f p x hf)
  | spare d =>
    have hd := hc d
    cases ho : o d with
    | none =>
      rw [ho] at hd
      exact absurd (by rw [hu]; rfl) (hd.1 f hlt)
    | some k =>
      rw [ho] at hd
      exact absurd ((Holds.spare hd f).mp ⟨hlt, hu⟩) (h.spare f d k hf ho)
  | page p v | fresh d | linked d v | leaving p v d =>
    rw [hu] at hok
    have hfalse : (s.frameTable f).important = false := hok.2.1
    rw [himp] at hfalse
    cases hfalse

lemma BufferOk.not_buffer (h : BufferOk m b s o) (hm : Matches m s u)
    (hc : ∀ d, ClaimOk m s u d (o d)) (hu : u.frame f ≠ .kernel) : ¬ BufferFrame b f :=
  fun hf => hu (h.kernel hm hc hf)

lemma BufferOk.nextFree (h : BufferOk m b s o) (hb : Books m s o)
    (hroom : s.frameTableCurrSize < m.frameTableSize) : ¬ BufferFrame b s.nextFreePage := by
  obtain ⟨u, hm, hc⟩ := hb
  have hfree := (hm.nextFree_free hroom).2
  exact h.not_buffer hm hc (by rw [hfree]; nofun)

lemma BufferOk.step (h : BufferOk m b s o)
    (hframe : ∀ f, BufferFrame b f → (s'.frameTable f).cap = (s.frameTable f).cap ∧
      (s'.frameTable f).important = (s.frameTable f).important)
    (htab : s'.tableFrame = s.tableFrame) : BufferOk m b s' o where
  begins := h.begins
  frames f hf := by
    obtain ⟨hlt, hcap, himp⟩ := h.frames f hf
    obtain ⟨hcap', himp'⟩ := hframe f hf
    refine ⟨hlt, ?_, himp'.trans himp⟩
    unfold VmState.allocated
    rw [hcap']
    exact hcap
  tables := by
    rw [htab]
    exact h.tables
  spare := h.spare

lemma BufferOk.claim (h : BufferOk m b s (update o c (some k)))
    (hk : ∀ f, k'.spare = some f → k.spare = some f ∨ ¬ BufferFrame b f) :
    BufferOk m b s (update o c (some k')) := by
  refine { h with spare := fun f d k1 hf hd hs => ?_ }
  rcases eq_or_ne d c with rfl | hne
  · rw [update_self] at hd
    cases hd
    rcases hk f hs with hk | hk
    · exact h.spare f d k hf (update_self ..) hk
    · exact hk hf
  · rw [update_of_ne hne] at hd
    exact h.spare f d k1 hf (by rwa [update_of_ne hne]) hs

lemma BufferOk.over (h : BufferOk m b s (update o c (some k))) :
    BufferOk m b s (update o c none) := by
  refine { h with spare := fun f d k1 hf hd => ?_ }
  rcases eq_or_ne d c with rfl | hne
  · rw [update_self] at hd
    cases hd
  · rw [update_of_ne hne] at hd
    exact h.spare f d k1 hf (by rwa [update_of_ne hne])

lemma BufferOk.setFrame (h : BufferOk m b s o) (f : Nat) {g : FrameTableEntry → FrameTableEntry}
    (hcap : ∀ e, (g e).cap = e.cap) (himp : ∀ e, (g e).important = e.important) :
    BufferOk m b (s.setFrame f g) o := by
  refine h.step (fun f' _ => ?_) rfl
  rcases eq_or_ne f' f with rfl | hne
  · simp [VmState.setFrame, hcap, himp]
  · simp [VmState.setFrame, hne]

lemma BufferOk.copyTo (h : BufferOk m b s o) (dst len : Nat) (src : Nat → UInt8) :
    BufferOk m b (s.copyTo dst len src) o :=
  h.step (fun _ _ => ⟨rfl, rfl⟩) rfl

lemma BufferOk.sameBooks (h : BufferOk m b s o) (hs : SameBooks s s') : BufferOk m b s' o := by
  refine h.step (fun f _ => ?_) (VmState.tableFrame_procs hs.procs)
  have hcore := hs.core f
  exact ⟨(congrArg FrameTableEntry.cap hcore :), (congrArg FrameTableEntry.important hcore :)⟩

lemma carried_buffer {v : Nat} {env : NfsReq → NfsReply → VmState → VmState → Prop}
    (hreply : ∀ {i r s s'}, env i r s s' →
      SameBooks s s' ∧ s'.clockCurr = s.clockCurr ∧ s'.pfVnode = s.pfVnode ∧ s'.running = c) :
    Carried m c v env (BufferOk m b) (fun _ _ => True) (BufferOk m b) (BufferOk m b) where
  reply := hreply
  tick _ h := h.step (fun _ _ => ⟨rfl, rfl⟩) rfl
  opened h := h.step (fun _ _ => ⟨rfl, rfl⟩) rfl
  start := by
    intro s o old _ h _ _
    refine { h with spare := fun f d k hf hd hs => ?_ }
    rcases eq_or_ne d c with rfl | hne
    · rw [update_self] at hd
      cases hd
      cases hs
    · rw [update_of_ne hne] at hd
      exact h.spare f d k hf hd hs
  sweep := by
    intro s s' o n _ h hs
    obtain ⟨k, -, -, rfl⟩ := (sweep_eq_some n).mp hs
    refine h.step (fun f _ => ?_) ?_
    · rw [turn_frame]
      exact ⟨rfl, rfl⟩
    · rw [turn_rest]
      rfl
  swapOut := by
    intro s o k f i l _ h _ _ _ _ _ _ _ _ _ _
    refine ⟨?_, fun _ _ => trivial⟩
    have hswap : BufferOk m b (s.swapOut (s.frameTable f).pid (s.frameTable f).userVaddr i l)
        (update o c (some k)) :=
      h.step (fun _ _ => ⟨rfl, rfl⟩) (tableFrame_swapOut ..)
    exact BufferOk.claim (hswap.copyTo _ _ _) fun _ hs => .inl hs
  written := by
    intro s s' o k l data r hb h hk _ _ henv _
    obtain ⟨u, hm, hc⟩ := hb
    obtain ⟨-, hu⟩ := ((Holds.of_update hc).leaving l.frame l.pid l.vaddr).mpr ⟨l.slot, hk⟩
    have hs' : BufferOk m b s' (update o c (some { k with leaving := none })) :=
      (h.sameBooks (hreply henv).1).claim fun _ hs => .inl hs
    refine hs'.step (fun f hf => ?_) rfl
    rw [frameTable_release, if_neg]
    · exact ⟨rfl, rfl⟩
    · rintro rfl
      exact h.not_buffer hm hc (by rw [hu]; nofun) hf
  take := by
    intro s o k imp hb h _ hroom hk
    have hnot := h.nextFree hb hroom
    have hclaim : BufferOk m b s (update o c (some (k.taking imp s.nextFreePage))) := by
      refine h.claim fun f hs => ?_
      cases imp with
      | false => exact .inl hs
      | true =>
        cases hs
        exact .inr hnot
    refine hclaim.step (fun f hf => ?_) rfl
    have hne : f ≠ s.nextFreePage := by
      rintro rfl
      exact hnot hf
    simp [VmState.take, VmState.setFrame, VmState.clearPage, hne]
  addNode := by
    intro s o k f as g x hb h hspare has hadd
    have hclaim : BufferOk m b s
        (update o c (some { k with spare := none, shape := update k.shape x (some f) })) :=
      h.claim fun _ hs => by cases hs
    refine { hclaim with frames := h.frames, tables := fun f' p y hf' => ?_ }
    rw [tableFrame_modifyTable has]
    split
    · rw [hadd.frameAt]
      rcases eq_or_ne y x with rfl | hne
      · rw [update_self]
        rintro ⟨⟩
        exact h.spare f c k hf' (update_self ..) hspare
      · rw [update_of_ne hne, ← tableFrame_of_procs has]
        exact h.tables f' c y hf'
    · exact h.tables f' p y hf'
  sameTable := by
    intro s o g h _ hframe
    exact h.step (fun _ _ => ⟨rfl, rfl⟩) (tableFrame_sameTable hframe)
  slot h _ := BufferOk.claim (h.step (fun _ _ => ⟨rfl, rfl⟩) rfl) fun _ hs => .inl hs
  pageMap _ h _ _ _ := h.step (fun _ _ => ⟨rfl, rfl⟩) rfl
  link := by
    intro s o k f as _ h _ _ _ _ _ _
    exact BufferOk.claim (h.step (fun _ _ => ⟨rfl, rfl⟩) (tableFrame_setWord_state _ _ _))
      fun _ hs => .inl hs
  read := by
    intro s s' o k f i r _ h _ _ _ _ henv _
    have hs' : BufferOk m b s' (update o c (some { k with old := none })) :=
      (h.sameBooks (hreply henv).1).claim fun _ hs => .inl hs
    have hcopy := (hs'.copyTo (m.getBufFromPid kernelProc) pageSize r.data).copyTo
      (m.pageNumToVaddr f) pageSize fun j =>
        (s'.copyTo (m.getBufFromPid kernelProc) pageSize r.data).mem
          (m.getBufFromPid kernelProc + j)
    exact hcopy.step (fun _ _ => ⟨rfl, rfl⟩) rfl
  settle _ h _ _ := h.over.setFrame _ (fun _ => rfl) fun _ => rfl
  settleRead _ h _ _ := (h.over.copyTo _ _ _).setFrame _ (fun _ => rfl) fun _ => rfl
  remap := by
    intro s o f _ h _ _ _ t mapped
    have h1 : BufferOk m b (s.setFrame f fun e => { e with pid := c }) o :=
      h.setFrame f (fun _ => rfl) fun _ => rfl
    have h2 : BufferOk m b { s.setFrame f fun e => { e with pid := c } with time := t } o :=
      h1.step (fun _ _ => ⟨rfl, rfl⟩) rfl
    refine BufferOk.setFrame ?_ f (fun _ => rfl) fun _ => rfl
    cases mapped with
    | false => exact h2
    | true => exact h2.step (fun _ _ => ⟨rfl, rfl⟩) rfl

end Buffer

/-! ## Bytes of frames and windows -/

def Machine.frameByte (m : Machine) (s : VmState) (f j : Nat) : UInt8 :=
  s.mem (m.pageNumToVaddr f + j)

def InBuffer (m : Machine) (a : Nat) : Prop :=
  m.sharedBufBegin ≤ a ∧ a < m.sharedBufBegin + 32 * shareBufBytes

section Bytes

variable {m : Machine} {b : Nat} {s : VmState} {src : Nat → UInt8}

lemma VmState.mem_copyTo (dst len a : Nat) :
    (s.copyTo dst len src).mem a = if dst ≤ a ∧ a < dst + len then src (a - dst) else s.mem a := rfl

lemma VmState.mem_clearPage (dst a : Nat) :
    (s.clearPage dst).mem a = if dst ≤ a ∧ a < dst + pageSize then 0 else s.mem a := rfl

lemma window_inBuffer {p : Int} (hp : p < maxProcesses) (h1 : m.getBufFromPid p ≤ a)
    (h2 : a < m.getBufFromPid p + pageSize) : InBuffer m a := by
  unfold Machine.getBufFromPid shareBufBytes pageSize at h1 h2
  unfold maxProcesses at hp
  unfold InBuffer shareBufBytes pageSize
  omega

lemma not_inBuffer (hb : m.sharedBufBegin = m.pageNumToVaddr b) (hf : ¬ BufferFrame b f)
    (hj : j < pageSize) : ¬ InBuffer m (m.pageNumToVaddr f + j) := by
  unfold Machine.pageNumToVaddr pageSize at hb
  unfold BufferFrame at hf
  unfold pageSize at hj
  unfold InBuffer Machine.pageNumToVaddr shareBufBytes pageSize
  omega

lemma frameByte_copyTo_window (hb : m.sharedBufBegin = m.pageNumToVaddr b) {p : Int}
    (hp : p < maxProcesses) (hf : ¬ BufferFrame b f) (hj : j < pageSize) :
    m.frameByte (s.copyTo (m.getBufFromPid p) pageSize src) f j = m.frameByte s f j := by
  unfold Machine.frameByte
  rw [VmState.mem_copyTo, if_neg]
  rintro ⟨h1, h2⟩
  exact not_inBuffer hb hf hj (window_inBuffer hp h1 h2)

lemma frame_apart (hne : f ≠ g) (hj : j < pageSize) :
    ¬ (m.pageNumToVaddr g ≤ m.pageNumToVaddr f + j ∧
      m.pageNumToVaddr f + j < m.pageNumToVaddr g + pageSize) := by
  unfold pageSize at hj
  unfold Machine.pageNumToVaddr pageSize
  omega

lemma frameByte_copyTo_frame (hne : f ≠ g) (hj : j < pageSize) :
    m.frameByte (s.copyTo (m.pageNumToVaddr g) pageSize src) f j = m.frameByte s f j := by
  unfold Machine.frameByte
  rw [VmState.mem_copyTo, if_neg (frame_apart hne hj)]

lemma frameByte_clearPage (hne : f ≠ g) (hj : j < pageSize) :
    m.frameByte (s.clearPage (m.pageNumToVaddr g)) f j = m.frameByte s f j := by
  unfold Machine.frameByte
  rw [VmState.mem_clearPage, if_neg (frame_apart hne hj)]

lemma frameByte_copyTo_self (f : Nat) (hj : j < pageSize) :
    m.frameByte (s.copyTo (m.pageNumToVaddr f) pageSize src) f j = src j := by
  unfold Machine.frameByte
  rw [VmState.mem_copyTo, if_pos (by omega), Nat.add_sub_cancel_left]

lemma frameByte_clearPage_self (f : Nat) (hj : j < pageSize) :
    m.frameByte (s.clearPage (m.pageNumToVaddr f)) f j = 0 := by
  unfold Machine.frameByte
  rw [VmState.mem_clearPage, if_pos (by omega)]

lemma inBuffer_apart (hb : m.sharedBufBegin = m.pageNumToVaddr b) (hf : ¬ BufferFrame b f)
    (ha : InBuffer m a) : ¬ (m.pageNumToVaddr f ≤ a ∧ a < m.pageNumToVaddr f + pageSize) := by
  rintro ⟨h1, h2⟩
  refine not_inBuffer (j := a - m.pageNumToVaddr f) hb hf (by omega) ?_
  rwa [Nat.add_sub_cancel' h1]

end Bytes

/-! ## What a fault does to the windows -/

/-- The file server transfers all bytes of a request, and a read returns what the
pagefile holds. -/
def Reliable (pid : Int) : NfsReq → NfsReply → VmState → VmState → Prop
  | .write offset len data, r, s, s' => r.status = len ∧ s' = { s with
        pagefile := fun a =>
          if offset ≤ a ∧ a < offset + len then data (a - offset) else s.pagefile a
        running := pid }
  | .read offset len, r, s, s' => r.status = len ∧
      (∀ j < len, r.data j = s.pagefile (offset + j)) ∧ s' = { s with running := pid }

lemma reliable_wholePages (pid : Int) (req : NfsReq) (s : VmState) :
    Reliable pid req (wholePages pid req s).1 s (wholePages pid req s).2 := by
  cases req with
  | write offset len data => exact ⟨rfl, rfl⟩
  | read offset len => exact ⟨rfl, fun _ _ => rfl, rfl⟩

lemma Reliable.reply {pid : Int} {req : NfsReq} {s s' : VmState} (h : Reliable pid req r s s') :
    SameBooks s s' ∧ s'.clockCurr = s.clockCurr ∧ s'.pfVnode = s.pfVnode ∧ s'.running = pid := by
  cases req with
  | write offset len data =>
    obtain ⟨-, rfl⟩ := h
    exact ⟨⟨fun _ => rfl, rfl, rfl, rfl, rfl⟩, rfl, rfl, rfl⟩
  | read offset len =>
    obtain ⟨-, -, rfl⟩ := h
    exact ⟨⟨fun _ => rfl, rfl, rfl, rfl, rfl⟩, rfl, rfl, rfl⟩

/-- An address in the window of a process, the kernel apart. -/
def UserWindow (m : Machine) (a : Nat) : Prop :=
  m.sharedBufBegin + shareBufBytes ≤ a ∧ a < m.sharedBufBegin + 32 * shareBufBytes

/-- While a fault that began in state `s₀` is in flight, the windows of the
processes are as they were, the slot of its page holds what it held, and once the
page has been read the window of the kernel holds it. -/
structure Windows (m : Machine) (c : Int) (v : Nat) (s₀ s : VmState) (claim : Option Claim) :
    Prop where
  same : ∀ a, UserWindow m a → s.mem a = s₀.mem a
  idle : claim = none → s.pte c v = s₀.pte c v ∧ s.pagefile = s₀.pagefile
  entry : ∀ k, claim = some k → k.linked = false → s₀.pte c v = k.entry
  slot : ∀ k i, claim = some k → k.old = some i →
    ∀ j < pageSize, s.pagefile (i * pageSize + j) = s₀.pagefile (i * pageSize + j)
  slotOf : ∀ k i, claim = some k → k.old = some i → s₀.pte c v = .pagefile i
  apart : ∀ k i l, claim = some k → k.old = some i → k.leaving = some l → l.slot ≠ i
  window : ∀ k i, claim = some k → k.linked = true → k.old = none → s₀.pte c v = .pagefile i →
    ∀ j < pageSize, s.mem (m.sharedBufBegin + j) = s₀.pagefile (i * pageSize + j)

section Windows

variable {m : Machine} {b v : Nat} {c : Int} {s₀ s s' : VmState} {o : Int → Option Claim}
variable {k k' : Claim} {claim : Option Claim}

lemma UserWindow.inBuffer (h : UserWindow m a) : InBuffer m a := by
  obtain ⟨h1, h2⟩ := h
  exact ⟨by omega, h2⟩

lemma kernelWindow_inBuffer (hj : j < pageSize) : InBuffer m (m.sharedBufBegin + j) := by
  unfold pageSize at hj
  unfold InBuffer shareBufBytes pageSize
  omega

lemma getBufFromPid_kernel : m.getBufFromPid kernelProc = m.sharedBufBegin := by
  simp [Machine.getBufFromPid]

lemma mem_copyTo_kernel (ha : UserWindow m a) (src : Nat → UInt8) :
    (s.copyTo (m.getBufFromPid kernelProc) pageSize src).mem a = s.mem a := by
  rw [VmState.mem_copyTo, getBufFromPid_kernel, if_neg]
  unfold UserWindow shareBufBytes at ha
  unfold pageSize at ha ⊢
  omega

lemma Windows.step (h : Windows m c v s₀ s claim)
    (hmem : ∀ a, InBuffer m a → s'.mem a = s.mem a) (hpte : s'.pte c v = s.pte c v)
    (hfile : s'.pagefile = s.pagefile) : Windows m c v s₀ s' claim where
  same a ha := (hmem a ha.inBuffer).trans (h.same a ha)
  idle hk := by
    rw [hpte, hfile]
    exact h.idle hk
  entry := h.entry
  slot := by
    rw [hfile]
    exact h.slot
  slotOf := h.slotOf
  apart := h.apart
  window k i hk hl hold hi j hj := by
    rw [hmem _ (kernelWindow_inBuffer hj)]
    exact h.window k i hk hl hold hi j hj

lemma Windows.sameClaim (h : Windows m c v s₀ s (some k)) (hold : k'.old = k.old)
    (hlinked : k'.linked = k.linked) (hleave : k'.leaving = k.leaving) :
    Windows m c v s₀ s (some k') where
  same := h.same
  idle := nofun
  entry := by
    rintro _ ⟨⟩ hl
    rw [hlinked] at hl
    have hentry := h.entry k rfl hl
    rwa [Claim.entry, hold]
  slot := by
    rintro _ i ⟨⟩ hi
    rw [hold] at hi
    exact h.slot k i rfl hi
  slotOf := by
    rintro _ i ⟨⟩ hi
    rw [hold] at hi
    exact h.slotOf k i rfl hi
  apart := by
    rintro _ i l ⟨⟩ hi hl
    rw [hold] at hi
    rw [hleave] at hl
    exact h.apart k i l rfl hi hl
  window := by
    rintro _ i ⟨⟩ hl hi
    rw [hlinked] at hl
    rw [hold] at hi
    exact h.window k i rfl hl hi

lemma Windows.start {old : Option Nat} {shape : PageTable.Place → Option Nat}
    (h : Windows m c v s₀ s none) (hentry : s.pte c v = (Claim.begin v old shape).entry) :
    Windows m c v s₀ s (some (.begin v old shape)) := by
  obtain ⟨hpte, hfile⟩ := h.idle rfl
  rw [hpte] at hentry
  refine { same := h.same, idle := nofun, entry := ?_, slot := ?_, slotOf := ?_, apart := ?_,
           window := ?_ }
  · rintro _ ⟨⟩ _
    exact hentry
  · intros
    rw [hfile]
  · rintro _ i ⟨⟩ hi
    obtain rfl : old = some i := hi
    exact hentry
  · rintro _ _ _ ⟨⟩ _ ⟨⟩
  · rintro _ _ ⟨⟩ ⟨⟩

lemma Windows.swapOut (h : Windows m c v s₀ s (some k)) {l : Leaving}
    (hl : k.linked = false) (hslot : ∀ i, k.old = some i → l.slot ≠ i) {src : Nat → UInt8}
    (hmem : s'.mem = s.mem) (hfile : s'.pagefile = s.pagefile) :
    Windows m c v s₀ (s'.copyTo (m.getBufFromPid kernelProc) pageSize src)
      (some { k with leaving := some l }) := by
  refine { same := fun a ha => ?_, idle := nofun, entry := ?_, slot := ?_, slotOf := ?_,
           apart := ?_, window := ?_ }
  · rw [mem_copyTo_kernel ha, hmem]
    exact h.same a ha
  · rintro _ ⟨⟩ hk
    exact h.entry k rfl hk
  · rintro _ i ⟨⟩ hi j hj
    rw [VmState.pagefile_copyTo, hfile]
    exact h.slot k i rfl hi j hj
  · rintro _ i ⟨⟩ hi
    exact h.slotOf k i rfl hi
  · rintro _ i _ ⟨⟩ hi ⟨⟩
    exact hslot i hi
  · rintro _ _ ⟨⟩ hk
    have hk' : k.linked = true := hk
    rw [hl] at hk'
    cases hk'

lemma slot_apart {i i' : Nat} (hne : i ≠ i') (hj : j < pageSize) :
    ¬ (i * pageSize ≤ i' * pageSize + j ∧ i' * pageSize + j < i * pageSize + pageSize) := by
  unfold pageSize at *
  omega

lemma Windows.written (h : Windows m c v s₀ s (some k)) {l : Leaving} {data : Nat → UInt8}
    (hk : k.leaving = some l) (hl : k.linked = false)
    (henv : Reliable c (.write (l.slot * pageSize) pageSize data) r s s') :
    Windows m c v s₀ (s'.release l.frame) (some { k with leaving := none }) := by
  obtain ⟨-, rfl⟩ := henv
  refine { same := h.same, idle := nofun, entry := ?_, slot := ?_, slotOf := ?_, apart := ?_,
           window := ?_ }
  · rintro _ ⟨⟩ hk
    exact h.entry k rfl hk
  · rintro _ i ⟨⟩ hi j hj
    have hne := h.apart k i l rfl hi hk
    refine Eq.trans (if_neg (slot_apart hne hj)) ?_
    exact h.slot k i rfl hi j hj
  · rintro _ i ⟨⟩ hi
    exact h.slotOf k i rfl hi
  · rintro _ _ _ ⟨⟩ _ ⟨⟩
  · rintro _ _ ⟨⟩ hk
    have hk' : k.linked = true := hk
    rw [hl] at hk'
    cases hk'

lemma Windows.link (h : Windows m c v s₀ s (some k)) (hl : k.linked = false)
    (hleave : k.leaving = none) (g : PageTable → PageTable) :
    Windows m c v s₀ (s.modifyTable c g) (some { k with linked := true }) := by
  refine { same := h.same, idle := nofun, entry := ?_, slot := ?_, slotOf := ?_, apart := ?_,
           window := ?_ }
  · rintro _ ⟨⟩ ⟨⟩
  · rintro _ i ⟨⟩ hi
    exact h.slot k i rfl hi
  · rintro _ i ⟨⟩ hi
    exact h.slotOf k i rfl hi
  · rintro _ _ l ⟨⟩ _ hk
    have hk' : k.leaving = some l := hk
    rw [hleave] at hk'
    cases hk'
  · rintro _ i ⟨⟩ _ hold hi
    have hentry := h.entry k rfl hl
    have hnone : k.old = none := hold
    rw [hi, Claim.entry, hnone] at hentry
    cases hentry

lemma Windows.read (h : Windows m c v s₀ s (some k))
    (hb : m.sharedBufBegin = m.pageNumToVaddr b) {i : Nat} (hf : ¬ BufferFrame b f)
    (hold : k.old = some i) (hl : k.linked = true) {src : Nat → UInt8}
    (henv : Reliable c (.read (i * pageSize) pageSize) r s s') :
    Windows m c v s₀ (((s'.copyTo (m.getBufFromPid kernelProc) pageSize r.data).copyTo
      (m.pageNumToVaddr f) pageSize src).addFree i) (some { k with old := none }) := by
  obtain ⟨-, hdata, rfl⟩ := henv
  have hframe : ∀ a, InBuffer m a →
      (({ s with running := c }.copyTo (m.getBufFromPid kernelProc) pageSize r.data).copyTo
        (m.pageNumToVaddr f) pageSize src).mem a =
      ({ s with running := c }.copyTo (m.getBufFromPid kernelProc) pageSize r.data).mem a := by
    intro a ha
    rw [VmState.mem_copyTo, if_neg (inBuffer_apart hb hf ha)]
  refine { same := fun a ha => ?_, idle := nofun, entry := ?_, slot := ?_, slotOf := ?_,
           apart := ?_, window := ?_ }
  · refine (hframe a ha.inBuffer).trans ?_
    rw [mem_copyTo_kernel ha]
    exact h.same a ha
  · rintro _ ⟨⟩ hk
    have hk' : k.linked = false := hk
    rw [hl] at hk'
    cases hk'
  · rintro _ _ ⟨⟩ ⟨⟩
  · rintro _ _ ⟨⟩ ⟨⟩
  · rintro _ _ _ ⟨⟩ ⟨⟩
  · rintro _ i' ⟨⟩ _ _ hi' j hj
    have hslot := h.slotOf k i rfl hold
    rw [hi'] at hslot
    cases hslot
    refine (hframe _ (kernelWindow_inBuffer hj)).trans ?_
    rw [VmState.mem_copyTo, getBufFromPid_kernel, if_pos (by omega), Nat.add_sub_cancel_left,
      hdata j hj]
    exact h.slot k i rfl hold j hj

end Windows

lemma bufferOk_smallSystem {m : Machine} {n : Nat} (inUse : Bool)
    (hsize : m.frameTableSize = n + 12) (hn : 32 * 256 ≤ n)
    (hbegin : m.sharedBufBegin = m.pageNumToVaddr 0) :
    BufferOk m 0 (smallSystem n inUse) fun _ => none := by
  refine { begins := hbegin, frames := fun f hf => ?_, tables := fun f p x hf htab => ?_,
           spare := nofun }
  · obtain ⟨-, hlt⟩ := hf
    have hkernel : f < n + 10 := by omega
    refine ⟨by omega, ?_, ?_⟩
    · simp [VmState.allocated, smallSystem, hkernel]
    · simp [smallSystem, hkernel]
  · obtain ⟨-, hlt⟩ := hf
    obtain ⟨k, -, h⟩ := tableFrame_smallSystem.mp htab
    omega

end SpaghettiOS.Vm
