import SpaghettiOS.VM.Destroy

/-!
# Page tables, frame table and pagefile agree

`Consistent` says in the words of the three structures what `Books` says through
an account: entries, frames and slots name each other.  Together with
`WellFormed`, which is about the free list of frames and the nodes of the page
tables, it is the same as having an account without a fault in flight.
-/

namespace SpaghettiOS.Vm

open Function (update update_apply)
open Coroutine (Exec Res)

structure Consistent (m : Machine) (s : VmState) : Prop where
  /-- The frame an entry names is in use for that page. -/
  framed : ∀ p v n, PageAddr v → s.pte p v = .frame n →
    n < m.frameTableSize ∧ s.allocated n ∧ (s.frameTable n).important = false ∧
      (s.frameTable n).pid = p ∧ (s.frameTable n).userVaddr = v
  /-- A frame in use for a page is named by the entry of the page. -/
  named : ∀ n p v, n < m.frameTableSize → 0 < p → PageAddr v → s.allocated n →
    (s.frameTable n).important = false → (s.frameTable n).pid = p →
      (s.frameTable n).userVaddr = v → s.pte p v = .frame n
  swapped : ∀ p v i, PageAddr v → s.pte p v = .pagefile i → i < s.pfList.size ∧ i ∉ s.pfList.free
  frameOnce : ∀ p v q w n, PageAddr v → PageAddr w → s.pte p v = .frame n →
    s.pte q w = .frame n → p = q ∧ v = w
  slotOnce : ∀ p v q w i, PageAddr v → PageAddr w → s.pte p v = .pagefile i →
    s.pte q w = .pagefile i → p = q ∧ v = w
  /-- A slot is on the free list, once, or named by one entry. -/
  slots : ∀ i < s.pfList.size,
    (s.pfList.free.count i = 1 ∧ ∀ p v, PageAddr v → s.pte p v ≠ .pagefile i) ∨
      (i ∉ s.pfList.free ∧ ∃! x : Int × Nat, PageAddr x.2 ∧ s.pte x.1 x.2 = .pagefile i)

structure WellFormed (m : Machine) (s : VmState) : Prop where
  clock : s.clockCurr < m.frameTableSize
  pids : ∀ p, s.procs p ≠ none → 0 < p ∧ p < maxProcesses
  /-- A frame with an owner holds a page of a user process. -/
  users : ∀ n < m.frameTableSize, s.allocated n → (s.frameTable n).important = false →
    0 ≤ (s.frameTable n).pid → 0 < (s.frameTable n).pid ∧ PageAddr (s.frameTable n).userVaddr
  freeFrames : ∃ l, FreeList m s (fun f => ¬ s.allocated f) l
  freeSlots : s.pfList.free.Nodup ∧ ∀ i ∈ s.pfList.free, i < s.pfList.size
  tables : ∀ p x f, s.tableFrame p x = some f →
    f < m.frameTableSize ∧ s.allocated f ∧ (s.frameTable f).important = true
  tableOnce : ∀ p x q y f, s.tableFrame p x = some f → s.tableFrame q y = some f → p = q ∧ x = y
  flagged : ∀ p as i w, s.procs p = some as → as.pt.word i = some w → WellFlagged w

variable {v : Nat} {x : PageTable.Place}

variable {p pid : Int} {m' : Machine} {faultaddress f page k : Nat}

section Account

variable {m : Machine} {s : VmState} {u : Usage}

lemma Settled.swapped (h : Settled m s u) {i : Nat} (hv : PageAddr v) :
    s.pte p v = .pagefile i ↔ i < s.pfList.size ∧ u.slot i = .page p v :=
  h.books.swapped p v i hv

lemma Settled.consistent (h : Settled m s u) : Consistent m s := by
  have hm := h.books
  refine { framed := fun p v n hv hp => ?_, named := fun n p v hn hp hv hcap himp hpid hva => ?_,
           swapped := fun p v i hv hp => ?_, frameOnce := fun p v q w n hv hw hp hq => ?_,
           slotOnce := fun p v q w i hv hw hp hq => ?_, slots := fun i hi => ?_ }
  · obtain ⟨hn, hu⟩ := (h.framed hv).mp hp
    have hok := hm.frames n hn
    rw [hu] at hok
    exact ⟨hn, hok.1, hok.2.1, hok.2.2.1, hok.2.2.2.1⟩
  · have hok := hm.frames n hn
    have hown := h.frames n hn
    rw [h.framed hv]
    refine ⟨hn, ?_⟩
    cases hu : u.frame n with
    | page p' v' =>
      rw [hu] at hok
      rw [← hpid, ← hva, hok.2.2.1, hok.2.2.2.1]
    | free =>
      rw [hu] at hok
      exact absurd hok hcap
    | kernel =>
      rw [hu] at hok
      rcases hok.2 with h1 | h1
      · rw [h1] at himp
        cases himp
      · omega
    | table p' x =>
      rw [hu] at hok
      rw [hok.2] at himp
      cases himp
    | spare _ | fresh _ | linked _ _ | leaving _ _ _ =>
      rw [hu] at hown
      cases hown
  · obtain ⟨hi, hu⟩ := (h.swapped hv).mp hp
    refine ⟨hi, fun hmem => ?_⟩
    rw [hm.freeSlots.2 i, hu] at hmem
    cases hmem.2
  · have h1 := ((h.framed hv).mp hp).2
    have h2 := ((h.framed hw).mp hq).2
    rw [h1] at h2
    cases h2
    exact ⟨rfl, rfl⟩
  · have h1 := ((h.swapped hv).mp hp).2
    have h2 := ((h.swapped hw).mp hq).2
    rw [h1] at h2
    cases h2
    exact ⟨rfl, rfl⟩
  · cases hu : u.slot i with
    | free =>
      have hmem := (hm.freeSlots.2 i).mpr ⟨hi, hu⟩
      refine .inl ⟨List.count_eq_one_of_mem hm.freeSlots.1 hmem, fun p v hv hp => ?_⟩
      have h1 := ((h.swapped hv).mp hp).2
      rw [hu] at h1
      cases h1
    | reading c => exact absurd hu (h.slots i hi c)
    | page p v =>
      have hv := hm.slotAddr i p v hi hu
      refine .inr ⟨fun hmem => ?_, (p, v), ⟨hv, (h.swapped hv).mpr ⟨hi, hu⟩⟩, ?_⟩
      · have h1 := ((hm.freeSlots.2 i).mp hmem).2
        rw [hu] at h1
        cases h1
      · rintro ⟨q, w⟩ ⟨hw, hq⟩
        have h1 := ((h.swapped hw).mp hq).2
        rw [hu] at h1
        cases h1
        rfl

lemma Settled.wellFormed (h : Settled m s u) : WellFormed m s := by
  have hm := h.books
  refine { clock := hm.clock, pids := hm.pids, users := fun n hn hcap himp hpid => ?_,
           freeFrames := ?_,
           freeSlots := ⟨hm.freeSlots.1, fun i hi => ((hm.freeSlots.2 i).mp hi).1⟩,
           tables := fun p x f hf => ?_, tableOnce := fun p x q y f hp hq => ?_,
           flagged := hm.flagged }
  · have hok := hm.frames n hn
    have hown := h.frames n hn
    cases hu : u.frame n with
    | page p v =>
      rw [hu] at hok
      rw [hok.2.2.1, hok.2.2.2.1]
      exact hok.2.2.2.2
    | free =>
      rw [hu] at hok
      exact absurd hok hcap
    | kernel =>
      rw [hu] at hok
      rcases hok.2 with h1 | h1
      · rw [h1] at himp
        cases himp
      · omega
    | table p x =>
      rw [hu] at hok
      rw [hok.2] at himp
      cases himp
    | spare _ | fresh _ | linked _ _ | leaving _ _ _ =>
      rw [hu] at hown
      cases hown
  · obtain ⟨l, hl⟩ := hm.freeFrames
    refine ⟨l, hl.chain, hl.nodup, fun f => (hl.mem_iff f).trans ?_, hl.count⟩
    refine and_congr_right fun hf => ?_
    rw [← (hm.frames f hf).allocated, VmState.allocated, not_not]
  · obtain ⟨hf, hu⟩ := (hm.tables p x f).mp hf
    have hok := hm.frames f hf
    rw [hu] at hok
    exact ⟨hf, hok⟩
  · have h1 := ((hm.tables p x f).mp hp).2
    have h2 := ((hm.tables q y f).mp hq).2
    rw [h1] at h2
    cases h2
    exact ⟨rfl, rfl⟩

open Classical in
noncomputable def usageOf (s : VmState) : Usage where
  frame f :=
    if ¬ s.allocated f then .free
    else if h : ∃ x : Int × PageTable.Place, s.tableFrame x.1 x.2 = some f then
      .table h.choose.1 h.choose.2
    else if (s.frameTable f).important = true ∨ (s.frameTable f).pid < 0 then .kernel
    else .page (s.frameTable f).pid (s.frameTable f).userVaddr
  slot i :=
    if h : ∃ x : Int × Nat, PageAddr x.2 ∧ s.pte x.1 x.2 = .pagefile i then
      .page h.choose.1 h.choose.2
    else .free

lemma usageOf_frame (s : VmState) (f : Nat) : (¬ s.allocated f ∧ (usageOf s).frame f = .free) ∨
      (s.allocated f ∧ ∃ p x, s.tableFrame p x = some f ∧ (usageOf s).frame f = .table p x) ∨
      (s.allocated f ∧ (∀ p x, s.tableFrame p x ≠ some f) ∧
        ((s.frameTable f).important = true ∨ (s.frameTable f).pid < 0) ∧
          (usageOf s).frame f = .kernel) ∨
      (s.allocated f ∧ (∀ p x, s.tableFrame p x ≠ some f) ∧ (s.frameTable f).important = false ∧
        0 ≤ (s.frameTable f).pid ∧
          (usageOf s).frame f = .page (s.frameTable f).pid (s.frameTable f).userVaddr) := by
  by_cases hcap : s.allocated f
  · right
    by_cases h : ∃ x : Int × PageTable.Place, s.tableFrame x.1 x.2 = some f
    · exact .inl ⟨hcap, _, _, h.choose_spec, by simp [usageOf, hcap, h]⟩
    · have hnot : ∀ p x, s.tableFrame p x ≠ some f := fun p x hx => h ⟨(p, x), hx⟩
      right
      by_cases hk : (s.frameTable f).important = true ∨ (s.frameTable f).pid < 0
      · exact .inl ⟨hcap, hnot, hk, by simp only [usageOf, hcap, h, hk]; simp⟩
      · have hk' := hk
        rw [not_or, Bool.not_eq_true, not_lt] at hk'
        exact .inr ⟨hcap, hnot, hk'.1, hk'.2, by simp only [usageOf, hcap, h, hk]; simp⟩
  · exact .inl ⟨hcap, by simp [usageOf, hcap]⟩

lemma usageOf_slot (s : VmState) (i : Nat) :
    ((∀ p v, PageAddr v → s.pte p v ≠ .pagefile i) ∧ (usageOf s).slot i = .free) ∨
      ∃ p v, PageAddr v ∧ s.pte p v = .pagefile i ∧ (usageOf s).slot i = .page p v := by
  by_cases h : ∃ x : Int × Nat, PageAddr x.2 ∧ s.pte x.1 x.2 = .pagefile i
  · exact .inr ⟨_, _, h.choose_spec.1, h.choose_spec.2, by simp only [usageOf, h]; simp⟩
  · exact .inl ⟨fun p v hv hp => h ⟨(p, v), hv, hp⟩, by simp only [usageOf, h]; simp⟩

lemma settled_usageOf (hc : Consistent m s) (hw : WellFormed m s)
    (hopen : s.pfVnode = true ∨ ∀ t, m.openOk t = true) : Settled m s (usageOf s) := by
  have hframe := usageOf_frame s
  have hslot := usageOf_slot s
  refine ⟨?_, fun f hf => ?_, fun i hi c => ?_⟩
  · refine { clock := hw.clock, opens := hopen, pids := hw.pids, flagged := hw.flagged,
             frames := fun f hf => ?_, freeFrames := ?_, framed := fun p v f hv => ?_,
             swapped := fun p v i hv => ?_, slotAddr := fun i p v hi hs => ?_,
             tables := fun p x f => ?_, freeSlots := ⟨hw.freeSlots.1, fun i => ?_⟩,
             leaving := fun f p v c hf hu => ?_ }
    · rcases hframe f with ⟨hcap, hu⟩ | ⟨hcap, p, x, ht, hu⟩ | ⟨hcap, -, hk, hu⟩ |
        ⟨hcap, -, himp, hpid, hu⟩
      · rw [hu]
        simpa [FrameOk, VmState.allocated] using hcap
      · rw [hu]
        exact (hw.tables p x f ht).2
      · rw [hu]
        exact ⟨hcap, hk⟩
      · rw [hu]
        exact ⟨hcap, himp, rfl, rfl, hw.users f hf hcap himp hpid⟩
    · obtain ⟨l, hl⟩ := hw.freeFrames
      refine ⟨l, hl.chain, hl.nodup, fun f => (hl.mem_iff f).trans ?_, hl.count⟩
      have hcases := hframe f
      grind
    · have hcases := hframe f
      have hnamed := hc.named f p v
      have hfr := hc.framed p v f hv
      have htab := hw.tables
      have husers := hw.users f
      have hpos : s.pte p v = .frame f → 0 < p := by
        intro hp
        obtain ⟨as, has, -⟩ := exists_word_of_pte (s := s) (p := p) (v := v) (by simp [hp])
        exact (hw.pids p (by simp [has])).1
      grind
    · have hcases := hslot i
      have honce := hc.slotOnce p v
      have hsw := hc.swapped p v i hv
      grind
    · have hcases := hslot i
      grind
    · have hcases := hframe f
      have htab := hw.tables p x f
      have honce := hw.tableOnce p x
      grind
    · have hcases := hslot i
      have hlt := hw.freeSlots.2 i
      have hsw := hc.swapped
      have hslots : i < s.pfList.size → i ∈ s.pfList.free ∨
          ∃ p v, PageAddr v ∧ s.pte p v = .pagefile i := by
        intro hi
        rcases hc.slots i hi with ⟨hcount, -⟩ | ⟨-, ⟨p, v⟩, ⟨hv, hp⟩, -⟩
        · exact .inl (List.count_pos_iff.mp (by omega))
        · exact .inr ⟨p, v, hv, hp⟩
      grind
    · have hcases := hframe f
      grind
  · have hcases := hframe f
    grind [FrameUse.owner]
  · have hcases := hslot i
    grind

end Account

/-! ## Runs -/

/-- The file server answers whatever it likes and does what it likes to the file;
then the coroutine runs again. -/
def Served (pid : Int) (_ : NfsReq) (_ : NfsReply) (s s' : VmState) : Prop :=
  ∃ file, s' = { s with pagefile := file, running := pid }

lemma carried_true (m : Machine) (pid : Int) (v : Nat) :
    Carried m pid v (Served pid) (fun _ _ => True) (fun _ _ => True) (fun _ _ => True)
      fun _ _ => True := by
  constructor
  case reply =>
    rintro _ _ s s' ⟨file, rfl⟩
    exact ⟨⟨fun _ => rfl, rfl, rfl, rfl, rfl⟩, rfl, rfl, rfl⟩
  case swapOut =>
    intros
    exact ⟨trivial, fun _ _ => trivial⟩
  all_goals
    intros
    trivial

/-- A page fault of a process at a 48-bit address, or the end of its address space. -/
inductive PagingOp where
  | fault (pid : Int) (faultaddress : Fin (2 ^ 48))
  | destroy (pid : Int)

/-- An operation that comes to its end, no other one running meanwhile. -/
def PagingStep (m : Machine) (s : VmState) (op : PagingOp) (s' : VmState) : Prop :=
  match op with
  | .fault pid faultaddress => Exec (Served pid) (faultCo m pid faultaddress s) ⟨⟩ s'
  | .destroy pid => Exec (Served pid) (asDestroy m pid s) ⟨⟩ s'

/-- A victim of this operation would be written out: the pagefile is open or can
be opened.  A page that has its frame needs no victim. -/
def Saves (m : Machine) (s : VmState) : PagingOp → Prop
  | .fault pid faultaddress => s.pfVnode = true ∨ (∀ t, m.openOk t = true) ∨
      ∃ f, s.pte pid (pageAlign faultaddress) = .frame f
  | .destroy _ => True

def Machine.opening (m : Machine) : Machine := { m with openOk := fun _ => true }

section Run

variable {m : Machine} {s t : VmState}

lemma Consistent.ofSize (h : Consistent m s)
    (hsize : m'.frameTableSize = m.frameTableSize) : Consistent m' s :=
  { h with
    framed := fun p v n => hsize ▸ h.framed p v n
    named := fun n p v => hsize ▸ h.named n p v }

lemma WellFormed.ofSize (h : WellFormed m s)
    (hsize : m'.frameTableSize = m.frameTableSize) : WellFormed m' s := by
  obtain ⟨l, hl⟩ := h.freeFrames
  exact { h with
    clock := hsize ▸ h.clock
    users := hsize ▸ h.users
    freeFrames := ⟨l, hl.chain, hl.nodup, fun f => hsize ▸ hl.mem_iff f, hsize ▸ hl.count⟩
    tables := fun p x f => hsize ▸ h.tables p x f }

lemma bits_of_frame {pt : PageTable} {i : PtIndex} (h : pt.pte i = .frame f) :
    ∃ w, pt.word i = some w ∧ pageGetBits w = 0 := by
  cases hw : pt.word i with
  | none => simp [PageTable.pte, hw] at h
  | some w =>
    refine ⟨w, rfl, ?_⟩
    rw [PageTable.pte, hw] at h
    by_contra hne
    simp only [Pte.ofWord, if_neg hne] at h
    split at h <;> cases h

lemma faultCo_opening (h : s.pte pid (pageAlign faultaddress) = .frame f) :
    faultCo m pid faultaddress s = faultCo m.opening pid faultaddress s := by
  obtain ⟨as, has, -⟩ :=
    exists_word_of_pte (s := s) (p := pid) (v := pageAlign faultaddress) (by simp [h])
  rw [pte_of_procs has] at h
  obtain ⟨w, hw, hbits⟩ := bits_of_frame h
  simp only [faultCo, vmFault, Coro.bind_apply, Coro.modify_apply, Coro.get_apply, Res.bind, has,
    Coro.ofOption, Coro.pure_apply, handleFault, pageLookup, hw, if_pos hbits]
  rfl

lemma faultCo_consistent (halloc : ∀ t, m.allocOk t = true) (hc : Consistent m s)
    (hw : WellFormed m s) (hopen : s.pfVnode = true ∨ ∀ t, m.openOk t = true)
    (hfa : faultaddress < 2 ^ 48) (h : Exec (Served pid) (faultCo m pid faultaddress s) ⟨⟩ t) :
    Consistent m t ∧ WellFormed m t := by
  have hb := (settled_usageOf hc hw hopen).toBooks
  obtain ⟨t1, hafter, rfl⟩ := (faultCo_ok (carried_true m pid _) halloc hb trivial rfl hfa
    (.inl fun _ _ _ hk => nomatch hk)).exec h
  obtain ⟨hb1, -⟩ := hafter.over
  rw [Function.update_eq_self_iff.mpr rfl] at hb1
  have hb2 : Books m { t1 with log := .finished pid :: t1.log } fun _ => none :=
    hb1.congr ⟨fun _ => rfl, rfl, rfl, rfl, rfl⟩ rfl (.inr rfl)
  obtain ⟨u, hu⟩ := hb2.settled
  exact ⟨hu.consistent, hu.wellFormed⟩

lemma PagingStep.consistent (halloc : ∀ t, m.allocOk t = true) (hc : Consistent m s)
    (hw : WellFormed m s) {op : PagingOp} (hop : Saves m s op) (h : PagingStep m s op t) :
    Consistent m t ∧ WellFormed m t := by
  have hc' : Consistent m.opening s := hc.ofSize rfl
  have hw' : WellFormed m.opening s := hw.ofSize rfl
  cases op with
  | fault pid faultaddress =>
    obtain ⟨fa, hfa⟩ := faultaddress
    rcases hop with hopen | hopen | ⟨f, hf⟩
    · exact faultCo_consistent halloc hc hw (.inl hopen) hfa h
    · exact faultCo_consistent halloc hc hw (.inr hopen) hfa h
    · have h' : Exec (Served pid) (faultCo m pid fa s) ⟨⟩ t := h
      rw [faultCo_opening hf] at h'
      obtain ⟨hct, hwt⟩ := faultCo_consistent (m := m.opening) halloc hc' hw' (.inr fun _ => rfl)
        hfa h'
      exact ⟨hct.ofSize rfl, hwt.ofSize rfl⟩
  | destroy pid =>
    have hb := (settled_usageOf hc' hw' (.inr fun _ => rfl)).toBooks
    obtain ⟨hb', -⟩ := (asDestroy_ok (J := fun _ _ => True) (c := 0) (o := fun _ => none)
      hb pid).exec h
    obtain ⟨u, hu⟩ := hb'.settled
    exact ⟨hu.consistent.ofSize rfl, hu.wellFormed.ofSize rfl⟩

end Run

/-! ## A full table

Two processes with one page each in a frame.  If the pagefile is in use, the
first has another page in slot 0. -/

/-- A table with one leaf, whose nodes lie in the five frames from `base` on. -/
def smallTable (base : Nat) (leaf : Fin 512 → Word) : PageTable where
  frame := base
  pgd := ⟨base + 1, update (fun _ => none) 0 (some ⟨base + 2, update (fun _ => none) 0
    (some ⟨base + 3, update (fun _ => none) 0 (some ⟨base + 4, leaf⟩)⟩)⟩)⟩
  seL4Pages := []

/-- Page 1 is in frame `page`, page 3 in slot 0 if it has been swapped out. -/
def fewPages (page : Nat) (swapped : Bool) (d : Fin 512) : Word :=
  if d = 1 then BitVec.ofNat 64 page
  else if d = 3 ∧ swapped = true then pageUpdateEntry pPagefile 0
  else pageUpdateEntry pInvalid 0

/-- `n` frames of the kernel, ten of the page tables, and two pages. -/
def smallSystem (n : Nat) (inUse : Bool) : VmState where
  frameTable f :=
    if f < n + 10 then ⟨f + 1, 0, 0, -1, 0, true, true⟩
    else if f = n + 10 then ⟨f + 1, 20, 0, 1, 0x1000, false, false⟩
    else ⟨f + 1, 21, 0, 2, 0x1000, false, false⟩
  nextFreePage := 0
  frameTableCurrSize := n + 12
  clockCurr := n + 10
  pfList := ⟨if inUse then 1 else 0, []⟩
  pfVnode := inUse
  procs p :=
    if p = 1 then some ⟨[⟨0, 0xffff, true, true, false⟩], smallTable n (fewPages (n + 10) inUse)⟩
    else if p = 2 then
      some ⟨[⟨0, 0xffff, true, true, false⟩], smallTable (n + 5) (fewPages (n + 11) false)⟩
    else none
  mem _ := 0
  pagefile _ := 7
  vspace p v :=
    if p = 1 ∧ v = 0x1000 then some (20, n + 10)
    else if p = 2 ∧ v = 0x1000 then some (21, n + 11)
    else none
  rights _ _ := allRights
  nextSlot := n + 100
  running := 0
  time := 0
  log := []

lemma pt_smallTable (base : Nat) (leaf : Fin 512 → Word) (a b c : Fin 512) :
    (smallTable base leaf).pt a b c =
      if a = 0 ∧ b = 0 ∧ c = 0 then some ⟨base + 4, leaf⟩ else none := by
  simp only [smallTable, PageTable.pt, PageTable.pd, PageTable.pud, update_apply]
  split_ifs <;> grind [update_apply]

lemma word_smallTable (base : Nat) (leaf : Fin 512 → Word) (i : PtIndex) :
    (smallTable base leaf).word i =
      if i.l1 = 0 ∧ i.l2 = 0 ∧ i.l3 = 0 then some (leaf i.l4) else none := by
  rw [PageTable.word, pt_smallTable]
  split <;> rfl

lemma getPtIndex_small (hv : PageAddr v) :
    ((getPtIndex v).l1 = 0 ∧ (getPtIndex v).l2 = 0 ∧ (getPtIndex v).l3 = 0) ↔ v < 512 * 4096 := by
  obtain ⟨h1, h2⟩ := hv
  simp only [getPtIndex, Fin.ext_iff, Fin.val_ofNat, Nat.shiftRight_eq_div_pow, Fin.val_zero]
  omega

lemma getPtIndex_l4 (hv : PageAddr v) (hsmall : v < 512 * 4096) (d : Fin 512) :
    (getPtIndex v).l4 = d ↔ v = d.val * 4096 := by
  obtain ⟨h1, h2⟩ := hv
  simp only [getPtIndex, Fin.ext_iff, Fin.val_ofNat, Nat.shiftRight_eq_div_pow]
  omega

lemma pte_fewPages (hpage : page < 2 ^ 52) (base : Nat) (swapped : Bool)
    (hv : PageAddr v) :
    (smallTable base (fewPages page swapped)).pte (getPtIndex v) = if v = 0x1000 then .frame page
      else if v = 0x3000 ∧ swapped = true then .pagefile 0 else .invalid := by
  rw [PageTable.pte, word_smallTable]
  simp only [getPtIndex_small hv]
  by_cases hsmall : v < 512 * 4096
  · have hl1 : (getPtIndex v).l4 = 1 ↔ v = 0x1000 := getPtIndex_l4 hv hsmall 1
    have hl3 : (getPtIndex v).l4 = 3 ↔ v = 0x3000 := getPtIndex_l4 hv hsmall 3
    simp only [if_pos hsmall, fewPages, hl1, hl3]
    split
    · exact ofWord_ofNat hpage
    · split
      · exact ofWord_update_pagefile 0
      · exact ofWord_update_invalid 0
  · rw [if_neg hsmall, if_neg (by omega), if_neg (by omega)]

lemma pte_smallSystem {n : Nat} (hn : n + 11 < 2 ^ 52) (inUse : Bool) (p : Int)
    (hv : PageAddr v) : (smallSystem n inUse).pte p v = if p = 1 ∧ v = 0x1000 then .frame (n + 10)
      else if p = 2 ∧ v = 0x1000 then .frame (n + 11)
      else if p = 1 ∧ v = 0x3000 ∧ inUse = true then .pagefile 0 else .invalid := by
  rcases eq_or_ne p 1 with rfl | h1
  · have hprocs : (smallSystem n inUse).procs 1 =
        some ⟨[⟨0, 0xffff, true, true, false⟩], smallTable n (fewPages (n + 10) inUse)⟩ := rfl
    rw [pte_of_procs hprocs, pte_fewPages (by omega) _ _ hv]
    simp
  · rcases eq_or_ne p 2 with rfl | h2
    · have hprocs : (smallSystem n inUse).procs 2 = some ⟨[⟨0, 0xffff, true, true, false⟩],
            smallTable (n + 5) (fewPages (n + 11) false)⟩ := rfl
      rw [pte_of_procs hprocs, pte_fewPages hn _ _ hv]
      simp
    · simp [VmState.pte, smallSystem, h1, h2]

def nodeAt : PageTable.Place → Option Nat
  | .table => some 0
  | .pgd => some 1
  | .pud a => if a = 0 then some 2 else none
  | .pd a b => if a = 0 ∧ b = 0 then some 3 else none
  | .pt a b c => if a = 0 ∧ b = 0 ∧ c = 0 then some 4 else none
  | .objects _ => none

lemma nodeAt_lt (h : nodeAt x = some k) : k < 5 := by
  cases x <;> grind [nodeAt]

lemma nodeAt_inj {y : PageTable.Place} (hx : nodeAt x = some k)
    (hy : nodeAt y = some k) : x = y := by
  cases x <;> cases y <;> grind [nodeAt]

lemma frameAt_smallTable (base : Nat) (leaf : Fin 512 → Word) (x : PageTable.Place) :
    (smallTable base leaf).frameAt x = (nodeAt x).map (base + ·) := by
  cases x with
  | table | pgd | objects => rfl
  | pud a =>
    simp only [smallTable, PageTable.frameAt, PageTable.pud, nodeAt, update_apply]
    split <;> rfl
  | pd a b =>
    simp only [smallTable, PageTable.frameAt, PageTable.pd, PageTable.pud, nodeAt, update_apply]
    split_ifs <;> grind [update_apply]
  | pt a b c =>
    rw [PageTable.frameAt, pt_smallTable, nodeAt]
    split <;> rfl

lemma tableFrame_smallSystem {n : Nat} {inUse : Bool} :
    (smallSystem n inUse).tableFrame p x = some f ↔
      ∃ k, nodeAt x = some k ∧ (p = 1 ∧ f = n + k ∨ p = 2 ∧ f = n + 5 + k) := by
  rcases eq_or_ne p 1 with rfl | h1
  · have hframe : (smallSystem n inUse).tableFrame 1 x = (nodeAt x).map (n + ·) :=
      frameAt_smallTable _ _ _
    rw [hframe, Option.map_eq_some_iff]
    simp [eq_comm]
  · rcases eq_or_ne p 2 with rfl | h2
    · have hframe : (smallSystem n inUse).tableFrame 2 x = (nodeAt x).map (n + 5 + ·) :=
        frameAt_smallTable _ _ _
      rw [hframe, Option.map_eq_some_iff]
      simp [eq_comm]
    · simp [VmState.tableFrame, smallSystem, h1, h2]

lemma wellFlagged_fewPages (h : page < 2 ^ 52) (swapped : Bool) (d : Fin 512) :
    WellFlagged (fewPages page swapped d) := by
  unfold fewPages
  split
  · exact wellFlagged_ofNat h
  · split
    · exact wellFlagged_update_pagefile 0
    · exact wellFlagged_update_invalid 0

section SmallSystem

variable {m : Machine} {n : Nat} (inUse : Bool) (hsize : m.frameTableSize = n + 12)

include hsize

lemma consistent_smallSystem : Consistent m (smallSystem n inUse) := by
  have hn : n + 11 < 2 ^ 52 := by
    have hlt := m.size_lt
    omega
  have hpte := fun p v hv => pte_smallSystem hn inUse p (v := v) hv
  have hnone : ∀ i, i ∉ (smallSystem n inUse).pfList.free := fun i => by simp [smallSystem]
  refine { framed := fun p v f hv hp => ?_, named := fun f p v hf hp hv hcap himp hpid hva => ?_,
           swapped := fun p v i hv hp => ?_, frameOnce := fun p v q w f hv hw hp hq => ?_,
           slotOnce := fun p v q w i hv hw hp hq => ?_, slots := fun i hi => ?_ }
  · rw [hpte p v hv] at hp
    have hf : f = n + 10 ∧ p = 1 ∧ v = 0x1000 ∨ f = n + 11 ∧ p = 2 ∧ v = 0x1000 := by grind
    rcases hf with ⟨rfl, rfl, rfl⟩ | ⟨rfl, rfl, rfl⟩
    · simp [smallSystem, VmState.allocated, hsize]
    · simp [smallSystem, VmState.allocated, hsize]
  · rw [hpte p v hv]
    by_cases hlt : f < n + 10
    · simp [smallSystem, hlt] at himp
    · rcases eq_or_ne f (n + 10) with rfl | hne
      · simp [smallSystem] at hpid hva
        simp [← hpid, ← hva]
      · obtain rfl : f = n + 11 := by omega
        simp [smallSystem] at hpid hva
        simp [← hpid, ← hva]
  · rw [hpte p v hv] at hp
    refine ⟨?_, hnone i⟩
    show i < if inUse = true then 1 else 0
    grind
  · rw [hpte p v hv] at hp
    rw [hpte q w hw] at hq
    grind
  · rw [hpte p v hv] at hp
    rw [hpte q w hw] at hq
    grind
  · have hi' : inUse = true ∧ i = 0 := by
      have hlt : i < if inUse = true then 1 else 0 := hi
      grind
    obtain ⟨rfl, rfl⟩ := hi'
    have h3 : PageAddr 0x3000 := by decide
    refine .inr ⟨hnone 0, (1, 0x3000), ⟨h3, ?_⟩, ?_⟩
    · rw [hpte 1 _ h3]
      simp
    · rintro ⟨q, w⟩ ⟨hw, hq⟩
      rw [hpte q w hw] at hq
      grind

lemma wellFormed_smallSystem : WellFormed m (smallSystem n inUse) := by
  have hn : n + 11 < 2 ^ 52 := by
    have hlt := m.size_lt
    omega
  have hcap : ∀ f, (smallSystem n inUse).allocated f := by
    intro f
    simp only [VmState.allocated, smallSystem]
    split
    · simp
    · split <;> simp
  refine { clock := ?_, pids := fun p hp => ?_, users := fun f hf _ himp _ => ?_,
           freeFrames := ⟨[], trivial, by simp, fun f => ?_, ?_⟩,
           freeSlots := by simp [smallSystem],
           tables := fun p x f hf => ?_, tableOnce := fun p x q y f hp hq => ?_,
           flagged := fun p as i w hp hw => ?_ }
  · show n + 10 < _
    omega
  · simp only [smallSystem] at hp
    grind
  · by_cases hlt : f < n + 10
    · simp [smallSystem, hlt] at himp
    · have hone : (0 : Int) < 1 ∧ (0 : Int) < 2 ∧ PageAddr 0x1000 := by decide
      simp only [smallSystem, hlt, if_false]
      split
      · exact ⟨hone.1, hone.2.2⟩
      · exact hone.2
  · simp [hcap f]
  · simp [smallSystem, hsize]
  · obtain ⟨k, hk, hf⟩ := tableFrame_smallSystem.mp hf
    have hlt : f < n + 10 := by
      have hk5 := nodeAt_lt hk
      omega
    exact ⟨by omega, hcap f, by simp [smallSystem, hlt]⟩
  · obtain ⟨k, hk, hf⟩ := tableFrame_smallSystem.mp hp
    obtain ⟨l, hl, hf'⟩ := tableFrame_smallSystem.mp hq
    have hk5 := nodeAt_lt hk
    have hl5 := nodeAt_lt hl
    obtain ⟨rfl, rfl⟩ : p = q ∧ k = l := by omega
    exact ⟨rfl, nodeAt_inj hk hl⟩
  · simp only [smallSystem] at hp
    split at hp
    · cases hp
      rw [word_smallTable] at hw
      split at hw
      · cases hw
        exact wellFlagged_fewPages (by omega) inUse _
      · cases hw
    · split at hp
      · cases hp
        rw [word_smallTable] at hw
        split at hw
        · cases hw
          exact wellFlagged_fewPages hn false _
        · cases hw
      · cases hp

end SmallSystem

def wholePages (pid : Int) (req : NfsReq) (s : VmState) : NfsReply × VmState :=
  match req with
  | .write offset len data =>
      (⟨len, fun _ => 0⟩, { s with
        pagefile := fun a =>
          if offset ≤ a ∧ a < offset + len then data (a - offset) else s.pagefile a
        running := pid })
  | .read offset len => (⟨len, fun k => s.pagefile (offset + k)⟩, { s with running := pid })

lemma served_wholePages (pid : Int) (req : NfsReq) (s : VmState) :
    Served pid req (wholePages pid req s).1 s (wholePages pid req s).2 := by
  cases req with
  | write offset len data => exact ⟨_, rfl⟩
  | read offset len => exact ⟨_, rfl⟩

def closedMachine (size : Nat) (h : 0 < size ∧ size < 2 ^ 52 := by decide) : Machine :=
  { grantingMachine size h with openOk := fun _ => false }

end SpaghettiOS.Vm
