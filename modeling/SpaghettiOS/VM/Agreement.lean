import SpaghettiOS.VM.FreeFrames
import SpaghettiOS.VM.Stock

/-!
# Entries, records and mappings

The page tables of SOS, the records of the frame table and the mappings of the hardware
say the same about a user page, between the operations of a run in which seL4 maps what
it is asked to map.

While a page is being set up this is true of all other pages, so what is going on is a
parameter of the invariant.
-/

namespace SpaghettiOS.Vm

open Coro (Keeps bind_apply get_apply modify_apply pure_apply set_apply)
open Coroutine (Res)
open Coroutine.Res (Ends)

/-! ## Assumptions -/

/-- Memory and slots last, the pagefile can be opened, and a page is mapped after three
paging structures at most have been added for it. -/
structure Lasting (m : Machine) : Prop where
  alloc : ∀ t, m.allocOk t = true
  opens : ∀ t, m.openOk t = true
  copy : ∀ t, m.capCopy t = .noError
  retype : ∀ t, m.retypeMap t = .noError
  maps : ∀ t, m.pageMap t = .noError ∨ m.pageMap t = .failedLookup
  levels : ∀ t, ¬ m.Retried 6 3 t

/-! ## Mappings on their way -/

structure Mapping where
  proc : Int
  page : Nat
  cap : Nat
  frame : Nat

/-- What is going on: pages that are in no frame, a mapping that is to be made or has been
made already, a frame that is not recorded for its page yet, and a frame whose page has
been written out. -/
structure Plan where
  out : Int → Nat → Prop
  mapping : Option Mapping
  done : Bool
  spare : Option Nat
  leaving : Option Nat

/-- Nothing is going on but for pages that are in no frame. -/
def Plan.idle (out : Int → Nat → Prop) : Plan := ⟨out, none, false, none, none⟩

/-- The page tables, the records of the frames and the mappings agree, but for what is
going on. -/
structure Tidy (m : Machine) (k : Plan) (s : VmState) : Prop extends FrameInv m s where
  users : ∀ p, s.procs p ≠ none → 0 < p
  caps : ∀ f, (s.frameTable f).userCap ≤ s.nextSlot
  framed : ∀ p v f, PageAddr v → s.pte p v = .frame f →
    s.allocated f ∧ (s.frameTable f).pid = p ∧ (s.frameTable f).userVaddr = v ∧
      (s.frameTable f).userCap ≠ 0
  named : ∀ f < m.frameTableSize, s.allocated f → 0 ≤ (s.frameTable f).pid → f ∉ k.leaving →
    PageAddr (s.frameTable f).userVaddr ∧
      s.pte (s.frameTable f).pid (s.frameTable f).userVaddr = .frame f
  mapped : ∀ p v y, s.vspace p v = some y →
    (∃ x ∈ k.mapping, p = x.proc ∧ v = x.page ∧ y = (x.cap, x.frame)) ∨
      ((s.frameTable y.2).userCap = y.1 ∧ y.1 ≠ 0 ∧ (PageAddr v ∧ s.pte p v = .frame y.2 ∨
          y.2 ∈ k.leaving ∧ ∀ f, s.pte p v ≠ .frame f))
  /-- A page whose bit is set is mapped. -/
  held : ∀ p v f, PageAddr v → s.pte p v = .frame f → (s.frameTable f).refBit = true →
    s.vspace p v ≠ none
  out : ∀ p v, k.out p v → ∀ f, s.pte p v ≠ .frame f
  flying : ∀ x ∈ k.mapping, ∀ f, s.pte x.proc x.page ≠ .frame f
  unused : ∀ x ∈ k.mapping, x.cap ≠ 0 ∧ ∀ f, (s.frameTable f).userCap ≠ x.cap
  slot : ∀ x ∈ k.mapping, x.cap ≤ s.nextSlot
  there : ∀ x ∈ k.mapping, k.done = true → s.vspace x.proc x.page = some (x.cap, x.frame)
  spare : ∀ f ∈ k.spare, s.allocated f ∧ (s.frameTable f).pid = -1
  gone : ∀ f ∈ k.leaving, ∀ p v, PageAddr v → s.pte p v ≠ .frame f

variable {p c : Int} {v f g : Nat} {as : AddrSpace}

section Agreement

variable {m : Machine} {k : Plan} {s t : VmState} {pid : Int}

lemma Tidy.congr (h : Tidy m k s) (hinv : FrameInv m t) (hframes : t.frameTable = s.frameTable)
    (hpte : t.pte = s.pte) (hprocs : ∀ p, t.procs p ≠ none → s.procs p ≠ none)
    (hvspace : t.vspace = s.vspace) (hslot : s.nextSlot ≤ t.nextSlot) : Tidy m k t := by
  have halloc : t.allocated = s.allocated := by
    funext f
    simp only [VmState.allocated, hframes]
  exact {
    toFrameInv := hinv
    users := fun p hp => h.users p (hprocs p hp)
    caps := fun f => (hframes ▸ h.caps f).trans hslot
    framed := by
      rw [halloc, hpte, hframes]
      exact h.framed
    named := by
      rw [halloc, hpte, hframes]
      exact h.named
    mapped := by
      rw [hvspace, hpte, hframes]
      exact h.mapped
    held := by
      rw [hvspace, hpte, hframes]
      exact h.held
    out := by
      rw [hpte]
      exact h.out
    flying := by
      rw [hpte]
      exact h.flying
    unused := by
      rw [hframes]
      exact h.unused
    slot := fun x hx => (h.slot x hx).trans hslot
    there := by
      rw [hvspace]
      exact h.there
    spare := by
      rw [halloc, hframes]
      exact h.spare
    gone := by
      rw [hpte]
      exact h.gone }

lemma Tidy.same (h : Tidy m k s) (hs : SameTables s t) : Tidy m k t := by
  rw [hs]
  exact h.congr (h.toFrameInv.same ⟨fun _ => rfl, fun _ => rfl, rfl, rfl, rfl⟩ h.clock) rfl rfl
    (fun _ hp => hp) rfl le_rfl

lemma Tidy.pos (h : Tidy m k s) (hpte : s.pte p v = .frame f) : 0 < p := by
  obtain ⟨as, has, -⟩ := exists_word_of_pte (s := s) (p := p) (v := v) (by simp [hpte])
  exact h.users p (by simp [has])

lemma Tidy.mapped_frame (h : Tidy m k s) {y : Nat × Nat} (hpte : s.pte p v = .frame f)
    (hy : s.vspace p v = some y) : y.2 = f ∧ (s.frameTable f).userCap = y.1 ∧ y.1 ≠ 0 := by
  rcases h.mapped p v y hy with ⟨x, hx, rfl, rfl, -⟩ | ⟨hcap, hne, ⟨-, hframe⟩ | ⟨-, hnone⟩⟩
  · exact absurd hpte (h.flying x hx f)
  · obtain rfl : y.2 = f := by
      rw [hpte] at hframe
      exact (Pte.frame.inj hframe).symm
    exact ⟨rfl, hcap, hne⟩
  · exact absurd hpte (hnone f)

lemma Tidy.turn (h : Tidy m k s) : Tidy m k (sweepStep m s) := by
  have hframe : ∀ f, (sweepStep m s).frameTable f =
      { s.frameTable f with refBit := ((sweepStep m s).frameTable f).refBit } := by
    intro f
    rw [sweepStep_frameTable]
    split
    · rfl
    · rfl
  have hbit : ∀ f, ((sweepStep m s).frameTable f).refBit = true →
      (s.frameTable f).refBit = true ∧ ¬ (f = s.clockCurr ∧ Clearable s f) := by
    intro f hf
    rw [sweepStep_frameTable] at hf
    split at hf
    · cases hf
    · exact ⟨hf, ‹_›⟩
  have hpte : (sweepStep m s).pte = s.pte := VmState.pte_procs (by rw [sweepStep_rest])
  have halloc : (sweepStep m s).allocated = s.allocated := by
    funext f
    rw [VmState.allocated, hframe]
    rfl
  have hprocs : (sweepStep m s).procs = s.procs := by rw [sweepStep_rest]
  have hslot : (sweepStep m s).nextSlot = s.nextSlot := by rw [sweepStep_rest]
  refine {
    toFrameInv := h.toFrameInv.same ⟨fun f => by rw [hframe], fun f => by rw [hframe],
      by rw [sweepStep_rest], by rw [sweepStep_rest], by rw [sweepStep_rest]⟩ ?_
    users := fun p hp => h.users p (hprocs ▸ hp)
    caps := fun f => ?_
    framed := fun p v f hv hp => ?_
    named := fun f hf ha hpid hstay => ?_
    mapped := fun p v y hy => ?_
    held := fun p v f hv hp hf => ?_
    out := fun p v hk f => hpte ▸ h.out p v hk f
    flying := fun x hx f => hpte ▸ h.flying x hx f
    unused := fun x hx => ?_
    slot := fun x hx => hslot ▸ h.slot x hx
    there := fun x hx hdone => ?_
    spare := fun f hf => ?_
    gone := fun f hf p v hv => hpte ▸ h.gone f hf p v hv }
  · rw [sweepStep_rest]
    exact Nat.mod_lt _ m.size_pos
  · rw [hframe, hslot]
    exact h.caps f
  · rw [halloc, hframe]
    exact h.framed p v f hv (hpte ▸ hp)
  · rw [halloc] at ha
    rw [hframe] at hpid ⊢
    rw [hpte]
    exact h.named f hf ha hpid hstay
  · rw [hpte, hframe]
    rcases sweepStep_vspace (m := m) (s := s) p v with heq | ⟨hnone, -⟩
    · exact h.mapped p v y (heq ▸ hy)
    · rw [hnone] at hy
      cases hy
  · obtain ⟨hset, hother⟩ := hbit f hf
    rw [hpte] at hp
    rcases sweepStep_vspace (m := m) (s := s) p v with heq | ⟨-, hclear, hy⟩
    · rw [heq]
      exact h.held p v f hv hp hset
    · obtain ⟨rfl, -⟩ := h.mapped_frame hp hy
      exact absurd ⟨rfl, hclear⟩ hother
  · refine ⟨(h.unused x hx).1, fun f => ?_⟩
    rw [hframe]
    exact (h.unused x hx).2 f
  · have hthere := h.there x hx hdone
    rcases sweepStep_vspace (m := m) (s := s) x.proc x.page with heq | ⟨-, -, hy⟩
    · exact heq.trans hthere
    · rw [hthere] at hy
      have hcap : x.cap = (s.frameTable s.clockCurr).userCap :=
        congrArg Prod.fst (Option.some.inj hy)
      exact absurd hcap.symm ((h.unused x hx).2 s.clockCurr)
  · rw [halloc, hframe]
    exact h.spare f hf

lemma Tidy.sweep (h : Tidy m k s) {n : Nat} (hs : sweep m n s = some t) : Tidy m k t := by
  obtain ⟨j, -, -, rfl⟩ := (sweep_eq_some _).mp hs
  clear hs
  induction j with
  | zero => exact h
  | succ j ih => exact ih.turn

lemma pte_setWord_index {i : PtIndex} (h : s.procs p = some as) (hw : as.pt.word i ≠ none)
    (w : Word) (q : Int) (v : Nat) :
    (s.modifyTable p fun t => t.setWord i w).pte q v =
      if q = p ∧ getPtIndex v = i then .ofWord w else s.pte q v := by
  rw [pte_modifyTable h, PageTable.pte_setWord hw]
  rcases eq_or_ne q p with rfl | hq
  · simp [pte_of_procs h]
  · simp [hq]

lemma Tidy.swapOut (h : Tidy m k s) (hk : k.leaving = none) (i : Nat)
    (hg : g < m.frameTableSize) (hcap : s.allocated g) (hpid : 0 ≤ (s.frameTable g).pid) :
    Tidy m { k with leaving := some g } (s.modifyTable (s.frameTable g).pid fun pt =>
      pt.setWord (getPtIndex (s.frameTable g).userVaddr) (pageUpdateEntry pPagefile i)) := by
  obtain ⟨hv, hpte⟩ := h.named g hg hcap hpid (by simp [hk])
  obtain ⟨as, has, hword⟩ :=
    exists_word_of_pte (s := s) (p := (s.frameTable g).pid) (v := (s.frameTable g).userVaddr)
      (by simp [hpte])
  have hentry : ∀ p v, (s.modifyTable (s.frameTable g).pid fun pt =>
      pt.setWord (getPtIndex (s.frameTable g).userVaddr) (pageUpdateEntry pPagefile i)).pte p v =
      if p = (s.frameTable g).pid ∧ getPtIndex v = getPtIndex (s.frameTable g).userVaddr then
        .pagefile (i % 2 ^ 52)
      else s.pte p v := fun p v => by
    rw [pte_setWord_index has hword, ofWord_update_pagefile]
  generalize hu : (s.modifyTable (s.frameTable g).pid fun pt =>
    pt.setWord (getPtIndex (s.frameTable g).userVaddr) (pageUpdateEntry pPagefile i)) = u
    at hentry ⊢
  have hprocs : ∀ p, u.procs p ≠ none → s.procs p ≠ none := fun p hp => by
    rw [← hu] at hp
    exact procs_modifyTable_ne_none.mp hp
  obtain ⟨hframes, hvspace, hslot, hinv⟩ :
      u.frameTable = s.frameTable ∧ u.vspace = s.vspace ∧ u.nextSlot = s.nextSlot ∧
        FrameInv m u := by
    subst u
    exact ⟨rfl, rfl, rfl, h.toFrameInv.same ⟨fun _ => rfl, fun _ => rfl, rfl, rfl, rfl⟩ h.clock⟩
  have halloc : u.allocated = s.allocated := by
    funext f
    simp only [VmState.allocated, hframes]
  have hframe : ∀ {p v f}, u.pte p v = .frame f → s.pte p v = .frame f := by
    intro p v f hp
    rw [hentry] at hp
    split at hp
    · cases hp
    · exact hp
  have hother : ∀ {p v f}, PageAddr v → s.pte p v = .frame f → f ≠ g → u.pte p v = .frame f := by
    intro p v f hpv hp hne
    rw [hentry, if_neg]
    · exact hp
    · rintro ⟨rfl, hi⟩
      obtain rfl := getPtIndex_inj hpv hv hi
      rw [hpte] at hp
      exact hne (Pte.frame.inj hp).symm
  have hgone : ∀ {p v}, PageAddr v → s.pte p v = .frame g → ∀ f, u.pte p v ≠ .frame f := by
    intro p v hpv hp f
    obtain ⟨-, rfl, rfl, -⟩ := h.framed p v g hpv hp
    simp [hentry]
  exact {
    toFrameInv := hinv
    users := fun p hp => h.users p (hprocs p hp)
    caps := by
      rw [hframes, hslot]
      exact h.caps
    framed := fun p v f hpv hp => by
      rw [halloc, hframes]
      exact h.framed p v f hpv (hframe hp)
    named := fun f hf ha hp hstay => by
      rw [halloc] at ha
      rw [hframes] at hp ⊢
      obtain ⟨hfv, hfp⟩ := h.named f hf ha hp (by simp [hk])
      exact ⟨hfv, hother hfv hfp fun heq => hstay (by simp [heq])⟩
    mapped := fun p v y hy => by
      rw [hframes]
      rw [hvspace] at hy
      rcases h.mapped p v y hy with hx | ⟨hc, hne, ⟨hpv, hp⟩ | ⟨hl, -⟩⟩
      · exact .inl hx
      · refine .inr ⟨hc, hne, ?_⟩
        rcases eq_or_ne y.2 g with heq | hyg
        · exact .inr ⟨by simp [heq], hgone hpv (heq ▸ hp)⟩
        · exact .inl ⟨hpv, hother hpv hp hyg⟩
      · simp [hk] at hl
    held := fun p v f hpv hp hf => by
      rw [hvspace]
      rw [hframes] at hf
      exact h.held p v f hpv (hframe hp) hf
    out := fun p v hout f hp => h.out p v hout f (hframe hp)
    flying := fun x hx f hp => h.flying x hx f (hframe hp)
    unused := by
      rw [hframes]
      exact h.unused
    slot := fun x hx => hslot ▸ h.slot x hx
    there := by
      rw [hvspace]
      exact h.there
    spare := by
      rw [halloc, hframes]
      exact h.spare
    gone := fun f hf p v hpv hp => by
      obtain rfl := Option.mem_some_iff.mp hf
      exact hgone hpv (hframe hp) g hp }

lemma Tidy.disown (h : Tidy m k s) (hinv : FrameInv m t) (hprocs : t.procs = s.procs)
    (hframe : ∀ {f}, f ≠ g → t.frameTable f = s.frameTable f)
    (hself : (t.frameTable g).pid = -1 ∧ (t.frameTable g).userCap = 0)
    (hslot : s.nextSlot ≤ t.nextSlot) (hspare : g ∉ k.spare)
    (hfree : ∀ p v, PageAddr v → s.pte p v ≠ .frame g)
    (hvspace : ∀ p v, t.vspace p v = s.vspace p v ∨
      t.vspace p v = none ∧ s.vspace p v = some ((s.frameTable g).userCap, g))
    (hleave : ∀ f ∈ k.leaving, f = g ∧ ∀ p v, (s.frameTable g).userCap ≠ 0 →
      t.vspace p v ≠ some ((s.frameTable g).userCap, g)) :
    Tidy m { k with leaving := none } t := by
  have hpte : t.pte = s.pte := VmState.pte_procs hprocs
  have halloc : ∀ {f}, f ≠ g → (t.allocated f ↔ s.allocated f) := fun hne => by
    rw [VmState.allocated, VmState.allocated, hframe hne]
  have hother : ∀ {p v f}, PageAddr v → s.pte p v = .frame f → f ≠ g := by
    rintro p v f hv hp rfl
    exact hfree p v hv hp
  have hcap : ∀ f, (t.frameTable f).userCap = (s.frameTable f).userCap ∨
      (t.frameTable f).userCap = 0 := by
    intro f
    rcases eq_or_ne f g with rfl | hne
    · exact .inr hself.2
    · exact .inl (by rw [hframe hne])
  exact {
    toFrameInv := hinv
    users := fun p hp => h.users p (hprocs ▸ hp)
    caps := fun f => by
      have hf := h.caps f
      rcases hcap f with heq | heq
      · omega
      · omega
    framed := fun p v f hv hp => by
      rw [hpte] at hp
      rw [halloc (hother hv hp), hframe (hother hv hp)]
      exact h.framed p v f hv hp
    named := fun f hf ha hp _ => by
      have hne : f ≠ g := by
        rintro rfl
        omega
      rw [halloc hne] at ha
      rw [hframe hne] at hp ⊢
      rw [hpte]
      exact h.named f hf ha hp fun hl => hne (hleave f hl).1
    mapped := fun p v y hy => by
      have hs : s.vspace p v = some y := by
        rcases hvspace p v with heq | ⟨hnone, -⟩
        · rwa [heq] at hy
        · rw [hnone] at hy
          cases hy
      rw [hpte]
      rcases h.mapped p v y hs with hx | ⟨hc, hne, ⟨hv, hp⟩ | ⟨hl, -⟩⟩
      · exact .inl hx
      · rw [hframe (hother hv hp)]
        exact .inr ⟨hc, hne, .inl ⟨hv, hp⟩⟩
      · obtain ⟨rfl, hgone⟩ := hleave _ hl
        rw [hc] at hgone
        exact absurd hy (hgone p v hne)
    held := fun p v f hv hp hf => by
      rw [hpte] at hp
      rw [hframe (hother hv hp)] at hf
      rcases hvspace p v with heq | ⟨-, hy⟩
      · rw [heq]
        exact h.held p v f hv hp hf
      · obtain ⟨heq, -⟩ := h.mapped_frame hp hy
        exact absurd heq.symm (hother hv hp)
    out := fun p v hout f => hpte ▸ h.out p v hout f
    flying := fun x hx f => hpte ▸ h.flying x hx f
    unused := fun x hx => by
      obtain ⟨hne, hunused⟩ := h.unused x hx
      refine ⟨hne, fun f => ?_⟩
      rcases hcap f with heq | heq
      · rw [heq]
        exact hunused f
      · rw [heq]
        exact hne.symm
    slot := fun x hx => (h.slot x hx).trans hslot
    there := fun x hx hdone => by
      have hthere := h.there x hx hdone
      rcases hvspace x.proc x.page with heq | ⟨-, hy⟩
      · exact heq.trans hthere
      · rw [hthere] at hy
        have hc : x.cap = (s.frameTable g).userCap := congrArg Prod.fst (Option.some.inj hy)
        exact absurd hc.symm ((h.unused x hx).2 g)
    spare := fun f hf => by
      have hne : f ≠ g := fun heq => hspare (heq ▸ hf)
      rw [halloc hne, hframe hne]
      exact h.spare f hf
    gone := by simp }

lemma Tidy.release (h : Tidy m { k with leaving := some g } s) (hg : g < m.frameTableSize)
    (hcap : s.allocated g) (hspare : g ∉ k.spare) :
    Tidy m { k with leaving := none } (s.release g) := by
  have hvspace : ∀ p v, (s.release g).vspace p v = if (s.frameTable g).userCap ≠ 0 ∧
      s.vspace p v = some ((s.frameTable g).userCap, g) then none else s.vspace p v :=
    fun _ _ => rfl
  refine h.disown (h.toFrameInv.release hg hcap) rfl (fun hne => ?_) ?_ le_rfl hspare
    (h.gone g rfl) (fun p v => ?_) fun f hf => ⟨(Option.some.inj hf).symm, fun p v hne => ?_⟩
  · rw [frameTable_release, if_neg hne]
  · rw [frameTable_release, if_pos rfl]
    exact ⟨rfl, rfl⟩
  · rw [hvspace]
    split
    · rename_i hgone
      exact .inr ⟨rfl, hgone.2⟩
    · exact .inl rfl
  · rw [hvspace]
    split
    · nofun
    · rename_i hstay
      exact fun heq => hstay ⟨hne, heq⟩

lemma Tidy.take (h : Tidy m k s) (hk : k.leaving = none)
    (hroom : s.frameTableCurrSize < m.frameTableSize) (imp : Bool) :
    Tidy m k (s.take m imp s.nextFreePage) ∧ s.nextFreePage < m.frameTableSize ∧
      (s.take m imp s.nextFreePage).allocated s.nextFreePage ∧
      ((s.take m imp s.nextFreePage).frameTable s.nextFreePage).pid = -1 := by
  obtain ⟨hinv, hmem⟩ := h.toFrameInv.take hroom imp
  obtain ⟨hlt, hfree⟩ : s.nextFreePage < m.frameTableSize ∧ ¬ s.allocated s.nextFreePage := by
    obtain ⟨l, hl⟩ := h.list
    exact (hl.exact.mem_iff _).mp hmem
  have hself := frameTable_take (m := m) (s := s) imp s.nextFreePage s.nextFreePage
  rw [if_pos rfl] at hself
  have hk' : { k with leaving := none } = k := by rw [← hk]
  refine ⟨hk' ▸ h.disown hinv rfl (fun hne => ?_) ?_ (Nat.le_succ _)
    (fun hf => hfree (h.spare _ hf).1) (fun p v hv hp => hfree (h.framed p v _ hv hp).1)
    (fun p v => .inl rfl) (fun f hf => by simp [hk] at hf), hlt, ?_, ?_⟩
  · rw [frameTable_take, if_neg hne]
  · rw [hself]
    exact ⟨rfl, rfl⟩
  · rw [VmState.allocated, hself]
    exact Nat.succ_ne_zero _
  · rw [hself]

/-! ## Frames -/

/-- Time has passed, but not more than `d` answers. -/
def Within (d : Nat) (s t : VmState) : Prop := s.time ≤ t.time ∧ t.time ≤ s.time + d

lemma Within.trans {d e : Nat} {u : VmState} (h : Within d s t) (h' : Within e t u) :
    Within (d + e) s u := by
  obtain ⟨h1, h2⟩ := h
  obtain ⟨h3, h4⟩ := h'
  exact ⟨h1.trans h3, by omega⟩

lemma ensureOpen_opens (hopen : ∀ t, m.openOk t = true) (s : VmState) :
    (ensureOpen m s).Ends (Served pid) fun b t => b = true ∧ SameTables s t ∧ Within 1 s t := by
  simp only [ensureOpen, bind_apply, get_apply, Res.bind]
  split
  · exact ⟨rfl, rfl, le_rfl, Nat.le_succ _⟩
  · simp only [pagefileOpen, ask, bind_apply, get_apply, set_apply,
      pure_apply, Res.bind, hopen, if_true, modify_apply]
    exact ⟨rfl, rfl, Nat.le_succ _, le_rfl⟩

lemma pageoutVictim_swaps (page : Nat) (s : VmState) :
    (pageoutVictim m page s).Ends (Served pid) fun _ t => 0 ≤ (s.frameTable page).pid ∧
      t.time = s.time ∧ ∃ i, SameTables (s.modifyTable (s.frameTable page).pid fun pt =>
        pt.setWord (getPtIndex (s.frameTable page).userVaddr) (pageUpdateEntry pPagefile i)) t := by
  simp only [pageoutVictim, bind_apply, get_apply, Res.bind]
  refine Ends.ofOption_bind fun fte hfte => ?_
  obtain rfl := getFrame_eq_some hfte
  refine Ends.check_bind fun hpid => Ends.check_bind fun _ => ?_
  refine Ends.ofOption_bind fun as _ => Ends.ofOption_bind fun w _ => ?_
  simp only [bind_apply, set_apply, modify_apply, Res.bind]
  refine Ends.check_bind fun _ => ?_
  simp only [sosCopyin, bind_apply, modify_apply, pure_apply, Res.bind]
  refine Ends.check_bind fun _ => ?_
  exact ⟨hpid.1, rfl, _, rfl⟩

lemma vnfsWrite_same (a n : Nat) (s : VmState) :
    (vnfsWrite m a n s).Ends (Served pid) fun _ t => SameTables s t ∧ t.time = s.time := by
  rintro r _ ⟨file, rfl⟩
  exact Ends.check_bind fun _ => ⟨rfl, rfl⟩

lemma pageout_tidy (hopen : ∀ t, m.openOk t = true) (h : Tidy m k s) (hk : k.leaving = none)
    {page : Nat} (hpage : page < m.frameTableSize) (hcap : s.allocated page) :
    (pageout m page s).Ends (Served pid) fun _ t => Tidy m { k with leaving := some page } t ∧
      t.allocated page ∧ page ∉ k.spare ∧ t.clockCurr = s.clockCurr ∧ Within 1 s t := by
  refine Ends.bind (ensureOpen_opens hopen s) ?_
  rintro _ s1 ⟨rfl, hs1, htime₁⟩
  have h1 := h.same hs1
  have hcap1 : s1.allocated page := by
    rw [hs1]
    exact hcap
  refine Ends.bind (pageoutVictim_swaps page s1) ?_
  rintro i s2 ⟨hpid, htime₂, j, hs2⟩
  have h2 := (h1.swapOut hk j hpage hcap1 hpid).same hs2
  refine Ends.bind (vnfsWrite_same _ _ s2) ?_
  rintro _ s3 ⟨hs3, htime₃⟩
  refine Ends.check_bind fun _ => ⟨h2.same hs3, ?_, ?_, ?_, ?_⟩
  · rw [hs3, hs2]
    exact hcap1
  · intro hf
    have hnone := (h1.spare page hf).2
    omega
  · rw [hs3, hs2, hs1]
    rfl
  · rw [Within, htime₃, htime₂]
    exact htime₁

lemma FrameInv.full (h : FrameInv m s) (hfull : s.frameTableCurrSize = m.frameTableSize)
    (hf : f < m.frameTableSize) : s.allocated f := by
  obtain ⟨l, hl⟩ := h.list
  have hcount := hl.count
  obtain rfl : l = [] := List.length_eq_zero_iff.mp (by omega)
  by_contra hnot
  exact absurd ((hl.mem_iff f).mpr ⟨hf, hnot⟩) List.not_mem_nil

lemma evict_tidy (hopen : ∀ t, m.openOk t = true) (h : Tidy m k s) (hk : k.leaving = none)
    (hfull : s.frameTableCurrSize = m.frameTableSize) :
    (evict m s).Ends (Served pid) fun _ t => Tidy m k t ∧ Within 1 s t := by
  simp only [evict, bind_apply, get_apply, Res.bind]
  refine Ends.ofOption_bind fun swept hswept => ?_
  have h1 := h.sweep hswept
  obtain ⟨hsize, htime⟩ : swept.frameTableCurrSize = s.frameTableCurrSize ∧
      swept.time = s.time := by
    obtain ⟨j, -, -, rfl⟩ := (sweep_eq_some _).mp hswept
    rw [turn_rest]
    exact ⟨rfl, rfl⟩
  have hcap := h1.toFrameInv.full (hsize.trans hfull) h1.clock
  simp only [bind_apply, set_apply, Res.bind]
  refine Ends.bind (pageout_tidy hopen h1 hk h1.clock hcap) ?_
  rintro _ s2 ⟨h2, hcap2, hspare, hclock, hwithin⟩
  simp only [bind_apply, get_apply, Res.bind]
  rw [hclock]
  refine Ends.bind (frameFree_releases h1.clock.le) ?_
  rintro _ _ ⟨-, rfl⟩
  have hk' : { k with leaving := none } = k := by rw [← hk]
  exact ⟨hk' ▸ h2.release h1.clock hcap2 hspare, htime ▸ hwithin.1, htime ▸ hwithin.2⟩

/-- What an allocation gives: a frame that has no owner. -/
structure Unowned (m : Machine) (r : Nat × Nat) (t : VmState) : Prop where
  vaddr : r.2 = m.pageNumToVaddr r.1
  lt : r.1 < m.frameTableSize
  allocated : t.allocated r.1
  pid : (t.frameTable r.1).pid = -1

lemma frameAllocWith_tidy (hm : Lasting m) (h : Tidy m k s) (hk : k.leaving = none)
    (imp : Bool) : (frameAllocWith m imp s).Ends (Served pid) fun r t =>
      Tidy m k t ∧ Unowned m r t ∧ Within 2 s t := by
  have htake : ∀ {u : VmState}, Tidy m k u → Within 1 s u →
      u.frameTableCurrSize < m.frameTableSize →
      ((do let ok ← ask m.allocOk
           if ok then do
             modify fun s => s.take m imp u.nextFreePage
             pure (u.nextFreePage, m.pageNumToVaddr u.nextFreePage)
           else pure (0, 0) : VmM (Nat × Nat)) u).Ends (Served pid) fun r t =>
        Tidy m k t ∧ Unowned m r t ∧ Within 2 s t := by
    intro u hu hwithin hroom
    simp only [ask, bind_apply, get_apply, set_apply, pure_apply, Res.bind,
      hm.alloc, if_true, modify_apply]
    have htick : Tidy m k { u with time := u.time + 1 } := hu.same rfl
    obtain ⟨ht, hlt, halloc, hpid⟩ := htick.take hk hroom imp
    exact ⟨ht, ⟨rfl, hlt, halloc, hpid⟩, hwithin.trans (e := 1) ⟨Nat.le_succ _, le_rfl⟩⟩
  simp only [frameAllocWith, bind_apply, get_apply, Res.bind]
  refine Ends.check_bind fun hle => ?_
  simp only [choosePage, bind_apply, get_apply, Res.bind]
  split
  · rename_i hfull
    refine Ends.bind ((evict_frees h.toFrameInv).and (evict_tidy hm.opens h hk hfull)) ?_
    rintro _ u ⟨⟨-, rfl, hroom, -⟩, hu, hwithin⟩
    exact htake hu hwithin hroom
  · rename_i hfull
    exact htake h ⟨le_rfl, Nat.le_succ _⟩ (lt_of_le_of_ne hle hfull)

/-! ## Page tables -/

lemma Tidy.table (h : Tidy m k s) {g : PageTable → PageTable}
    (hpte : (s.modifyTable c g).pte = s.pte) : Tidy m k (s.modifyTable c g) :=
  h.congr (h.toFrameInv.same ⟨fun _ => rfl, fun _ => rfl, rfl, rfl, rfl⟩ h.clock) rfl hpte
    (fun _ hp => procs_modifyTable_ne_none.mp hp) rfl le_rfl

/-- What was tidy stays so. -/
def StaysTidy (m : Machine) (k : Plan) (s t : VmState) : Prop := Tidy m k s → Tidy m k t

instance : Std.Refl (StaysTidy m k) where
  refl _ := id

instance : IsTrans VmState (StaysTidy m k) where
  trans _ _ _ h h' := h' ∘ h

lemma pageTableInsert_tidy (hm : Lasting m) (h : Tidy m k s) (hk : k.leaving = none) (c : Int)
    (v f : Nat) :
    (pageTableInsert m c v f s).Ends (Served pid) fun r t => r = 0 ∧ ∃ u as, Tidy m k u ∧
      u.procs c = some as ∧ as.pt.word (getPtIndex v) ≠ none ∧
      t = u.modifyTable c fun pt => pt.setWord (getPtIndex v) (BitVec.ofNat 64 f) := by
  have halloc : Keeps (Served pid) (StaysTidy m k) (frameAllocWith m true) := fun s =>
    Ends.mono (Ends.forall fun h : Tidy m k s => frameAllocWith_tidy hm h hk true)
      fun _ _ ht h => (ht h).1
  have hnode : ∀ {s as g x f}, s.procs c = some as → AddsNode x as.pt (g as.pt) f →
      StaysTidy m k s (s.modifyTable c g) := fun has hadd h => h.table (pte_addNode has hadd)
  refine Ends.mono (pageTableInsert_adds halloc hnode v f) fun r t ht => ?_
  rw [if_neg (Stock.nodes_granted hm.alloc _ _ _)] at ht
  obtain ⟨hr, u, as, hu, hrest⟩ := ht
  exact ⟨hr, u, as, hu h, hrest⟩

lemma saveSeL4Info_tidy (hm : Lasting m) (h : Tidy m k s) (hk : k.leaving = none) (c : Int) :
    (saveSeL4Info m c s).Ends (Served pid) fun _ t => Tidy m k t ∧ Within 2 s t := by
  have hchunk : (ensureChunk m c s).Ends (Served pid) fun _ t => Tidy m k t ∧ Within 2 s t := by
    simp only [ensureChunk, pageTableOf, bind_apply, get_apply, Res.bind]
    cases s.procs c with
    | none => trivial
    | some as =>
      simp only [Coro.ofOption, pure_apply, Res.bind]
      split
      · refine Ends.bind (frameAllocWith_tidy hm h hk true) ?_
        rintro ⟨page, vaddr⟩ t ⟨ht, -, hwithin⟩
        have hpte : (t.modifyTable c fun pt =>
            { pt with seL4Pages := pt.seL4Pages ++ [⟨page, 0⟩] }).pte = t.pte :=
          pte_sameTable fun _ => rfl
        exact Ends.check_bind fun _ => ⟨ht.table hpte, hwithin⟩
      · exact ⟨h, le_rfl, Nat.le_add_right _ _⟩
  refine Ends.bind hchunk ?_
  rintro _ t ⟨ht, hwithin⟩
  exact ⟨ht.table (pte_sameTable word_bumpLast), hwithin⟩

/-! ## Mapping a frame -/

lemma Tidy.begin {out : Int → Nat → Prop} (h : Tidy m (.idle out) s)
    (hout : ∀ f, s.pte c v ≠ .frame f) (f : Nat) {o : Option Nat}
    (ho : ∀ g ∈ o, s.allocated g ∧ (s.frameTable g).pid = -1) :
    Tidy m ⟨out, some ⟨c, v, s.nextSlot + 1, f⟩, false, o, none⟩
      { s with nextSlot := s.nextSlot + 1 } := by
  have hinv : FrameInv m { s with nextSlot := s.nextSlot + 1 } :=
    h.toFrameInv.same ⟨fun _ => rfl, fun _ => rfl, rfl, rfl, rfl⟩ h.clock
  have hunused : ∀ g, (s.frameTable g).userCap ≠ s.nextSlot + 1 := fun g => by
    have hg := h.caps g
    omega
  exact {
    toFrameInv := hinv
    users := h.users
    caps := fun g => (h.caps g).trans (Nat.le_succ _)
    framed := h.framed
    named := h.named
    mapped := fun p w y hy => by
      rcases h.mapped p w y hy with ⟨x, hx, -⟩ | hold
      · cases hx
      · exact .inr hold
    held := h.held
    out := h.out
    flying := fun x hx g => by
      obtain rfl := Option.mem_some_iff.mp hx
      exact hout g
    unused := fun x hx => by
      obtain rfl := Option.mem_some_iff.mp hx
      exact ⟨Nat.succ_ne_zero _, hunused⟩
    slot := fun x hx => by
      obtain rfl := Option.mem_some_iff.mp hx
      exact le_rfl
    there := nofun
    spare := ho
    gone := nofun }

variable {x : Mapping}

lemma Tidy.pageMap (h : Tidy m k s) (hx : k.mapping = some x) (r : CapRights) :
    Tidy m { k with done := true } (s.pageMap x.proc x.page x.cap r x.frame) := by
  have hvspace : ∀ p v, (s.pageMap x.proc x.page x.cap r x.frame).vspace p v =
      if p = x.proc ∧ v = x.page then some (x.cap, x.frame) else s.vspace p v := by
    intro p v
    rcases eq_or_ne p x.proc with rfl | hp
    · rcases eq_or_ne v x.page with rfl | hv
      · simp [VmState.pageMap]
      · simp [VmState.pageMap, hv]
    · simp [VmState.pageMap, hp]
  refine { h with
    toFrameInv := h.toFrameInv.same ⟨fun _ => rfl, fun _ => rfl, rfl, rfl, rfl⟩ h.clock
    mapped := fun p v y hy => ?_
    held := fun p v f hv hp hf => ?_
    there := fun x' hx' _ => ?_ }
  · rw [hvspace] at hy
    split at hy
    · rename_i hpv
      exact .inl ⟨x, hx, hpv.1, hpv.2, (Option.some.inj hy).symm⟩
    · exact h.mapped p v y hy
  · rw [hvspace, if_neg]
    · exact h.held p v f hv hp hf
    · rintro ⟨rfl, rfl⟩
      exact h.flying x hx f hp
  · obtain rfl : x = x' := Option.some.inj (hx.symm.trans hx')
    rw [hvspace, if_pos ⟨rfl, rfl⟩]

lemma seL4PageMap_tidy (hm : Lasting m) (h : Tidy m k s) (hx : k.mapping = some x)
    (hk : k.leaving = none) (r : CapRights) :
    (seL4PageMap m x.proc x.page x.cap r x.frame s).Ends (Served pid) fun err t =>
      err = .failedLookup ∧ m.pageMap s.time = .failedLookup ∧ t = { s with time := s.time + 1 } ∨
      err = .noError ∧ Tidy m { k with done := true } t := by
  have ht : Tidy m k { s with time := s.time + 1 } := h.same rfl
  obtain ⟨herr, hmap⟩ | ⟨⟨y, hy, hcap⟩, -⟩ | ⟨-, hmap⟩ :=
    seL4PageMap_cases m x.proc x.page x.cap r x.frame s
  · rw [hmap]
    rcases hm.maps s.time with hok | hfail
    · exact absurd hok herr
    · exact .inl ⟨hfail, hfail, rfl⟩
  · -- what is mapped there is mapped through the same capability
    rcases h.mapped _ _ y hy with ⟨x', hx', -, -, rfl⟩ | ⟨-, -, ⟨-, hp⟩ | ⟨hl, -⟩⟩
    · obtain rfl : x = x' := Option.some.inj (hx.symm.trans hx')
      exact absurd rfl hcap
    · exact absurd hp (h.flying x hx _)
    · simp [hk] at hl
  · rw [hmap]
    exact .inr ⟨rfl, ht.pageMap hx r⟩

lemma mapLevels_tidy (hm : Lasting m) (hx : k.mapping = some x) (hk : k.leaving = none) (c : Int)
    (r : CapRights) {n j : Nat} (hj : n + j = 3) (h : Tidy m k s) (t0 : Nat)
    (hfail : m.Retried 6 j t0) (htime : s.time = t0 + 1) :
    (mapLevels m c x.proc x.page x.cap r x.frame n .failedLookup s).Ends (Served pid) fun res t =>
      res = some .noError ∧ Tidy m { k with done := true } t := by
  induction n generalizing s t0 j with
  | zero =>
    obtain rfl : j = 3 := by omega
    exact absurd hfail (hm.levels t0)
  | succ n ih =>
    simp only [mapLevels, ask, bind_apply, get_apply, set_apply, pure_apply,
      Res.bind, hm.alloc, if_true, hm.retype]
    have ht : Tidy m k { s with time := s.time + 1 + 1 + 1 } := h.same rfl
    refine Ends.bind (saveSeL4Info_tidy hm ht hk c) ?_
    rintro _ s1 ⟨h1, hlater, hsoon⟩
    simp only at hlater hsoon
    simp only [retryMap, if_true]
    refine Ends.bind (seL4PageMap_tidy hm h1 hx hk r) ?_
    rintro err s2 (⟨rfl, hfail₁, rfl⟩ | ⟨rfl, h2⟩)
    · exact ih (j := j + 1) (by omega) (h1.same rfl) s1.time
        ⟨hfail₁, t0, by omega, by omega, hfail⟩ rfl
    · have hdone : mapLevels m c x.proc x.page x.cap r x.frame n .noError =
          pure (some .noError) := by cases n <;> rfl
      rw [hdone]
      exact ⟨rfl, h2⟩

lemma mapLevels_tidy_of_try (hm : Lasting m) (hx : k.mapping = some x) (hk : k.leaving = none)
    (c : Int) (r : CapRights) (h : Tidy m k s) {err : SeL4Error}
    (htry : err = .failedLookup ∧ m.pageMap s.time = .failedLookup ∧
        t = { s with time := s.time + 1 } ∨ err = .noError ∧ Tidy m { k with done := true } t) :
    (mapLevels m c x.proc x.page x.cap r x.frame mappingSlots err t).Ends (Served pid)
      fun res t => res = some .noError ∧ Tidy m { k with done := true } t := by
  obtain ⟨rfl, hfail, rfl⟩ | ⟨rfl, ht⟩ := htry
  · exact mapLevels_tidy hm hx hk c r (j := 0) rfl (h.same rfl) s.time hfail rfl
  · exact ⟨rfl, ht⟩

lemma sosMapFrame_tidy (hm : Lasting m) (hx : k.mapping = some x) (hk : k.leaving = none)
    (c : Int) (r : CapRights) (h : Tidy m k s) :
    (sosMapFrame m c x.proc x.cap x.page r x.frame true s).Ends (Served pid) fun err t =>
      err = 0 ∧ ∃ u as, Tidy m { k with done := true } u ∧ u.procs c = some as ∧
        as.pt.word (getPtIndex x.page) ≠ none ∧ t = u.modifyTable c fun pt =>
          pt.setWord (getPtIndex x.page) (BitVec.ofNat 64 x.frame) := by
  refine Ends.bind (seL4PageMap_tidy hm h hx hk r) fun err s1 htry => ?_
  refine Ends.bind (mapLevels_tidy_of_try hm hx hk c r h htry) ?_
  rintro _ s2 ⟨rfl, h2⟩
  exact pageTableInsert_tidy hm h2 hk c x.page x.frame

lemma sosMapFrame_kernel_tidy (hm : Lasting m) (hx : k.mapping = some x)
    (hk : k.leaving = none) (c : Int) (r : CapRights) (h : Tidy m k s) :
    (sosMapFrame m c x.proc x.cap x.page r x.frame false s).Ends (Served pid) fun err t =>
      err = 0 ∧ Tidy m { k with done := true } t := by
  refine Ends.bind (seL4PageMap_tidy hm h hx hk r) fun err s1 htry => ?_
  refine Ends.bind (mapLevels_tidy_of_try hm hx hk c r h htry) ?_
  rintro _ s2 ⟨rfl, h2⟩
  exact ⟨rfl, h2⟩

def VmState.setUp (s : VmState) (x : Mapping) : VmState :=
  (s.modifyTable x.proc fun pt =>
    pt.setWord (getPtIndex x.page) (BitVec.ofNat 64 x.frame)).setFrame x.frame
      fun e => { e with pid := x.proc, userVaddr := x.page, userCap := x.cap }

lemma frameTable_setUp (f : Nat) : (s.setUp x).frameTable f = if f = x.frame then
      { s.frameTable x.frame with pid := x.proc, userVaddr := x.page, userCap := x.cap }
    else s.frameTable f := by
  rcases eq_or_ne f x.frame with rfl | hne
  · simp [VmState.setUp, VmState.setFrame, VmState.modifyTable]
  · simp [VmState.setUp, VmState.setFrame, VmState.modifyTable, hne]

lemma pte_setUp (has : s.procs x.proc = some as) (hword : as.pt.word (getPtIndex x.page) ≠ none)
    (hf : x.frame < 2 ^ 52) (p : Int) (v : Nat) :
    (s.setUp x).pte p v =
      if p = x.proc ∧ getPtIndex v = getPtIndex x.page then .frame x.frame else s.pte p v := by
  have hprocs : (s.setUp x).procs = (s.modifyTable x.proc fun pt =>
      pt.setWord (getPtIndex x.page) (BitVec.ofNat 64 x.frame)).procs := rfl
  rw [VmState.pte_procs hprocs, pte_setWord_index has hword, ofWord_ofNat hf]

lemma sameFrames_setUp : SameFrames s (s.setUp x) := by
  refine ⟨fun f => ?_, fun f => ?_, rfl, rfl, rfl⟩
  · rw [frameTable_setUp]
    split
    · simp [*]
    · rfl
  · rw [frameTable_setUp]
    split
    · simp [*]
    · rfl

lemma procs_setUp_ne_none : (s.setUp x).procs p ≠ none ↔ s.procs p ≠ none :=
  procs_modifyTable_ne_none (p := x.proc)
    (g := fun pt => pt.setWord (getPtIndex x.page) (BitVec.ofNat 64 x.frame))

lemma Tidy.setUp {out : Int → Nat → Prop} (h : Tidy m ⟨out, some x, true, some x.frame, none⟩ s)
    (has : s.procs x.proc = some as) (hword : as.pt.word (getPtIndex x.page) ≠ none)
    (hv : PageAddr x.page) (hf : x.frame < m.frameTableSize) :
    Tidy m (.idle fun p v => out p v ∧ ¬ (p = x.proc ∧ getPtIndex v = getPtIndex x.page))
      (s.setUp x) := by
  obtain ⟨hcap, hunused⟩ := h.unused x rfl
  obtain ⟨halloc, hpid⟩ := h.spare x.frame rfl
  have hflying := h.flying x rfl
  have hpte := pte_setUp has hword (hf.trans m.size_lt)
  have hself : (s.setUp x).frameTable x.frame =
      { s.frameTable x.frame with pid := x.proc, userVaddr := x.page, userCap := x.cap } := by
    rw [frameTable_setUp, if_pos rfl]
  have hframe : ∀ {f}, f ≠ x.frame → (s.setUp x).frameTable f = s.frameTable f := fun hne => by
    rw [frameTable_setUp, if_neg hne]
  have hallocated : ∀ f, (s.setUp x).allocated f ↔ s.allocated f := sameFrames_setUp.allocated
  have hother : ∀ {p v f}, PageAddr v → s.pte p v = .frame f → f ≠ x.frame := by
    rintro p v f hpv hp rfl
    have hown := (h.framed p v _ hpv hp).2.1
    have hpos := h.pos hp
    omega
  have hpage : ∀ {p v f}, (s.setUp x).pte p v = .frame f → PageAddr v →
      p = x.proc ∧ v = x.page ∧ f = x.frame ∨ s.pte p v = .frame f := by
    intro p v f hp hpv
    rw [hpte] at hp
    split at hp
    · rename_i hpx
      exact .inl ⟨hpx.1, getPtIndex_inj hpv hv hpx.2, (Pte.frame.inj hp).symm⟩
    · exact .inr hp
  have hkeep : ∀ {p v f}, PageAddr v → s.pte p v = .frame f → (s.setUp x).pte p v = .frame f := by
    intro p v f hpv hp
    rw [hpte, if_neg]
    · exact hp
    · rintro ⟨rfl, hi⟩
      obtain rfl := getPtIndex_inj hpv hv hi
      exact hflying f hp
  exact {
    toFrameInv := h.toFrameInv.same sameFrames_setUp h.clock
    users := fun p hp => h.users p (procs_setUp_ne_none.mp hp)
    caps := fun f => by
      rw [frameTable_setUp]
      split
      · exact h.slot x rfl
      · exact h.caps f
    framed := fun p v f hpv hp => by
      rw [hallocated]
      rcases hpage hp hpv with ⟨rfl, rfl, rfl⟩ | hold
      · rw [hself]
        exact ⟨halloc, rfl, rfl, hcap⟩
      · rw [hframe (hother hpv hold)]
        exact h.framed p v f hpv hold
    named := fun f hfs ha hp _ => by
      rw [hallocated] at ha
      rcases eq_or_ne f x.frame with rfl | hne
      · rw [hself]
        exact ⟨hv, by rw [hpte, if_pos ⟨rfl, rfl⟩]⟩
      · rw [hframe hne] at hp ⊢
        obtain ⟨hfv, hfp⟩ := h.named f hfs ha hp nofun
        exact ⟨hfv, hkeep hfv hfp⟩
    mapped := fun p v y hy => by
      rcases h.mapped p v y hy with ⟨x', hx', rfl, rfl, rfl⟩ | ⟨hc, hne, ⟨hpv, hp⟩ | ⟨hl, -⟩⟩
      · obtain rfl := Option.mem_some_iff.mp hx'
        rw [hself]
        exact .inr ⟨rfl, hcap, .inl ⟨hv, by rw [hpte, if_pos ⟨rfl, rfl⟩]⟩⟩
      · rw [hframe (hother hpv hp)]
        exact .inr ⟨hc, hne, .inl ⟨hpv, hkeep hpv hp⟩⟩
      · cases hl
    held := fun p v f hpv hp hbit => by
      rcases hpage hp hpv with ⟨rfl, rfl, rfl⟩ | hold
      · have hthere := h.there x rfl rfl
        exact fun hnone => Option.some_ne_none _ (hthere.symm.trans hnone)
      · rw [hframe (hother hpv hold)] at hbit
        exact h.held p v f hpv hold hbit
    out := fun p v hout f hp => by
      rw [hpte, if_neg hout.2] at hp
      exact h.out p v hout.1 f hp
    flying := nofun
    unused := nofun
    slot := nofun
    there := nofun
    spare := nofun
    gone := nofun }

end Agreement

end SpaghettiOS.Vm
