import SpaghettiOS.VM.ElfLoad
import SpaghettiOS.VM.Supply

/-!
# The pages of a segment

The loop of `load_segment_into_vspace`.  While there are free frames every turn runs
to its end at once and leaves a page behind, in a frame that was free.  The hardware
keeps the first frame mapped at an address; the page table keeps the last.

Addresses are words here, so a segment at the end of the address space goes on at
its start.
-/

namespace SpaghettiOS.Vm

open Coro (bind_apply get_apply modify_apply pure_apply set_apply)
open Coroutine (Res)

/-! ## Assumptions -/

/-- Memory and slots last, and a page is mapped after three paging structures at most
have been added for it. -/
structure Obliging (m : Machine) : Prop where
  alloc : ∀ t, m.allocOk t = true
  copy : ∀ t, m.capCopy t = .noError
  retype : ∀ t, m.retypeMap t = .noError
  maps : ∀ t, m.pageMap t = .noError ∨ m.pageMap t = .failedLookup
  levels : ∀ t, ¬ m.Retried 5 3 t

/-! ## Mapping a page -/

/-- The attempts of `sos_map_frame` to map the frame: the error that is left after the
last one, or nothing when untyped memory or slots ran out. -/
def mapAttempts (m : Machine) (pid vspace : Int) (cap vaddr : Nat) (r : CapRights) (page : Nat) :
    VmM (Option SeL4Error) := do
  let err ← seL4PageMap m vspace vaddr cap r page
  mapLevels m pid vspace vaddr cap r page mappingSlots err

def reportMap (m : Machine) (pid : Int) (vaddr page : Nat) : Option SeL4Error → VmM Int
  | none => pure (-1)
  | some _ => pageTableInsert m pid vaddr page

lemma sosMapFrame_eq (m : Machine) (pid vspace : Int) (cap vaddr : Nat) (r : CapRights)
    (page : Nat) : sosMapFrame m pid vspace cap vaddr r page true =
      mapAttempts m pid vspace cap vaddr r page >>= reportMap m pid vaddr page := by
  simp only [sosMapFrame, mapAttempts, bind_assoc]
  rfl

/-- A page was mapped, or not when another capability was mapped there.  Frames were taken on
the way. -/
structure MapsPage (m : Machine) (n : Nat) (vs : Int) (v cap f : Nat) (err : SeL4Error)
    (s t : VmState) : Prop extends Fills m n [] s t where
  pte : t.pte = s.pte
  vspace : ∀ p w, t.vspace p w =
    if (p = vs ∧ w = v) ∧ err = .noError then some (cap, f) else s.vspace p w
  free : err = .noError → ∀ x, s.vspace vs v = some x → x.1 = cap
  refused : err ≠ .noError → ∃ x, s.vspace vs v = some x ∧ x.1 ≠ cap

section Mapping

variable {m : Machine} {n k : Nat} {pid vs : Int} {v cap f : Nat} {err : SeL4Error}
variable {s t : VmState}

lemma MapsPage.after {s1 : VmState} (hs : Fills m k [] s s1) (hpte : s1.pte = s.pte)
    (hvspace : s1.vspace = s.vspace) (h : MapsPage m n vs v cap f err s1 t) :
    MapsPage m (k + n) vs v cap f err s t where
  toFills := hs.trans h.toFills
  pte := h.pte.trans hpte
  vspace p w := by rw [h.vspace p w, hvspace]
  free := hvspace ▸ h.free
  refused := hvspace ▸ h.refused

lemma MapsPage.mono (h : MapsPage m n vs v cap f err s t) (hn : n ≤ k) :
    MapsPage m k vs v cap f err s t :=
  { h with toFills := h.toFills.mono (fun _ hf => hf) hn }

lemma MapsPage.noError_iff (h : MapsPage m n vs v cap f err s t)
    (hunused : ∀ x, s.vspace vs v = some x → x.1 ≠ cap) :
    err = .noError ↔ s.vspace vs v = none := by
  constructor
  · intro herr
    cases hv : s.vspace vs v with
    | none => rfl
    | some x => exact absurd (h.free herr x hv) (hunused x hv)
  · intro hnone
    by_contra herr
    obtain ⟨x, hx, -⟩ := h.refused herr
    exact nomatch hx.symm.trans hnone

lemma MapsPage.unmap (h : MapsPage m n vs v cap f .noError s t) (hcap : cap ≠ 0) {p : Int}
    (hnew : ∀ w x, s.vspace p w = some x → x.1 ≠ cap) :
    (t.pageUnmap cap f).vspace p = s.vspace p := by
  funext w
  simp only [VmState.pageUnmap, h.vspace p w, and_true]
  by_cases hpage : p = vs ∧ w = v
  · rw [if_pos hpage, if_pos ⟨hcap, rfl⟩]
    obtain ⟨rfl, rfl⟩ := hpage
    cases hv : s.vspace p w with
    | none => rfl
    | some x => exact absurd (h.free rfl x hv) (hnew w x hv)
  · rw [if_neg hpage, if_neg fun hx => hnew w _ hx.2 rfl]

lemma seL4PageMap_mapsPage (hm : Obliging m) (hroom : Room m k s) (vs : Int) (v cap f : Nat)
    (r : CapRights) :
    (seL4PageMap m vs v cap r f s).Returns fun err t =>
      err = .failedLookup ∧ m.pageMap s.time = .failedLookup ∧ t = { s with time := s.time + 1 } ∨
      err ≠ .failedLookup ∧ MapsPage m 0 vs v cap f err s t := by
  obtain ⟨herr, hmap⟩ | ⟨hx, hmap⟩ | ⟨hsame, hmap⟩ := seL4PageMap_cases m vs v cap r f s
  · rw [hmap]
    rcases hm.maps s.time with hok | hfail
    · exact absurd hok herr
    · exact .inl ⟨hfail, hfail, rfl⟩
  · rw [hmap]
    exact .inr ⟨by decide, .tick hroom.list [] _, rfl, fun _ _ => (if_neg nofun).symm, nofun,
      fun _ => hx⟩
  · rw [hmap]
    refine .inr ⟨by decide, .of_same hroom.list [] rfl rfl rfl rfl le_rfl fun _ hp => hp, rfl,
      fun p w => ?_, fun _ => hsame, fun herr => absurd rfl herr⟩
    simp [vspace_pageMap]

lemma mapLevels_mapsPage (hm : Obliging m) (r : CapRights) {j : Nat} (hj : n + j = 3)
    (hroom : Room m (n + k) s) (hproc : s.procs pid ≠ none) (t0 : Nat) (hfail : m.Retried 5 j t0)
    (htime : s.time = t0 + 1) :
    (mapLevels m pid vs v cap r f n .failedLookup s).Returns fun res t =>
      ∃ err, res = some err ∧ MapsPage m n vs v cap f err s t := by
  induction n generalizing s t0 j with
  | zero =>
    obtain rfl : j = 3 := by omega
    exact absurd hfail (hm.levels t0)
  | succ n ih =>
    simp only [mapLevels, ask, bind_apply, get_apply, set_apply,
      pure_apply, Res.bind, hm.alloc, if_true, hm.retype]
    have hasked := Fills.tick hroom.list [] (s.time + 1 + 1 + 1)
    refine Res.Returns.bind (saveSeL4Info_builds (n := n + k) hm.alloc
      (hasked.room (hroom.mono (by omega))) hproc) fun _ s1 h1 => ?_
    have hfills : Fills m 1 [] s s1 := (hasked.trans h1.toFills).mono (fun _ h => h) (by omega)
    have hroom₁ : Room m (n + k) s1 := hfills.room (hroom.mono (by omega))
    have hlater : s.time + 3 ≤ s1.time := h1.later
    have hsoon : s1.time ≤ s.time + 3 + 1 := h1.time
    simp only [retryMap, if_true]
    refine Res.Returns.bind (seL4PageMap_mapsPage hm hroom₁ vs v cap f r) ?_
    rintro err s2 (⟨rfl, hfail₁, rfl⟩ | ⟨hok, h2⟩)
    · have htick := Fills.tick hroom₁.list [] (s1.time + 1)
      refine (ih (j := j + 1) (by omega) (htick.room (hroom₁.mono (by omega)))
        (hfills.procs _ hproc) s1.time ⟨hfail₁, t0, by omega, by omega, hfail⟩ rfl).mono ?_
      rintro res t ⟨err, hres, ht⟩
      refine ⟨err, hres, ?_⟩
      rw [Nat.add_comm]
      exact ht.after (hfills.trans htick) h1.pte h1.vspace
    · refine (?_ : Res.Returns _ (mapLevels m pid vs v cap r f n err s2))
      rw [mapLevels_done _ _ _ _ _ _ _ _ hok]
      exact ⟨err, rfl, (h2.after hfills h1.pte h1.vspace).mono (by omega)⟩

lemma mapAttempts_mapsPage (hm : Obliging m) (r : CapRights) (hroom : Room m (3 + k) s)
    (hproc : s.procs pid ≠ none) : (mapAttempts m pid vs cap v r f s).Returns fun res t =>
      ∃ err, res = some err ∧ MapsPage m 3 vs v cap f err s t := by
  refine Res.Returns.bind (seL4PageMap_mapsPage hm hroom vs v cap f r) ?_
  rintro err s1 (⟨rfl, hfail, rfl⟩ | ⟨hok, h1⟩)
  · have htick := Fills.tick hroom.list [] (s.time + 1)
    refine (mapLevels_mapsPage hm r (j := 0) (k := k) rfl (htick.room (hroom.mono (by omega)))
      hproc s.time hfail rfl).mono ?_
    rintro res t ⟨err, hres, ht⟩
    exact ⟨err, hres, ht.after htick rfl rfl⟩
  · rw [mapLevels_done _ _ _ _ _ _ _ _ hok]
    exact ⟨err, rfl, h1.mono (by omega)⟩

lemma sosMapFrame_window (hm : Obliging m) (r : CapRights) (hroom : Room m (3 + k) s)
    (hproc : s.procs pid ≠ none) : (sosMapFrame m pid vs cap v r f false s).Returns fun res t =>
      ∃ err : SeL4Error, res = err.code ∧ MapsPage m 3 vs v cap f err s t := by
  have heq : sosMapFrame m pid vs cap v r f false = mapAttempts m pid vs cap v r f >>=
      fun res => match res with
        | none => pure (-1)
        | some err => pure err.code := by
    simp only [sosMapFrame, mapAttempts, bind_assoc]
    rfl
  rw [heq]
  refine Res.Returns.bind (mapAttempts_mapsPage hm r hroom hproc) ?_
  rintro _ s1 ⟨err, rfl, h1⟩
  exact ⟨err, rfl, h1⟩

end Mapping

/-! ## The steps of the loader -/

structure LoadedPage where
  vaddr : Nat
  frame : Nat
  bytes : Nat → UInt8

/-- Bytes written over a page from an offset on. -/
def overwrite (bytes : Nat → UInt8) (off len : Nat) (src : Nat → UInt8) (j : Nat) : UInt8 :=
  if off ≤ j ∧ j < off + len then src (j - off) else bytes j

lemma frameByte_copyInto {m : Machine} {s : VmState} {f off len : Nat}
    (hlen : off + len ≤ pageSize) (src : Nat → UInt8) (g : Nat) {j : Nat} (hj : j < pageSize) :
    m.frameByte (s.copyTo (m.pageNumToVaddr f + off) len src) g j =
      if g = f then overwrite (m.frameByte s f) off len src j else m.frameByte s g j := by
  unfold overwrite Machine.frameByte
  rw [VmState.mem_copyTo]
  rcases eq_or_ne g f with rfl | hne
  · rw [if_pos rfl]
    by_cases hin : off ≤ j ∧ j < off + len
    · rw [if_pos (by omega), if_pos hin]
      congr 1
      omega
    · rw [if_neg (by omega), if_neg hin]
  · have hapart := frame_apart (m := m) hne hj
    rw [if_neg (by omega), if_neg hne]

/-- The number of bytes of the file that go into the page at `dst`. -/
def fileBytes (h : ProgramHeader) (pos dst : Nat) : Nat :=
  if pos < h.fileSize then min (pageSize - dst % pageSize) (h.fileSize - pos) else 0

lemma fileBytes_le (h : ProgramHeader) (pos dst : Nat) :
    dst % pageSize + fileBytes h pos dst ≤ pageSize := by
  have hlt : dst % pageSize < pageSize := Nat.mod_lt _ (by decide)
  unfold fileBytes
  split
  · omega
  · omega

def loadedPage (file : Nat → UInt8) (h : ProgramHeader) (pos dst src frame : Nat) : LoadedPage where
  vaddr := pageAlign dst
  frame := frame
  bytes := overwrite (fun _ => 0) (dst % pageSize) (fileBytes h pos dst) fun k => file (src + k)

/-- The frame `f` became the page `v` of the process. -/
structure EntersPage (m : Machine) (n : Nat) (pid : Int) (v cap f : Nat) (s t : VmState) : Prop
    extends Fills m n [f] s t where
  pte : ∀ w, t.pte pid w = if getPtIndex v = getPtIndex w then .frame f else s.pte pid w
  vspace : ∀ p w, t.vspace p w =
    if (p = pid ∧ w = v) ∧ s.vspace pid v = none then some (cap, f) else s.vspace p w
  entry : t.frameTable f = { s.frameTable f with pid := pid, userVaddr := v, userCap := cap }
  page : ∀ j < pageSize, m.frameByte t f j = m.frameByte s f j

/-- The capabilities the pages of a process are mapped through are in slots that have been
handed out. -/
def SlotsBelow (s : VmState) (p : Int) : Prop :=
  ∀ v x, s.vspace p v = some x → x.1 ≤ s.nextSlot

structure CopiesPage (m : Machine) (n f off len : Nat) (src : Nat → UInt8) (s t : VmState) : Prop
    extends Fills m n [f] s t where
  pte : t.pte = s.pte
  vspace : ∀ p, SlotsBelow s p → t.vspace p = s.vspace p
  entry : t.frameTable f = s.frameTable f
  page : ∀ j < pageSize, m.frameByte t f j = overwrite (m.frameByte s f) off len src j

/-- Where SOS maps the page of an address for a moment. -/
def loaderVaddr (dst : Nat) : Nat := pageAlign ((sosElfVmem + dst) % 2 ^ 64)

lemma pte_setFrame (s : VmState) (f : Nat) (g : FrameTableEntry → FrameTableEntry) :
    (s.setFrame f g).pte = s.pte :=
  VmState.pte_procs rfl

section Steps

variable {m : Machine} {k : Nat} {pid : Int} {v cap f : Nat} {s t : VmState}

lemma mapLoadee_entersPage (hm : Obliging m) (hroom : Room m (6 + k) s)
    (hproc : s.procs pid ≠ none) (hunused : ∀ x, s.vspace pid v = some x → x.1 ≠ cap)
    (hlt : f < m.frameTableSize) (hused : s.allocated f) (h : ProgramHeader) :
    (mapLoadee m pid h v cap f s).Returns fun err t =>
      err = 0 ∧ EntersPage m 6 pid v cap f s t := by
  have hsos : (sosMapFrame m pid pid cap v (getSel4RightsFromElf h.flags) f true s).Returns
      fun res t => res = 0 ∧ ∃ err s1 u as, MapsPage m 3 pid v cap f err s s1 ∧ Builds m 3 s1 u ∧
        u.procs pid = some as ∧ as.pt.word (getPtIndex v) ≠ none ∧
        t = u.modifyTable pid fun table => table.setWord (getPtIndex v) (BitVec.ofNat 64 f) := by
    rw [sosMapFrame_eq]
    refine Res.Returns.bind (mapAttempts_mapsPage (k := 3 + k) hm _ (hroom.mono (by omega))
      hproc) ?_
    rintro _ s1 ⟨err, rfl, h1⟩
    have hroom₁ : Room m (k + 3) s1 := h1.room (hroom.mono (by omega))
    refine (pageTableInsert_builds hm.alloc hroom₁ (h1.procs _ hproc) v f).mono ?_
    rintro res t ⟨hres, u, as, hu, hrest⟩
    exact ⟨hres, err, s1, u, as, h1, hu, hrest⟩
  refine Res.Returns.bind hsos ?_
  rintro _ _ ⟨rfl, err, s1, u, as, h1, hu, has, hword, rfl⟩
  simp only [Vm.settle, bind_apply, modify_apply, Res.bind]
  refine (⟨rfl, ?_⟩ : _ ∧ EntersPage m 6 pid v cap f s _)
  have hfills := h1.toFills.trans hu.toFills
  have hlink := Fills.modifyTable hu.list [f] pid fun table =>
    table.setWord (getPtIndex v) (BitVec.ofNat 64 f)
  have hnote := Fills.note hlink.list
    (g := fun e => { e with pid := pid, userVaddr := v, userCap := cap }) (by simp) (by simp) f
  refine ⟨((hfills.mono (List.nil_subset _) le_rfl).trans hlink).trans hnote, fun w => ?_,
    fun p w => ?_, ?_, fun j hj => ?_⟩
  · rw [pte_setFrame, pte_modifyTable has, if_pos rfl, PageTable.pte_setWord hword,
      ofWord_ofNat (hlt.trans m.size_lt), ← pte_of_procs has, hu.pte, h1.pte]
    simp only [eq_comm]
  · show u.vspace p w = _
    simp only [hu.vspace, h1.vspace p w, h1.noError_iff hunused]
  · rw [← hfills.entries f (by simp) hused]
    exact Function.update_self _ _ _
  · exact hfills.bytes f (by simp) hused j hj

lemma Fills.copy (h : ∃ free, FreeList m s (fun f => ¬ s.allocated f) free) {f off len : Nat}
    (hlen : off + len ≤ pageSize) (src : Nat → UInt8) :
    Fills m 0 [f] s (s.copyTo (m.pageNumToVaddr f + off) len src) where
  entries _ _ _ := rfl
  fresh _ _ ht hs := absurd ht hs
  bytes f' hf' _ j hj := by
    rw [frameByte_copyInto hlen src f' hj, if_neg fun he => hf' (List.mem_singleton.mpr he)]
  allocated _ hf := hf
  nextSlot := le_rfl
  procs _ hp := hp
  list := h.imp fun _ hl => ⟨hl.chain, hl.nodup, hl.mem_iff, hl.count⟩
  size := le_rfl

lemma copyPage_copiesPage (hm : Obliging m) (hroom : Room m (3 + k) s)
    (hproc : s.procs pid ≠ none) (hused : s.allocated f) {dst len : Nat}
    (hlen : dst % pageSize + len ≤ pageSize) (slot : Nat) (src : Nat → UInt8) :
    (copyPage m pid dst slot f len src s).Returns fun err t =>
      (s.vspace kernelProc (loaderVaddr dst) = none → err = 0) ∧
      (err = 0 → CopiesPage m 3 f (dst % pageSize) len src s t) := by
  simp only [copyPage, cspaceAllocSlot, ask, bind_apply, get_apply, set_apply,
    pure_apply, Res.bind, hm.alloc, if_true, hm.copy]
  rw [if_neg (Nat.succ_ne_zero _)]
  simp only [bind_apply, get_apply, set_apply, pure_apply, Res.bind, ne_eq, not_true, if_false]
  have hslot : Fills m 0 [] s { s with time := s.time + 1 + 1, nextSlot := s.nextSlot + 1 } :=
    .of_same hroom.list [] rfl rfl rfl rfl (Nat.le_succ _) fun _ hp => hp
  refine Res.Returns.bind (sosMapFrame_window hm allRights
    (hslot.room (k := 3 + k) (hroom.mono (by omega))) hproc) ?_
  rintro _ s1 ⟨err, rfl, h1⟩
  by_cases herr : err = .noError
  · subst herr
    refine (⟨fun _ => rfl, fun _ => ?_⟩ : _ ∧ (_ → CopiesPage m 3 f (dst % pageSize) len src s _))
    have hfills := hslot.trans h1.toFills
    have hcopy := Fills.copy hfills.list (f := f) hlen src
    have hdelete : Fills m 0 [f] (s1.copyTo (m.pageNumToVaddr f + dst % pageSize) len src)
        ((s1.copyTo (m.pageNumToVaddr f + dst % pageSize) len src).pageUnmap (s.nextSlot + 1) f) :=
      .of_same hcopy.list [f] rfl rfl rfl rfl le_rfl fun _ hp => hp
    refine ⟨((hfills.mono (List.nil_subset _) le_rfl).trans hcopy).trans hdelete, h1.pte,
      fun p hp => ?_, hfills.entries f (by simp) hused, fun j hj => ?_⟩
    · refine h1.unmap (Nat.succ_ne_zero _) fun w x hx => ?_
      have hle := hp w x hx
      omega
    · show m.frameByte (s1.copyTo _ len src) f j = _
      rw [frameByte_copyInto hlen src f hj, if_pos rfl]
      unfold overwrite
      rw [hfills.bytes f (by simp) hused j hj]
  · have hcode : ¬ err.code = 0 := by
      cases err with
      | noError => exact absurd rfl herr
      | failedLookup | deleteFirst | other => decide
    obtain ⟨x, hx, -⟩ := h1.refused herr
    simp only [hcode, not_false_eq_true, if_true]
    refine (⟨fun hnone => ?_, fun hzero => absurd hzero hcode⟩ :
      (s.vspace kernelProc (loaderVaddr dst) = none → err.code = 0) ∧ (err.code = 0 → _))
    cases hx.symm.trans hnone

end Steps

/-! ## Pages that have been loaded -/

/-- Since `s` the page `e` got a frame that was free. -/
structure HoldsPage (m : Machine) (pid : Int) (e : LoadedPage) (s t : VmState) : Prop where
  lt : e.frame < m.frameTableSize
  free : ¬ s.allocated e.frame
  taken : t.allocated e.frame
  owner : (t.frameTable e.frame).pid = pid
  userVaddr : (t.frameTable e.frame).userVaddr = e.vaddr
  plain : (t.frameTable e.frame).important = false
  bytes : ∀ j < pageSize, m.frameByte t e.frame j = e.bytes j

/-- Since `s` the pages `l` of the process have been loaded, each into a frame of its own.  The
hardware knows the first of them at an address, the page table the last. -/
structure LoadsPages (m : Machine) (pid : Int) (n : Nat) (l : List LoadedPage) (s t : VmState) :
    Prop where
  fills : Fills m n (l.map LoadedPage.frame) s t
  nodup : (l.map LoadedPage.frame).Nodup
  page : ∀ e ∈ l, HoldsPage m pid e s t
  vspace : ∀ w, (t.vspace pid w).map Prod.snd =
    ((s.vspace pid w).map Prod.snd).or ((l.find? fun e => e.vaddr = w).map LoadedPage.frame)
  pte : ∀ w, t.pte pid w = ((l.reverse.find? fun e => getPtIndex e.vaddr = getPtIndex w).map
    fun e => Pte.frame e.frame).getD (s.pte pid w)
  others : ∀ p ≠ pid, SlotsBelow s p → t.vspace p = s.vspace p
  slots : SlotsBelow t pid

section Pages

variable {m : Machine} {n k : Nat} {pid : Int} {e : LoadedPage} {l l' : List LoadedPage}
variable {s t u : VmState}

lemma SlotsBelow.later {p : Int} (h : SlotsBelow s p) (hvspace : t.vspace p = s.vspace p)
    (hslot : s.nextSlot ≤ t.nextSlot) : SlotsBelow t p := by
  intro w x hx
  rw [hvspace] at hx
  exact (h w x hx).trans hslot

lemma LoadsPages.nil (hroom : Room m k s) (hslots : SlotsBelow s pid) :
    LoadsPages m pid 0 [] s s where
  fills := .tick hroom.list _ _
  nodup := .nil
  page := nofun
  vspace _ := Option.or_none.symm
  pte _ := rfl
  others _ _ _ := rfl
  slots := hslots

lemma LoadsPages.mono (h : LoadsPages m pid n l s t) (hn : n ≤ k) : LoadsPages m pid k l s t :=
  { h with fills := h.fills.mono (fun _ hf => hf) hn }

lemma HoldsPage.later (h : HoldsPage m pid e s t) (h' : LoadsPages m pid k l t u) :
    HoldsPage m pid e s u := by
  have hother : e.frame ∉ l.map LoadedPage.frame := by
    intro hmem
    obtain ⟨e', he', hframe⟩ := List.mem_map.mp hmem
    exact (h'.page e' he').free (hframe ▸ h.taken)
  have hentry := h'.fills.entries e.frame hother h.taken
  exact ⟨h.lt, h.free, h'.fills.allocated _ h.taken, hentry ▸ h.owner, hentry ▸ h.userVaddr,
    hentry ▸ h.plain, fun j hj => (h'.fills.bytes _ hother h.taken j hj).trans (h.bytes j hj)⟩

lemma LoadsPages.trans (h : LoadsPages m pid n l s t) (h' : LoadsPages m pid k l' t u) :
    LoadsPages m pid (n + k) (l ++ l') s u where
  fills := by
    rw [List.map_append]
    exact (h.fills.mono (List.subset_append_left _ _) le_rfl).trans
      (h'.fills.mono (List.subset_append_right _ _) le_rfl)
  nodup := by
    rw [List.map_append, List.nodup_append]
    refine ⟨h.nodup, h'.nodup, ?_⟩
    rintro _ hf _ hf' rfl
    obtain ⟨e, he, rfl⟩ := List.mem_map.mp hf
    obtain ⟨e', he', hframe⟩ := List.mem_map.mp hf'
    exact (h'.page e' he').free (hframe ▸ (h.page e he).taken)
  page e he := by
    rcases List.mem_append.mp he with he | he
    · exact (h.page e he).later h'
    · have hp := h'.page e he
      exact { hp with free := fun hs => hp.free (h.fills.allocated _ hs) }
  vspace w := by
    rw [h'.vspace, h.vspace, List.find?_append, Option.map_or, Option.or_assoc]
  pte w := by
    rw [h'.pte, h.pte, List.reverse_append, List.find?_append]
    cases l'.reverse.find? fun e => getPtIndex e.vaddr = getPtIndex w <;> rfl
  others p hp hs := by
    have ht := h.others p hp hs
    exact (h'.others p hp (hs.later ht h.fills.nextSlot)).trans ht
  slots := h'.slots

lemma loadPage_loadsPages (hm : Obliging m) (hpid : pid ≠ kernelProc)
    (hroom : Room m (10 + k) s) (hproc : s.procs pid ≠ none) (hslots : SlotsBelow s pid)
    (file : Nat → UInt8) (h : ProgramHeader) (pos dst src : Nat) :
    (loadPage m pid file h pos dst src s).Returns fun err t =>
      (s.vspace kernelProc (loaderVaddr dst) = none → err = 0) ∧
      (err = 0 → ∃ f, LoadsPages m pid 10 [loadedPage file h pos dst src f] s t) := by
  refine Res.Returns.bind (frameAllocWith_fromFree hm.alloc
    (hroom.mono (by omega : 0 + 1 ≤ 10 + k)) false) ?_
  rintro ⟨f, kvaddr⟩ s1 h1
  simp only [cspaceAllocSlot, ask, bind_apply, get_apply, set_apply,
    pure_apply, Res.bind, hm.alloc, if_true, hm.copy]
  rw [if_neg (Nat.succ_ne_zero _)]
  simp only [bind_apply, get_apply, set_apply, pure_apply, Res.bind, ne_eq, not_true, if_false]
  have hslot : Fills m 0 [f] s1 { s1 with time := s1.time + 1 + 1, nextSlot := s1.nextSlot + 1 } :=
    .of_same h1.list [f] rfl rfl rfl rfl (Nat.le_succ _) fun _ hp => hp
  have hfills₁ := h1.toFills.trans hslot
  have hunused : ∀ x, s1.vspace pid (pageAlign dst) = some x → x.1 ≠ s1.nextSlot + 1 := by
    intro x hx
    have hle := hslots.later (congrFun h1.vspace pid) h1.nextSlot _ x hx
    omega
  refine Res.Returns.bind (mapLoadee_entersPage (k := 3 + k) hm
    (hfills₁.room (hroom.mono (by omega))) (h1.procs _ hproc) hunused h1.lt h1.taken h) ?_
  rintro _ s2 ⟨rfl, h2⟩
  have hfills : Fills m 7 [f] s s2 := hfills₁.trans h2.toFills
  have hvspace : ∀ p w, s2.vspace p w = if (p = pid ∧ w = pageAlign dst) ∧
      s.vspace pid (pageAlign dst) = none then some (s1.nextSlot + 1, f) else s.vspace p w := by
    intro p w
    rw [h2.vspace]
    show ite (_ ∧ s1.vspace pid _ = none) _ (s1.vspace p w) = _
    rw [h1.vspace]
  have hother : ∀ p ≠ pid, s2.vspace p = s.vspace p :=
    fun p hp => funext fun w => (hvspace p w).trans (if_neg fun hw => hp hw.1.1)
  have hslots₂ : SlotsBelow s2 pid := by
    intro w x hx
    rw [hvspace] at hx
    split at hx
    · exact Option.some.inj hx ▸ h2.nextSlot
    · exact (hslots w x hx).trans hfills.nextSlot
  simp only [not_true, if_false]
  refine (copyPage_copiesPage (k := k) hm (hfills.room (hroom.mono (by omega)))
    (hfills.procs _ hproc) (h2.allocated _ h1.taken) (fileBytes_le h pos dst) _
    fun i => file (src + i)).mono ?_
  rintro err t ⟨hwindow, hzero⟩
  refine ⟨fun hnone => hwindow ?_, fun herr => ⟨f, ?_⟩⟩
  · rwa [hother _ hpid.symm]
  have h3 := hzero herr
  have hentry := h3.entry.trans h2.entry
  refine ⟨hfills.trans h3.toFills, List.nodup_singleton _, ?_, fun w => ?_, fun w => ?_,
    fun p hp hs => ?_, hslots₂.later (h3.vspace pid hslots₂) h3.nextSlot⟩
  · refine List.forall_mem_singleton.mpr ⟨h1.lt, h1.free, h3.allocated _ (h2.allocated _ h1.taken),
      congrArg FrameTableEntry.pid hentry, congrArg FrameTableEntry.userVaddr hentry,
      (congrArg FrameTableEntry.important hentry).trans h1.important, fun j hj => ?_⟩
    refine (h3.page j hj).trans ?_
    have hbyte : m.frameByte s2 f j = 0 := (h2.page j hj).trans (h1.zero j hj)
    simp only [overwrite, loadedPage, hbyte]
  · rw [h3.vspace pid hslots₂, hvspace]
    by_cases hw : w = pageAlign dst
    · subst hw
      cases hv : s.vspace pid (pageAlign dst) with
      | none => simp [loadedPage]
      | some x => simp
    · rw [if_neg fun h => hw h.1.2]
      simp [loadedPage, Ne.symm hw]
  · rw [h3.pte, h2.pte]
    show ite _ _ (s1.pte pid w) = _
    rw [h1.pte]
    by_cases hw : getPtIndex (pageAlign dst) = getPtIndex w
    · simp [loadedPage, hw]
    · simp [loadedPage, hw]
  · rw [h3.vspace p (hs.later (hother p hp) hfills.nextSlot), hother p hp]

end Pages

/-! ## The loop -/

def ProgramHeader.addr (h : ProgramHeader) (i : Nat) : Nat := (h.vaddr + i) % 2 ^ 64

def ProgramHeader.MeetsPage (h : ProgramHeader) (v : Nat) : Prop :=
  ∃ i < h.memorySize, v = pageAlign (h.addr i)

/-- The pages `l` are those the segment meets from byte `pos` on, with the bytes of the file
in their places and zeros elsewhere. -/
structure Spans (file : Nat → UInt8) (h : ProgramHeader) (pos : Nat) (l : List LoadedPage) :
    Prop where
  page : ∀ e ∈ l, ∃ i, pos ≤ i ∧ i < h.memorySize ∧ e.vaddr = pageAlign (h.addr i)
  every : ∀ i, pos ≤ i → i < h.memorySize → ∃ e ∈ l, e.vaddr = pageAlign (h.addr i)
  source : ∀ e ∈ l, ∀ i, pos ≤ i → i < h.fileSize → e.vaddr = pageAlign (h.addr i) →
    e.bytes (h.addr i % pageSize) = file (h.offset + i)
  zero : ∀ e ∈ l, ∀ j < pageSize, (∀ i, pos ≤ i → i < h.fileSize → h.addr i ≠ e.vaddr + j) →
    e.bytes j = 0
  once : l.Pairwise fun e e' => getPtIndex e'.vaddr ≠ getPtIndex e.vaddr

section Loop

variable {m : Machine} {n k : Nat} {pid : Int} {l : List LoadedPage} {s t : VmState}
variable {file : Nat → UInt8} {h : ProgramHeader} {pos i : Nat}

/-- The byte behind the page of a byte. -/
def ProgramHeader.nextPage (h : ProgramHeader) (pos : Nat) : Nat :=
  pos + (pageSize - h.addr pos % pageSize)

lemma ProgramHeader.samePage (hpos : pos ≤ i) (hi : i < h.nextPage pos) :
    pageAlign (h.addr i) = pageAlign (h.addr pos) ∧
      h.addr i % pageSize = h.addr pos % pageSize + (i - pos) := by
  unfold nextPage addr pageSize at hi
  unfold pageAlign addr pageSize
  omega

lemma ProgramHeader.otherPage (hi : h.nextPage pos ≤ i) (hsmall : i < pos + 2 ^ 32) :
    getPtIndex (pageAlign (h.addr i)) ≠ getPtIndex (pageAlign (h.addr pos)) := by
  rw [Ne, getPtIndex_eq_iff_mod]
  unfold nextPage addr pageSize at hi
  unfold pageAlign addr pageSize
  omega

lemma ProgramHeader.lt_nextPage (h : ProgramHeader) (pos : Nat) : pos < h.nextPage pos := by
  have hoff : h.addr pos % pageSize < pageSize := Nat.mod_lt _ (by decide)
  unfold nextPage
  omega

lemma bytes_loadedPage (f j : Nat) :
    (loadedPage file h pos (h.addr pos) (h.offset + pos) f).bytes j =
      if h.addr pos % pageSize ≤ j ∧ j < pageSize ∧ pos + (j - h.addr pos % pageSize) < h.fileSize
      then file (h.offset + (pos + (j - h.addr pos % pageSize))) else 0 := by
  have hoff : h.addr pos % pageSize < pageSize := Nat.mod_lt _ (by decide)
  simp only [loadedPage, overwrite, fileBytes, Nat.add_assoc]
  congr 1
  apply propext
  split
  · omega
  · omega

lemma Spans.cons (hpos : pos < h.memorySize) (hfile : h.fileSize ≤ h.memorySize)
    (hsize : h.memorySize ≤ 2 ^ 32) (hl : Spans file h (h.nextPage pos) l) (f : Nat) :
    Spans file h pos (loadedPage file h pos (h.addr pos) (h.offset + pos) f :: l) where
  page e he := by
    rcases List.mem_cons.mp he with rfl | he
    · exact ⟨pos, le_rfl, hpos, rfl⟩
    · obtain ⟨i, hi, hlt, hv⟩ := hl.page e he
      exact ⟨i, (h.lt_nextPage pos).le.trans hi, hlt, hv⟩
  every i hi hlt := by
    by_cases hin : i < h.nextPage pos
    · exact ⟨_, List.mem_cons_self, (h.samePage hi hin).1.symm⟩
    · obtain ⟨e, he, hv⟩ := hl.every i (Nat.le_of_not_lt hin) hlt
      exact ⟨e, List.mem_cons_of_mem _ he, hv⟩
  source e he i hi hlt hv := by
    rcases List.mem_cons.mp he with rfl | he
    · have hin : i < h.nextPage pos := by
        by_contra hout
        exact h.otherPage (Nat.le_of_not_lt hout) (by omega) (congrArg getPtIndex hv.symm)
      obtain ⟨-, hoff⟩ := h.samePage hi hin
      have hj : h.addr i % pageSize < pageSize := Nat.mod_lt _ (by decide)
      rw [bytes_loadedPage, if_pos (by omega), hoff]
      congr 2
      omega
    · refine hl.source e he i (Nat.le_of_not_lt fun hin => ?_) hlt hv
      obtain ⟨i', hi', hlt', hv'⟩ := hl.page e he
      rw [hv', (h.samePage hi hin).1] at hv
      exact h.otherPage hi' (by omega) (congrArg getPtIndex hv)
  zero e he j hj hno := by
    rcases List.mem_cons.mp he with rfl | he
    · rw [bytes_loadedPage, if_neg]
      rintro ⟨hle, -, hlt⟩
      refine hno _ (Nat.le_add_right _ _) hlt ?_
      obtain ⟨hpage, hoff⟩ := h.samePage (i := pos + (j - h.addr pos % pageSize))
        (Nat.le_add_right _ _) (by unfold ProgramHeader.nextPage; omega)
      have hsplit := Nat.div_add_mod' (h.addr (pos + (j - h.addr pos % pageSize))) pageSize
      rw [← hsplit, hoff]
      show pageAlign _ + _ = pageAlign (h.addr pos) + j
      rw [hpage]
      omega
    · exact hl.zero e he j hj fun i hi hlt => hno i ((h.lt_nextPage pos).le.trans hi) hlt
  once := by
    refine List.pairwise_cons.mpr ⟨fun e he => ?_, hl.once⟩
    obtain ⟨i, hi, hlt, hv⟩ := hl.page e he
    rw [hv]
    exact h.otherPage hi (by omega)

lemma Spans.end (hpos : ¬ pos < h.memorySize) : Spans file h pos [] where
  page := nofun
  every _ hi hlt := absurd (lt_of_le_of_lt hi hlt) hpos
  source := nofun
  zero := nofun
  once := .nil

lemma Spans.apart (hl : Spans file h pos l) : l.Pairwise fun e e' => e.vaddr ≠ e'.vaddr :=
  hl.once.imp fun hne heq => hne (congrArg getPtIndex heq.symm)

/-- The counter does not wrap around before the end of the segment. -/
def ProgramHeader.Counted (h : ProgramHeader) : Prop :=
  ∃ p < 2 ^ 32, h.memorySize ≤ p ∧ (h.vaddr + p) % pageSize = 0

lemma loadLoop_loadsPages (hm : Obliging m) (hpid : pid ≠ kernelProc)
    (hfile : h.fileSize ≤ h.memorySize) (hcounted : h.Counted)
    (hturns : h.memorySize + h.addr pos % pageSize ≤ pos + n * pageSize)
    (hroom : Room m (10 * n + k) s) (hproc : s.procs pid ≠ none) (hslots : SlotsBelow s pid) :
    (loadLoop m pid file h n pos (h.addr pos) (h.offset + pos) s).Returns fun err t =>
      (SlotsBelow s kernelProc →
        (∀ i < h.memorySize, s.vspace kernelProc (loaderVaddr (h.addr i)) = none) → err = 0) ∧
      (err = 0 → ∃ l, LoadsPages m pid (10 * n) l s t ∧ Spans file h pos l) := by
  obtain ⟨last, hlast, hle, hpage⟩ := id hcounted
  induction n generalizing pos s with
  | zero =>
    have hend : ¬ pos < h.memorySize := by omega
    unfold loadLoop
    rw [if_neg hend]
    exact ⟨fun _ _ => rfl, fun _ => ⟨[], .nil hroom hslots, .end hend⟩⟩
  | succ n ih =>
    unfold loadLoop
    by_cases hpos : pos < h.memorySize
    · rw [if_pos hpos]
      refine Res.Returns.bind (loadPage_loadsPages (k := 10 * n + k) hm hpid
        (hroom.mono (by omega)) hproc hslots file h pos _ (h.offset + pos)) ?_
      rintro err s1 ⟨hwindow, hzero⟩
      by_cases herr : err = 0
      · obtain ⟨f, h1⟩ := hzero herr
        have hoff : h.addr pos % pageSize < pageSize := Nat.mod_lt _ (by decide)
        have hcount : (pos + (pageSize - h.addr pos % pageSize)) % 2 ^ 32 = h.nextPage pos := by
          refine Nat.mod_eq_of_lt ?_
          unfold ProgramHeader.addr pageSize at *
          omega
        have hdst : (h.addr pos + (pageSize - h.addr pos % pageSize)) % 2 ^ 64 =
            h.addr (h.nextPage pos) := by
          unfold ProgramHeader.nextPage ProgramHeader.addr
          omega
        have hsrc : h.offset + pos + (pageSize - h.addr pos % pageSize) =
            h.offset + h.nextPage pos := Nat.add_assoc _ _ _
        simp only [herr, ne_eq, not_true, if_false, hcount, hdst, hsrc]
        refine (ih ?_ (h1.fills.room (hroom.mono (by omega))) (h1.fills.procs _ hproc)
          h1.slots).mono ?_
        · unfold ProgramHeader.addr pageSize at hturns
          unfold ProgramHeader.nextPage ProgramHeader.addr pageSize
          omega
        · rintro err' t ⟨hwindow', hzero'⟩
          refine ⟨fun hs hnone => ?_, fun herr' => ?_⟩
          · have hsame := h1.others _ hpid.symm hs
            refine hwindow' (hs.later hsame h1.fills.nextSlot) fun i hi => ?_
            rw [hsame]
            exact hnone i hi
          · obtain ⟨l, hl, hspans⟩ := hzero' herr'
            exact ⟨_ :: l, (h1.trans hl).mono (by omega), hspans.cons hpos hfile (by omega) f⟩
      · simp only [herr, ne_eq, not_false_eq_true, if_true]
        exact ⟨fun _ hnone => absurd (hwindow (hnone pos hpos)) herr, fun h0 => absurd h0 herr⟩
    · rw [if_neg hpos]
      exact ⟨fun _ _ => rfl, fun _ => ⟨[], (LoadsPages.nil hroom hslots).mono (by omega),
        .end hpos⟩⟩

lemma loadLoop_segment (hm : Obliging m) (hpid : pid ≠ kernelProc) (hvaddr : h.vaddr < 2 ^ 64)
    (hfile : h.fileSize ≤ h.memorySize) (hcounted : h.Counted)
    (hroom : Room m (10 * (h.memorySize / pageSize + 2) + k) s) (hproc : s.procs pid ≠ none)
    (hslots : SlotsBelow s pid) :
    (loadLoop m pid file h (h.memorySize / pageSize + 2) 0 h.vaddr h.offset s).Returns fun err t =>
      (SlotsBelow s kernelProc →
        (∀ i < h.memorySize, s.vspace kernelProc (loaderVaddr (h.addr i)) = none) → err = 0) ∧
      (err = 0 → ∃ l, LoadsPages m pid (10 * (h.memorySize / pageSize + 2)) l s t ∧
        Spans file h 0 l) := by
  have hfirst : h.addr 0 = h.vaddr := Nat.mod_eq_of_lt hvaddr
  have hturns : h.memorySize + h.addr 0 % pageSize ≤
      0 + (h.memorySize / pageSize + 2) * pageSize := by
    unfold pageSize
    omega
  rw [← hfirst]
  exact loadLoop_loadsPages hm hpid hfile hcounted hturns hroom hproc hslots

end Loop

lemma find?_of_pairwise {α β : Type} [DecidableEq β] {key : α → β} {l : List α}
    (h : l.Pairwise fun e e' => key e ≠ key e') {e : α} (he : e ∈ l) :
    l.find? (fun x => key x = key e) = some e := by
  induction l with
  | nil => cases he
  | cons a l ih =>
    obtain ⟨ha, hl⟩ := List.pairwise_cons.mp h
    rcases List.mem_cons.mp he with rfl | he
    · simp
    · rw [List.find?_cons_of_neg (by simpa using ha e he), ih hl he]

end SpaghettiOS.Vm
