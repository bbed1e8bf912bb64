import Mathlib.Data.List.Find
import SpaghettiOS.VM.LoadPages

/-!
# The image of a program

What the pages of a process hold when `elf_load` has returned zero.  The hardware keeps
the first frame mapped at an address and the page table the last, so the image is
faithful exactly when no two segments have a page in common.

The frames are assumed to suffice, and seL4 to map a page that is not mapped once the
paging structures are there.
-/

namespace SpaghettiOS.Vm

open Coroutine (Res Exec)

/-! ## Segments -/

/-- The pages `l` hold a whole segment, one page at each address. -/
structure SegmentIn (file : Nat → UInt8) (h : ProgramHeader) (l : List LoadedPage) : Prop where
  byte : ∀ k < h.memorySize, ∃ e ∈ l, e.vaddr = pageAlign (h.vaddr + k) ∧
    e.bytes ((h.vaddr + k) % pageSize) = if k < h.fileSize then file (h.offset + k) else 0
  page : ∀ e ∈ l, ∃ k < h.memorySize, e.vaddr = pageAlign (h.vaddr + k)
  once : l.Pairwise fun e e' => e.vaddr ≠ e'.vaddr
  size : h.fileSize ≤ h.memorySize

section Segments

variable {m : Machine} {pid : Int} {n k : Nat} {l : List LoadedPage}
variable {s t : VmState} {file : Nat → UInt8} {h : ProgramHeader}

lemma Spans.segmentIn (hl : Spans file h 0 l) (h48 : h.vaddr + h.memorySize ≤ 2 ^ 48)
    (hsize : h.fileSize ≤ h.memorySize) : SegmentIn file h l := by
  have haddr : ∀ i < h.memorySize, h.addr i = h.vaddr + i :=
    fun i hi => Nat.mod_eq_of_lt (by omega)
  refine ⟨fun k hk => ?_, fun e he => ?_, hl.apart, hsize⟩
  · obtain ⟨e, he, hv⟩ := hl.every k (Nat.zero_le k) hk
    refine ⟨e, he, haddr k hk ▸ hv, ?_⟩
    rw [← haddr k hk]
    split
    · rename_i hfile
      exact hl.source e he k (Nat.zero_le k) hfile hv
    · rename_i hfile
      refine hl.zero e he _ (Nat.mod_lt _ (by decide)) fun i _ hi heq => hfile ?_
      have hsplit := Nat.div_add_mod' (h.addr k) pageSize
      rw [hv, pageAlign, hsplit, haddr k hk, haddr i (by omega)] at heq
      omega
  · obtain ⟨k, -, hk, hv⟩ := hl.page e he
    exact ⟨k, hk, haddr k hk ▸ hv⟩

lemma loadLoop_uncounted (hcounted : ¬ h.Counted) {pos dst src : Nat}
    (hdst : dst % pageSize = (h.vaddr + pos) % pageSize) (hpos : pos < h.memorySize) :
    (loadLoop m pid file h n pos dst src s).Ends (Served pid) fun err _ => err ≠ 0 := by
  induction n generalizing pos dst src s with
  | zero =>
    unfold loadLoop
    rw [if_pos hpos]
    trivial
  | succ n ih =>
    unfold loadLoop
    rw [if_pos hpos]
    refine Res.Ends.after fun err s1 => ?_
    split
    · rename_i herr
      exact herr
    · refine ih ?_ ?_
      · unfold pageSize at hdst ⊢
        omega
      · by_contra hend
        refine hcounted ⟨_, Nat.mod_lt _ (by decide), Nat.le_of_not_lt hend, ?_⟩
        unfold pageSize at hdst ⊢
        omega

lemma LoadsPages.setRegions (hl : LoadsPages m pid n l s t) (g : List Region → List Region) :
    LoadsPages m pid n l s (t.setRegions pid g) := by
  have hproc : ∀ p, t.procs p ≠ none → (t.setRegions pid g).procs p ≠ none := by
    intro p hp
    rcases eq_or_ne p pid with rfl | hne
    · simpa [VmState.setRegions] using hp
    · simpa [VmState.setRegions, hne] using hp
  have hsame : Fills m 0 (l.map LoadedPage.frame) t (t.setRegions pid g) :=
    .of_same hl.fills.list _ rfl rfl rfl rfl le_rfl hproc
  refine { hl with
    fills := hl.fills.trans hsame
    page := fun e he => { hl.page e he with }
    pte := fun w => ?_ }
  rw [← hl.pte w]
  cases hp : t.procs pid with
  | none => simp [VmState.pte, VmState.setRegions, hp]
  | some as => simp [VmState.pte, VmState.setRegions, hp]

def frameBudget (segments : List ProgramHeader) : Nat :=
  (segments.map fun h => 10 * (h.memorySize / pageSize + 2)).sum

def loadable (headers : List ProgramHeader) : List ProgramHeader :=
  headers.filter fun h => h.type = ptLoad

lemma loadSegment_loadsPages (hm : Obliging m) (hpid : pid ≠ kernelProc)
    (h48 : h.vaddr + h.memorySize ≤ 2 ^ 48)
    (hroom : Room m (10 * (h.memorySize / pageSize + 2) + k) s) (hproc : s.procs pid ≠ none)
    (hslots : SlotsBelow s pid) :
    (loadSegment m pid file h s).Ends (Served pid) fun err t => err = 0 →
      ∃ l, LoadsPages m pid (10 * (h.memorySize / pageSize + 2)) l s t ∧ SegmentIn file h l := by
  have hloop : (loadSegmentIntoVspace m pid file h s).Ends (Served pid) fun err t => err = 0 →
      ∃ l, LoadsPages m pid (10 * (h.memorySize / pageSize + 2)) l s t ∧ SegmentIn file h l := by
    refine Res.Ends.check_bind fun hsize => ?_
    by_cases hcounted : h.Counted
    · refine (loadLoop_segment hm hpid (by omega) hsize hcounted hroom hproc hslots).ends.mono ?_
      rintro err t ⟨-, hzero⟩ herr
      obtain ⟨l, hl, hspans⟩ := hzero herr
      exact ⟨l, hl, hspans.segmentIn h48 hsize⟩
    · refine (loadLoop_uncounted hcounted rfl ?_).mono fun err t hne hzero => absurd hzero hne
      by_contra hempty
      refine hcounted ⟨(pageSize - h.vaddr % pageSize) % pageSize, ?_, by omega, ?_⟩
      · unfold pageSize
        omega
      · unfold pageSize
        omega
  refine Res.Ends.bind hloop fun err s1 h1 => ?_
  split
  · exact fun hzero => absurd hzero (by decide)
  · rename_i herr
    obtain ⟨l, hl, hcover⟩ := h1 (of_not_not herr)
    simp only [Coro.bind_apply, Coro.modify_apply, Coro.pure_apply, Res.bind]
    exact fun _ => ⟨l, hl.setRegions _, hcover⟩

lemma loadSegments_loadsPages (hm : Obliging m) (hpid : pid ≠ kernelProc)
    {headers : List ProgramHeader} (h48 : ∀ h ∈ loadable headers, h.vaddr + h.memorySize ≤ 2 ^ 48)
    (hroom : Room m (frameBudget (loadable headers)) s) (hproc : s.procs pid ≠ none)
    (hslots : SlotsBelow s pid) :
    (loadSegments m pid file headers s).Ends (Served pid) fun err t => err = 0 →
      ∃ ls : List (List LoadedPage),
        LoadsPages m pid (frameBudget (loadable headers)) ls.flatten s t ∧
        List.Forall₂ (SegmentIn file) (loadable headers) ls := by
  induction headers generalizing s with
  | nil => exact fun _ => ⟨[], .nil hroom hslots, .nil⟩
  | cons h headers ih =>
    unfold loadSegments
    split
    · rename_i htype
      have hskip : loadable (h :: headers) = loadable headers := by simp [loadable, htype]
      rw [hskip] at h48 hroom ⊢
      exact ih h48 hroom hproc hslots
    · rename_i htype
      have hload : loadable (h :: headers) = h :: loadable headers := by
        simp [loadable, of_not_not htype]
      have hbudget : frameBudget (h :: loadable headers) =
          10 * (h.memorySize / pageSize + 2) + frameBudget (loadable headers) := by
        simp [frameBudget]
      rw [hload] at h48 hroom ⊢
      rw [hbudget] at hroom ⊢
      refine Res.Ends.bind (loadSegment_loadsPages hm hpid (h48 h List.mem_cons_self) hroom hproc
        hslots) fun err s1 h1 => ?_
      split
      · exact fun hzero => absurd hzero (by decide)
      · rename_i herr
        obtain ⟨l, hl, hcover⟩ := h1 (of_not_not herr)
        refine (ih (fun h' hh' => h48 h' (List.mem_cons_of_mem _ hh')) (hl.fills.room hroom)
          (hl.fills.procs _ hproc) hl.slots).mono ?_
        intro err' t ht hzero
        obtain ⟨ls, hls, hall⟩ := ht hzero
        exact ⟨l :: ls, hl.trans hls, .cons hcover hall⟩

end Segments

/-! ## The image -/

def userByte (m : Machine) (s : VmState) (pid : Int) (vaddr : Nat) : Option UInt8 :=
  (s.vspace pid (pageAlign vaddr)).map fun x => m.frameByte s x.2 (vaddr % pageSize)

/-- The process finds the file's bytes and zeros behind them, and the page table names
the frames that are mapped. -/
structure HoldsImage (m : Machine) (pid : Int) (f : ElfFile) (s : VmState) : Prop where
  file : ∀ h ∈ loadable f.headers, ∀ k < h.fileSize,
    userByte m s pid (h.vaddr + k) = some (f.byte (h.offset + k))
  zero : ∀ h ∈ loadable f.headers, ∀ k, h.fileSize ≤ k → k < h.memorySize →
    userByte m s pid (h.vaddr + k) = some 0
  entry : ∀ h ∈ loadable f.headers, ∀ k < h.memorySize, ∃ cap page,
    s.vspace pid (pageAlign (h.vaddr + k)) = some (cap, page) ∧
      s.pte pid (pageAlign (h.vaddr + k)) = .frame page

def PagesApart (h h' : ProgramHeader) : Prop :=
  ∀ k < h.memorySize, ∀ k' < h'.memorySize, pageAlign (h.vaddr + k) ≠ pageAlign (h'.vaddr + k')

variable {segments : List ProgramHeader}

section Image

variable {m : Machine} {pid : Int} {n : Nat} {l : List LoadedPage} {s t : VmState}

lemma pairwise_of_first_eq_last (hnodup : (l.map LoadedPage.frame).Nodup)
    (hsame : ∀ v e e', l.find? (fun e => e.vaddr = v) = some e →
      l.reverse.find? (fun e => e.vaddr = v) = some e' → e.frame = e'.frame) :
    l.Pairwise fun e e' => e.vaddr ≠ e'.vaddr := by
  induction l with
  | nil => exact .nil
  | cons a l ih =>
    rw [List.map_cons, List.nodup_cons] at hnodup
    have hapart : ∀ b ∈ l, a.vaddr ≠ b.vaddr := by
      intro b hb heq
      obtain ⟨c, hc⟩ : ∃ c, l.reverse.find? (fun e => e.vaddr = a.vaddr) = some c :=
        Option.isSome_iff_exists.mp (List.find?_isSome.mpr
          ⟨b, List.mem_reverse.mpr hb, by simpa using heq.symm⟩)
      have hframe := hsame a.vaddr a c (by simp) (by
        rw [List.reverse_cons, List.find?_append, hc]
        rfl)
      have hmem := List.mem_reverse.mp (List.mem_of_find?_eq_some hc)
      exact hnodup.1 (hframe ▸ List.mem_map_of_mem hmem)
    refine List.pairwise_cons.mpr ⟨hapart, ih hnodup.2 fun v e e' he he' => ?_⟩
    have hv : a.vaddr ≠ v := by
      have hvaddr : e.vaddr = v := by simpa using List.find?_some he
      exact hvaddr ▸ hapart e (List.mem_of_find?_eq_some he)
    refine hsame v e e' ?_ ?_
    · rw [List.find?_cons_of_neg (by simpa using hv), he]
    · rw [List.reverse_cons, List.find?_append, he']
      rfl

lemma LoadsPages.first (h : LoadsPages m pid n l s t) (hfresh : ∀ v, s.vspace pid v = none)
    (v : Nat) :
    (t.vspace pid v).map Prod.snd = (l.find? fun e => e.vaddr = v).map LoadedPage.frame := by
  rw [h.vspace, hfresh]
  rfl

lemma LoadsPages.last (h : LoadsPages m pid n l s t) (hl : ∀ e ∈ l, PageAddr e.vaddr) {v : Nat}
    (hv : PageAddr v) {e : LoadedPage} (he : l.reverse.find? (fun e => e.vaddr = v) = some e) :
    t.pte pid v = .frame e.frame := by
  have hkey : l.reverse.find? (fun e => getPtIndex e.vaddr = getPtIndex v) =
      l.reverse.find? fun e => e.vaddr = v := by
    refine List.find?_congr fun e he => decide_eq_decide.mpr ⟨fun heq => ?_, congrArg getPtIndex⟩
    exact getPtIndex_inj (hl e (List.mem_reverse.mp he)) hv heq
  rw [h.pte, hkey, he]
  rfl

lemma pairwise_pages_iff {file : Nat → UInt8} {ls : List (List LoadedPage)}
    (h : List.Forall₂ (SegmentIn file) segments ls) :
    ls.flatten.Pairwise (fun e e' => e.vaddr ≠ e'.vaddr) ↔ segments.Pairwise PagesApart := by
  induction h with
  | nil => simp
  | @cons hd l segments ls hcover hrest ih =>
    rw [List.flatten_cons, List.pairwise_append, List.pairwise_cons, ih]
    have hfirst : (∀ e ∈ l, ∀ e' ∈ ls.flatten, e.vaddr ≠ e'.vaddr) ↔
        ∀ hd' ∈ segments, PagesApart hd hd' := by
      clear ih
      induction hrest with
      | nil => simp
      | @cons hd' l' segments ls hcover' hrest ih =>
        rw [List.forall_mem_cons, ← ih, List.flatten_cons]
        have hpair : (∀ e ∈ l, ∀ e' ∈ l', e.vaddr ≠ e'.vaddr) ↔ PagesApart hd hd' := by
          constructor
          · intro hne k hk k' hk'
            obtain ⟨e, he, hv, -⟩ := hcover.byte k hk
            obtain ⟨e', he', hv', -⟩ := hcover'.byte k' hk'
            rw [← hv, ← hv']
            exact hne e he e' he'
          · intro hapart e he e' he'
            obtain ⟨k, hk, hv⟩ := hcover.page e he
            obtain ⟨k', hk', hv'⟩ := hcover'.page e' he'
            rw [hv, hv']
            exact hapart k hk k' hk'
        rw [← hpair]
        simp only [List.mem_append, or_imp, forall_and]
    rw [← hfirst]
    exact ⟨fun ⟨_, hrest, hcross⟩ => ⟨hcross, hrest⟩, fun ⟨hcross, hrest⟩ =>
      ⟨hcover.once, hrest, hcross⟩⟩

lemma exists_segment {file : Nat → UInt8} {ls : List (List LoadedPage)}
    (h : List.Forall₂ (SegmentIn file) segments ls) {l : List LoadedPage} (hl : l ∈ ls) :
    ∃ hd ∈ segments, SegmentIn file hd l := by
  induction h with
  | nil => cases hl
  | cons hc _ ih =>
    rcases List.mem_cons.mp hl with rfl | hl
    · exact ⟨_, List.mem_cons_self, hc⟩
    · obtain ⟨hd, hmem, hd'⟩ := ih hl
      exact ⟨hd, List.mem_cons_of_mem _ hmem, hd'⟩

lemma exists_pages {file : Nat → UInt8} {ls : List (List LoadedPage)}
    (h : List.Forall₂ (SegmentIn file) segments ls) {hd : ProgramHeader} (hmem : hd ∈ segments) :
    ∃ l ∈ ls, SegmentIn file hd l := by
  induction h with
  | nil => cases hmem
  | cons hc _ ih =>
    rcases List.mem_cons.mp hmem with rfl | hmem
    · exact ⟨_, List.mem_cons_self, hc⟩
    · obtain ⟨l, hl, hd'⟩ := ih hmem
      exact ⟨l, List.mem_cons_of_mem _ hl, hd'⟩

lemma pageAddr_of_segments {file : Nat → UInt8} {ls : List (List LoadedPage)}
    (h : List.Forall₂ (SegmentIn file) segments ls)
    (h48 : ∀ h ∈ segments, h.vaddr + h.memorySize ≤ 2 ^ 48) :
    ∀ e ∈ ls.flatten, PageAddr e.vaddr := by
  intro e he
  obtain ⟨l, hl, he⟩ := List.mem_flatten.mp he
  obtain ⟨hd, hh, hc⟩ := exists_segment h hl
  obtain ⟨k, hk, hv⟩ := hc.page e he
  have hle := h48 hd hh
  rw [hv]
  unfold PageAddr pageAlign pageSize
  omega

section Loaded

variable {f : ElfFile} {ls : List (List LoadedPage)} (hl : LoadsPages m pid n ls.flatten s t)
  (hfresh : ∀ v, s.vspace pid v = none)
  (hcover : List.Forall₂ (SegmentIn f.byte) (loadable f.headers) ls)
  (h48 : ∀ h ∈ loadable f.headers, h.vaddr + h.memorySize ≤ 2 ^ 48)
include hl hfresh hcover h48

lemma HoldsImage.pairwise (hf : HoldsImage m pid f t) :
    ls.flatten.Pairwise fun e e' => e.vaddr ≠ e'.vaddr := by
  refine pairwise_of_first_eq_last hl.nodup fun v e e' he he' => ?_
  have hmem := List.mem_of_find?_eq_some he
  have hpages := pageAddr_of_segments hcover h48
  obtain ⟨l', hl', hmem'⟩ := List.mem_flatten.mp hmem
  obtain ⟨h, hh, hc⟩ := exists_segment hcover hl'
  obtain ⟨k, hk, hv⟩ := hc.page e hmem'
  obtain rfl : e.vaddr = v := by simpa using List.find?_some he
  obtain ⟨cap, page, hmap, hpte⟩ := hf.entry h hh k hk
  rw [← hv] at hmap hpte
  have h1 := hl.first hfresh e.vaddr
  rw [hmap, he] at h1
  rw [hl.last hpages (hpages e hmem) he'] at hpte
  have h1' : page = e.frame := Option.some.inj h1
  have h2' : e'.frame = page := Pte.frame.inj hpte
  rw [h2', h1']

lemma faithful_of_pairwise (hpages : ls.flatten.Pairwise fun e e' => e.vaddr ≠ e'.vaddr) :
    HoldsImage m pid f t := by
  have hreverse : ls.flatten.reverse.Pairwise fun e e' => e.vaddr ≠ e'.vaddr :=
    List.pairwise_reverse.mpr (hpages.imp Ne.symm)
  have haddr := pageAddr_of_segments hcover h48
  have hat : ∀ h ∈ loadable f.headers, ∀ k < h.memorySize, ∃ e ∈ ls.flatten, ∃ cap,
      t.vspace pid (pageAlign (h.vaddr + k)) = some (cap, e.frame) ∧
      t.pte pid (pageAlign (h.vaddr + k)) = .frame e.frame ∧ e.bytes ((h.vaddr + k) % pageSize) =
        if k < h.fileSize then f.byte (h.offset + k) else 0 := by
    intro h hh k hk
    obtain ⟨l', hl', hc⟩ := exists_pages hcover hh
    obtain ⟨e, he, hv, hb⟩ := hc.byte k hk
    have hmem : e ∈ ls.flatten := List.mem_flatten.mpr ⟨l', hl', he⟩
    have hmap := hl.first hfresh e.vaddr
    rw [find?_of_pairwise hpages hmem, Option.map_some] at hmap
    obtain ⟨⟨cap, page⟩, hx, hpage'⟩ := Option.map_eq_some_iff.mp hmap
    obtain rfl : page = e.frame := hpage'
    rw [← hv]
    exact ⟨e, hmem, cap, hx, hl.last haddr (haddr e hmem)
      (find?_of_pairwise hreverse (List.mem_reverse.mpr hmem)), hb⟩
  have hread : ∀ h ∈ loadable f.headers, ∀ k < h.memorySize, userByte m t pid (h.vaddr + k) =
      some (if k < h.fileSize then f.byte (h.offset + k) else 0) := by
    intro h hh k hk
    obtain ⟨e, hmem, cap, hx, -, hb⟩ := hat h hh k hk
    rw [userByte, hx, Option.map_some, (hl.page e hmem).bytes _ (Nat.mod_lt _ (by decide)), hb]
  refine ⟨fun h hh k hk => ?_, fun h hh k hk hk' => ?_, fun h hh k hk => ?_⟩
  · obtain ⟨l', -, hc⟩ := exists_pages hcover hh
    rw [hread h hh k (lt_of_lt_of_le hk hc.size), if_pos hk]
  · rw [hread h hh k hk', if_neg (not_lt_of_ge hk)]
  · obtain ⟨e, -, cap, hx, hpte, -⟩ := hat h hh k hk
    exact ⟨cap, e.frame, hx, hpte⟩

end Loaded

/-- When `elf_load` has returned zero, the image is faithful exactly when no two
segments have a page in common. -/
theorem elf_load_faithful_iff {f : ElfFile} (hm : Obliging m) (hpid : pid ≠ kernelProc)
    (hproc : s.procs pid ≠ none) (hfresh : ∀ v, s.vspace pid v = none)
    (hroom : Room m (frameBudget (loadable f.headers)) s)
    (h48 : ∀ h ∈ loadable f.headers, h.vaddr + h.memorySize ≤ 2 ^ 48)
    (h : Exec (Served pid) (elfLoad m pid (some f) s) 0 t) :
    HoldsImage m pid f t ↔ (loadable f.headers).Pairwise PagesApart := by
  have hslots : SlotsBelow s pid := fun v x hx => nomatch hx.symm.trans (hfresh v)
  obtain ⟨ls, hl, hcover⟩ : ∃ ls : List (List LoadedPage),
      LoadsPages m pid (frameBudget (loadable f.headers)) ls.flatten s t ∧
      List.Forall₂ (SegmentIn f.byte) (loadable f.headers) ls := by
    unfold elfLoad at h
    dsimp only at h
    split at h
    · exact (loadSegments_loadsPages hm hpid h48 hroom hproc hslots).exec h rfl
    · cases h
  rw [← pairwise_pages_iff hcover]
  exact ⟨HoldsImage.pairwise hl hfresh hcover h48, faithful_of_pairwise hl hfresh hcover h48⟩

end Image

/-! ## Two segments -/

/-- Process 1 has an empty page table in the first five frames; the others are free. -/
def newProcess : VmState where
  frameTable f :=
    if f < 5 then ⟨f + 1, 0, 0, -1, 0, true, true⟩ else ⟨0, 0, f + 1, -1, 0, false, false⟩
  nextFreePage := 5
  frameTableCurrSize := 5
  clockCurr := 0
  pfList := ⟨0, []⟩
  pfVnode := true
  procs p := if p = 1 then some ⟨[], smallTable 0 fun _ => pageUpdateEntry pInvalid 0⟩ else none
  mem _ := 0
  pagefile _ := 0
  vspace _ _ := none
  rights _ _ := allRights
  nextSlot := 100
  running := 0
  time := 0
  log := []

lemma obliging_granting {size : Nat} (h : 0 < size ∧ size < 2 ^ 52) :
    Obliging (grantingMachine size h) :=
  ⟨fun _ => rfl, fun _ => rfl, fun _ => rfl, fun _ => .inl rfl, fun _ hfail => nomatch hfail.1⟩

lemma room_newProcess {m : Machine} {n : Nat} (h : 5 + n ≤ m.frameTableSize) :
    Room m n newProcess := by
  have hchain : ∀ j k, 5 ≤ k →
      Chain (fun f => (newProcess.frameTable f).nextFreePage) k (List.range' k j) := by
    intro j
    induction j with
    | zero => exact fun _ _ => trivial
    | succ j ih =>
      intro k hk
      have hnext : (newProcess.frameTable k).nextFreePage = k + 1 := by
        simp [newProcess, not_lt_of_ge hk]
      rw [List.range'_succ]
      refine ⟨rfl, ?_⟩
      show Chain _ (newProcess.frameTable k).nextFreePage _
      rw [hnext]
      exact ih (k + 1) (by omega)
  refine ⟨⟨List.range' 5 (m.frameTableSize - 5), hchain _ 5 le_rfl, List.nodup_range',
    fun f => ?_, ?_⟩, h⟩
  · rw [List.mem_range'_1]
    by_cases hf : f < 5
    · simp [VmState.allocated, newProcess, hf]
    · simp [VmState.allocated, newProcess, hf]
      omega
  · show 5 + _ = _
    rw [List.length_range']
    omega

/-- A file whose bytes are all 9, with code at 0x1000 and data at an address. -/
def twoSegments (data : Nat) : ElfFile :=
  ⟨true, [⟨ptLoad, 0, 0x10, 0x20, 0x1000, pfR⟩, ⟨ptLoad, 0x10, 0x10, 0x20, data, pfR ||| pfW⟩],
    fun _ => 9⟩

theorem elf_load_faithful_apart :
    ∃ t, Exec (Served 1) (elfLoad (grantingMachine 64) 1 (some (twoSegments 0x2000))
        newProcess) 0 t ∧ HoldsImage (grantingMachine 64) 1 (twoSegments 0x2000) t := by
  obtain ⟨_, t, hexec, rfl⟩ := Res.exists_exec (P := fun r _ => r = 0)
    (m := elfLoad (grantingMachine 64) 1 (some (twoSegments 0x2000)) newProcess)
    (served_wholePages 1) (by decide +kernel)
  refine ⟨t, hexec, (elf_load_faithful_iff (obliging_granting _) (by decide) (by decide)
    (fun _ => rfl) (room_newProcess (by decide)) (by decide) hexec).mpr ?_⟩
  refine List.pairwise_pair.mpr fun k hk k' hk' => ?_
  have hk20 : k < 0x20 := hk
  have hk20' : k' < 0x20 := hk'
  show (0x1000 + k) / 4096 * 4096 ≠ (0x2000 + k') / 4096 * 4096
  omega

theorem shared_page_unreadable :
    ∃ t, Exec (Served 1) (elfLoad (grantingMachine 64) 1 (some (twoSegments 0x1020))
        newProcess) 0 t ∧ ¬ HoldsImage (grantingMachine 64) 1 (twoSegments 0x1020) t := by
  obtain ⟨_, t, hexec, rfl, hbyte⟩ := Res.exists_exec
    (m := elfLoad (grantingMachine 64) 1 (some (twoSegments 0x1020)) newProcess)
    (P := fun r t => r = 0 ∧ userByte (grantingMachine 64) t 1 0x1020 = some 0)
    (served_wholePages 1) (by decide +kernel)
  refine ⟨t, hexec, fun hf => ?_⟩
  have hnine := hf.file ⟨ptLoad, 0x10, 0x10, 0x20, 0x1020, pfR ||| pfW⟩
    (List.mem_cons_of_mem _ List.mem_cons_self) 0 (by decide)
  rw [Nat.add_zero, hbyte] at hnine
  exact absurd hnine (by decide)

end SpaghettiOS.Vm
