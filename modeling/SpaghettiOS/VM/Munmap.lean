import SpaghettiOS.VM.MapErrors
import SpaghettiOS.VM.Mmap
import SpaghettiOS.VM.TableMap

/-!
# Whether munmap undoes mmap

`sys_mmap` adds a page to the length before it counts the pages of the block;
`sys_munmap` counts the pages of the length it is given.  So the last page of every
block, the padding, keeps its frame and its entry when the block is unmapped.

The region does go: it is the first of the list.
-/

namespace SpaghettiOS.Vm

open Coro (ofOption Keeps bind_apply get_apply modify_apply pure_apply set_apply)
open Coroutine (Res Exec)
open Coroutine.Res (Ends)

/-! ## Frames of the page table -/

/-- The frames of a node and of what lies below it. -/
def Node.frames {α : Type} (below : α → Nat) (n : Node α) : Nat :=
  1 + ((List.finRange 512).map fun i => below (n.slot i)).sum

def ptFrames (n : Option Pt) : Nat := n.elim 0 fun _ => 1

def pdFrames (n : Option Pd) : Nat := n.elim 0 (Node.frames ptFrames)

def pudFrames (n : Option Pud) : Nat := n.elim 0 (Node.frames pdFrames)

/-- The frames of a page table: its own, those of its nodes, and those of the chunks of
kernel objects. -/
def PageTable.frames (t : PageTable) : Nat :=
  1 + t.pgd.frames pudFrames + t.seL4Pages.length

lemma Node.frames_modify {α : Type} {below : α → Nat} (n : Node α) {i : Fin 512} {f : α → α}
    (h : ∀ x, below (f x) = below x) : (n.modify i f).frames below = n.frames below := by
  refine congrArg (1 + ·) (congrArg List.sum (List.map_congr_left fun j _ => ?_))
  rcases eq_or_ne j i with rfl | hne
  · simp [Node.modify, h]
  · simp [Node.modify, hne]

lemma PageTable.frames_setWord (t : PageTable) (i : PtIndex) (w : Word) :
    (t.setWord i w).frames = t.frames := by
  have hpt : ∀ n : Option Pt, ptFrames (n.map fun n => n.modify i.l4 fun _ => w) = ptFrames n := by
    rintro (_ | n)
    · rfl
    · rfl
  have hpd : ∀ n : Option Pd,
      pdFrames (n.map fun n => n.modify i.l3 (Option.map fun n => n.modify i.l4 fun _ => w)) =
        pdFrames n := by
    rintro (_ | n)
    · rfl
    · exact n.frames_modify hpt
  have hpud : ∀ n : Option Pud, pudFrames (n.map fun n => n.modify i.l2 (Option.map fun n =>
      n.modify i.l3 (Option.map fun n => n.modify i.l4 fun _ => w))) = pudFrames n := by
    rintro (_ | n)
    · rfl
    · exact n.frames_modify hpd
  exact congrArg (1 + · + t.seL4Pages.length) (t.pgd.frames_modify hpud)

/-! ## The two calls -/

/-- A page of the kernel has a frame: its entry is there and its bits are zero. -/
def backed (w : Option Word) : Prop := ∃ entry, w = some entry ∧ pageGetBits entry = 0

instance (w : Option Word) : Decidable (backed w) :=
  match w with
  | none => isFalse nofun
  | some entry => decidable_of_iff (pageGetBits entry = 0)
      ⟨fun h => ⟨entry, rfl, h⟩, fun ⟨_, h, hbits⟩ => Option.some.inj h ▸ hbits⟩

def VmState.blockBacked (s : VmState) (base i : Nat) : Prop :=
  backed (s.entry kernelProc (base + i * pageSize))

instance (s : VmState) (base i : Nat) : Decidable (s.blockBacked base i) :=
  inferInstanceAs (Decidable (backed _))

def VmState.structures (s : VmState) : Nat := (s.procs kernelProc).elim 0 fun as => as.pt.frames

/-- `sys_munmap` returned `result` and left things as they were before `sys_mmap`, apart
from the frames of the page table. -/
structure Undone (base length : Nat) (result : Int) (s u : VmState) : Prop where
  returns : result = 0
  frames : u.frameTableCurrSize + s.structures = s.frameTableCurrSize + u.structures
  entries : ∀ i < bytesTo4KPages ((length + pageSize) % 2 ^ 64),
    (u.blockBacked base i ↔ s.blockBacked base i)
  regions : u.kernelRegions = s.kernelRegions

/-- From `s` to `t` the pages that `sys_munmap` frees were given a frame each, and the
padding was not. -/
structure NoPadding (base length : Nat) (s t : VmState) : Prop where
  small : length < mmapTop
  pages : ∀ i < bytesTo4KPages length, ¬ s.blockBacked base i ∧ t.blockBacked base i
  padding : t.blockBacked base (bytesTo4KPages length) ↔ s.blockBacked base (bytesTo4KPages length)
  frames : t.frameTableCurrSize - bytesTo4KPages length + s.structures =
    s.frameTableCurrSize + t.structures

/-! ## While untyped memory and slots last -/

section Granted

variable {m : Machine} {s : VmState} {env : NfsReq → NfsReply → VmState → VmState → Prop}

variable (halloc : ∀ k, m.allocOk k = true)

include halloc

lemma mapLevels_granted (pid vspace : Int) (vaddr cap : Nat) (r : CapRights) (page n : Nat)
    (err : SeL4Error) :
    (mapLevels m pid vspace vaddr cap r page n err s).Ends env fun err _ => err ≠ none := by
  induction n generalizing err s with
  | zero => exact nofun
  | succ n ih =>
    cases err with
    | noError | deleteFirst | other => exact nofun
    | failedLookup =>
      simp only [mapLevels, ask, bind_apply, get_apply, set_apply, Res.bind,
        pure_apply, halloc, if_true]
      refine Ends.after fun _ s1 => Ends.after fun err s2 => ih err

lemma mapAttempts_granted (pid vspace : Int) (cap vaddr : Nat) (r : CapRights) (page : Nat) :
    (mapAttempts m pid vspace cap vaddr r page s).Ends env fun err _ => err ≠ none :=
  Ends.after fun err _ => mapLevels_granted halloc pid vspace vaddr cap r page mappingSlots err

end Granted

instance (base length : Nat) (s t : VmState) : Decidable (NoPadding base length s t) :=
  decidable_of_iff (length < mmapTop ∧
    (∀ i < bytesTo4KPages length, ¬ s.blockBacked base i ∧ t.blockBacked base i) ∧
    (t.blockBacked base (bytesTo4KPages length) ↔ s.blockBacked base (bytesTo4KPages length)) ∧
    t.frameTableCurrSize - bytesTo4KPages length + s.structures =
      s.frameTableCurrSize + t.structures)
    ⟨fun ⟨hsmall, hpages, hpadding, hframes⟩ => ⟨hsmall, hpages, hpadding, hframes⟩,
      fun h => ⟨h.small, h.pages, h.padding, h.frames⟩⟩

/-! ## The kernel's table -/

/-- The entries with a frame name a frame of the table. -/
def Named (m : Machine) (pt : PageTable) : Prop :=
  ∀ i w, pt.word i = some w → pageGetBits w = 0 → pageEntryNumber w ≤ m.frameTableSize

/-- No frame is on record for a page of the kernel, and its entries are in range. -/
structure KernelTable (m : Machine) (s : VmState) : Prop where
  frameless : Frameless kernelProc s
  named : ∃ as, s.procs kernelProc = some as ∧ Named m as.pt

section Table

variable {m : Machine} {s t : VmState} {as : AddrSpace} {pt pt' : PageTable}

lemma Named.grown (h : Named m pt) (hg : Grown pt pt') : Named m pt' := by
  intro i w hw hbits
  rcases hg i with hsame | ⟨-, hunset⟩
  · exact h i w (hsame ▸ hw) hbits
  · rw [hw] at hunset
    exact absurd (hbits.symm.trans hunset) (by decide)

lemma Named.setWord (h : Named m pt) (i : PtIndex) {w : Word}
    (hw : pageGetBits w = 0 → pageEntryNumber w ≤ m.frameTableSize) : Named m (pt.setWord i w) := by
  intro j w' hw' hbits
  rw [PageTable.word_setWord] at hw'
  split at hw'
  · obtain ⟨_, -, rfl⟩ := Option.map_eq_some_iff.mp hw'
    exact hw hbits
  · exact h j w' hw' hbits

lemma KernelTable.aside (h : KernelTable m s) (hst : Aside kernelProc s t) : KernelTable m t := by
  obtain ⟨hframeless, hprocs⟩ := hst h.frameless
  exact ⟨hframeless, hprocs ▸ h.named⟩

lemma KernelTable.attempts (h : KernelTable m s) (vspace : Int) (cap vaddr : Nat) (r : CapRights)
    (page : Nat) :
    (mapAttempts m kernelProc vspace cap vaddr r page s).Ends (Served kernelProc) fun _ t =>
      KernelTable m t := by
  have hkeeps : ∀ i, Keeps (Served kernelProc) (KeepsEntry kernelProc i)
      (mapAttempts m kernelProc vspace cap vaddr r page) := fun i =>
    mapAttempts_keepsEntry (by decide) vspace vaddr cap r page
  refine Ends.mono (Ends.forall fun i => hkeeps i s) fun _ t ht => ?_
  have hnot : ∀ i, NotHeld kernelProc i s := fun i f hf => absurd hf (h.frameless f)
  obtain ⟨as, has, hnamed⟩ := h.named
  refine ⟨fun f hf => (ht _ (hnot _)).1 f hf rfl, ?_⟩
  obtain ⟨as', has', -⟩ := (ht (getPtIndex 0) (hnot _)).2 as has
  refine ⟨as', has', fun i w hw => ?_⟩
  obtain ⟨as'', has'', hsame⟩ := (ht i (hnot i)).2 as has
  obtain rfl := Option.some.inj (has'.symm.trans has'')
  exact hnamed i w (hsame ▸ hw)

lemma KernelTable.insert (h : KernelTable m s) (v : Nat) {page : Nat}
    (hpage : page ≤ m.frameTableSize) :
    (pageTableInsert m kernelProc v page s).Ends (Served kernelProc) fun _ t =>
      KernelTable m t ∧ ((∀ k, m.allocOk k = true) → backed (t.entry kernelProc v)) := by
  obtain ⟨as, has, hnamed⟩ := h.named
  have howns : Owns kernelProc as.pt s := ⟨h.frameless, by rw [has]; rfl⟩
  have hlt : page < 2 ^ 52 := hpage.trans_lt m.size_lt
  refine Ends.mono (pageTableInsert_ends (by decide) howns v page) fun result t ht => ?_
  split at ht
  case isTrue hnone =>
    obtain ⟨-, pt', ht, hgrown⟩ := ht
    obtain ⟨as', has', rfl⟩ := Option.map_eq_some_iff.mp ht.table
    exact ⟨⟨ht.frameless, as', has', hnamed.grown hgrown⟩,
      fun halloc => absurd hnone (Stock.nodes_granted halloc _ _ _)⟩
  case isFalse =>
    obtain ⟨-, pt₁, ht, hgrown, hsome⟩ := ht
    obtain ⟨as', has', hpt⟩ := Option.map_eq_some_iff.mp ht.table
    refine ⟨⟨ht.frameless, as', has', ?_⟩, fun _ => ⟨_, ?_, pageGetBits_ofNat hlt⟩⟩
    · rw [hpt]
      refine (hnamed.grown hgrown).setWord _ fun _ => ?_
      rw [pageEntryNumber_eq, BitVec.toNat_ofNat]
      omega
    · obtain ⟨w, hw⟩ := Option.ne_none_iff_exists'.mp hsome
      simp [VmState.entry, has', pageLookup, hpt, PageTable.word_setWord, hw]

lemma KernelTable.sosMapFrame (h : KernelTable m s) (vspace : Int) (cap v : Nat) (r : CapRights)
    {page : Nat} (hpage : page ≤ m.frameTableSize) :
    (sosMapFrame m kernelProc vspace cap v r page true s).Ends (Served kernelProc) fun _ t =>
      KernelTable m t ∧ ((∀ k, m.allocOk k = true) → backed (t.entry kernelProc v)) := by
  rw [sosMapFrame_eq]
  refine Ends.bind ((h.attempts vspace cap v r page).and (Ends.forall fun halloc =>
    mapAttempts_granted halloc kernelProc vspace cap v r page)) fun err s1 ⟨h1, herr⟩ => ?_
  cases err with
  | none => exact ⟨h1, fun halloc => absurd rfl (herr halloc)⟩
  | some err =>
    exact h1.insert v hpage

lemma KernelTable.mmapPage (h : KernelTable m s) (v : Nat) :
    (mmapPage m v s).Ends (Served kernelProc) fun _ t =>
      KernelTable m t ∧ ((∀ k, m.allocOk k = true) → backed (t.entry kernelProc v)) := by
  have hmoves : AllocMoves m (Aside kernelProc) := aside_moves (by decide)
  refine Ends.bind (frameAllocWith_keeps hmoves true s) fun a s1 h1 => ?_
  have h1 := h.aside h1
  simp only [bind_apply, get_apply, Res.bind]
  refine Ends.ofOption_bind fun _ hframe => ?_
  have hpage : a.1 ≤ m.frameTableSize := by
    unfold Machine.getFrame at hframe
    split at hframe
    · cases hframe
    · exact not_lt.mp ‹_›
  have hslot : ∀ s, Aside kernelProc s { s with nextSlot := s.nextSlot + 1 } :=
    fun _ => .of_same (fun _ => rfl) rfl
  refine Ends.bind (cspaceAllocSlot_keeps hmoves.same hslot s1) fun slot s2 h2 => ?_
  refine Ends.bind (ask_keeps hmoves.same m.capCopy s2) fun _ s3 h3 => ?_
  refine Ends.bind (((h1.aside h2).aside h3).sosMapFrame kernelProc slot v allRights hpage) ?_
  rintro _ s4 ⟨h4, hbacked⟩
  refine ⟨h4.aside (.of_same (fun f => ?_) rfl), hbacked⟩
  simp only [VmState.setFrame, Function.update_apply]
  split
  · rename_i heq
    rw [heq]
  · rfl

lemma KernelTable.mmapPages (h : KernelTable m s) (base : Nat) (l : List Nat) :
    (l.forM (fun i => Vm.mmapPage m (base + i * pageSize)) s).Ends (Served kernelProc) fun _ t =>
      KernelTable m t := by
  induction l generalizing s with
  | nil => exact h
  | cons i l ih => exact Ends.bind (h.mmapPage _) fun _ s1 h1 => ih h1.1

end Table

/-! ## The block -/

section Block

variable {m : Machine} {s t : VmState} {as as' : AddrSpace} {length : Nat}

lemma mmapSearch_ok {fuel addr a : Nat} (haddr : addr % pageSize = 0)
    (h : mmapSearch length fuel as addr = .ok (a, as')) :
    a % pageSize = 0 ∧
      (a < mmapTop ∧ as' = { as with regions := Region.make a length .readWrite :: as.regions } ∨
        mmapTop ≤ a ∧ as' = as) := by
  fun_induction mmapSearch length fuel as addr with
  | case1 fuel as addr hlt hseek regions hdefine =>
    cases h
    simp only [asDefineRegion] at hdefine
    split at hdefine
    · cases hdefine
      exact ⟨haddr, .inl ⟨hlt, rfl⟩⟩
    · cases hdefine
  | case2 | case3 => cases h
  | case4 as addr hlt reg hseek fuel ih =>
    refine ih ?_ h
    simp only [Region.behind, pageAlign, pageSize]
    omega
  | case5 fuel as addr hge =>
    cases h
    exact ⟨haddr, .inr ⟨not_lt.mp hge, rfl⟩⟩

lemma mmapReserve_some {reg : Region} (hlen : mmapTop + length < 2 ^ 64) (hpos : 0 < length)
    (h : mmapReserve as length = .ok (some reg, as')) :
    reg.vbase % pageSize = 0 ∧ reg.vbase + length ≤ mmapTop ∧
      reg = Region.make reg.vbase length .readWrite ∧ as'.regions = reg :: as.regions := by
  unfold mmapReserve at h
  simp only [bind, Except.bind] at h
  split at h
  · cases h
  rename_i x hsearch
  obtain ⟨a, as1⟩ := x
  obtain ⟨hal, ⟨hlt, rfl⟩ | ⟨hge, rfl⟩⟩ := mmapSearch_ok (by decide) hsearch
  · have hmod : (a + length) % 2 ^ 64 = a + length := Nat.mod_eq_of_lt (by omega)
    have hhas : (Region.make a length .readWrite).Has a :=
      ⟨le_rfl, by simp only [Region.make, hmod]; omega⟩
    simp only [hmod, asSeekRegion_head hhas] at h
    split at h
    · cases h
    · cases h
      exact ⟨hal, by simp only [Region.make]; omega, rfl, rfl⟩
  · -- the search has passed the top
    rw [if_pos] at h
    · cases h
    · rcases Nat.lt_or_ge mmapTop a with hgt | hle
      · exact .inl hgt
      · rw [Nat.mod_eq_of_lt (by omega)]
        omega

lemma sysMmap_exec {result : Int} (hne : result ≠ -1)
    (he : Exec (Served kernelProc) (sysMmap m 0 length s) result t) :
    ∃ as reg as', s.procs kernelProc = some as ∧
      mmapReserve as ((length + pageSize) % 2 ^ 64) = .ok (some reg, as') ∧ result = reg.vbase ∧
      Exec (Served kernelProc) ((List.range (bytesTo4KPages ((length + pageSize) % 2 ^ 64))).forM
        (fun i => mmapPage m (reg.vbase + i * pageSize))
        (s.setRegions kernelProc fun _ => as'.regions)) ⟨⟩ t := by
  simp only [sysMmap, ne_eq, not_true_eq_false, if_false, bind_apply, get_apply, Res.bind] at he
  cases has : s.procs kernelProc with
  | none =>
    rw [has] at he
    cases he
  | some as =>
    simp only [has, ofOption, pure_apply, Res.bind] at he
    cases hres : mmapReserve as ((length + pageSize) % 2 ^ 64) with
    | error e =>
      rw [hres] at he
      cases he
    | ok x =>
      obtain ⟨reg, as'⟩ := x
      simp only [hres, bind_apply, modify_apply, Res.bind] at he
      cases reg with
      | none =>
        cases he
        exact absurd rfl hne
      | some reg =>
        obtain ⟨⟨⟩, t', hpages, hend⟩ := Exec.of_bind he
        cases hend
        exact ⟨as, reg, as', rfl, hres, rfl, hpages⟩

end Block

/-! ## The pages that are freed -/

def blockIndex (vbase i : Nat) : PtIndex := getPtIndex (pageAlign (vbase + i * pageSize))

section Pages

variable {m : Machine} {s : VmState} {as : AddrSpace} {vbase : Nat}

/-- What is left when the pages at the given indices have been freed. -/
structure Freed (is : List PtIndex) (as : AddrSpace) (s u : VmState) (as' : AddrSpace) : Prop where
  procs : u.procs kernelProc = some as'
  regions : as'.regions = as.regions
  nodes : as'.pt.frames = as.pt.frames
  gone : ∀ j ∈ is, ¬ backed (as'.pt.word j)
  others : ∀ j ∉ is, as'.pt.word j = as.pt.word j
  frames : u.frameTableCurrSize = s.frameTableCurrSize - is.length

lemma not_backed_invalid : ¬ backed (some (pageUpdateEntry pInvalid 0)) := by decide

lemma word_setWord_of_some {pt : PageTable} {i : PtIndex} {w : Word} (hw : pt.word i = some w)
    (j : PtIndex) (w' : Word) :
    (pt.setWord i w').word j = if j = i then some w' else pt.word j := by
  rw [PageTable.word_setWord, hw]
  rfl

lemma munmapPages_ends (l : List Nat) (has : s.procs kernelProc = some as) (hn : Named m as.pt) :
    (munmapPages m vbase l s).Ends (Served kernelProc) fun freed u =>
      (freed = true ↔ (l.map (blockIndex vbase)).Nodup ∧
        ∀ i ∈ l, backed (as.pt.word (blockIndex vbase i))) ∧
      (freed = true → ∃ as', Freed (l.map (blockIndex vbase)) as s u as') := by
  induction l generalizing s as with
  | nil => exact ⟨by simp, fun _ => ⟨as, has, rfl, rfl, by simp, by simp, rfl⟩⟩
  | cons i l ih =>
    unfold munmapPages
    simp only [pageTableOf, bind_apply, get_apply, Res.bind, has, ofOption, pure_apply]
    rw [show pageLookup as.pt (pageAlign (vbase + i * pageSize)) =
      as.pt.word (blockIndex vbase i) from rfl]
    by_cases hfirst : backed (as.pt.word (blockIndex vbase i))
    · obtain ⟨w, hw, hbits⟩ := hfirst
      simp only [hw, hbits, if_true]
      refine Ends.bind (frameFree_releases (hn _ w hw hbits)) ?_
      rintro _ _ ⟨-, rfl⟩
      have hword := fun j => word_setWord_of_some hw j (pageUpdateEntry pInvalid 0)
      have has1 : ((s.release (pageEntryNumber w)).modifyTable kernelProc fun t =>
          t.setWord (blockIndex vbase i) (pageUpdateEntry pInvalid 0)).procs kernelProc =
          some ⟨as.regions, as.pt.setWord (blockIndex vbase i) (pageUpdateEntry pInvalid 0)⟩ := by
        simp [VmState.modifyTable, VmState.release, VmState.pageUnmap, VmState.setFrame, has]
      have hn1 := hn.setWord (blockIndex vbase i) (w := pageUpdateEntry pInvalid 0)
        fun hbits => absurd hbits (by decide)
      refine Ends.mono (ih has1 hn1) ?_
      rintro freed u ⟨hiff, hfreed⟩
      refine ⟨?_, fun hf => ?_⟩
      · rw [hiff, List.map_cons, List.nodup_cons, List.forall_mem_cons]
        constructor
        · rintro ⟨hnodup, hall⟩
          have hnot : ∀ k ∈ l, blockIndex vbase k ≠ blockIndex vbase i := by
            intro k hk heq
            have hk := hall k hk
            rw [hword, if_pos heq] at hk
            exact not_backed_invalid hk
          refine ⟨⟨by simpa using hnot, hnodup⟩, ⟨w, hw, hbits⟩, fun k hk => ?_⟩
          have hbacked := hall k hk
          rwa [hword, if_neg (hnot k hk)] at hbacked
        · rintro ⟨⟨hnot, hnodup⟩, -, hall⟩
          refine ⟨hnodup, fun k hk => ?_⟩
          have hne : blockIndex vbase k ≠ blockIndex vbase i := fun heq =>
            hnot (heq ▸ List.mem_map_of_mem hk)
          rw [hword, if_neg hne]
          exact hall k hk
      · obtain ⟨as', h⟩ := hfreed hf
        refine ⟨as', h.procs, h.regions, h.nodes.trans (as.pt.frames_setWord _ _), ?_, ?_, ?_⟩
        · refine List.forall_mem_cons.mpr ⟨fun hb => ?_, h.gone⟩
          by_cases hmem : blockIndex vbase i ∈ l.map (blockIndex vbase)
          · exact h.gone _ hmem hb
          · rw [h.others _ hmem, hword, if_pos rfl] at hb
            exact not_backed_invalid hb
        · intro j hj
          obtain ⟨hne, hmem⟩ := not_or.mp (mt List.mem_cons.mpr hj)
          rw [h.others j hmem, hword, if_neg hne]
        · have hsize : u.frameTableCurrSize = s.frameTableCurrSize - 1 - _ := h.frames
          rw [hsize, List.map_cons, List.length_cons]
          omega
    · -- the loop stops at a page without a frame
      have hstop : ∀ r : Res VmState NfsReq NfsReply Abort Bool, r = .done false s →
          r.Ends (Served kernelProc) fun freed u =>
            (freed = true ↔ ((i :: l).map (blockIndex vbase)).Nodup ∧
              ∀ k ∈ i :: l, backed (as.pt.word (blockIndex vbase k))) ∧
            (freed = true → ∃ as', Freed ((i :: l).map (blockIndex vbase)) as s u as') := by
        rintro _ rfl
        exact ⟨⟨by simp, fun h => absurd (h.2 i List.mem_cons_self) hfirst⟩, by simp⟩
      refine hstop _ ?_
      cases hw : as.pt.word (blockIndex vbase i) with
      | none => rfl
      | some w =>
        have hbits : pageGetBits w ≠ 0 := fun hbits => hfirst ⟨w, hw, hbits⟩
        simp only [hbits, if_false]
        rfl

lemma not_nodup_of_many {n : Nat} (h : 2 ^ 36 < n) :
    ¬ ((List.range n).map (blockIndex vbase)).Nodup := by
  intro hnodup
  have hsame : blockIndex vbase 0 = blockIndex vbase (2 ^ 36) := by
    refine getPtIndex_eq_iff_mod.mpr ?_
    simp only [pageAlign, pageSize]
    omega
  have hinj := List.inj_on_of_nodup_map hnodup (List.mem_range.mpr (by omega))
    (List.mem_range.mpr h) hsame
  exact absurd hinj (by decide)

lemma nodup_blockIndex {n : Nat} (hal : vbase % pageSize = 0)
    (hn : vbase + n * pageSize ≤ 2 ^ 48) : ((List.range n).map (blockIndex vbase)).Nodup := by
  refine List.Nodup.map_on (fun i hi j hj heq => ?_) List.nodup_range
  have hmod := getPtIndex_eq_iff_mod.mp heq
  rw [List.mem_range] at hi hj
  simp only [pageAlign, pageSize] at *
  omega

lemma sysMunmap_frees {addr length : Nat} (has : s.procs kernelProc = some as)
    (hn : Named m as.pt) : (sysMunmap m addr length s).Ends (Served kernelProc) fun result u =>
      ∃ reg, asSeekRegion as addr = some reg ∧
        (result = 0 ↔ ((List.range (bytesTo4KPages length)).map (blockIndex reg.vbase)).Nodup ∧
          ∀ i ∈ List.range (bytesTo4KPages length), backed (as.pt.word (blockIndex reg.vbase i))) ∧
        (result = 0 → ∃ u' as', Freed ((List.range (bytesTo4KPages length)).map
          (blockIndex reg.vbase)) as s u' as' ∧
          u = u'.setRegions kernelProc fun regions => (asDestroyRegion regions addr).2) := by
  simp only [sysMunmap, bind_apply, get_apply, Res.bind, has]
  refine Ends.ofOption_bind fun as1 has1 => ?_
  cases has1
  refine Ends.ofOption_bind fun reg hseek => ?_
  refine Ends.bind (munmapPages_ends _ has hn) ?_
  rintro freed u ⟨hiff, hfreed⟩
  cases freed with
  | false => exact ⟨reg, hseek, ⟨by simp, fun h => absurd (hiff.mpr h) (by decide)⟩, by simp⟩
  | true =>
    obtain ⟨as', h⟩ := hfreed rfl
    exact ⟨reg, hseek, ⟨fun _ => hiff.mp rfl, fun _ => rfl⟩, fun _ => ⟨u, as', h, rfl⟩⟩

lemma blockBacked_iff (has : s.procs kernelProc = some as) (hal : vbase % pageSize = 0) (i : Nat) :
    s.blockBacked vbase i ↔ backed (as.pt.word (blockIndex vbase i)) := by
  have halign : pageAlign (vbase + i * pageSize) = vbase + i * pageSize := by
    simp only [pageAlign, pageSize] at hal ⊢
    omega
  simp [VmState.blockBacked, VmState.entry, has, pageLookup, blockIndex, halign]

lemma sysMunmap_block {reg : Region} {regions : List Region} {length : Nat}
    (has : s.procs kernelProc = some as) (hn : Named m as.pt) (hregs : as.regions = reg :: regions)
    (hself : reg.vbase ≤ reg.vtop) (hal : reg.vbase % pageSize = 0)
    (hlow : reg.vbase + (bytesTo4KPages length + 1) * pageSize ≤ 2 ^ 48) :
    (sysMunmap m reg.vbase length s).Ends (Served kernelProc) fun result u =>
      (result = 0 ↔ ∀ i < bytesTo4KPages length, s.blockBacked reg.vbase i) ∧
      (result = 0 → (∀ i < bytesTo4KPages length, ¬ u.blockBacked reg.vbase i) ∧
        (u.blockBacked reg.vbase (bytesTo4KPages length) ↔
          s.blockBacked reg.vbase (bytesTo4KPages length)) ∧
        u.frameTableCurrSize = s.frameTableCurrSize - bytesTo4KPages length ∧
        u.structures = s.structures ∧ u.kernelRegions = some regions) := by
  refine Ends.mono (sysMunmap_frees has hn) ?_
  rintro result u ⟨reg', hseek, hiff, hfreed⟩
  have hhas : reg.Has reg.vbase := ⟨le_rfl, hself⟩
  have hhead : asSeekRegion as reg.vbase = some reg := by
    rw [asSeekRegion, hregs, List.find?_cons_of_pos]
    simpa [Region.Has] using hhas
  obtain rfl := Option.some.inj (hhead.symm.trans hseek)
  have hnodup := nodup_blockIndex hal hlow
  rw [List.range_succ, List.map_append, List.nodup_append] at hnodup
  obtain ⟨hfirst, -, hlast⟩ := hnodup
  refine ⟨?_, fun hzero => ?_⟩
  · rw [hiff]
    simp only [hfirst, true_and, List.mem_range, blockBacked_iff has hal]
  · obtain ⟨u', as', h, rfl⟩ := hfreed hzero
    have hprocs : (u'.setRegions kernelProc fun regions =>
        (asDestroyRegion regions reg.vbase).2).procs kernelProc = some ⟨regions, as'.pt⟩ := by
      simp [VmState.setRegions, h.procs, h.regions, hregs, asDestroyRegion, hhas]
    have hbacked := fun i => blockBacked_iff (i := i) hprocs hal
    refine ⟨fun i hi => ?_, ?_, ?_, ?_, ?_⟩
    · rw [hbacked]
      exact h.gone _ (List.mem_map_of_mem (List.mem_range.mpr hi))
    · rw [hbacked, blockBacked_iff has hal, h.others]
      exact fun hmem => hlast _ hmem _ List.mem_cons_self rfl
    · have hsize := h.frames
      rw [List.length_map, List.length_range] at hsize
      exact hsize
    · simp [VmState.structures, hprocs, has, h.nodes]
    · simp [VmState.kernelRegions, hprocs]

end Pages

/-! ## Both calls -/

section Undo

variable {m : Machine} {s t u : VmState} {base length : Nat} {result : Int}

lemma bytesTo4KPages_add (length : Nat) :
    bytesTo4KPages (length + pageSize) = bytesTo4KPages length + 1 := by
  simp only [bytesTo4KPages, pageSize]
  split_ifs <;> omega

lemma bytesTo4KPages_mul_lt (length : Nat) :
    bytesTo4KPages length * pageSize < length + pageSize := by
  simp only [bytesTo4KPages, pageSize]
  split_ifs <;> omega

lemma KernelTable.setRegions (h : KernelTable m s) (f : List Region → List Region) :
    KernelTable m (s.setRegions kernelProc f) := by
  obtain ⟨as, has, hnamed⟩ := h.named
  exact ⟨h.frameless, ⟨f as.regions, as.pt⟩, by simp [VmState.setRegions, has], hnamed⟩

lemma not_unmapped_of_large (hs : KernelTable m s) (hlarge : ¬ length < mmapTop)
    (hmmap : Exec (Served kernelProc) (sysMmap m 0 length s) base t)
    (hmunmap : Exec (Served kernelProc) (sysMunmap m base length t) result u) : result ≠ 0 := by
  obtain ⟨as, reg, as', has, hres, hbase, hpages⟩ := sysMmap_exec (by omega) hmmap
  obtain ⟨ast, hast, hnamed⟩ := (((hs.setRegions _).mmapPages _ _).exec hpages).named
  intro hzero
  rcases Nat.lt_or_ge (2 ^ 48) length with hgt | hle
  · obtain ⟨reg', -, hiff, -⟩ := (sysMunmap_frees hast hnamed).exec hmunmap
    refine not_nodup_of_many ?_ (hiff.mp hzero).1
    simp only [bytesTo4KPages, pageSize]
    split_ifs <;> omega
  · have hmod : (length + pageSize) % 2 ^ 64 = length + pageSize :=
      Nat.mod_eq_of_lt (by simp only [pageSize]; omega)
    rw [hmod] at hres
    obtain ⟨-, htop, -⟩ := mmapReserve_some (by simp only [pageSize, mmapTop]; omega)
      (by simp only [pageSize]; omega) hres
    simp only [pageSize, mmapTop] at htop hlarge
    omega

lemma padding_backed (hs : KernelTable m s) (halloc : ∀ k, m.allocOk k = true) {n : Nat}
    (hpages : Exec (Served kernelProc) ((List.range (n + 1)).forM
      (fun i => mmapPage m (base + i * pageSize)) s) ⟨⟩ t) : t.blockBacked base n := by
  have hsplit : (List.range (n + 1)).forM (fun i => mmapPage m (base + i * pageSize)) =
      (do (List.range n).forM fun i => mmapPage m (base + i * pageSize)
          mmapPage m (base + n * pageSize)) := by
    rw [List.range_succ, forM_append, forM_singleton]
  rw [hsplit, bind_apply] at hpages
  obtain ⟨⟨⟩, t1, hfirst, hlast⟩ := Exec.of_bind hpages
  exact (((hs.mmapPages base _).exec hfirst).mmapPage _ |>.exec hlast).2 halloc

/-- `sys_munmap` undoes `sys_mmap` exactly if the padding was given no frame. -/
theorem munmap_undoes_mmap_iff (hs : KernelTable m s)
    (hmmap : Exec (Served kernelProc) (sysMmap m 0 length s) base t)
    (hmunmap : Exec (Served kernelProc) (sysMunmap m base length t) result u) :
    (Undone base length result s u ↔ NoPadding base length s t) ∧
      ((∀ k, m.allocOk k = true) → ¬ s.blockBacked base (bytesTo4KPages length) →
        ¬ Undone base length result s u) := by
  by_cases hsmall : length < mmapTop
  · obtain ⟨as, reg, as', has, hres, hbase, hpages⟩ := sysMmap_exec (by omega) hmmap
    obtain rfl : base = reg.vbase := by exact_mod_cast hbase
    have hmod : (length + pageSize) % 2 ^ 64 = length + pageSize :=
      Nat.mod_eq_of_lt (by simp only [pageSize, mmapTop] at *; omega)
    rw [hmod] at hres hpages
    rw [bytesTo4KPages_add] at hpages
    obtain ⟨hal, htop, hreg, hregs⟩ := mmapReserve_some
      (by simp only [pageSize, mmapTop] at *; omega) (by simp only [pageSize]; omega) hres
    have ht := ((hs.setRegions _).mmapPages _ _).exec hpages
    obtain ⟨ast, hast, hnamed⟩ := ht.named
    have hlist := ((sysMmap_ends (by simp only [pageSize, mmapTop] at *; omega) has hres).exec
      hmmap).1
    have hlist : ast.regions = reg :: as.regions := by
      simpa [VmState.kernelRegions, hast, hregs] using hlist
    have hself : reg.vbase ≤ reg.vtop := by
      rw [hreg]
      simp only [Region.make]
      rw [Nat.mod_eq_of_lt (by simp only [mmapTop] at *; omega)]
      omega
    have hlow : reg.vbase + (bytesTo4KPages length + 1) * pageSize ≤ 2 ^ 48 := by
      have hlt := bytesTo4KPages_mul_lt length
      simp only [pageSize, mmapTop] at *
      omega
    obtain ⟨hzero, hfreed⟩ := (sysMunmap_block hast hnamed hlist hself hal hlow).exec hmunmap
    have hiff : Undone reg.vbase length result s u ↔ NoPadding reg.vbase length s t := by
      constructor
      · intro h
        obtain ⟨hgone, hpad, hsize, hnodes, -⟩ := hfreed h.returns
        have hentries := h.entries
        rw [hmod, bytesTo4KPages_add] at hentries
        have hframes := h.frames
        rw [hsize, hnodes] at hframes
        refine ⟨hsmall, fun i hi => ⟨?_, hzero.mp h.returns i hi⟩, ?_, hframes⟩
        · exact fun hb => hgone i hi ((hentries i (hi.trans (Nat.lt_succ_self _))).mpr hb)
        · exact hpad.symm.trans (hentries _ (Nat.lt_succ_self _))
      · intro h
        have hreturns := hzero.mpr fun i hi => (h.pages i hi).2
        obtain ⟨hgone, hpad, hsize, hnodes, hregions⟩ := hfreed hreturns
        refine ⟨hreturns, ?_, fun i hi => ?_, ?_⟩
        · rw [hsize, hnodes]
          exact h.frames
        · rw [hmod, bytesTo4KPages_add] at hi
          rcases Nat.lt_succ_iff_lt_or_eq.mp hi with hlt | rfl
          · exact iff_of_false (hgone i hlt) (h.pages i hlt).1
          · exact hpad.trans h.padding
        · rw [hregions]
          simp [VmState.kernelRegions, has]
    refine ⟨hiff, fun halloc hnot hundone => hnot ?_⟩
    exact (hiff.mp hundone).padding.mp (padding_backed (hs.setRegions _) halloc hpages)
  · have hnot := not_unmapped_of_large hs hsmall hmmap hmunmap
    exact ⟨⟨fun h => absurd h.returns hnot, fun h => absurd h.small hsmall⟩,
      fun _ _ h => hnot h.returns⟩

end Undo

lemma undo_of_play (m : Machine) (s : VmState) (base length : Nat) (P : VmState → VmState → Bool)
    (hplay : ((sysMmap m 0 length s).run (wholePages kernelProc)).toOption.any (fun x =>
      x.1 = (base : Int) ∧ ((sysMunmap m base length x.2).run (wholePages kernelProc)).toOption.any
        fun y => y.1 = 0 ∧ P x.2 y.2) = true) :
    ∃ t u, Exec (Served kernelProc) (sysMmap m 0 length s) base t ∧
      Exec (Served kernelProc) (sysMunmap m base length t) 0 u ∧ P t u = true := by
  obtain ⟨⟨_, t⟩, hmmap, rfl, hrest⟩ := Lts.exists_of_any hplay
  obtain ⟨⟨_, u⟩, hmunmap, rfl, hP⟩ := Lts.exists_of_any hrest
  exact ⟨t, u, Res.exec_of_toOption (served_wholePages _) hmmap,
    Res.exec_of_toOption (served_wholePages _) hmunmap, hP⟩

def kernelWith (regions : List Region) : VmState :=
  { newProcess with
    procs := fun p =>
      if p = kernelProc then some ⟨regions, smallTable 0 fun _ => pageUpdateEntry pInvalid 0⟩
      else none }

lemma kernelTable_kernelWith (m : Machine) (regions : List Region) :
    KernelTable m (kernelWith regions) := by
  refine ⟨fun f hf => ?_, _, rfl, fun i w hw hbits => ?_⟩
  · simp only [kernelWith, newProcess] at hf
    split at hf
    · cases hf
    · cases hf
  · rw [word_smallTable] at hw
    split at hw
    · cases hw
      exact absurd hbits (by decide)
    · cases hw

/-- A kernel whose next block begins with the last page of a table. -/
def boundaryKernel : VmState := kernelWith [Region.make 0xF0000000 0x1FE000 .readWrite]

lemma sixtyFour_frames : 0 < 64 ∧ 64 < 2 ^ 52 := by decide

/-- A machine that has memory for a page and the two levels of its table. -/
def threeFrames : Machine :=
  { grantingMachine 64 sixtyFour_frames with allocOk := fun t => t < 6 }

theorem munmap_undoes_mmap_boundary :
    ∃ t u, Exec (Served kernelProc) (sysMmap threeFrames 0 0x1000 boundaryKernel) 0xF01FF000 t ∧
      Exec (Served kernelProc) (sysMunmap threeFrames 0xF01FF000 0x1000 t) 0 u ∧
      Undone 0xF01FF000 0x1000 0 boundaryKernel u := by
  obtain ⟨t, u, hmmap, hmunmap, hpadding⟩ := undo_of_play threeFrames boundaryKernel 0xF01FF000
    0x1000 (fun t _ => NoPadding 0xF01FF000 0x1000 boundaryKernel t) (by decide +kernel)
  have hiff := munmap_undoes_mmap_iff (kernelTable_kernelWith _ _) hmmap hmunmap
  exact ⟨t, u, hmmap, hmunmap, hiff.1.mpr (of_decide_eq_true hpadding)⟩

theorem munmap_leaks_padding :
    ∃ t u, Exec (Served kernelProc) (sysMmap (grantingMachine 64) 0 0x1000
        (kernelWith [])) 0xF0000000 t ∧
      Exec (Served kernelProc) (sysMunmap (grantingMachine 64) 0xF0000000 0x1000 t) 0
        u ∧ u.blockBacked 0xF0000000 1 ∧ u.frameTableCurrSize + (kernelWith []).structures =
        (kernelWith []).frameTableCurrSize + u.structures + 1 ∧
      ¬ Undone 0xF0000000 0x1000 0 (kernelWith []) u := by
  obtain ⟨t, u, hmmap, hmunmap, hcheck⟩ := undo_of_play (grantingMachine 64)
    (kernelWith []) 0xF0000000 0x1000 (fun _ u => u.blockBacked 0xF0000000 1 ∧
      u.frameTableCurrSize + (kernelWith []).structures =
        (kernelWith []).frameTableCurrSize + u.structures + 1) (by decide +kernel)
  obtain ⟨hbacked, hframes⟩ := of_decide_eq_true hcheck
  refine ⟨t, u, hmmap, hmunmap, hbacked, hframes, fun h => ?_⟩
  have heq := h.frames
  omega

end SpaghettiOS.Vm
