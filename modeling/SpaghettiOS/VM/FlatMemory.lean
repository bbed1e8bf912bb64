import SpaghettiOS.VM.SharedBuffer

/-!
# Demand paging and flat memory

What a process has stored is a function from addresses to bytes.  The pager keeps these
bytes in frames, in slots of the pagefile, or nowhere at all as long as they are zero.  A
process sees none of this: what it loads is what it stored last, as long as the victims of
every fault are written out.

`Contents` says where the bytes are, `Mapped` says that a page is mapped to the frame that
holds its bytes, and `BufferOk` keeps the windows apart from the frames of the users.
-/

namespace SpaghettiOS.Vm

open Coroutine (Res Exec)
open Function (update update_of_ne update_self)

abbrev Flat := Int → Nat → UInt8

/-- A page of the region in which a process finds its window of the shared buffer. -/
def SharedPage (v : Nat) : Prop :=
  processSharedBufTop - shareBufBytes ≤ v ∧ v < processSharedBufTop

/-- Every page of every process is in its frame or in its slot, and a page that is in
neither holds zeros. -/
structure Represents (m : Machine) (s : VmState) (flat : Flat) : Prop where
  framed : ∀ p v f, PageAddr v → s.pte p v = .frame f →
    ∀ j < pageSize, m.frameByte s f j = flat p (v + j)
  swapped : ∀ p v i, PageAddr v → s.pte p v = .pagefile i →
    ∀ j < pageSize, s.pagefile (i * pageSize + j) = flat p (v + j)
  invalid : ∀ p v, PageAddr v → s.pte p v = .invalid → ∀ j < pageSize, flat p (v + j) = 0

/-- A page that is mapped is mapped to the frame its entry names, through the capability on
record for the frame. -/
structure MapsFrames (s : VmState) : Prop where
  mapped : ∀ p v y, PageAddr v → ¬ SharedPage v → s.vspace p v = some y →
    s.pte p v = .frame y.2 ∧ (s.frameTable y.2).userCap = y.1
  caps : ∀ p v f, PageAddr v → s.pte p v = .frame f → (s.frameTable f).userCap ≠ 0

/-! ## Giving a slot back changes no bytes and no entries. -/

lemma VmState.pte_addFree (s : VmState) (i : Nat) : (s.addFree i).pte = s.pte := rfl

lemma VmState.pagefile_addFree (s : VmState) (i : Nat) : (s.addFree i).pagefile = s.pagefile :=
  rfl

lemma frameByte_addFree (m : Machine) (s : VmState) (f i j : Nat) :
    m.frameByte (s.addFree i) f j = m.frameByte s f j := rfl

/-! ## The frames of the users -/

/-- A frame that some entry names, or that a fault in flight has been given. -/
def UserFrame (s : VmState) (claim : Option Claim) (f : Nat) : Prop :=
  (∃ p v, PageAddr v ∧ s.pte p v = .frame f) ∨ ∃ k ∈ claim, f ∈ k.page

variable {p : Int} {v i a : Nat} {l : Leaving} {op : MemOp}

section UserFrame

variable {m : Machine} {s : VmState} {u : Usage} {o : Int → Option Claim} {c : Int} {k : Claim}
variable {f : Nat}

lemma Matches.named_use (hm : Matches m s u) (hv : PageAddr v) (hpte : s.pte p v = .frame f) :
    u.frame f = .page p v ∨ u.frame f = .linked p v :=
  ((hm.framed p v f hv).mp hpte).2

lemma Holds.page_use (h : Holds m s u c k) (hp : k.page = some f) :
    u.frame f = .fresh c ∨ u.frame f = .linked c k.vaddr := by
  cases hl : k.linked with
  | false => exact .inl ((h.fresh f).mpr ⟨hp, hl⟩).2
  | true => exact .inr ((h.linked f k.vaddr).mpr ⟨hp, hl, rfl⟩).2

lemma Holds.leaving_use (h : Holds m s u c k) (hl : k.leaving = some l) :
    u.frame l.frame = .leaving l.pid l.vaddr c :=
  ((h.leaving l.frame l.pid l.vaddr).mpr ⟨l.slot, hl⟩).2

lemma Books.linked_iff (hb : Books m s (update o c (some k))) (hp : k.page = some f)
    (hl : k.linked = true) (hv : PageAddr v) : s.pte p v = .frame f ↔ p = c ∧ v = k.vaddr := by
  obtain ⟨u, hm, hc⟩ := hb
  obtain ⟨hf, hu⟩ := ((Holds.of_update hc).linked f k.vaddr).mpr ⟨hp, hl, rfl⟩
  rw [hm.framed p v f hv, hu]
  constructor
  · rintro ⟨-, h | h⟩
    · cases h
    · cases h
      exact ⟨rfl, rfl⟩
  · rintro ⟨rfl, rfl⟩
    exact ⟨hf, .inr rfl⟩

lemma UserFrame.use {claim : Option Claim} (h : UserFrame s claim f) (hm : Matches m s u)
    (hc : ClaimOk m s u c claim) :
    (∃ p v, u.frame f = .page p v ∨ u.frame f = .linked p v) ∨ u.frame f = .fresh c := by
  rcases h with ⟨p, v, hv, hpte⟩ | ⟨k, hk, hf⟩
  · exact .inl ⟨p, v, hm.named_use hv hpte⟩
  · cases hk
    rcases Holds.page_use hc hf with hu | hu
    · exact .inr hu
    · exact .inl ⟨c, k.vaddr, .inr hu⟩

lemma UserFrame.not_buffer {b : Nat} (h : UserFrame s (o c) f) (hb : Books m s o)
    (hbuf : BufferOk m b s o) : ¬ BufferFrame b f := by
  obtain ⟨u, hm, hc⟩ := hb
  refine hbuf.not_buffer hm hc ?_
  rcases h.use hm (hc c) with ⟨p, v, hu | hu⟩ | hu
  all_goals
    rw [hu]
    nofun

lemma UserFrame.ne_nextFree (h : UserFrame s (o c) f) (hb : Books m s o)
    (hroom : s.frameTableCurrSize < m.frameTableSize) : f ≠ s.nextFreePage := by
  rintro rfl
  obtain ⟨u, hm, hc⟩ := hb
  have hfree := (hm.nextFree_free hroom).2
  rcases h.use hm (hc c) with ⟨p, v, hu | hu⟩ | hu
  all_goals
    rw [hu] at hfree
    cases hfree

end UserFrame

/-! ## Bytes -/

/-- Where the bytes are while the fault of process `c` is in flight. The frame of a page that is
read back and the slot of one that is written out are not filled yet, and a frame that no entry
names is empty. -/
structure Contents (m : Machine) (flat : Flat) (c : Int) (s : VmState) (claim : Option Claim) :
    Prop where
  framed : ∀ p v f, PageAddr v → s.pte p v = .frame f →
    (∀ k ∈ claim, p = c → v = k.vaddr → k.linked = true → k.old = none) →
    ∀ j < pageSize, m.frameByte s f j = flat p (v + j)
  swapped : ∀ p v i, PageAddr v → s.pte p v = .pagefile i →
    (∀ k ∈ claim, ∀ l ∈ k.leaving, l.slot ≠ i) →
    ∀ j < pageSize, s.pagefile (i * pageSize + j) = flat p (v + j)
  invalid : ∀ p v, PageAddr v → s.pte p v = .invalid → ∀ j < pageSize, flat p (v + j) = 0
  fresh : ∀ k ∈ claim, ∀ f ∈ k.page, k.linked = false → ∀ j < pageSize, m.frameByte s f j = 0
  reading : ∀ k ∈ claim, k.linked = true → ∀ i ∈ k.old, ∀ j < pageSize,
    s.pagefile (i * pageSize + j) = flat c (k.vaddr + j)

/-- The bytes that are written to the pagefile are those of the page. -/
def PageBytes (flat : Flat) (l : Leaving) (data : Nat → UInt8) : Prop :=
  ∀ j < pageSize, data j = flat l.pid (l.vaddr + j)

section Contents

variable {m : Machine} {b : Nat} {flat : Flat} {c : Int} {s s' : VmState}
variable {o : Int → Option Claim} {k k' : Claim} {claim : Option Claim}

lemma Represents.contents (h : Represents m s flat) (c : Int) : Contents m flat c s none where
  framed p v f hv hp _ := h.framed p v f hv hp
  swapped p v i hv hp _ := h.swapped p v i hv hp
  invalid := h.invalid
  fresh := nofun
  reading := nofun

lemma Contents.represents (h : Contents m flat c s none) : Represents m s flat where
  framed p v f hv hp := h.framed p v f hv hp nofun
  swapped p v i hv hp := h.swapped p v i hv hp nofun
  invalid := h.invalid

lemma Contents.step (h : Contents m flat c s claim) (hpte : s'.pte = s.pte)
    (hmem : ∀ f, UserFrame s claim f → ∀ j < pageSize, m.frameByte s' f j = m.frameByte s f j)
    (hfile : s'.pagefile = s.pagefile) : Contents m flat c s' claim where
  framed p v f hv hp hk j hj := by
    rw [hpte] at hp
    rw [hmem f (.inl ⟨p, v, hv, hp⟩) j hj]
    exact h.framed p v f hv hp hk j hj
  swapped := by
    rw [hpte, hfile]
    exact h.swapped
  invalid := by
    rw [hpte]
    exact h.invalid
  fresh k hk f hf hl j hj := by
    rw [hmem f (.inr ⟨k, hk, hf⟩) j hj]
    exact h.fresh k hk f hf hl j hj
  reading := by
    rw [hfile]
    exact h.reading

lemma Contents.same (h : Contents m flat c s claim) (hpte : s'.pte = s.pte)
    (hmem : s'.mem = s.mem) (hfile : s'.pagefile = s.pagefile) : Contents m flat c s' claim :=
  h.step hpte (fun f _ j _ => by simp only [Machine.frameByte, hmem]) hfile

lemma Contents.setFrame (h : Contents m flat c s claim) (f : Nat)
    (g : FrameTableEntry → FrameTableEntry) : Contents m flat c (s.setFrame f g) claim :=
  h.same rfl rfl rfl

lemma Contents.sameClaim (h : Contents m flat c s (some k)) (haddr : k'.vaddr = k.vaddr)
    (hold : k'.old = k.old) (hpage : k'.page = k.page) (hlinked : k'.linked = k.linked)
    (hleave : k'.leaving = k.leaving) : Contents m flat c s (some k') where
  framed p v f hv hp hk := by
    refine h.framed p v f hv hp ?_
    rintro _ ⟨⟩
    rw [← haddr, ← hold, ← hlinked]
    exact hk k' rfl
  swapped p v i hv hp hk := by
    refine h.swapped p v i hv hp ?_
    rintro _ ⟨⟩
    rw [← hleave]
    exact hk k' rfl
  invalid := h.invalid
  fresh := by
    rintro _ ⟨⟩
    rw [hpage, hlinked]
    exact h.fresh k rfl
  reading := by
    rintro _ ⟨⟩
    rw [hlinked, hold, haddr]
    exact h.reading k rfl

lemma Contents.start (h : Contents m flat c s none) (v : Nat) (old : Option Nat)
    (shape : PageTable.Place → Option Nat) : Contents m flat c s (some (.begin v old shape)) where
  framed p v f hv hp _ := h.framed p v f hv hp nofun
  swapped p v i hv hp _ := h.swapped p v i hv hp nofun
  invalid := h.invalid
  fresh := by
    rintro _ ⟨⟩ _ ⟨⟩
  reading := by
    rintro _ ⟨⟩ ⟨⟩

lemma Contents.over (h : Contents m flat c s (some k)) (hk : k.Done) :
    Contents m flat c s none where
  framed p v f hv hp _ := by
    refine h.framed p v f hv hp ?_
    rintro _ ⟨⟩ _ _ _
    exact hk.old
  swapped p v i hv hp _ := by
    refine h.swapped p v i hv hp ?_
    rintro _ ⟨⟩ l hl
    rw [hk.leaving] at hl
    cases hl
  invalid := h.invalid
  fresh := nofun
  reading := nofun

lemma Contents.swapOut (h : Contents m flat c s (some k)) {f : Nat} {l : PagefileList}
    (hl : k.linked = false) (hleave : k.leaving = none) (hv : PageAddr v)
    (hpte : s.pte p v = .frame f) (hi : i < 2 ^ 52) :
    Contents m flat c (s.swapOut p v i l) (some { k with leaving := some ⟨f, p, v, i⟩ }) where
  framed q w g hw hq _ := by
    rw [pte_swapOut hv hpte hi q hw] at hq
    split at hq
    · cases hq
    · refine h.framed q w g hw hq ?_
      rintro _ ⟨⟩ _ _ hlinked
      rw [hl] at hlinked
      cases hlinked
  swapped q w i' hw hq hslot := by
    rw [pte_swapOut hv hpte hi q hw] at hq
    split at hq
    · cases hq
      exact absurd rfl (hslot _ rfl _ rfl)
    · refine h.swapped q w i' hw hq ?_
      rintro _ ⟨⟩ l' hl'
      rw [hleave] at hl'
      cases hl'
  invalid q w hw hq := by
    rw [pte_swapOut hv hpte hi q hw] at hq
    split at hq
    · cases hq
    · exact h.invalid q w hw hq
  fresh := by
    rintro _ ⟨⟩
    exact h.fresh k rfl
  reading := by
    rintro _ ⟨⟩
    exact h.reading k rfl

lemma UserFrame.of_swapOut {f g : Nat} {l : PagefileList} {x : Option Leaving}
    (h : UserFrame (s.swapOut p v i l) (some { k with leaving := x }) g) (hv : PageAddr v)
    (hpte : s.pte p v = .frame f) (hi : i < 2 ^ 52) : UserFrame s (some k) g := by
  rcases h with ⟨q, w, hw, hq⟩ | ⟨_, ⟨⟩, hg⟩
  · rw [pte_swapOut hv hpte hi q hw] at hq
    split at hq
    · cases hq
    · exact .inl ⟨q, w, hw, hq⟩
  · exact .inr ⟨k, rfl, hg⟩

section Claimed

variable (h : Contents m flat c s (some k)) (hb : Books m s (update o c (some k)))

include h hb

lemma Contents.written {data : Nat → UInt8} {r : NfsReply} (hk : k.leaving = some l)
    (hl : k.linked = false) (hsent : PageBytes flat l data)
    (henv : Reliable c (.write (l.slot * pageSize) pageSize data) r s s') :
    Contents m flat c (s'.release l.frame) (some { k with leaving := none }) := by
  obtain ⟨-, rfl⟩ := henv
  refine { framed := fun p v f hv hp _ => ?_, swapped := fun p v i hv hp _ j hj => ?_,
           invalid := h.invalid, fresh := ?_, reading := ?_ }
  · refine h.framed p v f hv hp ?_
    rintro _ ⟨⟩ _ _ hlinked
    rw [hl] at hlinked
    cases hlinked
  · rcases eq_or_ne i l.slot with rfl | hne
    · obtain ⟨u, hm, hc⟩ := hb
      obtain ⟨-, hslot⟩ := (Holds.of_update hc).toSlot l hk
      obtain ⟨-, hu⟩ := (hm.swapped p v l.slot hv).mp hp
      rw [hslot] at hu
      cases hu
      refine (if_pos (by omega)).trans ?_
      rw [Nat.add_sub_cancel_left]
      exact hsent j hj
    · refine (if_neg (slot_apart hne.symm hj)).trans ?_
      refine h.swapped p v i hv hp ?_ j hj
      rintro _ ⟨⟩ l' hl'
      rw [hk] at hl'
      cases hl'
      exact hne.symm
  · rintro _ ⟨⟩
    exact h.fresh k rfl
  · rintro _ ⟨⟩ hlinked
    have hfalse : k.linked = true := hlinked
    rw [hl] at hfalse
    cases hfalse

lemma Contents.take (hroom : s.frameTableCurrSize < m.frameTableSize) (imp : Bool) :
    Contents m flat c (s.take m imp s.nextFreePage) (some (k.taking imp s.nextFreePage)) := by
  have htaken : Contents m flat c (s.take m imp s.nextFreePage) (some k) := by
    refine h.step rfl (fun f hf j hj => frameByte_clearPage ?_ hj) rfl
    refine UserFrame.ne_nextFree (o := update o c (some k)) (c := c) ?_ hb hroom
    rw [update_self]
    exact hf
  cases imp with
  | true => exact htaken.sameClaim rfl rfl rfl rfl rfl
  | false =>
    refine { framed := fun p v f hv hp hk => htaken.framed p v f hv hp ?_,
             swapped := fun p v i hv hp hk => htaken.swapped p v i hv hp ?_,
             invalid := htaken.invalid, fresh := ?_, reading := ?_ }
    · rintro _ ⟨⟩
      exact hk (k.taking false s.nextFreePage) rfl
    · rintro _ ⟨⟩
      exact hk (k.taking false s.nextFreePage) rfl
    · rintro _ ⟨⟩ _ ⟨⟩ _ j hj
      exact frameByte_clearPage_self s.nextFreePage hj
    · rintro _ ⟨⟩
      exact htaken.reading k rfl

lemma Contents.link {f : Nat} (hpage : k.page = some f) (hl : k.linked = false)
    (hleave : k.leaving = none) {as : AddrSpace} (has : s.procs c = some as)
    (hword : as.pt.word (getPtIndex k.vaddr) ≠ none) :
    Contents m flat c (s.modifyTable c fun t => t.setWord (getPtIndex k.vaddr) (BitVec.ofNat 64 f))
      (some { k with linked := true }) := by
  obtain ⟨u, hm, hc⟩ := hb
  have hown := Holds.of_update hc
  have hpend := hown.pending hl
  have hf : f < 2 ^ 52 := lt_trans ((hown.fresh f).mpr ⟨hpage, hl⟩).1 m.size_lt
  have hpte := fun q w hw => pte_link hf hown.addr has hword q (w := w) hw
  have hslot : ∀ i, ∀ k' ∈ some k, ∀ l ∈ k'.leaving, l.slot ≠ i := by
    rintro i _ ⟨⟩ l hk
    rw [hleave] at hk
    cases hk
  refine { framed := fun p v g hv hp hk j hj => ?_, swapped := fun p v i hv hp _ => ?_,
           invalid := fun p v hv hp => ?_, fresh := ?_, reading := ?_ }
  · rw [hpte p v hv] at hp
    split at hp
    · rename_i hself
      obtain ⟨rfl, rfl⟩ := hself
      cases hp
      have hnone : k.old = none := hk { k with linked := true } rfl rfl rfl rfl
      rw [Claim.entry, hnone] at hpend
      rw [h.invalid p k.vaddr hv hpend j hj]
      exact h.fresh k rfl f hpage hl j hj
    · refine h.framed p v g hv hp ?_ j hj
      rintro _ ⟨⟩ _ _ hlinked
      rw [hl] at hlinked
      cases hlinked
  · rw [hpte p v hv] at hp
    split at hp
    · cases hp
    · exact h.swapped p v i hv hp (hslot i)
  · rw [hpte p v hv] at hp
    split at hp
    · cases hp
    · exact h.invalid p v hv hp
  · rintro _ ⟨⟩ _ _ ⟨⟩
  · rintro _ ⟨⟩ - i hi
    have hold : k.old = some i := hi
    rw [Claim.entry, hold] at hpend
    exact h.swapped c k.vaddr i hown.addr hpend (hslot i)

lemma Contents.filled {f : Nat} (hpage : k.page = some f) (hl : k.linked = true)
    (hold : k.old = some i) (hleave : k.leaving = none) (hpte : s'.pte = s.pte)
    (hfile : s'.pagefile = s.pagefile)
    (hframe : ∀ j < pageSize, m.frameByte s' f j = s.pagefile (i * pageSize + j))
    (hmem : ∀ g, UserFrame s (some k) g → g ≠ f → ∀ j < pageSize,
      m.frameByte s' g j = m.frameByte s g j) :
    Contents m flat c s' (some { k with old := none }) := by
  have hlink := fun p v hv => hb.linked_iff hpage hl (p := p) (v := v) hv
  refine { framed := fun p v g hv hp _ j hj => ?_, swapped := fun p v i' hv hp _ => ?_,
           invalid := ?_, fresh := ?_, reading := ?_ }
  · rw [hpte] at hp
    rcases eq_or_ne g f with rfl | hne
    · obtain ⟨rfl, rfl⟩ := (hlink p v hv).mp hp
      rw [hframe j hj]
      exact h.reading k rfl hl i hold j hj
    · rw [hmem g (.inl ⟨p, v, hv, hp⟩) hne j hj]
      refine h.framed p v g hv hp ?_ j hj
      rintro _ ⟨⟩ rfl rfl _
      have hself := (hlink p k.vaddr hv).mpr ⟨rfl, rfl⟩
      rw [hp] at hself
      exact absurd (Pte.frame.inj hself) hne
  · rw [hpte] at hp
    rw [hfile]
    refine h.swapped p v i' hv hp ?_
    rintro _ ⟨⟩ l hk
    rw [hleave] at hk
    cases hk
  · rw [hpte]
    exact h.invalid
  · rintro _ ⟨⟩ _ _ hlinked
    have hfalse : k.linked = false := hlinked
    rw [hl] at hfalse
    cases hfalse
  · rintro _ ⟨⟩ _ _ ⟨⟩

lemma Contents.read (hbuf : BufferOk m b s (update o c (some k))) {f : Nat}
    (hpage : k.page = some f) (hl : k.linked = true) (hold : k.old = some i)
    (hleave : k.leaving = none) {r : NfsReply}
    (henv : Reliable c (.read (i * pageSize) pageSize) r s s') :
    Contents m flat c (((s'.copyTo (m.getBufFromPid kernelProc) pageSize r.data).copyTo
        (m.pageNumToVaddr f) pageSize fun j =>
          (s'.copyTo (m.getBufFromPid kernelProc) pageSize r.data).mem
            (m.getBufFromPid kernelProc + j)).addFree i)
      (some { k with old := none }) := by
  obtain ⟨-, hdata, rfl⟩ := henv
  refine h.filled hb hpage hl hold hleave ?_ ?_ (fun j hj => ?_) fun g hg hne j hj => ?_
  · rw [VmState.pte_addFree, VmState.pte_copyTo, VmState.pte_copyTo]
    rfl
  · rw [VmState.pagefile_addFree, VmState.pagefile_copyTo, VmState.pagefile_copyTo]
  · rw [frameByte_addFree, frameByte_copyTo_self f hj, VmState.mem_copyTo, if_pos (by omega),
      Nat.add_sub_cancel_left]
    exact hdata j hj
  · have hnot : ¬ BufferFrame b g := by
      refine UserFrame.not_buffer (c := c) ?_ hb hbuf
      rw [update_self]
      exact hg
    rw [frameByte_addFree, frameByte_copyTo_frame hne hj,
      frameByte_copyTo_window hbuf.begins (by decide) hnot hj]
    rfl

end Claimed

lemma Contents.copyWindow (h : Contents m flat c s (o c)) (hb : Books m s o)
    (hbuf : BufferOk m b s o) (hp : p < maxProcesses) (src : Nat → UInt8) :
    Contents m flat c (s.copyTo (m.getBufFromPid p) pageSize src) (o c) :=
  h.step (VmState.pte_copyTo ..)
    (fun _ hf _ hj => frameByte_copyTo_window hbuf.begins hp (hf.not_buffer hb hbuf) hj)
    (VmState.pagefile_copyTo ..)

lemma carried_contents (m : Machine) (b : Nat) (flat : Flat) (c : Int) (v : Nat) :
    Carried m c v (Reliable c) (fun s o => BufferOk m b s o ∧ Contents m flat c s (o c))
      (PageBytes flat) (fun s o => BufferOk m b s o ∧ Contents m flat c s none)
      fun s o => BufferOk m b s o ∧ Contents m flat c s none := by
  have hB : Carried m c v (Reliable c) (BufferOk m b) (fun _ _ => True) (BufferOk m b)
      (BufferOk m b) := carried_buffer Reliable.reply
  constructor
  · exact Reliable.reply
  · intro s o t h
    exact ⟨hB.tick t h.1, h.2.same rfl rfl rfl⟩
  · intro s o h
    exact ⟨hB.opened h.1, h.2.same rfl rfl rfl⟩
  · intro s o old hb h hnone hentry
    refine ⟨hB.start hb h.1 hnone hentry, ?_⟩
    have hd := h.2
    rw [hnone] at hd
    rw [update_self]
    exact hd.start v old _
  · intro s s' o n hb h hs
    refine ⟨hB.sweep hb h.1 hs, ?_⟩
    obtain ⟨k, -, -, rfl⟩ := (sweep_eq_some n).mp hs
    rw [turn_rest]
    exact h.2.same rfl rfl rfl
  · intro s o k f i l hb h hleave hl hno hlt hcap himp hv hpte hnext hi
    have hbuf := (hB.swapOut hb h.1 hleave hl hno hlt hcap himp hv hpte hnext hi).1
    have hd := h.2
    rw [update_self] at hd
    refine ⟨⟨hbuf, ?_⟩, fun data hdata j hj => ?_⟩
    · rw [update_self]
      refine (hd.swapOut hl hleave hv hpte hi).step (VmState.pte_copyTo ..) (fun g hg j hj => ?_)
        (VmState.pagefile_copyTo ..)
      refine frameByte_copyTo_window h.1.begins (by decide) ?_ hj
      refine UserFrame.not_buffer (c := c) ?_ hb h.1
      rw [update_self]
      exact hg.of_swapOut hv hpte hi
    · rw [hdata j hj]
      refine hd.framed _ _ f hv hpte ?_ j hj
      rintro _ ⟨⟩ _ _ hlinked
      rw [hl] at hlinked
      cases hlinked
  · intro s s' o k l data r hb h hk hl hsent henv hr
    simp only [update_self] at h ⊢
    refine ⟨hB.written hb h.1 hk hl trivial henv hr, ?_⟩
    exact h.2.written hb hk hl hsent henv
  · intro s o k imp hb h hrun hroom hk
    simp only [update_self] at h ⊢
    refine ⟨hB.take hb h.1 hrun hroom hk, ?_⟩
    exact h.2.take hb hroom imp
  · intro s o k f as g x hb h hspare has hadd
    simp only [update_self] at h ⊢
    refine ⟨hB.addNode hb h.1 hspare has hadd, ?_⟩
    exact Contents.sameClaim (k := k) (h.2.same (pte_addNode has hadd) rfl rfl) rfl rfl rfl rfl rfl
  · intro s o g h hword hframe
    exact ⟨hB.sameTable h.1 hword hframe, h.2.same (pte_sameTable hword) rfl rfl⟩
  · intro s o k h hcap
    simp only [update_self] at h ⊢
    refine ⟨hB.slot h.1 hcap, ?_⟩
    exact Contents.sameClaim (k := k) (h.2.same rfl rfl rfl) rfl rfl rfl rfl rfl
  · intro s o k f hb h hpage hl hcap
    exact ⟨hB.pageMap hb h.1 hpage hl hcap, h.2.same rfl rfl rfl⟩
  · intro s o k f as hb h hpage hl hleave hno has hword
    simp only [update_self] at h ⊢
    refine ⟨hB.link hb h.1 hpage hl hleave hno has hword, ?_⟩
    exact h.2.link hb hpage hl hleave has hword
  · intro s s' o k f i r hb h hpage hl hold hleave henv hr
    simp only [update_self] at h ⊢
    refine ⟨hB.read hb h.1 hpage hl hold hleave henv hr, ?_⟩
    exact h.2.read hb h.1 hpage hl hold hleave henv
  · intro s o k f hb h hpage hk
    refine ⟨hB.settle hb h.1 hpage hk, ?_⟩
    have hd := h.2
    rw [update_self] at hd
    exact (hd.over hk).setFrame f _
  · intro s o k f hb h hpage hk
    refine ⟨hB.settleRead hb h.1 hpage hk, ?_⟩
    have hc : c < maxProcesses := by
      obtain ⟨u, hm, hc⟩ := hb
      exact (hm.pids c (Holds.of_update hc).proc).2
    have hd := h.2.copyWindow hb h.1 hc fun j => s.mem (m.sharedBufBegin + j)
    rw [update_self] at hd
    exact (hd.over hk).setFrame f _
  · intro s o f hb h hnone hv hpte t mapped
    refine ⟨hB.remap hb h.1 hnone hv hpte t mapped, ?_⟩
    have hd := h.2
    rw [hnone] at hd
    cases mapped with
    | false => exact hd.same rfl rfl rfl
    | true => exact hd.same rfl rfl rfl

end Contents

/-! ## Mappings -/

/-- The mappings while the fault of process `c` is in flight.  The page of the fault may be
mapped to its frame before its entry names it, and the page that is being written out is
mapped until its frame is freed. -/
structure Mapped (c : Int) (s : VmState) (claim : Option Claim) : Prop where
  mapped : ∀ p v y, PageAddr v → ¬ SharedPage v → s.vspace p v = some y →
    (∃ k ∈ claim, p = c ∧ v = k.vaddr ∧ k.page = some y.2 ∧ k.cap = y.1 ∧ y.1 ≠ 0) ∨
      ((s.frameTable y.2).userCap = y.1 ∧ y.1 ≠ 0 ∧
        (s.pte p v = .frame y.2 ∨ ∃ k ∈ claim, ∃ l ∈ k.leaving, l.frame = y.2))
  caps : ∀ p v f, PageAddr v → s.pte p v = .frame f → (∀ k ∈ claim, p = c → v ≠ k.vaddr) →
    (s.frameTable f).userCap ≠ 0
  fresh : ∀ k ∈ claim, ∀ f ∈ k.page, (s.frameTable f).userCap = 0

section Mapped

variable {m : Machine} {c : Int} {s s' : VmState}
variable {o : Int → Option Claim} {k k' : Claim} {claim : Option Claim}

lemma MapsFrames.mapped_none (h : MapsFrames s) (c : Int) : Mapped c s none where
  mapped p v y hv hshared hy := by
    obtain ⟨hpte, hcap⟩ := h.mapped p v y hv hshared hy
    exact .inr ⟨hcap, hcap ▸ h.caps p v y.2 hv hpte, .inl hpte⟩
  caps p v f hv hp _ := h.caps p v f hv hp
  fresh := nofun

lemma Mapped.mapsFrames (h : Mapped c s none) : MapsFrames s where
  mapped p v y hv hshared hy := by
    rcases h.mapped p v y hv hshared hy with ⟨_, ⟨⟩, _⟩ | ⟨hcap, -, hpte | ⟨_, ⟨⟩, _⟩⟩
    exact ⟨hpte, hcap⟩
  caps p v f hv hp := h.caps p v f hv hp nofun

lemma Mapped.step (h : Mapped c s claim)
    (hvspace : ∀ p v y, s'.vspace p v = some y → s.vspace p v = some y) (hpte : s'.pte = s.pte)
    (hcap : ∀ f, (s'.frameTable f).userCap = (s.frameTable f).userCap) : Mapped c s' claim where
  mapped p v y hv hshared hy := by
    rw [hcap, hpte]
    exact h.mapped p v y hv hshared (hvspace p v y hy)
  caps := by
    intro p v f
    rw [hcap, hpte]
    exact h.caps p v f
  fresh := by
    intro k hk f
    rw [hcap]
    exact h.fresh k hk f

lemma Mapped.same (h : Mapped c s claim) (hvspace : s'.vspace = s.vspace)
    (hpte : s'.pte = s.pte) (hframes : s'.frameTable = s.frameTable) : Mapped c s' claim :=
  h.step (fun _ _ _ hy => hvspace ▸ hy) hpte fun f => by rw [hframes]

lemma Mapped.copyTo (h : Mapped c s claim) (dst len : Nat) (src : Nat → UInt8) :
    Mapped c (s.copyTo dst len src) claim :=
  h.same rfl rfl rfl

lemma Mapped.addFree (h : Mapped c s claim) (i : Nat) : Mapped c (s.addFree i) claim :=
  h.same rfl rfl rfl

lemma Mapped.sameClaim (h : Mapped c s (some k)) (haddr : k'.vaddr = k.vaddr)
    (hpage : k'.page = k.page) (hcap : k'.cap = k.cap) (hleave : k'.leaving = k.leaving) :
    Mapped c s (some k') where
  mapped p v y hv hshared hy := by
    rcases h.mapped p v y hv hshared hy with ⟨_, ⟨⟩, hrest⟩ | ⟨hc, hne, hp | ⟨_, ⟨⟩, hl⟩⟩
    · refine .inl ⟨k', rfl, ?_⟩
      rw [haddr, hpage, hcap]
      exact hrest
    · exact .inr ⟨hc, hne, .inl hp⟩
    · refine .inr ⟨hc, hne, .inr ⟨k', rfl, ?_⟩⟩
      rw [hleave]
      exact hl
  caps p v f hv hp hk := by
    refine h.caps p v f hv hp ?_
    rintro _ ⟨⟩
    rw [← haddr]
    exact hk k' rfl
  fresh := by
    rintro _ ⟨⟩
    rw [hpage]
    exact h.fresh k rfl

lemma Mapped.start (h : Mapped c s none) (v : Nat) (old : Option Nat)
    (shape : PageTable.Place → Option Nat) : Mapped c s (some (.begin v old shape)) where
  mapped p v y hv hshared hy := by
    rcases h.mapped p v y hv hshared hy with ⟨_, ⟨⟩, _⟩ | ⟨hc, hne, hp | ⟨_, ⟨⟩, _⟩⟩
    exact .inr ⟨hc, hne, .inl hp⟩
  caps p v f hv hp _ := h.caps p v f hv hp nofun
  fresh := by
    rintro _ ⟨⟩ _ ⟨⟩

lemma Mapped.swapOut (h : Mapped c s (some k)) {f : Nat} {l : PagefileList}
    (hleave : k.leaving = none) (hv : PageAddr v) (hpte : s.pte p v = .frame f) (hi : i < 2 ^ 52) :
    Mapped c (s.swapOut p v i l) (some { k with leaving := some ⟨f, p, v, i⟩ }) where
  mapped q w y hw hshared hy := by
    rcases h.mapped q w y hw hshared hy with ⟨_, ⟨⟩, hrest⟩ | ⟨hc, hne, hq | ⟨_, ⟨⟩, l', hl', _⟩⟩
    · exact .inl ⟨_, rfl, hrest⟩
    · refine .inr ⟨hc, hne, ?_⟩
      rw [pte_swapOut hv hpte hi q hw]
      split
      · rename_i hself
        obtain ⟨rfl, rfl⟩ := hself
        rw [hpte] at hq
        exact .inr ⟨_, rfl, _, rfl, Pte.frame.inj hq⟩
      · exact .inl hq
    · rw [hleave] at hl'
      cases hl'
  caps q w g hw hq hk := by
    rw [pte_swapOut hv hpte hi q hw] at hq
    split at hq
    · cases hq
    · refine h.caps q w g hw hq ?_
      rintro _ ⟨⟩ hpid haddr
      exact hk _ rfl hpid haddr
  fresh := by
    rintro _ ⟨⟩
    exact h.fresh k rfl

lemma Mapped.release (h : Mapped c s (some k)) (hb : Books m s (update o c (some k)))
    (hk : k.leaving = some l) :
    Mapped c (s.release l.frame) (some { k with leaving := none }) := by
  obtain ⟨u, hm, hc⟩ := hb
  have hown := Holds.of_update hc
  have hleaving := hown.leaving_use hk
  have hother : ∀ {p v f}, PageAddr v → s.pte p v = .frame f → f ≠ l.frame := by
    rintro p v f hv hp rfl
    have huse := hm.named_use hv hp
    simp [hleaving] at huse
  refine { mapped := fun p v y hv hshared hy => ?_, caps := fun p v f hv hp hfree => ?_,
           fresh := ?_ }
  · have hunmap : s.vspace p v = some y ∧ ¬ ((s.frameTable l.frame).userCap ≠ 0 ∧
          s.vspace p v = some ((s.frameTable l.frame).userCap, l.frame)) := by
      simp only [VmState.release, VmState.setFrame, VmState.pageUnmap] at hy
      split at hy
      · cases hy
      · exact ⟨hy, ‹_›⟩
    obtain ⟨hold, hkept⟩ := hunmap
    rcases h.mapped p v y hv hshared hold with
      ⟨_, ⟨⟩, hrest⟩ | ⟨hcap, hne, hp | ⟨_, ⟨⟩, l', hl', hf⟩⟩
    · exact .inl ⟨_, rfl, hrest⟩
    · refine .inr ⟨?_, hne, .inl hp⟩
      rw [frameTable_release, if_neg (hother hv hp)]
      exact hcap
    · rw [hk] at hl'
      cases hl'
      rw [hf, hcap] at hkept
      exact absurd ⟨hne, hold⟩ hkept
  · have hp : s.pte p v = .frame f := hp
    rw [frameTable_release, if_neg (hother hv hp)]
    refine h.caps p v f hv hp ?_
    rintro _ ⟨⟩ hpid haddr
    exact hfree _ rfl hpid haddr
  · rintro _ ⟨⟩ f hf
    rw [frameTable_release]
    split
    · rfl
    · exact h.fresh k rfl f hf

lemma Mapped.take (h : Mapped c s (some k)) (hb : Books m s (update o c (some k)))
    (hroom : s.frameTableCurrSize < m.frameTableSize) {imp : Bool} (hk : k.CanTake imp) :
    Mapped c (s.take m imp s.nextFreePage) (some (k.taking imp s.nextFreePage)) := by
  obtain ⟨u, hm, hc⟩ := hb
  have hown := Holds.of_update hc
  have huse := (hm.nextFree_free hroom).2
  have hother : ∀ {p v f}, PageAddr v → s.pte p v = .frame f → f ≠ s.nextFreePage := by
    rintro p v f hv hp rfl
    have hnamed := hm.named_use hv hp
    simp [huse] at hnamed
  have hleaving : ∀ l, k.leaving = some l → l.frame ≠ s.nextFreePage := by
    intro l hl heq
    have hl' := hown.leaving_use hl
    rw [heq, huse] at hl'
    cases hl'
  have htake : Mapped c (s.take m imp s.nextFreePage) (some k) := by
    refine { mapped := fun p v y hv hshared hy => ?_, caps := fun p v f hv hp hfree => ?_,
             fresh := ?_ }
    · rcases h.mapped p v y hv hshared hy with hrest | ⟨hcap, hne, hp | ⟨_, ⟨⟩, l, hl, hf⟩⟩
      · exact .inl hrest
      · refine .inr ⟨?_, hne, .inl hp⟩
        rw [frameTable_take, if_neg (hother hv hp)]
        exact hcap
      · refine .inr ⟨?_, hne, .inr ⟨k, rfl, l, hl, hf⟩⟩
        rw [frameTable_take, if_neg (hf ▸ hleaving l hl)]
        exact hcap
    · have hp : s.pte p v = .frame f := hp
      rw [frameTable_take, if_neg (hother hv hp)]
      exact h.caps p v f hv hp hfree
    · rintro _ ⟨⟩ f hf
      rw [frameTable_take]
      split
      · rfl
      · exact h.fresh k rfl f hf
  cases imp with
  | true => exact htake.sameClaim rfl rfl rfl rfl
  | false =>
    have hnone : k.page = none := hk.1
    refine { mapped := fun p v y hv hshared hy => ?_, caps := fun p v f hv hp hfree => ?_,
             fresh := ?_ }
    · rcases htake.mapped p v y hv hshared hy with
        ⟨_, ⟨⟩, -, -, hpage, -⟩ | ⟨hcap, hne, hp | ⟨_, ⟨⟩, hl⟩⟩
      · rw [hnone] at hpage
        cases hpage
      · exact .inr ⟨hcap, hne, .inl hp⟩
      · exact .inr ⟨hcap, hne, .inr ⟨k.taking false s.nextFreePage, rfl, hl⟩⟩
    · refine htake.caps p v f hv hp ?_
      rintro _ ⟨⟩
      exact hfree (k.taking false s.nextFreePage) rfl
    · rintro _ ⟨⟩ f ⟨⟩
      rw [frameTable_take, if_pos rfl]

lemma Mapped.slot (h : Mapped c s (some k)) (hcap : k.cap = 0) (cap : Nat) :
    Mapped c s (some { k with cap := cap }) where
  mapped p v y hv hshared hy := by
    rcases h.mapped p v y hv hshared hy with
      ⟨_, ⟨⟩, -, -, -, hzero, hne⟩ | ⟨hc, hne, hp | ⟨_, ⟨⟩, hl⟩⟩
    · exact absurd (hzero.symm.trans hcap) hne
    · exact .inr ⟨hc, hne, .inl hp⟩
    · exact .inr ⟨hc, hne, .inr ⟨_, rfl, hl⟩⟩
  caps p v f hv hp hk := by
    refine h.caps p v f hv hp ?_
    rintro _ ⟨⟩ hpid haddr
    exact hk _ rfl hpid haddr
  fresh := by
    rintro _ ⟨⟩
    exact h.fresh k rfl

lemma Mapped.pageMap (h : Mapped c s (some k)) {f : Nat} (hpage : k.page = some f)
    (hcap : k.cap ≠ 0) (r : CapRights) : Mapped c (s.pageMap c k.vaddr k.cap r f) (some k) where
  mapped p v y hv hshared hy := by
    by_cases hself : p = c ∧ v = k.vaddr
    · obtain ⟨rfl, rfl⟩ := hself
      simp only [VmState.pageMap, update_self, Option.some.injEq] at hy
      subst y
      exact .inl ⟨k, rfl, rfl, rfl, hpage, rfl, hcap⟩
    · refine h.mapped p v y hv hshared ?_
      rw [← hy]
      simp only [VmState.pageMap, Function.update_apply]
      grind
  caps := h.caps
  fresh := h.fresh

lemma Mapped.link (h : Mapped c s (some k)) (hb : Books m s (update o c (some k))) {f : Nat}
    (hpage : k.page = some f) (hl : k.linked = false) {as : AddrSpace}
    (has : s.procs c = some as) (hword : as.pt.word (getPtIndex k.vaddr) ≠ none) :
    Mapped c (s.modifyTable c fun t => t.setWord (getPtIndex k.vaddr) (BitVec.ofNat 64 f))
      (some { k with linked := true }) := by
  obtain ⟨u, hm, hc⟩ := hb
  have hown := Holds.of_update hc
  have hf : f < 2 ^ 52 := lt_trans ((hown.fresh f).mpr ⟨hpage, hl⟩).1 m.size_lt
  have hpte := fun q w hw => pte_link hf hown.addr has hword q (w := w) hw
  have hpend : ∀ g, s.pte c k.vaddr ≠ .frame g := by
    rw [hown.pending hl]
    exact k.entry_ne_frame
  refine { mapped := fun p v y hv hshared hy => ?_, caps := fun p v g hv hp hk => ?_, fresh := ?_ }
  · rcases h.mapped p v y hv hshared hy with ⟨_, ⟨⟩, hrest⟩ | ⟨hcap, hne, hp | ⟨_, ⟨⟩, hlv⟩⟩
    · exact .inl ⟨_, rfl, hrest⟩
    · refine .inr ⟨hcap, hne, .inl ?_⟩
      rw [hpte p v hv, if_neg]
      · exact hp
      · rintro ⟨rfl, rfl⟩
        exact hpend _ hp
    · exact .inr ⟨hcap, hne, .inr ⟨_, rfl, hlv⟩⟩
  · have hne : ¬ (p = c ∧ v = k.vaddr) := fun hself => hk _ rfl hself.1 hself.2
    rw [hpte p v hv, if_neg hne] at hp
    refine h.caps p v g hv hp ?_
    rintro _ ⟨⟩ hpid haddr
    exact hk _ rfl hpid haddr
  · rintro _ ⟨⟩
    exact h.fresh k rfl

lemma Mapped.settle (h : Mapped c s (some k)) (hb : Books m s (update o c (some k))) {f : Nat}
    (hpage : k.page = some f) (hk : k.Done) :
    Mapped c (s.setFrame f fun e => { e with pid := c, userVaddr := k.vaddr, userCap := k.cap })
      none := by
  have hlink := fun p v hv => hb.linked_iff hpage hk.linked (p := p) (v := v) hv
  have hframe : ∀ g, g ≠ f → (s.setFrame f fun e =>
      { e with pid := c, userVaddr := k.vaddr, userCap := k.cap }).frameTable g =
        s.frameTable g := fun g hne => update_of_ne hne ..
  have hself : ((s.setFrame f fun e =>
      { e with pid := c, userVaddr := k.vaddr, userCap := k.cap }).frameTable f).userCap =
        k.cap := by simp [VmState.setFrame]
  refine { mapped := fun p v y hv hshared hy => ?_, caps := fun p v g hv hp _ => ?_,
           fresh := by simp }
  · rcases h.mapped p v y hv hshared hy with
      ⟨_, ⟨⟩, rfl, rfl, hy2, hy1, hne⟩ | ⟨hcap, hne, hp | ⟨_, ⟨⟩, l, hl, -⟩⟩
    · obtain rfl : y.2 = f := Option.some.inj (hy2.symm.trans hpage)
      exact .inr ⟨hself.trans hy1, hne, .inl ((hlink _ _ hv).mpr ⟨rfl, rfl⟩)⟩
    · -- a page that was mapped properly is in another frame, for this one had no capability
      have hyf : y.2 ≠ f := by
        rintro hyf
        rw [hyf, h.fresh k rfl f hpage] at hcap
        exact hne hcap.symm
      refine .inr ⟨?_, hne, .inl hp⟩
      rw [hframe _ hyf]
      exact hcap
    · rw [hk.leaving] at hl
      cases hl
  · change s.pte p v = .frame g at hp
    rcases eq_or_ne g f with rfl | hne
    · rw [hself]
      exact hk.cap
    · rw [hframe g hne]
      refine h.caps p v g hv hp ?_
      rintro _ ⟨⟩ rfl rfl
      have hown := (hlink _ _ hv).mpr ⟨rfl, rfl⟩
      rw [hp] at hown
      exact hne (Pte.frame.inj hown)

lemma Mapped.remap (h : Mapped c s none) {f : Nat} (hv : PageAddr v)
    (hpte : s.pte c v = .frame f) (r : CapRights) :
    Mapped c (s.pageMap c v (s.frameTable f).userCap r f) none where
  mapped p w y hw hshared hy := by
    by_cases hself : p = c ∧ w = v
    · obtain ⟨rfl, rfl⟩ := hself
      simp only [VmState.pageMap, update_self, Option.some.injEq] at hy
      subst y
      exact .inr ⟨rfl, h.caps _ _ f hv hpte (by simp), .inl hpte⟩
    · refine h.mapped p w y hw hshared ?_
      rw [← hy]
      simp only [VmState.pageMap, Function.update_apply]
      grind
  caps := h.caps
  fresh := by simp

lemma userCap_setFrame (s : VmState) (f : Nat) {g : FrameTableEntry → FrameTableEntry}
    (hg : ∀ e, (g e).userCap = e.userCap) (f' : Nat) :
    ((s.setFrame f g).frameTable f').userCap = (s.frameTable f').userCap := by
  rcases eq_or_ne f' f with rfl | hne
  · simp [VmState.setFrame, hg]
  · simp [VmState.setFrame, hne]

lemma sweep_vspace {n : Nat} (hs : sweep m n s = some s') (p : Int) (v : Nat) (y : Nat × Nat)
    (hy : s'.vspace p v = some y) : s.vspace p v = some y := by
  obtain ⟨j, -, -, rfl⟩ := (sweep_eq_some n).mp hs
  clear hs
  induction j with
  | zero => exact hy
  | succ j ih =>
    refine ih ?_
    rcases sweepStep_vspace (m := m) (s := turn m s j) p v with heq | ⟨hnone, -⟩
    · exact heq ▸ hy
    · cases hnone.symm.trans hy

lemma carried_mapped (m : Machine) (c : Int) (v : Nat) :
    Carried m c v (Reliable c) (fun s o => Mapped c s (o c)) (fun _ _ => True)
      (fun s _ => Mapped c s none) fun s _ => Mapped c s none := by
  constructor
  · exact Reliable.reply
  · intro s o t h
    exact h.same rfl rfl rfl
  · intro s o h
    exact h.same rfl rfl rfl
  · intro s o old hb h hnone hentry
    rw [hnone] at h
    rw [update_self]
    exact h.start v old _
  · intro s s' o n hb h hs
    refine h.step (sweep_vspace hs) ?_ ?_
    · obtain ⟨j, -, -, rfl⟩ := (sweep_eq_some n).mp hs
      exact VmState.pte_procs (by rw [turn_rest])
    · obtain ⟨j, -, -, rfl⟩ := (sweep_eq_some n).mp hs
      intro f
      rw [turn_frame]
  · intro s o k f i l hb h hleave hl hno hlt hcap himp hv hpte hnext hi
    rw [update_self] at h ⊢
    exact ⟨(h.swapOut hleave hv hpte hi).copyTo _ _ _, fun _ _ => trivial⟩
  · intro s s' o k l data r hb h hk hl hsent henv hr
    rw [update_self] at h ⊢
    obtain ⟨hsame, hclock, hopen, -⟩ := henv.reply
    have hs' : Mapped c s' (some k) := by
      obtain ⟨-, rfl⟩ := henv
      exact h.same rfl rfl rfl
    exact hs'.release (hb.congr hsame hclock (.inr hopen)) hk
  · intro s o k imp hb h hrun hroom hk
    rw [update_self] at h ⊢
    exact h.take hb hroom hk
  · intro s o k f as g x hb h hspare has hadd
    rw [update_self] at h ⊢
    exact Mapped.sameClaim (k := k) (h.same rfl (pte_addNode has hadd) rfl) rfl rfl rfl rfl
  · intro s o g h hword hframe
    exact h.same rfl (pte_sameTable hword) rfl
  · intro s o k h hcap
    rw [update_self] at h ⊢
    exact (h.slot hcap _).same rfl rfl rfl
  · intro s o k f hb h hpage hl hcap
    rw [update_self] at h ⊢
    exact h.pageMap hpage hcap allRights
  · intro s o k f as hb h hpage hl hleave hno has hword
    rw [update_self] at h ⊢
    exact h.link hb hpage hl has hword
  · intro s s' o k f i r hb h hpage hl hold hleave henv hr
    rw [update_self] at h ⊢
    obtain ⟨-, -, rfl⟩ := henv
    have hread : Mapped c { s with running := c } (some k) := h.same rfl rfl rfl
    have hcopied := ((hread.copyTo (m.getBufFromPid kernelProc) pageSize r.data).copyTo
      (m.pageNumToVaddr f) pageSize fun j =>
        ({ s with running := c }.copyTo (m.getBufFromPid kernelProc) pageSize r.data).mem
          (m.getBufFromPid kernelProc + j)).addFree i
    exact hcopied.sameClaim rfl rfl rfl rfl
  · intro s o k f hb h hpage hk
    rw [update_self] at h
    exact h.settle hb hpage hk
  · intro s o k f hb h hpage hk
    rw [update_self] at h
    exact ((h.copyTo _ _ _).settle (hb.copyTo _ _ _) hpage hk)
  · intro s o f hb h hnone hv hpte t mapped
    rw [hnone] at h
    have hcap : ∀ g, ((s.setFrame f fun e => { e with pid := c }).frameTable g).userCap =
        (s.frameTable g).userCap := userCap_setFrame s f fun _ => rfl
    have h1 : Mapped c { s.setFrame f fun e => { e with pid := c } with time := t } none :=
      h.step (fun _ _ _ hy => hy) rfl hcap
    have hset : ∀ {s' : VmState}, Mapped c s' none →
        Mapped c (s'.setFrame f fun e => { e with refBit := true }) none := by
      intro s' h'
      exact h'.step (fun _ _ _ hy => hy) rfl (userCap_setFrame s' f fun _ => rfl)
    refine hset ?_
    cases mapped with
    | false => exact h1
    | true =>
      rw [← hcap f]
      exact h1.remap hv hpte allRights

end Mapped

/-! ## Runs -/

/-- A byte as a process loads it, if its page is mapped. -/
def VmState.load (s : VmState) (m : Machine) (pid : Int) (a : Nat) : Option UInt8 :=
  (s.vspace pid (pageAlign a)).map fun y => m.frameByte s y.2 (a % pageSize)

def VmState.store (s : VmState) (m : Machine) (pid : Int) (a : Nat) (byte : UInt8) :
    Option VmState :=
  (s.vspace pid (pageAlign a)).map fun y =>
    { s with mem := update s.mem (m.pageNumToVaddr y.2 + a % pageSize) byte }

/-- A store of a process, a page fault, or the end of an address space. -/
inductive MemOp where
  | store (pid : Int) (vaddr : Fin (2 ^ 48)) (byte : UInt8)
  | fault (pid : Int) (faultaddress : Fin (2 ^ 48))
  | destroy (pid : Int)

def MemOp.onFlat (flat : Flat) : MemOp → Flat
  | .store pid vaddr byte => update flat pid (update (flat pid) vaddr byte)
  | .fault _ _ => flat
  | .destroy pid => update flat pid fun _ => 0

/-- An operation that comes to its end, on the memory of the machine and on flat memory. -/
def MemStep (m : Machine) (x : VmState × Flat) (op : MemOp) (y : VmState × Flat) : Prop :=
  y.2 = op.onFlat x.2 ∧ match op with
    | .store pid vaddr byte => x.1.store m pid vaddr byte = some y.1
    | .fault pid faultaddress => Exec (Reliable pid) (faultCo m pid faultaddress x.1) ⟨⟩ y.1
    | .destroy pid => Exec (Reliable pid) (asDestroy m pid x.1) ⟨⟩ y.1

/-- Stores outside of the region of the shared buffer. -/
def Unshared (_ : VmState × Flat) : MemOp → Prop
  | .store _ vaddr _ => ¬ SharedPage (pageAlign vaddr)
  | .fault _ _ | .destroy _ => True

/-- The victims of a fault are written out as well. -/
def UnsharedSaves (m : Machine) (x : VmState × Flat) : MemOp → Prop
  | .store _ vaddr _ => ¬ SharedPage (pageAlign vaddr)
  | .fault pid faultaddress => Saves m x.1 (.fault pid faultaddress)
  | .destroy _ => True

structure Faithful (m : Machine) (b : Nat) (s : VmState) (flat : Flat) : Prop where
  consistent : Consistent m s
  wellFormed : WellFormed m s
  buffer : BufferOk m b s fun _ => none
  maps : MapsFrames s
  represents : Represents m s flat

section Run

variable {m : Machine} {b : Nat} {s t : VmState} {flat : Flat} {pid : Int}

lemma pageAlign_add (a : Nat) : pageAlign a + a % pageSize = a := by
  unfold pageAlign pageSize
  omega

lemma onFlat_store_of_ne {j : Nat} (hv : PageAddr v) (hj : j < pageSize)
    (hne : ¬ (p = pid ∧ v = pageAlign a)) (byte : UInt8) :
    update flat pid (update (flat pid) a byte) p (v + j) = flat p (v + j) := by
  rcases eq_or_ne p pid with rfl | hp
  · rw [update_self, update_of_ne]
    rintro rfl
    refine hne ⟨rfl, ?_⟩
    obtain ⟨-, hmod⟩ := hv
    unfold pageAlign pageSize at *
    omega
  · rw [update_of_ne hp]

lemma frameByte_store {f g j : Nat} (hj : j < pageSize) (hi : i < pageSize) (byte : UInt8) :
    m.frameByte { s with mem := update s.mem (m.pageNumToVaddr g + i) byte } f j =
      if f = g ∧ j = i then byte else m.frameByte s f j := by
  unfold Machine.frameByte
  dsimp only
  rw [Function.update_apply]
  refine if_congr ?_ rfl rfl
  unfold Machine.pageNumToVaddr
  unfold pageSize at *
  omega

lemma Faithful.load (h : Faithful m b s flat) (ha : a < 2 ^ 48)
    (hshared : ¬ SharedPage (pageAlign a)) {byte : UInt8} (hload : s.load m pid a = some byte) :
    byte = flat pid a := by
  obtain ⟨y, hy, rfl⟩ := Option.map_eq_some_iff.mp hload
  have hv := pageAddr_pageAlign ha
  obtain ⟨hpte, -⟩ := h.maps.mapped pid _ y hv hshared hy
  rw [h.represents.framed pid _ y.2 hv hpte _ (Nat.mod_lt _ (by decide)), pageAlign_add]

lemma Faithful.store (h : Faithful m b s flat) (ha : a < 2 ^ 48)
    (hshared : ¬ SharedPage (pageAlign a)) {byte : UInt8} (hstore : s.store m pid a byte = some t) :
    Faithful m b t (update flat pid (update (flat pid) a byte)) := by
  obtain ⟨y, hy, rfl⟩ := Option.map_eq_some_iff.mp hstore
  have hv := pageAddr_pageAlign ha
  obtain ⟨hpte, -⟩ := h.maps.mapped pid _ y hv hshared hy
  have hj0 : a % pageSize < pageSize := Nat.mod_lt _ (by decide)
  have hother : ∀ {p v}, s.pte p v ≠ .frame y.2 → ¬ (p = pid ∧ v = pageAlign a) := by
    rintro p v hne ⟨rfl, rfl⟩
    exact hne hpte
  obtain ⟨l, hl⟩ := h.wellFormed.freeFrames
  refine { consistent := { h.consistent with }, wellFormed := { h.wellFormed with
             freeFrames := ⟨l, hl.chain, hl.nodup, hl.mem_iff, hl.count⟩ },
           buffer := { h.buffer with }, maps := { h.maps with }, represents := ?_ }
  refine { framed := fun p v f hw hp j hj => ?_, swapped := fun p v i hw hp j hj => ?_,
           invalid := fun p v hw hp j hj => ?_ }
  · change s.pte p v = .frame f at hp
    rw [frameByte_store hj hj0]
    have hold := h.represents.framed p v f hw hp j hj
    rcases eq_or_ne f y.2 with rfl | hne
    · obtain ⟨rfl, rfl⟩ := h.consistent.frameOnce _ _ _ _ _ hw hv hp hpte
      rw [update_self, Function.update_apply]
      refine (if_congr ?_ rfl rfl).trans (by rw [hold])
      have hadd := pageAlign_add a
      omega
    · rw [if_neg fun hself => hne hself.1, hold,
        onFlat_store_of_ne hw hj (hother (by simp [hp, hne])) byte]
  · change s.pte p v = .pagefile i at hp
    rw [onFlat_store_of_ne hw hj (hother (by simp [hp])) byte]
    exact h.represents.swapped p v i hw hp j hj
  · change s.pte p v = .invalid at hp
    rw [onFlat_store_of_ne hw hj (hother (by simp [hp])) byte]
    exact h.represents.invalid p v hw hp j hj

lemma Faithful.fault (h : Faithful m b s flat) (halloc : ∀ n, m.allocOk n = true)
    (hopen : s.pfVnode = true ∨ ∀ n, m.openOk n = true) {fa : Nat} (hfa : fa < 2 ^ 48)
    (he : Exec (Reliable pid) (faultCo m pid fa s) ⟨⟩ t) : Faithful m b t flat := by
  have hb := (settled_usageOf h.consistent h.wellFormed hopen).toBooks
  have hbuf : BufferOk m b { s with running := pid } fun _ => none :=
    h.buffer.step (fun _ _ => ⟨rfl, rfl⟩) rfl
  have hcontents : Contents m flat pid { s with running := pid } none :=
    (h.represents.contents pid).same rfl rfl rfl
  have hmapped : Mapped pid { s with running := pid } none :=
    (h.maps.mapped_none pid).same rfl rfl rfl
  obtain ⟨t1, hafter, rfl⟩ := (faultCo_ok
    ((carried_contents m b flat pid (pageAlign fa)).and (carried_mapped m pid (pageAlign fa)))
    halloc hb ⟨⟨hbuf, hcontents⟩, hmapped⟩ rfl hfa (.inl fun _ _ _ hk => nomatch hk)).exec he
  obtain ⟨hb1, ⟨hbuf1, hcontents₁⟩, hmapped₁⟩ := hafter.over
  rw [Function.update_eq_self_iff.mpr rfl] at hb1 hbuf1
  have hb2 : Books m { t1 with log := .finished pid :: t1.log } fun _ => none :=
    hb1.congr ⟨fun _ => rfl, rfl, rfl, rfl, rfl⟩ rfl (.inr rfl)
  obtain ⟨u, hu⟩ := hb2.settled
  exact { consistent := hu.consistent, wellFormed := hu.wellFormed,
          buffer := hbuf1.step (fun _ _ => ⟨rfl, rfl⟩) rfl, maps := { hmapped₁.mapsFrames with },
          represents := { hcontents₁.represents with } }

lemma Faithful.ofOpening (h : Faithful m.opening b s flat) : Faithful m b s flat :=
  { consistent := h.consistent.ofSize rfl, wellFormed := h.wellFormed.ofSize rfl,
    buffer := { h.buffer with }, maps := h.maps, represents := { h.represents with } }

lemma Faithful.opening (h : Faithful m b s flat) : Faithful m.opening b s flat :=
  { consistent := h.consistent.ofSize rfl, wellFormed := h.wellFormed.ofSize rfl,
    buffer := { h.buffer with }, maps := h.maps, represents := { h.represents with } }

lemma Faithful.destroy (h : Faithful m b s flat)
    (he : Exec (Reliable pid) (asDestroy m pid s) ⟨⟩ t) :
    Faithful m b t (update flat pid fun _ => 0) := by
  have hb := (settled_usageOf h.opening.consistent h.opening.wellFormed
    (.inr fun _ => rfl)).toBooks
  obtain ⟨hb1, hd⟩ := (asDestroy_ok (J := fun _ _ => True) (c := 0) (o := fun _ => none)
    hb pid).exec he
  obtain ⟨u, hu⟩ := hb1.settled
  have hsame : ∀ {p}, p ≠ pid → ∀ v, t.pte p v = s.pte p v := by
    intro p hne v
    simp only [VmState.pte, hd.procs, update_of_ne hne]
  have hgone : ∀ v, t.pte pid v = .invalid := by
    intro v
    simp only [VmState.pte, hd.procs, update_self]
  have hframe : ∀ {p v f}, p ≠ pid → PageAddr v → s.pte p v = .frame f →
      t.frameTable f = s.frameTable f := by
    intro p v f hne hv hp
    refine hd.frames f (fun w hw hq => ?_) fun x hx => ?_
    · exact hne (h.consistent.frameOnce p v pid w f hv hw hp hq).1
    · have himp := (h.wellFormed.tables pid x f hx).2.2
      rw [(h.consistent.framed p v f hv hp).2.2.1] at himp
      cases himp
  have hframes : ∀ {p v f}, PageAddr v → t.pte p v = .frame f →
      p ≠ pid ∧ s.pte p v = .frame f ∧ t.frameTable f = s.frameTable f := by
    intro p v f hv hp
    have hne : p ≠ pid := by
      rintro rfl
      rw [hgone] at hp
      cases hp
    rw [hsame hne] at hp
    exact ⟨hne, hp, hframe hne hv hp⟩
  refine { consistent := hu.consistent.ofSize rfl, wellFormed := hu.wellFormed.ofSize rfl,
           buffer := ?_, maps := ?_, represents := ?_ }
  · refine { begins := h.buffer.begins, frames := fun f hf => ?_, tables := fun f p x hf => ?_,
             spare := by simp }
    · obtain ⟨hlt, hcap, himp⟩ := h.buffer.frames f hf
      have hkept : t.frameTable f = s.frameTable f := by
        refine hd.frames f (fun v hv hp => ?_) fun x => h.buffer.tables f pid x hf
        rw [(h.consistent.framed pid v f hv hp).2.2.1] at himp
        cases himp
      refine ⟨hlt, ?_, hkept ▸ himp⟩
      unfold VmState.allocated
      rw [hkept]
      exact hcap
    · rcases eq_or_ne p pid with rfl | hne
      · simp [VmState.tableFrame, hd.procs]
      · have htable := h.buffer.tables f p x hf
        simpa only [VmState.tableFrame, hd.procs, update_of_ne hne] using htable
  · refine { mapped := fun p v y hv hshared hy => ?_, caps := fun p v f hv hp => ?_ }
    · have hold : s.vspace p v = some y := by
        rcases hd.mapped p v with heq | hnone
        · exact heq ▸ hy
        · cases hnone.symm.trans hy
      obtain ⟨hp, hcap⟩ := h.maps.mapped p v y hv hshared hold
      have hne : p ≠ pid := by
        rintro rfl
        refine hd.unmapped y.2 v hv hp (h.maps.caps p v y.2 hv hp) p v ?_
        rw [hcap]
        exact hy
      rw [hsame hne, hframe hne hv hp]
      exact ⟨hp, hcap⟩
    · obtain ⟨-, hold, hkept⟩ := hframes hv hp
      rw [hkept]
      exact h.maps.caps p v f hv hold
  · refine { framed := fun p v f hv hp j hj => ?_, swapped := fun p v i hv hp j hj => ?_,
             invalid := fun p v hv hp j hj => ?_ }
    · obtain ⟨hne, hold, -⟩ := hframes hv hp
      rw [update_of_ne hne, Machine.frameByte, hd.mem]
      exact h.represents.framed p v f hv hold j hj
    · have hne : p ≠ pid := by
        rintro rfl
        rw [hgone] at hp
        cases hp
      rw [hsame hne] at hp
      rw [update_of_ne hne, hd.pagefile]
      exact h.represents.swapped p v i hv hp j hj
    · rcases eq_or_ne p pid with rfl | hne
      · rw [update_self]
      · rw [hsame hne] at hp
        rw [update_of_ne hne]
        exact h.represents.invalid p v hv hp j hj

lemma MemStep.faithful (halloc : ∀ n, m.allocOk n = true) {x y : VmState × Flat}
    (h : Faithful m b x.1 x.2) (hop : UnsharedSaves m x op) (hstep : MemStep m x op y) :
    Faithful m b y.1 y.2 := by
  obtain ⟨hflat, hstep⟩ := hstep
  rw [hflat]
  cases op with
  | store pid vaddr byte => exact h.store vaddr.isLt hop hstep
  | destroy pid => exact h.destroy hstep
  | fault pid faultaddress =>
    rcases hop with hopen | hopen | ⟨f, hf⟩
    · exact h.fault halloc (.inl hopen) faultaddress.isLt hstep
    · exact h.fault halloc (.inr hopen) faultaddress.isLt hstep
    · have hstep' : Exec (Reliable pid) (faultCo m.opening pid faultaddress x.1) ⟨⟩ y.1 := by
        rw [← faultCo_opening hf]
        exact hstep
      exact (h.opening.fault (m := m.opening) halloc (.inr fun _ => rfl) faultaddress.isLt
        hstep').ofOpening

/-- Demand paging refines flat memory: along every run of stores, faults and destroyed address
spaces whose victims are written out, all bytes are where flat memory has them, and a process
loads what flat memory holds. -/
theorem paging_refines_flat_memory {flat' : Flat} (halloc : ∀ n, m.allocOk n = true)
    (hstart : Faithful m b s flat)
    (hrun : Lts.Run (MemStep m) (UnsharedSaves m) (s, flat) (t, flat')) :
    Represents m t flat' ∧ ∀ pid a byte, a < 2 ^ 48 → ¬ SharedPage (pageAlign a) →
      t.load m pid a = some byte → byte = flat' pid a := by
  have h : Faithful m b t flat' :=
    hrun.invariant (I := fun x => Faithful m b x.1 x.2) hstart
      fun hx hop hstep => hstep.faithful halloc hx hop
  exact ⟨h.represents, fun pid a byte ha hshared hload => h.load ha hshared hload⟩

end Run

/-! ## A page that goes out and comes back -/

instance (v : Nat) : Decidable (SharedPage v) := inferInstanceAs (Decidable (_ ∧ _))

instance (x : VmState × Flat) (op : MemOp) : Decidable (Unshared x op) :=
  match op with
  | .store _ vaddr _ => inferInstanceAs (Decidable (¬ SharedPage (pageAlign vaddr)))
  | .fault _ _ | .destroy _ => .isTrue trivial

def MemOp.play (m : Machine) (op : MemOp) (x : VmState × Flat) : Option (VmState × Flat) :=
  let s? := match op with
    | .store pid vaddr byte => x.1.store m pid vaddr byte
    | .fault pid faultaddress =>
        ((faultCo m pid faultaddress x.1).run (wholePages pid)).toOption.map Prod.snd
    | .destroy pid => ((asDestroy m pid x.1).run (wholePages pid)).toOption.map Prod.snd
  s?.map fun s => (s, op.onFlat x.2)

lemma MemOp.step_of_play {m : Machine} {x y : VmState × Flat} (h : op.play m x = some y) :
    MemStep m x op y := by
  obtain ⟨s, hs, rfl⟩ := Option.map_eq_some_iff.mp h
  refine ⟨rfl, ?_⟩
  cases op with
  | store pid vaddr byte => exact hs
  | fault pid faultaddress =>
    obtain ⟨⟨⟨⟩, _⟩, hrun, rfl⟩ := Option.map_eq_some_iff.mp hs
    exact Res.exec_of_toOption (reliable_wholePages pid) hrun
  | destroy pid =>
    obtain ⟨⟨⟨⟩, _⟩, hrun, rfl⟩ := Option.map_eq_some_iff.mp hs
    exact Res.exec_of_toOption (reliable_wholePages pid) hrun

def smallFlat (inUse : Bool) : Flat := fun p a =>
  if inUse = true ∧ p = 1 ∧ 0x3000 ≤ a ∧ a < 0x4000 then 7 else 0

lemma faithful_smallSystem {m : Machine} {n : Nat} (inUse : Bool)
    (hsize : m.frameTableSize = n + 12) (hn : 32 * 256 ≤ n)
    (hbegin : m.sharedBufBegin = m.pageNumToVaddr 0) :
    Faithful m 0 (smallSystem n inUse) (smallFlat inUse) := by
  have hlt : n + 11 < 2 ^ 52 := by
    have hlt := m.size_lt
    omega
  have hpte := fun p v hv => pte_smallSystem hlt inUse p (v := v) hv
  refine { consistent := consistent_smallSystem inUse hsize,
           wellFormed := wellFormed_smallSystem inUse hsize,
           buffer := bufferOk_smallSystem inUse hsize hn hbegin,
           maps := { mapped := fun p v y hv _ hy => ?_, caps := fun p v f hv hp => ?_ },
           represents := { framed := fun p v f hv hp j hj => ?_,
                           swapped := fun p v i hv hp j hj => ?_,
                           invalid := fun p v hv hp j hj => ?_ } }
  · rw [hpte p v hv]
    simp only [smallSystem] at hy ⊢
    split at hy
    · rename_i hself
      cases hy
      simp [hself]
    · split at hy
      · rename_i hself
        cases hy
        simp [hself]
      · cases hy
  · rw [hpte p v hv] at hp
    simp only [smallSystem]
    grind
  · rw [hpte p v hv] at hp
    have hv' : v = 0x1000 := by grind
    subst hv'
    show 0 = smallFlat inUse p (0x1000 + j)
    unfold smallFlat
    unfold pageSize at hj
    rw [if_neg (by omega)]
  · rw [hpte p v hv] at hp
    have hself : inUse = true ∧ p = 1 ∧ v = 0x3000 := by grind
    obtain ⟨rfl, rfl, rfl⟩ := hself
    unfold pageSize at hj
    exact (if_pos ⟨rfl, rfl, by omega, by omega⟩).symm
  · rw [hpte p v hv] at hp
    unfold smallFlat
    unfold pageSize at hj
    rw [if_neg]
    rintro ⟨hu, rfl, hlo, hhi⟩
    obtain ⟨-, hmod⟩ := hv
    obtain rfl : v = 0x3000 := by omega
    simp [hu] at hp

lemma saves_of_opens {m : Machine} (hopen : ∀ n, m.openOk n = true) {x : VmState × Flat}
    (h : Unshared x op) : UnsharedSaves m x op := by
  cases op with
  | store pid vaddr byte => exact h
  | fault pid faultaddress => exact .inr (.inl hopen)
  | destroy pid => trivial

theorem paging_refines_flat_memory_swapped :
    ∃ t flat', Lts.Run (MemStep (grantingMachine 8204))
        (UnsharedSaves (grantingMachine 8204))
        (smallSystem 8192 true, smallFlat true) (t, flat') ∧
      t.load (grantingMachine 8204) 1 0x1000 = some 9 ∧ flat' 1 0x1000 = 9 := by
  have hplay : ([MemOp.store 1 0x1000 9, .fault 2 0x2000, .fault 1 0x1000].foldlM
      (fun x op => if Unshared x op then op.play (grantingMachine 8204) x else none)
      (smallSystem 8192 true, smallFlat true)).any (fun x =>
        (x.1.load (grantingMachine 8204) 1 0x1000).isSome ∧ x.2 1 0x1000 = 9) = true := by
    decide +kernel
  obtain ⟨⟨t, flat'⟩, hrun, hsome, hflat⟩ :=
    Lts.Run.exists_of_guarded_play MemOp.step_of_play _ hplay
  have hrun' : Lts.Run (MemStep (grantingMachine 8204))
      (UnsharedSaves (grantingMachine 8204))
      (smallSystem 8192 true, smallFlat true) (t, flat') :=
    hrun.mono fun _ _ hop => saves_of_opens (fun _ => rfl) hop
  obtain ⟨byte, hbyte⟩ := Option.isSome_iff_exists.mp hsome
  have hloads := (paging_refines_flat_memory (fun _ => rfl)
    (faithful_smallSystem true rfl (by decide) (by decide)) hrun').2
  refine ⟨t, flat', hrun', ?_, hflat⟩
  rw [hbyte, hloads 1 0x1000 byte (by decide) (by decide) hbyte]
  exact congrArg some hflat

theorem unsaved_victim_loses_bytes :
    Faithful (closedMachine 8204) 0 (smallSystem 8192 false) (smallFlat false) ∧
      ∃ t flat', Lts.Run (MemStep (closedMachine 8204)) Unshared
          (smallSystem 8192 false, smallFlat false) (t, flat') ∧
        t.load (closedMachine 8204) 1 0x1000 = some 0 ∧ flat' 1 0x1000 = 7 := by
  refine ⟨faithful_smallSystem false rfl (by decide) (by decide), ?_⟩
  have hplay : ([MemOp.store 1 0x1000 7, .fault 1 0x2000, .fault 2 0x2000, .fault 1 0x1000].foldlM
      (fun x op => if Unshared x op then op.play (closedMachine 8204) x else none)
      (smallSystem 8192 false, smallFlat false)).any (fun x =>
        x.1.load (closedMachine 8204) 1 0x1000 = some 0 ∧ x.2 1 0x1000 = 7) = true := by
    decide +kernel
  obtain ⟨⟨t, flat'⟩, hrun⟩ := Lts.Run.exists_of_guarded_play MemOp.step_of_play _ hplay
  exact ⟨t, flat', hrun⟩

end SpaghettiOS.Vm
