import SpaghettiOS.VM.Image

/-!
# One segment

`load_segment_into_vspace` from any state in which the pages of the segment are not
mapped.  While there are free frames it runs to its end at once: every page of the
segment gets a frame that was free, with its entry in the page table and its owner
in the frame table, and holds the bytes of the file with zeros around them.
-/

namespace SpaghettiOS.Vm

open Coroutine (Res Exec)

/-- The capabilities pages are mapped through are in slots that have been handed out. -/
def Slotted (s : VmState) : Prop :=
  ∀ p v x, s.vspace p v = some x → x.1 ≤ s.nextSlot

/-- The segment is a possible one, none of its pages is mapped, and neither is a page of SOS
where the loader wants to map them. -/
structure SegmentReady (pid : Int) (h : ProgramHeader) (s : VmState) : Prop where
  user : pid ≠ kernelProc
  proc : s.procs pid ≠ none
  vaddr : h.vaddr < 2 ^ 64
  file : h.fileSize ≤ h.memorySize
  memory : h.memorySize ≤ 2 ^ 32 - pageSize
  unmapped : ∀ v, h.MeetsPage v → s.vspace pid v = none
  window : ∀ i < h.memorySize, s.vspace kernelProc (loaderVaddr (h.addr i)) = none
  slots : Slotted s

/-- Between `s` and `t` the segment was loaded: `frame` is the frame of each of its pages, which
was free before, and no other frame was taken but for page tables. -/
structure SegmentLoaded (m : Machine) (pid : Int) (file : Nat → UInt8) (h : ProgramHeader)
    (s t : VmState) (frame : Nat → Nat) : Prop where
  entry : ∀ v, h.MeetsPage v → t.pte pid v = .frame (frame v)
  mapped : ∀ v, h.MeetsPage v → ∃ cap, t.vspace pid v = some (cap, frame v)
  fresh : ∀ v, h.MeetsPage v → frame v < m.frameTableSize ∧ ¬ s.allocated (frame v) ∧
    t.allocated (frame v) ∧ (t.frameTable (frame v)).important = false
  once : ∀ v w, h.MeetsPage v → h.MeetsPage w → frame v = frame w → v = w
  only : ∀ f, t.allocated f → ¬ s.allocated f →
    (∃ v, h.MeetsPage v ∧ frame v = f) ∨ (t.frameTable f).important = true
  owner : ∀ v, h.MeetsPage v → (t.frameTable (frame v)).pid = pid ∧
    (t.frameTable (frame v)).userVaddr = v
  source : ∀ i < h.fileSize,
    m.frameByte t (frame (pageAlign (h.addr i))) (h.addr i % pageSize) = file (h.offset + i)
  zero : ∀ v, h.MeetsPage v → ∀ j < pageSize, (∀ i < h.fileSize, h.addr i ≠ v + j) →
    m.frameByte t (frame v) j = 0

section Segment

variable {m : Machine} {n : Nat} {pid : Int} {l : List LoadedPage} {s t : VmState}
variable {file : Nat → UInt8} {h : ProgramHeader}

def frameOf (l : List LoadedPage) (v : Nat) : Nat :=
  ((l.find? fun e => e.vaddr = v).map LoadedPage.frame).getD 0

lemma Spans.frameOf_eq (hs : Spans file h 0 l) {e : LoadedPage} (he : e ∈ l) :
    frameOf l e.vaddr = e.frame := by
  rw [frameOf, find?_of_pairwise hs.apart he]
  rfl

lemma Spans.pageAt (hs : Spans file h 0 l) {v : Nat} (hv : h.MeetsPage v) :
    ∃ e ∈ l, e.vaddr = v ∧ frameOf l v = e.frame := by
  obtain ⟨i, hi, rfl⟩ := hv
  obtain ⟨e, he, hv⟩ := hs.every i (Nat.zero_le i) hi
  exact ⟨e, he, hv, hv ▸ hs.frameOf_eq he⟩

lemma LoadsPages.segmentLoaded (hl : LoadsPages m pid n l s t) (hs : Spans file h 0 l)
    (hnone : ∀ v, h.MeetsPage v → s.vspace pid v = none) (hfile : h.fileSize ≤ h.memorySize) :
    SegmentLoaded m pid file h s t (frameOf l) where
  entry v hv := by
    obtain ⟨e, he, rfl, hframe⟩ := hs.pageAt hv
    have honce : l.reverse.Pairwise fun e e' => getPtIndex e.vaddr ≠ getPtIndex e'.vaddr :=
      List.pairwise_reverse.mpr hs.once
    rw [hl.pte, find?_of_pairwise honce (List.mem_reverse.mpr he), hframe]
    rfl
  mapped v hv := by
    obtain ⟨e, he, rfl, hframe⟩ := hs.pageAt hv
    have hmap := hl.vspace e.vaddr
    rw [hnone _ hv, find?_of_pairwise hs.apart he] at hmap
    obtain ⟨⟨cap, page⟩, hx, hpage⟩ := Option.map_eq_some_iff.mp hmap
    exact ⟨cap, hframe ▸ hpage ▸ hx⟩
  fresh v hv := by
    obtain ⟨e, he, rfl, hframe⟩ := hs.pageAt hv
    have hp := hl.page e he
    rw [hframe]
    exact ⟨hp.lt, hp.free, hp.taken, hp.plain⟩
  once v w hv hw heq := by
    obtain ⟨e, he, rfl, hframe⟩ := hs.pageAt hv
    obtain ⟨e', he', rfl, hframe'⟩ := hs.pageAt hw
    rw [hframe, hframe'] at heq
    exact congrArg LoadedPage.vaddr (List.inj_on_of_nodup_map hl.nodup he he' heq)
  only f ht hfree := by
    by_cases hmem : f ∈ l.map LoadedPage.frame
    · obtain ⟨e, he, rfl⟩ := List.mem_map.mp hmem
      obtain ⟨i, -, hi, hv⟩ := hs.page e he
      exact .inl ⟨e.vaddr, ⟨i, hi, hv⟩, hs.frameOf_eq he⟩
    · exact .inr (hl.fills.fresh f hmem ht hfree)
  owner v hv := by
    obtain ⟨e, he, rfl, hframe⟩ := hs.pageAt hv
    rw [hframe]
    exact ⟨(hl.page e he).owner, (hl.page e he).userVaddr⟩
  source i hi := by
    obtain ⟨e, he, hv, hframe⟩ := hs.pageAt ⟨i, lt_of_lt_of_le hi hfile, rfl⟩
    rw [hframe, (hl.page e he).bytes _ (Nat.mod_lt _ (by decide))]
    exact hs.source e he i (Nat.zero_le i) hi hv
  zero v hv j hj hno := by
    obtain ⟨e, he, rfl, hframe⟩ := hs.pageAt hv
    rw [hframe, (hl.page e he).bytes j hj]
    exact hs.zero e he j hj fun i _ hi => hno i hi

/-- With frames to spare a segment is loaded byte for byte. -/
theorem load_segment_byte_for_byte (hm : Obliging m) (hready : SegmentReady pid h s)
    (hroom : Room m (10 * (h.memorySize / pageSize + 2)) s) (file : Nat → UInt8) :
    ∃ t, loadSegmentIntoVspace m pid file h s = .done 0 t ∧
      ∃ frame, SegmentLoaded m pid file h s t frame := by
  have hcounted : h.Counted := by
    refine ⟨h.memorySize + (pageSize - (h.vaddr + h.memorySize) % pageSize) % pageSize, ?_,
      Nat.le_add_right _ _, ?_⟩
    · have hmemory := hready.memory
      unfold pageSize at hmemory ⊢
      omega
    · unfold pageSize
      omega
  obtain ⟨err, t, hdone, hwindow, hzero⟩ := (Res.Returns.check_bind (e := Abort.segmentSize)
    (f := fun _ => loadLoop m pid file h (h.memorySize / pageSize + 2) 0 h.vaddr h.offset)
    hready.file (loadLoop_segment (k := 0) hm hready.user hready.vaddr hready.file hcounted hroom
      hready.proc (hready.slots pid))).eq_done
  obtain rfl := hwindow (hready.slots kernelProc) hready.window
  obtain ⟨l, hl, hspans⟩ := hzero rfl
  exact ⟨t, hdone, frameOf l, hl.segmentLoaded hspans hready.unmapped hready.file⟩

end Segment

/-! ## Two pages -/

/-- A segment that begins inside a page, with a file that ends inside the next. -/
def acrossPages : ProgramHeader := ⟨ptLoad, 0x10, 0x900, 0x1800, 0x1f00, pfR ||| pfW⟩

lemma segmentReady_newProcess {h : ProgramHeader} (hv : h.vaddr < 2 ^ 64)
    (hfile : h.fileSize ≤ h.memorySize) (hmemory : h.memorySize ≤ 2 ^ 32 - pageSize)
    (clock : Nat) : SegmentReady 1 h { newProcess with clockCurr := clock } where
  user := by decide
  proc := by simp [newProcess]
  vaddr := hv
  file := hfile
  memory := hmemory
  unmapped _ _ := rfl
  window _ _ := rfl
  slots := nofun

theorem load_segment_across_pages :
    SegmentReady 1 acrossPages newProcess ∧ Room (grantingMachine 64) 30 newProcess ∧
      ∃ t, loadSegmentIntoVspace (grantingMachine 64) 1 (fun _ => 9) acrossPages
        newProcess = .done 0 t ∧
        ∃ frame, SegmentLoaded (grantingMachine 64) 1 (fun _ => 9) acrossPages
          newProcess t frame := by
  have hready : SegmentReady 1 acrossPages newProcess :=
    segmentReady_newProcess (by decide) (by decide) (by decide) 0
  have hroom : Room (grantingMachine 64) 30 newProcess := room_newProcess (by decide)
  exact ⟨hready, hroom, load_segment_byte_for_byte (obliging_granting _) hready hroom _⟩

def twoPages : ProgramHeader := ⟨ptLoad, 0, 0x2000, 0x2000, 0x1000, pfR⟩

theorem segment_page_swapped_out :
    Obliging (grantingMachine 6) ∧ SegmentReady 1 twoPages { newProcess with clockCurr := 5 } ∧
      ∃ t, Exec (Served 1) (loadSegmentIntoVspace (grantingMachine 6) 1 (fun _ => 9)
          twoPages { newProcess with clockCurr := 5 }) 0 t ∧
        ¬ ∃ frame, SegmentLoaded (grantingMachine 6) 1 (fun _ => 9) twoPages
          { newProcess with clockCurr := 5 } t frame := by
  refine ⟨obliging_granting _, segmentReady_newProcess (by decide) (by decide) (by decide) 5, ?_⟩
  obtain ⟨_, t, hexec, rfl, hpte⟩ := Res.exists_exec
    (m := loadSegmentIntoVspace (grantingMachine 6) 1 (fun _ => 9) twoPages
      { newProcess with clockCurr := 5 })
    (P := fun r t => r = 0 ∧ t.pte 1 0x1000 = .pagefile 0) (served_wholePages 1) (by decide +kernel)
  refine ⟨t, hexec, fun ⟨frame, hloaded⟩ => ?_⟩
  have hframe := hloaded.entry 0x1000 ⟨0, by decide, by decide⟩
  rw [hpte] at hframe
  exact nomatch hframe

end SpaghettiOS.Vm
