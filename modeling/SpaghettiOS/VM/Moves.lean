import SpaghettiOS.VM.Consistency

/-!
# The moves of the pager

`frame_alloc` and `sos_map_frame` get their frames in a few kinds of moves: the clock goes
past a frame, a page is written out and its frame freed, a frame is taken.  What holds
across each of them holds across the functions, whatever else is evicted on the way.
-/

namespace SpaghettiOS.Vm

open Coro (Keeps bind_apply get_apply modify_apply set_apply)
open Coroutine (Res)

/-- Nothing but bytes, the pagefile and the time is different. -/
def SameTables (s t : VmState) : Prop :=
  t = { s with
    mem := t.mem
    pagefile := t.pagefile
    pfList := t.pfList
    pfVnode := t.pfVnode
    running := t.running
    time := t.time }

instance : Std.Refl SameTables where
  refl _ := rfl

instance : IsTrans VmState SameTables where
  trans s t u h h' := by rw [SameTables, h', h]

/-- No frame is on record for a page of the process with the index. -/
def NotHeld (pid : Int) (i : PtIndex) (s : VmState) : Prop :=
  ∀ page, (s.frameTable page).pid = pid → getPtIndex (s.frameTable page).userVaddr ≠ i

/-- A relation that holds across each move of `pageout` and `pagein`. -/
structure PageoutMoves (G : VmState → VmState → Prop) : Prop where
  same : ∀ {s t}, SameTables s t → (s.pfVnode = true → t.pfVnode = true) → G s t
  /-- The entry of the page in a frame is changed. -/
  swapOut : ∀ s page ind, G s (s.modifyTable (s.frameTable page).pid fun t =>
    t.setWord (getPtIndex (s.frameTable page).userVaddr) (pageUpdateEntry pPagefile ind))

/-- A relation that holds across each move of `frame_alloc`. -/
structure AllocMoves (m : Machine) (G : VmState → VmState → Prop) : Prop
    extends PageoutMoves G where
  turn : ∀ s, G s (sweepStep m s)
  release : ∀ s page, G s (s.release page)
  take : ∀ s important page, G s (s.take m important page)

section Same

variable {m : Machine} {pid : Int} {G : VmState → VmState → Prop}
variable (hG : ∀ {s t}, SameTables s t → (s.pfVnode = true → t.pfVnode = true) → G s t)

include hG

lemma ask_keeps {α : Type} (answers : Nat → α) : Keeps (Served pid) G (ask answers) :=
  fun _ => hG rfl id

lemma copyTo_keeps (s : VmState) (dst len : Nat) (data : Nat → UInt8) :
    G s (s.copyTo dst len data) :=
  hG rfl id

lemma sosCopyin_keeps (c : Int) (a n : Nat) : Keeps (Served pid) G (sosCopyin m c a n) := by
  intro s
  simp only [sosCopyin, bind_apply, modify_apply, Res.bind]
  exact copyTo_keeps hG s _ _ _

lemma sosCopyout_keeps (c : Int) (a n : Nat) : Keeps (Served pid) G (sosCopyout m c a n) := by
  intro s
  simp only [sosCopyout, bind_apply, modify_apply, Res.bind]
  exact copyTo_keeps hG s _ _ _

lemma yield_keeps (req : NfsReq) : Keeps (Served pid) G (Coro.yield req : VmM NfsReply) := by
  refine .yield ?_
  rintro _ s _ ⟨file, rfl⟩
  exact hG rfl id

variable [Std.Refl G] [IsTrans VmState G]

lemma cspaceAllocSlot_keeps (hslot : ∀ s, G s { s with nextSlot := s.nextSlot + 1 }) :
    Keeps (Served pid) G (cspaceAllocSlot m) := by
  refine Keeps.bind (ask_keeps hG _) fun ok => ?_
  split
  · exact hslot
  · exact .pure _

lemma vnfsWrite_keeps (a n : Nat) : Keeps (Served pid) G (vnfsWrite m a n) :=
  Keeps.bind .get fun _ => Keeps.bind (yield_keeps hG _) fun _ =>
    Keeps.bind (.check _ _) fun _ => .pure _

lemma vnfsRead_keeps (a n : Nat) : Keeps (Served pid) G (vnfsRead m a n) :=
  Keeps.bind (yield_keeps hG _) fun _ => Keeps.bind (.check _ _) fun _ =>
    Keeps.bind (.modify fun _ => hG rfl id) fun _ => .pure _

lemma ensureOpen_keeps : Keeps (Served pid) G (ensureOpen m) := by
  refine Keeps.bind .get fun s => ?_
  split
  · exact .pure _
  · refine Keeps.bind (ask_keeps hG _) fun ok => ?_
    split
    · exact Keeps.bind (.modify fun _ => hG rfl fun _ => rfl) fun _ => .pure _
    · exact .pure _

lemma pagein_keeps (entry a : Nat) : Keeps (Served pid) G (pagein m entry a) := by
  refine Keeps.bind .get fun s => ?_
  split
  · exact .pure _
  · refine Keeps.bind (vnfsRead_keeps hG _ _) fun n => Keeps.bind (.check _ _) fun _ => ?_
    refine Keeps.bind (.check _ _) fun _ => Keeps.bind (sosCopyout_keeps hG _ _ _) fun n => ?_
    refine Keeps.bind (.check _ _) fun _ => ?_
    exact Keeps.bind (.modify fun _ => hG rfl id) fun _ => .pure _

end Same

section Pageout

variable {m : Machine} {pid : Int} {G : VmState → VmState → Prop}

lemma getFrame_eq_some {s : VmState} {page : Nat} {fte : FrameTableEntry}
    (h : m.getFrame s page = some fte) : fte = s.frameTable page := by
  unfold Machine.getFrame at h
  split at h
  · cases h
  · exact (Option.some.inj h).symm

variable [Std.Refl G] [IsTrans VmState G] (hG : PageoutMoves G)

include hG

lemma pageoutVictim_keeps (page : Nat) : Keeps (Served pid) G (pageoutVictim m page) := by
  intro s
  simp only [pageoutVictim, bind_apply, get_apply, Res.bind]
  refine Res.Ends.ofOption_bind fun fte hfte => ?_
  obtain rfl := getFrame_eq_some hfte
  refine Res.Ends.check_bind fun _ => Res.Ends.check_bind fun _ => ?_
  refine Res.Ends.ofOption_bind fun as _ => Res.Ends.ofOption_bind fun w _ => ?_
  simp only [bind_apply, set_apply, modify_apply, Res.bind]
  have hslot : G s { s with pfList := (nextFreeNode s.pfList).2 } := hG.same rfl id
  have hswap := IsTrans.trans _ _ _ hslot (hG.swapOut _ page (nextFreeNode s.pfList).1)
  refine Res.Ends.mono (Q := fun _ t => G _ t) ?_ fun _ _ h => IsTrans.trans _ _ _ hswap h
  refine Keeps.bind (.check _ _) (fun _ => ?_) _
  exact Keeps.bind (sosCopyin_keeps hG.same _ _ _) fun _ => Keeps.bind (.check _ _) fun _ => .pure _

lemma pageout_keeps (page : Nat) : Keeps (Served pid) G (pageout m page) := by
  refine Keeps.bind (ensureOpen_keeps hG.same) fun opened => ?_
  split
  · refine Keeps.bind (pageoutVictim_keeps hG page) fun ind => ?_
    exact Keeps.bind (vnfsWrite_keeps hG.same _ _) fun n => Keeps.bind (.check _ _) fun _ => .pure _
  · exact .pure _

end Pageout

section Alloc

variable {m : Machine} {pid : Int} {G : VmState → VmState → Prop}
variable [Std.Refl G] [IsTrans VmState G] (hG : AllocMoves m G)

include hG

lemma sweep_keeps {s t : VmState} {n : Nat} (h : sweep m n s = some t) : G s t := by
  obtain ⟨k, -, -, rfl⟩ := (sweep_eq_some _).mp h
  clear h
  induction k with
  | zero => exact Std.Refl.refl s
  | succ k ih => exact IsTrans.trans _ _ _ ih (hG.turn _)

omit [IsTrans VmState G] in
lemma frameFree_keeps (page : Nat) : Keeps (Served pid) G (frameFree m page) := by
  intro s
  simp only [frameFree, bind_apply, get_apply, Res.bind]
  split
  · exact Std.Refl.refl s
  · exact Res.Ends.check_bind fun _ => hG.release s page

lemma evict_keeps : Keeps (Served pid) G (evict m) := by
  intro s
  simp only [evict, bind_apply, get_apply, Res.bind]
  refine Res.Ends.ofOption_bind fun swept hswept => ?_
  simp only [bind_apply, set_apply, Res.bind]
  refine Res.Ends.mono ?_ fun _ _ h => IsTrans.trans _ _ _ (sweep_keeps hG hswept) h
  refine Keeps.bind (pageout_keeps hG.toPageoutMoves _) (fun _ => ?_) _
  exact Keeps.bind .get fun t => Keeps.bind (frameFree_keeps hG _) fun _ =>
    Keeps.bind .get fun u => .pure _

lemma frameAllocWith_keeps (important : Bool) :
    Keeps (Served pid) G (frameAllocWith m important) := by
  refine Keeps.bind .get fun s => Keeps.bind (.check _ _) fun _ => Keeps.bind ?_ fun page => ?_
  · refine Keeps.bind .get fun s => ?_
    split
    · exact evict_keeps hG
    · exact .pure _
  · refine Keeps.bind (ask_keeps hG.same _) fun ok => ?_
    split
    · exact Keeps.bind (.modify fun s => hG.take s important page) fun _ => .pure _
    · exact .pure _

end Alloc

/-- A relation that holds across each change of a page table as well. -/
structure TableMoves (m : Machine) (G : VmState → VmState → Prop) : Prop
    extends AllocMoves m G where
  table : ∀ s pid f, G s (s.modifyTable pid f)

/-- A relation that holds across each change of the chunks of one process. -/
structure ChunkMoves (m : Machine) (c : Int) (G : VmState → VmState → Prop) : Prop
    extends AllocMoves m G where
  chunks : ∀ s (f : List ObjectsFrame → List ObjectsFrame),
    G s (s.modifyTable c fun t => { t with seL4Pages := f t.seL4Pages })

section Table

variable {m : Machine} {pid : Int} {G : VmState → VmState → Prop}
variable [Std.Refl G] [IsTrans VmState G]

lemma pageTableOf_keeps (c : Int) : Keeps (Served pid) G (pageTableOf c) :=
  Keeps.bind .get fun _ => Keeps.bind (.ofOption _ _) fun _ => .pure _

lemma seL4PageMap_keeps
    (hG : ∀ {s t}, SameTables s t → (s.pfVnode = true → t.pfVnode = true) → G s t)
    {vs : Int} {vaddr cap page : Nat} {r : CapRights}
    (hmap : ∀ s, G s (s.pageMap vs vaddr cap r page)) :
    Keeps (Served pid) G (seL4PageMap m vs vaddr cap r page) := by
  refine Keeps.bind (ask_keeps hG _) fun err => ?_
  split
  · intro s
    simp only [bind_apply, get_apply, Res.bind]
    split
    · exact Std.Refl.refl s
    · exact hmap s
  · exact .pure _

lemma saveSeL4Info_keeps {c : Int} (hG : ChunkMoves m c G) :
    Keeps (Served pid) G (saveSeL4Info m c) := by
  refine Keeps.bind (Keeps.bind (pageTableOf_keeps c) fun t => ?_) fun _ => ?_
  · split
    · refine Keeps.bind (frameAllocWith_keeps hG.toAllocMoves true) fun r => ?_
      exact Keeps.bind (.check _ _) fun _ =>
        .modify fun s => hG.chunks s (· ++ [{ frame := r.1, size := 0 }])
    · exact .pure _
  · exact .modify fun s => hG.chunks s bumpLast

lemma mapLevels_keeps {c vs : Int} {vaddr cap page : Nat} {r : CapRights} (hG : ChunkMoves m c G)
    (hmap : Keeps (Served pid) G (seL4PageMap m vs vaddr cap r page)) (n : Nat) (err : SeL4Error) :
    Keeps (Served pid) G (mapLevels m c vs vaddr cap r page n err) := by
  induction n generalizing err with
  | zero => exact .pure _
  | succ n ih =>
    cases err with
    | noError | deleteFirst | other => exact .pure _
    | failedLookup =>
      refine Keeps.bind (ask_keeps hG.same _) fun ut => ?_
      split
      · refine Keeps.bind (ask_keeps hG.same _) fun slot => ?_
        split
        · refine Keeps.bind (ask_keeps hG.same _) fun err => ?_
          refine Keeps.bind (saveSeL4Info_keeps hG) fun _ => Keeps.bind ?_ fun err => ih err
          unfold retryMap
          split
          · exact hmap
          · exact .pure _
        · exact .pure _
      · exact .pure _

variable (hG : TableMoves m G)

include hG

omit [Std.Refl G] [IsTrans VmState G] in
lemma TableMoves.chunkMoves (c : Int) : ChunkMoves m c G :=
  { hG.toAllocMoves with chunks := fun s _ => hG.table s c _ }

lemma ensureNode_keeps (c : Int) (present : PageTable → Bool) (add : PageTable → Nat → PageTable) :
    Keeps (Served pid) G (ensureNode m c present add) := by
  refine Keeps.bind (pageTableOf_keeps c) fun t => ?_
  split
  · exact .pure _
  · refine Keeps.bind (frameAllocWith_keeps hG.toAllocMoves true) fun r => ?_
    split
    split
    · exact .pure _
    · exact Keeps.bind (.modify fun s => hG.table s _ _) fun _ => .pure _

lemma pageTableInsert_keeps (c : Int) (vaddr page : Nat) :
    Keeps (Served pid) G (pageTableInsert m c vaddr page) := by
  refine Keeps.bind (ensureNode_keeps hG _ _ _) fun hasPud => ?_
  split
  · refine Keeps.bind (ensureNode_keeps hG _ _ _) fun hasPd => ?_
    split
    · refine Keeps.bind (ensureNode_keeps hG _ _ _) fun hasPt => ?_
      split
      · exact Keeps.bind (.modify fun s => hG.table s _ _) fun _ => .pure _
      · exact .pure _
    · exact .pure _
  · exact .pure _

section Map

variable {vs : Int} {vaddr cap page : Nat} {r : CapRights}
variable (hmap : Keeps (Served pid) G (seL4PageMap m vs vaddr cap r page))

include hmap

lemma sosMapFrame_keeps (c : Int) (isSosAddr : Bool) :
    Keeps (Served pid) G (sosMapFrame m c vs cap vaddr r page isSosAddr) := by
  refine Keeps.bind hmap fun err => ?_
  refine Keeps.bind (mapLevels_keeps (hG.chunkMoves c) hmap _ err) fun err => ?_
  split
  · exact .pure _
  · split
    · exact pageTableInsert_keeps hG _ _ _
    · exact .pure _

end Map

end Table

def SameNodes (s t : VmState) : Prop := t.tableFrame = s.tableFrame

instance : Std.Refl SameNodes where
  refl _ := rfl

instance : IsTrans VmState SameNodes where
  trans _ _ _ h h' := Eq.trans h' h

lemma sameNodes_moves {m : Machine} : AllocMoves m SameNodes where
  same := by
    intro s t h _
    rw [h]
    rfl
  swapOut _ _ _ := tableFrame_setWord_state _ _ _
  turn s := VmState.tableFrame_procs (by rw [sweepStep_rest])
  release _ _ := rfl
  take _ _ _ := rfl

end SpaghettiOS.Vm
