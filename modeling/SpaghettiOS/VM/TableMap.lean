import SpaghettiOS.VM.Stock

/-!
# A page table is a map

`page_table_insert` builds the levels of a table as it needs them, each in a frame of
its own, and gives up when there is none left.  For `page_lookup` the table is a map from
page numbers of 36 bits to entries all the same.

A frame that is needed may have to be taken from a page of another process.  The pages in
the table here have no frames that could be taken: it is `vm_fault` that says which page a
frame holds.
-/

namespace SpaghettiOS.Vm

open Function (update)
open Coro (Keeps check)
open Coroutine (Res Exec)

/-! ## New tables -/

/-- `page_table_init`.  The second frame is stored in the first one, and the first use of
the table reads through the second one. -/
def pageTableInit (m : Machine) : VmM PageTable := do
  let (page, vaddr) ← frameAllocImportant m
  check (vaddr ≠ 0) .nullPointer
  let (pgd, vaddr) ← frameAllocImportant m
  check (vaddr ≠ 0) .nullPointer
  pure ⟨page, PageTable.blank pgd none, []⟩

def asCreate (m : Machine) (pid : Int) : VmM Unit := do
  let pt ← pageTableInit m
  modify fun s => { s with procs := update s.procs pid (some ⟨[], pt⟩) }

/-! ## Frames that are taken from others -/

/-- No frame holds a page of the process. -/
def Frameless (pid : Int) (s : VmState) : Prop := ∀ page, (s.frameTable page).pid ≠ pid

/-- The table of a process without frames stays as it is, and there are none later. -/
def Aside (pid : Int) (s t : VmState) : Prop :=
  Frameless pid s → Frameless pid t ∧ t.procs pid = s.procs pid

section Aside

variable {m : Machine} {pid : Int} {s t : VmState}

instance : Std.Refl (Aside pid) where
  refl _ h := ⟨h, rfl⟩

instance : IsTrans VmState (Aside pid) where
  trans s t u hst htu hs := by
    obtain ⟨ht, hprocs⟩ := hst hs
    obtain ⟨hu, hprocs'⟩ := htu ht
    exact ⟨hu, hprocs'.trans hprocs⟩

lemma Aside.of_same (hframes : ∀ page, (t.frameTable page).pid = (s.frameTable page).pid)
    (hprocs : t.procs = s.procs) : Aside pid s t :=
  fun hs => ⟨fun page => hframes page ▸ hs page, congrFun hprocs pid⟩

lemma Frameless.update (hpid : 0 ≤ pid) (h : Frameless pid s) {page : Nat}
    {e : FrameTableEntry} (he : e.pid = -1) (htable : t.frameTable = update s.frameTable page e) :
    Frameless pid t := by
  intro q
  rw [htable]
  rcases eq_or_ne q page with rfl | hne
  · rw [Function.update_self, he]
    omega
  · rw [Function.update_of_ne hne]
    exact h q

lemma aside_moves (hpid : 0 ≤ pid) : AllocMoves m (Aside pid) where
  same := by
    intro s t h _
    rw [h]
    exact .of_same (fun _ => rfl) rfl
  swapOut s page entry := by
    intro hs
    have hne : pid ≠ (s.frameTable page).pid := fun h => hs page h.symm
    exact ⟨hs, by simp [VmState.modifyTable, hne]⟩
  turn s := by
    refine .of_same (fun page => ?_) ?_
    · rw [sweepStep_frameTable]
      split
      · rfl
      · rfl
    · rw [sweepStep_rest]
  release _ _ hs := ⟨hs.update hpid rfl rfl, rfl⟩
  take _ _ _ hs := ⟨hs.update hpid rfl rfl, rfl⟩

/-! ## One insert -/

/-- An entry that is missing or says that it is invalid. -/
def Unset : Option Word → Prop
  | none => True
  | some entry => pageGetBits entry = pInvalid

/-- A table with more levels than another one: there are new entries, which are
invalid, and the others are the same. -/
def Grown (pt pt' : PageTable) : Prop :=
  ∀ i, pt'.word i = pt.word i ∨ pt.word i = none ∧ Unset (pt'.word i)

lemma Grown.refl (pt : PageTable) : Grown pt pt := fun _ => .inl rfl

lemma Grown.trans {a b c : PageTable} (hab : Grown a b) (hbc : Grown b c) : Grown a c := by
  intro i
  rcases hbc i with h | ⟨hnone, hunset⟩
  · rw [h]
    exact hab i
  · rcases hab i with h | ⟨h, -⟩
    · exact .inr ⟨h ▸ hnone, hunset⟩
    · exact .inr ⟨h, hunset⟩

/-- The process has the table, and no frame holds one of its pages. -/
structure Owns (pid : Int) (pt : PageTable) (s : VmState) : Prop where
  frameless : Frameless pid s
  table : (s.procs pid).map AddrSpace.pt = some pt

variable {pt : PageTable}

lemma Owns.aside (h : Owns pid pt s) (hst : Aside pid s t) : Owns pid pt t := by
  obtain ⟨hframeless, hprocs⟩ := hst h.frameless
  exact ⟨hframeless, hprocs ▸ h.table⟩

lemma Owns.modifyTable (h : Owns pid pt s) (f : PageTable → PageTable) :
    Owns pid (f pt) (s.modifyTable pid f) := by
  obtain ⟨as, has, rfl⟩ := Option.map_eq_some_iff.mp h.table
  exact ⟨h.frameless, by simp [VmState.modifyTable, has]⟩

/-- Whatever table the process has grows. -/
def Grows (pid : Int) (s t : VmState) : Prop :=
  ∀ pt, Owns pid pt s → ∃ pt', Owns pid pt' t ∧ Grown pt pt'

instance : Std.Refl (Grows pid) where
  refl _ pt h := ⟨pt, h, .refl pt⟩

instance : IsTrans VmState (Grows pid) where
  trans s t u hst htu pt h := by
    obtain ⟨pt₁, h₁, hgrown⟩ := hst pt h
    obtain ⟨pt₂, h₂, hgrown'⟩ := htu pt₁ h₁
    exact ⟨pt₂, h₂, hgrown.trans hgrown'⟩

lemma Grown.of_addsNode {pt' : PageTable} {x : PageTable.Place} {f : Nat}
    (h : AddsNode x pt pt' f) : Grown pt pt' := by
  intro i
  rcases h.word i with hsame | ⟨hnone, hnew⟩
  · exact .inl hsame
  · refine .inr ⟨hnone, ?_⟩
    rw [hnew]
    exact pageGetBits_setBits _ _

lemma pageTableInsert_ends (hpid : 0 ≤ pid) (h : Owns pid pt s) (v n : Nat) :
    (pageTableInsert m pid v n s).Ends (Served pid) fun r u =>
      if (s.stock m).nodes m (s.tableFrame pid) (getPtIndex v) = none then
        r = -1 ∧ ∃ pt', Owns pid pt' u ∧ Grown pt pt'
      else r = 0 ∧ ∃ pt₁, Owns pid (pt₁.setWord (getPtIndex v) (BitVec.ofNat 64 n)) u ∧
        Grown pt pt₁ ∧ pt₁.word (getPtIndex v) ≠ none := by
  have halloc : Keeps (Served pid) (Grows pid) (frameAllocWith m true) := fun s =>
    (frameAllocWith_keeps (aside_moves hpid) true s).mono
      fun _ _ hst pt h => ⟨pt, h.aside hst, .refl pt⟩
  have hnode : ∀ {s as g x f}, s.procs pid = some as → AddsNode x as.pt (g as.pt) f →
      Grows pid s (s.modifyTable pid g) := by
    intro s as g x f has hadd pt h
    obtain rfl : as.pt = pt := by simpa [has] using h.table
    exact ⟨_, h.modifyTable g, .of_addsNode hadd⟩
  refine Res.Ends.mono (pageTableInsert_adds halloc hnode v n) fun r u hr => ?_
  split at hr
  case isTrue hnone =>
    rw [if_pos hnone]
    exact ⟨hr.1, hr.2.1 pt h⟩
  case isFalse hsome =>
    obtain ⟨hzero, w, as, hgrows, has, hword, rfl⟩ := hr
    obtain ⟨pt₁, howns, hgrown⟩ := hgrows pt h
    obtain rfl : as.pt = pt₁ := by simpa [has] using howns.table
    rw [if_neg hsome]
    exact ⟨hzero, as.pt, howns.modifyTable fun pt => pt.setWord (getPtIndex v) (BitVec.ofNat 64 n),
      hgrown, hword⟩

end Aside

/-! ## Any number of inserts -/

lemma getPtIndex_eq_iff {v w : Nat} (hv : v < 2 ^ 48) (hw : w < 2 ^ 48) :
    getPtIndex v = getPtIndex w ↔ v / pageSize = w / pageSize := by
  rw [getPtIndex_eq_iff_mod]
  unfold pageSize
  omega

/-- The last of the inserts for the page of an address. -/
def lastInsert (log : List (Nat × Nat)) (w : Nat) : Option (Nat × Nat) :=
  log.find? fun a => a.1 / pageSize = w / pageSize

/-- The table that a number of inserts make up, the last one first. -/
def IsMap (log : List (Nat × Nat)) (pt : PageTable) : Prop :=
  ∀ w < 2 ^ 48, match lastInsert log w with
    | some (_, n) => pageLookup pt w = some (BitVec.ofNat 64 n)
    | none => Unset (pageLookup pt w)

/-- A call of `page_table_insert`, with the calls so far that have succeeded. -/
def InsertStep (m : Machine) (pid : Int) (x : VmState × List (Nat × Nat)) (a : Nat × Nat)
    (y : VmState × List (Nat × Nat)) : Prop :=
  ∃ r, Exec (Served pid) (pageTableInsert m pid a.1 a.2 x.1) r y.1 ∧
    y.2 = if r = 0 then a :: x.2 else x.2

section Inserts

variable {m : Machine} {pid : Int} {s t : VmState} {log : List (Nat × Nat)} {pt : PageTable}

lemma IsMap.grown {pt' : PageTable} (h : IsMap log pt) (hgrown : Grown pt pt') : IsMap log pt' := by
  intro w hw
  have hmap := h w hw
  rcases hgrown (getPtIndex w) with hsame | ⟨hnone, hunset⟩
  · rwa [← show pageLookup pt' w = pageLookup pt w from hsame] at hmap
  · cases hlast : lastInsert log w with
    | none => exact hunset
    | some a =>
      rw [hlast] at hmap
      exact (nomatch hnone.symm.trans hmap)

lemma IsMap.setWord (h : IsMap log pt) {v : Nat} (hv : v < 2 ^ 48) (n : Nat)
    (hword : pt.word (getPtIndex v) ≠ none) :
    IsMap ((v, n) :: log) (pt.setWord (getPtIndex v) (BitVec.ofNat 64 n)) := by
  intro w hw
  have hset : pageLookup (pt.setWord (getPtIndex v) (BitVec.ofNat 64 n)) w = _ :=
    PageTable.word_setWord _ _ _ _
  by_cases hpage : v / pageSize = w / pageSize
  · obtain ⟨e, he⟩ := Option.ne_none_iff_exists'.mp hword
    have hlast : lastInsert ((v, n) :: log) w = some (v, n) := by simp [lastInsert, hpage]
    rw [hlast, hset, if_pos ((getPtIndex_eq_iff hv hw).mpr hpage).symm, he]
    rfl
  · have hlast : lastInsert ((v, n) :: log) w = lastInsert log w := by
      simp [lastInsert, hpage]
    have hindex : getPtIndex w ≠ getPtIndex v :=
      fun heq => hpage ((getPtIndex_eq_iff hv hw).mp heq.symm)
    rw [hlast, hset, if_neg hindex]
    exact h w hw

lemma InsertStep.isMap (hpid : 0 ≤ pid) {a : Nat × Nat} {x y : VmState × List (Nat × Nat)}
    (hstep : InsertStep m pid x a y) (ha : a.1 < 2 ^ 48)
    (h : ∃ pt, Owns pid pt x.1 ∧ IsMap x.2 pt) : ∃ pt, Owns pid pt y.1 ∧ IsMap y.2 pt := by
  obtain ⟨pt, howns, hmap⟩ := h
  obtain ⟨r, hexec, hlog⟩ := hstep
  rw [hlog]
  have hends := (pageTableInsert_ends hpid howns a.1 a.2).exec hexec
  split at hends
  · obtain ⟨rfl, pt', howns', hgrown⟩ := hends
    exact ⟨pt', howns', hmap.grown hgrown⟩
  · obtain ⟨rfl, pt₁, howns', hgrown, hword⟩ := hends
    exact ⟨_, howns', (hmap.grown hgrown).setWord ha a.2 hword⟩

lemma asCreate_isMap (hpid : 0 ≤ pid) (hs : Frameless pid s)
    (h : Exec (Served pid) (asCreate m pid s) () t) : ∃ pt, Owns pid pt t ∧ IsMap [] pt := by
  refine Res.Ends.exec (Q := fun _ t => ∃ pt, Owns pid pt t ∧ IsMap [] pt) ?_ h
  refine Res.Ends.bind (Q := fun pt u => Frameless pid u ∧ ∀ i, pt.word i = none) ?_ ?_
  · refine Res.Ends.bind (frameAllocWith_keeps (aside_moves hpid) true s) fun a u hu => ?_
    refine Res.Ends.check_bind fun _ => ?_
    refine Res.Ends.bind (frameAllocWith_keeps (aside_moves hpid) true u) fun b w hw => ?_
    exact Res.Ends.check_bind fun _ => ⟨(hw (hu hs).1).1, fun _ => rfl⟩
  · rintro pt u ⟨hframeless, hempty⟩
    refine ⟨pt, ⟨hframeless, by simp⟩, fun w _ => ?_⟩
    show Unset (pt.word (getPtIndex w))
    rw [hempty]
    trivial

/-- For a table that starts from `page_table_init`, `page_lookup` gives the number that the last
successful `page_table_insert` for the page has put there, and nothing or an invalid entry where
there was none. An insert that fails makes an invalid entry of nothing at most. -/
theorem pageLookup_last_insert {s₀ : VmState} (hpid : 0 ≤ pid) (hs : Frameless pid s)
    (hinit : Exec (Served pid) (asCreate m pid s) () s₀)
    (hrun : Lts.Run (InsertStep m pid) (fun _ a => a.1 < 2 ^ 48) (s₀, []) (t, log)) :
    ∃ as, t.procs pid = some as ∧ IsMap log as.pt ∧
      ∀ v n u, Exec (Served pid) (pageTableInsert m pid v n t) (-1) u →
        ∃ as', u.procs pid = some as' ∧ ∀ w < 2 ^ 48, pageLookup as'.pt w = pageLookup as.pt w ∨
            pageLookup as.pt w = none ∧ Unset (pageLookup as'.pt w) := by
  obtain ⟨pt, howns, hmap⟩ := hrun.invariant
    (I := fun x => ∃ pt, Owns pid pt x.1 ∧ IsMap x.2 pt) (asCreate_isMap hpid hs hinit)
    fun h hguard hstep => hstep.isMap hpid hguard h
  obtain ⟨as, has, rfl⟩ := Option.map_eq_some_iff.mp howns.table
  refine ⟨as, has, hmap, fun v n u hexec => ?_⟩
  have hends := (pageTableInsert_ends hpid howns v n).exec hexec
  split at hends
  · obtain ⟨-, pt', howns', hgrown⟩ := hends
    obtain ⟨as', has', rfl⟩ := Option.map_eq_some_iff.mp howns'.table
    exact ⟨as', has', fun w _ => hgrown (getPtIndex w)⟩
  · exact absurd hends.1 (by decide)

end Inserts

/-- An insert with a file server that does what it is asked. -/
def insertPlay (m : Machine) (pid : Int) (a : Nat × Nat) (x : VmState × List (Nat × Nat)) :
    Option (VmState × List (Nat × Nat)) :=
  ((pageTableInsert m pid a.1 a.2 x.1).run (wholePages pid)).toOption.map fun y =>
    (y.2, if y.1 = 0 then a :: x.2 else x.2)

lemma insertStep_of_play {m : Machine} {pid : Int} {a : Nat × Nat}
    {x y : VmState × List (Nat × Nat)} (h : insertPlay m pid a x = some y) :
    InsertStep m pid x a y := by
  obtain ⟨⟨r, t⟩, hrun, rfl⟩ := Option.map_eq_some_iff.mp h
  exact ⟨r, Res.exec_of_toOption (served_wholePages pid) hrun, rfl⟩

/-- A table of 32 frames that are all free. -/
def freeTable : VmState :=
  { fullTable 32 fun f => ⟨f + 1, 0, 0, -1, 0, false, false⟩ with frameTableCurrSize := 0 }

/-- There is memory for the first five frames. -/
def fiveFrames : Machine := { grantingMachine 32 with allocOk := fun t => t < 5 }

theorem pageLookup_last_insert_five :
    ∃ s₀ t as, Exec (Served 1) (asCreate fiveFrames 1 freeTable) () s₀ ∧
      Lts.Run (InsertStep fiveFrames 1) (fun _ a => a.1 < 2 ^ 48) (s₀, [])
        (t, [(0x5fff, 8), (0x5123, 7)]) ∧ t.procs 1 = some as ∧ pageLookup as.pt 0x5000 = some 8 ∧
      Unset (pageLookup as.pt 0x8000000000) := by
  obtain ⟨⟨⟩, s₀, hinit, hplay⟩ := Res.exists_exec (m := asCreate fiveFrames 1 freeTable)
    (P := fun _ s₀ => (([(0x5123, 7), (0x5fff, 8), (0x8000000000, 9)].foldlM
      (fun (x : VmState × List (Nat × Nat)) (a : Nat × Nat) =>
        if a.1 < 2 ^ 48 then insertPlay fiveFrames 1 a x else none) (s₀, [])).any
        fun x => x.2 = [(0x5fff, 8), (0x5123, 7)]))
    (served_wholePages 1) (by decide +kernel)
  obtain ⟨⟨t, _⟩, hrun, rfl⟩ := Lts.Run.exists_of_guarded_play
    insertStep_of_play _ hplay
  have hs : Frameless 1 freeTable := fun _ => (by decide : (-1 : Int) ≠ 1)
  obtain ⟨as, has, hmap, -⟩ := pageLookup_last_insert (by decide) hs hinit hrun
  exact ⟨s₀, t, as, hinit, hrun, has, hmap 0x5000 (by decide), hmap 0x8000000000 (by decide)⟩

end SpaghettiOS.Vm
