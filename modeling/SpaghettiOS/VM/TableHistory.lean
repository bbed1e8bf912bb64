import SpaghettiOS.VM.TableBuild

/-!
# The life of a page table

A page table is made by `page_table_init` and grows by any number of calls of
`page_table_insert` and `save_seL4_info`.  Every call keeps the memory a tree with the entries
and the objects of all calls so far, so that `page_table_destroy` gives back each of them once.
-/

namespace SpaghettiOS.TableMemory

open Vm
open Coroutine (Res Exec)
open Function (update)
open PageTable (frameAt word)

/-- The answers of `frame_alloc_important`: a frame that is not in use, or none. -/
def Supplies (m : Machine) (cleared : Content) (page : Option Nat) (s t : Memory) : Prop :=
  match page with
  | none => t = s
  | some f => f < m.frameTableSize ∧ s.frame f = none ∧ t = s.put f cleared

/-- The answers as long as there are frames. -/
def Grants (m : Machine) (cleared : Content) (page : Option Nat) (s t : Memory) : Prop :=
  page ≠ none ∧ Supplies m cleared page s t

section Calls

variable {m : Machine} {p : Nat} {t : PageTable} {objects : List (List (Nat × Nat))}
variable {s : Memory} {f : Nat}

lemma read_apply {α : Type} (view : Content → Option α) {c : Content} {a : α}
    (hc : s.frame f = some c) (ha : view c = some a) :
    read m view (m.pageNumToVaddr f) s = .done a s := by
  have hread := Reads.read (m := m) view (List.mem_singleton_self f) hc ha []
  rw [Memory.after_nil] at hread
  exact hread fun _ _ => List.not_mem_nil

lemma read_bind {α β : Type} (view : Content → Option α) {c : Content} {a : α}
    (hc : s.frame f = some c) (ha : view c = some a) (k : α → MemM β) :
    (read m view (m.pageNumToVaddr f) >>= k) s = k a s := by
  rw [Coro.bind_apply, read_apply view hc ha]
  rfl

@[simp] lemma write_apply (c : Content) :
    write m (m.pageNumToVaddr f) c s = .done ⟨⟩ (s.put f c) := by
  rw [write, vaddrToPageNum_pageNumToVaddr]
  rfl

lemma put_put (c c' : Content) : (s.put f c).put f c' = s.put f c' := by
  simp [Memory.put]

lemma frameAllocImportant_bind {α : Type} {cleared : Content}
    {k : Nat → Memory → Res Memory Content (Option Nat) MemAbort α} {Q : α → Memory → Prop}
    (hnone : (k 0 s).Ends (Supplies m) Q) (hsome : ∀ g < m.frameTableSize, s.frame g = none →
      (k (m.pageNumToVaddr g) (s.put g cleared)).Ends (Supplies m) Q) :
    ((frameAllocImportant m cleared s).bind k).Ends (Supplies m) Q := by
  rintro (_ | g) s' hs'
  · cases hs'
    exact hnone
  · obtain ⟨hlt, hfree, rfl⟩ := hs'
    exact hsome g hlt hfree

lemma ensureSlot_ends (h : Built m p t objects s) {x : PageTable.Place}
    (child : Fin 512 → PageTable.Place) (hx : t.frameAt x = some f)
    (hcontent : contentAt m t objects x = .dir fun a => pointer m (t.frameAt (child a)))
    (i : Fin 512) (cleared : Content) {filled : Content}
    (hadd : t.frameAt (child i) = none → ∀ g < m.frameTableSize, s.frame g = none →
      GrownAt m p objects t s (child i) g ((s.put g filled).put f
        (.dir (update (fun a => pointer m (t.frameAt (child a))) i (m.pageNumToVaddr g))))) :
    (ensureSlot m (m.pageNumToVaddr f) i cleared filled s).Ends (Supplies m) fun r s' =>
      (r = 0 ∧ s' = s) ∨ ∃ g, r = m.pageNumToVaddr g ∧ GrownAt m p objects t s (child i) g s' := by
  have hframe := (h.content x f hx).trans (congrArg some hcontent)
  rw [ensureSlot, Coro.bind_apply, read_apply Content.dir? hframe rfl]
  cases hchild : t.frameAt (child i) with
  | some g =>
    have hset : pointer m (t.frameAt (child i)) = m.pageNumToVaddr g := by simp [hchild]
    simp only [Res.bind, hset, pageNumToVaddr_ne_zero, if_false]
    exact .inr ⟨g, rfl, t, hchild, h, .refl t s⟩
  | none =>
    have hnull : pointer m (t.frameAt (child i)) = 0 := by simp [hchild]
    simp only [Res.bind, hnull, if_true]
    refine frameAllocImportant_bind (.inl ⟨rfl, rfl⟩) fun g hlt hfree => ?_
    have hfg : f ≠ g := by
      rintro rfl
      cases hframe.symm.trans hfree
    have hparent := (frame_put_of_ne (s := s) hfg filled).trans hframe
    simp only [if_neg (pageNumToVaddr_ne_zero g), Coro.bind_apply, write_apply, put_put, Res.bind,
      read_apply Content.dir? hparent rfl]
    exact .inr ⟨g, rfl, hadd hchild g hlt hfree⟩

lemma pageTableInsert_ends (h : Built m p t objects s) (v : Nat) {w : Word}
    (hflag : WellFlagged w) (hpage : ∀ k, Pte.ofWord w = .frame k → s.frame k = some .page)
    (hother : ∀ j, j ≠ getPtIndex v → t.pte j ≠ Pte.ofWord w) :
    (pageTableInsert m p v w s).Ends (Supplies m) fun r s' => ∃ t', Built m p t' objects s' ∧
        ∀ j, t'.pte j = if r = 0 ∧ j = getPtIndex v then Pte.ofWord w else t.pte j := by
  have hfail : ∀ {t' s'}, Built m p t' objects s' → Extends t s t' s' →
      ∃ t', Built m p t' objects s' ∧ ∀ j, t'.pte j =
        if (-1 : Int) = 0 ∧ j = getPtIndex v then Pte.ofWord w else t.pte j :=
    fun hb he => ⟨_, hb, fun j => by simp [he.pte]⟩
  obtain rfl := h.address
  rw [pageTableInsert, read_bind Content.table? (h.content .table _ rfl) rfl]
  generalize getPtIndex v = i at hother hfail ⊢
  refine .bind (ensureSlot_ends h (x := .pgd) .pud rfl rfl i.l1 _
    fun hnone g hg hfree => h.addPud hnone hfree hg) ?_
  rintro _ _ (⟨rfl, rfl⟩ | ⟨f1, rfl, t1, hf1, h1, he1⟩)
  · exact hfail h (.refl t _)
  rw [if_neg (pageNumToVaddr_ne_zero f1)]
  refine .bind (ensureSlot_ends h1 (.pd i.l1) hf1 rfl i.l2 _
    fun hnone g hg hfree => h1.addPd hf1 hnone hfree hg) ?_
  rintro _ _ (⟨rfl, rfl⟩ | ⟨f2, rfl, t2, hf2, h2, he2⟩)
  · exact hfail h1 he1
  rw [if_neg (pageNumToVaddr_ne_zero f2)]
  refine .bind (ensureSlot_ends h2 (.pt i.l1 i.l2) hf2 rfl i.l3 _
    fun hnone g hg hfree => h2.addPt hf2 hnone hfree hg) ?_
  rintro _ s3 (⟨rfl, rfl⟩ | ⟨f3, rfl, t3, hf3, h3, he3⟩)
  · exact hfail h2 (he1.trans he2)
  have he := (he1.trans he2).trans he3
  rw [if_neg (pageNumToVaddr_ne_zero f3), read_bind Content.pt? (h3.content _ _ hf3) rfl,
    Coro.bind_apply, write_apply]
  have hword : t3.word i ≠ none := by
    obtain ⟨n, hn, -⟩ := Option.map_eq_some_iff.mp hf3
    simp [PageTable.word, hn]
  refine ⟨t3.setWord i w, h3.setWord hf3 hflag (fun k hk => he.pages k (hpage k hk))
    (fun j hj => he.pte ▸ hother j hj), fun j => ?_⟩
  rw [PageTable.pte_setWord hword, he.pte]
  simp

lemma lastChunk_ends (h : Built m p t objects s) (fuel : Nat) {k : Nat}
    (hf : t.frameAt (.objects k) = some f) :
    (lastChunk m fuel (m.pageNumToVaddr f) s).Ends (Supplies m) fun r s' =>
      s' = s ∧ ∃ k g, r = m.pageNumToVaddr g ∧ t.frameAt (.objects k) = some g ∧
        t.frameAt (.objects (k + 1)) = none := by
  induction fuel generalizing k f with
  | zero => trivial
  | succ fuel ih =>
    rw [lastChunk, read_bind Content.chunk? (h.content _ _ hf) rfl]
    cases hnext : t.frameAt (.objects (k + 1)) with
    | none => exact ⟨rfl, k, f, rfl, hf, hnext⟩
    | some g =>
      dsimp only
      rw [pointer_some, if_neg (pageNumToVaddr_ne_zero g)]
      exact ih hnext

/-- The frame holds the last chunk, with room for an object. -/
structure LastChunk (m : Machine) (p : Nat) (t : PageTable) (objects : List (List (Nat × Nat)))
    (l : List (Nat × Nat)) (f : Nat) (s : Memory) : Prop where
  built : Built m p t (objects ++ [l]) s
  frame : t.frameAt (.objects objects.length) = some f
  room : l.length < pageObjectSize

lemma chunkForObject_ends (h : Built m p t objects s) (fuel : Nat) :
    (chunkForObject m fuel p s).Ends (Supplies m) fun r s' =>
      ∃ t' objects' l f, r = m.pageNumToVaddr f ∧ LastChunk m p t' objects' l f s' ∧
        t'.pte = t.pte ∧ (objects' ++ [l]).flatten = objects.flatten := by
  obtain rfl := h.address
  rw [chunkForObject, read_bind Content.table? (h.content .table _ rfl) rfl]
  dsimp only
  rcases List.eq_nil_or_concat' objects with rfl | ⟨objects, l, rfl⟩
  · have hnone : t.frameAt (.objects 0) = none := by simp [PageTable.frameAt, h.chunks]
    rw [hnone, if_pos (pointer_none m)]
    refine frameAllocImportant_bind trivial fun g hlt hfree => ?_
    rw [Coro.bind_apply, write_apply]
    refine .check_bind fun _ => ?_
    have hgrown := h.addChunk (f := t.frame) rfl hfree hlt
      (c := .table (pointer m (t.frameAt .pgd)) (m.pageNumToVaddr g)) fun t' ht' => by
        simp only [List.length_nil, parent, contentAt, ht', Function.update_self, pointer]
        rfl
    obtain ⟨t', hg, hbuilt, he⟩ := hgrown
    exact ⟨t', [], [], g, rfl, ⟨hbuilt, hg, by decide⟩, he.pte, rfl⟩
  · have hlen : t.seL4Pages.length = objects.length + 1 := by simp [h.chunks]
    have hfirst : ∃ f, t.frameAt (.objects 0) = some f :=
      ⟨t.seL4Pages[0].frame, by simp [PageTable.frameAt, hlen]⟩
    obtain ⟨f0, hf0⟩ := hfirst
    rw [hf0, pointer_some, if_neg (pageNumToVaddr_ne_zero f0)]
    refine .bind (lastChunk_ends h fuel hf0) ?_
    rintro _ _ ⟨rfl, k, f, rfl, hf, hnext⟩
    obtain rfl : k = objects.length := by
      obtain ⟨n, hn, -⟩ := Option.map_eq_some_iff.mp hf
      have hk := (List.getElem?_eq_some_iff.mp hn).1
      have hk' : t.seL4Pages.length ≤ k + 1 := by simpa [PageTable.frameAt] using hnext
      omega
    have hget : (objects ++ [l]).getD objects.length [] = l := by simp
    have hcontent := h.content _ _ hf
    rw [contentAt, hget, hnext] at hcontent
    rw [read_bind Content.chunk? hcontent rfl]
    dsimp only
    split
    · rename_i hfull
      refine frameAllocImportant_bind trivial fun g hlt hfree => ?_
      rw [Coro.bind_apply, write_apply]
      refine .check_bind fun _ => ?_
      have hparent : parent (.objects (objects ++ [l]).length) = .objects objects.length := by
        rw [List.length_append]
        rfl
      have hgrown := h.addChunk (f := f) (hparent ▸ hf) hfree hlt
        (c := .chunk l.length (m.pageNumToVaddr g) fun i => l.getD i (0, 0)) fun t' ht' => by
          rw [List.length_append, List.length_singleton] at ht'
          rw [hparent, contentAt, getD_append_nil, hget, ht', Function.update_self]
          rfl
      obtain ⟨t', hg, hbuilt, he⟩ := hgrown
      exact ⟨t', objects ++ [l], [], g, rfl, ⟨hbuilt, hg, by decide⟩, he.pte, by simp⟩
    · rename_i hroom
      have hfits := h.fits l (by simp)
      exact ⟨t, objects, l, f, rfl, ⟨h, hf, by omega⟩, rfl, rfl⟩

lemma saveSeL4Info_ends (h : Built m p t objects s) (fuel ut slot : Nat) :
    (saveSeL4Info m fuel p ut slot s).Ends (Supplies m) fun _ s' =>
      ∃ t' objects', Built m p t' objects' s' ∧ t'.pte = t.pte ∧
        objects'.flatten = objects.flatten ++ [(ut, slot)] := by
  refine .bind (chunkForObject_ends h fuel) ?_
  rintro _ s1 ⟨t', objects', l, f, rfl, hlast, hpte, hflat⟩
  have hget : (objects' ++ [l]).getD objects'.length [] = l := by simp
  have hnext : t'.frameAt (.objects (objects'.length + 1)) = none := by
    simp [PageTable.frameAt, hlast.built.chunks]
  have hcontent := hlast.built.content _ _ hlast.frame
  rw [contentAt, hget, hnext] at hcontent
  rw [read_bind Content.chunk? hcontent rfl]
  dsimp only
  rw [write_apply]
  refine ⟨t', objects' ++ [l ++ [(ut, slot)]],
    hlast.built.addObject hlast.frame hlast.room (ut, slot), hpte, ?_⟩
  rw [← hflat]
  simp

lemma frameAllocImportant_bind_granted {α : Type} {cleared : Content}
    {k : Nat → Memory → Res Memory Content (Option Nat) MemAbort α} {Q : α → Memory → Prop}
    (h : ∀ g < m.frameTableSize, s.frame g = none →
      (k (m.pageNumToVaddr g) (s.put g cleared)).Ends (Grants m) Q) :
    ((frameAllocImportant m cleared s).bind k).Ends (Grants m) Q := by
  rintro (_ | g) s' ⟨hgranted, hs'⟩
  · exact absurd rfl hgranted
  · obtain ⟨hlt, hfree, rfl⟩ := hs'
    exact h g hlt hfree

lemma built_empty {f g : Nat} (hs : ∀ f, s.frame f ≠ none → f < m.frameTableSize) (hfg : f ≠ g)
    (hf : s.frame f = some (.table (m.pageNumToVaddr g) 0))
    (hg : s.frame g = some (.dir fun _ => 0)) :
    Built m (m.pageNumToVaddr f) ⟨f, PageTable.blank g none, []⟩ [] s := by
  have hplace : ∀ x k, (⟨f, PageTable.blank g none, []⟩ : PageTable).frameAt x = some k →
      x = .table ∧ k = f ∨ x = .pgd ∧ k = g := by
    intro x k hx
    cases x with
    | table => exact .inl ⟨rfl, (Option.some.inj hx).symm⟩
    | pgd => exact .inr ⟨rfl, (Option.some.inj hx).symm⟩
    | pud _ | pd _ _ | pt _ _ _ | objects _ => exact nomatch hx
  refine ⟨rfl, fun x k hx => ?_, rfl, fun x y k hx hy => ?_, nofun, nofun, nofun, nofun, nofun, hs⟩
  · rcases hplace x k hx with ⟨rfl, rfl⟩ | ⟨rfl, rfl⟩
    · exact hf
    · exact hg
  · rcases hplace x k hx with ⟨rfl, rfl⟩ | ⟨rfl, rfl⟩
    · exact ((hplace y k hy).resolve_right fun h => hfg h.2).1.symm
    · exact ((hplace y k hy).resolve_left fun h => hfg h.2.symm).1.symm

lemma pageTableInit_ends (hs : ∀ f, s.frame f ≠ none → f < m.frameTableSize) :
    (pageTableInit m s).Ends (Grants m) fun p s' =>
      ∃ t, Built m p t [] s' ∧ ∀ i, t.pte i = .invalid := by
  refine frameAllocImportant_bind_granted fun f hf hfree => ?_
  refine frameAllocImportant_bind_granted fun g hg hfree' => ?_
  have hfg : f ≠ g := by
    rintro rfl
    exact nomatch (frame_put s f _).symm.trans hfree'
  have htable := (frame_put_of_ne hfg (.dir fun _ => 0)).trans (frame_put s f (.table 0 0))
  rw [read_bind Content.table? htable rfl]
  dsimp only
  rw [Coro.bind_apply, write_apply]
  refine ⟨_, built_empty (fun k hk => ?_) hfg (frame_put ..)
    ((frame_put_of_ne hfg.symm _).trans (frame_put ..)), fun _ => rfl⟩
  rcases eq_or_ne k f with rfl | hkf
  · exact hf
  · rcases eq_or_ne k g with rfl | hkg
    · exact hg
    · rw [frame_put_of_ne hkf, frame_put_of_ne hkg, frame_put_of_ne hkf] at hk
      exact hs k hk

end Calls

/-! ## Any number of calls -/

/-- The entries that were put in last, and the objects that were saved. -/
structure History where
  entry : PtIndex → Option Word
  saved : List (Nat × Nat)

def History.empty : History := ⟨fun _ => none, []⟩

/-- What the history says of a page. -/
def History.pte (h : History) (i : PtIndex) : Pte := (h.entry i).elim .invalid Pte.ofWord

/-- The entry of a call that returned `r`. -/
def History.insert (h : History) (vaddr : Nat) (pageNum : Word) (r : Int) : History :=
  { h with entry := fun i => if r = 0 ∧ i = getPtIndex vaddr then some pageNum else h.entry i }

def History.save (h : History) (ut slot : Nat) : History :=
  { h with saved := h.saved ++ [(ut, slot)] }

/-- A frame is allocated for a page, or a function of `pagetable.c` is called. -/
inductive BuildOp where
  | page (f : Nat)
  | insert (vaddr : Nat) (pageNum : Word)
  | save (fuel ut slot : Nat)

inductive BuildStep (m : Machine) (p : Nat) : Memory × History → BuildOp → Memory × History → Prop
  | page {s : Memory} {h : History} {f : Nat} : s.frame f = none → f < m.frameTableSize →
      BuildStep m p (s, h) (.page f) (s.put f .page, h)
  | insert {s s' : Memory} {h : History} {vaddr : Nat} {pageNum : Word} {r : Int} :
      Exec (Supplies m) (pageTableInsert m p vaddr pageNum s) r s' →
      BuildStep m p (s, h) (.insert vaddr pageNum) (s', h.insert vaddr pageNum r)
  | save {s s' : Memory} {h : History} {fuel ut slot : Nat} :
      Exec (Supplies m) (saveSeL4Info m fuel p ut slot s) ⟨⟩ s' →
      BuildStep m p (s, h) (.save fuel ut slot) (s', h.save ut slot)

/-- An entry is that of an allocated page or of a slot of the pagefile, and no other page
has the same. -/
def Distinct (x : Memory × History) : BuildOp → Prop
  | .insert vaddr pageNum =>
      (pageGetBits pageNum = 0 ∧ x.1.frame (pageEntryNumber pageNum) = some .page ∨
        pageGetBits pageNum = pPagefile) ∧
      ∀ i w, i ≠ getPtIndex vaddr → x.2.entry i = some w → Pte.ofWord w ≠ Pte.ofWord pageNum
  | _ => True

/-- The memory holds a tree with the entries and the objects of the history. -/
def Records (m : Machine) (p : Nat) (x : Memory × History) : Prop :=
  ∃ t objects, Built m p t objects x.1 ∧ (∀ i, t.pte i = x.2.pte i) ∧ objects.flatten = x.2.saved

section Life

variable {m : Machine} {p : Nat}

lemma ofWord_of_valid {w : Word} (h : pageGetBits w = 0 ∨ pageGetBits w = pPagefile) :
    Pte.ofWord w ≠ .invalid := by
  rcases h with h | h <;> simp [Pte.ofWord, h]

lemma Built.putPage {t : PageTable} {objects : List (List (Nat × Nat))} {s : Memory} {f : Nat}
    (h : Built m p t objects s) (hfree : s.frame f = none) (hf : f < m.frameTableSize) :
    Built m p t objects (s.put f .page) := by
  have hold : ∀ {k c}, s.frame k = some c → (s.put f .page).frame k = some c := by
    intro k c hk
    rw [frame_put_of_ne _ _, hk]
    rintro rfl
    exact nomatch hk.symm.trans hfree
  refine { h with
    content := fun x k hk => hold (h.content x k hk)
    page := fun i k hk => hold (h.page i k hk)
    range := fun k hk => ?_ }
  rcases eq_or_ne k f with rfl | hne
  · exact hf
  · rw [frame_put_of_ne hne] at hk
    exact h.range k hk

lemma BuildStep.records {x y : Memory × History} {op : BuildOp} (h : Records m p x)
    (hguard : Distinct x op) (hstep : BuildStep m p x op y) : Records m p y := by
  obtain ⟨t, objects, hbuilt, hpte, hsaved⟩ := h
  cases hstep with
  | page hfree hf => exact ⟨t, objects, hbuilt.putPage hfree hf, hpte, hsaved⟩
  | @insert s s' h v w r hexec =>
    obtain ⟨hkind, hother⟩ := hguard
    have hvalid : Pte.ofWord w ≠ .invalid := ofWord_of_valid (hkind.imp_left And.left)
    have hflag : WellFlagged w := hkind.imp And.left .inr
    have hpage : ∀ k, Pte.ofWord w = .frame k → s.frame k = some .page := by
      intro k hk
      rcases hkind with ⟨hbits, hframe⟩ | hbits
      · rw [Pte.ofWord, if_pos hbits] at hk
        cases hk
        exact hframe
      · simp [Pte.ofWord, hbits] at hk
    have hnew : ∀ j, j ≠ getPtIndex v → t.pte j ≠ Pte.ofWord w := by
      intro j hj
      rw [hpte, History.pte]
      cases hentry : h.entry j with
      | none => exact hvalid.symm
      | some w' => exact hother j w' hj hentry
    obtain ⟨t', hbuilt', hpte'⟩ := (pageTableInsert_ends hbuilt v hflag hpage hnew).exec hexec
    refine ⟨t', objects, hbuilt', fun i => ?_, hsaved⟩
    rw [hpte', hpte]
    simp only [History.pte, History.insert]
    split <;> rfl
  | save hexec =>
    obtain ⟨t', objects', hbuilt', hpte', hflat⟩ := (saveSeL4Info_ends hbuilt _ _ _).exec hexec
    refine ⟨t', objects', hbuilt', fun i => ?_, ?_⟩
    · rw [hpte']
      exact hpte i
    · rw [hflat, hsaved]
      rfl

lemma records_of_run {s₀ s₁ : Memory} {x : Memory × History}
    (hs₀ : ∀ f, s₀.frame f ≠ none → f < m.frameTableSize)
    (hinit : Exec (Grants m) (pageTableInit m s₀) p s₁)
    (hrun : Lts.Run (BuildStep m p) Distinct (s₁, .empty) x) : Records m p x := by
  have hstart : Records m p (s₁, .empty) := by
    obtain ⟨t, hbuilt, hpte⟩ := (pageTableInit_ends hs₀).exec hinit
    exact ⟨t, [], hbuilt, hpte, rfl⟩
  exact hrun.invariant hstart fun h hg hs => BuildStep.records h hg hs

/-- A page table that was built by any number of calls is taken down without reading a frame
that is free, and everything in it is given back once. -/
theorem pageTableDestroy_releases_once {s₀ s₁ : Memory} {x : Memory × History}
    (hs₀ : ∀ f, s₀.frame f ≠ none → f < m.frameTableSize)
    (hinit : Exec (Grants m) (pageTableInit m s₀) p s₁)
    (hrun : Lts.Run (BuildStep m p) Distinct (s₁, .empty) x) :
    ∃ t objects, Built m p t objects x.1 ∧ (∀ i, t.pte i = x.2.pte i) ∧
      ReleasedOnce t x.2.saved (releases t objects) ∧
      ∀ fuel ≥ objects.length, pageTableDestroy m fuel p x.1 =
        .done ⟨⟩ (x.1.after (releases t objects)) := by
  obtain ⟨t, objects, hbuilt, hpte, hsaved⟩ := records_of_run hs₀ hinit hrun
  exact ⟨t, objects, hbuilt, hpte, hsaved ▸ hbuilt.releasedOnce, fun fuel hf => hbuilt.destroys hf⟩

def sixteenFrames : Machine := grantingMachine 16

/-- Frame 0 holds a table without levels. -/
def emptyTable : Memory :=
  (((⟨fun _ => none, []⟩ : Memory).put 0 (.table 0 0)).put 1 (.dir fun _ => 0)).put 0
    (.table (sixteenFrames.pageNumToVaddr 1) 0)

lemma exec_emptyTable : Exec (Grants sixteenFrames)
    (pageTableInit sixteenFrames ⟨fun _ => none, []⟩) (sixteenFrames.pageNumToVaddr 0)
    emptyTable := by
  refine .susp (r := some 0) ⟨nofun, by decide, rfl, rfl⟩ ?_
  refine .susp (r := some 1) ⟨nofun, by decide, rfl, rfl⟩ ?_
  exact .done

/-- An object is saved, and the page at `0x1000` is entered. -/
lemma exists_run_page : ∃ s, Lts.Run (BuildStep sixteenFrames (sixteenFrames.pageNumToVaddr 0))
    Distinct (emptyTable, .empty) (s, (History.empty.save 5 6).insert 0x1000 2 0) := by
  have hcalls : ∃ s₁, Exec (Supplies sixteenFrames) (saveSeL4Info sixteenFrames 0
      (sixteenFrames.pageNumToVaddr 0) 5 6 (emptyTable.put 2 .page)) ⟨⟩ s₁ ∧
      s₁.frame 2 = some .page ∧ ∃ s₂, Exec (Supplies sixteenFrames) (pageTableInsert sixteenFrames
        (sixteenFrames.pageNumToVaddr 0) 0x1000 2 s₁) 0 s₂ := by
    refine ⟨_, .susp (r := some 3) ⟨by decide, rfl, rfl⟩ .done, rfl, ?_⟩
    refine ⟨?_, .susp (r := some 4) ⟨by decide, rfl, rfl⟩ ?_⟩
    rotate_left
    · refine .susp (r := some 5) ⟨by decide, rfl, rfl⟩ ?_
      refine .susp (r := some 6) ⟨by decide, rfl, rfl⟩ ?_
      exact .done
  obtain ⟨s₁, hsave, hpage, s₂, hinsert⟩ := hcalls
  refine ⟨s₂, .tail (a := .insert 0x1000 2) ?_ ⟨.inl ⟨by decide, hpage⟩, ?_⟩ (.insert hinsert)⟩
  · refine .tail (a := .save 0 5 6) ?_ trivial (.save hsave)
    exact .tail (a := .page 2) .refl trivial (.page rfl (by decide))
  · exact fun i w _ hw => nomatch hw

theorem pageTableDestroy_releases_once_page :
    ∃ x, Lts.Run (BuildStep sixteenFrames (sixteenFrames.pageNumToVaddr 0)) Distinct
        (emptyTable, .empty) x ∧ x.2.entry (getPtIndex 0x1000) = some 2 ∧ x.2.saved = [(5, 6)] ∧
      ∃ t objects, t.pte (getPtIndex 0x1000) = .frame 2 ∧
        ReleasedOnce t [(5, 6)] (releases t objects) ∧ ∀ fuel ≥ objects.length,
          pageTableDestroy sixteenFrames fuel (sixteenFrames.pageNumToVaddr 0) x.1 =
            .done ⟨⟩ (x.1.after (releases t objects)) := by
  obtain ⟨s, hrun⟩ := exists_run_page
  obtain ⟨t, objects, -, hpte, honce, hdestroy⟩ :=
    pageTableDestroy_releases_once (fun _ h => absurd rfl h) exec_emptyTable hrun
  refine ⟨_, hrun, rfl, rfl, t, objects, ?_, honce, hdestroy⟩
  exact (hpte _).trans (show ((History.empty.save 5 6).insert 0x1000 2 0).pte _ = _ by decide)

/-- `page_lookup` follows the pointers down the tree and changes nothing. -/
lemma Built.pageLookup {t : PageTable} {objects : List (List (Nat × Nat))} {s : Memory}
    (h : Built m p t objects s) (v : Nat) :
    pageLookup m p v s = .done (t.word (getPtIndex v)) s := by
  obtain rfl := h.address
  rw [TableMemory.pageLookup, read_bind Content.table? (h.content .table _ rfl) rfl]
  generalize getPtIndex v = i
  refine (read_bind Content.dir? (h.content .pgd _ rfl) rfl _).trans ?_
  cases hpud : t.pud i.l1 with
  | none => simp [frameAt, word, PageTable.pt, PageTable.pd, hpud]
  | some n =>
    have hf : t.frameAt (.pud i.l1) = some n.frame := by simp [frameAt, hpud]
    simp only [hf, pointer_some, pageNumToVaddr_ne_zero, if_false]
    refine (read_bind Content.dir? (h.content _ _ hf) rfl _).trans ?_
    cases hpd : t.pd i.l1 i.l2 with
    | none => simp [frameAt, word, PageTable.pt, hpd]
    | some n =>
      have hf : t.frameAt (.pd i.l1 i.l2) = some n.frame := by simp [frameAt, hpd]
      simp only [hf, pointer_some, pageNumToVaddr_ne_zero, if_false]
      refine (read_bind Content.dir? (h.content _ _ hf) rfl _).trans ?_
      cases hpt : t.pt i.l1 i.l2 i.l3 with
      | none => simp [frameAt, word, hpt]
      | some n =>
        have hf : t.frameAt (.pt i.l1 i.l2 i.l3) = some n.frame := by simp [frameAt, hpt]
        simp only [hf, pointer_some, pageNumToVaddr_ne_zero, if_false]
        refine (read_bind Content.pt? (h.content _ _ hf) rfl _).trans ?_
        simp [word, hpt]

/-- After any number of calls `page_lookup` reads no frame that is free and finds the entry of
the last insert for the page that succeeded. -/
theorem pageLookup_reads_history {s₀ s₁ : Memory} {x : Memory × History}
    (hs₀ : ∀ f, s₀.frame f ≠ none → f < m.frameTableSize)
    (hinit : Exec (Grants m) (pageTableInit m s₀) p s₁)
    (hrun : Lts.Run (BuildStep m p) Distinct (s₁, .empty) x) (vaddr : Nat) :
    ∃ w, pageLookup m p vaddr x.1 = .done w x.1 ∧
      w.elim .invalid Pte.ofWord = x.2.pte (getPtIndex vaddr) := by
  obtain ⟨t, objects, hbuilt, hpte, -⟩ := records_of_run hs₀ hinit hrun
  refine ⟨_, hbuilt.pageLookup vaddr, Eq.trans ?_ (hpte _)⟩
  rw [PageTable.pte]
  cases t.word (getPtIndex vaddr) <;> rfl

theorem pageLookup_reads_history_slot :
    ∃ x, Lts.Run (BuildStep sixteenFrames (sixteenFrames.pageNumToVaddr 0)) Distinct
        (emptyTable, .empty) x ∧
      ∃ w, pageLookup sixteenFrames (sixteenFrames.pageNumToVaddr 0) 0x1000 x.1 = .done w x.1 ∧
        w.elim .invalid Pte.ofWord = .frame 2 := by
  obtain ⟨s, hrun⟩ := exists_run_page
  obtain ⟨w, hw, hentry⟩ :=
    pageLookup_reads_history (fun _ h => absurd rfl h) exec_emptyTable hrun 0x1000
  refine ⟨_, hrun, w, hw, hentry.trans ?_⟩
  exact show ((History.empty.save 5 6).insert 0x1000 2 0).pte _ = _ by decide

end Life

end SpaghettiOS.TableMemory
