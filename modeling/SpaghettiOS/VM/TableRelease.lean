import SpaghettiOS.VM.TableMemory

/-!
# What `page_table_destroy` gives back

The walk frees the tree that it reads.  `Reads` and `Frees` say what a part of it does as
long as the frames it goes through are still in use.  From these rules follow the calls that
`page_table_destroy` makes on a tree in memory, each frame and each slot once.
-/

namespace SpaghettiOS.TableMemory

open Vm
open Coro (check ofOption bind_apply get_apply modify_apply pure_apply set_apply)
open Coroutine (Res)
open Function (update)
open List (filterMap_append append_assoc mem_append_left mem_cons_self mem_cons_of_mem
  filterMap_flatMap)

/-! ## Reading and freeing -/

/-- The memory when the calls in the list have been made. -/
def Memory.after (s : Memory) (l : List Release) : Memory where
  frame f := if .frameFree f ∈ l then none else s.frame f
  released := s.released ++ l

@[simp] lemma Memory.after_nil (s : Memory) : s.after [] = s := by
  simp [Memory.after]

variable {f fuel : Nat} {g l g' : List Release} {x : Release}

lemma Memory.frame_after {s : Memory} (h : .frameFree f ∉ l) :
    (s.after l).frame f = s.frame f := if_neg h

/-- The frame or slot that a call gives back. -/
def Release.item? : Release → Option Item
  | .frameFree f => some (.frame f)
  | .pagefileRemove j => some (.slot j)
  | _ => none

/-- The frames and slots that a list of calls gives back. -/
def itemsOf (l : List Release) : List Item := l.filterMap Release.item?

@[simp] lemma itemsOf_append (l g : List Release) : itemsOf (l ++ g) = itemsOf l ++ itemsOf g :=
  filterMap_append ..

lemma item?_eq_frame : x.item? = some (.frame f) ↔ x = .frameFree f := by
  cases x <;> simp [Release.item?]

lemma item?_eq_slot {j : Nat} : x.item? = some (.slot j) ↔ x = .pagefileRemove j := by
  cases x <;> simp [Release.item?]

lemma frame_mem_itemsOf : .frame f ∈ itemsOf l ↔ .frameFree f ∈ l := by
  simp [itemsOf, item?_eq_frame]

section Walk

variable {m : Machine} {s : Memory} {C : List Nat} {α β : Type}

/-- As long as none of the frames in `C` is free, `x` returns `a` and changes nothing. -/
def Reads (s : Memory) (C : List Nat) (x : MemM α) (a : α) : Prop :=
  ∀ l, (∀ f ∈ C, .frameFree f ∉ l) → x (s.after l) = .done a (s.after l)

/-- As long as none of the frames in `C` is free before the end, `x` makes the calls in
`g`, provided that nothing is given back twice. -/
def Frees (s : Memory) (C : List Nat) (x : MemM Unit) (g : List Release) : Prop :=
  ∀ l, (∀ f ∈ C, .frameFree f ∉ l ++ g) → (itemsOf (l ++ g)).Nodup →
    x (s.after l) = .done ⟨⟩ (s.after (l ++ g))

@[simp] lemma vaddrToPageNum_pageNumToVaddr (f : Nat) :
    m.vaddrToPageNum (m.pageNumToVaddr f) = f := by
  simp [Machine.vaddrToPageNum, Machine.pageNumToVaddr, pageSize]

lemma pageNumToVaddr_ne_zero (f : Nat) : m.pageNumToVaddr f ≠ 0 := by
  have h := m.base_pos
  unfold Machine.pageNumToVaddr
  omega

lemma Reads.bind {x : MemM α} {k : α → MemM β} {a : α} {b : β} (hx : Reads s C x a)
    (hk : Reads s C (k a) b) : Reads s C (x >>= k) b := by
  intro l hl
  rw [bind_apply, hx l hl]
  exact hk l hl

lemma Reads.pure (a : α) : Reads s C (pure a) a := fun _ _ => rfl

lemma Reads.read (view : Content → Option α) {c : Content} {a : α} (hf : f ∈ C)
    (hc : s.frame f = some c) (ha : view c = some a) :
    Reads s C (read m view (m.pageNumToVaddr f)) a := by
  intro l hl
  have hframe : (s.after l).frame f = some c := (Memory.frame_after (hl f hf)).trans hc
  simp only [TableMemory.read, bind_apply, check, pageNumToVaddr_ne_zero, ne_eq,
    not_false_eq_true, if_true, pure_apply, Res.bind, get_apply,
    vaddrToPageNum_pageNumToVaddr, hframe, ofOption, ha]

lemma Frees.pure : Frees s C (pure ⟨⟩) [] := by
  intro l _ _
  rw [List.append_nil]
  rfl

lemma Frees.bind {x : MemM Unit} {k : Unit → MemM Unit} (hx : Frees s C x g)
    (hk : Frees s C (k ⟨⟩) g') : Frees s C (x >>= k) (g ++ g') := by
  intro l hC hnodup
  rw [← append_assoc] at hC hnodup ⊢
  have hfirst : x (s.after l) = .done ⟨⟩ (s.after (l ++ g)) := by
    refine hx l (fun f hf hmem => hC f hf (mem_append_left _ hmem)) ?_
    rw [itemsOf_append] at hnodup
    exact hnodup.of_append_left
  rw [bind_apply, hfirst]
  exact hk (l ++ g) hC hnodup

lemma Frees.after {x : MemM α} {k : α → MemM Unit} {a : α} (hx : Reads s C x a)
    (hk : Frees s C (k a) g) : Frees s C (x >>= k) g := by
  intro l hC hnodup
  rw [bind_apply, hx l fun f hf hmem => hC f hf (mem_append_left _ hmem)]
  exact hk l hC hnodup

lemma Frees.forM {ι : Type} (l : List ι) {x : ι → MemM Unit} {g : ι → List Release}
    (h : ∀ i ∈ l, Frees s C (x i) (g i)) : Frees s C (l.forM x) (l.flatMap g) := by
  induction l with
  | nil => exact .pure
  | cons i l ih =>
    exact .bind (h i mem_cons_self) (ih fun j hj => h j (mem_cons_of_mem _ hj))

lemma Frees.release {r : Release} (h : ∀ f, r ≠ .frameFree f) : Frees s C (release r) [r] := by
  intro l _ _
  have hframe : (s.after (l ++ [r])).frame = (s.after l).frame := by
    funext f
    simp [Memory.after, (h f).symm]
  simp only [TableMemory.release, modify_apply, Memory.after] at hframe ⊢
  rw [hframe, append_assoc]

lemma not_mem_of_nodup (h : (itemsOf (l ++ g)).Nodup) (hg : .frameFree f ∈ g) :
    .frameFree f ∉ l := by
  rw [itemsOf_append, List.nodup_append] at h
  exact fun hl => h.2.2 _ (frame_mem_itemsOf.mpr hl) _ (frame_mem_itemsOf.mpr hg) rfl

lemma Frees.frameFree (hf : s.frame f ≠ none) (hlt : f < m.frameTableSize) :
    Frees s C (frameFree m f) [.frameFree f] := by
  intro l _ hnodup
  have huse : (s.after l).frame f ≠ none := by
    rwa [Memory.frame_after (not_mem_of_nodup hnodup (List.mem_singleton_self _))]
  have hframe : (s.after (l ++ [.frameFree f])).frame = update (s.after l).frame f none := by
    funext g
    rcases eq_or_ne g f with rfl | hne
    · simp [Memory.after]
    · simp [Memory.after, hne]
  simp only [TableMemory.frameFree, TableMemory.release, bind_apply, modify_apply,
    Res.bind, if_neg (not_lt_of_gt hlt), get_apply, check, huse, ne_eq, not_false_eq_true,
    if_true, pure_apply, set_apply, ← hframe]
  simp [Memory.after]

lemma Frees.readFirst {x : MemM α} {k : α → MemM Unit} {a : α} (hx : Reads s (f :: C) x a)
    (hk : Frees s C (k a) (g ++ .frameFree f :: g')) :
    Frees s C (x >>= k) (g ++ .frameFree f :: g') := by
  intro l hC hnodup
  have hread : x (s.after l) = .done a (s.after l) := by
    have hf := not_mem_of_nodup hnodup (List.mem_append_right g mem_cons_self)
    refine hx l (List.forall_mem_cons.mpr ⟨hf, fun y hy hmem => ?_⟩)
    exact hC y hy (mem_append_left _ hmem)
  rw [bind_apply, hread]
  exact hk l hC hnodup

lemma Frees.until {x : MemM Unit} {k : Unit → MemM Unit} (hx : Frees s (f :: C) x g)
    (hk : Frees s C (k ⟨⟩) (.frameFree f :: g')) :
    Frees s C (x >>= k) (g ++ .frameFree f :: g') := by
  intro l hC hnodup
  have hrest := hk (l ++ g)
  rw [append_assoc] at hrest
  have hfirst : x (s.after l) = .done ⟨⟩ (s.after (l ++ g)) := by
    rw [← append_assoc] at hC hnodup
    have hf := not_mem_of_nodup hnodup mem_cons_self
    rw [itemsOf_append] at hnodup
    refine hx l (List.forall_mem_cons.mpr ⟨hf, fun y hy hmem => ?_⟩) hnodup.of_append_left
    exact hC y hy (mem_append_left _ hmem)
  rw [bind_apply, hfirst]
  exact hrest hC hnodup

lemma Frees.below {pointer : MemM Nat} {below : MemM Unit}
    (hp : Reads s C pointer (m.pageNumToVaddr f)) (hb : Frees s (f :: C) below g)
    (hf : s.frame f ≠ none ∧ f < m.frameTableSize) :
    Frees s C (destroyBelow m pointer below) (g ++ [.frameFree f]) := by
  have hfree : Frees s C (TableMemory.frameFree m (m.vaddrToPageNum (m.pageNumToVaddr f)))
      [.frameFree f] := by
    rw [vaddrToPageNum_pageNumToVaddr]
    exact .frameFree hf.1 hf.2
  refine .after hp ?_
  rw [if_pos (pageNumToVaddr_ne_zero f)]
  exact .until hb (.after hp hfree)

lemma Frees.below_null {pointer : MemM Nat} {below : MemM Unit} (hp : Reads s C pointer 0) :
    Frees s C (destroyBelow m pointer below) [] :=
  .after hp .pure

end Walk

/-! ## A page table in memory -/

/-- A pointer to a frame that may be missing. -/
def pointer (m : Machine) (f : Option Nat) : Nat := f.elim 0 m.pageNumToVaddr

@[simp] lemma pointer_none (m : Machine) : pointer m none = 0 := rfl

@[simp] lemma pointer_some (m : Machine) (f : Nat) : pointer m (some f) = m.pageNumToVaddr f :=
  rfl

/-- What the frame at a place of the table holds, where `objects` are the kernel objects
that were saved, chunk by chunk. -/
def contentAt (m : Machine) (t : PageTable) (objects : List (List (Nat × Nat))) :
    PageTable.Place → Content
  | .table => .table (pointer m (t.frameAt .pgd)) (pointer m (t.frameAt (.objects 0)))
  | .pgd => .dir fun a => pointer m (t.frameAt (.pud a))
  | .pud a => .dir fun b => pointer m (t.frameAt (.pd a b))
  | .pd a b => .dir fun c => pointer m (t.frameAt (.pt a b c))
  | .pt a b c => .pt fun d => (t.word ⟨a, b, c, d⟩).getD 0
  | .objects k => .chunk (objects.getD k []).length (pointer m (t.frameAt (.objects (k + 1))))
      fun i => (objects.getD k []).getD i (0, 0)

/-- The page table at the address `p` is the tree `t` with the saved objects, every frame
and every slot has one place in it, and its pages are in frames of the table. -/
structure Built (m : Machine) (p : Nat) (t : PageTable) (objects : List (List (Nat × Nat)))
    (s : Memory) : Prop where
  address : p = m.pageNumToVaddr t.frame
  content : ∀ x f, t.frameAt x = some f → s.frame f = some (contentAt m t objects x)
  chunks : t.seL4Pages.length = objects.length
  node : ∀ x y f, t.frameAt x = some f → t.frameAt y = some f → x = y
  page : ∀ i f, t.pte i = .frame f → s.frame f = some .page
  leaf : ∀ i i' f, t.pte i = .frame f → t.pte i' = .frame f → i = i'
  slot : ∀ i i' j, t.pte i = .pagefile j → t.pte i' = .pagefile j → i = i'
  flagged : t.WordsFlagged
  fits : ∀ l ∈ objects, l.length ≤ pageObjectSize
  range : ∀ f, s.frame f ≠ none → f < m.frameTableSize

def objectReleases (x : Nat × Nat) : List Release :=
  [.utFree x.1, .cspaceDelete x.2, .cspaceFreeSlot x.2]

def itemRelease : Item → Release
  | .frame f => .frameFree f
  | .slot j => .pagefileRemove j

/-- The calls for a chunk with its objects. -/
def chunkReleases (x : ObjectsFrame × List (Nat × Nat)) : List Release :=
  x.2.flatMap objectReleases ++ [.frameFree x.1.frame]

/-- The calls that give back a page table. -/
def releases (t : PageTable) (objects : List (List (Nat × Nat))) : List Release :=
  ((List.finRange 512).flatMap fun a => (optionItems pudItems (t.pud a)).map itemRelease) ++
    (t.seL4Pages.zip objects).flatMap chunkReleases ++
    [.frameFree t.pgd.frame, .frameFree t.frame]

section Destroy

variable {m : Machine} {p : Nat} {t : PageTable} {objects : List (List (Nat × Nat))} {s : Memory}
variable {C : List Nat}

lemma contentAt_ne_page (x : PageTable.Place) : contentAt m t objects x ≠ .page := by
  cases x <;> exact nofun

lemma Built.inUse (h : Built m p t objects s) {x : PageTable.Place} (hf : t.frameAt x = some f) :
    s.frame f ≠ none ∧ f < m.frameTableSize := by
  have huse : s.frame f ≠ none := by simp [h.content x f hf]
  exact ⟨huse, h.range f huse⟩

lemma Built.readsPud (h : Built m p t objects s) (hpgd : t.pgd.frame ∈ C) (a : Fin 512) :
    Reads s C (pudAt m (m.pageNumToVaddr t.pgd.frame) a) (pointer m (t.frameAt (.pud a))) :=
  .bind (.read _ hpgd (h.content .pgd _ rfl) rfl) (.pure _)

lemma Built.readsPd (h : Built m p t objects s) (hpgd : t.pgd.frame ∈ C) {a : Fin 512}
    (hf : t.frameAt (.pud a) = some f) (hC : f ∈ C) (b : Fin 512) :
    Reads s C (pdAt m (m.pageNumToVaddr t.pgd.frame) a b) (pointer m (t.frameAt (.pd a b))) := by
  have hpud := h.readsPud hpgd a
  rw [hf] at hpud
  exact .bind hpud (.bind (.read _ hC (h.content _ f hf) rfl) (.pure _))

lemma Built.readsPt (h : Built m p t objects s) (hpgd : t.pgd.frame ∈ C) {a b : Fin 512}
    {g : Nat} (hf : t.frameAt (.pud a) = some f) (hfC : f ∈ C) (hg : t.frameAt (.pd a b) = some g)
    (hgC : g ∈ C) (c : Fin 512) : Reads s C (ptAt m (m.pageNumToVaddr t.pgd.frame) a b c)
      (pointer m (t.frameAt (.pt a b c))) := by
  have hpd := h.readsPd hpgd hf hfC b
  rw [hg] at hpd
  exact .bind hpd (.bind (.read _ hgC (h.content _ g hg) rfl) (.pure _))

lemma Built.readsPage (h : Built m p t objects s) (hpgd : t.pgd.frame ∈ C) {a b c : Fin 512}
    {g n : Nat} (hf : t.frameAt (.pud a) = some f) (hfC : f ∈ C)
    (hg : t.frameAt (.pd a b) = some g) (hgC : g ∈ C) (hn : t.frameAt (.pt a b c) = some n)
    (hnC : n ∈ C) (d : Fin 512) : Reads s C (pageAt m (m.pageNumToVaddr t.pgd.frame) a b c d)
      ((t.word ⟨a, b, c, d⟩).getD 0) := by
  have hpt := h.readsPt hpgd hf hfC hg hgC c
  rw [hn] at hpt
  exact .bind hpt (.bind (.read _ hnC (h.content _ n hn) rfl) (.pure _))

lemma Frees.node {α : Type} {items : α → List Item} {n : Node α} {pointer : MemM Nat}
    {body : Fin 512 → MemM Unit} (hp : Reads s C pointer (m.pageNumToVaddr n.frame))
    (hb : ∀ i, Frees s (n.frame :: C) (body i) ((items (n.slot i)).map itemRelease))
    (hf : s.frame n.frame ≠ none ∧ n.frame < m.frameTableSize) :
    Frees s C (destroyBelow m pointer ((List.finRange 512).forM body))
      ((nodeItems items n).map itemRelease) := by
  rw [nodeItems, List.map_append, List.map_flatMap]
  exact .below hp (.forM _ fun i _ => hb i) hf

lemma Built.freesEntry (h : Built m p t objects s) {i : PtIndex} {w : Word}
    (hw : t.word i = some w) :
    Frees s C (TableMemory.destroyEntry m w) ((entryItems w).map itemRelease) := by
  unfold TableMemory.destroyEntry entryItems
  split
  · exact .pure
  · split
    · exact .release nofun
    · rename_i hvalid hpage
      have hpte : t.pte i = .frame (pageEntryNumber w) := by
        simp only [PageTable.pte, hw, Pte.ofWord]
        rcases h.flagged i w hw with hb | hb | hb
        · simp [hb]
        · exact absurd (by simp [hb]) hvalid
        · exact absurd (by simp [hb]) hpage
      have huse : s.frame (pageEntryNumber w) ≠ none := by simp [h.page i _ hpte]
      exact .frameFree huse (h.range _ huse)

lemma Built.freesPt (h : Built m p t objects s) (hpgd : t.pgd.frame ∈ C) {a b : Fin 512}
    {g : Nat} (hf : t.frameAt (.pud a) = some f) (hfC : f ∈ C) (hg : t.frameAt (.pd a b) = some g)
    (hgC : g ∈ C) (c : Fin 512) : Frees s C (destroyPt m (m.pageNumToVaddr t.pgd.frame) a b c)
      ((optionItems ptItems (t.pt a b c)).map itemRelease) := by
  have hread := h.readsPt hpgd hf hfC hg hgC c
  cases hpt : t.pt a b c with
  | none =>
    rw [PageTable.frameAt, hpt] at hread
    exact .below_null hread
  | some n =>
    have hn : t.frameAt (.pt a b c) = some n.frame := by simp [PageTable.frameAt, hpt]
    rw [hn] at hread
    refine .node hread (fun d => ?_) (h.inUse hn)
    have hword : t.word ⟨a, b, c, d⟩ = some (n.slot d) := by simp [PageTable.word, hpt]
    have hpage := h.readsPage (mem_cons_of_mem n.frame hpgd) hf (mem_cons_of_mem _ hfC)
      hg (mem_cons_of_mem _ hgC) hn mem_cons_self d
    rw [hword] at hpage
    exact .after hpage (h.freesEntry hword)

lemma Built.freesPd (h : Built m p t objects s) (hpgd : t.pgd.frame ∈ C) {a : Fin 512}
    (hf : t.frameAt (.pud a) = some f) (hfC : f ∈ C) (b : Fin 512) :
    Frees s C (destroyPd m (m.pageNumToVaddr t.pgd.frame) a b)
      ((optionItems pdItems (t.pd a b)).map itemRelease) := by
  have hread := h.readsPd hpgd hf hfC b
  cases hpd : t.pd a b with
  | none =>
    rw [PageTable.frameAt, hpd] at hread
    exact .below_null hread
  | some n =>
    have hn : t.frameAt (.pd a b) = some n.frame := by simp [PageTable.frameAt, hpd]
    rw [hn] at hread
    refine .node hread (fun c => ?_) (h.inUse hn)
    have hslot : n.slot c = t.pt a b c := by simp [PageTable.pt, hpd]
    rw [hslot]
    exact h.freesPt (mem_cons_of_mem _ hpgd) hf (mem_cons_of_mem _ hfC) hn
      mem_cons_self c

lemma Built.freesPud (h : Built m p t objects s) (hpgd : t.pgd.frame ∈ C) (a : Fin 512) :
    Frees s C (destroyPud m (m.pageNumToVaddr t.pgd.frame) a)
      ((optionItems pudItems (t.pud a)).map itemRelease) := by
  have hread := h.readsPud hpgd a
  cases hpud : t.pud a with
  | none =>
    rw [PageTable.frameAt, hpud] at hread
    exact .below_null hread
  | some n =>
    have hn : t.frameAt (.pud a) = some n.frame := by simp [PageTable.frameAt, hpud]
    rw [hn] at hread
    refine .node hread (fun b => ?_) (h.inUse hn)
    have hslot : n.slot b = t.pd a b := by simp [PageTable.pd, hpud]
    rw [hslot]
    exact h.freesPd (mem_cons_of_mem _ hpgd) hn mem_cons_self b

lemma Built.freesTree (h : Built m p t objects s) (hpgd : t.pgd.frame ∈ C) :
    Frees s C (destroyTree m (m.pageNumToVaddr t.pgd.frame))
      ((List.finRange 512).flatMap fun a => (optionItems pudItems (t.pud a)).map itemRelease) :=
  .forM _ fun a _ => h.freesPud hpgd a

lemma flatMap_range_getD {α β : Type} (l : List α) (d : α) (g : α → List β) :
    (List.range l.length).flatMap (fun i => g (l.getD i d)) = l.flatMap g := by
  have hmap : (List.range l.length).map (fun i => l.getD i d) = l := by
    refine List.ext_getElem (by simp) fun i h1 h2 => ?_
    simp [h2]
  conv_rhs => rw [← hmap]
  rw [List.flatMap_map]

lemma Built.freesNoChunk (h : Built m p t objects s) {k : Nat} (hk : objects.length ≤ k)
    (fuel : Nat) : Frees s C (destroyChunks m fuel (pointer m (t.frameAt (.objects k))))
      (((t.seL4Pages.zip objects).drop k).flatMap chunkReleases) := by
  have hnone : t.frameAt (.objects k) = none := by
    rw [PageTable.frameAt, List.getElem?_eq_none (h.chunks ▸ hk)]
    rfl
  have hdrop : (t.seL4Pages.zip objects).drop k = [] := by
    rw [List.drop_eq_nil_iff, List.length_zip, h.chunks]
    omega
  rw [hnone, hdrop]
  unfold destroyChunks
  exact .pure

lemma Built.freesChunks (h : Built m p t objects s) {k : Nat} (hfuel : objects.length ≤ k + fuel) :
    Frees s C (destroyChunks m fuel (pointer m (t.frameAt (.objects k))))
      (((t.seL4Pages.zip objects).drop k).flatMap chunkReleases) := by
  induction fuel generalizing k with
  | zero => exact h.freesNoChunk hfuel 0
  | succ fuel ih =>
    rcases Nat.lt_or_ge k objects.length with hk | hk
    · have hkt : k < t.seL4Pages.length := h.chunks ▸ hk
      have hzip : k < (t.seL4Pages.zip objects).length := by
        rw [List.length_zip]
        omega
      have hn : t.frameAt (.objects k) = some t.seL4Pages[k].frame := by
        simp [PageTable.frameAt, hkt]
      have hcontent := h.content _ _ hn
      have hobj : objects.getD k [] = objects[k] := by simp [hk]
      rw [contentAt, hobj] at hcontent
      have hmem : t.seL4Pages[k].frame ∈ t.seL4Pages[k].frame :: C := mem_cons_self
      have hread := Reads.read (m := m) Content.chunk? hmem hcontent rfl
      have hobjects : Frees s (t.seL4Pages[k].frame :: C)
          ((List.range objects[k].length).forM
            fun i => destroyObject m (m.pageNumToVaddr t.seL4Pages[k].frame) i)
          (objects[k].flatMap objectReleases) := by
        rw [← flatMap_range_getD objects[k] (0, 0)]
        refine .forM _ fun i _ => .after hread ?_
        exact .bind (.release (by simp)) (.bind (.release (by simp)) (.release (by simp)))
      have huse := h.inUse hn
      have hrest := Frees.bind (k := fun _ => destroyChunks m fuel
        (pointer m (t.frameAt (.objects (k + 1))))) (.frameFree (C := C) huse.1 huse.2)
        (ih (by omega))
      rw [List.drop_eq_getElem_cons hzip, List.flatMap_cons, List.getElem_zip, chunkReleases,
        append_assoc, hn, pointer_some]
      unfold destroyChunks
      rw [if_neg (pageNumToVaddr_ne_zero _)]
      refine .readFirst hread (.until hobjects (.readFirst (g := []) hread ?_))
      simpa using hrest
    · exact h.freesNoChunk hk _

lemma Built.destroy (h : Built m p t objects s) (hfuel : objects.length ≤ fuel) :
    Frees s [] (TableMemory.pageTableDestroy m fuel p) (releases t objects) := by
  have hpgd := h.inUse (x := .pgd) rfl
  have htable := h.inUse (x := .table) rfl
  have hread : ∀ C, t.frame ∈ C → Reads s C (TableMemory.read m Content.table? p)
      (m.pageNumToVaddr t.pgd.frame, pointer m (t.frameAt (.objects 0))) := by
    intro C hC
    rw [h.address]
    exact .read _ hC (h.content .table _ rfl) rfl
  have hbody : Frees s [t.pgd.frame, t.frame]
      (destroyTree m (m.pageNumToVaddr t.pgd.frame) >>= fun _ =>
        TableMemory.read m Content.table? p >>= fun x => destroyChunks m fuel x.2)
      (((List.finRange 512).flatMap fun a => (optionItems pudItems (t.pud a)).map itemRelease) ++
        (t.seL4Pages.zip objects).flatMap chunkReleases) :=
    .bind (h.freesTree mem_cons_self)
      (.after (hread _ (by simp)) (h.freesChunks (k := 0) (by omega)))
  have hfirst := hbody.until (k := fun _ => TableMemory.frameFree m t.pgd.frame)
    (.frameFree hpgd.1 hpgd.2)
  have hall := hfirst.until (k := fun _ => TableMemory.frameFree m t.frame)
    (.frameFree htable.1 htable.2)
  have heq : TableMemory.pageTableDestroy m fuel p =
      TableMemory.read m Content.table? p >>= fun x =>
        ((destroyTree m x.1 >>= fun _ =>
          TableMemory.read m Content.table? p >>= fun y => destroyChunks m fuel y.2) >>=
            fun _ => TableMemory.frameFree m (m.vaddrToPageNum x.1)) >>=
              fun _ => TableMemory.frameFree m (m.vaddrToPageNum p) := by
    simp only [TableMemory.pageTableDestroy, bind_assoc]
  rw [heq, releases, ← List.singleton_append, ← append_assoc]
  refine .readFirst (hread _ mem_cons_self) ?_
  rw [h.address, vaddrToPageNum_pageNumToVaddr, vaddrToPageNum_pageNumToVaddr, ← h.address]
  exact hall

lemma itemsOf_map_itemRelease (l : List Item) : itemsOf (l.map itemRelease) = l := by
  induction l with
  | nil => rfl
  | cons x l ih =>
    rw [itemsOf] at ih
    cases x <;> simp [itemsOf, itemRelease, Release.item?, ih]

lemma itemsOf_objectReleases (l : List (Nat × Nat)) : itemsOf (l.flatMap objectReleases) = [] := by
  induction l with
  | nil => rfl
  | cons x l ih =>
    rw [List.flatMap_cons, itemsOf_append, ih]
    rfl

lemma itemsOf_releases (hlen : t.seL4Pages.length = objects.length) :
    itemsOf (releases t objects) = t.items := by
  have htree : itemsOf ((List.finRange 512).flatMap fun a =>
      (optionItems pudItems (t.pud a)).map itemRelease) =
      (List.finRange 512).flatMap fun a => optionItems pudItems (t.pud a) := by
    have hone := fun a => itemsOf_map_itemRelease (optionItems pudItems (t.pud a))
    simp only [itemsOf] at hone ⊢
    rw [filterMap_flatMap]
    simp only [hone]
  have hchunks : itemsOf ((t.seL4Pages.zip objects).flatMap chunkReleases) =
      t.seL4Pages.map fun n => .frame n.frame := by
    have hone : ∀ x, itemsOf (chunkReleases x) = [.frame x.1.frame] := fun x => by
      rw [chunkReleases, itemsOf_append, itemsOf_objectReleases]
      rfl
    have hfst : (t.seL4Pages.zip objects).map Prod.fst = t.seL4Pages :=
      List.map_fst_zip hlen.le
    rw [itemsOf, filterMap_flatMap]
    simp only [itemsOf] at hone
    simp only [hone]
    conv_rhs => rw [← hfst]
    rw [List.map_map, List.map_eq_flatMap]
    rfl
  rw [releases, itemsOf_append, itemsOf_append, htree, hchunks]
  rfl

lemma Built.nodup (h : Built m p t objects s) : (itemsOf (releases t objects)).Nodup := by
  rw [itemsOf_releases h.chunks]
  refine PageTable.nodup_items h.flagged h.node h.leaf (fun i x f hi hx => ?_) h.slot
  exact contentAt_ne_page x (Option.some.inj ((h.content x f hx).symm.trans (h.page i f hi)))

lemma Built.destroys (h : Built m p t objects s) (hfuel : objects.length ≤ fuel) :
    TableMemory.pageTableDestroy m fuel p s = .done ⟨⟩ (s.after (releases t objects)) := by
  have hrun := h.destroy hfuel []
  rw [List.nil_append, Memory.after_nil] at hrun
  exact hrun (fun _ hf => nomatch hf) h.nodup

end Destroy

/-! ## Once -/

/-- The objects of one kind that a list of calls gives back. -/
def utsOf (l : List Release) : List Nat :=
  l.filterMap fun
    | .utFree ut => some ut
    | _ => none

def deletedCapsOf (l : List Release) : List Nat :=
  l.filterMap fun
    | .cspaceDelete cap => some cap
    | _ => none

def freedSlotsOf (l : List Release) : List Nat :=
  l.filterMap fun
    | .cspaceFreeSlot cap => some cap
    | _ => none

open scoped Classical in
/-- The calls free every page and every frame of the tree once, remove every slot once,
free the saved objects once, and do nothing else. -/
structure ReleasedOnce (t : PageTable) (saved : List (Nat × Nat)) (l : List Release) : Prop where
  frames : ∀ f, l.count (.frameFree f) =
    if (∃ i, t.pte i = .frame f) ∨ ∃ x, t.frameAt x = some f then 1 else 0
  slots : ∀ j, l.count (.pagefileRemove j) = if ∃ i, t.pte i = .pagefile j then 1 else 0
  uts : utsOf l = saved.map Prod.fst
  caps : deletedCapsOf l = saved.map Prod.snd
  capSlots : freedSlotsOf l = saved.map Prod.snd

section Once

variable {m : Machine} {p : Nat} {t : PageTable} {objects : List (List (Nat × Nat))} {s : Memory}

lemma count_eq_count_itemsOf {y : Item} (h : ∀ z : Release, z.item? = some y ↔ z = x)
    (l : List Release) : l.count x = (itemsOf l).count y := by
  induction l with
  | nil => rfl
  | cons z l ih =>
    simp only [itemsOf] at ih ⊢
    cases hz : z.item? with
    | none =>
      have hne : z ≠ x := fun heq => nomatch hz.symm.trans ((h z).mpr heq)
      rw [List.filterMap_cons_none hz, List.count_cons_of_ne hne, ih]
    | some y' =>
      rw [List.filterMap_cons_some hz, List.count_cons, List.count_cons, ih]
      have hiff := h z
      rw [hz, Option.some.injEq] at hiff
      simp [hiff]

lemma count_of_nodup {l : List Item} (h : l.Nodup) {x : Item} {P : Prop} {_ : Decidable P}
    (hP : x ∈ l ↔ P) : l.count x = if P then 1 else 0 := by
  split
  · exact List.count_eq_one_of_mem h (hP.mpr ‹_›)
  · exact List.count_eq_zero_of_not_mem (mt hP.mp ‹_›)

lemma filterMap_releases {view : Release → Option Nat} {sel : Nat × Nat → Nat}
    (hitem : ∀ x, view (itemRelease x) = none)
    (hobj : ∀ x, (objectReleases x).filterMap view = [sel x])
    (hlen : t.seL4Pages.length = objects.length) :
    (releases t objects).filterMap view = objects.flatten.map sel := by
  have hitems : ∀ l : List Item, (l.map itemRelease).filterMap view = [] := fun l => by
    simp [hitem]
  have hframe : ∀ f, view (.frameFree f) = none := fun f => hitem (.frame f)
  have hsnd : (t.seL4Pages.zip objects).map Prod.snd = objects := List.map_snd_zip hlen.ge
  have hchunk : ∀ x, (chunkReleases x).filterMap view = x.2.map sel := by
    intro x
    rw [chunkReleases, filterMap_append, filterMap_flatMap]
    simp [hobj, hframe, List.map_eq_flatMap]
  have htree : ((List.finRange 512).flatMap fun a =>
      (optionItems pudItems (t.pud a)).map itemRelease).filterMap view = [] := by
    rw [filterMap_flatMap, List.flatMap_eq_nil_iff]
    exact fun a _ => hitems _
  have hchunks : ((t.seL4Pages.zip objects).flatMap chunkReleases).filterMap view =
      objects.flatten.map sel := by
    rw [filterMap_flatMap]
    simp only [hchunk]
    rw [← List.flatMap_map Prod.snd (List.map sel), hsnd, List.flatMap_def, List.map_flatten]
  rw [releases, filterMap_append, filterMap_append, htree, hchunks]
  simp [hframe]

lemma Built.releasedOnce (h : Built m p t objects s) :
    ReleasedOnce t objects.flatten (releases t objects) := by
  have hnodup := h.nodup
  have hitems := itemsOf_releases h.chunks
  rw [hitems] at hnodup
  refine ⟨fun f => ?_, fun j => ?_,
    filterMap_releases (fun x => by cases x <;> rfl) (fun _ => rfl) h.chunks,
    filterMap_releases (fun x => by cases x <;> rfl) (fun _ => rfl) h.chunks,
    filterMap_releases (fun x => by cases x <;> rfl) (fun _ => rfl) h.chunks⟩
  · rw [count_eq_count_itemsOf (fun z => item?_eq_frame), hitems]
    exact count_of_nodup hnodup (PageTable.frame_mem_items h.flagged)
  · rw [count_eq_count_itemsOf (fun z => item?_eq_slot), hitems]
    exact count_of_nodup hnodup (PageTable.slot_mem_items h.flagged)

end Once

end SpaghettiOS.TableMemory
