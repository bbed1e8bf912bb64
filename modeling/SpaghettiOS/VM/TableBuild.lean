import SpaghettiOS.VM.TableRelease

/-!
# Changes to a page table in memory

A write that `page_table_insert` or `save_seL4_info` makes changes one place of the tree, and
a new structure takes a frame that was free.  Each keeps a tree in which no frame has two
places.
-/

namespace SpaghettiOS.TableMemory

open Vm
open Function (update update_of_ne update_self)

def parent : PageTable.Place → PageTable.Place
  | .table | .pgd | .objects 0 => .table
  | .pud _ => .pgd
  | .pd a _ => .pud a
  | .pt a b _ => .pd a b
  | .objects (k + 1) => .objects k

section Tree

variable {m : Machine} {p : Nat} {t t' : PageTable} {objects objects' : List (List (Nat × Nat))}
variable {s : Memory} {x y : PageTable.Place} {f g : Nat}

lemma frame_put (s : Memory) (f : Nat) (c : Content) : (s.put f c).frame f = some c :=
  update_self ..

lemma frame_put_of_ne {k : Nat} (h : k ≠ f) (c : Content) : (s.put f c).frame k = s.frame k :=
  update_of_ne h ..

lemma contentAt_add (hframe : t'.frameAt = update t.frameAt y (some g))
    (hword : ∀ i, t.word i ≠ none → t'.word i = t.word i)
    (hobjects : ∀ k, objects'.getD k [] = objects.getD k []) {z : PageTable.Place}
    (hz : t.frameAt z ≠ none) (hparent : z ≠ parent y) :
    contentAt m t' objects' z = contentAt m t objects z := by
  have hchild : ∀ c, parent c = z → t'.frameAt c = t.frameAt c := by
    intro c hc
    rw [hframe, update_of_ne]
    rintro rfl
    exact hparent hc.symm
  cases z with
  | table => rw [contentAt, contentAt, hchild .pgd rfl, hchild (.objects 0) rfl]
  | pgd => exact congrArg Content.dir (funext fun a => by rw [hchild (.pud a) rfl])
  | pud a => exact congrArg Content.dir (funext fun b => by rw [hchild (.pd a b) rfl])
  | pd a b => exact congrArg Content.dir (funext fun c => by rw [hchild (.pt a b c) rfl])
  | pt a b c =>
    refine congrArg Content.pt (funext fun d => ?_)
    rw [hword]
    obtain ⟨n, hn⟩ := Option.ne_none_iff_exists'.mp (by simpa [PageTable.frameAt] using hz)
    simp [PageTable.word, hn]
  | objects k => rw [contentAt, contentAt, hchild (.objects (k + 1)) rfl, hobjects k]

/-- The tree has more nodes, and the same entries; the pages are where they were. -/
structure Extends (t : PageTable) (s : Memory) (t' : PageTable) (s' : Memory) : Prop where
  pte : t'.pte = t.pte
  pages : ∀ f, s.frame f = some .page → s'.frame f = some .page
  frames : ∀ x f, t.frameAt x = some f → t'.frameAt x = some f

lemma Extends.refl (t : PageTable) (s : Memory) : Extends t s t s :=
  ⟨rfl, fun _ h => h, fun _ _ h => h⟩

lemma Extends.trans {t'' : PageTable} {s' s'' : Memory} (h : Extends t s t' s')
    (h' : Extends t' s' t'' s'') : Extends t s t'' s'' :=
  ⟨h'.pte.trans h.pte, fun f hf => h'.pages f (h.pages f hf),
    fun x f hf => h'.frames x f (h.frames x f hf)⟩

lemma Built.add (h : Built m p t objects s) (hx : t.frameAt (parent y) = some f)
    (hadd : AddsNode y t t' g) (hfree : s.frame g = none) (hg : g < m.frameTableSize)
    (hobjects : ∀ k, objects'.getD k [] = objects.getD k [])
    (hchunks : t'.seL4Pages.length = objects'.length)
    (hfits : ∀ l ∈ objects', l.length ≤ pageObjectSize) {c c' : Content}
    (hc : contentAt m t' objects' y = c) (hc' : contentAt m t' objects' (parent y) = c') :
    Built m p t' objects' ((s.put g c).put f c') ∧ Extends t s t' ((s.put g c).put f c') := by
  subst hc hc'
  have hy := hadd.empty
  have hframe := hadd.frameAt
  have hpte : t'.pte = t.pte := PageTable.pte_of_grown hadd.word
  have hflag : t'.WordsFlagged := fun i w hw => (hadd.flagged hw).elim (h.flagged i w) id
  have hword : ∀ i, t.word i ≠ none → t'.word i = t.word i := fun i hi =>
    (hadd.word i).resolve_right fun hno => hi hno.1
  have hused : ∀ {z k}, t.frameAt z = some k → k ≠ g := by
    rintro z k hz rfl
    exact (h.inUse hz).1 hfree
  have hne : parent y ≠ y := by
    intro heq
    rw [heq, hy] at hx
    cases hx
  have hold : ∀ {z}, z ≠ y → t'.frameAt z = t.frameAt z := fun hz => by
    rw [hframe, update_of_ne hz]
  have hnew : t'.frameAt y = some g := by rw [hframe, update_self]
  have hgf : g ≠ f := (hused hx).symm
  have hpages : ∀ k, s.frame k = some .page → ((s.put g (contentAt m t' objects' y)).put f
      (contentAt m t' objects' (parent y))).frame k = some .page := by
    intro k hk
    have hkf : k ≠ f := by
      rintro rfl
      exact contentAt_ne_page _ (Option.some.inj ((h.content _ _ hx).symm.trans hk))
    have hkg : k ≠ g := by
      rintro rfl
      exact nomatch hk.symm.trans hfree
    rw [frame_put_of_ne hkf, frame_put_of_ne hkg, hk]
  have hframes : ∀ z k, t.frameAt z = some k → t'.frameAt z = some k := by
    intro z k hz
    rw [hold, hz]
    rintro rfl
    exact nomatch hz.symm.trans hy
  refine ⟨⟨?_, fun z k hz => ?_, hchunks, fun z z' k hz hz' => ?_, fun i k hi => ?_, ?_, ?_, hflag,
    hfits, fun k hk => ?_⟩, hpte, hpages, hframes⟩
  · rw [h.address, Option.some.inj (hframes .table _ rfl)]
  · rcases eq_or_ne z y with rfl | hzy
    · cases hnew.symm.trans hz
      rw [frame_put_of_ne hgf, frame_put]
    · rw [hold hzy] at hz
      rcases eq_or_ne z (parent y) with rfl | hzx
      · cases hx.symm.trans hz
        exact frame_put ..
      · have hkf : k ≠ f := fun heq => hzx (h.node z _ k hz (heq ▸ hx))
        rw [frame_put_of_ne hkf, frame_put_of_ne (hused hz), h.content z k hz,
          contentAt_add hframe hword hobjects (by simp [hz]) hzx]
  · rcases eq_or_ne z y with rfl | hzy
    · rcases eq_or_ne z' z with rfl | hzy'
      · rfl
      · rw [hold hzy'] at hz'
        exact absurd (Option.some.inj (hz.symm.trans hnew)) (hused hz')
    · rw [hold hzy] at hz
      rcases eq_or_ne z' y with rfl | hzy'
      · exact absurd (Option.some.inj (hz'.symm.trans hnew)) (hused hz)
      · rw [hold hzy'] at hz'
        exact h.node z z' k hz hz'
  · rw [hpte] at hi
    exact hpages k (h.page i k hi)
  · rw [hpte]
    exact h.leaf
  · rw [hpte]
    exact h.slot
  · rcases eq_or_ne k f with rfl | hkf
    · exact (h.inUse hx).2
    · rcases eq_or_ne k g with rfl | hkg
      · exact hg
      · rw [frame_put_of_ne hkf, frame_put_of_ne hkg] at hk
        exact h.range k hk

lemma dir_update {child : Fin 512 → PageTable.Place} (hchild : child.Injective) (i : Fin 512)
    (hframe : t'.frameAt = update t.frameAt (child i) (some g)) :
    (Content.dir fun a => pointer m (t'.frameAt (child a))) =
      .dir (update (fun a => pointer m (t.frameAt (child a))) i (m.pageNumToVaddr g)) := by
  refine congrArg Content.dir (funext fun a => ?_)
  rcases eq_or_ne a i with rfl | ha
  · rw [hframe, update_self, update_self]
    rfl
  · rw [hframe, update_of_ne (hchild.ne ha), update_of_ne ha]

/-- The memory holds a tree that extends the other one and has the frame at the place. -/
def GrownAt (m : Machine) (p : Nat) (objects : List (List (Nat × Nat))) (t : PageTable) (s : Memory)
    (y : PageTable.Place) (g : Nat) (s' : Memory) : Prop :=
  ∃ t', t'.frameAt y = some g ∧ Built m p t' objects s' ∧ Extends t s t' s'

lemma Built.addPud (h : Built m p t objects s) {a : Fin 512} (hnone : t.frameAt (.pud a) = none)
    (hfree : s.frame g = none) (hg : g < m.frameTableSize) :
    GrownAt m p objects t s (.pud a) g ((s.put g (.dir fun _ => 0)).put t.pgd.frame
      (.dir (update (fun a => pointer m (t.frameAt (.pud a))) a (m.pageNumToVaddr g)))) := by
  have hadd := addsNode_pud hnone g
  refine ⟨t.addPud a g, by rw [hadd.frameAt, update_self], h.add (y := .pud a) rfl hadd hfree hg
    (fun _ => rfl) h.chunks h.fits ?_
    (dir_update (fun _ _ heq => by cases heq; rfl) a hadd.frameAt)⟩
  refine congrArg Content.dir (funext fun b => ?_)
  have hpud : t.pud a = none := by simpa [PageTable.frameAt] using hnone
  rw [hadd.frameAt, update_of_ne (by simp)]
  simp [PageTable.frameAt, PageTable.pd, hpud, pointer]

lemma Built.addPd (h : Built m p t objects s) {a b : Fin 512} (hf : t.frameAt (.pud a) = some f)
    (hnone : t.frameAt (.pd a b) = none) (hfree : s.frame g = none) (hg : g < m.frameTableSize) :
    GrownAt m p objects t s (.pd a b) g ((s.put g (.dir fun _ => 0)).put f
      (.dir (update (fun b => pointer m (t.frameAt (.pd a b))) b (m.pageNumToVaddr g)))) := by
  have hadd := addsNode_pd (by simp [hf]) hnone g
  refine ⟨t.addPd a b g, by rw [hadd.frameAt, update_self], h.add (y := .pd a b) hf hadd hfree hg
    (fun _ => rfl) h.chunks h.fits ?_
    (dir_update (fun _ _ heq => by cases heq; rfl) b hadd.frameAt)⟩
  refine congrArg Content.dir (funext fun c => ?_)
  have hpd : t.pd a b = none := by simpa [PageTable.frameAt] using hnone
  rw [hadd.frameAt, update_of_ne (by simp)]
  simp [PageTable.frameAt, PageTable.pt, hpd, pointer]

lemma Built.addPt (h : Built m p t objects s) {a b c : Fin 512}
    (hf : t.frameAt (.pd a b) = some f) (hnone : t.frameAt (.pt a b c) = none)
    (hfree : s.frame g = none) (hg : g < m.frameTableSize) : GrownAt m p objects t s (.pt a b c) g
      ((s.put g (.pt fun _ => pageUpdateEntry pInvalid 0)).put f
        (.dir (update (fun c => pointer m (t.frameAt (.pt a b c))) c (m.pageNumToVaddr g)))) := by
  have hpd : t.pd a b ≠ none := fun heq => by simp [PageTable.frameAt, heq] at hf
  have hadd := addsNode_pt (by simp [hf]) hnone g
  refine ⟨t.addPt a b c g, by rw [hadd.frameAt, update_self], h.add (y := .pt a b c) hf hadd hfree
    hg (fun _ => rfl) h.chunks h.fits ?_
    (dir_update (fun _ _ heq => by cases heq; rfl) c hadd.frameAt)⟩
  refine congrArg Content.pt (funext fun d => ?_)
  simp [PageTable.word, PageTable.pt_addPt hpd, PageTable.blank]

lemma getD_append_nil {α : Type} (l : List (List α)) (k : Nat) :
    (l ++ [[]]).getD k [] = l.getD k [] := by
  rcases Nat.lt_or_ge k l.length with hk | hk
  · simp [List.getD, List.getElem?_append_left hk]
  · rcases hk.eq_or_lt with rfl | hk
    · simp
    · have hnone : (l ++ [[]])[k]? = none := by
        simp
        omega
      simp [List.getD, hnone, hk.le]

lemma Built.addChunk (h : Built m p t objects s)
    (hf : t.frameAt (parent (.objects objects.length)) = some f) (hfree : s.frame g = none)
    (hg : g < m.frameTableSize) {c : Content}
    (hc : ∀ t', t'.frameAt = update t.frameAt (.objects objects.length) (some g) →
      contentAt m t' (objects ++ [[]]) (parent (.objects objects.length)) = c) :
    GrownAt m p (objects ++ [[]]) t s (.objects objects.length) g
      ((s.put g (.chunk 0 0 fun _ => (0, 0))).put f c) := by
  have hfits : ∀ l ∈ objects ++ [[]], l.length ≤ pageObjectSize := fun l hl => by
    rcases List.mem_append.mp hl with hl | hl
    · exact h.fits l hl
    · simp [List.mem_singleton.mp hl]
  have hadd := addsNode_objects t g
  rw [h.chunks] at hadd
  have hframe := hadd.frameAt
  refine ⟨{ t with seL4Pages := t.seL4Pages ++ [⟨g, 0⟩] }, by rw [hframe, update_self], ?_⟩
  refine h.add hf hadd hfree hg (fun k => getD_append_nil objects k) (by simp [h.chunks]) hfits ?_
    (hc _ hframe)
  have hlast : (objects ++ [[]]).getD objects.length [] = [] := by simp
  have hnext : t.frameAt (.objects (objects.length + 1)) = none := by
    simp [PageTable.frameAt, h.chunks]
  rw [contentAt, hlast, hframe, update_of_ne (by simp), hnext]
  rfl

lemma Built.rewrite (h : Built m p t objects s) (hy : t.frameAt y = some f)
    (hframe : t'.frameAt = t.frameAt)
    (hsame : ∀ z, z ≠ y → contentAt m t' objects' z = contentAt m t objects z)
    (hchunks : t'.seL4Pages.length = objects'.length)
    (hpage : ∀ i k, t'.pte i = .frame k → s.frame k = some .page)
    (honce : ∀ i i', t'.pte i = t'.pte i' → t'.pte i ≠ .invalid → i = i')
    (hflag : t'.WordsFlagged) (hfits : ∀ l ∈ objects', l.length ≤ pageObjectSize) {c : Content}
    (hc : contentAt m t' objects' y = c) : Built m p t' objects' (s.put f c) := by
  subst hc
  have hpages : ∀ k, s.frame k = some .page →
      (s.put f (contentAt m t' objects' y)).frame k = some .page := by
    intro k hk
    have hkf : k ≠ f := by
      rintro rfl
      exact contentAt_ne_page _ (Option.some.inj ((h.content _ _ hy).symm.trans hk))
    rw [frame_put_of_ne hkf, hk]
  refine ⟨?_, fun z k hz => ?_, hchunks, hframe ▸ h.node, fun i k hi => hpages k (hpage i k hi),
    fun i i' k hi hi' => honce i i' (hi.trans hi'.symm) (by simp [hi]),
    fun i i' k hi hi' => honce i i' (hi.trans hi'.symm) (by simp [hi]), hflag, hfits,
    fun k hk => ?_⟩
  · have htable : t'.frame = t.frame := Option.some.inj (congrFun hframe .table)
    rw [h.address, htable]
  · rw [hframe] at hz
    rcases eq_or_ne z y with rfl | hzy
    · cases hy.symm.trans hz
      exact frame_put ..
    · have hkf : k ≠ f := fun heq => hzy (h.node z _ k hz (heq ▸ hy))
      rw [frame_put_of_ne hkf, h.content z k hz, hsame z hzy]
  · rcases eq_or_ne k f with rfl | hkf
    · exact (h.inUse hy).2
    · rw [frame_put_of_ne hkf] at hk
      exact h.range k hk

lemma Built.once (h : Built m p t objects s) {i i' : PtIndex} (heq : t.pte i = t.pte i')
    (hvalid : t.pte i ≠ .invalid) : i = i' := by
  cases hi : t.pte i with
  | invalid => exact absurd hi hvalid
  | pagefile j => exact h.slot i i' j hi (heq ▸ hi)
  | frame f => exact h.leaf i i' f hi (heq ▸ hi)

lemma Built.setWord (h : Built m p t objects s) {i : PtIndex} {w : Word}
    (hf : t.frameAt (.pt i.l1 i.l2 i.l3) = some f) (hflag : WellFlagged w)
    (hpage : ∀ k, Pte.ofWord w = .frame k → s.frame k = some .page)
    (hother : ∀ j, j ≠ i → t.pte j ≠ Pte.ofWord w) : Built m p (t.setWord i w) objects
      (s.put f (.pt (update (fun d => (t.word ⟨i.l1, i.l2, i.l3, d⟩).getD 0) i.l4 w))) := by
  obtain ⟨n, hn, -⟩ := Option.map_eq_some_iff.mp hf
  have hword : t.word i ≠ none := by simp [PageTable.word, hn]
  have hframe : (t.setWord i w).frameAt = t.frameAt := PageTable.frameAt_setWord i w
  have hpte := PageTable.pte_setWord hword (w := w)
  refine h.rewrite (y := .pt i.l1 i.l2 i.l3) hf hframe (fun z hz => ?_) h.chunks (fun j k hj => ?_)
    (fun j j' hjj hvalid => ?_) (fun j v hv => ?_) h.fits ?_
  · cases z with
    | pt a b c =>
      refine congrArg Content.pt (funext fun d => ?_)
      rw [PageTable.word_setWord, if_neg]
      rintro rfl
      exact hz rfl
    | table | pgd | pud _ | pd _ _ | objects _ => simp only [contentAt, hframe]
  · rw [hpte] at hj
    split at hj
    · exact hpage k hj
    · exact h.page j k hj
  · rw [hpte, hpte] at hjj
    rw [hpte] at hvalid
    split at hjj
    · split at hjj
      · subst j j'
        rfl
      · rename_i hj'
        exact absurd hjj.symm (hother j' hj')
    · rename_i hj
      rw [if_neg hj] at hvalid
      split at hjj
      · exact absurd hjj (hother j hj)
      · exact h.once hjj hvalid
  · rw [PageTable.word_setWord] at hv
    split at hv
    · obtain ⟨u, -, rfl⟩ := Option.map_eq_some_iff.mp hv
      exact hflag
    · exact h.flagged j v hv
  · refine congrArg Content.pt (funext fun d => ?_)
    rw [PageTable.word_setWord]
    rcases eq_or_ne d i.l4 with rfl | hd
    · simp [PageTable.word, hn]
    · have hne : (⟨i.l1, i.l2, i.l3, d⟩ : PtIndex) ≠ i := fun heq => hd (congrArg PtIndex.l4 heq)
      rw [if_neg hne, update_of_ne hd]

lemma Built.addObject {l : List (Nat × Nat)} (h : Built m p t (objects ++ [l]) s)
    (hf : t.frameAt (.objects objects.length) = some f) (hlt : l.length < pageObjectSize)
    (x : Nat × Nat) : Built m p t (objects ++ [l ++ [x]])
      (s.put f (.chunk (l.length + 1) 0 (update (fun i => l.getD i (0, 0)) l.length x))) := by
  have hlen : t.seL4Pages.length = objects.length + 1 := by simp [h.chunks]
  have hfits : ∀ g ∈ objects ++ [l ++ [x]], g.length ≤ pageObjectSize := fun g hg => by
    rcases List.mem_append.mp hg with hg | hg
    · exact h.fits g (List.mem_append_left _ hg)
    · rw [List.mem_singleton.mp hg, List.length_append]
      exact hlt
  have hsame : ∀ z, z ≠ .objects objects.length →
      contentAt m t (objects ++ [l ++ [x]]) z = contentAt m t (objects ++ [l]) z := fun z hz => by
    cases z with
    | objects k =>
      have hk : k ≠ objects.length := fun heq => hz (heq ▸ rfl)
      have hget : (objects ++ [l ++ [x]]).getD k [] = (objects ++ [l]).getD k [] := by
        rcases Nat.lt_or_gt_of_ne hk with hk | hk
        · simp [List.getD, List.getElem?_append_left hk]
        · have hout : ∀ g : List (Nat × Nat), (objects ++ [g])[k]? = none := fun g => by
            simp
            omega
          simp only [List.getD, hout]
      rw [contentAt, contentAt, hget]
    | table | pgd | pud _ | pd _ _ | pt _ _ _ => rfl
  have hlast : (objects ++ [l ++ [x]]).getD objects.length [] = l ++ [x] := by simp
  have hnext : t.frameAt (.objects (objects.length + 1)) = none := by
    simp [PageTable.frameAt, hlen]
  refine h.rewrite hf rfl hsame (by simp [hlen]) h.page (fun i i' => h.once) h.flagged hfits ?_
  rw [contentAt, hlast, hnext]
  have hobjects : (fun i => (l ++ [x]).getD i (0, 0)) =
      update (fun i => l.getD i (0, 0)) l.length x := by
    funext i
    rcases Nat.lt_trichotomy i l.length with hi | rfl | hi
    · rw [update_of_ne hi.ne]
      simp [List.getD, List.getElem?_append_left hi]
    · simp
    · have hout : (l ++ [x])[i]? = none := by
        simp
        omega
      rw [update_of_ne hi.ne']
      simp [List.getD, hout, hi.le]
  rw [hobjects, List.length_append]
  rfl

end Tree

end SpaghettiOS.TableMemory
