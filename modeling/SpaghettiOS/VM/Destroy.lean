import SpaghettiOS.VM.FaultSteps

/-!
# The end of an address space

`page_table_destroy` walks the whole tree.  What it gives back is a list of frames and
slots; the walk is one loop over that list, and what has to be shown of the tree is which
items the list has and that no slot is in it twice.
-/

namespace SpaghettiOS.Vm

open Function (update)
open Coroutine (Res)

/-! ## What a page table gives back -/

inductive Item where
  | frame (page : Nat)
  | slot (ind : Nat)
deriving DecidableEq

def destroyItem (m : Machine) : Item → VmM Unit
  | .frame page => frameFree m page
  | .slot ind => do
      let _ ← pagefileRemove ind

def entryItems (w : Word) : List Item :=
  if pInvalid &&& pageGetBits w ≠ 0 then []
  else if pPagefile &&& pageGetBits w ≠ 0 then [.slot (pageEntryNumber w)]
  else [.frame (pageEntryNumber w)]

def nodeItems {α : Type} (items : α → List Item) (n : Node α) : List Item :=
  ((List.finRange 512).flatMap fun i => items (n.slot i)) ++ [.frame n.frame]

def optionItems {α : Type} (items : α → List Item) : Option α → List Item
  | none => []
  | some x => items x

def ptItems : Pt → List Item := nodeItems entryItems

def pdItems : Pd → List Item := nodeItems (optionItems ptItems)

def pudItems : Pud → List Item := nodeItems (optionItems pdItems)

def PageTable.items (t : PageTable) : List Item :=
  ((List.finRange 512).flatMap fun i => optionItems pudItems (t.pgd.slot i)) ++
    (t.seL4Pages.map fun n => .frame n.frame) ++ [.frame t.pgd.frame, .frame t.frame]

variable {α β : Type} {x : Item} {f j : Nat}

variable {items : α → List Item} {w : Word} {o : Int → Option Claim} {below : Fin 512 → List Use}
  {a b : Fin 512} {c : Int} {J : VmState → (Int → Option Claim) → Prop}
  {env : NfsReq → NfsReply → VmState → VmState → Prop}

lemma forM_append (l1 l2 : List β) (f : β → VmM Unit) :
    (l1 ++ l2).forM f = l1.forM f >>= fun _ => l2.forM f := by
  simp only [List.forM_eq_forM, List.forM_append]

lemma forM_flatMap (l : List α) (g : α → List β) (f : β → VmM Unit) :
    (l.flatMap g).forM f = l.forM fun x => (g x).forM f := by
  induction l with
  | nil => rfl
  | cons x l ih =>
    rw [List.flatMap_cons, forM_append, ih]
    rfl

lemma forM_map (l : List α) (g : α → β) (f : β → VmM Unit) :
    (l.map g).forM f = l.forM fun x => f (g x) := by
  induction l with
  | nil => rfl
  | cons x l ih =>
    show (f (g x) >>= fun _ => (l.map g).forM f) = f (g x) >>= fun _ => l.forM fun x => f (g x)
    rw [ih]

lemma forM_singleton (x : β) (f : β → VmM Unit) : [x].forM f = f x :=
  bind_pure_unit

lemma destroyEntry_eq (m : Machine) (w : Word) :
    destroyEntry m w = (entryItems w).forM (destroyItem m) := by
  unfold destroyEntry entryItems
  split
  · rfl
  · split
    · rw [forM_singleton]
      rfl
    · rw [forM_singleton]
      rfl

lemma ifPresent_eq {m : Machine} {f : α → VmM Unit}
    (h : ∀ x, f x = (items x).forM (destroyItem m)) (x : Option α) :
    ifPresent f x = (optionItems items x).forM (destroyItem m) := by
  cases x with
  | none => rfl
  | some x => exact h x

lemma destroyNode_eq {m : Machine} {f : α → VmM Unit}
    (h : ∀ x, f x = (items x).forM (destroyItem m)) (n : Node α) :
    destroyNode m f n = (nodeItems items n).forM (destroyItem m) := by
  rw [nodeItems, forM_append, forM_flatMap, forM_singleton]
  simp only [← h]
  rfl

lemma pageTableDestroy_eq (m : Machine) (t : PageTable) :
    pageTableDestroy m t = t.items.forM (destroyItem m) := by
  have hpt : ∀ n, destroyPt m n = (ptItems n).forM (destroyItem m) :=
    destroyNode_eq (destroyEntry_eq m)
  have hpd : ∀ n, destroyPd m n = (pdItems n).forM (destroyItem m) :=
    destroyNode_eq (ifPresent_eq hpt)
  have hpud : ∀ n, destroyPud m n = (pudItems n).forM (destroyItem m) :=
    destroyNode_eq (ifPresent_eq hpd)
  rw [PageTable.items, List.append_assoc, forM_append, forM_append, forM_flatMap, forM_map]
  simp only [← ifPresent_eq hpud]
  rw [← List.singleton_append, forM_append, forM_singleton, forM_singleton]
  rfl

/-! ## Which items a table has -/

lemma mem_entryItems (hw : WellFlagged w) (x : Item) :
    x ∈ entryItems w ↔ (∃ f, Pte.ofWord w = .frame f ∧ x = .frame f) ∨
      ∃ i, Pte.ofWord w = .pagefile i ∧ x = .slot i := by
  unfold entryItems Pte.ofWord
  rcases hw with h | h | h <;> simp [h]

lemma mem_nodeItems {n : Node α} :
    x ∈ nodeItems items n ↔ (∃ i, x ∈ items (n.slot i)) ∨ x = .frame n.frame := by
  simp [nodeItems]

lemma mem_optionItems {o : Option α} :
    x ∈ optionItems items o ↔ ∃ n, o = some n ∧ x ∈ items n := by
  cases o <;> simp [optionItems]

namespace PageTable

variable {t : PageTable}

lemma mem_ptItems (a b c : Fin 512) : x ∈ optionItems ptItems (t.pt a b c) ↔
      (∃ d w, t.word ⟨a, b, c, d⟩ = some w ∧ x ∈ entryItems w) ∨
        ∃ f, t.frameAt (.pt a b c) = some f ∧ x = .frame f := by
  rw [mem_optionItems]
  cases h : t.pt a b c <;> simp [word, frameAt, h, ptItems, mem_nodeItems]

lemma mem_pdItems (a b : Fin 512) : x ∈ optionItems pdItems (t.pd a b) ↔
      (∃ c, x ∈ optionItems ptItems (t.pt a b c)) ∨
        ∃ f, t.frameAt (.pd a b) = some f ∧ x = .frame f := by
  rw [mem_optionItems]
  cases h : t.pd a b with
  | none => simp [pt, frameAt, h, optionItems]
  | some n => simp [pt, frameAt, h, pdItems, mem_nodeItems]

lemma mem_pudItems (a : Fin 512) : x ∈ optionItems pudItems (t.pud a) ↔
      (∃ b, x ∈ optionItems pdItems (t.pd a b)) ∨
        ∃ f, t.frameAt (.pud a) = some f ∧ x = .frame f := by
  rw [mem_optionItems]
  cases h : t.pud a with
  | none => simp [pd, frameAt, h, optionItems]
  | some n => simp [pd, frameAt, h, pudItems, mem_nodeItems]

lemma mem_items : x ∈ t.items ↔ (∃ i w, t.word i = some w ∧ x ∈ entryItems w) ∨
      ∃ y f, t.frameAt y = some f ∧ x = .frame f := by
  have hpud : (∃ a, x ∈ optionItems pudItems (t.pgd.slot a)) ↔
      ∃ a, x ∈ optionItems pudItems (t.pud a) := Iff.rfl
  simp only [items, List.mem_append, List.mem_flatMap, List.mem_finRange, true_and, hpud,
    mem_pudItems, mem_pdItems, mem_ptItems, List.mem_map, List.mem_cons, List.not_mem_nil, or_false]
  constructor
  · rintro ((⟨a, ⟨b, ⟨c, ⟨d, w, hw, hx⟩ | ⟨f, hf, rfl⟩⟩ | ⟨f, hf, rfl⟩⟩ | ⟨f, hf, rfl⟩⟩ |
      ⟨n, hn, rfl⟩) | rfl | rfl)
    · exact .inl ⟨_, w, hw, hx⟩
    · exact .inr ⟨_, f, hf, rfl⟩
    · exact .inr ⟨_, f, hf, rfl⟩
    · exact .inr ⟨_, f, hf, rfl⟩
    · obtain ⟨j, hj⟩ := List.mem_iff_getElem?.mp hn
      exact .inr ⟨.objects j, n.frame, by simp [frameAt, hj], rfl⟩
    · exact .inr ⟨.pgd, _, rfl, rfl⟩
    · exact .inr ⟨.table, _, rfl, rfl⟩
  · rintro (⟨⟨a, b, c, d⟩, w, hw, hx⟩ | ⟨y, f, hf, rfl⟩)
    · exact .inl (.inl ⟨a, .inl ⟨b, .inl ⟨c, .inl ⟨d, w, hw, hx⟩⟩⟩⟩)
    · cases y with
      | table => exact .inr (.inr (by simpa [frameAt] using hf.symm))
      | pgd => exact .inr (.inl (by simpa [frameAt] using hf.symm))
      | pud a => exact .inl (.inl ⟨a, .inr ⟨f, hf, rfl⟩⟩)
      | pd a b => exact .inl (.inl ⟨a, .inl ⟨b, .inr ⟨f, hf, rfl⟩⟩⟩)
      | pt a b c => exact .inl (.inl ⟨a, .inl ⟨b, .inl ⟨c, .inr ⟨f, hf, rfl⟩⟩⟩⟩)
      | objects j =>
        obtain ⟨n, hn, rfl⟩ := Option.map_eq_some_iff.mp hf
        exact .inl (.inr ⟨n, List.mem_of_getElem? hn, rfl⟩)

def WordsFlagged (t : PageTable) : Prop := ∀ i w, t.word i = some w → WellFlagged w

lemma frame_mem_items (hw : t.WordsFlagged) :
    .frame f ∈ t.items ↔ (∃ i, t.pte i = .frame f) ∨ ∃ y, t.frameAt y = some f := by
  rw [mem_items]
  refine or_congr ⟨?_, ?_⟩ (by simp)
  · rintro ⟨i, w, hi, hx⟩
    rw [mem_entryItems (hw i w hi)] at hx
    refine ⟨i, ?_⟩
    rw [pte, hi]
    simpa using hx
  · rintro ⟨i, hi⟩
    cases h : t.word i with
    | none => simp [pte, h] at hi
    | some w =>
      rw [pte, h] at hi
      exact ⟨i, w, h, (mem_entryItems (hw i w h) _).mpr (.inl ⟨f, hi, rfl⟩)⟩

lemma slot_mem_items (hw : t.WordsFlagged) : .slot j ∈ t.items ↔ ∃ i, t.pte i = .pagefile j := by
  rw [mem_items]
  constructor
  · rintro (⟨i, w, hi, hx⟩ | ⟨y, f, -, h⟩)
    · rw [mem_entryItems (hw i w hi)] at hx
      refine ⟨i, ?_⟩
      rw [pte, hi]
      simpa using hx
    · cases h
  · rintro ⟨i, hi⟩
    cases h : t.word i with
    | none => simp [pte, h] at hi
    | some w =>
      rw [pte, h] at hi
      exact .inl ⟨i, w, h, (mem_entryItems (hw i w h) _).mpr (.inr ⟨j, hi, rfl⟩)⟩

def SlotsOnce (l : List Item) : Prop :=
  l.Pairwise fun x y => ∀ j, x = .slot j → y ≠ .slot j

/-! ## In which order

The walk passes every place a table can have, in the same order whatever the table.
What it gives back is what stands at these places. -/

/-- A place that may hold a frame or a slot: an entry or a node. -/
inductive Use where
  | leaf (i : PtIndex)
  | node (x : Place)

def Use.path : Use → List (Fin 512)
  | .leaf i => [i.l1, i.l2, i.l3, i.l4]
  | .node (.pud a) => [a]
  | .node (.pd a b) => [a, b]
  | .node (.pt a b c) => [a, b, c]
  | .node _ => []

/-- The places below a node, and then its own. -/
def levelUses (below : Fin 512 → List Use) (x : Place) : List Use :=
  (List.finRange 512).flatMap below ++ [.node x]

def ptUses (a b c : Fin 512) : List Use := levelUses (fun d => [.leaf ⟨a, b, c, d⟩]) (.pt a b c)

def pdUses (a b : Fin 512) : List Use := levelUses (ptUses a b) (.pd a b)

def pudUses (a : Fin 512) : List Use := levelUses (pdUses a) (.pud a)

def uses (n : Nat) : List Use :=
  (List.finRange 512).flatMap pudUses ++ ((List.range n).map fun k => .node (.objects k)) ++
    [.node .pgd, .node .table]

def itemAt (t : PageTable) : Use → Option Item
  | .leaf i =>
      match t.pte i with
      | .frame f => some (.frame f)
      | .pagefile j => some (.slot j)
      | .invalid => none
  | .node x => (t.frameAt x).map .frame

lemma nodup_flatMap_path (k : Nat) (h : ∀ i, (below i).Nodup)
    (hpath : ∀ i, ∀ u ∈ below i, u.path[k]? = some i) :
    ((List.finRange 512).flatMap below).Nodup := by
  refine List.nodup_flatMap.mpr ⟨fun i _ => h i, ?_⟩
  refine (List.nodup_finRange 512).imp fun {i j} hne u hi hj => hne ?_
  exact Option.some.inj ((hpath i u hi).symm.trans (hpath j u hj))

lemma nodup_levelUses {x : Place} (k : Nat)
    (h : ∀ i, (below i).Nodup) (hpath : ∀ i, ∀ u ∈ below i, u.path[k]? = some i)
    (hx : (Use.node x).path[k]? = none) : (levelUses below x).Nodup := by
  refine List.Nodup.append (nodup_flatMap_path k h hpath) (List.nodup_singleton _) ?_
  intro u hu hux
  obtain ⟨i, -, hi⟩ := List.mem_flatMap.mp hu
  cases List.mem_singleton.mp hux
  exact nomatch hx.symm.trans (hpath i _ hi)

lemma mem_levelUses {x : Place} {u : Use} :
    u ∈ levelUses below x ↔ (∃ i, u ∈ below i) ∨ u = .node x := by
  simp [levelUses]

lemma path_of_mem_ptUses {a b c : Fin 512} {u : Use} (h : u ∈ ptUses a b c) :
    ∃ l, u.path = a :: b :: c :: l := by
  rcases mem_levelUses.mp h with ⟨d, hd⟩ | rfl
  · cases List.mem_singleton.mp hd
    exact ⟨_, rfl⟩
  · exact ⟨_, rfl⟩

lemma path_of_mem_pdUses {u : Use} (h : u ∈ pdUses a b) :
    ∃ l, u.path = a :: b :: l := by
  rcases mem_levelUses.mp h with ⟨c, hc⟩ | rfl
  · obtain ⟨l, hl⟩ := path_of_mem_ptUses hc
    exact ⟨_, hl⟩
  · exact ⟨_, rfl⟩

lemma path_of_mem_pudUses {u : Use} (h : u ∈ pudUses a) : ∃ l, u.path = a :: l := by
  rcases mem_levelUses.mp h with ⟨b, hb⟩ | rfl
  · obtain ⟨l, hl⟩ := path_of_mem_pdUses hb
    exact ⟨_, hl⟩
  · exact ⟨_, rfl⟩

lemma nodup_pudUses (a : Fin 512) : (pudUses a).Nodup := by
  refine nodup_levelUses 1 (fun b => nodup_levelUses 2 (fun c => nodup_levelUses 3
    (fun d => List.nodup_singleton _) (fun d u hu => ?_) rfl) (fun c u hu => ?_) rfl)
    (fun b u hu => ?_) rfl
  · cases List.mem_singleton.mp hu
    rfl
  · obtain ⟨l, hl⟩ := path_of_mem_ptUses hu
    rw [hl]
    rfl
  · obtain ⟨l, hl⟩ := path_of_mem_pdUses hu
    rw [hl]
    rfl

lemma nodup_uses (n : Nat) : (uses n).Nodup := by
  have htree : ((List.finRange 512).flatMap pudUses).Nodup := by
    refine nodup_flatMap_path 0 nodup_pudUses fun a u hu => ?_
    obtain ⟨l, hl⟩ := path_of_mem_pudUses hu
    rw [hl]
    rfl
  have hchunks : ((List.range n).map fun k => Use.node (.objects k)).Nodup :=
    List.nodup_range.map fun k k' h => by cases h; rfl
  have hpath : ∀ u ∈ (List.finRange 512).flatMap pudUses, u.path ≠ [] := by
    intro u hu
    obtain ⟨a, -, ha⟩ := List.mem_flatMap.mp hu
    obtain ⟨l, hl⟩ := path_of_mem_pudUses ha
    simp [hl]
  refine List.Nodup.append (List.Nodup.append htree hchunks ?_) (by simp) ?_
  · intro u hu hk
    obtain ⟨k, -, rfl⟩ := List.mem_map.mp hk
    exact hpath _ hu rfl
  · intro u hu htop
    have hnil : u.path = [] ∧ ∀ k, u ≠ .node (.objects k) := by
      simp only [List.mem_cons, List.not_mem_nil, or_false] at htop
      rcases htop with rfl | rfl
      · exact ⟨rfl, nofun⟩
      · exact ⟨rfl, nofun⟩
    rcases List.mem_append.mp hu with hu | hu
    · exact hpath u hu hnil.1
    · obtain ⟨k, -, rfl⟩ := List.mem_map.mp hu
      exact hnil.2 k rfl

lemma filterMap_range_getElem? (l : List α) (f : α → β) :
    (List.range l.length).filterMap (fun k => l[k]?.map f) = l.map f := by
  induction l using List.reverseRecOn with
  | nil => rfl
  | append_singleton l x ih =>
    have hcongr : (List.range l.length).filterMap (fun k => (l ++ [x])[k]?.map f) =
        (List.range l.length).filterMap fun k => l[k]?.map f := by
      refine List.filterMap_congr fun k hk => ?_
      rw [List.getElem?_append_left (List.mem_range.mp hk)]
    rw [List.length_append, List.length_singleton, List.range_succ, List.filterMap_append, hcongr,
      ih, List.map_append]
    simp

lemma itemAt_slot {u : Use} (h : t.itemAt u = some (.slot j)) :
    ∃ i, u = .leaf i ∧ t.pte i = .pagefile j := by
  cases u with
  | leaf i =>
    refine ⟨i, rfl, ?_⟩
    simp only [itemAt] at h
    split at h
    · cases h
    · rename_i j' hj
      cases h
      exact hj
    · cases h
  | node x =>
    obtain ⟨f, -, hf⟩ := Option.map_eq_some_iff.mp h
    cases hf

lemma itemAt_frame {u : Use} (h : t.itemAt u = some (.frame f)) :
    (∃ i, u = .leaf i ∧ t.pte i = .frame f) ∨ ∃ x, u = .node x ∧ t.frameAt x = some f := by
  cases u with
  | leaf i =>
    refine .inl ⟨i, rfl, ?_⟩
    simp only [itemAt] at h
    split at h
    · rename_i f' hf
      cases h
      exact hf
    · cases h
    · cases h
  | node x =>
    obtain ⟨f', hf, heq⟩ := Option.map_eq_some_iff.mp h
    cases heq
    exact .inr ⟨x, rfl, hf⟩

section Order

variable (hw : t.WordsFlagged)

include hw

lemma entryItems_eq {i : PtIndex} (h : t.word i = some w) :
    entryItems w = [Use.leaf i].filterMap t.itemAt := by
  unfold entryItems
  simp only [List.filterMap_cons, List.filterMap_nil, itemAt, pte, h, Pte.ofWord]
  rcases hw i w h with hb | hb | hb
  · simp [hb]
  · simp [hb]
  · simp [hb]

lemma ptItems_eq (a b c : Fin 512) :
    optionItems ptItems (t.pt a b c) = (ptUses a b c).filterMap t.itemAt := by
  rw [ptUses, levelUses, List.filterMap_append, List.filterMap_flatMap]
  cases h : t.pt a b c with
  | none =>
    have hword : ∀ d, t.word ⟨a, b, c, d⟩ = none := fun d => by simp [word, h]
    simp [optionItems, itemAt, pte, hword, frameAt, h]
  | some n =>
    have hword : ∀ d, t.word ⟨a, b, c, d⟩ = some (n.slot d) := fun d => by simp [word, h]
    simp only [← entryItems_eq hw (hword _)]
    simp [optionItems, ptItems, nodeItems, itemAt, frameAt, h]

lemma pdItems_eq (a b : Fin 512) :
    optionItems pdItems (t.pd a b) = (pdUses a b).filterMap t.itemAt := by
  rw [pdUses, levelUses, List.filterMap_append, List.filterMap_flatMap]
  simp only [← ptItems_eq hw]
  cases h : t.pd a b with
  | none => simp [optionItems, pt, itemAt, frameAt, h]
  | some n => simp [optionItems, pdItems, nodeItems, pt, itemAt, frameAt, h]

lemma pudItems_eq (a : Fin 512) :
    optionItems pudItems (t.pud a) = (pudUses a).filterMap t.itemAt := by
  rw [pudUses, levelUses, List.filterMap_append, List.filterMap_flatMap]
  simp only [← pdItems_eq hw]
  cases h : t.pud a with
  | none => simp [optionItems, pd, itemAt, frameAt, h]
  | some n => simp [optionItems, pudItems, nodeItems, pd, itemAt, frameAt, h]

lemma items_eq : t.items = (uses t.seL4Pages.length).filterMap t.itemAt := by
  have hchunks : (t.seL4Pages.map fun n => Item.frame n.frame) =
      ((List.range t.seL4Pages.length).map fun k => Use.node (.objects k)).filterMap t.itemAt := by
    rw [List.filterMap_map, ← filterMap_range_getElem?]
    exact List.filterMap_congr fun k _ => by simp [itemAt, frameAt, Function.comp_def]
  rw [uses, List.filterMap_append, List.filterMap_append, List.filterMap_flatMap]
  simp only [← pudItems_eq hw, ← hchunks]
  rfl

lemma slotsOnce_items (hinj : ∀ i i' j, t.pte i = .pagefile j → t.pte i' = .pagefile j → i = i') :
    SlotsOnce t.items := by
  rw [items_eq hw]
  refine List.pairwise_filterMap.mpr ((nodup_uses _).imp fun {u v} hne x hx y hy j hxj hyj => ?_)
  obtain ⟨i, rfl, hi⟩ := itemAt_slot (hxj ▸ hx)
  obtain ⟨i', rfl, hi'⟩ := itemAt_slot (hyj ▸ hy)
  exact hne (congrArg Use.leaf (hinj i i' j hi hi'))

lemma nodup_items (hnode : ∀ x y f, t.frameAt x = some f → t.frameAt y = some f → x = y)
    (hleaf : ∀ i i' f, t.pte i = .frame f → t.pte i' = .frame f → i = i')
    (hapart : ∀ i x f, t.pte i = .frame f → t.frameAt x ≠ some f)
    (hslot : ∀ i i' j, t.pte i = .pagefile j → t.pte i' = .pagefile j → i = i') :
    t.items.Nodup := by
  rw [items_eq hw]
  refine (nodup_uses _).filterMap fun u v x hu hv => ?_
  cases x with
  | frame f =>
    rcases itemAt_frame hu with ⟨i, rfl, hi⟩ | ⟨x, rfl, hx⟩
    · rcases itemAt_frame hv with ⟨i', rfl, hi'⟩ | ⟨y, rfl, hy⟩
      · exact congrArg Use.leaf (hleaf i i' f hi hi')
      · exact absurd hy (hapart i y f hi)
    · rcases itemAt_frame hv with ⟨i', rfl, hi'⟩ | ⟨y, rfl, hy⟩
      · exact absurd hx (hapart i' x f hi')
      · exact congrArg Use.node (hnode x y f hx hy)
  | slot j =>
    obtain ⟨i, rfl, hi⟩ := itemAt_slot hu
    obtain ⟨i', rfl, hi'⟩ := itemAt_slot hv
    exact congrArg Use.leaf (hslot i i' j hi hi')

end Order

end PageTable

lemma exists_pageAddr (i : PtIndex) : ∃ v, PageAddr v ∧ getPtIndex v = i := by
  obtain ⟨a, b, c, d⟩ := i
  refine ⟨(((a.val * 512 + b.val) * 512 + c.val) * 512 + d.val) * 4096, ⟨by omega, by omega⟩, ?_⟩
  simp only [getPtIndex, PtIndex.mk.injEq, Fin.ext_iff, Fin.val_ofNat, Nat.shiftRight_eq_div_pow]
  omega

/-! ## Giving the items back -/

/-- `s₀` with the frame table, the free lists and the mappings of `s`. -/
def VmState.withTables (s₀ s : VmState) : VmState :=
  { s₀ with
    frameTable := s.frameTable, nextFreePage := s.nextFreePage,
    frameTableCurrSize := s.frameTableCurrSize, pfList := s.pfList, vspace := s.vspace,
    log := s.log }

/-- The frames in `F` and the slots in `S` have been given back since `s₀`, the page
tables being what they were. -/
structure Torn (m : Machine) (s₀ : VmState) (u : Usage) (F S : Nat → Prop)
    (s : VmState) : Prop where
  frames : ∀ f, ¬ F f → s.frameTable f = s₀.frameTable f
  freed : ∀ f, F f → (s.frameTable f).cap = 0
  freeFrames : ∃ l, FreeList m s (fun f => u.frame f = .free ∨ F f) l
  size : s.pfList.size = s₀.pfList.size
  freeSlots : s.pfList.free.Nodup ∧
    ∀ i, i ∈ s.pfList.free ↔ i < s₀.pfList.size ∧ (u.slot i = .free ∨ S i)
  mapped : ∀ q v, s.vspace q v = s₀.vspace q v ∨ s.vspace q v = none
  unmapped : ∀ f, F f → (s₀.frameTable f).userCap ≠ 0 → ∀ q v,
    s.vspace q v ≠ some ((s₀.frameTable f).userCap, f)
  rest : s = s₀.withTables s

section Destroy

variable {m : Machine} {s₀ s : VmState} {u : Usage} {F S : Nat → Prop}

lemma Torn.release (h : Torn m s₀ u F S s) (hf : f < m.frameTableSize) (hu : u.frame f ≠ .free)
    (hcap : (s.frameTable f).cap ≠ 0) : Torn m s₀ u (fun g => F g ∨ g = f) S (s.release f) := by
  have hnot : ¬ F f := fun hF => hcap (h.freed f hF)
  have hvs : ∀ q v, (s.release f).vspace q v = s.vspace q v ∨ (s.release f).vspace q v = none := by
    intro q v
    simp only [VmState.release, VmState.setFrame, VmState.pageUnmap]
    split
    · exact .inr rfl
    · exact .inl rfl
  refine { frames := fun g hg => ?_, freed := fun g hg => ?_, freeFrames := ?_, size := h.size,
           freeSlots := h.freeSlots, mapped := fun q v => ?_, unmapped := fun g hg hc q v => ?_,
           rest := ?_ }
  · rw [frameTable_release, if_neg (fun hgf => hg (.inr hgf))]
    exact h.frames g fun hF => hg (.inl hF)
  · rw [frameTable_release]
    split
    · rfl
    · exact h.freed g (hg.resolve_right ‹_›)
  · obtain ⟨l, hl⟩ := h.freeFrames
    have hl' := hl.release hf (by simp [hu, hnot])
    exact ⟨f :: l, hl'.chain, hl'.nodup, fun g => (hl'.mem_iff g).trans (by grind), hl'.count⟩
  · rcases hvs q v with hq | hq
    · rw [hq]
      exact h.mapped q v
    · exact .inr hq
  · rcases hg with hg | rfl
    · rcases hvs q v with hq | hq
      · rw [hq]
        exact h.unmapped g hg hc q v
      · simp [hq]
    · rw [← h.frames g hnot] at hc ⊢
      simp only [VmState.release, VmState.setFrame, VmState.pageUnmap]
      split
      · simp
      · rename_i hne
        exact fun heq => hne ⟨hc, heq⟩
  · have hrest := congrArg (fun x : VmState => x.withTables (s.release f)) h.rest
    exact hrest

lemma Torn.addFree (h : Torn m s₀ u F S s) (hj : j < s₀.pfList.size) (hu : u.slot j ≠ .free)
    (hnot : ¬ S j) : Torn m s₀ u F (fun i => S i ∨ i = j) (s.addFree j) := by
  have hmem : j ∉ s.pfList.free := by
    rw [h.freeSlots.2 j]
    grind
  refine { h with
    freeFrames := ?_
    freeSlots := ⟨nodup_addFreeList h.freeSlots.1 hmem, fun i => ?_⟩
    rest := ?_ }
  · obtain ⟨l, hl⟩ := h.freeFrames
    exact ⟨l, hl.chain, hl.nodup, hl.mem_iff, hl.count⟩
  · have hiff := h.freeSlots.2 i
    show i ∈ addFreeList j s.pfList.free ↔ _
    rw [mem_addFreeList]
    grind
  · have hrest := congrArg (fun x : VmState => x.withTables (s.addFree j)) h.rest
    exact hrest

lemma destroyItems_ok (l : List Item)
    (hframe : ∀ f, .frame f ∈ l → f < m.frameTableSize ∧ u.frame f ≠ .free)
    (hslot : ∀ j, .slot j ∈ l → j < s₀.pfList.size ∧ u.slot j ≠ .free ∧ ¬ S j)
    (honce : PageTable.SlotsOnce l) (h : Torn m s₀ u F S s) :
    (l.forM (destroyItem m) s).Ok J Fits env c (fun _ s' _ =>
      Torn m s₀ u (fun f => F f ∨ .frame f ∈ l) (fun j => S j ∨ .slot j ∈ l) s') o := by
  induction l generalizing F S s o with
  | nil =>
    show Torn m s₀ u _ _ s
    simpa using h
  | cons x l ih =>
    obtain ⟨hx, hl⟩ := List.pairwise_cons.mp honce
    have hframe' : ∀ f, .frame f ∈ l → f < m.frameTableSize ∧ u.frame f ≠ .free :=
      fun f hf => hframe f (List.mem_cons_of_mem x hf)
    cases x with
    | frame f =>
      obtain ⟨hf, hu⟩ := hframe f List.mem_cons_self
      refine Res.Ok.bind (Q := fun _ s' _ => Torn m s₀ u (fun g => F g ∨ g = f) S s') ?_ ?_
      · simp only [destroyItem, frameFree, Coro.bind_apply, Coro.get_apply, Res.bind]
        rw [if_neg (by omega)]
        exact Res.Ok.check_bind fun hcap => h.release hf hu hcap
      · intro _ s1 o1 h₁
        refine (ih hframe' (fun j hj => hslot j (List.mem_cons_of_mem _ hj)) hl h₁).mono ?_
        intro _ s2 o2 h₂
        have hF : (fun g => (F g ∨ g = f) ∨ Item.frame g ∈ l) =
            fun g => F g ∨ Item.frame g ∈ Item.frame f :: l := by
          funext g
          simp [or_assoc]
        have hS : (fun j => S j ∨ Item.slot j ∈ l) =
            fun j => S j ∨ Item.slot j ∈ Item.frame f :: l := by
          funext j
          simp
        exact hF ▸ hS ▸ h₂
    | slot j =>
      obtain ⟨hj, hu, hS⟩ := hslot j List.mem_cons_self
      refine Res.Ok.bind (Q := fun _ s' _ => Torn m s₀ u F (fun i => S i ∨ i = j) s') ?_ ?_
      · simp only [destroyItem, pagefileRemove, Coro.bind_apply, Coro.get_apply, Res.bind]
        rw [if_neg (by rw [h.size]; omega)]
        exact h.addFree hj hu hS
      · intro _ s1 o1 h₁
        have hslot' : ∀ i, .slot i ∈ l →
            i < s₀.pfList.size ∧ u.slot i ≠ .free ∧ ¬ (S i ∨ i = j) := by
          intro i hi
          obtain ⟨h1, h2, h3⟩ := hslot i (List.mem_cons_of_mem _ hi)
          refine ⟨h1, h2, ?_⟩
          rintro (h4 | rfl)
          · exact h3 h4
          · exact hx _ hi i rfl rfl
        refine (ih hframe' hslot' hl h₁).mono ?_
        intro _ s2 o2 h₂
        have hF : (fun g => F g ∨ Item.frame g ∈ l) =
            fun g => F g ∨ Item.frame g ∈ Item.slot j :: l := by
          funext g
          simp
        have hS : (fun i => (S i ∨ i = j) ∨ Item.slot i ∈ l) =
            fun i => S i ∨ Item.slot i ∈ Item.slot j :: l := by
          funext i
          simp [or_assoc]
        exact hF ▸ hS ▸ h₂

/-- What `as_destroy` of process `p` does to the rest of the system. -/
structure Destroyed (p : Int) (s s' : VmState) : Prop where
  procs : s'.procs = update s.procs p none
  mem : s'.mem = s.mem
  pagefile : s'.pagefile = s.pagefile
  frames : ∀ f, (∀ v, PageAddr v → s.pte p v ≠ .frame f) → (∀ x, s.tableFrame p x ≠ some f) →
    s'.frameTable f = s.frameTable f
  mapped : ∀ q v, s'.vspace q v = s.vspace q v ∨ s'.vspace q v = none
  unmapped : ∀ f v, PageAddr v → s.pte p v = .frame f → (s.frameTable f).userCap ≠ 0 → ∀ q w,
    s'.vspace q w ≠ some ((s.frameTable f).userCap, f)

/-- The account of a state in which no fault is in flight. -/
structure Settled (m : Machine) (s : VmState) (u : Usage) : Prop where
  books : Matches m s u
  frames : ∀ f < m.frameTableSize, (u.frame f).owner = none
  slots : ∀ i < s.pfList.size, ∀ c, u.slot i ≠ .reading c

lemma Books.settled (hb : Books m s fun _ => none) : ∃ u, Settled m s u := by
  obtain ⟨u, hm, hc⟩ := hb
  refine ⟨u, hm, fun f hf => ?_, fun i hi c => (hc c).2 i hi⟩
  cases h : (u.frame f).owner with
  | none => rfl
  | some c => exact absurd h ((hc c).1 f hf)

lemma Settled.toBooks (h : Settled m s u) : Books m s fun _ => none := by
  refine ⟨u, h.books, fun c => ⟨fun f hf => ?_, fun i hi => h.slots i hi c⟩⟩
  rw [h.frames f hf]
  simp

lemma Settled.framed (h : Settled m s u) {p : Int} {v : Nat} (hv : PageAddr v) :
    s.pte p v = .frame f ↔ f < m.frameTableSize ∧ u.frame f = .page p v := by
  rw [h.books.framed p v f hv]
  refine and_congr_right fun hf => ⟨fun hu => hu.resolve_right fun hl => ?_, .inl⟩
  have hown := h.frames f hf
  rw [hl] at hown
  cases hown

section Items

variable {p : Int} {as : AddrSpace}

lemma Settled.frame_mem_items (h : Settled m s u) (has : s.procs p = some as) :
    .frame f ∈ as.pt.items ↔ f < m.frameTableSize ∧
      ((∃ v, PageAddr v ∧ u.frame f = .page p v) ∨ ∃ x, u.frame f = .table p x) := by
  rw [PageTable.frame_mem_items (h.books.flagged p as · · has)]
  constructor
  · rintro (⟨i, hi⟩ | ⟨x, hx⟩)
    · obtain ⟨v, hv, rfl⟩ := exists_pageAddr i
      rw [← pte_of_procs has, h.framed hv] at hi
      exact ⟨hi.1, .inl ⟨v, hv, hi.2⟩⟩
    · rw [← tableFrame_of_procs has, h.books.tables] at hx
      exact ⟨hx.1, .inr ⟨x, hx.2⟩⟩
  · rintro ⟨hf, ⟨v, hv, hu⟩ | ⟨x, hu⟩⟩
    · refine .inl ⟨getPtIndex v, ?_⟩
      rw [← pte_of_procs has]
      exact (h.framed hv).mpr ⟨hf, hu⟩
    · refine .inr ⟨x, ?_⟩
      rw [← tableFrame_of_procs has]
      exact (h.books.tables p x f).mpr ⟨hf, hu⟩

lemma Settled.slot_mem_items (h : Settled m s u) (has : s.procs p = some as) :
    .slot j ∈ as.pt.items ↔ j < s.pfList.size ∧ ∃ v, PageAddr v ∧ u.slot j = .page p v := by
  rw [PageTable.slot_mem_items (h.books.flagged p as · · has)]
  constructor
  · rintro ⟨i, hi⟩
    obtain ⟨v, hv, rfl⟩ := exists_pageAddr i
    rw [← pte_of_procs has, h.books.swapped p v j hv] at hi
    exact ⟨hi.1, v, hv, hi.2⟩
  · rintro ⟨hj, v, hv, hu⟩
    refine ⟨getPtIndex v, ?_⟩
    rw [← pte_of_procs has]
    exact (h.books.swapped p v j hv).mpr ⟨hj, hu⟩

lemma Settled.slotsOnce (h : Settled m s u) (has : s.procs p = some as) :
    PageTable.SlotsOnce as.pt.items := by
  refine PageTable.slotsOnce_items (h.books.flagged p as · · has) fun i i' j hi hi' => ?_
  obtain ⟨v, hv, rfl⟩ := exists_pageAddr i
  obtain ⟨v', hv', rfl⟩ := exists_pageAddr i'
  rw [← pte_of_procs has, h.books.swapped p _ j hv] at hi
  rw [← pte_of_procs has, h.books.swapped p _ j hv'] at hi'
  rw [hi.2] at hi'
  cases hi'.2
  rfl

def Usage.without (u : Usage) (l : List Item) : Usage where
  frame f := if .frame f ∈ l then .free else u.frame f
  slot j := if .slot j ∈ l then .free else u.slot j

lemma Settled.destroy (h : Settled m s₀ u) {l : List Item}
    (hF : ∀ f, .frame f ∈ l ↔ f < m.frameTableSize ∧
      ((∃ v, PageAddr v ∧ u.frame f = .page p v) ∨ ∃ x, u.frame f = .table p x))
    (hS : ∀ j, .slot j ∈ l ↔ j < s₀.pfList.size ∧ ∃ v, PageAddr v ∧ u.slot j = .page p v)
    (ht : Torn m s₀ u (fun f => .frame f ∈ l) (fun j => .slot j ∈ l) s) :
    Settled m { s with procs := update s.procs p none } (u.without l) := by
  have hm := h.books
  have hrest := ht.rest
  have hprocs : s.procs = s₀.procs := by rw [hrest]; rfl
  have hclock : s.clockCurr = s₀.clockCurr := by rw [hrest]; rfl
  have hopen : s.pfVnode = s₀.pfVnode := by rw [hrest]; rfl
  have hpte : ∀ q v, VmState.pte { s with procs := update s.procs p none } q v =
      if q = p then .invalid else s₀.pte q v := by
    intro q v
    rcases eq_or_ne q p with rfl | hq
    · simp [VmState.pte]
    · simp [VmState.pte, hq, hprocs]
  have htab : ∀ q x, VmState.tableFrame { s with procs := update s.procs p none } q x =
      if q = p then none else s₀.tableFrame q x := by
    intro q x
    rcases eq_or_ne q p with rfl | hq
    · simp [VmState.tableFrame]
    · simp [VmState.tableFrame, hq, hprocs]
  have hprocs' : ∀ q as, update s.procs p none q = some as → s₀.procs q = some as := by
    intro q as hq
    rcases eq_or_ne q p with rfl | hne
    · simp at hq
    · simpa [hne, hprocs] using hq
  refine ⟨?_, fun f hf => ?_, fun j hj c => ?_⟩
  · refine {
      clock := hclock ▸ hm.clock
      opens := hopen ▸ hm.opens
      pids := fun q hq => ?_
      frames := fun f hf => ?_
      freeFrames := ?_
      framed := fun q v f hv => ?_
      swapped := fun q v j hv => ?_
      slotAddr := fun j q v hj hs => hm.slotAddr j q v (ht.size ▸ hj) (by grind [Usage.without])
      tables := fun q x f => ?_
      flagged := fun q as i w hq => hm.flagged q as i w (hprocs' q as hq)
      freeSlots := ⟨ht.freeSlots.1, fun j => ?_⟩
      leaving := fun f q v c hf hu => ?_ }
    · obtain ⟨as, has⟩ := Option.ne_none_iff_exists'.mp hq
      exact hm.pids q (by simp [hprocs' q as has])
    · show FrameOk (s.frameTable f) (if .frame f ∈ l then .free else u.frame f)
      split
      · exact ht.freed f ‹_›
      · rw [ht.frames f ‹_›]
        exact hm.frames f hf
    · obtain ⟨fl, hfl⟩ := ht.freeFrames
      refine ⟨fl, hfl.chain, hfl.nodup, fun f => (hfl.mem_iff f).trans ?_, hfl.count⟩
      grind [Usage.without]
    · have hiff := hm.framed q v f hv
      have hown := h.frames f
      rw [hpte]
      grind [Usage.without, FrameUse.owner]
    · have hiff := hm.swapped q v j hv
      rw [hpte]
      show _ ↔ j < s.pfList.size ∧ _
      rw [ht.size]
      grind [Usage.without]
    · have hiff := hm.tables q x f
      rw [htab]
      grind [Usage.without]
    · have hiff := ht.freeSlots.2 j
      show _ ↔ j < s.pfList.size ∧ _
      rw [ht.size]
      grind [Usage.without]
    · have hown := h.frames f hf
      grind [Usage.without, FrameUse.owner]
  · have hown := h.frames f hf
    grind [Usage.without, FrameUse.owner]
  · have hread := h.slots j (ht.size ▸ hj) c
    grind [Usage.without]

lemma asDestroy_eq (has : s.procs p = some as) :
    asDestroy m p s = (as.pt.items.forM (destroyItem m) s).bind fun _ s' =>
      .done ⟨⟩ { s' with procs := update s'.procs p none } := by
  simp only [asDestroy, pageTableOf, Coro.bind_apply, Coro.get_apply, Coro.pure_apply, Res.bind,
    has, Coro.ofOption, pageTableDestroy_eq]
  rfl

lemma asDestroy_ok (hb : Books m s fun _ => none) (p : Int) : (asDestroy m p s).Ok J Fits env c
      (fun _ s' _ => Books m s' (fun _ => none) ∧ Destroyed p s s') o := by
  obtain ⟨u, h⟩ := hb.settled
  cases has : s.procs p with
  | none =>
    simp only [asDestroy, pageTableOf, Coro.bind_apply, Coro.get_apply, Res.bind, has,
      Coro.ofOption, Coro.abort]
    trivial
  | some as =>
    rw [asDestroy_eq has]
    have hF : ∀ f, _ := fun f => h.frame_mem_items has (f := f)
    have hS : ∀ j, _ := fun j => h.slot_mem_items has (j := j)
    have honce := h.slotsOnce has
    generalize as.pt.items = l at hF hS honce ⊢
    obtain ⟨fl, hfl⟩ := h.books.freeFrames
    have hstart : Torn m s u (fun _ => False) (fun _ => False) s :=
      ⟨fun _ _ => rfl, fun _ hf => hf.elim,
        ⟨fl, hfl.chain, hfl.nodup, fun f => (hfl.mem_iff f).trans (by simp), hfl.count⟩, rfl,
        ⟨h.books.freeSlots.1, fun i => (h.books.freeSlots.2 i).trans (by simp)⟩,
        fun _ _ => .inl rfl, fun _ hf => hf.elim, rfl⟩
    refine Res.Ok.bind (destroyItems_ok l ?_ ?_ honce hstart) ?_
    · intro f hf
      have hiff := (hF f).mp hf
      grind
    · intro j hj
      have hiff := (hS j).mp hj
      grind
    intro _ s1 o2 h1
    simp only [false_or] at h1
    have hrest := h1.rest
    have hprocs : s1.procs = s.procs := by rw [hrest]; rfl
    refine ⟨(h.destroy hF hS h1).toBooks, ?_⟩
    refine { procs := ?_, mem := ?_, pagefile := ?_, frames := fun f hpage htable => ?_,
             mapped := h1.mapped, unmapped := fun f v hv hpte hcap q w => ?_ }
    · show update s1.procs p none = _
      rw [hprocs]
    · show s1.mem = _
      rw [hrest]
      rfl
    · show s1.pagefile = _
      rw [hrest]
      rfl
    · refine h1.frames f fun hmem => ?_
      obtain ⟨hf, ⟨v, hv, hu⟩ | ⟨x, hu⟩⟩ := (hF f).mp hmem
      · exact hpage v hv ((h.framed hv).mpr ⟨hf, hu⟩)
      · exact htable x ((h.books.tables p x f).mpr ⟨hf, hu⟩)
    · refine h1.unmapped f ?_ hcap q w
      obtain ⟨hf, hu⟩ := (h.framed hv).mp hpte
      exact (hF f).mpr ⟨hf, .inl ⟨v, hv, hu⟩⟩

end Items

end Destroy

end SpaghettiOS.Vm
