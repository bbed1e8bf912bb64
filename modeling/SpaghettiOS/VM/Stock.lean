import SpaghettiOS.VM.Moves

/-!
# What the allocators answer

Whether a frame is to be had depends on how many questions were put to the allocators before,
how many frames are free, and whether the pagefile is open.  `Stock` is these three, and
`frameAllocWith_stock` says what a call of `frame_alloc` makes of them.
-/

namespace SpaghettiOS.Vm

open Coro (Keeps bind_apply get_apply modify_apply pure_apply set_apply)
open Coroutine (Res)

/-- What the answer to the next `frame_alloc` depends on. -/
@[ext]
structure Stock where
  time : Nat
  room : Nat
  opened : Bool
deriving DecidableEq

def VmState.stock (m : Machine) (s : VmState) : Stock :=
  ⟨s.time, m.frameTableSize - s.frameTableCurrSize, s.pfVnode⟩

namespace Stock

/-- A full table makes `frame_alloc` open the pagefile, which is one more question. -/
def ready (m : Machine) (k : Stock) : Stock :=
  if k.room = 0 ∧ k.opened = false then ⟨k.time + 1, 0, m.openOk k.time⟩ else k

/-- There are memory and a slot for the frame. -/
def grants (m : Machine) (k : Stock) : Bool := m.allocOk (k.ready m).time

/-- What is left when a frame was had.  In a full table its place is a victim's. -/
def next (m : Machine) (k : Stock) : Stock :=
  ⟨(k.ready m).time + 1, k.room - 1, (k.ready m).opened⟩

/-- What is left when a node of a page table is there, unless its frame is refused. -/
def ensure (m : Machine) (present : Bool) (k : Stock) : Option Stock :=
  if present then some k else if k.grants m then some (k.next m) else none

/-- What is left when all nodes on the way to an entry are there.  `frameAt` says where the
nodes are that are there already. -/
def nodes (m : Machine) (frameAt : PageTable.Place → Option Nat) (i : PtIndex) (k : Stock) :
    Option Stock :=
  ((k.ensure m (frameAt (.pud i.l1)).isSome).bind
    (ensure m (frameAt (.pd i.l1 i.l2)).isSome)).bind
    (ensure m (frameAt (.pt i.l1 i.l2 i.l3)).isSome)

lemma nodes_granted {m : Machine} (halloc : ∀ i, m.allocOk i = true)
    (frameAt : PageTable.Place → Option Nat) (i : PtIndex) (k : Stock) :
    nodes m frameAt i k ≠ none := by
  have hensure : ∀ b k, ∃ k', ensure m b k = some k' := by
    intro b k
    cases b with
    | true => exact ⟨k, rfl⟩
    | false => exact ⟨k.next m, by simp [ensure, grants, halloc]⟩
  obtain ⟨k₁, h₁⟩ := hensure (frameAt (.pud i.l1)).isSome k
  obtain ⟨k₂, h₂⟩ := hensure (frameAt (.pd i.l1 i.l2)).isSome k₁
  obtain ⟨k₃, h₃⟩ := hensure (frameAt (.pt i.l1 i.l2 i.l3)).isSome k₂
  simp [nodes, h₁, h₂, h₃]

end Stock

/-- The next answers are the same. -/
def SameStock (m : Machine) (s t : VmState) : Prop := t.stock m = s.stock m

instance (m : Machine) : Std.Refl (SameStock m) where
  refl _ := rfl

instance (m : Machine) : IsTrans VmState (SameStock m) where
  trans _ _ _ h h' := Eq.trans h' h

section Stock

variable {m : Machine} {pid : Int} {s t : VmState}

lemma pageoutVictim_stock (page : Nat) :
    Keeps (Served pid) (SameStock m) (pageoutVictim m page) := by
  intro s
  simp only [pageoutVictim, bind_apply, get_apply, Res.bind]
  refine Res.Ends.ofOption_bind fun fte _ => ?_
  refine Res.Ends.check_bind fun _ => Res.Ends.check_bind fun _ => ?_
  refine Res.Ends.ofOption_bind fun as _ => Res.Ends.ofOption_bind fun w _ => ?_
  simp only [bind_apply, set_apply, modify_apply, Res.bind]
  refine Res.Ends.check_bind fun _ => ?_
  simp only [sosCopyin, bind_apply, modify_apply, pure_apply, Res.bind]
  exact Res.Ends.check_bind fun _ => rfl

lemma vnfsWrite_stock (offset len : Nat) :
    Keeps (Served pid) (SameStock m) (vnfsWrite m offset len) := by
  refine Keeps.bind .get fun _ => Keeps.bind (.yield ?_) fun _ =>
    Keeps.bind (.check _ _) fun _ => .pure _
  rintro _ s _ ⟨file, rfl⟩
  rfl

lemma ensureOpen_stock (hfull : s.frameTableCurrSize = m.frameTableSize) :
    (ensureOpen m s).Ends (Served pid) fun _ t => t.stock m = (s.stock m).ready m := by
  simp only [ensureOpen, bind_apply, get_apply, Res.bind]
  cases hopen : s.pfVnode with
  | true => simp [Res.Ends, Stock.ready, VmState.stock, hopen]
  | false =>
    simp only [Bool.false_eq_true, if_false, pagefileOpen, ask, bind_apply, get_apply, set_apply,
      pure_apply, Res.bind]
    cases hok : m.openOk s.time with
    | true => simp [Res.Ends, Res.bind, Stock.ready, VmState.stock, hfull, hopen, hok]
    | false => simp [Res.Ends, Stock.ready, VmState.stock, hfull, hopen, hok]

lemma pageout_stock (hfull : s.frameTableCurrSize = m.frameTableSize) (page : Nat) :
    (pageout m page s).Ends (Served pid) fun _ t => t.stock m = (s.stock m).ready m := by
  refine Res.Ends.bind (ensureOpen_stock hfull) fun opened t ht => ?_
  refine Res.Ends.mono (Q := fun _ u => SameStock m t u) ?_ fun _ u hu => Eq.trans hu ht
  split
  · refine Keeps.bind (pageoutVictim_stock page) (fun ind => ?_) t
    exact Keeps.bind (vnfsWrite_stock _ _) fun _ => Keeps.bind (.check _ _) fun _ => .pure _
  · exact rfl

/-- Freeing the victim makes room for one frame. -/
lemma frameFree_stock (page : Nat) :
    (frameFree m page s).Ends (Served pid) fun _ t => t.time = s.time ∧ t.pfVnode = s.pfVnode ∧
      (t.stock m).room ≤ (s.stock m).room + 1 := by
  simp only [frameFree, bind_apply, get_apply, Res.bind]
  split
  · exact ⟨rfl, rfl, Nat.le_succ _⟩
  · refine Res.Ends.check_bind fun _ => ⟨rfl, rfl, ?_⟩
    simp only [VmState.stock, VmState.release, VmState.setFrame]
    omega

lemma choosePage_stock (hle : s.frameTableCurrSize ≤ m.frameTableSize) :
    (choosePage m s).Ends (Served pid) fun _ t => t.time = ((s.stock m).ready m).time ∧
      t.pfVnode = ((s.stock m).ready m).opened ∧
      m.frameTableSize - (t.frameTableCurrSize + 1) = (s.stock m).room - 1 := by
  simp only [choosePage, bind_apply, get_apply, Res.bind]
  split
  case isFalse hroom =>
    have hpos : (s.stock m).room ≠ 0 := by
      simp only [VmState.stock]
      omega
    rw [Stock.ready, if_neg fun h => hpos h.1]
    exact ⟨rfl, rfl, Nat.sub_add_eq _ _ _⟩
  case isTrue hfull =>
    simp only [evict, bind_apply, get_apply, Res.bind]
    refine Res.Ends.ofOption_bind fun swept hswept => ?_
    obtain ⟨k, -, -, rfl⟩ := (sweep_eq_some _).mp hswept
    have hturn : (turn m s k).stock m = s.stock m := by
      rw [turn_rest]
      rfl
    have hfull' : (turn m s k).frameTableCurrSize = m.frameTableSize := by
      rw [turn_rest]
      exact hfull
    simp only [bind_apply, set_apply, Res.bind]
    refine Res.Ends.bind (pageout_stock hfull' _) fun _ t ht => ?_
    rw [hturn] at ht
    simp only [bind_apply, get_apply, Res.bind]
    refine Res.Ends.bind (frameFree_stock t.clockCurr) fun _ u hu => ?_
    obtain ⟨htime, hopen, hroom⟩ := hu
    have hroom0 : (s.stock m).room = 0 := by
      simp only [VmState.stock, hfull, Nat.sub_self]
    refine ⟨htime.trans (congrArg Stock.time ht), hopen.trans (congrArg Stock.opened ht), ?_⟩
    have hready : ((s.stock m).ready m).room = 0 := by
      unfold Stock.ready
      split
      · rfl
      · exact hroom0
    rw [ht, hready] at hroom
    rw [hroom0]
    have hroom : m.frameTableSize - u.frameTableCurrSize ≤ 0 + 1 := hroom
    omega

/-- The answer to `frame_alloc`, and what it leaves. -/
lemma frameAllocWith_stock (important : Bool) :
    (frameAllocWith m important s).Ends (Served pid) fun r t =>
      if (s.stock m).grants m then r.2 ≠ 0 ∧ t.stock m = (s.stock m).next m else r = (0, 0) := by
  simp only [frameAllocWith, bind_apply, get_apply, Res.bind]
  refine Res.Ends.check_bind fun hle => ?_
  refine Res.Ends.bind (choosePage_stock hle) fun page t ht => ?_
  obtain ⟨htime, hopen, hroom⟩ := ht
  simp only [ask, bind_apply, get_apply, set_apply, pure_apply, Res.bind, htime]
  by_cases hok : (s.stock m).grants m = true
  · have hbase := m.base_pos
    have hvaddr : m.pageNumToVaddr page ≠ 0 := by
      unfold Machine.pageNumToVaddr
      omega
    simp only [if_pos hok, if_pos (show m.allocOk _ = true from hok)]
    exact ⟨hvaddr, Stock.ext rfl hroom hopen⟩
  · simp only [if_neg hok, if_neg (show ¬ m.allocOk _ = true from hok)]
    exact rfl

end Stock

/-! ## Inserting an entry -/

def VmState.entry (s : VmState) (pid : Int) (vaddr : Nat) : Option Word :=
  (s.procs pid).bind fun as => pageLookup as.pt vaddr

/-- A node of a page table is there afterwards, unless its frame was refused. -/
structure Ensured (m : Machine) (c : Int) (x : PageTable.Place) (s : VmState) (b : Bool)
    (t : VmState) : Prop where
  stock : (s.stock m).ensure m (s.tableFrame c x).isSome = if b then some (t.stock m) else none
  nodes : ∃ n, t.tableFrame c = Function.update (s.tableFrame c) x n ∧ n.isSome = b

section Insert

variable {m : Machine} {pid c : Int} {G : VmState → VmState → Prop} {s t : VmState}

lemma VmState.entry_eq_none {v : Nat} (h : s.tableFrame c (.pud (getPtIndex v).l1) = none ∨
    s.tableFrame c (.pd (getPtIndex v).l1 (getPtIndex v).l2) = none ∨
    s.tableFrame c (.pt (getPtIndex v).l1 (getPtIndex v).l2 (getPtIndex v).l3) = none) :
    s.entry c v = none := by
  cases has : s.procs c with
  | none => simp [VmState.entry, has]
  | some as =>
    have hpt : as.pt.pt (getPtIndex v).l1 (getPtIndex v).l2 (getPtIndex v).l3 = none := by
      rw [tableFrame_of_procs has] at h
      simp only [PageTable.frameAt, Option.map_eq_none_iff] at h
      rcases h with h | h | h
      · simp [PageTable.pt, PageTable.pd, h]
      · simp [PageTable.pt, h]
      · exact h
    simp [VmState.entry, has, pageLookup, PageTable.word, hpt]

lemma Ensured.missing {x : PageTable.Place} (h : Ensured m c x s false t) :
    s.tableFrame c x = none ∧ t.tableFrame c x = none := by
  obtain ⟨n, hnodes, hn⟩ := h.nodes
  refine ⟨?_, ?_⟩
  · by_contra hsome
    have hstock := h.stock
    rw [Option.isSome_iff_ne_none.mpr hsome] at hstock
    simp [Stock.ensure] at hstock
  · rw [hnodes, Function.update_self]
    simpa using hn

lemma Ensured.there {x : PageTable.Place} (h : Ensured m c x s true t) :
    t.tableFrame c x ≠ none := by
  obtain ⟨n, hnodes, hn⟩ := h.nodes
  rw [hnodes, Function.update_self]
  exact Option.isSome_iff_ne_none.mp hn

lemma Ensured.other {x y : PageTable.Place} {b : Bool} (h : Ensured m c x s b t) (hne : y ≠ x) :
    t.tableFrame c y = s.tableFrame c y := by
  obtain ⟨n, hnodes, -⟩ := h.nodes
  rw [hnodes, Function.update_of_ne hne]

variable [Std.Refl G] [IsTrans VmState G]
variable (halloc : Keeps (Served pid) G (frameAllocWith m true))
variable (hnode : ∀ {s as g x f}, s.procs c = some as → AddsNode x as.pt (g as.pt) f →
  G s (s.modifyTable c g))

include halloc hnode

/-- What holds across an allocation and across a new node holds across `ensureNode`. -/
lemma ensureNode_adds {x : PageTable.Place} {present : PageTable → Bool}
    {add : PageTable → Nat → PageTable} (hpresent : ∀ pt, present pt = (pt.frameAt x).isSome)
    (hadd : ∀ pt f, pt.frameAt = s.tableFrame c → pt.frameAt x = none →
      AddsNode x pt (add pt f) f) :
    (ensureNode m c present add s).Ends (Served pid) fun b t => G s t ∧ Ensured m c x s b t := by
  simp only [ensureNode, pageTableOf, bind_apply, get_apply, Res.bind]
  cases has : s.procs c with
  | none => trivial
  | some as =>
    have hframe : s.tableFrame c = as.pt.frameAt := tableFrame_of_procs has
    simp only [Coro.ofOption, pure_apply, Res.bind, hpresent]
    split
    case isTrue hthere =>
      rw [← hframe] at hthere
      refine ⟨Std.Refl.refl s, ⟨by rw [Stock.ensure, if_pos hthere, if_pos rfl], _, ?_, hthere⟩⟩
      rw [Function.update_eq_self]
    case isFalse habsent =>
      rw [← hframe] at habsent
      refine Res.Ends.bind (((halloc s).and (frameAllocWith_keeps sameNodes_moves true s)).and
        (frameAllocWith_stock true)) fun r t ht => ?_
      obtain ⟨⟨hst, hnodes⟩, hstock⟩ := ht
      have hnodes : t.tableFrame c = s.tableFrame c := congrFun hnodes c
      have hensure : (s.stock m).ensure m (s.tableFrame c x).isSome =
          if r.2 = 0 then none else some (t.stock m) := by
        rw [Stock.ensure, if_neg habsent]
        split at hstock
        case isTrue hok => rw [if_pos hok, if_neg hstock.1, hstock.2]
        case isFalse hok => rw [if_neg hok, hstock, if_pos rfl]
      split
      case isTrue hnull =>
        refine ⟨hst, ⟨hensure.trans (if_pos hnull), s.tableFrame c x, ?_, by simpa using habsent⟩⟩
        rw [hnodes, Function.update_eq_self]
      case isFalse hgot =>
        obtain ⟨as', has'⟩ : ∃ as', t.procs c = some as' := by
          refine Option.ne_none_iff_exists'.mp fun hnone => ?_
          have htop := congrFun hnodes .table
          simp [VmState.tableFrame, has, hnone, PageTable.frameAt] at htop
        have hframe' : as'.pt.frameAt = s.tableFrame c := by
          rw [← tableFrame_of_procs has', hnodes]
        have hnew := hadd as'.pt r.1 hframe' (by simpa [hframe'] using habsent)
        have hlink : G t (t.modifyTable c fun pt => add pt r.1) := hnode has' hnew
        refine ⟨IsTrans.trans _ _ _ hst hlink, ⟨hensure.trans (if_neg hgot), some r.1, ?_, rfl⟩⟩
        show (t.modifyTable c fun pt => add pt r.1).tableFrame c = _
        rw [tableFrame_modifyTable has', if_pos rfl, hnew.frameAt, hframe']

/-- `page_table_insert` gives up when a frame for a node is refused, and otherwise sets an entry
in a table that has all of its nodes. -/
lemma pageTableInsert_adds (v page : Nat) :
    (pageTableInsert m c v page s).Ends (Served pid) fun r t =>
      if (s.stock m).nodes m (s.tableFrame c) (getPtIndex v) = none then
        r = -1 ∧ G s t ∧ s.entry c v = none ∧ t.entry c v = none
      else r = 0 ∧ ∃ u as, G s u ∧ u.procs c = some as ∧ as.pt.word (getPtIndex v) ≠ none ∧
        t = u.modifyTable c fun pt => pt.setWord (getPtIndex v) (BitVec.ofNat 64 page) := by
  have hsome : ∀ {α : Type} (n : Option (Node α)), n.isSome = (n.map Node.frame).isSome :=
    fun n => by simp
  unfold Stock.nodes
  refine Res.Ends.bind (ensureNode_adds halloc hnode (fun _ => hsome _)
    fun _ f _ hnone => addsNode_pud hnone f) fun hasPud s₁ h₁ => ?_
  obtain ⟨h₁, hpud⟩ := h₁
  rw [hpud.stock, ← hpud.other (by simp), ← hpud.other (by simp)]
  cases hasPud with
  | false =>
    obtain ⟨hs, ht⟩ := hpud.missing
    exact ⟨rfl, h₁, VmState.entry_eq_none (.inl hs), VmState.entry_eq_none (.inl ht)⟩
  | true =>
    refine Res.Ends.bind (ensureNode_adds halloc hnode (fun _ => hsome _)
      fun _ f hpt hnone => addsNode_pd (hpt ▸ hpud.there) hnone f) fun hasPd s₂ h₂ => ?_
    obtain ⟨h₂, hpd⟩ := h₂
    have hs₂ : G s s₂ := IsTrans.trans _ _ _ h₁ h₂
    rw [if_pos rfl, Option.bind_some, hpd.stock, ← hpd.other (by simp)]
    cases hasPd with
    | false =>
      obtain ⟨hs, ht⟩ := hpd.missing
      rw [hpud.other (by simp)] at hs
      exact ⟨rfl, hs₂, VmState.entry_eq_none (.inr (.inl hs)),
        VmState.entry_eq_none (.inr (.inl ht))⟩
    | true =>
      refine Res.Ends.bind (ensureNode_adds halloc hnode (fun _ => hsome _)
        fun _ f hpt hnone => addsNode_pt (hpt ▸ hpd.there) hnone f) fun hasPt s₃ h₃ => ?_
      obtain ⟨h₃, hpt⟩ := h₃
      have hs₃ : G s s₃ := IsTrans.trans _ _ _ hs₂ h₃
      rw [if_pos rfl, Option.bind_some, hpt.stock]
      cases hasPt with
      | false =>
        obtain ⟨hs, ht⟩ := hpt.missing
        rw [hpd.other (by simp), hpud.other (by simp)] at hs
        exact ⟨rfl, hs₃, VmState.entry_eq_none (.inr (.inr hs)),
          VmState.entry_eq_none (.inr (.inr ht))⟩
      | true =>
        have hthere := hpt.there
        obtain ⟨as, has⟩ : ∃ as, s₃.procs c = some as := by
          refine Option.ne_none_iff_exists'.mp fun hnone => hthere ?_
          simp [VmState.tableFrame, hnone]
        refine ⟨rfl, s₃, as, hs₃, has, fun hn => hthere ?_, rfl⟩
        rw [tableFrame_of_procs has]
        exact Option.map_eq_none_iff.mpr (Option.map_eq_none_iff.mp hn)

end Insert

end SpaghettiOS.Vm
