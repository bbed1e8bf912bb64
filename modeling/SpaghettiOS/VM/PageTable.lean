import Mathlib.Data.BitVec
import Mathlib.Logic.Function.Basic
import Mathlib.Order.Defs.LinearOrder

/-!
# Page-table entries and page tables

The entries and tables of `vm/pagetable.c`.  A page-table entry is a word whose
top twelve bits hold flags and whose low 52 bits hold a frame number or a
pagefile slot; `Pte` is what an entry means.

A table has four levels of 512 slots.  A pointer to a node is kept as the node
together with the number of its frame.
-/

namespace SpaghettiOS.Vm

open Function (update)

/-! ## Entries -/

abbrev Word := BitVec 64

abbrev pInvalid : BitVec 8 := 1

abbrev pPagefile : BitVec 8 := 2

/-- The mask `page_set_bits` builds by four shifts. -/
def entryMask : Word :=
  (((0xFFFF <<< 16 ||| 0xFFFF) <<< 16 ||| 0xFFFF) <<< 4) ||| 0xF

def pageSetBits (entry : Word) (bits : BitVec 8) : Word :=
  (((bits.setWidth 64 <<< 16) <<< 16) <<< 16) <<< 4 ||| (entryMask &&& entry)

def pageUpdateEntry (bits : BitVec 8) (num : Nat) : Word :=
  pageSetBits (BitVec.ofNat 64 num) bits

def pageGetBits (entry : Word) : BitVec 8 :=
  ((((entry >>> 16) >>> 16) >>> 16) >>> 4).setWidth 8

def pageEntryNumber (entry : Word) : Nat := (pageSetBits entry 0).toNat

/-- What an entry says, in the order in which `vm_fault` tests its bits. -/
inductive Pte where
  | invalid
  | pagefile (slot : Nat)
  | frame (page : Nat)
deriving DecidableEq, Repr

def Pte.ofWord (entry : Word) : Pte :=
  if pageGetBits entry = 0 then .frame (pageEntryNumber entry)
  else if pageGetBits entry &&& pPagefile ≠ 0 then .pagefile (pageEntryNumber entry)
  else .invalid

/-- The entries the code writes carry at most one flag. -/
def WellFlagged (entry : Word) : Prop :=
  pageGetBits entry = 0 ∨ pageGetBits entry = pInvalid ∨ pageGetBits entry = pPagefile

lemma entryMask_eq : entryMask = BitVec.ofNat 64 (2 ^ 52 - 1) := by decide

lemma toNat_pageSetBits (entry : Word) (bits : BitVec 8) :
    (pageSetBits entry bits).toNat = bits.toNat * 2 ^ 52 + entry.toNat % 2 ^ 52 := by
  have hb : bits.toNat < 2 ^ 8 := bits.isLt
  have hhigh : ((((bits.setWidth 64 <<< 16) <<< 16) <<< 16) <<< 4 : Word).toNat
      = 2 ^ 52 * bits.toNat := by
    simp only [BitVec.toNat_shiftLeft, BitVec.toNat_setWidth, Nat.shiftLeft_eq]
    omega
  have hlow : (entryMask &&& entry).toNat = entry.toNat % 2 ^ 52 := by
    rw [entryMask_eq, BitVec.toNat_and, Nat.and_comm]
    exact Nat.and_two_pow_sub_one_eq_mod _ 52
  rw [pageSetBits, BitVec.toNat_or, hhigh, hlow,
    ← Nat.two_pow_add_eq_or_of_lt (Nat.mod_lt _ (by decide))]
  omega

@[simp] lemma pageGetBits_setBits (entry : Word) (bits : BitVec 8) :
    pageGetBits (pageSetBits entry bits) = bits := by
  have hb : bits.toNat < 2 ^ 8 := bits.isLt
  apply BitVec.eq_of_toNat_eq
  simp only [pageGetBits, BitVec.toNat_setWidth, BitVec.toNat_ushiftRight,
    Nat.shiftRight_eq_div_pow, toNat_pageSetBits]
  omega

lemma pageEntryNumber_eq (entry : Word) : pageEntryNumber entry = entry.toNat % 2 ^ 52 := by
  simp [pageEntryNumber, toNat_pageSetBits]

lemma pageEntryNumber_update {num : Nat} (bits : BitVec 8) :
    pageEntryNumber (pageUpdateEntry bits num) = num % 2 ^ 52 := by
  rw [pageEntryNumber_eq, pageUpdateEntry, toNat_pageSetBits, BitVec.toNat_ofNat]
  omega

@[simp] lemma ofWord_update_invalid (num : Nat) :
    Pte.ofWord (pageUpdateEntry pInvalid num) = .invalid := by
  simp [Pte.ofWord, pageUpdateEntry]

lemma ofWord_update_pagefile (num : Nat) :
    Pte.ofWord (pageUpdateEntry pPagefile num) = .pagefile (num % 2 ^ 52) := by
  have hbits : pageGetBits (pageUpdateEntry pPagefile num) = pPagefile := by
    simp [pageUpdateEntry]
  rw [Pte.ofWord, hbits, pageEntryNumber_update]
  simp

lemma pageGetBits_ofNat {page : Nat} (h : page < 2 ^ 52) :
    pageGetBits (BitVec.ofNat 64 page) = 0 := by
  apply BitVec.eq_of_toNat_eq
  simp only [pageGetBits, BitVec.toNat_setWidth, BitVec.toNat_ushiftRight,
    Nat.shiftRight_eq_div_pow, BitVec.toNat_ofNat, BitVec.ofNat_eq_ofNat]
  omega

lemma ofWord_ofNat {page : Nat} (h : page < 2 ^ 52) :
    Pte.ofWord (BitVec.ofNat 64 page) = .frame page := by
  have hnum : pageEntryNumber (BitVec.ofNat 64 page) = page := by
    rw [pageEntryNumber_eq, BitVec.toNat_ofNat]
    omega
  simp [Pte.ofWord, pageGetBits_ofNat h, hnum]

/-! ## Tables -/

instance entries_neZero : NeZero 512 := ⟨by decide⟩

/-- `struct pt_index` without the page offset. -/
structure PtIndex where
  l1 : Fin 512
  l2 : Fin 512
  l3 : Fin 512
  l4 : Fin 512
deriving DecidableEq, Repr

/-- `get_pt_index`: four fields of nine bits, from bit 12 up. -/
def getPtIndex (vaddr : Nat) : PtIndex where
  l1 := Fin.ofNat 512 (vaddr >>> (12 + 9 * 3))
  l2 := Fin.ofNat 512 (vaddr >>> (12 + 9 * 2))
  l3 := Fin.ofNat 512 (vaddr >>> (12 + 9))
  l4 := Fin.ofNat 512 (vaddr >>> 12)

/-- The start of a page that the four fields tell apart. -/
def PageAddr (vaddr : Nat) : Prop := vaddr < 2 ^ 48 ∧ vaddr % 4096 = 0

instance (vaddr : Nat) : Decidable (PageAddr vaddr) :=
  inferInstanceAs (Decidable (_ ∧ _))

lemma getPtIndex_eq_iff_mod {v w : Nat} :
    getPtIndex v = getPtIndex w ↔ v / 4096 % 2 ^ 36 = w / 4096 % 2 ^ 36 := by
  simp only [getPtIndex, PtIndex.mk.injEq, Fin.ext_iff, Fin.val_ofNat, Nat.shiftRight_eq_div_pow]
  omega

lemma getPtIndex_inj {v w : Nat} (hv : PageAddr v) (hw : PageAddr w)
    (h : getPtIndex v = getPtIndex w) : v = w := by
  obtain ⟨hv, hv'⟩ := hv
  obtain ⟨hw, hw'⟩ := hw
  rw [getPtIndex_eq_iff_mod] at h
  omega

/-- A 4 KiB node: the frame it lives in and its 512 slots. -/
structure Node (α : Type) where
  frame : Nat
  slot : Fin 512 → α

abbrev Pt := Node Word

abbrev Pd := Node (Option Pt)

abbrev Pud := Node (Option Pd)

/-- `struct seL4_page_objects_frame`, the objects of which are only counted. -/
structure ObjectsFrame where
  frame : Nat
  size : Nat

structure PageTable where
  frame : Nat
  pgd : Node (Option Pud)
  seL4Pages : List ObjectsFrame

def Node.modify {α : Type} (n : Node α) (i : Fin 512) (f : α → α) : Node α :=
  { n with slot := update n.slot i (f (n.slot i)) }

namespace PageTable

variable (t : PageTable) (a b c a' b' c' : Fin 512)

def pud : Option Pud := t.pgd.slot a

def pd : Option Pd := (t.pud a).bind fun n => n.slot b

def pt : Option Pt := (t.pd a b).bind fun n => n.slot c

def word (i : PtIndex) : Option Word := (t.pt i.l1 i.l2 i.l3).map fun n => n.slot i.l4

def modifyPud (f : Option Pud → Option Pud) : PageTable :=
  { t with pgd := t.pgd.modify a f }

def modifyPd (f : Option Pd → Option Pd) : PageTable :=
  t.modifyPud a (Option.map fun n => n.modify b f)

def modifyPt (f : Option Pt → Option Pt) : PageTable :=
  t.modifyPd a b (Option.map fun n => n.modify c f)

/-- Stores through the pointer `page_lookup` returns. -/
def setWord (i : PtIndex) (w : Word) : PageTable :=
  t.modifyPt i.l1 i.l2 i.l3 (Option.map fun n => n.modify i.l4 fun _ => w)

lemma pud_modifyPud (f : Option Pud → Option Pud) :
    (t.modifyPud a f).pud a' = if a' = a then f (t.pud a) else t.pud a' := by
  simp only [pud, modifyPud, Node.modify, Function.update_apply]

lemma pd_modifyPd (f : Option Pd → Option Pd) :
    (t.modifyPd a b f).pd a' b' =
      if a' = a ∧ b' = b then (t.pud a).bind fun n => f (n.slot b) else t.pd a' b' := by
  simp only [pd, modifyPd, pud_modifyPud]
  rcases eq_or_ne a' a with rfl | ha
  · cases t.pud a' with
    | none => simp
    | some n => rcases eq_or_ne b' b with rfl | hb <;> simp [Node.modify, *]
  · simp [ha]

lemma pt_modifyPt (f : Option Pt → Option Pt) :
    (t.modifyPt a b c f).pt a' b' c' =
      if a' = a ∧ b' = b ∧ c' = c then (t.pd a b).bind fun n => f (n.slot c)
      else t.pt a' b' c' := by
  simp only [pt, modifyPt, pd_modifyPd]
  rcases em (a' = a ∧ b' = b) with ⟨rfl, rfl⟩ | hab
  · have hmap : ((t.pud a').bind fun n => (n.slot b').map fun m => m.modify c f)
        = (t.pd a' b').map fun m => m.modify c f := by
      cases hp : t.pud a' <;> simp [pd, hp]
    rw [if_pos ⟨rfl, rfl⟩, hmap]
    cases t.pd a' b' with
    | none => simp
    | some n => rcases eq_or_ne c' c with rfl | hc <;> simp [Node.modify, *]
  · rw [if_neg hab, if_neg fun h => hab ⟨h.1, h.2.1⟩]

lemma word_setWord (i j : PtIndex) (w : Word) :
    (t.setWord i w).word j = if j = i then (t.word i).map fun _ => w else t.word j := by
  obtain ⟨a, b, c, d⟩ := i
  obtain ⟨a', b', c', d'⟩ := j
  simp only [word, setWord, pt_modifyPt, PtIndex.mk.injEq]
  rcases em (a' = a ∧ b' = b ∧ c' = c) with ⟨rfl, rfl, rfl⟩ | habc
  · have hmap : ((t.pd a' b').bind fun n => (n.slot c').map fun m => m.modify d fun _ => w)
        = (t.pt a' b' c').map fun m => m.modify d fun _ => w := by
      cases hp : t.pd a' b' <;> simp [pt, hp]
    rw [if_pos ⟨rfl, rfl, rfl⟩, hmap]
    cases t.pt a' b' c' with
    | none => simp
    | some n => rcases eq_or_ne d' d with rfl | hd <;> simp [Node.modify, *]
  · rw [if_neg habc, if_neg fun h => habc ⟨h.1, h.2.1, h.2.2.1⟩]

/-! ### New nodes -/

/-- A node all of whose slots hold the same value: what a freshly cleared frame
is, or a page table filled with one entry. -/
def blank {α : Type} (frame : Nat) (x : α) : Node α := ⟨frame, fun _ => x⟩

/-- Where a frame is used in a table. -/
inductive Place where
  | table
  | pgd
  | pud (a : Fin 512)
  | pd (a b : Fin 512)
  | pt (a b c : Fin 512)
  | objects (k : Nat)
deriving DecidableEq, Repr

def frameAt : Place → Option Nat
  | .table => some t.frame
  | .pgd => some t.pgd.frame
  | .pud a => (t.pud a).map fun n => n.frame
  | .pd a b => (t.pd a b).map fun n => n.frame
  | .pt a b c => (t.pt a b c).map fun n => n.frame
  | .objects k => t.seL4Pages[k]?.map fun n => n.frame

/-- What the entry of a page says, a missing node counting as invalid. -/
def pte (i : PtIndex) : Pte :=
  match t.word i with
  | none => .invalid
  | some w => .ofWord w

variable {t a b c}

lemma pte_congr {t' : PageTable} {i : PtIndex} (h : t'.word i = t.word i) : t'.pte i = t.pte i := by
  simp only [pte, h]

lemma pte_setWord {i : PtIndex} (h : t.word i ≠ none) (j : PtIndex) (w : Word) :
    (t.setWord i w).pte j = if j = i then .ofWord w else t.pte j := by
  obtain ⟨v, hv⟩ := Option.ne_none_iff_exists'.mp h
  rcases eq_or_ne j i with rfl | hj
  · simp [pte, word_setWord, hv]
  · simp [pte, word_setWord, hj]

/-! The three nodes `page_table_insert` may add on its way down, each in a frame
that has just been cleared. -/

def addPud (t : PageTable) (a : Fin 512) (frame : Nat) : PageTable :=
  t.modifyPud a fun _ => some (blank frame none)

def addPd (t : PageTable) (a b : Fin 512) (frame : Nat) : PageTable :=
  t.modifyPd a b fun _ => some (blank frame none)

def addPt (t : PageTable) (a b c : Fin 512) (frame : Nat) : PageTable :=
  t.modifyPt a b c fun _ => some (blank frame (pageUpdateEntry pInvalid 0))

lemma pud_addPud (f : Nat) (a' : Fin 512) :
    (t.addPud a f).pud a' = if a' = a then some (blank f none) else t.pud a' := by
  rw [addPud, pud_modifyPud]

lemma pd_addPd (h : t.pud a ≠ none) (f : Nat) (a' b' : Fin 512) :
    (t.addPd a b f).pd a' b' = if a' = a ∧ b' = b then some (blank f none) else t.pd a' b' := by
  obtain ⟨n, hn⟩ := Option.ne_none_iff_exists'.mp h
  rw [addPd, pd_modifyPd, hn]
  rfl

lemma pt_addPt (h : t.pd a b ≠ none) (f : Nat) (a' b' c' : Fin 512) :
    (t.addPt a b c f).pt a' b' c' =
      if a' = a ∧ b' = b ∧ c' = c then some (blank f (pageUpdateEntry pInvalid 0))
      else t.pt a' b' c' := by
  obtain ⟨n, hn⟩ := Option.ne_none_iff_exists'.mp h
  rw [addPt, pt_modifyPt, hn]
  rfl

lemma pd_addPud (h : t.pud a = none) (f : Nat) : (t.addPud a f).pd = t.pd := by
  funext a' b'
  rcases eq_or_ne a' a with rfl | ha
  · simp [pd, pud_addPud, h, blank]
  · simp [pd, pud_addPud, ha]

lemma pt_addPd (hu : t.pud a ≠ none) (h : t.pd a b = none) (f : Nat) :
    (t.addPd a b f).pt = t.pt := by
  funext a' b' c'
  rcases em (a' = a ∧ b' = b) with ⟨rfl, rfl⟩ | hab
  · simp [pt, pd_addPd hu, h, blank]
  · simp [pt, pd_addPd hu, hab]

lemma word_addPud (h : t.pud a = none) (f : Nat) : (t.addPud a f).word = t.word := by
  funext i
  simp only [word, pt, pd_addPud h]

lemma word_addPd (hu : t.pud a ≠ none) (h : t.pd a b = none) (f : Nat) :
    (t.addPd a b f).word = t.word := by
  funext i
  simp only [word, pt_addPd hu h]

lemma word_addPt (hd : t.pd a b ≠ none) (h : t.pt a b c = none) (f : Nat) (i : PtIndex) :
    (t.addPt a b c f).word i = t.word i ∨
      t.word i = none ∧ (t.addPt a b c f).word i = some (pageUpdateEntry pInvalid 0) := by
  simp only [word, pt_addPt hd]
  split
  · rename_i hi
    obtain ⟨h1, h2, h3⟩ := hi
    exact .inr ⟨by simp [h1, h2, h3, h], rfl⟩
  · exact .inl rfl

lemma pte_of_grown {t' : PageTable} (h : ∀ i, t'.word i = t.word i ∨
    t.word i = none ∧ t'.word i = some (pageUpdateEntry pInvalid 0)) : t'.pte = t.pte := by
  funext i
  rcases h i with hw | ⟨hn, hw⟩
  · exact pte_congr hw
  · simp only [pte, hn, hw]
    exact ofWord_update_invalid 0

lemma frame_pud_modifyPd (f : Option Pd → Option Pd) (a' : Fin 512) :
    ((t.modifyPd a b f).pud a').map (fun n => n.frame) = (t.pud a').map fun n => n.frame := by
  simp only [modifyPd, pud_modifyPud]
  split
  · subst a'
    cases t.pud a <;> rfl
  · rfl

lemma frame_pd_modifyPt (f : Option Pt → Option Pt) (a' b' : Fin 512) :
    ((t.modifyPt a b c f).pd a' b').map (fun n => n.frame) = (t.pd a' b').map fun n => n.frame := by
  simp only [modifyPt, pd_modifyPd]
  split
  · rename_i h
    obtain ⟨rfl, rfl⟩ := h
    rw [pd]
    cases t.pud a' with
    | none => rfl
    | some n => cases hn : n.slot b' <;> simp [hn, Node.modify]
  · rfl

lemma frameAt_addPud (h : t.pud a = none) (f : Nat) :
    (t.addPud a f).frameAt = update t.frameAt (.pud a) (some f) := by
  funext x
  cases x with
  | table | pgd | objects k => rfl
  | pud a' =>
    rcases eq_or_ne a' a with rfl | ha
    · simp [frameAt, pud_addPud, blank]
    · simp [frameAt, pud_addPud, ha]
  | pd a' b' => simp [frameAt, pd_addPud h]
  | pt a' b' c' => simp [frameAt, pt, pd_addPud h]

lemma frameAt_addPd (hu : t.pud a ≠ none) (h : t.pd a b = none) (f : Nat) :
    (t.addPd a b f).frameAt = update t.frameAt (.pd a b) (some f) := by
  funext x
  cases x with
  | table | pgd | objects k => rfl
  | pud a' => exact frame_pud_modifyPd _ a'
  | pd a' b' =>
    rcases em (a' = a ∧ b' = b) with ⟨rfl, rfl⟩ | hab
    · simp [frameAt, pd_addPd hu, blank]
    · simp [frameAt, pd_addPd hu, hab]
  | pt a' b' c' => simp [frameAt, pt_addPd hu h]

lemma frameAt_addPt (hd : t.pd a b ≠ none) (f : Nat) :
    (t.addPt a b c f).frameAt = update t.frameAt (.pt a b c) (some f) := by
  funext x
  cases x with
  | table | pgd | objects k => rfl
  | pud a' => exact frame_pud_modifyPd _ a'
  | pd a' b' => exact frame_pd_modifyPt _ a' b'
  | pt a' b' c' =>
    rcases em (a' = a ∧ b' = b ∧ c' = c) with ⟨rfl, rfl, rfl⟩ | habc
    · simp [frameAt, pt_addPt hd, blank]
    · simp [frameAt, pt_addPt hd, habc]

lemma frameAt_setWord (i : PtIndex) (w : Word) : (t.setWord i w).frameAt = t.frameAt := by
  funext x
  cases x with
  | table | pgd | objects k => rfl
  | pud a' => exact frame_pud_modifyPd _ a'
  | pd a' b' => exact frame_pd_modifyPt _ a' b'
  | pt a' b' c' =>
    simp only [frameAt, setWord, pt_modifyPt]
    split
    · rename_i h
      obtain ⟨rfl, rfl, rfl⟩ := h
      rw [pt]
      cases t.pd i.l1 i.l2 with
      | none => rfl
      | some n => cases hn : n.slot i.l3 <;> simp [hn, Node.modify]
    · rfl

lemma frameAt_addObjects (n : ObjectsFrame) :
    { t with seL4Pages := t.seL4Pages ++ [n] : PageTable }.frameAt =
      update t.frameAt (.objects t.seL4Pages.length) (some n.frame) := by
  funext x
  cases x with
  | table | pgd | pud a' | pd a' b' | pt a' b' c' => rfl
  | objects k =>
    rcases lt_trichotomy k t.seL4Pages.length with hk | rfl | hk
    · simp [frameAt, List.getElem?_append_left hk, hk.ne]
    · simp [frameAt]
    · have h1 : t.seL4Pages.length ≤ k := by omega
      simp [frameAt, hk.ne', h1]
      omega

end PageTable

/-- `page_lookup`, dereferenced. -/
def pageLookup (t : PageTable) (vaddr : Nat) : Option Word := t.word (getPtIndex vaddr)

end SpaghettiOS.Vm
