import SpaghettiOS.Cspace.Bootstrap

/-!
# Reply slots

For each message SOS takes a slot, saves the reply capability of the sender into it, and
gives the slot back when it has answered.  A message whose number is not known is not
answered: its capability stays behind in a slot that is free.

Requests are coroutines, in any number and any order.  What the rest of SOS does meanwhile
is arbitrary, as long as it keeps to its own slots and empties those it gives back (`Others`).
-/

namespace SpaghettiOS.Replies

open Coroutine (Res Exec Pool Event Finished)
open Function (update update_of_ne update_self)
open Cspace (CsState Levels Outside cspaceAllocSlot cspaceFreeSlot Word)

/-! ## The system -/

inductive Cap where
  | reply (client : Int)
  | other
deriving DecidableEq, Repr

/-- What arrives.  A client that sends and does not call has no reply capability. -/
inductive Kind where
  | syscall (number : Word) (call : Bool)
  | fault
deriving DecidableEq, Repr

structure Message where
  client : Int
  kind : Kind
deriving DecidableEq, Repr

def Kind.expectsReply : Kind → Bool
  | .syscall _ call => call
  | .fault => true

/-- The cspace of SOS with what its slots hold and those that the rest of SOS has allocated;
and, for the statements, the messages so far and the reply slots given back, with whether
they were empty. -/
structure Sys where
  cs : CsState
  caps : Nat → Option Cap
  rest : Nat → Prop
  msgs : List Message
  returned : List (Nat × Bool)

structure Arrival where
  msg : Message
  slot : Nat
  cs : CsState

inductive Wait where
  | handler (number : Word)
  | fault
deriving DecidableEq, Repr

inductive Fault where
  /-- the reply capability cannot be saved -/
  | save
  /-- the address of a fault is not in a region that can be accessed -/
  | address
deriving DecidableEq, Repr

abbrev ReplyM := Coro Sys Wait Bool Fault

/-- `cspace_alloc_slot`.  Other slots that it takes are for the watermark. -/
def Sys.alloc (s : Sys) (a : Arrival) : Sys :=
  { s with
    cs := a.cs
    rest := fun r => s.rest r ∨ (a.cs.Taken r ∧ ¬ s.cs.Taken r ∧ r ≠ a.slot) }

def allocSlot (a : Arrival) : ReplyM Nat := do
  modify fun s => s.alloc a
  pure a.slot

def Sys.save (s : Sys) (m : Message) (slot : Nat) : Sys :=
  if m.kind.expectsReply then { s with caps := update s.caps slot (some (.reply m.client)) } else s

def saveReplyCap (m : Message) (slot : Nat) : ReplyM Bool := do
  let s ← get
  match s.caps slot with
  | some _ => pure false
  | none =>
      modify fun s => s.save m slot
      pure true

/-- `seL4_Send`, which consumes a reply capability. -/
def Sys.send (s : Sys) (slot : Nat) : Sys :=
  match s.caps slot with
  | some (.reply _) => { s with caps := update s.caps slot none }
  | _ => s

def send (slot : Nat) : ReplyM Unit := modify fun s => s.send slot

def Sys.free (s : Sys) (slot : Nat) : Sys :=
  { s with
    cs := cspaceFreeSlot s.cs slot
    returned := (slot, (s.caps slot).isNone) :: s.returned }

def freeSlot (slot : Nat) : ReplyM Unit := modify fun s => s.free slot

def numSyscalls : Nat := 14

def isInRange (a x b : Nat) : Prop := x = min (max x a) b

instance (a x b : Nat) : Decidable (isInRange a x b) := inferInstanceAs (Decidable (_ = _))

def handleSyscall (a : Arrival) (number : Word) : ReplyM Unit := do
  let reply ← allocSlot a
  let saved ← saveReplyCap a.msg reply
  Coro.check (saved = true) .save
  if isInRange 1 number.toNat numSyscalls then
    let _ ← Coro.yield (.handler number)
    send reply
  freeSlot reply

/-- Whether the capability could be saved is not tested. -/
def vmFault (a : Arrival) : ReplyM Unit := do
  let reply ← allocSlot a
  let _ ← saveReplyCap a.msg reply
  let handled ← Coro.yield .fault
  Coro.check (handled = true) .address
  send reply
  freeSlot reply

def serve (_ : Nat) (a : Arrival) : ReplyM Unit := do
  modify fun s => { s with msgs := a.msg :: s.msgs }
  match a.msg.kind with
  | .syscall number _ => handleSyscall a number
  | .fault => vmFault a

/-- What the rest of SOS and the kernel may do: allocate slots and put capabilities into them,
give back such slots when they are empty, and delete threads, which takes their reply
capabilities away. -/
structure Others (s t : Sys) : Prop where
  levels : (∃ n, Levels s.cs n) → ∃ n, Levels t.cs n
  kept : ∀ r, s.cs.Taken r → ¬ s.rest r → t.cs.Taken r
  rest_taken : ∀ r, t.rest r → t.cs.Taken r ∧ r ≠ 0
  rest_new : ∀ r, t.rest r → s.rest r ∨ ¬ s.cs.Taken r
  caps : ∀ r, ¬ s.rest r → ¬ t.rest r → t.caps r = s.caps r ∨ t.caps r = none
  emptied : ∀ r, s.rest r → ¬ t.rest r → t.caps r = none
  msgs : t.msgs = s.msgs
  returned : t.returned = s.returned

abbrev ReplyPool := Pool Sys Wait Bool Fault Nat

def Waits (_ : Nat) (_ : Wait) (_ : Bool) (s t : Sys) : Prop := t = s

/-- A message arrives or a request goes on; or the rest of SOS runs. -/
inductive Step : ReplyPool → Option (Event Nat Arrival Bool) → ReplyPool → Prop where
  | own {p p' : ReplyPool} {e : Event Nat Arrival Bool} :
      Pool.Step serve Waits p e p' → Step p (some e) p'
  | rest {p : ReplyPool} {s : Sys} : Others p.state s → Step p none ⟨s, p.waiting⟩

/-- The slot of a message is one that `cspace_alloc_slot` can give. -/
def Possible (p : ReplyPool) : Option (Event Nat Arrival Bool) → Prop
  | some (.start _ a) => Exec Outside (cspaceAllocSlot p.state.cs) a.slot a.cs
  | _ => True

/-- A call with a number that is not known. -/
def Message.Unanswered (m : Message) : Prop :=
  match m.kind with
  | .syscall number call => call = true ∧ ¬ (1 ≤ number.toNat ∧ number.toNat ≤ numSyscalls)
  | .fault => False

lemma isInRange_iff (x : Nat) : isInRange 1 x numSyscalls ↔ 1 ≤ x ∧ x ≤ numSyscalls := by
  unfold isInRange numSyscalls
  omega

/-! ## Who has which slot -/

/-- With the reply slot of each request that waits. -/
structure Slots (s : Sys) (toks : Nat → Option Nat) : Prop where
  levels : ∃ n, Levels s.cs n
  null : s.cs.Taken 0
  rest_taken : ∀ r, s.rest r → s.cs.Taken r ∧ r ≠ 0
  own : ∀ c r, toks c = some r → r ≠ 0 → s.cs.Taken r ∧ ¬ s.rest r
  apart : ∀ c d r, toks c = some r → toks d = some r → r ≠ 0 → c = d
  replies : ∀ r, ¬ s.rest r → s.caps r ≠ some .other

/-- If every message was answered, slots that are free are empty, and so were those that were
given back; otherwise one was not. -/
structure Log (s : Sys) : Prop where
  left : (∃ m ∈ s.msgs, m.Unanswered) → ∃ x ∈ s.returned, x.2 = false
  empty : (∀ m ∈ s.msgs, ¬ m.Unanswered) → ∀ r, r ≠ 0 → ¬ s.cs.Taken r → s.caps r = none
  returned : (∀ m ∈ s.msgs, ¬ m.Unanswered) → ∀ x ∈ s.returned, x.2 = true

def Inv (s : Sys) (toks : Nat → Option Nat) : Prop := Slots s toks ∧ Log s

variable {m : Message} {p : ReplyPool}

section Slots

variable {s : Sys} {toks : Nat → Option Nat} {slot : Nat}

lemma Slots.null_not_rest (h : Slots s toks) : ¬ s.rest 0 := fun hrest =>
  (h.rest_taken 0 hrest).2 rfl

/-- A slot that is new: the null slot is given if there is none. -/
structure New (s : Sys) (toks : Nat → Option Nat) (slot : Nat) : Prop where
  taken : s.cs.Taken slot
  not_rest : ¬ s.rest slot
  fresh : slot ≠ 0 → ∀ c, toks c ≠ some slot

lemma Slots.alloc (h : Slots s toks) {a : Arrival}
    (hexec : Exec Outside (cspaceAllocSlot s.cs) a.slot a.cs) :
    Slots (s.alloc a) toks ∧ New (s.alloc a) toks a.slot := by
  obtain ⟨n, hlevels⟩ := h.levels
  obtain ⟨hlevels', hmono, hslot⟩ := hlevels.cspaceAllocSlot_keeps.exec hexec
  have hrest : ∀ r, s.cs.Taken r → ¬ s.rest r → ¬ (s.alloc a).rest r := by
    rintro r htaken hnot (hrest | ⟨-, hnew, -⟩)
    · exact hnot hrest
    · exact hnew htaken
  refine ⟨⟨hlevels', hmono 0 h.null, ?_, fun c r hc hr => ?_, h.apart, fun r hr => ?_⟩, ?_⟩
  · rintro r (hr | ⟨htaken, hnew, -⟩)
    · exact ⟨hmono r (h.rest_taken r hr).1, (h.rest_taken r hr).2⟩
    · exact ⟨htaken, fun hzero => hnew (hzero ▸ h.null)⟩
  · obtain ⟨htaken, hnot⟩ := h.own c r hc hr
    exact ⟨hmono r htaken, hrest r htaken hnot⟩
  · exact h.replies r fun hrest => hr (.inl hrest)
  · by_cases hzero : a.slot = 0
    · rw [hzero]
      exact ⟨hmono 0 h.null, hrest 0 h.null h.null_not_rest, fun hne => absurd rfl hne⟩
    · obtain ⟨hfree, htaken⟩ := hslot hzero
      refine ⟨htaken, ?_, fun hne c hc => hfree (h.own c _ hc hne).1⟩
      rintro (hr | ⟨-, -, hne⟩)
      · exact hfree (h.rest_taken _ hr).1
      · exact hne rfl

lemma Slots.save (h : Slots s toks) (m : Message) (slot : Nat) : Slots (s.save m slot) toks := by
  unfold Sys.save
  split
  · refine { h with replies := fun r hr => ?_ }
    show update s.caps slot _ r ≠ _
    by_cases heq : r = slot
    · rw [heq, update_self]
      exact fun hcap => by cases hcap
    · rw [update_of_ne heq]
      exact h.replies r hr
  · exact h

lemma New.save (h : New s toks slot) (m : Message) (r : Nat) : New (s.save m r) toks slot := by
  unfold Sys.save
  split
  · exact { h with }
  · exact h

lemma Slots.wait (h : Slots s toks) (hnew : New s toks slot) (c : Nat) :
    Slots s (update toks c (some slot)) := by
  have hcases : ∀ d r, update toks c (some slot) d = some r →
      (d = c ∧ r = slot) ∨ (d ≠ c ∧ toks d = some r) := fun d r hd => by
    by_cases hdc : d = c
    · rw [hdc, update_self] at hd
      exact .inl ⟨hdc, (Option.some.inj hd).symm⟩
    · rw [update_of_ne hdc] at hd
      exact .inr ⟨hdc, hd⟩
  refine { h with own := fun d r hd hr => ?_, apart := fun d e r hd he hr => ?_ }
  · rcases hcases d r hd with ⟨-, rfl⟩ | ⟨-, hd⟩
    · exact ⟨hnew.taken, hnew.not_rest⟩
    · exact h.own d r hd hr
  · rcases hcases d r hd with ⟨rfl, rfl⟩ | ⟨-, hd'⟩
    · rcases hcases e r he with ⟨rfl, -⟩ | ⟨-, he'⟩
      · rfl
      · exact absurd he' (hnew.fresh hr e)
    · rcases hcases e r he with ⟨rfl, rfl⟩ | ⟨-, he'⟩
      · exact absurd hd' (hnew.fresh hr d)
      · exact h.apart d e r hd' he' hr

lemma Slots.go {c : Nat} (h : Slots s (update toks c (some slot))) :
    Slots s (update toks c none) ∧ New s (update toks c none) slot := by
  have hother : ∀ d r, update toks c none d = some r →
      d ≠ c ∧ update toks c (some slot) d = some r := fun d r hd => by
    by_cases hdc : d = c
    · rw [hdc, update_self] at hd
      cases hd
    · rw [update_of_ne hdc] at hd ⊢
      exact ⟨hdc, hd⟩
  have hself : update toks c (some slot) c = some slot := update_self ..
  refine ⟨{ h with
    own := fun d r hd hr => h.own d r (hother d r hd).2 hr
    apart := fun d e r hd he hr => h.apart d e r (hother d r hd).2 (hother e r he).2 hr }, ?_⟩
  by_cases hzero : slot = 0
  · rw [hzero]
    exact ⟨h.null, h.null_not_rest, fun hne => absurd rfl hne⟩
  · obtain ⟨htaken, hnot⟩ := h.own c slot hself hzero
    refine ⟨htaken, hnot, fun hne d hd => ?_⟩
    exact (hother d slot hd).1 (h.apart d c slot (hother d slot hd).2 hself hne)

lemma caps_send_of_ne (s : Sys) {r : Nat} (hr : r ≠ slot) : (s.send slot).caps r = s.caps r := by
  unfold Sys.send
  split
  · exact update_of_ne hr ..
  · rfl

lemma caps_send_self (hcap : s.caps slot ≠ some .other) : (s.send slot).caps slot = none := by
  unfold Sys.send
  split
  · exact update_self ..
  · rename_i hnot
    cases hcaps : s.caps slot with
    | none => rfl
    | some cap =>
      cases cap with
      | reply client => exact absurd hcaps (hnot client)
      | other => exact absurd hcaps hcap

lemma send_rest (s : Sys) (slot : Nat) :
    (s.send slot).cs = s.cs ∧ (s.send slot).rest = s.rest ∧ (s.send slot).msgs = s.msgs ∧
      (s.send slot).returned = s.returned := by
  unfold Sys.send
  split
  · exact ⟨rfl, rfl, rfl, rfl⟩
  · exact ⟨rfl, rfl, rfl, rfl⟩

lemma Slots.send (h : Slots s toks) (slot : Nat) : Slots (s.send slot) toks := by
  obtain ⟨hcs, hrest, -, -⟩ := send_rest s slot
  refine ⟨hcs ▸ h.levels, hcs ▸ h.null, by rw [hcs, hrest]; exact h.rest_taken,
    by rw [hcs, hrest]; exact h.own, h.apart, fun r hr => ?_⟩
  rw [hrest] at hr
  by_cases heq : r = slot
  · rw [heq, caps_send_self (heq ▸ h.replies r hr)]
    exact fun hcap => by cases hcap
  · rw [caps_send_of_ne s heq]
    exact h.replies r hr

lemma New.send (h : New s toks slot) : New (s.send slot) toks slot := by
  obtain ⟨hcs, hrest, -, -⟩ := send_rest s slot
  exact ⟨hcs ▸ h.taken, hrest ▸ h.not_rest, h.fresh⟩

lemma Slots.taken_free (h : Slots s toks) (slot : Nat) {r : Nat} (hr : s.cs.Taken r)
    (hne : r ≠ slot ∨ slot = 0) : (s.free slot).cs.Taken r := by
  obtain ⟨n, hlevels⟩ := h.levels
  show (cspaceFreeSlot s.cs slot).Taken r
  by_cases hzero : slot = 0
  · rw [hzero]
    exact hr
  · exact (hlevels.cspaceFreeSlot_keeps slot).2 r (hne.resolve_right hzero) hr

lemma Slots.free (h : Slots s toks) (hnew : New s toks slot) : Slots (s.free slot) toks := by
  obtain ⟨n, hlevels⟩ := h.levels
  refine ⟨⟨n, (hlevels.cspaceFreeSlot_keeps slot).1⟩, h.taken_free slot h.null ?_,
    fun r hr => ⟨h.taken_free slot (h.rest_taken r hr).1 (.inl ?_), (h.rest_taken r hr).2⟩,
    fun c r hc hr => ⟨h.taken_free slot (h.own c r hc hr).1 (.inl ?_), (h.own c r hc hr).2⟩,
    h.apart, h.replies⟩
  · by_cases hzero : slot = 0
    · exact .inr hzero
    · exact .inl fun heq => hzero heq.symm
  · rintro rfl
    exact hnew.not_rest hr
  · rintro rfl
    exact hnew.fresh hr c hc

lemma Log.free (h : Log s) (hslots : Slots s toks) (hempty : s.caps slot = none) :
    Log (s.free slot) := by
  refine ⟨fun hleft => ?_, fun hall r hr hfree => ?_, fun hall x hx => ?_⟩
  · obtain ⟨x, hx, hfalse⟩ := h.left hleft
    exact ⟨x, List.mem_cons_of_mem _ hx, hfalse⟩
  · show s.caps r = none
    by_cases heq : r = slot
    · rw [heq, hempty]
    · exact h.empty hall r hr fun htaken => hfree (hslots.taken_free slot htaken (.inl heq))
  · rcases List.mem_cons.mp hx with rfl | hx
    · show (s.caps slot).isNone = true
      rw [hempty]
      rfl
    · exact h.returned hall x hx

lemma Log.send (h : Log s) (slot : Nat) : Log (s.send slot) := by
  obtain ⟨hcs, -, hmsgs, hreturned⟩ := send_rest s slot
  refine ⟨by rw [hmsgs, hreturned]; exact h.left, fun hall r hr hfree => ?_,
    by rw [hmsgs, hreturned]; exact h.returned⟩
  rw [hmsgs] at hall
  rw [hcs] at hfree
  have hcap := h.empty hall r hr hfree
  by_cases heq : r = slot
  · rw [heq]
    exact caps_send_self (by rw [← heq, hcap]; exact fun hne => by cases hne)
  · rw [caps_send_of_ne s heq, hcap]

lemma Inv.answer {c : Nat} (h : Inv s (update toks c (some slot))) :
    Inv ((s.send slot).free slot) (update toks c none) := by
  obtain ⟨hslots, hnew⟩ := h.1.go
  have hempty : (s.send slot).caps slot = none :=
    caps_send_self (hslots.replies slot hnew.not_rest)
  exact ⟨(hslots.send slot).free hnew.send, (h.2.send slot).free (hslots.send slot) hempty⟩

lemma Log.receive (h : Log s) (hm : ¬ m.Unanswered) :
    Log { s with msgs := m :: s.msgs } := by
  refine ⟨fun hleft => h.left ?_, fun hall => h.empty fun m' hm' => hall m' (.tail m hm'),
    fun hall => h.returned fun m' hm' => hall m' (.tail m hm')⟩
  obtain ⟨m', hmem, hun⟩ := hleft
  rcases List.mem_cons.mp hmem with rfl | hmem
  · exact absurd hun hm
  · exact ⟨m', hmem, hun⟩

lemma Log.alloc (h : Log s) {a : Arrival} (hmono : ∀ r, s.cs.Taken r → a.cs.Taken r) :
    Log (s.alloc a) :=
  ⟨h.left, fun hall r hr hfree => h.empty hall r hr fun htaken => hfree (hmono r htaken),
    h.returned⟩

lemma Log.save (h : Log s) (htaken : s.cs.Taken slot) (m : Message) : Log (s.save m slot) := by
  unfold Sys.save
  split
  · refine ⟨h.left, fun hall r hr hfree => ?_, h.returned⟩
    show update s.caps slot _ r = none
    rw [update_of_ne]
    · exact h.empty hall r hr hfree
    · rintro rfl
      exact hfree htaken
  · exact h

end Slots

/-! ## The requests -/

section Requests

variable {s : Sys} {toks : Nat → Option Nat} {a : Arrival} {c : Nat}

def Sys.arrive (s : Sys) (a : Arrival) : Sys :=
  Sys.alloc { s with msgs := a.msg :: s.msgs } a

lemma Slots.arrive (h : Slots s toks) (hexec : Exec Outside (cspaceAllocSlot s.cs) a.slot a.cs) :
    Slots (s.arrive a) toks ∧ New (s.arrive a) toks a.slot :=
  (show Slots { s with msgs := a.msg :: s.msgs } toks from { h with }).alloc hexec

lemma Inv.arrive (h : Inv s toks) (hexec : Exec Outside (cspaceAllocSlot s.cs) a.slot a.cs)
    (hm : ¬ a.msg.Unanswered) : Inv (s.arrive a) toks := by
  obtain ⟨n, hlevels⟩ := h.1.levels
  exact ⟨(h.1.arrive hexec).1,
    (h.2.receive hm).alloc (hlevels.cspaceAllocSlot_keeps.exec hexec).2.1⟩

lemma Inv.save (h : Inv s toks) {slot : Nat} (hnew : New s toks slot) (m : Message) :
    Inv (s.save m slot) toks :=
  ⟨h.1.save m slot, h.2.save hnew.taken m⟩

lemma Inv.wait (h : Inv s toks) {slot : Nat} (hnew : New s toks slot) (c : Nat) :
    Inv s (update toks c (some slot)) := ⟨h.1.wait hnew c, h.2⟩

lemma Inv.unanswered (h : Inv s toks) (hexec : Exec Outside (cspaceAllocSlot s.cs) a.slot a.cs)
    (hm : a.msg.Unanswered) (hreply : a.msg.kind.expectsReply = true) :
    Inv (((s.arrive a).save a.msg a.slot).free a.slot) toks := by
  obtain ⟨hslots, hnew⟩ := h.1.arrive hexec
  have hcaps : ((s.arrive a).save a.msg a.slot).caps a.slot = some (.reply a.msg.client) := by
    unfold Sys.save
    rw [if_pos hreply]
    exact update_self ..
  have hmem : a.msg ∈ (((s.arrive a).save a.msg a.slot).free a.slot).msgs := by
    unfold Sys.save
    rw [if_pos hreply]
    exact List.mem_cons_self
  refine ⟨(hslots.save a.msg a.slot).free (hnew.save a.msg a.slot), fun _ => ?_,
    fun hall => absurd hm (hall _ hmem), fun hall => absurd hm (hall _ hmem)⟩
  refine ⟨_, List.mem_cons_self, ?_⟩
  show (((s.arrive a).save a.msg a.slot).caps a.slot).isNone = false
  rw [hcaps]
  rfl

lemma saveReplyCap_none {slot : Nat} (h : s.caps slot = none) :
    saveReplyCap m slot s = .done true (s.save m slot) := by
  unfold saveReplyCap
  simp only [Coro.bind_apply, Coro.get_apply, Res.bind, h]
  rfl

lemma saveReplyCap_some {slot : Nat} {cap : Cap} (h : s.caps slot = some cap) :
    saveReplyCap m slot s = .done false s := by
  unfold saveReplyCap
  simp only [Coro.bind_apply, Coro.get_apply, Res.bind, h]
  rfl

lemma allocSlot_eq (s : Sys) (a : Arrival) :
    allocSlot a { s with msgs := a.msg :: s.msgs } = .done a.slot (s.arrive a) := rfl

lemma handleSyscall_ok (h : Inv s toks) (htok : toks c = none)
    (hexec : Exec Outside (cspaceAllocSlot s.cs) a.slot a.cs) {number : Word} {call : Bool}
    (hkind : a.msg.kind = .syscall number call) :
    (handleSyscall a number { s with msgs := a.msg :: s.msgs }).Ok Inv (fun _ _ => True) (Waits c) c
      (Finished Inv c) toks := by
  have hnone : update toks c none = toks := by
    rw [← htok]
    exact Function.update_eq_self c toks
  obtain ⟨-, hnew⟩ := h.1.arrive hexec
  have hun : a.msg.Unanswered ↔
      call = true ∧ ¬ (1 ≤ number.toNat ∧ number.toNat ≤ numSyscalls) := by
    unfold Message.Unanswered
    rw [hkind]
  have hreply : a.msg.kind.expectsReply = call := by
    rw [hkind]
    rfl
  unfold handleSyscall
  simp only [Coro.bind_apply, allocSlot_eq, Res.bind]
  cases hcap : (s.arrive a).caps a.slot with
  | some cap =>
    rw [saveReplyCap_some hcap]
    trivial
  | none =>
    rw [saveReplyCap_none hcap]
    simp only [Res.bind, Coro.check, if_true, Coro.pure_apply, Coro.bind_apply]
    by_cases hrange : isInRange 1 number.toNat numSyscalls
    · have hm : ¬ a.msg.Unanswered := fun hm => (hun.mp hm).2 ((isInRange_iff _).mp hrange)
      rw [if_pos hrange]
      refine Res.Ok.yield_bind a.slot trivial
        (((h.arrive hexec hm).save hnew a.msg).wait (hnew.save a.msg a.slot) c) ?_
      rintro r t _ o hinv rfl
      exact hinv.answer
    · have hunknown := fun hin => hrange ((isInRange_iff number.toNat).mpr hin)
      rw [if_neg hrange]
      show Inv _ (update toks c none)
      rw [hnone]
      cases call with
      | true => exact h.unanswered hexec (hun.mpr ⟨rfl, hunknown⟩) hreply
      | false =>
        have hm : ¬ a.msg.Unanswered := fun hm => by cases (hun.mp hm).1
        have hinv := h.arrive hexec hm
        have hsame : (s.arrive a).save a.msg a.slot = s.arrive a := by
          unfold Sys.save
          rw [hreply]
          rfl
        rw [hsame]
        exact ⟨hinv.1.free hnew, hinv.2.free hinv.1 hcap⟩

lemma vmFault_ok (h : Inv s toks) (hexec : Exec Outside (cspaceAllocSlot s.cs) a.slot a.cs)
    (hkind : a.msg.kind = .fault) :
    (vmFault a { s with msgs := a.msg :: s.msgs }).Ok Inv (fun _ _ => True) (Waits c) c
      (Finished Inv c) toks := by
  have hm : ¬ a.msg.Unanswered := by
    unfold Message.Unanswered
    rw [hkind]
    exact id
  have hinv := h.arrive hexec hm
  obtain ⟨-, hnew⟩ := h.1.arrive hexec
  unfold vmFault
  simp only [Coro.bind_apply, allocSlot_eq, Res.bind]
  have hrest : ∀ t, Inv t (update toks c (some a.slot)) → ((do
        let handled ← Coro.yield .fault
        Coro.check (handled = true) .address
        send a.slot
        freeSlot a.slot : ReplyM Unit) t).Ok Inv (fun _ _ => True) (Waits c) c (Finished Inv c)
        toks := by
    intro t ht
    refine Res.Ok.yield_bind a.slot trivial ht ?_
    rintro handled t' _ o hinv' rfl
    exact Res.Ok.check_bind fun _ => hinv'.answer
  cases hcap : (s.arrive a).caps a.slot with
  | some cap =>
    rw [saveReplyCap_some hcap]
    exact hrest _ (hinv.wait hnew c)
  | none =>
    rw [saveReplyCap_none hcap]
    exact hrest _ ((hinv.save hnew a.msg).wait (hnew.save a.msg a.slot) c)

lemma serve_ok (h : Inv s toks) (htok : toks c = none)
    (hexec : Exec Outside (cspaceAllocSlot s.cs) a.slot a.cs) :
    (serve c a s).Ok Inv (fun _ _ => True) (Waits c) c (Finished Inv c) toks := by
  unfold serve
  simp only [Coro.bind_apply, Coro.modify_apply, Res.bind]
  cases hkind : a.msg.kind with
  | syscall number call => exact handleSyscall_ok h htok hexec hkind
  | fault => exact vmFault_ok h hexec hkind

lemma Inv.others {t : Sys} (h : Inv s toks) (ho : Others s t) : Inv t toks := by
  have hrest : ∀ r, s.cs.Taken r → ¬ s.rest r → ¬ t.rest r := fun r htaken hnot hr =>
    (ho.rest_new r hr).elim hnot fun hfree => hfree htaken
  refine ⟨⟨ho.levels h.1.levels, ho.kept 0 h.1.null h.1.null_not_rest, ho.rest_taken,
    fun c r hc hr => ?_, h.1.apart, fun r hr => ?_⟩, ?_, fun hall r hr hfree => ?_, ?_⟩
  · obtain ⟨htaken, hnot⟩ := h.1.own c r hc hr
    exact ⟨ho.kept r htaken hnot, hrest r htaken hnot⟩
  · by_cases hs : s.rest r
    · rw [ho.emptied r hs hr]
      exact fun hcap => by cases hcap
    · rcases ho.caps r hs hr with hcap | hcap
      · rw [hcap]
        exact h.1.replies r hs
      · rw [hcap]
        exact fun hne => by cases hne
  · rw [ho.msgs, ho.returned]
    exact h.2.left
  · have hr' : ¬ t.rest r := fun hrest => hfree (ho.rest_taken r hrest).1
    by_cases hs : s.rest r
    · exact ho.emptied r hs hr'
    · rcases ho.caps r hs hr' with hcap | hcap
      · rw [hcap]
        exact h.2.empty (ho.msgs ▸ hall) r hr fun htaken => hfree (ho.kept r htaken hs)
      · exact hcap
  · rw [ho.msgs, ho.returned]
    exact h.2.returned

end Requests

/-! ## Runs -/

structure Idle (p : ReplyPool) : Prop where
  waiting : ∀ c, p.waiting c = none
  slots : Slots p.state fun _ => none
  empty : ∀ r, r ≠ 0 → ¬ p.state.cs.Taken r → p.state.caps r = none
  msgs : p.state.msgs = []
  returned : p.state.returned = []

lemma Idle.ok (h : Idle p) : p.Ok Inv (fun _ _ => True) Waits fun _ => none := by
  refine ⟨⟨h.slots, ⟨fun hleft => ?_, fun _ => h.empty, fun _ x hx => ?_⟩⟩, fun c => ?_⟩
  · obtain ⟨m, hm, -⟩ := hleft
    rw [h.msgs] at hm
    cases hm
  · rw [h.returned] at hx
    cases hx
  · rw [h.waiting c]
    trivial

lemma Step.ok {p' : ReplyPool} {e : Option (Event Nat Arrival Bool)} (hstep : Step p e p')
    (hpossible : Possible p e) (hp : ∃ toks, p.Ok Inv (fun _ _ => True) Waits toks) :
    ∃ toks, p'.Ok Inv (fun _ _ => True) Waits toks := by
  obtain ⟨toks, hp⟩ := hp
  cases hstep with
  | own hown =>
    refine hp.step (fun c a he htok => ?_) hown
    subst he
    exact serve_ok hp.1 htok hpossible
  | rest ho => exact ⟨toks, hp.1.others ho, hp.2⟩

lemma Idle.run {p0 : ReplyPool} (h : Idle p0) (hrun : Lts.Run Step Possible p0 p) :
    ∃ toks, Inv p.state toks := by
  have hok := hrun.invariant (I := fun p => ∃ toks, p.Ok Inv (fun _ _ => True) Waits toks)
    ⟨_, h.ok⟩ fun hp hpossible hstep => hstep.ok hpossible hp
  obtain ⟨toks, hp⟩ := hok
  exact ⟨toks, hp.1⟩

/-- The reply slots that were given back were empty, and a slot that is allocated next is. -/
def EmptyWhenReturned (s : Sys) : Prop :=
  (∀ x ∈ s.returned, x.2 = true) ∧
    ∀ r cs', Exec Outside (cspaceAllocSlot s.cs) r cs' → r ≠ 0 → s.caps r = none

/-- Reply slots are empty when they are given back, over every run, exactly if no client has
called with a number that is not known. -/
theorem reply_slots_empty_iff {p₀ p : ReplyPool} (h : Idle p₀)
    (hrun : Lts.Run Step Possible p₀ p) :
    EmptyWhenReturned p.state ↔ ∀ m ∈ p.state.msgs, ¬ m.Unanswered := by
  obtain ⟨toks, hslots, hlog⟩ := h.run hrun
  obtain ⟨n, hlevels⟩ := hslots.levels
  constructor
  · intro hempty m hm hun
    obtain ⟨x, hx, hfalse⟩ := hlog.left ⟨m, hm, hun⟩
    rw [hempty.1 x hx] at hfalse
    cases hfalse
  · refine fun hall => ⟨hlog.returned hall, fun r cs' hexec hr => ?_⟩
    exact hlog.empty hall r hr ((hlevels.cspaceAllocSlot_keeps.exec hexec).2.2 hr).1

def oneCnode : CsState where
  rootCnode := 1
  twoLevel := true
  topLvlSizeBits := Cspace.cnodeSizeBits
  topBf := [0, 0]
  botLvlNodes _ := ⟨1, fun i => if i = 0 then [0x1F, 0] else [0, 0]⟩
  nBotLvlNodes := 1
  watermark i := i + 1

lemma oneCnode_levels : Levels oneCnode 1 where
  level := rfl
  size := rfl
  cnodes j hj := by
    obtain rfl : j = 0 := Nat.lt_one_iff.mp hj
    rfl
  room := by decide
  length t _ := by
    unfold CsState.field oneCnode
    dsimp only
    split <;> rfl
  unused t hge hlt b := by
    have hlt' : t < 169 := hlt
    have hne : t % Cspace.botLvlPerNode ≠ 0 := by
      rw [Cspace.botLvlPerNode_eq]
      omega
    unfold CsState.field oneCnode
    simp only [if_neg hne]
    exact Cspace.bfGetBit_replicate 2 b
  top t _ hset := by
    rw [show oneCnode.topBf = List.replicate 2 0 from rfl, Cspace.bfGetBit_replicate] at hset
    cases hset

lemma oneCnode_alloc : ∃ cs, Exec Outside (cspaceAllocSlot oneCnode) 5 cs ∧
    ∃ cs', Exec Outside (cspaceAllocSlot (cspaceFreeSlot cs 5)) 5 cs' := by
  have hplay : (((cspaceAllocSlot oneCnode).run Cspace.granting).toOption.bind fun x =>
      ((cspaceAllocSlot (cspaceFreeSlot x.2 5)).run Cspace.granting).toOption.map (x, ·)).any
        (fun z => z.1.1 = 5 ∧ z.2.1 = 5) = true := by decide +kernel
  obtain ⟨_, hboth, hfive, hfive'⟩ := Lts.exists_of_any hplay
  obtain ⟨⟨r, cs⟩, hfirst, hboth⟩ := Option.bind_eq_some_iff.mp hboth
  obtain ⟨⟨r', cs'⟩, hsecond, rfl⟩ := Option.map_eq_some_iff.mp hboth
  obtain rfl : r = 5 := hfive
  obtain rfl : r' = 5 := hfive'
  exact ⟨cs, Res.exec_of_toOption Cspace.granting_outside hfirst, cs',
    Res.exec_of_toOption Cspace.granting_outside hsecond⟩

def idlePool : ReplyPool :=
  ⟨⟨oneCnode, fun _ => none, fun r => 1 ≤ r ∧ r ≤ 4, [], []⟩, fun _ => none⟩

lemma idlePool_idle : Idle idlePool where
  waiting _ := rfl
  slots :=
    { levels := ⟨1, oneCnode_levels⟩
      null := by decide +kernel
      rest_taken := fun r hr => by
        have htaken : ∀ r ≤ 4, oneCnode.Taken r := by decide +kernel
        exact ⟨htaken r hr.2, by have := hr.1; omega⟩
      own := fun _ _ hc => by cases hc
      apart := fun _ _ _ hc => by cases hc
      replies := fun _ _ hcap => by cases hcap }
  empty _ _ _ := rfl
  msgs := rfl
  returned := rfl

theorem reply_slots_empty_my_id : ∃ p, Lts.Run Step Possible idlePool p ∧
    p.state.returned = [(5, true)] ∧ EmptyWhenReturned p.state := by
  obtain ⟨cs, halloc, -⟩ := oneCnode_alloc
  have hrun : Lts.Run Step Possible idlePool _ :=
    .tail (a := some (Event.resume 0 true))
      (.tail (a := some (Event.start 0 ⟨⟨7, .syscall 12 true⟩, 5, cs⟩)) .refl halloc
        (.own (.start rfl rfl)))
      trivial (.own (.resume rfl rfl rfl))
  refine ⟨_, hrun, rfl, (reply_slots_empty_iff idlePool_idle hrun).mpr fun m hm => ?_⟩
  obtain rfl := List.mem_singleton.mp hm
  rintro ⟨-, hunknown⟩
  exact hunknown (by decide)

theorem reply_slot_left : ∃ p, Lts.Run Step Possible idlePool p ∧ Idle idlePool ∧
    ¬ EmptyWhenReturned p.state ∧
    ∃ a, Possible p (some (.start 1 a)) ∧ a.slot = 5 ∧ p.state.caps 5 = some (.reply 7) ∧
      serve 1 a p.state = .fail .save := by
  obtain ⟨cs, halloc, cs', hagain⟩ := oneCnode_alloc
  have hrun : Lts.Run Step Possible idlePool _ :=
    .tail (a := some (Event.start 0 ⟨⟨7, .syscall 0 true⟩, 5, cs⟩)) .refl halloc
      (.own (.start rfl rfl))
  refine ⟨_, hrun, idlePool_idle, fun hempty => ?_, ⟨⟨8, .syscall 1 true⟩, 5, cs'⟩, hagain, rfl,
    rfl, rfl⟩
  exact absurd (hempty.1 (5, false) List.mem_cons_self) (by decide)

end SpaghettiOS.Replies
