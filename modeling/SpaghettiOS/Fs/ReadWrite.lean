import SpaghettiOS.Fs.Writes

/-!
# Descriptors, offsets and access modes

`syscall_readwrite` and `syscall_close` on the file table of the caller, this time with
the offsets.

* The descriptor is used as an index as it is, and a close uses the entry without looking
  whether there is one.
* The test of the access mode is `flags & O_ACCMODE == O_RDONLY`, which compares the two
  constants first.  It never holds.
* The result is stored in a `size_t` and added to the offset, also when it is -1.
-/

namespace SpaghettiOS.Files

open Function (update)
open Coroutine (Res)
open Coro (ofOption bind_apply get_apply pure_apply)
open Vm (Word)
open Fs (Vnode Uio Crash processMaxFiles toFd)

/-! ## The code -/

abbrev CInt := BitVec 32

/-- `int fd = seL4_GetMR(1)`: the low half of the register, with its sign. -/
def toInt (w : Word) : Int := (w.setWidth 32).toInt

abbrev oRdonly : CInt := .ofNat 32 Fs.oRdonly

abbrev oWronly : CInt := .ofNat 32 Fs.oWronly

abbrev oRdwr : CInt := .ofNat 32 Fs.oRdwr

abbrev oAccmode : CInt := .ofNat 32 Fs.oAccmode

structure OpenFile where
  vn : Vnode
  offset : Word
  flags : CInt
  refcnt : Nat
deriving DecidableEq

abbrev FileTable := Fin processMaxFiles → Option OpenFile

/-- What an operation on a vnode returns: -1, or a number of bytes. -/
abbrev VopResult := { r : Int // -1 ≤ r ∧ r < 2 ^ 31 }

inductive VopCall where
  | write (vn : Vnode) (uio : Uio)
  | read (vn : Vnode) (uio : Uio)
  | reclaim (vn : Vnode) (pid : Int)

abbrev FileM := Coro FileTable VopCall VopResult Crash

def toSize (r : VopResult) : Word := .ofInt 64 r.1

/-- `of->offset += bytes_processed`. -/
def FileTable.advance (t : FileTable) (fd : Fin processMaxFiles) (n : Word) : FileTable :=
  update t fd ((t fd).map fun f => { f with offset := f.offset + n })

def ofTest (p : Prop) [Decidable p] : CInt := if p then 1 else 0

/-- What `syscall_readwrite` does with the result of the vnode operation. -/
def account (fd : Fin processMaxFiles) (r : VopResult) : FileM Word := do
  let bytesProcessed := toSize r
  modify fun t => t.advance fd bytesProcessed
  pure bytesProcessed

/-- `syscall_readwrite`.  In `of->flags & O_ACCMODE == O_RDONLY` the comparison comes
first. -/
def syscallReadwrite (pid : Int) (how : CInt) (w₁ nbyte : Word) : FileM Word := do
  let fd ← ofOption .outOfBounds (toFd (toInt w₁))
  let t ← get
  match t fd with
  | none => pure 0
  | some f =>
      if nbyte ≤ 0 then pure 0
      else if (how = oWronly ∧ f.flags &&& ofTest (oAccmode = oRdonly) ≠ 0) ∨
          (how = oRdonly ∧ f.flags &&& ofTest (oAccmode = oWronly) ≠ 0) then pure 0
      else if how = oWronly then do
        let r ← Coro.yield (.write f.vn ⟨nbyte.toNat, f.offset.toNat, pid⟩)
        account fd r
      else if how = oRdonly then do
        let r ← Coro.yield (.read f.vn ⟨nbyte.toNat, f.offset.toNat, pid⟩)
        account fd r
      else pure 0

def syscallWrite (pid : Int) (w₁ nbyte : Word) : FileM Word :=
  syscallReadwrite pid oWronly w₁ nbyte

def syscallRead (pid : Int) (w₁ nbyte : Word) : FileM Word :=
  syscallReadwrite pid oRdonly w₁ nbyte

def syscallClose (pid : Int) (w₁ : Word) : FileM Word := do
  let fd ← ofOption .outOfBounds (toFd (toInt w₁))
  let t ← get
  let f ← ofOption .nullPointer (t fd)
  let _ ← Coro.yield (.reclaim f.vn pid)
  modify fun t => update t fd none
  pure 0

/-! ## Access modes and offsets -/

inductive Dir where
  | read
  | write
deriving DecidableEq, Repr

def Dir.how : Dir → CInt
  | .read => oRdonly
  | .write => oWronly

def Dir.vop : Dir → Vnode → Uio → VopCall
  | .read => .read
  | .write => .write

/-- A file opened to be read is not to be written, and the other way round. -/
def Dir.Permitted : Dir → CInt → Prop
  | .read, flags => flags &&& oAccmode ≠ oWronly
  | .write, flags => flags &&& oAccmode ≠ oRdonly

instance (d : Dir) (flags : CInt) : Decidable (d.Permitted flags) :=
  match d with
  | .read => inferInstanceAs (Decidable (_ ≠ _))
  | .write => inferInstanceAs (Decidable (_ ≠ _))

/-- A system call that reads or writes some bytes, with the result that the vnode operation
has if it is invoked. -/
structure RwCall where
  dir : Dir
  nbyte : Word
  pos : 0 < nbyte
  result : VopResult

namespace RwCall

variable (pid : Int) (w₁ : Word) (c : RwCall)

def body : FileM Word := syscallReadwrite pid c.dir.how w₁ c.nbyte

def answer (_ : VopCall) (t : FileTable) : VopResult × FileTable := (c.result, t)

def outcome (t : FileTable) : Except Crash (Word × FileTable) := (c.body pid w₁ t).run c.answer

def vops (t : FileTable) : List VopCall := (c.body pid w₁ t).requests c.answer

def after (t : FileTable) : FileTable :=
  match c.outcome pid w₁ t with
  | .ok (_, t') => t'
  | .error _ => t

/-- What a call on the file `f` is to do. -/
structure Respects (t : FileTable) (fd : Fin processMaxFiles) (f : OpenFile) : Prop where
  forbidden : ¬ c.dir.Permitted f.flags →
    c.vops pid w₁ t = [] ∧ ∃ n, c.outcome pid w₁ t = .ok (n, t)
  permitted : c.dir.Permitted f.flags →
    c.vops pid w₁ t = [c.dir.vop f.vn ⟨c.nbyte.toNat, f.offset.toNat, pid⟩]
  success : c.dir.Permitted f.flags → 0 ≤ c.result.1 →
    ∃ n t' f', c.outcome pid w₁ t = .ok (n, t') ∧ (n.toNat : Int) = c.result ∧
      t' fd = some f' ∧ (f'.offset.toNat : Int) = f.offset.toNat + c.result
  failure : c.dir.Permitted f.flags → c.result.1 = -1 →
    ∃ n t' f', c.outcome pid w₁ t = .ok (n, t') ∧ t' fd = some f' ∧ f'.offset = f.offset

/-- The bytes that the call is to move the offset by. -/
def count (flags : CInt) : Nat :=
  if c.dir.Permitted flags ∧ 0 ≤ c.result.1 then c.result.1.toNat else 0

end RwCall

def afterAll (pid : Int) (w₁ : Word) (t : FileTable) (cs : List RwCall) : FileTable :=
  cs.foldl (fun t c => c.after pid w₁ t) t

/-- Every call of a sequence does what it is to do, where the one before has left the
table. -/
def RespectsAll (pid : Int) (w₁ : Word) (fd : Fin processMaxFiles) :
    FileTable → List RwCall → Prop
  | _, [] => True
  | t, c :: cs => (∃ f, t fd = some f ∧ c.Respects pid w₁ t fd f) ∧
      RespectsAll pid w₁ fd (c.after pid w₁ t) cs

/-- Every call does what it is to do, and in the end the offset has moved by the bytes of the
successful ones. -/
def KeepsOffset (pid : Int) (w₁ : Word) (fd : Fin processMaxFiles) (t : FileTable) (f : OpenFile)
    (cs : List RwCall) : Prop :=
  RespectsAll pid w₁ fd t cs ∧ ∃ f', afterAll pid w₁ t cs fd = some f' ∧
    f'.offset.toNat = f.offset.toNat + (cs.map fun c => c.count f.flags).sum

section Offsets

variable {pid : Int} {w₁ : Word} {fd : Fin processMaxFiles} {t : FileTable} {f : OpenFile}

lemma advance_self (hf : t fd = some f) (n : Word) :
    t.advance fd n fd = some { f with offset := f.offset + n } := by
  rw [FileTable.advance, Function.update_self, hf]
  rfl

lemma modeTest_eq_zero (flags : CInt) :
    flags &&& ofTest (oAccmode = oRdonly) = 0 ∧ flags &&& ofTest (oAccmode = oWronly) = 0 := by
  have haccmode : oAccmode ≠ oRdonly ∧ oAccmode ≠ oWronly := by decide
  rw [ofTest, ofTest, if_neg haccmode.1, if_neg haccmode.2]
  exact ⟨BitVec.and_zero, BitVec.and_zero⟩

lemma syscallReadwrite_eq (d : Dir) {nbyte : Word} (hpos : 0 < nbyte)
    (hfd : toFd (toInt w₁) = some fd) (hf : t fd = some f) : syscallReadwrite pid d.how w₁ nbyte t =
      .susp (d.vop f.vn ⟨nbyte.toNat, f.offset.toNat, pid⟩) t fun r t =>
        .done (toSize r) (t.advance fd (toSize r)) := by
  have hnbyte : ¬ nbyte ≤ 0 := BitVec.not_le.mpr hpos
  have hmode := modeTest_eq_zero f.flags
  have hhow : oRdonly ≠ oWronly := by decide
  cases d with
  | read | write =>
    simp only [syscallReadwrite, bind_apply, hfd, ofOption, pure_apply, Res.bind,
      get_apply, hf, hnbyte, hmode, hhow, Dir.how, Dir.vop, ne_eq, not_true_eq_false,
      and_false, or_false, if_true, if_false]
    rfl

lemma RwCall.vops_eq (c : RwCall) (hfd : toFd (toInt w₁) = some fd) (hf : t fd = some f) :
    c.vops pid w₁ t = [c.dir.vop f.vn ⟨c.nbyte.toNat, f.offset.toNat, pid⟩] := by
  rw [vops, body, syscallReadwrite_eq c.dir c.pos hfd hf]
  rfl

lemma RwCall.outcome_eq (c : RwCall) (hfd : toFd (toInt w₁) = some fd) (hf : t fd = some f) :
    c.outcome pid w₁ t = .ok (toSize c.result, t.advance fd (toSize c.result)) := by
  rw [outcome, body, syscallReadwrite_eq c.dir c.pos hfd hf]
  rfl

lemma RwCall.after_self (c : RwCall) (hfd : toFd (toInt w₁) = some fd) (hf : t fd = some f) :
    c.after pid w₁ t fd = some { f with offset := f.offset + toSize c.result } := by
  rw [after, c.outcome_eq hfd hf]
  exact advance_self hf _

lemma toNat_toSize {r : VopResult} (hr : 0 ≤ r.1) : ((toSize r).toNat : Int) = r := by
  have hlt := r.2.2
  rw [toSize, BitVec.toNat_ofInt]
  omega

lemma add_toSize_ne {r : VopResult} (hr : r.1 = -1) (w : Word) : w + toSize r ≠ w := by
  rw [toSize, hr]
  bv_omega

lemma toNat_add_toSize {r : VopResult} (hr : 0 ≤ r.1) (w : Word) :
    ((w + toSize r).toNat : Int) = w.toNat + r ↔ (w.toNat : Int) + r < 2 ^ 64 := by
  have hsize := toNat_toSize hr
  have hlt := (w + toSize r).isLt
  rw [BitVec.toNat_add] at hlt ⊢
  omega

lemma RwCall.respects_iff (c : RwCall) (hfd : toFd (toInt w₁) = some fd) (hf : t fd = some f) :
    c.Respects pid w₁ t fd f ↔
      c.dir.Permitted f.flags ∧ 0 ≤ c.result.1 ∧ (f.offset.toNat : Int) + c.result < 2 ^ 64 := by
  have hself := advance_self hf (toSize c.result)
  constructor
  · intro h
    have hpermitted : c.dir.Permitted f.flags := by
      by_contra hforbidden
      have hnone := (h.forbidden hforbidden).1
      rw [c.vops_eq hfd hf] at hnone
      cases hnone
    have hresult : 0 ≤ c.result.1 := by
      by_contra hneg
      have hlow := c.result.2.1
      have herror : c.result.1 = -1 := by omega
      obtain ⟨n, t', f', hout, hf', hoffset⟩ := h.failure hpermitted herror
      rw [c.outcome_eq hfd hf] at hout
      cases hout
      obtain rfl := Option.some.inj (hself.symm.trans hf')
      exact add_toSize_ne herror _ hoffset
    obtain ⟨n, t', f', hout, -, hf', hoffset⟩ := h.success hpermitted hresult
    rw [c.outcome_eq hfd hf] at hout
    cases hout
    obtain rfl := Option.some.inj (hself.symm.trans hf')
    exact ⟨hpermitted, hresult, (toNat_add_toSize hresult _).mp hoffset⟩
  · rintro ⟨hpermitted, hresult, hlt⟩
    refine ⟨fun hforbidden => absurd hpermitted hforbidden, fun _ => c.vops_eq hfd hf,
      fun _ _ => ?_, fun _ herror => ?_⟩
    · exact ⟨_, _, _, c.outcome_eq hfd hf, toNat_toSize hresult, hself,
        (toNat_add_toSize hresult _).mpr hlt⟩
    · omega

lemma respectsAll_iff (hfd : toFd (toInt w₁) = some fd) (hf : t fd = some f) (cs : List RwCall) :
    RespectsAll pid w₁ fd t cs ↔ (∀ c ∈ cs, c.dir.Permitted f.flags ∧ 0 ≤ c.result.1) ∧
        f.offset.toNat + (cs.map fun c => c.result.1.toNat).sum < 2 ^ 64 := by
  induction cs generalizing t f with
  | nil => simpa [RespectsAll] using f.offset.isLt
  | cons c cs ih =>
    have hhead : (∃ f, t fd = some f ∧ c.Respects pid w₁ t fd f) ↔ c.Respects pid w₁ t fd f := by
      constructor
      · rintro ⟨f', hf', h⟩
        obtain rfl := Option.some.inj (hf.symm.trans hf')
        exact h
      · exact fun h => ⟨f, hf, h⟩
    rw [RespectsAll, hhead, c.respects_iff hfd hf, ih (c.after_self hfd hf), List.forall_mem_cons,
      List.map_cons, List.sum_cons]
    dsimp only
    constructor
    · rintro ⟨⟨hpermitted, hresult, hlt⟩, hrest, hsum⟩
      have hoffset := (toNat_add_toSize hresult f.offset).mpr hlt
      exact ⟨⟨⟨hpermitted, hresult⟩, hrest⟩, by omega⟩
    · rintro ⟨⟨⟨hpermitted, hresult⟩, hrest⟩, hsum⟩
      have hlt : (f.offset.toNat : Int) + c.result < 2 ^ 64 := by omega
      have hoffset := (toNat_add_toSize hresult f.offset).mpr hlt
      exact ⟨⟨hpermitted, hresult, hlt⟩, hrest, by omega⟩

lemma offset_afterAll (hfd : toFd (toInt w₁) = some fd) (hf : t fd = some f) {cs : List RwCall}
    (hcs : ∀ c ∈ cs, c.dir.Permitted f.flags ∧ 0 ≤ c.result.1)
    (hsum : f.offset.toNat + (cs.map fun c => c.result.1.toNat).sum < 2 ^ 64) :
    ∃ f', afterAll pid w₁ t cs fd = some f' ∧
      f'.offset.toNat = f.offset.toNat + (cs.map fun c => c.count f.flags).sum := by
  induction cs generalizing t f with
  | nil => exact ⟨f, hf, rfl⟩
  | cons c cs ih =>
    obtain ⟨hc, hrest⟩ := List.forall_mem_cons.mp hcs
    rw [List.map_cons, List.sum_cons] at hsum
    have hlt : (f.offset.toNat : Int) + c.result < 2 ^ 64 := by omega
    have hoffset := (toNat_add_toSize hc.2 f.offset).mpr hlt
    obtain ⟨f', hf', hend⟩ := ih (c.after_self hfd hf) hrest (by dsimp only; omega)
    have hcount : c.count f.flags = c.result.1.toNat := if_pos hc
    refine ⟨f', hf', hend.trans ?_⟩
    rw [List.map_cons, List.sum_cons, hcount]
    dsimp only
    omega

/-- Over a sequence of reads and writes of an open file the access mode is respected and the
offset counts the bytes exactly if every call is permitted, none fails, and the offset does
not pass 2^64. -/
theorem readwrite_keepsOffset_iff (pid : Int) (w₁ : Word) (fd : Fin processMaxFiles)
    (t : FileTable) (f : OpenFile) (hfd : toFd (toInt w₁) = some fd) (hf : t fd = some f)
    (cs : List RwCall) :
    KeepsOffset pid w₁ fd t f cs ↔ (∀ c ∈ cs, c.dir.Permitted f.flags ∧ 0 ≤ c.result.1) ∧
        f.offset.toNat + (cs.map fun c => c.result.1.toNat).sum < 2 ^ 64 := by
  rw [KeepsOffset, respectsAll_iff hfd hf]
  constructor
  · rintro ⟨h, -⟩
    exact h
  · intro h
    exact ⟨h, offset_afterAll hfd hf h.1 h.2⟩

def oneFile (flags : CInt) : FileTable := fun fd =>
  if fd = 3 then some ⟨.nfs 1, 0, flags, 1⟩ else none

theorem readwrite_keepsOffset_seven :
    KeepsOffset 1 3 3 (oneFile oRdwr) ⟨.nfs 1, 0, oRdwr, 1⟩
      [⟨.write, 5, by decide, 5, by decide⟩, ⟨.read, 8, by decide, 2, by decide⟩] :=
  (readwrite_keepsOffset_iff 1 3 3 (oneFile oRdwr) _ rfl rfl _).mpr
    ⟨by decide, by decide⟩

theorem readwrite_ignores_mode_and_error :
    ¬ KeepsOffset 1 3 3 (oneFile oRdonly) ⟨.nfs 1, 0, oRdonly, 1⟩
        [⟨.write, 5, by decide, 5, by decide⟩] ∧
      ¬ KeepsOffset 1 3 3 (oneFile oWronly) ⟨.nfs 1, 0, oWronly, 1⟩
        [⟨.read, 5, by decide, 5, by decide⟩] ∧
      ¬ KeepsOffset 1 3 3 (oneFile oRdwr) ⟨.nfs 1, 0, oRdwr, 1⟩
        [⟨.write, 5, by decide, -1, by decide⟩] ∧
      afterAll 1 3 (oneFile oRdwr) [⟨.write, 5, by decide, -1, by decide⟩] 3 =
        some ⟨.nfs 1, 2 ^ 64 - 1, oRdwr, 1⟩ := by
  refine ⟨fun h => ?_, fun h => ?_, fun h => ?_, by decide +kernel⟩
  · exact absurd ((respectsAll_iff rfl rfl _).mp h.1).1 (by decide)
  · exact absurd ((respectsAll_iff rfl rfl _).mp h.1).1 (by decide)
  · exact absurd ((respectsAll_iff rfl rfl _).mp h.1).1 (by decide)

end Offsets

/-! ## Descriptors -/

inductive FdCall where
  | read (nbyte : Word)
  | write (nbyte : Word)
  | close

def FdCall.body (pid : Int) (w₁ : Word) : FdCall → FileM Word
  | .read nbyte => syscallRead pid w₁ nbyte
  | .write nbyte => syscallWrite pid w₁ nbyte
  | .close => syscallClose pid w₁

def Blocked (_ : VopCall) (_ : VopResult) (t t' : FileTable) : Prop := t' = t

def IsOpen (t : FileTable) (w₁ : Word) : Prop := ∃ fd, toFd (toInt w₁) = some fd ∧ (t fd).isSome

/-- A call only looks at entries that there are and uses none that is `NULL`, and a close of
something that is not open is an error and nothing else. -/
structure FdCall.Validates (c : FdCall) (pid : Int) (w₁ : Word) (t : FileTable) : Prop where
  safe : (c.body pid w₁ t).Meets Blocked fun _ _ => True
  closed : c = .close → ¬ IsOpen t w₁ → ∃ n, n ≠ 0 ∧ c.body pid w₁ t = .done n t

section Descriptors

variable {pid : Int} {w₁ : Word} {fd : Fin processMaxFiles} {t : FileTable} {f : OpenFile}

lemma syscallReadwrite_outside (how : CInt) (nbyte : Word) (hfd : toFd (toInt w₁) = none) :
    syscallReadwrite pid how w₁ nbyte t = .fail .outOfBounds := by
  simp only [syscallReadwrite, bind_apply, hfd, ofOption]
  rfl

lemma syscallReadwrite_idle (how : CInt) {nbyte : Word} (hfd : toFd (toInt w₁) = some fd)
    (hidle : t fd = none ∨ nbyte ≤ 0) : syscallReadwrite pid how w₁ nbyte t = .done 0 t := by
  simp only [syscallReadwrite, bind_apply, hfd, ofOption, pure_apply, Res.bind, get_apply]
  cases hf : t fd with
  | none => rfl
  | some f =>
    have hnbyte : nbyte ≤ 0 := hidle.resolve_left (by simp [hf])
    simp only [hnbyte, if_true, pure_apply]

lemma syscallReadwrite_meets (d : Dir) (nbyte : Word) (hfd : toFd (toInt w₁) = some fd) :
    (syscallReadwrite pid d.how w₁ nbyte t).Meets Blocked fun _ _ => True := by
  by_cases hidle : t fd = none ∨ nbyte ≤ 0
  · rw [syscallReadwrite_idle d.how hfd hidle]
    trivial
  · obtain ⟨hf, hnbyte⟩ := not_or.mp hidle
    obtain ⟨f, hf⟩ := Option.ne_none_iff_exists'.mp hf
    rw [syscallReadwrite_eq d (BitVec.not_le.mp hnbyte) hfd hf]
    intro r t' _
    trivial

lemma syscallClose_outside (hfd : toFd (toInt w₁) = none) :
    syscallClose pid w₁ t = .fail .outOfBounds := by
  simp only [syscallClose, bind_apply, hfd, ofOption]
  rfl

lemma syscallClose_null (hfd : toFd (toInt w₁) = some fd) (hf : t fd = none) :
    syscallClose pid w₁ t = .fail .nullPointer := by
  simp only [syscallClose, bind_apply, hfd, ofOption, pure_apply, Res.bind, get_apply, hf]
  rfl

lemma syscallClose_eq (hfd : toFd (toInt w₁) = some fd) (hf : t fd = some f) :
    syscallClose pid w₁ t = .susp (.reclaim f.vn pid) t fun _ t => .done 0 (update t fd none) := by
  simp only [syscallClose, bind_apply, hfd, ofOption, pure_apply, Res.bind, get_apply, hf]
  rfl

lemma exists_toFd_iff {i : Int} : (∃ fd, toFd i = some fd) ↔ 0 ≤ i ∧ i < processMaxFiles := by
  unfold toFd
  split
  · rename_i hin
    exact ⟨fun _ => hin, fun _ => ⟨_, rfl⟩⟩
  · rename_i hout
    exact ⟨fun ⟨_, hnone⟩ => (nomatch hnone), fun hin => absurd hin hout⟩

lemma FdCall.not_validates_outside (c : FdCall)
    (hout : ¬ (0 ≤ toInt w₁ ∧ toInt w₁ < processMaxFiles)) : ¬ c.Validates pid w₁ t := by
  have hfd : toFd (toInt w₁) = none := by
    rw [Option.eq_none_iff_forall_ne_some]
    exact fun fd hfd => hout (exists_toFd_iff.mp ⟨fd, hfd⟩)
  intro h
  have hsafe := h.safe
  cases c with
  | read nbyte =>
    rw [FdCall.body, syscallRead, syscallReadwrite_outside _ _ hfd] at hsafe
    exact hsafe
  | write nbyte =>
    rw [FdCall.body, syscallWrite, syscallReadwrite_outside _ _ hfd] at hsafe
    exact hsafe
  | close =>
    rw [FdCall.body, syscallClose_outside hfd] at hsafe
    exact hsafe

lemma not_validates_close (hnot : ¬ IsOpen t w₁) : ¬ FdCall.close.Validates pid w₁ t := by
  intro h
  obtain ⟨n, -, hdone⟩ := h.closed rfl hnot
  cases hfd : toFd (toInt w₁) with
  | none =>
    rw [FdCall.body, syscallClose_outside hfd] at hdone
    cases hdone
  | some fd =>
    have hf : t fd = none := by
      rw [← Option.not_isSome_iff_eq_none]
      exact fun hsome => hnot ⟨fd, hfd, hsome⟩
    rw [FdCall.body, syscallClose_null hfd hf] at hdone
    cases hdone

lemma FdCall.validates_of_inside (c : FdCall) (hfd : toFd (toInt w₁) = some fd)
    (hopen : c = .close → IsOpen t w₁) : c.Validates pid w₁ t := by
  refine ⟨?_, fun hc hnot => absurd (hopen hc) hnot⟩
  cases c with
  | read nbyte => exact syscallReadwrite_meets .read nbyte hfd
  | write nbyte => exact syscallReadwrite_meets .write nbyte hfd
  | close =>
    obtain ⟨fd, hfd, hsome⟩ := hopen rfl
    obtain ⟨f, hf⟩ := Option.isSome_iff_exists.mp hsome
    rw [FdCall.body, syscallClose_eq hfd hf]
    intro r t' _
    trivial

/-- A call validates its descriptor exactly if that is in the table, and open if it is to be
closed. -/
theorem fdCall_validates_iff (c : FdCall) (pid : Int) (w₁ : Word) (t : FileTable) :
    c.Validates pid w₁ t ↔
      (0 ≤ toInt w₁ ∧ toInt w₁ < processMaxFiles) ∧ (c = .close → IsOpen t w₁) := by
  constructor
  · intro h
    refine ⟨by_contra fun hout => c.not_validates_outside hout h, ?_⟩
    rintro rfl
    exact by_contra fun hnot => not_validates_close hnot h
  · rintro ⟨hin, hopen⟩
    obtain ⟨fd, hfd⟩ := exists_toFd_iff.mpr hin
    exact c.validates_of_inside hfd hopen

theorem fdCall_unchecked :
    ¬ (FdCall.read 1).Validates 1 16 (oneFile oRdwr) ∧
      ¬ (FdCall.write 1).Validates 1 (-1) (oneFile oRdwr) ∧
      ¬ FdCall.close.Validates 1 4 (oneFile oRdwr) := by
  refine ⟨FdCall.not_validates_outside _ (by decide), FdCall.not_validates_outside _ (by decide),
    not_validates_close ?_⟩
  rintro ⟨fd, hfd, hopen⟩
  cases hfd
  cases hopen

end Descriptors

end SpaghettiOS.Files
