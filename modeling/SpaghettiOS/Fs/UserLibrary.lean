import SpaghettiOS.Fs.ConsoleInput
import SpaghettiOS.Fs.Dirents
import SpaghettiOS.Fs.OpenFailure
import SpaghettiOS.Fs.ReadWrite

/-!
# What the user library copies

`sos_sys_read` and `sos_getdirent` of `libsosapi` copy from the shared buffer as many bytes
as the reply says, and no more than the buffer has.  A read is answered by -1 when it
fails, which as a length is larger than everything, and the size that `sos_getdirent` is given
takes no part in what SOS does.
-/

namespace SpaghettiOS.UserLibrary

open Coroutine (Res Exec)
open Coro (check)
open Files (CInt FileTable VopCall VopResult)
open Fs (Crash)
open Vm (Word shareBufBytes)

/-! ## The library -/

structure Message where
  number : Nat
  mr1 : Word
  mr2 : Word

structure Range where
  addr : Nat
  len : Nat

structure User where
  mem : Nat → UInt8
  written : List Range

/-- A system call is answered by a word in message register 0. -/
abbrev UserM := Coro User Message Word Crash

/-- `SHARE_BUF - PAGE_SIZE_4K * SHARE_BUF_SIZE`. -/
def shareBufBase : Nat := 0xD0000000 - shareBufBytes

def checkLen (len : Nat) : Nat := if len > shareBufBytes then shareBufBytes else len

def memcpy (dst src len : Nat) (mem : Nat → UInt8) (k : Nat) : UInt8 :=
  if dst ≤ k ∧ k < dst + len then mem (src + (k - dst)) else mem k

def userCopyin (userVaddr len : Nat) : UserM Nat := do
  let len := checkLen len
  modify fun u => { u with mem := memcpy shareBufBase userVaddr len u.mem }
  pure len

def userCopyout (userVaddr len : Nat) : UserM Nat := do
  let len := checkLen len
  modify fun u => ⟨memcpy userVaddr shareBufBase len u.mem, ⟨userVaddr, len⟩ :: u.written⟩
  pure len

def sosSysRead (file : CInt) (buf : Nat) (nbyte : Word) : UserM CInt := do
  let bytesRead ← Coro.yield ⟨2, file.signExtend 64, nbyte⟩
  let _ ← userCopyout buf bytesRead.toNat
  pure (bytesRead.setWidth 32)

def sosGetdirent (pos : CInt) (name : Nat) (nbyte : Word) : UserM CInt := do
  check (0 ≤ pos.toInt) .assertion
  let nbyte ← userCopyin name nbyte.toNat
  let reply ← Coro.yield ⟨8, pos.signExtend 64, .ofNat 64 nbyte⟩
  let _ ← userCopyout name reply.toNat
  pure (reply.setWidth 32)

/-! ## The answers of SOS -/

/-- libnfs answers, and a read has no more bytes than it was asked for. -/
def PreadsAtMost (req : Fs.NfsCall) (r : Fs.NfsReply) (s s' : Fs.FsState) : Prop :=
  Fs.Answers req r s s' ∧ ∀ fh offset len, req = .pread fh offset len → r.status ≤ len

/-- `VOP_READ` returns what `console_read` or `vnfs_read` returns, from any state. -/
def ReadBy (uio : Fs.Uio) (r : Int) : Prop :=
  (∃ s s' msg bytes, ConsoleInput.endRead s uio.len msg = .ok (s', bytes) ∧ r = bytes.length) ∨
    ∃ n co v s s', Exec PreadsAtMost (Fs.vnfsRead n co v uio s) r s'

/-- The answers to the operations that `syscall_read` calls. -/
def VopReads (req : VopCall) (r : VopResult) (t t' : FileTable) : Prop :=
  t' = t ∧ ∀ vn uio, req = .read vn uio → ReadBy uio r.1

/-- SOS sends a reply, and has used the memory that it shares with the process. -/
def Replies (reply : Word) (_ : Message) (r : Word) (u u' : User) : Prop :=
  r = reply ∧ u'.written = u.written

inductive Call where
  | read (file : CInt) (buf : Nat) (nbyte : Word)
  | getdirent (pos : CInt) (name : Nat) (nbyte : Word)

namespace Call

def body : Call → UserM CInt
  | .read file buf nbyte => sosSysRead file buf nbyte
  | .getdirent pos name nbyte => sosGetdirent pos name nbyte

def buffer : Call → Range
  | .read _ buf nbyte => ⟨buf, nbyte.toNat⟩
  | .getdirent _ name nbyte => ⟨name, nbyte.toNat⟩

/-- What SOS can answer: a read is answered by `syscall_read` from any file table, and a
`getdirent` by what `vnfs_getdirent` returns, for any devices and any directory. -/
def Answered (reply : Word) : Call → Prop
  | .read file _ nbyte => ∃ pid t t',
      Exec VopReads (Files.syscallRead pid (file.signExtend 64) nbyte t) reply t'
  | .getdirent pos _ _ => 0 ≤ pos.toInt ∧ ∃ devs accepts c c' r,
      Exec (fun _ _ _ _ => True) (Dirents.vnfsGetdirent devs accepts pos.toNat c) r c' ∧
        reply = .ofInt 64 r

/-- Everything that a call copies to its caller lies in the memory the caller has given. -/
def Within (reply : Word) (c : Call) : Prop :=
  ∀ mem r u', Exec (Replies reply) (c.body ⟨mem, []⟩) r u' → ∀ w ∈ u'.written,
    c.buffer.addr ≤ w.addr ∧ w.addr + w.len ≤ c.buffer.addr + c.buffer.len

/-- There is room for the whole shared buffer if the reply is -1, and otherwise for the name
of an entry. -/
def Fits (reply : Word) : Call → Prop
  | .read _ _ nbyte => reply = -1 → shareBufBytes ≤ nbyte.toNat
  | .getdirent _ _ nbyte =>
      if reply = -1 then shareBufBytes ≤ nbyte.toNat else reply.toNat ≤ nbyte.toNat

end Call

/-! ## What is copied -/

section Copied

variable {reply : Word} {c : Call}

lemma body_eq (h : c.Answered reply) (mem : Nat → UInt8) :
    ∃ msg mem', c.body ⟨mem, []⟩ = .susp msg ⟨mem', []⟩ fun reply u => .done (reply.setWidth 32)
        ⟨memcpy c.buffer.addr shareBufBase (checkLen reply.toNat) u.mem,
          ⟨c.buffer.addr, checkLen reply.toNat⟩ :: u.written⟩ := by
  cases c with
  | read file buf nbyte => exact ⟨_, _, rfl⟩
  | getdirent pos name nbyte =>
    simp only [Call.body, sosGetdirent, check, h.1, if_true]
    exact ⟨_, _, rfl⟩

lemma within_iff (h : c.Answered reply) : c.Within reply ↔ checkLen reply.toNat ≤ c.buffer.len := by
  constructor
  · intro hwithin
    obtain ⟨msg, mem', hbody⟩ := body_eq h fun _ => 0
    have hexec : Exec (Replies reply) (c.body ⟨fun _ => 0, []⟩) (reply.setWidth 32)
        ⟨memcpy c.buffer.addr shareBufBase (checkLen reply.toNat) mem',
          [⟨c.buffer.addr, checkLen reply.toNat⟩]⟩ := by
      rw [hbody]
      exact .susp ⟨rfl, rfl⟩ .done
    have hlast := (hwithin _ _ _ hexec _ List.mem_cons_self).2
    dsimp only at hlast
    omega
  · intro hle mem r u' hexec w hw
    obtain ⟨msg, mem', hbody⟩ := body_eq h mem
    rw [hbody] at hexec
    cases hexec with
    | susp hreply hdone =>
      obtain ⟨rfl, hwritten⟩ := hreply
      cases hdone
      rw [hwritten, List.mem_singleton] at hw
      rw [hw]
      dsimp only
      omega

lemma checkLen_le (n : Nat) : checkLen n ≤ n := by
  unfold checkLen
  split
  · exact Nat.le_of_lt ‹_›
  · exact le_rfl

lemma vnfsRead_le (n : Fs.Libnfs) (co v : Nat) (uio : Fs.Uio) (s : Fs.FsState) :
    (Fs.vnfsRead n co v uio s).Ends PreadsAtMost fun (r : Int) _ => r ≤ uio.len := by
  have hstable : Fs.Stable fun (r : Int) _ => r ≤ uio.len := fun _ _ _ _ h => h
  refine Fs.operation_ends hstable (fun _ _ _ => Int.natCast_nonneg _) fun a t _ _ _ => ?_
  refine Fs.call_bind_ends (fun u _ => ?_) fun u r u' _ hreply => ?_
  · exact Fs.ret_ends hstable (by omega)
  · have hle := hreply.2 _ _ _ rfl
    refine Res.Ends.bind (Q := fun (r : Int) _ => r ≤ uio.len) ?_ fun r' u'' hr' =>
      Fs.ret_ends hstable hr'
    refine Res.Ends.check_bind fun hstatus => ?_
    have hcopy : Vm.shareBufCheckLen r.status.toNat ≤ r.status.toNat := checkLen_le _
    show (Vm.shareBufCheckLen r.status.toNat : Int) ≤ uio.len
    omega

lemma ReadBy.le {uio : Fs.Uio} {r : Int} (h : ReadBy uio r) : r ≤ uio.len := by
  rcases h with ⟨s, s', msg, bytes, hread, rfl⟩ | ⟨n, co, v, s, s', hread⟩
  · exact Int.ofNat_le.mpr (ConsoleInput.length_endRead_le hread)
  · exact (vnfsRead_le n co v uio s).exec hread

lemma read_reply {pid : Int} {w1 nbyte : Word} {t t' : FileTable}
    (h : Exec VopReads (Files.syscallRead pid w1 nbyte t) reply t') :
    reply.toNat ≤ nbyte.toNat ∨ reply = -1 := by
  rw [Files.syscallRead] at h
  cases hfd : Fs.toFd (Files.toInt w1) with
  | none =>
    rw [Files.syscallReadwrite_outside _ _ hfd] at h
    cases h
  | some fd =>
    by_cases hidle : t fd = none ∨ nbyte ≤ 0
    · rw [Files.syscallReadwrite_idle _ hfd hidle] at h
      cases h
      exact .inl (Nat.zero_le _)
    obtain ⟨hf, hnbyte⟩ := not_or.mp hidle
    obtain ⟨f, hf⟩ := Option.ne_none_iff_exists'.mp hf
    rw [show Files.oRdonly = Files.Dir.read.how from rfl,
      Files.syscallReadwrite_eq .read (BitVec.not_le.mp hnbyte) hfd hf] at h
    cases h with
    | @susp _ r _ _ _ _ _ hreads hdone =>
      cases hdone
      have hle := (hreads.2 _ _ rfl).le
      by_cases hr : 0 ≤ r.1
      · have hsize := Files.toNat_toSize hr
        dsimp only at hle
        exact .inl (by omega)
      · have herror : r.1 = -1 := by
          have hlow := r.2.1
          omega
        rw [Files.toSize, herror]
        exact .inr rfl

/-- No more bytes than the shared buffer has, or -1. -/
def FitsShared (r : Int) : Prop := (0 ≤ r ∧ r ≤ shareBufBytes) ∨ r = -1

lemma retName_ends (name : Dirents.CString) (d : Dirents.Caller) :
    (Dirents.retName name d).Ends (fun _ _ _ _ => True) fun r _ => FitsShared r := by
  rw [Dirents.retName_eq]
  split
  · rename_i hlen
    have hle := Vm.shareBufCheckLen_le (name.strlen + 1)
    exact .inl ⟨by omega, by omega⟩
  · trivial

lemma ret_ends {r : Int} (hr : FitsShared r) (d : Dirents.Caller) :
    (Dirents.ret r d).Ends (fun _ _ _ _ => True) fun r _ => FitsShared r := hr

lemma getdirent_ends (devs : List Dirents.CString) (accepts : Bool) (pos : Nat)
    (d : Dirents.Caller) : (Dirents.vnfsGetdirent devs accepts pos d).Ends (fun _ _ _ _ => True)
      fun r _ => FitsShared r := by
  have hzero : FitsShared 0 := .inl ⟨le_rfl, by decide⟩
  simp only [Dirents.vnfsGetdirent, Coro.bind_apply, Coro.get_apply, Res.bind]
  by_cases hz : d.state = .zombie
  · simp only [hz, if_true]
    exact hzero
  simp only [hz, if_false, Coro.bind_apply, Coro.modify_apply, Res.bind]
  cases Dirents.findDevicePos devs pos with
  | mk name i =>
    cases name with
    | some name => exact retName_ends name _
    | none =>
      cases accepts with
      | false => exact ret_ends (.inr rfl) _
      | true =>
        intro reply d' _
        show ((Dirents.nfsDirentCb i pos reply d').bind _).Ends _ _
        refine Res.Ends.after fun path d'' => ?_
        cases path with
        | none => exact ret_ends hzero _
        | some path => exact retName_ends path _

lemma getdirent_reply {r : Int} (hr : FitsShared r) :
    (BitVec.ofInt 64 r).toNat ≤ shareBufBytes ∨ BitVec.ofInt 64 r = -1 := by
  rcases hr with ⟨hlow, hhigh⟩ | rfl
  · have hbytes : shareBufBytes < 2 ^ 64 := by decide
    rw [BitVec.toNat_ofInt]
    exact .inl (by omega)
  · exact .inr rfl

lemma checkLen_neg_one : checkLen (-1 : Word).toNat = shareBufBytes := by decide

/-- For every reply that SOS can send, what is copied stays in the caller's memory exactly if
there is room for the shared buffer when the reply is -1, and for the name of the entry. -/
theorem call_within_iff (c : Call) (reply : Word) (h : c.Answered reply) :
    c.Within reply ↔ c.Fits reply := by
  rw [within_iff h]
  cases c with
  | read file buf nbyte =>
      obtain ⟨pid, t, t', hexec⟩ := h
      by_cases hneg : reply = -1
      · subst hneg
        rw [checkLen_neg_one]
        exact ⟨fun hle _ => hle, fun hfits => hfits rfl⟩
      · have hle := (read_reply hexec).resolve_right hneg
        exact ⟨fun _ hneg' => absurd hneg' hneg, fun _ => (checkLen_le _).trans hle⟩
  | getdirent pos name nbyte =>
      obtain ⟨-, devs, accepts, d, d', r, hexec, rfl⟩ := h
      have hreply := getdirent_reply ((getdirent_ends devs accepts pos.toNat d).exec hexec)
      rw [Call.Fits]
      split
      · rename_i hneg
        rw [hneg, checkLen_neg_one]
        exact Iff.rfl
      · rename_i hneg
        have hshared := hreply.resolve_right hneg
        rw [checkLen, if_neg (not_lt.mpr hshared)]
        exact Iff.rfl

lemma answered_device (name : Nat) (nbyte : Word) : (Call.getdirent 0 name nbyte).Answered 8 :=
  ⟨by decide, [Dirents.longName 7], true, ⟨.running, 0, fun _ => 0⟩, _, 8, .done, rfl⟩

lemma answered_error (buf : Nat) {nbyte : Word} (hpos : 0 < nbyte) :
    (Call.read 3 buf nbyte).Answered (-1) := by
  have hread : Files.syscallReadwrite 1 Files.Dir.read.how ((3 : CInt).signExtend 64) nbyte
      (Files.oneFile Files.oRdwr) = _ := Files.syscallReadwrite_eq .read hpos rfl rfl
  have hrefused (uio : Fs.Uio) (hpid : uio.pid = 1) : ReadBy uio (-1) := by
    cases uio
    subst hpid
    exact .inr ⟨Fs.refuseAll, 0, 1, Fs.oneUser Fs.fullTable, _, .done⟩
  have hexec : Exec VopReads (Files.syscallRead 1 ((3 : CInt).signExtend 64) nbyte
      (Files.oneFile Files.oRdwr)) (-1) ((Files.oneFile Files.oRdwr).advance 3 (-1)) := by
    rw [Files.syscallRead, show Files.oRdonly = Files.Dir.read.how from rfl, hread]
    exact .susp (r := (⟨-1, by decide⟩ : VopResult))
      ⟨rfl, fun _ uio h => hrefused uio (by cases h; rfl)⟩ .done
  exact ⟨1, _, _, hexec⟩

theorem call_within_eight :
    (Call.getdirent 0 0x1000 8).Answered 8 ∧ (Call.getdirent 0 0x1000 8).Within 8 :=
  ⟨answered_device 0x1000 8, (call_within_iff _ 8 (answered_device 0x1000 8)).mpr
    (show (8 : Nat) ≤ 8 from le_rfl)⟩

theorem library_overruns :
    ((Call.read 3 0x1000 10).Answered (-1) ∧ ¬ (Call.read 3 0x1000 10).Within (-1)) ∧
      (Call.getdirent 0 0x1000 4).Answered 8 ∧ ¬ (Call.getdirent 0 0x1000 4).Within 8 := by
  have herror := answered_error 0x1000 (show 0 < (10 : Word) by decide)
  have hdevice := answered_device 0x1000 4
  refine ⟨⟨herror, ?_⟩, hdevice, ?_⟩
  · rw [within_iff herror]
    decide
  · rw [within_iff hdevice]
    decide

end Copied

end SpaghettiOS.UserLibrary
