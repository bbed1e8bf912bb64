import SpaghettiOS.Fs.Syscalls
import SpaghettiOS.Net.Tcp

/-!
# What a write gives away

`syscall_write`, `console_write` and `serial_send`, with the bytes that they and
`vnfs_write` take out of the shared buffer of the caller.  The buffers of all processes
are one array, and `console_write` does not limit the length that comes from the caller.
But the stack takes less than 2^20 bytes in one call, the size of a buffer.
-/

namespace SpaghettiOS.Fs

open Coro (ofOption)
open Coroutine (Res)
open Net (picoDefaultSocketq)
open Vm (Machine shareBufBytes)

/-- The files, kernel memory, the `offset` of each open file, the socket of the serial
line, and what has been given to it. -/
structure IoState where
  fs : FsState
  mem : Nat → UInt8
  offset : Nat → Fin processMaxFiles → Nat
  serial : Net.TcpSocket
  line : List UInt8

abbrev IoM := Coro IoState (NfsCall × List UInt8) NfsReply Crash

def IoState.bytes (s : IoState) (addr len : Nat) : List UInt8 :=
  (List.range len).map fun k => s.mem (addr + k)

/-- The bytes of a request made for a process: those of a write are taken from its
shared buffer at once. -/
def IoState.carried (s : IoState) (m : Machine) (pid : Int) : NfsCall → List UInt8
  | .pwrite _ _ len => s.bytes (m.getBufFromPid pid) len
  | _ => []

/-- An operation of the file system, for a process. -/
def onFs {α : Type} (m : Machine) (pid : Int) :
    Res FsState NfsCall NfsReply Crash α → IoState →
      Res IoState (NfsCall × List UInt8) NfsReply Crash α
  | .done a fs, s => .done a { s with fs := fs }
  | .fail e, _ => .fail e
  | .susp req fs k, s =>
      .susp (req, s.carried m pid req) { s with fs := fs } fun r t => onFs m pid (k r t.fs) t

def toInt32 (n : Nat) : Int := (n : Int).bmod (2 ^ 32)

/-- `serial_send`.  A call of the stack that takes nothing ends the loop, so that there
are no more rounds than bytes. -/
def serialSend (data : Nat) (len : Int) : Nat → Int → IoM Int
  | 0, _ => pure len
  | rounds + 1, totalSent =>
      if totalSent < len then do
        let s ← get
        let (sent, serial) := s.serial.sendto len.toNat
        set { s with serial := serial, line := s.line ++ s.bytes data sent.toNat }
        if sent = -1 then pure (-1)
        else if sent = 0 then pure totalSent
        else serialSend data len rounds (totalSent + sent)
      else pure len

def consoleWrite (m : Machine) (uio : Uio) : IoM Int := do
  let s ← get
  let _ ← ofOption .nullPointer (s.fs.procs uio.pid)
  let len := toInt32 uio.len
  serialSend (m.getBufFromPid uio.pid) len len.toNat 0

def vopWrite (m : Machine) (n : Libnfs) (co : Nat) (vn : Vnode) (uio : Uio) : IoM Int :=
  match vn with
  | .console => consoleWrite m uio
  | .nfs v => fun s => onFs m uio.pid (vnfsWrite n co v uio s.fs) s

/-- `syscall_write`, with the descriptor and the length of the message.  The test of the
flags is one that never fails, since the comparison comes first. -/
def syscallWrite (m : Machine) (n : Libnfs) (co : Nat) (pid fd : Int) (nbyte : Nat) :
    IoM Int := do
  let s ← get
  let curproc ← ofOption .nullPointer (s.fs.procs pid)
  let fd ← ofOption .outOfBounds (toFd fd)
  match s.fs.file curproc fd with
  | none => pure 0
  | some file =>
      if nbyte = 0 ∨ file.flags &&& (if oAccmode = oRdonly then 1 else 0) ≠ 0 then pure 0
      else do
        let processed ← vopWrite m n co file.vn ⟨nbyte, s.offset curproc fd, pid⟩
        modify fun s => { s with
          offset := fun a fd' =>
            if a = curproc ∧ fd' = fd then ((s.offset a fd' + processed) % 2 ^ 64).toNat
            else s.offset a fd' }
        pure processed

/-- What a run gives to the server, which answers as it likes, and to the line: the requests
with their bytes, and what is on the line if SOS does not stop. -/
def seen (reply : NfsCall × List UInt8 → NfsReply)
    (x : Res IoState (NfsCall × List UInt8) NfsReply Crash Int) :
    List (NfsCall × List UInt8) × Option (List UInt8) :=
  let server req s := (reply req, s)
  (x.requests server, (x.run server).toOption.map fun r => r.2.line)

/-! ## Two states with the same shared buffer -/

def SameBuffer (m : Machine) (pid : Int) (s t : IoState) : Prop :=
  ∃ mem, t = { s with mem := mem } ∧
    ∀ k < shareBufBytes, mem (m.getBufFromPid pid + k) = s.mem (m.getBufFromPid pid + k)

section SameBuffer

variable {m : Machine} {pid : Int} {s t : IoState}

lemma SameBuffer.bytes (h : SameBuffer m pid s t) {len : Nat} (hlen : len ≤ shareBufBytes) :
    t.bytes (m.getBufFromPid pid) len = s.bytes (m.getBufFromPid pid) len := by
  obtain ⟨mem, rfl, hbuffer⟩ := h
  exact List.map_congr_left fun k hk => hbuffer k ((List.mem_range.mp hk).trans_le hlen)

lemma vnfsWrite_calls (n : Libnfs) (co v : Nat) (uio : Uio) (fs : FsState) :
    (vnfsWrite n co v uio fs).Calls
      fun req => ∀ fh offset len, req = .pwrite fh offset len → len ≤ shareBufBytes := by
  refine Res.Calls.bind trivial fun s s1 => Res.Calls.bind (.ofOption _ _ _) fun a s2 => ?_
  split
  · trivial
  · refine Res.Calls.bind trivial fun _ s3 => Res.Calls.bind ?_ fun _ _ => trivial
    refine Res.Calls.bind trivial fun fs s4 => ?_
    refine Res.Calls.bind (Res.Calls.bind trivial fun _ s5 => Res.Calls.bind trivial fun _ s6 => ?_)
      fun reply s7 => ?_
    · split
      · refine ⟨fun fh offset len heq => ?_, fun _ _ => trivial⟩
        cases heq
        exact Vm.shareBufCheckLen_le _
      · trivial
    · cases reply with
      | none => trivial
      | some reply =>
        exact Res.Calls.bind (Res.Calls.bind (.check _ _ _) fun _ _ => trivial)
          fun _ _ => trivial

lemma onFs_related {α : Type} {x : Res FsState NfsCall NfsReply Crash α}
    (hx : x.Calls fun req => ∀ fh offset len, req = .pwrite fh offset len → len ≤ shareBufBytes)
    (h : SameBuffer m pid s t) : (onFs m pid x s).Related (SameBuffer m pid) (onFs m pid x t) := by
  induction x generalizing s t with
  | done a fs =>
    obtain ⟨mem, rfl, hbuffer⟩ := h
    exact ⟨rfl, mem, rfl, hbuffer⟩
  | fail e => rfl
  | susp req fs k ih =>
    have hcarried : s.carried m pid req = t.carried m pid req := by
      cases req with
      | pwrite fh offset len => exact (h.bytes (hx.1 fh offset len rfl)).symm
      | «open» | create | close | opendir | pread | stat => rfl
    refine ⟨congrArg (req, ·) hcarried, ?_, fun r s' t' h' => ?_⟩
    · obtain ⟨mem, rfl, hbuffer⟩ := h
      exact ⟨mem, rfl, hbuffer⟩
    · have hfs : t'.fs = s'.fs := by
        obtain ⟨mem, rfl, -⟩ := h'
        rfl
      simp only [hfs]
      exact ih r s'.fs (hx.2 r s'.fs) h'

lemma serialSend_related (len : Int) (rounds : Nat) (totalSent : Int) (h : SameBuffer m pid s t) :
    (serialSend (m.getBufFromPid pid) len rounds totalSent s).Related (SameBuffer m pid)
      (serialSend (m.getBufFromPid pid) len rounds totalSent t) := by
  induction rounds generalizing s t totalSent with
  | zero => exact ⟨rfl, h⟩
  | succ rounds ih =>
    unfold serialSend
    split
    · simp only [Coro.bind_apply, Coro.get_apply, Coro.set_apply, Res.bind]
      have hserial : t.serial = s.serial := by
        obtain ⟨mem, rfl, -⟩ := h
        rfl
      have hsent : (s.serial.sendto len.toNat).1.toNat ≤ shareBufBytes :=
        Int.toNat_le.mpr (s.serial.sendto_le len.toNat).2
      have hset : SameBuffer m pid
          { s with
            serial := (s.serial.sendto len.toNat).2
            line := s.line ++ s.bytes (m.getBufFromPid pid)
              (s.serial.sendto len.toNat).1.toNat }
          { t with
            serial := (t.serial.sendto len.toNat).2
            line := t.line ++ t.bytes (m.getBufFromPid pid)
              (t.serial.sendto len.toNat).1.toNat } := by
        rw [hserial, h.bytes hsent]
        obtain ⟨mem, rfl, hbuffer⟩ := h
        exact ⟨mem, rfl, hbuffer⟩
      rw [hserial] at hset ⊢
      split
      · exact ⟨rfl, hset⟩
      · split
        · exact ⟨rfl, hset⟩
        · exact ih _ hset
    · exact ⟨rfl, h⟩

lemma vopWrite_related (n : Libnfs) (co : Nat) (vn : Vnode) (len offset : Nat)
    (h : SameBuffer m pid s t) :
    (vopWrite m n co vn ⟨len, offset, pid⟩ s).Related (SameBuffer m pid)
      (vopWrite m n co vn ⟨len, offset, pid⟩ t) := by
  have hfs : t.fs = s.fs := by
    obtain ⟨mem, rfl, -⟩ := h
    rfl
  cases vn with
  | console =>
    simp only [vopWrite, consoleWrite, Coro.bind_apply, Coro.get_apply, Res.bind, hfs]
    generalize toInt32 len = len
    exact .ofOption_bind fun _ _ => serialSend_related len len.toNat 0 h
  | nfs v =>
    simp only [vopWrite, hfs]
    exact onFs_related (vnfsWrite_calls n co v _ _) h

lemma syscallWrite_related (n : Libnfs) (co : Nat) (fd : Int) (nbyte : Nat)
    (h : SameBuffer m pid s t) : (syscallWrite m n co pid fd nbyte s).Related (SameBuffer m pid)
      (syscallWrite m n co pid fd nbyte t) := by
  have hfs : t.fs = s.fs ∧ t.offset = s.offset := by
    obtain ⟨mem, rfl, -⟩ := h
    exact ⟨rfl, rfl⟩
  simp only [syscallWrite, Coro.bind_apply, Coro.get_apply, Res.bind, hfs]
  refine .ofOption_bind fun curproc _ => .ofOption_bind fun fd _ => ?_
  cases s.fs.file curproc fd with
  | none => exact ⟨rfl, h⟩
  | some file =>
    by_cases hnone : nbyte = 0 ∨ file.flags &&& (if oAccmode = oRdonly then 1 else 0) ≠ 0
    · simp only [if_pos hnone]
      exact ⟨rfl, h⟩
    · simp only [if_neg hnone]
      refine (vopWrite_related n co file.vn nbyte _ h).bind fun processed s' t' h' => ?_
      obtain ⟨mem, rfl, hbuffer⟩ := h'
      exact ⟨rfl, mem, rfl, hbuffer⟩

/-- What a write of a process lets the server and the serial line see depends on no
memory but the shared buffer of the process. -/
theorem writes_reveal_own_buffer (n : Libnfs) (co : Nat) (fd : Int) (nbyte : Nat)
    (reply : NfsCall × List UInt8 → NfsReply) (h : SameBuffer m pid s t) :
    seen reply (syscallWrite m n co pid fd nbyte s) =
      seen reply (syscallWrite m n co pid fd nbyte t) := by
  have hrel := syscallWrite_related n co fd nbyte h
  have hserver : ∀ (req : NfsCall × List UInt8) (s t : IoState), SameBuffer m pid s t →
      reply req = reply req ∧ SameBuffer m pid s t := fun _ _ _ h => ⟨rfl, h⟩
  have hline : ∀ {s t : IoState}, SameBuffer m pid s t → s.line = t.line := by
    rintro s t ⟨mem, rfl, -⟩
    rfl
  obtain ⟨hrequests, ⟨e, hs, ht⟩ | ⟨a, s', t', hs, ht, hst⟩⟩ :=
    hrel.run (h := fun req s => (reply req, s)) hserver
  · simp only [seen, hrequests, hs, ht]
  · simp only [seen, hrequests, hs, ht]
    simp only [Except.toOption, Option.map_some, hline hst]

end SameBuffer

def consoleWriter (mem : Nat → UInt8) : IoState where
  fs :=
    { bootedFs.state with
      procs := fun pid => if pid = 1 then some 10 else none
      heap := fun _ => ⟨.running, 0, some fun _ => some ⟨.console, 1⟩⟩ }
  mem := mem
  offset := fun _ _ => 0
  serial :=
    { connected := true, nagle := false, inFlight := 0, mss := 1460, space := 1460
      out := ⟨picoDefaultSocketq, 54, [], by decide⟩
      hold := ⟨2920, 54, [], by decide⟩
      frameOk := fun _ => true
      allocs := 0
      outMax := le_rfl
      holdMax := by decide }
  line := []

theorem writes_reveal_own_buffer_console :
    let m : Machine :=
      ⟨12, 2 ^ 20, 2 ^ 30, fun _ => true, fun _ => true, fun _ => .noError, fun _ => .noError,
        fun _ => .noError, by decide, by decide, by decide⟩
    let s := consoleWriter fun a => if a < 2 ^ 30 + 2 * shareBufBytes then 7 else 0
    let t := consoleWriter fun a => if a < 2 ^ 30 + 2 * shareBufBytes then 7 else 8
    let write := syscallWrite m ⟨fun _ => true⟩ 0 1 1 3
    SameBuffer m 1 s t ∧ s.mem (m.getBufFromPid 2) ≠ t.mem (m.getBufFromPid 2) ∧
      (seen (fun _ => ⟨0, .junk, [], ⟨0, 0, 0, 0, 0⟩⟩) (write s)).2 = some [7, 7, 7] ∧
      ∀ reply, seen reply (write s) = seen reply (write t) := by
  intro m s t write
  have hsame : SameBuffer m 1 s t := by
    refine ⟨_, rfl, fun k hk => ?_⟩
    have hin : m.getBufFromPid 1 + k < 2 ^ 30 + 2 * shareBufBytes := by
      simp only [Machine.getBufFromPid, Int.toNat_one, m]
      omega
    simp only [s, consoleWriter, if_pos hin]
  exact ⟨hsame, by decide +kernel, by decide +kernel, fun reply =>
    writes_reveal_own_buffer _ 0 1 3 reply hsame⟩

end SpaghettiOS.Fs
