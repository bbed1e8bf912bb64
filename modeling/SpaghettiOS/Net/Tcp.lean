import Mathlib.Algebra.Order.BigOperators.Group.List
import Mathlib.Tactic.Linarith

/-!
# Sending on a TCP socket

What `pico_socket_sendto` of picotcp does for the socket of the serial line.  The bytes
go in chunks into one of two limited queues of the socket, and nothing leaves them before
the stack runs again, so a call takes only as many bytes as there is room for.

A frame is the length of its payload here.
-/

namespace SpaghettiOS.Net

abbrev picoDefaultSocketq : Nat := 16 * 1024

/-- `struct pico_tcp_queue`, with the length of the headers of a frame. -/
structure TcpQueue where
  maxSize : Nat
  headers : Nat
  frames : List Nat
  fits : (frames.map (· + headers)).sum ≤ maxSize

namespace TcpQueue

variable (q : TcpQueue)

def size : Nat := (q.frames.map (· + q.headers)).sum

def payload : Nat := q.frames.sum

def enqueue (n : Nat) : Option TcpQueue :=
  if h : q.size + (n + q.headers) ≤ q.maxSize then
    some { q with
      frames := q.frames ++ [n]
      fits := by simpa [size] using h }
  else none

lemma payload_le : q.payload ≤ q.maxSize := by
  refine le_trans ?_ q.fits
  simp [payload]

variable {n : Nat}

lemma enqueue_eq_some {q : TcpQueue} {q' : TcpQueue} (h : q.enqueue n = some q') :
    q'.payload = q.payload + n ∧ q'.maxSize = q.maxSize := by
  unfold enqueue at h
  split at h
  · cases h
    simp [payload]
  · cases h

end TcpQueue

/-- The frames that `pico_hold_segment_make` joins: the length of the segment, and the
frames that are left. -/
def joinFrames (mss : Nat) : Nat → List Nat → Nat × List Nat
  | total, [] => (total, [])
  | total, n :: rest =>
      if total + n ≤ mss then joinFrames mss (total + n) rest else (total, n :: rest)

lemma joinFrames_spec (mss : Nat) : ∀ (total : Nat) (frames : List Nat),
    (joinFrames mss total frames).1 + (joinFrames mss total frames).2.sum =
        total + frames.sum ∧ (joinFrames mss total frames).2.Sublist frames
  | total, [] => ⟨rfl, .refl []⟩
  | total, n :: rest => by
    unfold joinFrames
    split
    · obtain ⟨hsum, hsub⟩ := joinFrames_spec mss (total + n) rest
      refine ⟨?_, hsub.cons n⟩
      rw [hsum, List.sum_cons]
      omega
    · exact ⟨rfl, .refl _⟩

def TcpQueue.joined (q : TcpQueue) (mss : Nat) : TcpQueue :=
  { q with
    frames := (joinFrames mss 0 q.frames).2
    fits := ((joinFrames_spec mss 0 q.frames).2.map _).sum_le_sum (by simp) |>.trans q.fits }

/-- The part of `struct pico_socket_tcp` that sending depends on.  `frameOk` answers
the allocations of frames, in the order in which they are made. -/
structure TcpSocket where
  connected : Bool
  nagle : Bool
  inFlight : Nat
  mss : Nat
  /-- `pico_socket_xmit_avail_space`. -/
  space : Nat
  out : TcpQueue
  hold : TcpQueue
  frameOk : Nat → Bool
  allocs : Nat
  outMax : out.maxSize ≤ picoDefaultSocketq
  holdMax : hold.maxSize ≤ 2 * (2 ^ 16 - 1)

namespace TcpSocket

variable (t : TcpSocket)

def queued : Nat := t.out.payload + t.hold.payload

/-- No more can ever be in them. -/
def capacity : Nat := t.out.maxSize + t.hold.maxSize

lemma queued_le : t.queued ≤ t.capacity := Nat.add_le_add t.out.payload_le t.hold.payload_le

def pushOut (n : Nat) : Bool × TcpSocket :=
  match h : t.out.enqueue n with
  | none => (false, t)
  | some q =>
      (true, { t with
        out := q
        outMax := (TcpQueue.enqueue_eq_some h).2.trans_le t.outMax })

/-- A frame into the queue of those that are held back. -/
def pushHold (n : Nat) : Bool × TcpSocket :=
  match h : t.hold.enqueue n with
  | none => (false, t)
  | some q =>
      (true, { t with
        hold := q
        holdMax := (TcpQueue.enqueue_eq_some h).2.trans_le t.holdMax })

/-- `pico_hold_segment_make` and the new segment into the output queue.  The frames that
were joined are gone even if there is no room for it. -/
def flushHold : Bool × TcpSocket :=
  let t' := { t with allocs := t.allocs + 1 }
  if t.frameOk t.allocs then
    TcpSocket.pushOut { t' with hold := t.hold.joined t.mss } (joinFrames t.mss 0 t.hold.frames).1
  else (false, t')

/-- `pico_tcp_push` of a frame with `n` bytes. -/
def push (n : Nat) : Bool × TcpSocket :=
  if ¬ t.nagle ∨ t.inFlight = 0 ∧ t.out.size = 0 ∧ t.hold.size = 0 then t.pushOut n
  else if n + t.hold.size ≥ t.mss ∧ t.out.maxSize - t.out.size ≥ t.mss then
    match t.pushHold n with
    | (true, t') => t'.flushHold
    | (false, t') => (false, t')
  else t.pushHold n

/-- `pico_socket_xmit_one` of `n` bytes: whether they were taken. -/
def xmitOne (n : Nat) : Bool × TcpSocket :=
  let t' := { t with allocs := t.allocs + 1 }
  if t.frameOk t.allocs then TcpSocket.push t' n else (false, t')

/-- The loop of `pico_socket_xmit`.  A chunk that is taken has at least one byte, so that
there are no more rounds than bytes. -/
def xmit (len : Nat) : Nat → Nat → TcpSocket → Nat × TcpSocket
  | 0, total, t => (total, t)
  | rounds + 1, total, t =>
      if total < len then
        let chunk := min (len - total) t.space
        match t.xmitOne chunk with
        | (true, t') => if chunk = 0 then (total, t') else xmit len rounds (total + chunk) t'
        | (false, t') => (total, t')
      else (total, t)

/-- `pico_socket_sendto`: the result, which is the number of bytes that were taken from
the front of the buffer, or `-1`. -/
def sendto (len : Nat) : Int × TcpSocket :=
  if t.connected then
    let r := xmit len len 0 t
    (r.1, r.2)
  else (-1, t)

/-! ## How much is taken -/

variable {t}

lemma pushOut_spec (h : t.pushOut n = (true, t')) :
    t'.queued = t.queued + n ∧ t'.capacity = t.capacity := by
  unfold pushOut at h
  split at h
  · cases h
  · rename_i q hq
    cases h
    obtain ⟨hpayload, hmax⟩ := TcpQueue.enqueue_eq_some hq
    constructor
    · show q.payload + t.hold.payload = t.out.payload + t.hold.payload + n
      omega
    · show q.maxSize + t.hold.maxSize = t.out.maxSize + t.hold.maxSize
      omega

lemma pushHold_spec (h : t.pushHold n = (true, t')) :
    t'.queued = t.queued + n ∧ t'.capacity = t.capacity := by
  unfold pushHold at h
  split at h
  · cases h
  · rename_i q hq
    cases h
    obtain ⟨hpayload, hmax⟩ := TcpQueue.enqueue_eq_some hq
    constructor
    · show t.out.payload + q.payload = t.out.payload + t.hold.payload + n
      omega
    · show t.out.maxSize + q.maxSize = t.out.maxSize + t.hold.maxSize
      omega

lemma flushHold_spec (h : t.flushHold = (true, t')) :
    t'.queued = t.queued ∧ t'.capacity = t.capacity := by
  simp only [flushHold] at h
  split at h
  · obtain ⟨hqueued, hcapacity⟩ := pushOut_spec h
    obtain ⟨hsum, -⟩ := joinFrames_spec t.mss 0 t.hold.frames
    refine ⟨hqueued.trans ?_, hcapacity⟩
    simp only [queued, TcpQueue.payload, TcpQueue.joined]
    omega
  · cases h

lemma push_spec (h : t.push n = (true, t')) :
    t'.queued = t.queued + n ∧ t'.capacity = t.capacity := by
  unfold push at h
  split at h
  · exact pushOut_spec h
  · split at h
    · split at h
      · rename_i t1 ht1
        obtain ⟨hqueued, hcapacity⟩ := pushHold_spec ht1
        obtain ⟨hqueued', hcapacity'⟩ := flushHold_spec h
        exact ⟨hqueued'.trans hqueued, hcapacity'.trans hcapacity⟩
      · cases h
    · exact pushHold_spec h

lemma xmitOne_spec (h : t.xmitOne n = (true, t')) :
    t'.queued = t.queued + n ∧ t'.capacity = t.capacity := by
  simp only [xmitOne] at h
  split at h
  · obtain ⟨hqueued, hcapacity⟩ := push_spec h
    exact ⟨hqueued, hcapacity⟩
  · cases h

lemma xmit_le (len : Nat) : ∀ (rounds total : Nat) (t : TcpSocket), total ≤ len →
    (xmit len rounds total t).1 ≤ len ∧ (xmit len rounds total t).1 + t.queued ≤ total + t.capacity
  | 0, total, t, hle => ⟨hle, Nat.add_le_add_left t.queued_le total⟩
  | rounds + 1, total, t, hle => by
    unfold xmit
    split
    · simp only
      split
      · rename_i t' ht'
        obtain ⟨hqueued, hcapacity⟩ := xmitOne_spec ht'
        split
        · exact ⟨hle, Nat.add_le_add_left t.queued_le total⟩
        · obtain ⟨hlen, htotal⟩ :=
            xmit_le len rounds (total + min (len - total) t.space) t' (by omega)
          exact ⟨hlen, by omega⟩
      · exact ⟨hle, Nat.add_le_add_left t.queued_le total⟩
    · exact ⟨hle, Nat.add_le_add_left t.queued_le total⟩

lemma sendto_le (t : TcpSocket) (len : Nat) :
    (t.sendto len).1 ≤ len ∧ (t.sendto len).1 ≤ 2 ^ 20 := by
  unfold sendto
  split
  · obtain ⟨hlen, htotal⟩ := xmit_le len len 0 t (Nat.zero_le len)
    have hout : t.out.maxSize ≤ 16 * 1024 := t.outMax
    have hhold := t.holdMax
    simp only [capacity] at htotal
    simp only
    omega
  · omega

end TcpSocket

end SpaghettiOS.Net
