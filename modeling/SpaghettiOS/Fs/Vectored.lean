import SpaghettiOS.Fs.UserLibrary
import SpaghettiOS.Lib.Pieces

/-!
# Reads and writes of several buffers

`sys_writev` and `sys_readv` of `libsosapi` make one call for each buffer and add up what
the calls return.  A call that moves less than its buffer does not end the loop.

The two loops are written over any monad with the calls of the library in it, and run over
a `Session`, in which SOS answers with any counts.
-/

namespace SpaghettiOS.Vectored

open Fs (toInt32)
open Pieces (InPlace flatten_prefix_iff)
open UserLibrary (checkLen)
open Vm (shareBufBytes)

/-! ## The loops -/

section Loops

variable {m : Type → Type} [Monad m] {α β : Type}

abbrev iovMax : Nat := 1024

abbrev ssizeMax : Int := 2 ^ 63 - 1

abbrev einval : Int := 22

def longLong (n : Int) : Int := n.bmod (2 ^ 64)

/-- The loop that adds up the lengths of the buffers, `none` where it returns
`-EINVAL`. -/
def sumLens : Int → List (List α) → Option Int
  | sum, [] => some sum
  | sum, buf :: iov =>
      let sum := longLong (sum + longLong buf.length)
      if sum > ssizeMax then none else sumLens sum iov

def eachBuffer (call : β → m Int) : Int → List β → m Int
  | ret, [] => pure ret
  | ret, buf :: iov => do
      let n ← call buf
      eachBuffer call (ret + n) iov

/-- `sys_writev`.  The buffers are the first `iovcnt` entries of the array. -/
def sysWritev (sosWrite : List α → m Int) (sosSysWrite : Int → List α → m Int) (fildes : Int)
    (iov : List (List α)) : m Int :=
  if iov.length ≤ 0 ∨ iov.length > iovMax then pure (-einval)
  else
    match sumLens 0 iov with
    | none => pure (-einval)
    | some sum =>
        if sum = 0 then pure 0
        else if fildes = 1 ∨ fildes = 2 then eachBuffer sosWrite 0 iov
        else eachBuffer (sosSysWrite fildes) 0 iov

def sysReadv (sosSysRead : Int → β → m Int) (fd : Int) (iov : List β) : m Int :=
  eachBuffer (sosSysRead fd) 0 iov

end Loops

/-! ## Sessions -/

variable {counts lens : List Nat} {n c : Nat}

section Sessions

variable {α : Type} {iov : List (List α)} {fildes : Int} {start s : Nat}

structure Session (α : Type) where
  replies : List Nat
  moved : List α
deriving DecidableEq, Repr

abbrev SessionM (α : Type) := StateM (Session α)

/-- `seL4_Call`: the next answer of SOS, which has moved `items reply`. -/
def call (items : Nat → List α) : SessionM α Nat := fun s =>
  (s.replies.headD 0, ⟨s.replies.tail, s.moved ++ items (s.replies.headD 0)⟩)

/-- `sos_sys_write`.  SOS takes bytes from the front of the shared buffer, into which
`user_copyin` has put what fits. -/
def sosSysWrite (_file : Int) (buf : List α) : SessionM α Int := do
  let nbyte := checkLen buf.length
  let window := buf.take nbyte
  let reply ← call window.take
  pure (toInt32 reply)

/-- `sos_sys_read`.  What `user_copyout` copies goes to the front of the buffer. -/
def sosSysRead (_file : Int) (buf : List α) : SessionM α Int := do
  let bytesRead ← call fun bytesRead => buf.take (checkLen bytesRead)
  pure (toInt32 bytesRead)

/-- The counts returned for the buffers, each an `int` between 0 and the length. -/
abbrev Counts (iov : List (List α)) (counts : List Nat) : Prop :=
  List.Forall₂ (fun buf c => c ≤ buf.length ∧ c < 2 ^ 31) iov counts

def pieces (iov : List (List α)) (counts : List Nat) : List (List α) :=
  List.zipWith (fun buf c => buf.take (checkLen c)) iov counts

lemma checkLen_le (n : Nat) : checkLen n ≤ n := by
  unfold checkLen
  split <;> omega

lemma checkLen_eq_iff : checkLen n = n ↔ n ≤ shareBufBytes := by
  unfold checkLen
  split <;> omega

lemma toInt32_of_lt (h : n < 2 ^ 31) : toInt32 n = n := by
  unfold toInt32
  rw [Int.bmod_def]
  split <;> omega

lemma calls_eq (file : Int) {buf : List α} (hc : c ≤ buf.length ∧ c < 2 ^ 31)
    (replies : List Nat) (moved : List α) : sosSysWrite file buf ⟨c :: replies, moved⟩
        = ((c : Int), ⟨replies, moved ++ buf.take (checkLen c)⟩) ∧
      sosSysRead file buf ⟨c :: replies, moved⟩
        = ((c : Int), ⟨replies, moved ++ buf.take (checkLen c)⟩) := by
  have hint := toInt32_of_lt hc.2
  constructor
  · have hmin : min c (checkLen buf.length) = checkLen c := by
      unfold checkLen
      split <;> split <;> omega
    have htake : (buf.take (checkLen buf.length)).take c = buf.take (checkLen c) := by
      rw [List.take_take, hmin]
    show ((toInt32 c : Int), (⟨replies, moved ++ (buf.take (checkLen buf.length)).take c⟩ :
      Session α)) = _
    rw [hint, htake]
  · show ((toInt32 c : Int), (⟨replies, moved ++ buf.take (checkLen c)⟩ : Session α)) = _
    rw [hint]

lemma eachBuffer_eq {f : List α → SessionM α Int} (hcounts : Counts iov counts)
    (hf : ∀ buf c, c ≤ buf.length ∧ c < 2 ^ 31 → ∀ replies moved, f buf ⟨c :: replies, moved⟩
      = ((c : Int), ⟨replies, moved ++ buf.take (checkLen c)⟩)) (ret : Int) (moved : List α) :
    eachBuffer f ret iov ⟨counts, moved⟩
      = (ret + (counts.sum : Nat), ⟨[], moved ++ (pieces iov counts).flatten⟩) := by
  induction hcounts generalizing ret moved with
  | nil =>
    simp only [pieces, List.zipWith_nil_left, List.flatten_nil, List.append_nil, List.sum_nil,
      Nat.cast_zero, add_zero]
    rfl
  | @cons buf c iov counts hc _ ih =>
    have hrest := ih (ret + c) (moved ++ buf.take (checkLen c))
    show (let (n, s) := f buf ⟨c :: counts, moved⟩; eachBuffer f (ret + n) iov s) = _
    rw [hf buf c hc]
    show eachBuffer f (ret + c) iov _ = _
    rw [hrest]
    simp only [pieces, List.zipWith_cons_cons, List.flatten_cons, List.sum_cons,
      List.append_assoc, Nat.cast_add, add_assoc]

lemma readv_eq (fd : Int) (hcounts : Counts iov counts) : sysReadv sosSysRead fd iov ⟨counts, []⟩
      = (((counts.sum : Nat) : Int), ⟨[], (pieces iov counts).flatten⟩) := by
  refine (eachBuffer_eq hcounts (fun buf c hc replies moved => (calls_eq fd hc replies moved).2)
    0 []).trans ?_
  rw [zero_add, List.nil_append]

/-! ## What has been moved -/

lemma pieces_length (hcounts : Counts iov counts) :
    (pieces iov counts).flatten.length = (counts.map checkLen).sum := by
  induction hcounts with
  | nil => rfl
  | @cons buf c iov counts hc _ ih =>
    have hle := checkLen_le c
    simp only [pieces, List.zipWith_cons_cons, List.flatten_cons, List.length_append,
      List.length_take, List.map_cons, List.sum_cons] at ih ⊢
    omega

lemma sum_le_flatten (hcounts : Counts iov counts) : counts.sum ≤ iov.flatten.length := by
  induction hcounts with
  | nil => exact le_rfl
  | cons hc _ ih =>
    simp only [List.sum_cons, List.flatten_cons, List.length_append]
    omega

lemma map_checkLen_sum_iff (counts : List Nat) :
    counts.sum ≤ (counts.map checkLen).sum ↔ ∀ c ∈ counts, c ≤ shareBufBytes := by
  induction counts with
  | nil => exact ⟨fun _ c hc => absurd hc List.not_mem_nil, fun _ => le_rfl⟩
  | cons c counts ih =>
    have hle : (counts.map checkLen).sum ≤ counts.sum := by
      have h := List.sum_le_sum (l := counts) fun c _ => checkLen_le c
      rwa [List.map_id'] at h
    have hc := checkLen_le c
    have heq := checkLen_eq_iff (n := c)
    rw [List.map_cons, List.sum_cons, List.sum_cons, List.forall_mem_cons, ← heq, ← ih]
    omega

lemma pieces_eq (hsmall : ∀ c ∈ counts, c ≤ shareBufBytes) :
    pieces iov counts = List.zipWith (fun buf c => buf.take c) iov counts := by
  induction counts generalizing iov with
  | nil => simp [pieces]
  | cons c counts ih =>
    cases iov with
    | nil => rfl
    | cons buf iov =>
      have hc := checkLen_eq_iff.mpr (hsmall c List.mem_cons_self)
      have hrest : pieces iov counts = _ :=
        ih fun c' hc' => hsmall c' (List.mem_cons_of_mem c hc')
      simp only [pieces, List.zipWith_cons_cons, hc] at hrest ⊢
      rw [hrest]

/-! ## Writes -/

/-- The bytes in the file are the first ones of the buffers, as many as the call
returns. -/
def WritesFront (sosWrite : List α → SessionM α Int) (fildes : Int) (iov : List (List α))
    (counts : List Nat) : Prop :=
  ∀ n : Nat, (sysWritev sosWrite sosSysWrite fildes iov ⟨counts, []⟩).1 = n →
    (sysWritev sosWrite sosSysWrite fildes iov ⟨counts, []⟩).2.moved = iov.flatten.take n

def NoCalls (iov : List (List α)) : Prop := iov.length > iovMax ∨ sumLens 0 iov = some 0

lemma sumLens_isSome (sum : Int) (iov : List (List α)) : (sumLens sum iov).isSome := by
  induction iov generalizing sum with
  | nil => rfl
  | cons buf iov ih =>
    have hle : ¬ longLong (sum + longLong buf.length) > ssizeMax := by
      have h := Int.bmod_lt (x := sum + longLong buf.length) (m := 2 ^ 64) (by decide)
      rw [longLong, ssizeMax]
      omega
    rw [sumLens, if_neg hle]
    exact ih _

lemma writev_eq (sosWrite : List α → SessionM α Int)
    (hfd : fildes ≠ 1 ∧ fildes ≠ 2) (hcounts : Counts iov counts)
    (hcalls : ¬ NoCalls iov) (hne : iov ≠ []) :
    sysWritev sosWrite sosSysWrite fildes iov ⟨counts, []⟩
      = (((counts.sum : Nat) : Int), ⟨[], (pieces iov counts).flatten⟩) := by
  obtain ⟨hlen, hsum⟩ := not_or.mp hcalls
  have hpos : ¬ iov.length ≤ 0 := fun h => hne (List.length_eq_zero_iff.mp (Nat.le_zero.mp h))
  obtain ⟨sum, hsome⟩ := Option.isSome_iff_exists.mp (sumLens_isSome 0 iov)
  rw [hsome] at hsum
  simp only [sysWritev, hpos, hlen, or_self, if_false, hsome]
  rw [if_neg fun h => hsum (congrArg some h), if_neg (not_or.mpr hfd)]
  refine (eachBuffer_eq hcounts (fun buf c hc replies moved =>
    (calls_eq fildes hc replies moved).1) 0 []).trans ?_
  rw [zero_add, List.nil_append]

lemma pieces_front_iff (hcounts : Counts iov counts) :
    (pieces iov counts).flatten = iov.flatten.take counts.sum ↔ (∀ c ∈ counts, c ≤ shareBufBytes) ∧
        InPlace iov.flatten (List.zipWith (fun buf c => buf.take c) iov counts) := by
  have hlen := pieces_length hcounts
  have hsum := sum_le_flatten hcounts
  constructor
  · intro h
    have hsmall : ∀ c ∈ counts, c ≤ shareBufBytes := by
      refine (map_checkLen_sum_iff counts).mp ?_
      rw [← hlen, h, List.length_take_of_le hsum]
    rw [← pieces_eq hsmall, ← flatten_prefix_iff, h]
    exact ⟨hsmall, List.take_prefix _ _⟩
  · rintro ⟨hsmall, hplace⟩
    rw [← pieces_eq hsmall, ← flatten_prefix_iff] at hplace
    have hfull : (pieces iov counts).flatten.length = counts.sum := by
      rw [hlen, List.map_congr_left fun c hc => checkLen_eq_iff.mpr (hsmall c hc), List.map_id']
    rw [← hfull]
    exact List.prefix_iff_eq_take.mp hplace

lemma writesFront_iff (sosWrite : List α → SessionM α Int)
    (hfd : fildes ≠ 1 ∧ fildes ≠ 2) (hcounts : Counts iov counts) :
    WritesFront sosWrite fildes iov counts ↔ NoCalls iov ∨ (∀ c ∈ counts, c ≤ shareBufBytes) ∧
        InPlace iov.flatten (List.zipWith (fun buf c => buf.take c) iov counts) := by
  by_cases hcalls : NoCalls iov
  · refine iff_of_true (fun n hn => ?_) (.inl hcalls)
    by_cases hreject : iov.length ≤ 0 ∨ iov.length > iovMax
    · simp only [sysWritev, hreject, if_true] at hn
      have hneg : (-22 : Int) = n := hn
      omega
    · have hsum := hcalls.resolve_left (not_or.mp hreject).2
      simp only [sysWritev, hreject, if_false, hsum, if_true] at hn ⊢
      obtain rfl : 0 = n := Int.ofNat_inj.mp hn
      exact List.take_zero.symm
  · by_cases hne : iov = []
    · exact absurd (.inr (by rw [hne]; rfl)) hcalls
    · unfold WritesFront
      rw [writev_eq sosWrite hfd hcounts hcalls hne, ← pieces_front_iff hcounts]
      refine ⟨fun h => .inr (h counts.sum rfl), fun h n hn => ?_⟩
      obtain rfl : counts.sum = n := Int.ofNat_inj.mp hn
      exact h.resolve_left hcalls

/-! ## Reads -/

/-- The positions of the buffers, joined, from `start` on. -/
def positions : Nat → List Nat → List (List Nat)
  | _, [] => []
  | start, len :: lens => List.range' start len :: positions (start + len) lens

/-- The positions that receive something are the first ones of the buffers, as many as
the call returns, and they receive it in the order of the stream. -/
def ReadsFront (fd : Int) (lens counts : List Nat) : Prop :=
  ∀ n : Nat, (sysReadv sosSysRead fd (positions 0 lens) ⟨counts, []⟩).1 = n →
    (sysReadv sosSysRead fd (positions 0 lens) ⟨counts, []⟩).2.moved = List.range n

/-- Where a count is short, no later call moves anything. -/
def NoGap (lens counts : List Nat) : Prop :=
  (lens.zip counts).Pairwise fun x y => x.2 = x.1 ∨ y.2 = 0

lemma noGap_cons {len : Nat} (hlen : lens.length = counts.length) :
    NoGap (len :: lens) (c :: counts) ↔ (c = len ∨ ∀ c' ∈ counts, c' = 0) ∧ NoGap lens counts := by
  have hzip : ∀ c', c' ∈ counts ↔ ∃ x ∈ lens.zip counts, x.2 = c' := fun c' => by
    rw [← List.mem_map, List.map_snd_zip hlen.ge]
  unfold NoGap
  rw [List.zip_cons_cons, List.pairwise_cons]
  refine and_congr_left fun _ => ⟨fun h => ?_, fun h x hx => ?_⟩
  · by_cases hc : c = len
    · exact .inl hc
    · refine .inr fun c' hc' => ?_
      obtain ⟨x, hx, rfl⟩ := (hzip c').mp hc'
      exact (h x hx).resolve_left hc
  · exact h.imp id fun h => h x.2 ((hzip x.2).mpr ⟨x, hx, rfl⟩)

lemma flatten_positions (start : Nat) (lens : List Nat) :
    (positions start lens).flatten = List.range' start lens.sum := by
  induction lens generalizing start with
  | nil => rfl
  | cons len lens ih =>
    rw [positions, List.flatten_cons, ih, List.sum_cons, List.range'_append_1]

lemma counts_positions (start : Nat)
    (h : List.Forall₂ (fun len c => c ≤ len ∧ c < 2 ^ 31) lens counts) :
    Counts (positions start lens) counts := by
  induction h generalizing start with
  | nil => exact .nil
  | cons hc _ ih => exact .cons (by rwa [List.length_range']) (ih _)

lemma range'_prefix_iff : List.range' start c <+: List.range' s n ↔ c = 0 ∨ start = s ∧ c ≤ n := by
  constructor
  · intro h
    have hlen := h.length_le
    rw [List.length_range', List.length_range'] at hlen
    cases c with
    | zero => exact .inl rfl
    | succ c =>
      obtain ⟨n, rfl⟩ : ∃ k, n = k + 1 := ⟨n - 1, by omega⟩
      rw [List.range'_succ, List.range'_succ, List.cons_prefix_cons] at h
      exact .inr ⟨h.1, hlen⟩
  · rintro (rfl | ⟨rfl, hle⟩)
    · exact List.nil_prefix
    · exact ⟨List.range' (start + c) (n - c), by
        rw [List.range'_append_1]
        congr 1
        omega⟩

lemma inPlace_positions_iff (h : List.Forall₂ (fun len c => c ≤ len ∧ c < 2 ^ 31) lens counts)
    (hs : s ≤ start) (hn : start + lens.sum ≤ s + n) : InPlace (List.range' s n)
        (List.zipWith (fun buf c => buf.take c) (positions start lens) counts) ↔
      (s = start ∨ ∀ c ∈ counts, c = 0) ∧ NoGap lens counts := by
  induction h generalizing start s n with
  | nil =>
    refine iff_of_true (fun i hi => absurd hi (Nat.not_lt_zero i)) ⟨.inr ?_, List.Pairwise.nil⟩
    exact fun c hc => absurd hc List.not_mem_nil
  | @cons len c lens counts hc hrest ih =>
    rw [List.sum_cons] at hn
    have htake : (List.range' start len).take c = List.range' start c :=
      List.take_range'_of_length_ge hc.1
    rw [positions, List.zipWith_cons_cons, Pieces.inPlace_cons, htake, range'_prefix_iff,
      List.length_range', noGap_cons hrest.length_eq, List.forall_mem_cons]
    by_cases hcn : c ≤ n
    · rw [List.drop_range', ih (by omega) (by omega)]
      constructor
      · rintro ⟨hp, hgap, hno⟩
        refine ⟨?_, ?_, hno⟩
        · rcases hp with rfl | ⟨rfl, -⟩
          · exact hgap.imp (fun h => by omega) fun h => ⟨rfl, h⟩
          · exact .inl rfl
        · exact hgap.imp (fun h => by omega) id
      · rintro ⟨hp, hgap, hno⟩
        refine ⟨?_, ?_, hno⟩
        · rcases hp with rfl | ⟨rfl, -⟩
          · exact .inr ⟨rfl, hcn⟩
          · exact .inl rfl
        · rcases hp with rfl | ⟨-, hzero⟩
          · exact hgap.imp (fun h => by omega) id
          · exact .inr hzero
    · omega

lemma readsFront_iff (fd : Int) (h : List.Forall₂ (fun len c => c ≤ len ∧ c < 2 ^ 31) lens counts) :
    ReadsFront fd lens counts ↔ (∀ c ∈ counts, c ≤ shareBufBytes) ∧ NoGap lens counts := by
  have hcounts := counts_positions 0 h
  have hsum : counts.sum ≤ lens.sum := by
    have hle := sum_le_flatten hcounts
    rwa [flatten_positions, List.length_range'] at hle
  have hfront := pieces_front_iff hcounts
  rw [flatten_positions, inPlace_positions_iff h le_rfl (by omega),
    List.take_range'_of_length_ge hsum, ← List.range_eq_range'] at hfront
  unfold ReadsFront
  rw [readv_eq fd hcounts]
  constructor
  · intro hread
    obtain ⟨hsmall, -, hno⟩ := hfront.mp (hread counts.sum rfl)
    exact ⟨hsmall, hno⟩
  · rintro ⟨hsmall, hno⟩ n hn
    obtain rfl : counts.sum = n := Int.ofNat_inj.mp hn
    exact hfront.mpr ⟨hsmall, .inl rfl, hno⟩

/-- `sys_writev` writes the first `n` bytes and `sys_readv` fills the first `n` positions
of the buffers joined, where `n` is what they return, under exactly these conditions on
the counts.  `sos_write` takes no part. -/
theorem vectored_front_iff (sosWrite : List UInt8 → SessionM UInt8 Int) (fildes fd : Int)
    (hfd : fildes ≠ 1 ∧ fildes ≠ 2) (iov : List (List UInt8)) (counts : List Nat)
    (hcounts : Counts iov counts) (lens counts' : List Nat)
    (hcounts' : List.Forall₂ (fun len c => c ≤ len ∧ c < 2 ^ 31) lens counts') :
    (WritesFront sosWrite fildes iov counts ↔ NoCalls iov ∨ (∀ c ∈ counts, c ≤ shareBufBytes) ∧
        InPlace iov.flatten (List.zipWith (fun buf c => buf.take c) iov counts)) ∧
    (ReadsFront fd lens counts' ↔ (∀ c ∈ counts', c ≤ shareBufBytes) ∧ NoGap lens counts') :=
  ⟨writesFront_iff sosWrite hfd hcounts, readsFront_iff fd hcounts'⟩

theorem vectored_front_short :
    WritesFront (α := UInt8) (fun _ => pure 0) 3 [[97, 98], [99, 100]] [2, 1] ∧
      ReadsFront 3 [2, 2] [2, 1] := by
  have h := vectored_front_iff (fun _ => pure 0) 3 3 (by decide) [[97, 98], [99, 100]] [2, 1]
    (.cons (by decide) (.cons (by decide) .nil)) [2, 2] [2, 1]
    (.cons (by decide) (.cons (by decide) .nil))
  refine ⟨h.1.mpr (.inr ⟨by decide, ?_⟩), h.2.mpr ⟨by decide, by unfold NoGap; decide⟩⟩
  unfold InPlace
  decide

theorem vectored_skips :
    (Counts (α := UInt8) [[97, 98], [99]] [1, 1] ∧
      (sysWritev (α := UInt8) (fun _ => pure 0) sosSysWrite 3 [[97, 98], [99]] ⟨[1, 1], []⟩).1 = 2 ∧
      (sysWritev (α := UInt8) (fun _ => pure 0) sosSysWrite 3 [[97, 98], [99]]
        ⟨[1, 1], []⟩).2.moved = [97, 99] ∧
      ¬ WritesFront (α := UInt8) (fun _ => pure 0) 3 [[97, 98], [99]] [1, 1]) ∧
    (sysReadv sosSysRead 3 (positions 0 [2, 1]) ⟨[1, 1], []⟩).1 = 2 ∧
      (sysReadv sosSysRead 3 (positions 0 [2, 1]) ⟨[1, 1], []⟩).2.moved = [0, 2] ∧
      ¬ ReadsFront 3 [2, 1] [1, 1] := by
  refine ⟨⟨.cons (by decide) (.cons (by decide) .nil), by decide, by decide, fun h => ?_⟩,
    by decide, by decide, fun h => ?_⟩
  · exact absurd (h 2 (by decide)) (by decide)
  · exact absurd (h 2 (by decide)) (by decide)

end Sessions

end SpaghettiOS.Vectored
