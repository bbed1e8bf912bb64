import SpaghettiOS.VM.Paging

/-!
# Reading an executable

The loop of `elf_load_fs` that reads an executable page by page, for every sequence of
results `VOP_READ` can give.  The result is an `int` that goes into a `size_t`: a read
that fails counts as 2^64 - 1 bytes.  `sos_copyout` cuts that down to the size of the
shared buffer and copies so much, and the offset wraps to one below where it was.

At offset 0 that ends the loop at once, and where less than a shared buffer is left to
read it writes behind the end of `elf_file`.
-/

namespace SpaghettiOS.ElfRead

open Vm (pageSize shareBufBytes shareBufCheckLen)

/-- What `VOP_READ` returns, and what is in the kernel's shared buffer then. -/
structure ReadResult where
  status : Int
  window : Nat → UInt8

/-- `read_offset`, the bytes from `elf_file` on, and what has been written so far, as
offsets into `elf_file` with lengths. -/
structure Load where
  readOffset : Nat
  elfFile : Nat → UInt8
  written : List (Nat × Nat)

def toSize (n : Int) : Nat := (n % 2 ^ 64).toNat

def uioLen (stSize readOffset : Nat) : Nat := min pageSize (stSize - readOffset)

def turn (r : ReadResult) (l : Load) : Load :=
  let bytesRead := toSize r.status
  let len := shareBufCheckLen bytesRead
  { readOffset := (l.readOffset + bytesRead) % 2 ^ 64
    elfFile := fun k =>
      if l.readOffset ≤ k ∧ k < l.readOffset + len then r.window (k - l.readOffset)
      else l.elfFile k
    written := (l.readOffset, len) :: l.written }

/-- The loop after at most `n` turns, from what `malloc` has given. -/
def load (stSize : Nat) (reads : Nat → ReadResult) (elfFile : Nat → UInt8) : Nat → Load
  | 0 => ⟨0, elfFile, []⟩
  | n + 1 =>
      let l := load stSize reads elfFile n
      if l.readOffset < stSize then turn (reads n) l else l

/-! ## Offsets -/

/-- `read_offset` after at most `n` turns, which the results alone decide. -/
def offset (stSize : Nat) (results : Nat → Int) : Nat → Nat
  | 0 => 0
  | n + 1 =>
      let o := offset stSize results n
      if o < stSize then (o + toSize (results n)) % 2 ^ 64 else o

/-- Each read that is made fails, or reads no more than it was asked for. -/
def Valid (stSize : Nat) (results : Nat → Int) : Prop :=
  ∀ n, offset stSize results n < stSize →
    -1 ≤ results n ∧ results n ≤ uioLen stSize (offset stSize results n)

/-- The reads have these results, and find the bytes of the file at their offsets. -/
def Serves (stSize : Nat) (results : Nat → Int) (file : Nat → UInt8)
    (reads : Nat → ReadResult) : Prop :=
  ∀ n, (reads n).status = results n ∧
    ∀ k : Nat, (k : Int) < results n → (reads n).window k = file (offset stSize results n + k)

/-- The loop ends, writes only into `elf_file`, and leaves the bytes of the file there,
whatever the file and the rest of memory hold. -/
def LoadsFile (stSize : Nat) (results : Nat → Int) : Prop :=
  ∀ file elfFile reads, Serves stSize results file reads →
    (∃ n, stSize ≤ (load stSize reads elfFile n).readOffset) ∧
    ∀ n, (∀ w ∈ (load stSize reads elfFile n).written, w.1 + w.2 ≤ stSize) ∧
      (stSize ≤ (load stSize reads elfFile n).readOffset →
        ∀ k < stSize, (load stSize reads elfFile n).elfFile k = file k)

/-- A read may fail if it is not the first and a whole shared buffer is left. -/
def FailsLate (stSize : Nat) (results : Nat → Int) : Prop :=
  ∀ n, offset stSize results n < stSize → results n = -1 →
    1 ≤ offset stSize results n ∧ offset stSize results n + shareBufBytes ≤ stSize

section
variable {stSize : Nat} {results : Nat → Int} {file elfFile : Nat → UInt8}
  {reads : Nat → ReadResult}

lemma load_readOffset (hserves : Serves stSize results file reads) (n : Nat) :
    (load stSize reads elfFile n).readOffset = offset stSize results n := by
  induction n with
  | zero => rfl
  | succ n ih =>
    rw [load, offset, ih]
    split
    · rw [turn, ih, (hserves n).1]
    · exact ih

lemma toSize_of_nonneg {r : Int} (h0 : 0 ≤ r) (hr : r < 2 ^ 64) : toSize r = r.toNat := by
  rw [toSize, Int.emod_eq_of_lt h0 hr]

lemma toSize_neg_one : toSize (-1) = 2 ^ 64 - 1 := by decide

lemma offset_step (hsize : stSize < 2 ^ 32) (hvalid : Valid stSize results)
    (hlate : FailsLate stSize results) {n : Nat} (hn : offset stSize results n < stSize) :
    (offset stSize results (n + 1) : Int) = offset stSize results n + results n := by
  obtain ⟨hlow, hhigh⟩ := hvalid n hn
  have hlen : uioLen stSize (offset stSize results n) ≤ stSize - offset stSize results n :=
    min_le_right _ _
  rw [offset, if_pos hn]
  by_cases hfail : results n = -1
  · obtain ⟨hpos, -⟩ := hlate n hn hfail
    rw [hfail, toSize_neg_one]
    omega
  · rw [toSize_of_nonneg (by omega) (by omega)]
    omega

lemma offset_le (hsize : stSize < 2 ^ 32) (hvalid : Valid stSize results)
    (hlate : FailsLate stSize results) (n : Nat) : offset stSize results n ≤ stSize := by
  induction n with
  | zero => exact Nat.zero_le _
  | succ n ih =>
    by_cases hn : offset stSize results n < stSize
    · have hstep := offset_step hsize hvalid hlate hn
      have hlen : uioLen stSize (offset stSize results n) ≤ stSize - offset stSize results n :=
        min_le_right _ _
      have hhigh := (hvalid n hn).2
      omega
    · rw [offset, if_neg hn]
      exact ih

/-! ## The bytes -/

/-- What holds after each turn: the bytes up to the offset are those of the file. -/
structure Loaded (stSize : Nat) (file : Nat → UInt8) (l : Load) : Prop where
  bytes : ∀ k < l.readOffset, l.elfFile k = file k
  inside : ∀ w ∈ l.written, w.1 + w.2 ≤ stSize

lemma loaded (hsize : stSize < 2 ^ 32) (hvalid : Valid stSize results)
    (hlate : FailsLate stSize results) (hserves : Serves stSize results file reads) (n : Nat) :
    Loaded stSize file (load stSize reads elfFile n) := by
  induction n with
  | zero =>
    exact ⟨fun k hk => absurd hk (Nat.not_lt_zero k), fun w hw => absurd hw List.not_mem_nil⟩
  | succ n ih =>
    have hoff : (load stSize reads elfFile n).readOffset = offset stSize results n :=
      load_readOffset hserves n
    have hnext : (load stSize reads elfFile (n + 1)).readOffset = offset stSize results (n + 1) :=
      load_readOffset hserves (n + 1)
    by_cases hn : offset stSize results n < stSize
    · have hload : load stSize reads elfFile (n + 1)
          = turn (reads n) (load stSize reads elfFile n) := by
        rw [load, hoff, if_pos hn]
      have hstep := offset_step hsize hvalid hlate hn
      obtain ⟨hstatus, hwindow⟩ := hserves n
      obtain ⟨hlow, hhigh⟩ := hvalid n hn
      have hpage : uioLen stSize (offset stSize results n) ≤ shareBufBytes :=
        (min_le_left _ _).trans (by decide)
      have hleft : uioLen stSize (offset stSize results n) ≤ stSize - offset stSize results n :=
        min_le_right _ _
      have hcopied : (0 ≤ results n ∧ (shareBufCheckLen (toSize (results n)) : Int) = results n) ∨
          (results n = -1 ∧ shareBufCheckLen (toSize (results n)) = shareBufBytes) := by
        by_cases hfail : results n = -1
        · exact .inr ⟨hfail, by rw [hfail, toSize_neg_one]; rfl⟩
        · refine .inl ⟨by omega, ?_⟩
          rw [toSize_of_nonneg (by omega) (by omega), shareBufCheckLen, if_neg (by omega)]
          omega
      constructor
      · intro k hk
        rw [hnext] at hk
        rw [hload]
        simp only [turn, hoff, hstatus]
        split
        · rename_i hin
          rw [hwindow _ (by omega), Nat.add_sub_cancel' hin.1]
        · exact ih.bytes k (by omega)
      · intro w hw
        rw [hload] at hw
        simp only [turn, hoff, hstatus] at hw
        rcases List.mem_cons.mp hw with rfl | hw
        · rcases hcopied with ⟨h0, hlen⟩ | ⟨hfail, hlen⟩
          · simp only
            omega
          · simp only [hlen]
            exact (hlate n hn hfail).2
        · exact ih.inside w hw
    · rw [load, hoff, if_neg hn]
      exact ih

/-! ## When it goes wrong -/

/-- Reads that leave ones wherever they do not read, of a file of zeros. -/
def onesAround (results : Nat → Int) (n : Nat) : ReadResult :=
  ⟨results n, fun k => if (k : Int) < results n then 0 else 1⟩

lemma serves_onesAround (stSize : Nat) (results : Nat → Int) :
    Serves stSize results (fun _ => 0) (onesAround results) :=
  fun _ => ⟨rfl, fun _ hk => if_pos hk⟩

lemma LoadsFile.failsLate (hsize : stSize < 2 ^ 32) (h : LoadsFile stSize results) :
    FailsLate stSize results := by
  intro n hn hfail
  have hserves := serves_onesAround stSize results
  obtain ⟨-, hall⟩ := h (fun _ => 0) (fun _ => 1) (onesAround results) hserves
  obtain ⟨hinside, hbytes⟩ := hall (n + 1)
  have hoff : (load stSize (onesAround results) (fun _ => 1) n).readOffset
      = offset stSize results n := load_readOffset hserves n
  have hload : load stSize (onesAround results) (fun _ => 1) (n + 1)
      = turn (onesAround results n) (load stSize (onesAround results) (fun _ => 1) n) := by
    rw [load, hoff, if_pos hn]
  have hlen : shareBufCheckLen (toSize (onesAround results n).status) = shareBufBytes := by
    rw [show (onesAround results n).status = -1 from hfail, toSize_neg_one]
    rfl
  rw [hload] at hinside hbytes
  simp only [turn, hoff, hlen] at hinside hbytes
  refine ⟨?_, hinside _ List.mem_cons_self⟩
  by_contra hzero
  have ho : offset stSize results n = 0 := by omega
  have hstatus : toSize (onesAround results n).status = 2 ^ 64 - 1 := by
    rw [show (onesAround results n).status = -1 from hfail, toSize_neg_one]
  rw [ho, hstatus] at hbytes
  have hbyte := hbytes (by omega) 0 (by omega)
  rw [if_pos (by decide)] at hbyte
  simp only [onesAround, hfail] at hbyte
  exact absurd hbyte (by decide)

lemma LoadsFile.reaches (hsize : stSize < 2 ^ 32) (hvalid : Valid stSize results)
    (h : LoadsFile stSize results) : ∃ n, offset stSize results n = stSize := by
  have hserves := serves_onesAround stSize results
  obtain ⟨⟨n, hn⟩, -⟩ := h (fun _ => 0) (fun _ => 1) (onesAround results) hserves
  rw [load_readOffset hserves] at hn
  exact ⟨n, (offset_le hsize hvalid (h.failsLate hsize) n).antisymm hn⟩

end

/-- The loop loads the file exactly if the offsets come to its end and no read fails at
the start or within a shared buffer of the end. -/
theorem loadsFile_iff (stSize : Nat) (hsize : stSize < 2 ^ 32) (results : Nat → Int)
    (hvalid : Valid stSize results) :
    LoadsFile stSize results ↔ (∃ n, offset stSize results n = stSize) ∧
      ∀ n, offset stSize results n < stSize → results n = -1 →
        1 ≤ offset stSize results n ∧ offset stSize results n + 2 ^ 20 ≤ stSize := by
  constructor
  · exact fun h => ⟨h.reaches hsize hvalid, h.failsLate hsize⟩
  · rintro ⟨⟨n, hn⟩, hlate⟩ file elfFile reads hserves
    have hloaded : ∀ m, Loaded stSize file (load stSize reads elfFile m) :=
      loaded hsize hvalid hlate hserves
    refine ⟨⟨n, by rw [load_readOffset hserves, hn]⟩, fun m => ⟨(hloaded m).inside, ?_⟩⟩
    exact fun hm k hk => (hloaded m).bytes k (hk.trans_le hm)

theorem loadsFile_three : LoadsFile 3 fun _ => 3 := by
  have hoff : ∀ n, offset 3 (fun _ => 3) (n + 1) = 3 := fun n => by
    induction n with
    | zero => rfl
    | succ n ih => rw [offset, ih, if_neg (by decide)]
  have hfirst : ∀ n, offset 3 (fun _ => 3) n < 3 → n = 0 := fun n hn => by
    cases n with
    | zero => rfl
    | succ n => exact absurd hn (by rw [hoff]; decide)
  refine (loadsFile_iff 3 (by decide) (fun _ => 3) fun n hn => ?_).mpr
    ⟨⟨1, hoff 0⟩, fun n _ hfail => absurd hfail (by decide)⟩
  rw [hfirst n hn]
  decide

theorem loadsFile_fails :
    (Valid 1 (fun _ => 0) ∧ ¬ LoadsFile 1 fun _ => 0) ∧
      Valid 1 (fun _ => -1) ∧ ¬ LoadsFile 1 fun _ => -1 := by
  have hneg : (-1 : Int) ≤ 0 := by decide
  have hvalid : Valid 1 fun _ => 0 := fun n _ => ⟨hneg, Int.natCast_nonneg _⟩
  have hvalid' : Valid 1 fun _ => -1 := fun n _ => ⟨le_rfl, hneg.trans (Int.natCast_nonneg _)⟩
  refine ⟨⟨hvalid, fun h => ?_⟩, hvalid', fun h => ?_⟩
  · obtain ⟨n, hn⟩ := h.reaches (by decide) hvalid
    have hzero : ∀ n, offset 1 (fun _ => 0) n = 0 := fun n => by
      induction n with
      | zero => rfl
      | succ n ih => rw [offset, ih]; rfl
    exact absurd ((hzero n).symm.trans hn) (by decide)
  · exact absurd (h.failsLate (by decide) 0 (by decide) rfl).1 (by decide)

end SpaghettiOS.ElfRead
