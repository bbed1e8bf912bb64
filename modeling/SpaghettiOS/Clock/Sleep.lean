import SpaghettiOS.Clock.Interrupt

/-!
# Sleeping

`sos_sys_usleep` of the user library and `syscall_usleep` of `time_syscalls.c`.  The
milliseconds are multiplied by a thousand as an `int`, and the product is extended to
the `uint64_t` delay of `register_timer` with its sign.

Beyond 2 147 483 ms the product wraps around, and when it comes out negative the job is
never due and keeps every job behind it from being due.
-/

namespace SpaghettiOS.Clock

/-- `sos_sys_usleep`: the second message register, if there is a call at all. -/
def sosSysUsleep (msec : BitVec 32) : Option (BitVec 64) :=
  if msec.toInt < 0 then none else some (msec.signExtend 64)

/-- The `uint64_t` that `msec * 1000` is passed on as. -/
def usleepDelay (msec : BitVec 32) : Nat := ((msec * 1000#32).signExtend 64).toNat

/-- `syscall_usleep` with the message register, the address of `usleep_handler` and the
running coroutine.  The flag says whether the caller goes to sleep; otherwise it has
an error code as its reply. -/
def syscallUsleep (c : ClockState) (mr1 : BitVec 64) (usleepHandler running : Nat) :
    Bool × ClockState :=
  let msec := mr1.setWidth 32
  let (timer, c') := registerTimer c (usleepDelay msec) .oneShot usleepHandler running
  (timer ≠ 0, c')

section Delay

variable {msec : BitVec 32}

lemma setWidth_signExtend : (msec.signExtend 64).setWidth 32 = msec := by
  ext i hi
  have hi' : i < 64 := by omega
  simp [BitVec.getElem_signExtend, hi, hi']

lemma usleepDelay_eq :
    usleepDelay msec = if msec.toNat * 1000 % 2 ^ 32 < 2 ^ 31 then msec.toNat * 1000 % 2 ^ 32
      else msec.toNat * 1000 % 2 ^ 32 + (2 ^ 64 - 2 ^ 32) := by
  have hprod : (msec * 1000#32).toNat = msec.toNat * 1000 % 2 ^ 32 := by
    simp [BitVec.toNat_mul]
  have hmsb : (msec * 1000#32).msb = decide (2 ^ 31 ≤ (msec * 1000#32).toNat) :=
    BitVec.msb_eq_decide _
  rw [usleepDelay, BitVec.toNat_signExtend, BitVec.toNat_setWidth_of_le (by decide), hmsb, hprod]
  split
  · rename_i hge
    rw [if_neg (by simpa using hge)]
  · rename_i hlt
    rw [if_pos (by simpa using hlt), Nat.add_zero]

lemma usleepDelay_of_lt (h : 1000 * msec.toNat < 2 ^ 31) :
    usleepDelay msec = 1000 * msec.toNat := by
  have hmod : msec.toNat * 1000 % 2 ^ 32 = 1000 * msec.toNat := by
    rw [Nat.mul_comm]
    exact Nat.mod_eq_of_lt (by omega)
  rw [usleepDelay_eq, hmod, if_pos h]

lemma usleepDelay_wraps (h : ¬ 1000 * msec.toNat < 2 ^ 31) (time : Nat) (htime : time < 2 ^ 63) :
    (time + usleepDelay msec) % word64 ≠ time + 1000 * msec.toNat := by
  have hword : word64 = 2 ^ 64 := rfl
  have hmsec : msec.toNat < 2 ^ 32 := msec.isLt
  have hmod : msec.toNat * 1000 % 2 ^ 32 < 2 ^ 32 := Nat.mod_lt _ (by decide)
  rw [usleepDelay_eq]
  generalize msec.toNat * 1000 % 2 ^ 32 = prod at hmod
  split
  · rw [Nat.mod_eq_of_lt (by omega)]
    omega
  · rcases Nat.lt_or_ge (time + (prod + (2 ^ 64 - 2 ^ 32))) word64 with hlt | hge
    · rw [Nat.mod_eq_of_lt hlt]
      omega
    · rw [Nat.mod_eq_sub_mod hge, Nat.mod_eq_of_lt (by omega)]
      omega

end Delay

/-! ## Runs of sleeps and interrupts -/

inductive SleepOp where
  | usleep (msec : BitVec 32) (usleepHandler running : Nat)
  | interrupt

def SleepStep (c : ClockState) : SleepOp → ClockState → Prop
  | .usleep msec usleepHandler running, c' =>
      c' = match sosSysUsleep msec with
        | none => c
        | some mr1 => (syscallUsleep c mr1 usleepHandler running).2
  | .interrupt, c' => ∃ fuel fired, timerInterrupt quiet fuel c = some (fired, c')

def LowClock (c : ClockState) (_ : SleepOp) : Prop := c.pq.time < 2 ^ 63

instance (c : ClockState) (op : SleepOp) : Decidable (LowClock c op) :=
  inferInstanceAs (Decidable (_ < _))

/-- The clock is low, and the microseconds of a sleep fit into an `int`. -/
def ShortSleeps (c : ClockState) (op : SleepOp) : Prop :=
  LowClock c op ∧ ∀ msec usleepHandler running, op = .usleep msec usleepHandler running →
    0 ≤ msec.toInt → 1000 * msec.toNat < 2 ^ 31

structure Sleeping (c : ClockState) : Prop where
  ready : Ready c
  oneShot : ∀ j ∈ c.pq.head, j.type = .oneShot

lemma pqueuePop_oneShot {c : ClockState} {job : Job} {rest : List Job}
    (hhead : c.pq.head = job :: rest) (htype : job.type = .oneShot) :
    (pqueuePop c).pq.head = rest := by
  simp only [pqueuePop, hhead, htype]

lemma interruptLoop_oneShot : ∀ (fuel : Nat) {c c' : ClockState} {fired : List Job},
    (∀ j ∈ c.pq.head, j.type = .oneShot) → interruptLoop quiet fuel c = some (fired, c') →
    ∀ j ∈ c'.pq.head, j.type = .oneShot
  | 0, _, _, _, _, hrun => by cases hrun
  | fuel + 1, c, c', fired, h, hrun => by
    rw [interruptLoop] at hrun
    cases hpeek : pqueuePeek c with
    | none =>
      rw [hpeek] at hrun
      cases hrun
      exact h
    | some job =>
      rw [hpeek] at hrun
      dsimp only [quiet] at hrun
      split at hrun
      · obtain ⟨⟨fired', c''⟩, hrun', heq⟩ := Option.map_eq_some_iff.mp hrun
        cases heq
        obtain ⟨rest, hhead⟩ := List.head?_eq_some_iff.mp hpeek
        refine interruptLoop_oneShot fuel (fun j hj => ?_) hrun'
        rw [pqueuePop_oneShot hhead (h job (by simp [hhead]))] at hj
        exact h j (by simp [hhead, hj])
      · cases hrun
        exact h

lemma Sleeping.step {c c' : ClockState} {op : SleepOp} (h : Sleeping c)
    (hok : ShortSleeps c op) (hstep : SleepStep c op c') : Sleeping c' := by
  obtain ⟨hlow, hshort⟩ := hok
  have htime : c.pq.time < 2 ^ 63 := hlow
  have hword : word64 = 2 ^ 64 := rfl
  have hperiod : tick10000Us = 10000 := rfl
  cases op with
  | usleep msec usleepHandler running =>
    have hstep' : c' = match sosSysUsleep msec with
      | none => c
      | some mr1 => (syscallUsleep c mr1 usleepHandler running).2 := hstep
    by_cases hneg : msec.toInt < 0
    · rw [sosSysUsleep, if_pos hneg] at hstep'
      subst hstep'
      exact h
    · rw [sosSysUsleep, if_neg hneg] at hstep'
      subst hstep'
      have hfits := hshort msec usleepHandler running rfl (by omega)
      simp only [syscallUsleep, setWidth_signExtend, usleepDelay_of_lt hfits]
      have hready : Ready
          (registerTimer c (1000 * msec.toNat) .oneShot usleepHandler running).2 := by
        refine h.ready.register ?_ (fun hper => ?_) usleepHandler running
        · omega
        · cases hper
      refine ⟨hready, fun j hj => ?_⟩
      rcases mem_linkJob (by simpa [registerTimer, pqueuePush, PQueue.add] using hj) with rfl | hj
      · rfl
      · exact h.oneShot j hj
  | interrupt =>
    obtain ⟨fuel, fired, hrun⟩ := hstep
    have hwrap : NoWrapDue c := by
      refine ⟨by omega, fun j hj hper => ?_⟩
      have hj' : j ∈ c.pq.head := List.mem_of_mem_filter hj
      rw [h.oneShot j hj'] at hper
      cases hper
    have hfuel : c.pq.head.length < fuel + c.pq.head.length + 1 := by omega
    obtain ⟨c1, hrun1, -, hready⟩ := h.ready.timerInterrupt hwrap hfuel
    rw [timerInterrupt_fuel hrun (by omega)] at hrun1
    cases hrun1
    refine ⟨hready, ?_⟩
    simp only [timerInterrupt, h.ready.init, if_true, Option.map_eq_some_iff, Prod.mk.injEq,
      Prod.exists] at hrun
    obtain ⟨fired', c'', hloop, rfl, rfl⟩ := hrun
    have hone := interruptLoop_oneShot fuel h.oneShot hloop
    exact hone

/-- A sleep queues a job at the clock plus the microseconds exactly when these fit into an `int`
and the push does not lose the job at a tail tie. With sleeps that fit, no run queues a job that
the clock has passed. -/
theorem usleep_tick_iff (c : ClockState) {msec : BitVec 32} {mr1 : BitVec 64}
    (usleepHandler running : Nat) (htime : c.pq.time < 2 ^ 63)
    (hmr1 : sosSysUsleep msec = some mr1) :
    ((∃ job : Job, job.tick = c.pq.time + 1000 * msec.toNat ∧
        (syscallUsleep c mr1 usleepHandler running).2.pq.head.Perm (job :: c.pq.head)) ↔
      1000 * msec.toNat < 2 ^ 31 ∧ ¬ TailTie (c.pq.time + 1000 * msec.toNat) c.pq.head) ∧
    ∀ (nextJobId : Nat) (c : ClockState), Lts.Run SleepStep ShortSleeps (startTimer nextJobId) c →
      ∀ j ∈ c.pq.head, c.pq.time ≤ j.tick := by
  refine ⟨?_, fun nextJobId c hrun => ?_⟩
  · have hword : word64 = 2 ^ 64 := rfl
    have hreg : mr1 = msec.signExtend 64 := by
      rw [sosSysUsleep] at hmr1
      split at hmr1
      · cases hmr1
      · exact (Option.some.inj hmr1).symm
    subst hreg
    have hhead : ∃ new : Job, new.tick = (c.pq.time + usleepDelay msec) % word64 ∧
        (syscallUsleep c (msec.signExtend 64) usleepHandler running).2.pq.head
          = linkJob new c.pq.head := by
      refine ⟨⟨c.nextJobId, usleepDelay msec, c.pq.tickOf (usleepDelay msec), .oneShot,
        usleepHandler, running⟩, rfl, ?_⟩
      simp only [syscallUsleep, setWidth_signExtend, registerTimer, pqueuePush, PQueue.add, ne_eq,
        not_true_eq_false, if_false]
    obtain ⟨new, htick, hnew⟩ := hhead
    rw [hnew]
    constructor
    · rintro ⟨job, hjob, hperm⟩
      have htie : ¬ TailTie new.tick c.pq.head := by
        intro htie
        have hlen := hperm.length_eq
        rw [linkJob_tailTie htie] at hlen
        simp at hlen
      have hsame : job = new := by
        have hcons := hperm.symm.trans (linkJob_perm htie)
        have hcount := hcons.count_eq job
        by_contra hne
        rw [List.count_cons_self, List.count_cons_of_ne (Ne.symm hne)] at hcount
        omega
      subst hsame
      have hfits : 1000 * msec.toNat < 2 ^ 31 := by
        by_contra hbig
        exact usleepDelay_wraps hbig c.pq.time htime (htick.symm.trans hjob)
      exact ⟨hfits, hjob ▸ htie⟩
    · rintro ⟨hfits, htie⟩
      have hexact : new.tick = c.pq.time + 1000 * msec.toNat := by
        rw [htick, usleepDelay_of_lt hfits]
        exact Nat.mod_eq_of_lt (by omega)
      exact ⟨new, hexact, linkJob_perm (hexact ▸ htie)⟩
  · have hstart : Sleeping (startTimer nextJobId) := by
      refine ⟨⟨rfl, .nil, ?_, ?_⟩, ?_⟩ <;> simp [startTimer, pqueueInit]
    exact (hrun.invariant (I := Sleeping) hstart Sleeping.step).ready.fresh

theorem usleep_tick_second :
    (∃ job : Job, job.tick = 1000000 ∧
      (syscallUsleep (startTimer 1) 1000#64 0 0).2.pq.head.Perm [job]) ∧
    ∀ j ∈ (syscallUsleep (startTimer 1) 1000#64 0 0).2.pq.head, 0 ≤ j.tick := by
  have hrun : Lts.Run SleepStep ShortSleeps (startTimer 1)
      (syscallUsleep (startTimer 1) 1000#64 0 0).2 :=
    .tail (a := .usleep 1000#32 0 0) .refl
      ⟨by decide, fun msec _ _ heq _ => by cases heq; decide⟩ rfl
  have hmr1 : sosSysUsleep 1000#32 = some 1000#64 := by decide
  obtain ⟨hiff, hfresh⟩ := usleep_tick_iff (startTimer 1) 0 0 (by decide) hmr1
  exact ⟨hiff.mpr ⟨by decide, by decide⟩, hfresh 1 _ hrun⟩

lemma idle_run (nextJobId : Nat) : ∀ k, tick10000Us * k < 2 ^ 63 →
    Lts.Run SleepStep LowClock (startTimer nextJobId)
      ⟨⟨0, tick10000Us * k, []⟩, nextJobId, true⟩
  | 0, _ => .refl
  | k + 1, hlow => by
    have hword : word64 = 2 ^ 64 := rfl
    have hk : tick10000Us * (k + 1) = tick10000Us * k + tick10000Us := Nat.mul_succ _ _
    have hbefore := idle_run nextJobId k (by omega)
    have hguard : LowClock ⟨⟨0, tick10000Us * k, []⟩, nextJobId, true⟩ .interrupt := by
      show tick10000Us * k < 2 ^ 63
      omega
    refine .tail (a := .interrupt) hbefore hguard ⟨1, [], ?_⟩
    have hmod : (tick10000Us * k + tick10000Us) % word64 = tick10000Us * (k + 1) := by
      rw [hk, Nat.mod_eq_of_lt (by omega)]
    simp only [timerInterrupt, interruptLoop, pqueuePeek, List.head?_nil, if_true,
      Option.map_some, hmod]

theorem usleep_stale :
    ∃ c, Lts.Run SleepStep LowClock (startTimer 1) c ∧ c.pq.time = 3000000000 ∧
      c.pq.head.map Job.tick = [852516704] := by
  have hidle := idle_run 1 300000 (by decide)
  have hguard : LowClock ⟨⟨0, tick10000Us * 300000, []⟩, 1, true⟩ (.usleep 2147484#32 0 0) := by
    decide
  exact ⟨_, .tail hidle hguard rfl, by decide, by decide⟩

end SpaghettiOS.Clock
