import SpaghettiOS.VM.Consistency

/-!
# Faults of many processes

`frame_alloc` keeps its victim in `clock_curr` while the file server works, so two faults
that evict at the same time take the same frame.  When no fault allocates while a victim is
being written, the frames and the slots keep one owner each, in every interleaving.
-/

namespace SpaghettiOS.Vm

open Function (update)
open Coroutine (Event Pool Res)

/-! ## The log of the allocator -/

/-- The coroutine `frame_alloc` last returned the frame to, if the frame has not
been freed since and the coroutine is still going. -/
def holder : List FrameEvent → Nat → Option Int
  | [], _ => none
  | .returned co page :: log, f => if page = f then some co else holder log f
  | .freed _ page :: log, f => if page = f then none else holder log f
  | .finished co :: log, f => if holder log f = some co then none else holder log f

/-- No frame was freed or returned while another coroutine held it. -/
def NoSteal : List FrameEvent → Prop
  | [] => True
  | .returned co page :: log => (∀ d, holder log page = some d → d = co) ∧ NoSteal log
  | .freed co page :: log => (∀ d, holder log page = some d → d = co) ∧ NoSteal log
  | .finished _ :: log => NoSteal log

/-- The frames a fault was given and has not put to use for a finished page. -/
def Claim.Has (k : Claim) (f : Nat) : Prop :=
  k.page = some f ∨ k.spare = some f ∨ ∃ x, k.shape x = some f

/-- What is held according to the log is in the claim of the holder. -/
structure LogOk (log : List FrameEvent) (o : Int → Option Claim) : Prop where
  noSteal : NoSteal log
  held : ∀ f d, holder log f = some d → ∃ k, o d = some k ∧ k.Has f

/-- The same with a coroutine `c` that is about to end. -/
structure LogOver (c : Int) (log : List FrameEvent) (o : Int → Option Claim) : Prop where
  noSteal : NoSteal log
  held : ∀ f d, holder log f = some d → d ≠ c → ∃ k, o d = some k ∧ k.Has f

variable {f : Nat} {d : Int}

section Log

variable {m : Machine} {s : VmState} {u : Usage} {o : Int → Option Claim} {c : Int} {k k' : Claim}
variable {log : List FrameEvent}

lemma LogOk.claim (h : LogOk log (update o c (some k))) (hk : ∀ f, k.Has f → k'.Has f) :
    LogOk log (update o c (some k')) := by
  refine ⟨h.noSteal, fun f d hd => ?_⟩
  obtain ⟨k1, hk1, hf⟩ := h.held f d hd
  rcases eq_or_ne d c with rfl | hne
  · rw [Function.update_self] at hk1 ⊢
    cases hk1
    exact ⟨k', rfl, hk f hf⟩
  · rw [Function.update_of_ne hne] at hk1 ⊢
    exact ⟨k1, hk1, hf⟩

lemma LogOk.over (h : LogOk log (update o c (some k))) : LogOver c log (update o c none) := by
  refine ⟨h.noSteal, fun f d hd hne => ?_⟩
  obtain ⟨k1, hk1, hf⟩ := h.held f d hd
  rw [Function.update_of_ne hne] at hk1 ⊢
  exact ⟨k1, hk1, hf⟩

lemma LogOver.finished (h : LogOver c log o) : LogOk (.finished c :: log) o := by
  refine ⟨h.noSteal, fun f d hd => ?_⟩
  simp only [holder] at hd
  split at hd
  · cases hd
  · rename_i hc
    refine h.held f d hd ?_
    rintro rfl
    exact hc hd

lemma Holds.use_of_has (hm : Matches m s u) (h : Holds m s u c k) (hf : k.Has f) :
    u.frame f ≠ .free ∧ ∀ p v d, u.frame f ≠ .leaving p v d := by
  have huse : u.frame f = .fresh c ∨ u.frame f = .linked c k.vaddr ∨ u.frame f = .spare c ∨
      ∃ x, u.frame f = .table c x := by
    rcases hf with hf | hf | ⟨x, hx⟩
    · cases hl : k.linked with
      | false => exact .inl ((h.fresh f).mpr ⟨hf, hl⟩).2
      | true => exact .inr (.inl ((h.linked f k.vaddr).mpr ⟨hf, hl, rfl⟩).2)
    · exact .inr (.inr (.inl ((h.spare f).mpr hf).2))
    · rw [← h.shape] at hx
      exact .inr (.inr (.inr ⟨x, ((hm.tables c x f).mp hx).2⟩))
  rcases huse with hu | hu | hu | ⟨x, hu⟩ <;> simp [hu]

lemma LogOk.not_held (h : LogOk log o) (hm : Matches m s u) (hc : ∀ d, ClaimOk m s u d (o d))
    (hf : u.frame f = .free ∨ ∃ p v d, u.frame f = .leaving p v d) : holder log f = none := by
  cases hd : holder log f with
  | none => rfl
  | some d =>
    obtain ⟨k, hk, hhas⟩ := h.held f d hd
    have hown := hc d
    rw [hk] at hown
    obtain ⟨h1, h2⟩ := Holds.use_of_has hm hown hhas
    rcases hf with hf | ⟨p, v, d', hf⟩
    · exact absurd hf h1
    · exact absurd hf (h2 p v d')

lemma LogOk.freed (h : LogOk log o) (hf : holder log f = none) (c : Int) :
    LogOk (.freed c f :: log) o := by
  refine ⟨⟨fun d hd => ?_, h.noSteal⟩, fun g d hd => ?_⟩
  · rw [hf] at hd
    cases hd
  · simp only [holder] at hd
    split at hd
    · cases hd
    · exact h.held g d hd

lemma LogOk.returned (h : LogOk log (update o c (some k))) (hf : holder log f = none)
    {imp : Bool} (hk : k.CanTake imp) :
    LogOk (.returned c f :: log) (update o c (some (k.taking imp f))) := by
  have hhas : ∀ g, k.Has g → (k.taking imp f).Has g := by
    intro g hg
    cases imp with
    | true =>
      have hspare : k.spare = none := hk
      rcases hg with hg | hg | hg
      · exact .inl hg
      · rw [hspare] at hg
        cases hg
      · exact .inr (.inr hg)
    | false =>
      have hpage : k.page = none := hk.1
      rcases hg with hg | hg | hg
      · rw [hpage] at hg
        cases hg
      · exact .inr (.inl hg)
      · exact .inr (.inr hg)
  have hnew : (k.taking imp f).Has f := by
    cases imp with
    | true => exact .inr (.inl rfl)
    | false => exact .inl rfl
  have hother := h.claim hhas
  refine ⟨⟨fun d hd => ?_, h.noSteal⟩, fun g d hd => ?_⟩
  · rw [hf] at hd
    cases hd
  · simp only [holder] at hd
    split at hd
    · rename_i hfg
      cases hd
      rw [Function.update_self, ← hfg]
      exact ⟨_, rfl, hnew⟩
    · exact hother.held g d hd

lemma carried_log (m : Machine) (c : Int) (v : Nat) :
    Carried m c v (Served c) (fun s o => LogOk s.log o) (fun _ _ => True)
      (fun s o => LogOver c s.log o) fun s o => LogOver c s.log o where
  reply := by
    rintro _ _ s s' ⟨file, rfl⟩
    exact ⟨⟨fun _ => rfl, rfl, rfl, rfl, rfl⟩, rfl, rfl, rfl⟩
  tick _ h := h
  opened h := h
  start := by
    intro s o old hb h hnone _
    refine ⟨h.noSteal, fun f d hd => ?_⟩
    obtain ⟨k, hk, hf⟩ := h.held f d hd
    have hne : d ≠ c := by
      rintro rfl
      rw [hnone] at hk
      cases hk
    rw [Function.update_of_ne hne]
    exact ⟨k, hk, hf⟩
  sweep := by
    intro s s' o n _ h hs
    obtain ⟨k, -, -, rfl⟩ := (sweep_eq_some n).mp hs
    rw [turn_rest]
    exact h
  swapOut := by
    intro s o k f i l _ h _ _ _ _ _ _ _ _ _ _
    exact ⟨h.claim fun _ hf => hf, fun _ _ => trivial⟩
  written := by
    rintro s s' o k l data r hb h hk - - ⟨file, rfl⟩ -
    obtain ⟨u, hm, hc⟩ := hb
    obtain ⟨-, hu⟩ := ((Holds.of_update hc).leaving l.frame l.pid l.vaddr).mpr ⟨l.slot, hk⟩
    have hnone := h.not_held hm hc (.inr ⟨_, _, _, hu⟩)
    have hclaim : LogOk s.log (update o c (some { k with leaving := none })) :=
      h.claim fun _ hf => hf
    exact hclaim.freed hnone c
  take := by
    rintro s o k imp hb h rfl hroom hk
    obtain ⟨u, hm, hc⟩ := hb
    have hfree := (hm.nextFree_free hroom).2
    have hnone := h.not_held hm hc (.inl hfree)
    exact h.returned hnone hk
  addNode := by
    intro s o k f as g x hb h hspare has hadd
    have hempty : k.shape x = none := by
      obtain ⟨u, -, hc⟩ := hb
      rw [← (Holds.of_update hc).shape, tableFrame_of_procs has]
      exact hadd.empty
    refine h.claim fun g hg => ?_
    rcases hg with hg | hg | ⟨y, hy⟩
    · exact .inl hg
    · rw [hspare] at hg
      cases hg
      exact .inr (.inr ⟨x, by simp⟩)
    · refine .inr (.inr ⟨y, ?_⟩)
      have hne : y ≠ x := by
        rintro rfl
        rw [hempty] at hy
        cases hy
      simpa [hne] using hy
  sameTable h _ _ := h
  slot h _ := h.claim fun _ hf => hf
  pageMap _ h _ _ _ := h
  link _ h _ _ _ _ _ _ := h.claim fun _ hf => hf
  read := by
    rintro s s' o k f i r - h - - - - ⟨file, rfl⟩ -
    exact h.claim fun _ hf => hf
  settle _ h _ _ := h.over
  settleRead := by
    intro s o k f _ h _ _
    rw [VmState.log_setFrame, VmState.log_copyTo]
    exact h.over
  remap := by
    intro s o f _ h _ _ _ t mapped
    have hover : LogOver c s.log o := ⟨h.noSteal, fun f d hd _ => h.held f d hd⟩
    cases mapped with
    | false => exact hover
    | true => exact hover

end Log

/-! ## Faults in flight -/

abbrev FaultPool := Pool VmState NfsReq NfsReply Abort Int

/-- One stretch of one fault: a process faults, or the file server answers one of
the faults that wait. -/
def FaultStep (m : Machine) : FaultPool → Event Int (Fin (2 ^ 48)) NfsReply → FaultPool → Prop :=
  Pool.Step (fun pid (faultaddress : Fin (2 ^ 48)) => faultCo m pid faultaddress) Served

def idle (s : VmState) : FaultPool := ⟨s, fun _ => none⟩

def Writes (p : FaultPool) (pid : Int) : Prop :=
  ∃ offset len data k, p.waiting pid = some (.write offset len data, k)

def Reads (p : FaultPool) (pid : Int) (i : Nat) : Prop :=
  ∃ k, p.waiting pid = some (.read (i * pageSize) pageSize, k)

/-- A fault that needs a frame does not come while a victim is being written. -/
def AllocatesAlone (p : FaultPool) : Event Int (Fin (2 ^ 48)) NfsReply → Prop
  | .start pid faultaddress => (∀ d, ¬ Writes p d) ∨
      ∃ f, p.state.pte pid (pageAlign faultaddress) = .frame f
  | .resume _ _ => True

/-- Every frame and every slot has one owner at most. -/
structure OneOwner (p : FaultPool) : Prop where
  frames : ∀ q v q' v' f, PageAddr v → PageAddr v' → p.state.pte q v = .frame f →
    p.state.pte q' v' = .frame f → q = q' ∧ v = v'
  /-- No frame of a fault in flight was freed or given to another fault. -/
  held : NoSteal p.state.log
  /-- A slot in use is named by one entry, or one fault is reading it back. -/
  slots : ∀ i < p.state.pfList.size, i ∉ p.state.pfList.free →
    ((∃! x : Int × Nat, PageAddr x.2 ∧ p.state.pte x.1 x.2 = .pagefile i) ∧ ∀ d, ¬ Reads p d i) ∨
      ((∀ q v, PageAddr v → p.state.pte q v ≠ .pagefile i) ∧ ∃! d, Reads p d i)

section Pool

variable {m : Machine} {p : FaultPool} {toks : Int → Option Claim}

/-- The books and the log, at every suspension. -/
abbrev FaultInv (m : Machine) : VmState → (Int → Option Claim) → Prop :=
  Inv m fun s o => LogOk s.log o

section Tokens

variable (hp : p.Ok (FaultInv m) Fits Served toks)

include hp

lemma waiting_of_claim {k : Claim}
    (hk : toks d = some k) : ∃ i r, p.waiting d = some (i, r) ∧ Fits i k := by
  have hd := hp.2 d
  rw [hk] at hd
  cases hw : p.waiting d with
  | none => simp [hw] at hd
  | some x =>
    simp only [hw] at hd
    exact ⟨x.1, x.2, rfl, hd.1⟩

lemma claim_of_waiting {i : NfsReq}
    {r : NfsReply → VmState → Res VmState NfsReq NfsReply Abort Unit}
    (hw : p.waiting d = some (i, r)) : ∃ k, toks d = some k ∧ Fits i k := by
  have hd := hp.2 d
  cases hk : toks d with
  | none => simp [hw, hk] at hd
  | some k =>
    simp only [hw, hk] at hd
    exact ⟨k, rfl, hd.1⟩

lemma reads_iff {i : Nat} :
    Reads p d i ↔ ∃ k, toks d = some k ∧ k.linked = true ∧ k.old = some i := by
  constructor
  · rintro ⟨r, hw⟩
    obtain ⟨k, hk, j, hold, hl, -, hj, -⟩ := claim_of_waiting hp hw
    have hij : i = j := by
      unfold pageSize at hj
      omega
    exact ⟨k, hk, hl, hij ▸ hold⟩
  · rintro ⟨k, hk, hl, hold⟩
    obtain ⟨req, r, hw, hfit⟩ := waiting_of_claim hp hk
    cases req with
    | write offset len data =>
      obtain ⟨-, -, hl', -⟩ := hfit
      rw [hl] at hl'
      cases hl'
    | read offset len =>
      obtain ⟨j, hold', -, -, rfl, rfl⟩ := hfit
      rw [hold] at hold'
      cases hold'
      exact ⟨r, hw⟩

lemma noLeaving_of_noWrites (hno : ∀ d, ¬ Writes p d) (c : Int) : NoLeaving c toks := by
  intro d k _ hk
  obtain ⟨req, r, hw, hfit⟩ := waiting_of_claim hp hk
  cases req with
  | write offset len data => exact absurd ⟨offset, len, data, r, hw⟩ (hno d)
  | read offset len =>
    obtain ⟨-, -, -, hleave, -⟩ := hfit
    exact hleave

end Tokens

lemma FaultStep.ok (halloc : ∀ t, m.allocOk t = true) {p' : FaultPool}
    {e : Event Int (Fin (2 ^ 48)) NfsReply} (hp : p.Ok (FaultInv m) Fits Served toks)
    (hguard : AllocatesAlone p e) (h : FaultStep m p e p') :
    ∃ toks', p'.Ok (FaultInv m) Fits Served toks' := by
  refine hp.step ?_ h
  rintro c ⟨fa, hfa⟩ rfl hnone
  obtain ⟨hb, hlog⟩ := hp.1
  have halone : NoLeaving c toks ∨ ∃ f, p.state.pte c (pageAlign fa) = .frame f :=
    hguard.imp (fun hno => noLeaving_of_noWrites hp hno c) id
  have hlog' : LogOk { p.state with running := c }.log toks := hlog
  refine (faultCo_ok (carried_log m c _) halloc hb hlog' hnone hfa halone).mono ?_
  rintro _ s' o' ⟨s1, hafter, rfl⟩
  obtain ⟨hb1, hover⟩ := hafter.over
  exact ⟨hb1.congr ⟨fun _ => rfl, rfl, rfl, rfl, rfl⟩ rfl (.inr rfl), hover.finished⟩

lemma OneOwner.of_ok (hp : p.Ok (FaultInv m) Fits Served toks) : OneOwner p := by
  obtain ⟨⟨u, hm, hc⟩, hlog⟩ := hp.1
  refine ⟨fun q v q' v' f hv hv' hq hq' => ?_, hlog.noSteal, fun i hi hfree => ?_⟩
  · have h1 := ((hm.framed q v f hv).mp hq).2
    have h2 := ((hm.framed q' v' f hv').mp hq').2
    grind
  · have hread : ∀ d, Reads p d i ↔ u.slot i = .reading d := by
      intro d
      rw [reads_iff hp]
      have hd := hc d
      constructor
      · rintro ⟨k, hk, hl, hold⟩
        rw [hk] at hd
        exact ((Holds.reading hd i).mpr ⟨hl, hold⟩).2
      · intro hu
        cases hk : toks d with
        | none =>
          rw [hk] at hd
          exact absurd hu (hd.2 i hi)
        | some k =>
          rw [hk] at hd
          exact ⟨k, rfl, (Holds.reading hd i).mp ⟨hi, hu⟩⟩
    cases hu : u.slot i with
    | free => exact absurd ((hm.freeSlots.2 i).mpr ⟨hi, hu⟩) hfree
    | page q v =>
      have hv := hm.slotAddr i q v hi hu
      refine .inl ⟨⟨(q, v), ⟨hv, (hm.swapped q v i hv).mpr ⟨hi, hu⟩⟩, ?_⟩, fun d hd => ?_⟩
      · rintro ⟨q', v'⟩ ⟨hv', hq'⟩
        have h2 := ((hm.swapped q' v' i hv').mp hq').2
        rw [hu] at h2
        cases h2
        rfl
      · rw [hread, hu] at hd
        cases hd
    | reading d =>
      refine .inr ⟨fun q v hv hq => ?_, d, (hread d).mpr hu, fun d' hd' => ?_⟩
      · have h2 := ((hm.swapped q v i hv).mp hq).2
        rw [hu] at h2
        cases h2
      · have h2 := (hread d').mp hd'
        rw [hu] at h2
        cases h2
        rfl

/-- Once the pagefile is open, in every interleaving in which no fault needs a frame while
a victim is being written, frames and slots have one owner. -/
theorem faults_one_owner (halloc : ∀ t, m.allocOk t = true) {s : VmState} (hc : Consistent m s)
    (hw : WellFormed m s) (hopen : s.pfVnode = true) (hlog : s.log = [])
    (hrun : Lts.Run (FaultStep m) AllocatesAlone (idle s) p) : OneOwner p := by
  have hstart : ∃ toks, (idle s).Ok (FaultInv m) Fits Served toks := by
    refine ⟨fun _ => none, ⟨(settled_usageOf hc hw (.inl hopen)).toBooks, ?_⟩, fun _ => trivial⟩
    show LogOk s.log _
    rw [hlog]
    exact ⟨trivial, fun _ _ hd => nomatch hd⟩
  obtain ⟨toks, hp⟩ := hrun.invariant (I := fun p => ∃ toks, p.Ok (FaultInv m) Fits Served toks)
    hstart fun ⟨toks, hp⟩ hguard hstep => FaultStep.ok halloc hp hguard hstep
  exact OneOwner.of_ok hp

end Pool

/-- Plays a schedule of faults, the file server taking and returning whole pages. -/
def playFaults (m : Machine) (l : List (Int × Option (Fin (2 ^ 48)))) (s : VmState) :
    Option FaultPool :=
  Pool.play (fun pid (faultaddress : Fin (2 ^ 48)) => faultCo m pid faultaddress) wholePages l
    (idle s)

theorem faults_one_owner_evicting :
    ∃ p, Lts.Run (FaultStep (grantingMachine 12)) AllocatesAlone
        (idle (smallSystem 0 true)) p ∧
      p.state.pte 1 0x1000 = .pagefile 1 ∧ p.state.pte 2 0x2000 = .frame 10 ∧ OneOwner p := by
  obtain ⟨p, hplay, h1, h2⟩ := Lts.exists_of_any
    (o := playFaults (grantingMachine 12) [(2, some 0x2000), (2, none)]
      (smallSystem 0 true))
    (P := fun p => p.state.pte 1 0x1000 = .pagefile 1 ∧ p.state.pte 2 0x2000 = .frame 10)
    (by decide +kernel)
  obtain ⟨p₁, hstart, hplay₁⟩ := Pool.play_start hplay
  obtain ⟨r, p₂, hanswer, hplay₂⟩ := Pool.play_answer served_wholePages hplay₁
  cases hplay₂
  have hguard : AllocatesAlone (idle (smallSystem 0 true)) (.start 2 0x2000) :=
    Or.inl fun d hd => by simp [Writes, idle] at hd
  have hrun : Lts.Run (FaultStep (grantingMachine 12)) AllocatesAlone
      (idle (smallSystem 0 true)) p :=
    .tail (.tail .refl hguard hstart) (show AllocatesAlone p₁ (.resume 2 r) from trivial) hanswer
  exact ⟨p, hrun, h1, h2, faults_one_owner (fun _ => rfl) (consistent_smallSystem true rfl)
    (wellFormed_smallSystem true rfl) rfl rfl hrun⟩

theorem racing_evictions_share_frame :
    Consistent (grantingMachine 12) (smallSystem 0 true) ∧
      WellFormed (grantingMachine 12) (smallSystem 0 true) ∧
      (smallSystem 0 true).frameTableCurrSize = (grantingMachine 12).frameTableSize ∧
      ∃ p, Lts.Run (FaultStep (grantingMachine 12)) Lts.anyStep
          (idle (smallSystem 0 true)) p ∧
        p.state.pte 1 0x2000 = .frame 10 ∧ p.state.pte 2 0x2000 = .frame 10 := by
  refine ⟨consistent_smallSystem true rfl, wellFormed_smallSystem true rfl, rfl, ?_⟩
  obtain ⟨p, hplay, hpte⟩ := Lts.exists_of_any
    (o := playFaults (grantingMachine 12)
      [(1, some 0x2000), (2, some 0x2000), (1, none), (2, none)] (smallSystem 0 true))
    (P := fun p => p.state.pte 1 0x2000 = .frame 10 ∧ p.state.pte 2 0x2000 = .frame 10)
    (by decide +kernel)
  exact ⟨p, Pool.run_of_play served_wholePages hplay, hpte⟩

end SpaghettiOS.Vm
