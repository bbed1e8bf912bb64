import SpaghettiOS.VM.Bookkeeping

/-!
# A whole page fault

`vm_fault` keeps the books, from any state and whatever else runs while it is
suspended.  The proof goes through the code once, for the books together with one
more predicate `D` of the state and the claims; `Carried` lists what `D` has to survive.
-/

namespace SpaghettiOS.Vm

open Function (update)
open Coro (bind_apply get_apply modify_apply pure_apply set_apply)
open Coroutine (Res)
open Coroutine.Res (Ok)

/-- The claim a request for the file server is made under. -/
def Fits : NfsReq → Claim → Prop
  | .write offset len _, k =>
      ∃ l, k.leaving = some l ∧ k.linked = false ∧ offset = l.slot * pageSize ∧ len = pageSize
  | .read offset len, k =>
      ∃ i, k.old = some i ∧ k.linked = true ∧ k.leaving = none ∧ offset = i * pageSize ∧
        len = pageSize

/-- Nothing is left to do but to give the frame its owner. -/
structure Claim.Done (k : Claim) : Prop where
  linked : k.linked = true
  old : k.old = none
  spare : k.spare = none
  leaving : k.leaving = none
  cap : k.cap ≠ 0

/-- A predicate `D` that every step of the fault of process `c` at page `v` carries along while
the fault is in flight, `E` once it is over, and `R` if the page was then read back. `Sent l
data` says what is known of the bytes on their way to the pagefile. -/
structure Carried (m : Machine) (c : Int) (v : Nat)
    (env : NfsReq → NfsReply → VmState → VmState → Prop)
    (D : VmState → (Int → Option Claim) → Prop) (Sent : Leaving → (Nat → UInt8) → Prop)
    (E R : VmState → (Int → Option Claim) → Prop) : Prop where
  reply : ∀ {i r s s'}, env i r s s' →
    SameBooks s s' ∧ s'.clockCurr = s.clockCurr ∧ s'.pfVnode = s.pfVnode ∧ s'.running = c
  tick : ∀ {s o} t, D s o → D { s with time := t } o
  opened : ∀ {s o}, D s o → D { s with pfVnode := true } o
  start : ∀ {s o old}, Books m s o → D s o → o c = none →
    s.pte c v = (Claim.begin v old (s.tableFrame c)).entry →
    D s (update o c (some (.begin v old (s.tableFrame c))))
  sweep : ∀ {s s' o n}, Books m s o → D s o → sweep m n s = some s' → D s' o
  swapOut : ∀ {s o k f i l}, Books m s (update o c (some k)) → D s (update o c (some k)) →
    k.leaving = none → k.linked = false → NoLeaving c o → f < m.frameTableSize → s.allocated f →
    (s.frameTable f).important = false → PageAddr (s.frameTable f).userVaddr →
    s.pte (s.frameTable f).pid (s.frameTable f).userVaddr = .frame f →
    nextFreeNode s.pfList = (i, l) → i < 2 ^ 52 →
    D ((s.swapOut (s.frameTable f).pid (s.frameTable f).userVaddr i l).copyTo
        (m.getBufFromPid kernelProc) pageSize fun j => s.mem (m.pageNumToVaddr f + j))
      (update o c (some { k with
        leaving := some ⟨f, (s.frameTable f).pid, (s.frameTable f).userVaddr, i⟩ })) ∧
      ∀ data, (∀ j < pageSize, data j = s.mem (m.pageNumToVaddr f + j)) →
        Sent ⟨f, (s.frameTable f).pid, (s.frameTable f).userVaddr, i⟩ data
  written : ∀ {s s' o k l data r}, Books m s (update o c (some k)) →
    D s (update o c (some k)) → k.leaving = some l → k.linked = false → Sent l data →
    env (.write (l.slot * pageSize) pageSize data) r s s' → r.status = pageSize →
    D (s'.release l.frame) (update o c (some { k with leaving := none }))
  take : ∀ {s o k imp}, Books m s (update o c (some k)) → D s (update o c (some k)) →
    s.running = c → s.frameTableCurrSize < m.frameTableSize → k.CanTake imp →
    D (s.take m imp s.nextFreePage) (update o c (some (k.taking imp s.nextFreePage)))
  addNode : ∀ {s o k f as g x}, Books m s (update o c (some k)) → D s (update o c (some k)) →
    k.spare = some f → s.procs c = some as → AddsNode x as.pt (g as.pt) f → D (s.modifyTable c g)
      (update o c (some { k with spare := none, shape := update k.shape x (some f) }))
  sameTable : ∀ {s o g}, D s o → (∀ t : PageTable, (g t).word = t.word) →
    (∀ t : PageTable, (g t).frameAt = t.frameAt) → D (s.modifyTable c g) o
  slot : ∀ {s o k}, D s (update o c (some k)) → k.cap = 0 →
    D { s with nextSlot := s.nextSlot + 1 } (update o c (some { k with cap := s.nextSlot + 1 }))
  pageMap : ∀ {s o k f}, Books m s (update o c (some k)) → D s (update o c (some k)) →
    k.page = some f → k.linked = false → k.cap ≠ 0 →
    D (s.pageMap c k.vaddr k.cap allRights f) (update o c (some k))
  link : ∀ {s o k f as}, Books m s (update o c (some k)) → D s (update o c (some k)) →
    k.page = some f → k.linked = false → k.leaving = none → NoLeaving c o →
    s.procs c = some as → as.pt.word (getPtIndex k.vaddr) ≠ none →
    D (s.modifyTable c fun t => t.setWord (getPtIndex k.vaddr) (BitVec.ofNat 64 f))
      (update o c (some { k with linked := true }))
  read : ∀ {s s' o k f i r}, Books m s (update o c (some k)) → D s (update o c (some k)) →
    k.page = some f → k.linked = true → k.old = some i → k.leaving = none →
    env (.read (i * pageSize) pageSize) r s s' → r.status = pageSize →
    D (((s'.copyTo (m.getBufFromPid kernelProc) pageSize r.data).copyTo
        (m.pageNumToVaddr f) pageSize fun j =>
          (s'.copyTo (m.getBufFromPid kernelProc) pageSize r.data).mem
            (m.getBufFromPid kernelProc + j)).addFree i)
      (update o c (some { k with old := none }))
  settle : ∀ {s o k f}, Books m s (update o c (some k)) → D s (update o c (some k)) →
    k.page = some f → k.Done →
    E (s.setFrame f fun e => { e with pid := c, userVaddr := k.vaddr, userCap := k.cap })
      (update o c none)
  settleRead : ∀ {s o k f}, Books m s (update o c (some k)) → D s (update o c (some k)) →
    k.page = some f → k.Done →
    R ((s.copyTo (m.getBufFromPid c) pageSize fun j => s.mem (m.sharedBufBegin + j)).setFrame f
        fun e => { e with pid := c, userVaddr := k.vaddr, userCap := k.cap })
      (update o c none)
  remap : ∀ {s o f}, Books m s o → D s o → o c = none → PageAddr v →
    s.pte c v = .frame f → ∀ t, ∀ mapped : Bool, E (VmState.setFrame
        (if mapped then
          { s.setFrame f fun e => { e with pid := c } with time := t }.pageMap c v
            (s.frameTable f).userCap allRights f
        else { s.setFrame f fun e => { e with pid := c } with time := t })
        f fun e => { e with refBit := true }) o

lemma Carried.and {m : Machine} {c : Int} {v : Nat}
    {env : NfsReq → NfsReply → VmState → VmState → Prop}
    {D D' E E' R R' : VmState → (Int → Option Claim) → Prop}
    {Sent Sent' : Leaving → (Nat → UInt8) → Prop} (h : Carried m c v env D Sent E R)
    (h' : Carried m c v env D' Sent' E' R') :
    Carried m c v env (fun s o => D s o ∧ D' s o) (fun l data => Sent l data ∧ Sent' l data)
      (fun s o => E s o ∧ E' s o) (fun s o => R s o ∧ R' s o) where
  reply := h.reply
  tick t hd := ⟨h.tick t hd.1, h'.tick t hd.2⟩
  opened hd := ⟨h.opened hd.1, h'.opened hd.2⟩
  start hb hd hnone hentry := ⟨h.start hb hd.1 hnone hentry, h'.start hb hd.2 hnone hentry⟩
  sweep hb hd hs := ⟨h.sweep hb hd.1 hs, h'.sweep hb hd.2 hs⟩
  swapOut := by
    intro s o k f i l hb hd hk hl hno hf hcap himp hv hpte hnext hi
    obtain ⟨h1, hsent₁⟩ := h.swapOut hb hd.1 hk hl hno hf hcap himp hv hpte hnext hi
    obtain ⟨h2, hsent₂⟩ := h'.swapOut hb hd.2 hk hl hno hf hcap himp hv hpte hnext hi
    exact ⟨⟨h1, h2⟩, fun data hdata => ⟨hsent₁ data hdata, hsent₂ data hdata⟩⟩
  written hb hd hk hl hsent henv hr :=
    ⟨h.written hb hd.1 hk hl hsent.1 henv hr, h'.written hb hd.2 hk hl hsent.2 henv hr⟩
  take hb hd hrun hroom hk := ⟨h.take hb hd.1 hrun hroom hk, h'.take hb hd.2 hrun hroom hk⟩
  addNode hb hd hs has hadd := ⟨h.addNode hb hd.1 hs has hadd, h'.addNode hb hd.2 hs has hadd⟩
  sameTable hd hword hframe := ⟨h.sameTable hd.1 hword hframe, h'.sameTable hd.2 hword hframe⟩
  slot hd hcap := ⟨h.slot hd.1 hcap, h'.slot hd.2 hcap⟩
  pageMap hb hd hp hl hcap := ⟨h.pageMap hb hd.1 hp hl hcap, h'.pageMap hb hd.2 hp hl hcap⟩
  link hb hd hp hl hk hno has hword :=
    ⟨h.link hb hd.1 hp hl hk hno has hword, h'.link hb hd.2 hp hl hk hno has hword⟩
  read hb hd hp hl hold hk henv hr :=
    ⟨h.read hb hd.1 hp hl hold hk henv hr, h'.read hb hd.2 hp hl hold hk henv hr⟩
  settle hb hd hp hk := ⟨h.settle hb hd.1 hp hk, h'.settle hb hd.2 hp hk⟩
  settleRead hb hd hp hk := ⟨h.settleRead hb hd.1 hp hk, h'.settleRead hb hd.2 hp hk⟩
  remap hb hd hnone hv hpte t mapped :=
    ⟨h.remap hb hd.1 hnone hv hpte t mapped, h'.remap hb hd.2 hnone hv hpte t mapped⟩

def Inv (m : Machine) (D : VmState → (Int → Option Claim) → Prop) (s : VmState)
    (o : Int → Option Claim) : Prop := Books m s o ∧ D s o

/-- Coroutine `c` runs with claim `k`, and no other is writing a frame out. -/
structure Own (m : Machine) (D : VmState → (Int → Option Claim) → Prop) (c : Int) (k : Claim)
    (s : VmState) (o : Int → Option Claim) : Prop where
  books : Books m s (update o c (some k))
  extra : D s (update o c (some k))
  alone : NoLeaving c o
  running : s.running = c

lemma Books.alone {m : Machine} {s : VmState} {o : Int → Option Claim} {c : Int} {k : Claim}
    (hb : Books m s (update o c (some k))) {l : Leaving} (hk : k.leaving = some l) :
    NoLeaving c o ∧ s.clockCurr = l.frame ∧ l.frame < m.frameTableSize := by
  obtain ⟨u, hm, hc⟩ := hb
  have hown := Holds.of_update hc
  obtain ⟨hf, hu⟩ := (hown.leaving l.frame l.pid l.vaddr).mpr ⟨l.slot, hk⟩
  have hclock := (hm.leaving _ _ _ _ hf hu).1
  refine ⟨fun d k' hd hod => ?_, hclock, hf⟩
  by_contra hne
  obtain ⟨l', hl'⟩ := Option.ne_none_iff_exists'.mp hne
  have hdc := hc d
  rw [Function.update_of_ne hd, hod] at hdc
  obtain ⟨hf', hu'⟩ := (Holds.leaving hdc l'.frame l'.pid l'.vaddr).mpr ⟨l'.slot, hl'⟩
  have hclock' := (hm.leaving _ _ _ _ hf' hu').1
  rw [← hclock', hclock, hu] at hu'
  exact hd (FrameUse.leaving.inj hu').2.2.symm

lemma FrameOk.allocated {e : FrameTableEntry} {x : FrameUse} (h : FrameOk e x) :
    e.cap = 0 ↔ x = .free := by
  cases x with
  | free => simpa [FrameOk] using h
  | kernel | table _ _ | spare _ | page _ _ | leaving _ _ _ | fresh _ | linked _ _ =>
    simpa [FrameOk] using h.1

lemma Books.full_iff {m : Machine} {s : VmState} {o : Int → Option Claim} (hb : Books m s o) :
    s.frameTableCurrSize = m.frameTableSize ↔ ∀ f < m.frameTableSize, s.allocated f := by
  obtain ⟨u, hm, -⟩ := hb
  obtain ⟨l, hl⟩ := hm.freeFrames
  have hcount := hl.count
  constructor
  · intro hfull f hf hcap
    have hnil : l = [] := List.length_eq_zero_iff.mp (by omega)
    have hmem := (hl.mem_iff f).mpr ⟨hf, (hm.frames f hf).allocated.mp hcap⟩
    simp [hnil] at hmem
  · intro hall
    cases l with
    | nil => simpa using hcount
    | cons f l =>
      obtain ⟨hf, hfree⟩ := (hl.mem_iff f).mp (by simp)
      exact absurd ((hm.frames f hf).allocated.mpr hfree) (hall f hf)

lemma Books.currSize_le {m : Machine} {s : VmState} {o : Int → Option Claim}
    (hb : Books m s o) : s.frameTableCurrSize ≤ m.frameTableSize := by
  obtain ⟨u, hm, -⟩ := hb
  obtain ⟨l, hl⟩ := hm.freeFrames
  have hcount := hl.count
  omega

lemma turn_sameBooks (m : Machine) (s : VmState) (n : Nat) : SameBooks s (turn m s n) := by
  have hrest := turn_rest (m := m) (s := s) n
  refine ⟨fun f => ?_, ?_, ?_, ?_, ?_⟩
  · rw [turn_frame]
    rfl
  all_goals
    rw [hrest]

lemma sweep_sameBooks {m : Machine} {s s' : VmState} {n : Nat}
    (hclock : s.clockCurr < m.frameTableSize) (h : sweep m n s = some s') :
    SameBooks s s' ∧ s'.clockCurr < m.frameTableSize ∧ s'.pfVnode = s.pfVnode ∧
      s'.running = s.running := by
  obtain ⟨k, -, -, rfl⟩ := (sweep_eq_some n).mp h
  refine ⟨turn_sameBooks m s k, ?_, ?_, ?_⟩
  · rw [turn_clockCurr hclock]
    exact ahead_lt k
  · rw [turn_rest]
  · rw [turn_rest]

section Fault

variable {m : Machine} {c : Int} {v : Nat}
variable {env : NfsReq → NfsReply → VmState → VmState → Prop}
variable {D : VmState → (Int → Option Claim) → Prop} {Sent : Leaving → (Nat → UInt8) → Prop}
variable {E R : VmState → (Int → Option Claim) → Prop}
variable {s s' : VmState} {o : Int → Option Claim} {k : Claim}

lemma Own.same (h : Own m D c k s o) (hs : SameBooks s s')
    (hclock : s'.clockCurr = s.clockCurr) (hopens : s'.pfVnode = true ∨ s'.pfVnode = s.pfVnode)
    (hD : D s' (update o c (some k))) (hrun : s'.running = s.running) : Own m D c k s' o :=
  ⟨h.books.congr hs hclock hopens, hD, h.alone, hrun.trans h.running⟩

variable (hC : Carried m c v env D Sent E R)

include hC

lemma Own.tick (h : Own m D c k s o) (t : Nat) :
    Own m D c k { s with time := t } o :=
  h.same ⟨fun _ => rfl, rfl, rfl, rfl, rfl⟩ rfl (.inr rfl) (hC.tick t h.extra) rfl

omit hC in
lemma Own.clock_lt (h : Own m D c k s o) : s.clockCurr < m.frameTableSize := by
  obtain ⟨u, hm, -⟩ := h.books
  exact hm.clock

omit hC in
lemma Own.no_leaving (h : Own m D c k s o) (hk : k.leaving = none) (d : Int) (k' : Claim)
    (hd : update o c (some k) d = some k') : k'.leaving = none := by
  rcases eq_or_ne d c with rfl | hne
  · rw [Function.update_self] at hd
    cases hd
    exact hk
  · rw [Function.update_of_ne hne] at hd
    exact h.alone d k' hne hd

lemma Own.sweep (h : Own m D c k s o) (hk : k.leaving = none)
    {n : Nat} (hs : Vm.sweep m n s = some s') : Own m D c k s' o := by
  obtain ⟨hsame, hclock, hopen, hrun⟩ := sweep_sameBooks h.clock_lt hs
  exact ⟨h.books.moveClock hsame hclock hopen (h.no_leaving hk), hC.sweep h.books h.extra hs,
    h.alone, hrun.trans h.running⟩

lemma ensureOpen_ok (h : Own m D c k s o) : (ensureOpen m s).Ok (Inv m D) Fits env c
      (fun opened s' o => opened = true ∧ Own m D c k s' o ∧ s'.frameTable = s.frameTable ∧
        s'.clockCurr = s.clockCurr) o := by
  by_cases hopen : s.pfVnode = true
  · simp only [ensureOpen, bind_apply, get_apply, Res.bind, if_pos hopen]
    exact ⟨rfl, h, rfl, rfl⟩
  · have hok : m.openOk s.time = true := by
      obtain ⟨u, hm, -⟩ := h.books
      exact hm.opens.resolve_left hopen s.time
    simp only [ensureOpen, pagefileOpen, ask, bind_apply, get_apply, set_apply,
      pure_apply, Res.bind, if_neg hopen, if_pos hok]
    refine ⟨rfl, (h.tick hC (s.time + 1)).same ⟨fun _ => rfl, rfl, rfl, rfl, rfl⟩ rfl (.inl rfl)
      (hC.opened (hC.tick _ h.extra)) rfl, rfl, rfl⟩

omit hC in
lemma shareBufCheckLen_pageSize : shareBufCheckLen pageSize = pageSize := by decide

omit hC in
lemma mem_copyTo {dst len j : Nat} {src : Nat → UInt8} (hj : j < len) :
    (s.copyTo dst len src).mem (dst + j) = src j := by
  simp [VmState.copyTo, hj]

lemma pageoutVictim_ok (h : Own m D c k s o) (hk : k.leaving = none) (hl : k.linked = false)
    {page : Nat} (hclock : s.clockCurr = page) (hcap : s.allocated page) :
    (pageoutVictim m page s).Ok (Inv m D) Fits env c
      (fun ind s' o => ∃ l : Leaving, l.frame = page ∧ l.slot = ind ∧
        Own m D c { k with leaving := some l } s' o ∧
          Sent l fun j => s'.mem (m.getBufFromPid kernelProc + j)) o := by
  have hlt : page < m.frameTableSize := hclock ▸ h.clock_lt
  simp only [pageoutVictim, sosCopyin, bind_apply, get_apply, Res.bind, shareBufCheckLen_pageSize]
  refine Ok.ofOption_bind fun fte hfte => ?_
  obtain rfl : s.frameTable page = fte := by
    rw [Machine.getFrame, if_neg (by omega)] at hfte
    exact Option.some.inj hfte
  refine Ok.check_bind fun hpid => Ok.check_bind fun himp => ?_
  refine Ok.ofOption_bind fun as has => Ok.ofOption_bind fun w hw => ?_
  simp only [bind_apply, set_apply, modify_apply, Res.bind]
  refine Ok.check_bind fun hnum => ?_
  simp only [bind_apply, modify_apply, pure_apply, Res.bind]
  refine Ok.check_bind fun _ => ?_
  obtain ⟨⟨i, l⟩, hnext⟩ : ∃ x, nextFreeNode s.pfList = x := ⟨_, rfl⟩
  simp only [hnext] at hnum ⊢
  have hi : i < 2 ^ 52 := by
    rw [pageEntryNumber_update] at hnum
    omega
  obtain ⟨u, hm, hc⟩ := h.books
  have hu := hm.victim hc hk h.alone hlt hcap himp hpid.1
  have hv : PageAddr (s.frameTable page).userVaddr := by
    have hok := hm.frames page hlt
    rw [hu] at hok
    exact hok.2.2.2.2.2
  have hpte := (hm.framed _ _ page hv).mpr ⟨hlt, .inl hu⟩
  obtain ⟨hD, hsent⟩ := hC.swapOut h.books h.extra hk hl h.alone hlt hcap himp hv hpte hnext hi
  have hbooks := h.books.swapOut hk h.alone hclock hcap himp hpid.1 hnext hi
  refine ⟨_, rfl, rfl, ⟨hbooks.congr ⟨fun _ => rfl, rfl, rfl, rfl, rfl⟩ rfl (.inr rfl), hD, h.alone,
    h.running⟩, hsent _ fun j hj => mem_copyTo hj⟩

/-- The file server has taken the bytes of a frame that is on its way out. -/
def Written (m : Machine) (env : NfsReq → NfsReply → VmState → VmState → Prop)
    (D : VmState → (Int → Option Claim) → Prop) (Sent : Leaving → (Nat → UInt8) → Prop)
    (c : Int) (k : Claim) (s' : VmState) (o : Int → Option Claim) : Prop :=
  ∃ s l r data, Inv m D s (update o c (some { k with leaving := some l })) ∧ Sent l data ∧
    env (.write (l.slot * pageSize) pageSize data) r s s' ∧ r.status = pageSize

omit hC in
lemma vnfsWrite_ok {J : VmState → (Int → Option Claim) → Prop} {offset : Nat}
    (hfit : ∀ data, Fits (.write offset pageSize data) k) (hJ : J s (update o c (some k))) :
    (vnfsWrite m offset pageSize s).Ok J Fits env c
      (fun (n : Nat) s' o => ∃ s1 r, J s1 (update o c (some k)) ∧
        env (.write offset pageSize fun j => s.mem (m.getBufFromPid kernelProc + j)) r s1 s' ∧
          r.status = n) o := by
  refine Ok.yield_bind k (hfit _) hJ fun r s1 s2 o' h1 henv => ?_
  refine Ok.check_bind fun hstatus => ?_
  exact ⟨s1, r, h1, henv, (Int.toNat_of_nonneg hstatus).symm⟩

lemma pageout_ok (h : Own m D c k s o) (hk : k.leaving = none) (hl : k.linked = false)
    {page : Nat} (hclock : s.clockCurr = page) (hcap : s.allocated page) :
    (pageout m page s).Ok (Inv m D) Fits env c (fun _ s' o => Written m env D Sent c k s' o) o := by
  refine Ok.bind (ensureOpen_ok hC h) ?_
  rintro _ s1 o1 ⟨rfl, h1, hft, hcl⟩
  have hcap1 : s1.allocated page := by
    rw [VmState.allocated, hft]
    exact hcap
  refine Ok.bind (pageoutVictim_ok hC h1 hk hl (hcl.trans hclock) hcap1) ?_
  rintro ind s2 o2 ⟨l, -, rfl, h2, hsent⟩
  refine Ok.bind (vnfsWrite_ok (k := { k with leaving := some l })
    (fun _ => ⟨l, rfl, hl, rfl, rfl⟩) ⟨h2.books, h2.extra⟩) ?_
  rintro n s4 o3 ⟨s3, r, h3, henv, hstatus⟩
  refine Ok.check_bind fun hlen => ?_
  exact ⟨s3, l, r, _, h3, hsent, henv, by rw [hstatus, hlen]⟩

omit hC in
lemma Claim.leaving_restore {k : Claim} (hk : k.leaving = none) (l : Option Leaving) :
    { { k with leaving := l } with leaving := none } = k := by
  cases k
  simp_all

lemma evict_ok (h : Own m D c k s o) (hk : k.leaving = none) (hl : k.linked = false)
    (hfull : s.frameTableCurrSize = m.frameTableSize) : (evict m s).Ok (Inv m D) Fits env c
      (fun page s' o => Own m D c k s' o ∧ page = s'.nextFreePage ∧
        s'.frameTableCurrSize < m.frameTableSize) o := by
  simp only [evict, bind_apply, get_apply, Res.bind]
  refine Ok.ofOption_bind fun swept hswept => ?_
  have h1 := h.sweep hC hk hswept
  have hcap : swept.allocated swept.clockCurr := by
    obtain ⟨hsame, hclock, -⟩ := sweep_sameBooks h.clock_lt hswept
    refine h1.books.full_iff.mp ?_ _ hclock
    rw [hsame.currSize, hfull]
  simp only [bind_apply, set_apply, Res.bind]
  refine Ok.bind (pageout_ok hC h1 hk hl rfl hcap) ?_
  rintro _ s2 o2 ⟨s1, l, r, data, ⟨hbooks, hD⟩, hsent, henv, hstatus⟩
  obtain ⟨halone, hclock, hlt⟩ := hbooks.alone rfl
  obtain ⟨hsame, hclock₂, hopen, hrun⟩ := hC.reply henv
  have hclock₂ : s2.clockCurr = l.frame := hclock₂.trans hclock
  simp only [frameFree, bind_apply, get_apply, Res.bind, hclock₂]
  rw [if_neg (by omega : ¬ l.frame > m.frameTableSize)]
  simp only [bind_apply]
  refine Ok.bind (Ok.check_bind (Q := fun _ s' o' => s' = s2.release l.frame ∧ o' = o2)
    fun _ => ⟨rfl, rfl⟩) ?_
  rintro _ _ _ ⟨rfl, rfl⟩
  have hrel := (hbooks.congr hsame (hclock₂.trans hclock.symm) (.inr hopen)).release rfl
  have hw := hC.written hbooks hD rfl hl hsent henv hstatus
  rw [Claim.leaving_restore hk] at hrel hw
  refine ⟨⟨hrel, hw, halone, hrun⟩, hclock₂, lt_of_le_of_ne hrel.currSize_le fun hfull' => ?_⟩
  have hused := hrel.full_iff.mp hfull' l.frame hlt
  simp [VmState.allocated, frameTable_release] at hused

lemma choosePage_ok (h : Own m D c k s o) (hk : k.leaving = none) (hl : k.linked = false) :
    (choosePage m s).Ok (Inv m D) Fits env c
      (fun page s' o => Own m D c k s' o ∧ page = s'.nextFreePage ∧
        s'.frameTableCurrSize < m.frameTableSize) o := by
  simp only [choosePage, bind_apply, get_apply, Res.bind]
  split
  · rename_i hfull
    exact evict_ok hC h hk hl hfull
  · rename_i hroom
    exact ⟨h, rfl, lt_of_le_of_ne h.books.currSize_le hroom⟩

lemma frameAllocWith_ok (halloc : ∀ t, m.allocOk t = true) (h : Own m D c k s o)
    (hk : k.leaving = none) (hl : k.linked = false) (imp : Bool) (htake : k.CanTake imp) :
    (frameAllocWith m imp s).Ok (Inv m D) Fits env c
      (fun r s' o => r.2 = m.pageNumToVaddr r.1 ∧ Own m D c (k.taking imp r.1) s' o) o := by
  refine Ok.check_bind fun _ => ?_
  refine Ok.bind (choosePage_ok hC h hk hl) ?_
  rintro _ s1 o1 ⟨h1, rfl, hroom⟩
  simp only [ask, bind_apply, get_apply, set_apply, pure_apply, Res.bind, halloc, if_true]
  have ht := h1.tick hC (s1.time + 1)
  exact ⟨rfl, ht.books.take hroom htake, hC.take ht.books ht.extra h1.running hroom htake,
    h1.alone, h1.running⟩

/-! ## Mapping the frame -/

omit hC in
lemma Own.proc (h : Own m D c k s o) : ∃ as, s.procs c = some as ∧ as.pt.frameAt = k.shape := by
  obtain ⟨u, -, hc⟩ := h.books
  have hown := Holds.of_update hc
  obtain ⟨as, has⟩ := Option.ne_none_iff_exists'.mp hown.proc
  exact ⟨as, has, by rw [← tableFrame_of_procs has, hown.shape]⟩

omit hC in
lemma pageNumToVaddr_ne_zero (m : Machine) (page : Nat) : m.pageNumToVaddr page ≠ 0 := by
  have hpos := m.base_pos
  rw [Machine.pageNumToVaddr]
  omega

lemma frameAllocImportant_ok (halloc : ∀ t, m.allocOk t = true) (h : Own m D c k s o)
    (hk : k.leaving = none) (hl : k.linked = false) (hspare : k.spare = none) :
    (frameAllocImportant m s).Ok (Inv m D) Fits env c
      (fun r s' o => r.2 ≠ 0 ∧ Own m D c { k with spare := some r.1 } s' o) o := by
  refine (frameAllocWith_ok hC halloc h hk hl true hspare).mono ?_
  rintro r s' o' ⟨hr, h'⟩
  exact ⟨hr ▸ pageNumToVaddr_ne_zero m r.1, h'⟩

lemma Own.addNode {f : Nat} (h : Own m D c { k with spare := some f } s o)
    (hspare : k.spare = none) {g : PageTable → PageTable} {x : PageTable.Place}
    (hadd : ∀ t : PageTable, t.frameAt = k.shape → AddsNode x t (g t) f) :
    Own m D c { k with shape := update k.shape x (some f) } (s.modifyTable c g) o := by
  obtain ⟨as, has, hshape⟩ := h.proc
  have hnode := hadd as.pt hshape
  have hb := h.books.addNode rfl has hnode
  have hd := hC.addNode h.books h.extra rfl has hnode
  have hclaim : { k with spare := none, shape := update k.shape x (some f) } =
      { k with shape := update k.shape x (some f) } := by
    rw [← hspare]
  exact ⟨hclaim ▸ hb, hclaim ▸ hd, h.alone, h.running⟩

lemma ensureNode_ok (halloc : ∀ t, m.allocOk t = true) (h : Own m D c k s o)
    (hk : k.leaving = none) (hl : k.linked = false) (hspare : k.spare = none)
    {present : PageTable → Bool} {add : PageTable → Nat → PageTable} (x : PageTable.Place)
    (hpresent : ∀ t, present t = (t.frameAt x).isSome)
    (hadd : ∀ t f, t.frameAt = k.shape → k.shape x = none → AddsNode x t (add t f) f) :
    (ensureNode m c present add s).Ok (Inv m D) Fits env c
      (fun b s' o => b = true ∧ ∃ shape, Own m D c { k with shape := shape } s' o ∧
        shape x ≠ none ∧ ∀ y, k.shape y ≠ none → shape y ≠ none) o := by
  obtain ⟨as, has, hshape⟩ := h.proc
  simp only [ensureNode, pageTableOf, bind_apply, get_apply, pure_apply, Res.bind,
    has, Coro.ofOption]
  rw [hpresent, hshape]
  cases hx : k.shape x with
  | some f => exact ⟨rfl, k.shape, h, by simp [hx], fun y hy => hy⟩
  | none =>
    refine Ok.bind (frameAllocImportant_ok hC halloc h hk hl hspare) ?_
    rintro ⟨page, vaddr⟩ s1 o1 ⟨hne, h1⟩
    simp only [if_neg hne, bind_apply, modify_apply, pure_apply, Res.bind]
    refine ⟨rfl, _, h1.addNode hC hspare fun t ht => hadd t page ht hx, by simp, fun y hy => ?_⟩
    rcases eq_or_ne y x with rfl | hne
    · simp
    · simpa [hne] using hy

lemma Own.link (h : Own m D c k s o) {f : Nat}
    (hpage : k.page = some f) (hl : k.linked = false) (hk : k.leaving = none)
    (hpt : k.shape (.pt (getPtIndex k.vaddr).l1 (getPtIndex k.vaddr).l2 (getPtIndex k.vaddr).l3)
      ≠ none) :
    Own m D c { k with linked := true }
      (s.modifyTable c fun t => t.setWord (getPtIndex k.vaddr) (BitVec.ofNat 64 f)) o := by
  obtain ⟨as, has, hshape⟩ := h.proc
  have hword : as.pt.word (getPtIndex k.vaddr) ≠ none := by
    intro hn
    rw [← hshape] at hpt
    exact hpt (Option.map_eq_none_iff.mpr (Option.map_eq_none_iff.mp hn))
  exact ⟨h.books.link hpage hl hk h.alone has hword,
    hC.link h.books h.extra hpage hl hk h.alone has hword, h.alone, h.running⟩

lemma pageTableInsert_ok (halloc : ∀ t, m.allocOk t = true)
    (h : Own m D c k s o) (hk : k.leaving = none) (hspare : k.spare = none) {f : Nat}
    (hpage : k.page = some f) (hl : k.linked = false) :
    (pageTableInsert m c k.vaddr f s).Ok (Inv m D) Fits env c
      (fun _ s' o => ∃ shape, Own m D c { k with shape := shape, linked := true } s' o) o := by
  refine Ok.bind
    (ensureNode_ok hC halloc h hk hl hspare (.pud (getPtIndex k.vaddr).l1) ?_ ?_) ?_
  · intro t
    simp [PageTable.frameAt]
  · intro t f' ht hx
    exact addsNode_pud (ht ▸ hx) f'
  rintro _ s1 o1 ⟨rfl, sh1, h1, hpud, -⟩
  refine Ok.bind (ensureNode_ok hC halloc h1 hk hl hspare
    (.pd (getPtIndex k.vaddr).l1 (getPtIndex k.vaddr).l2) ?_ ?_) ?_
  · intro t
    simp [PageTable.frameAt]
  · intro t f' ht hx
    exact addsNode_pd (ht ▸ hpud) (ht ▸ hx) f'
  rintro _ s2 o2 ⟨rfl, sh2, h2, hpd, -⟩
  refine Ok.bind (ensureNode_ok hC halloc h2 hk hl hspare
    (.pt (getPtIndex k.vaddr).l1 (getPtIndex k.vaddr).l2 (getPtIndex k.vaddr).l3) ?_ ?_) ?_
  · intro t
    simp [PageTable.frameAt]
  · intro t f' ht hx
    exact addsNode_pt (ht ▸ hpd) (ht ▸ hx) f'
  rintro _ s3 o3 ⟨rfl, sh3, h3, hpt, -⟩
  exact ⟨sh3, h3.link hC hpage hl hk hpt⟩

omit hC in
lemma word_bumpLast (t : PageTable) :
    PageTable.word { t with seL4Pages := bumpLast t.seL4Pages } = t.word := rfl

omit hC in
lemma frameAt_bumpLast (t : PageTable) :
    PageTable.frameAt { t with seL4Pages := bumpLast t.seL4Pages } = t.frameAt := by
  have hget : ∀ (l : List ObjectsFrame) (j : Nat),
      (bumpLast l)[j]?.map (fun n => n.frame) = l[j]?.map fun n => n.frame := by
    intro l
    induction l using bumpLast.induct with
    | case1 => intro j; rfl
    | case2 n => intro j; cases j <;> rfl
    | case3 n rest hne ih =>
      intro j
      rw [bumpLast]
      · cases j with
        | zero => rfl
        | succ j => exact ih j
      · exact hne
  funext x
  cases x with
  | objects j => exact hget t.seL4Pages j
  | table | pgd | pud _ | pd _ _ | pt _ _ _ => rfl

lemma ensureChunk_ok (halloc : ∀ t, m.allocOk t = true) (h : Own m D c k s o)
    (hk : k.leaving = none) (hl : k.linked = false) (hspare : k.spare = none) :
    (ensureChunk m c s).Ok (Inv m D) Fits env c
      (fun _ s' o => ∃ shape, Own m D c { k with shape := shape } s' o) o := by
  obtain ⟨as, has, -⟩ := h.proc
  simp only [ensureChunk, pageTableOf, bind_apply, get_apply, pure_apply, Res.bind,
    has, Coro.ofOption]
  split
  · refine Ok.bind (frameAllocImportant_ok hC halloc h hk hl hspare) ?_
    rintro ⟨page, vaddr⟩ s1 o1 ⟨-, h1⟩
    obtain ⟨as1, has1, hshape⟩ := h1.proc
    refine Ok.check_bind fun _ => ?_
    have hadd := addsNode_objects as1.pt page
    have hb := h1.books.addNode (g := fun t => { t with seL4Pages := t.seL4Pages ++ [⟨page, 0⟩] })
      rfl has1 hadd
    have hd := hC.addNode (g := fun t => { t with seL4Pages := t.seL4Pages ++ [⟨page, 0⟩] })
      h1.books h1.extra rfl has1 hadd
    have hclaim : ∀ shape, { k with spare := none, shape := shape } =
        { k with shape := shape } := by
      intro shape
      rw [← hspare]
    simp only [hclaim] at hb hd
    exact ⟨_, hb, hd, h1.alone, h1.running⟩
  · exact ⟨k.shape, h⟩

lemma saveSeL4Info_ok (halloc : ∀ t, m.allocOk t = true) (h : Own m D c k s o)
    (hk : k.leaving = none) (hl : k.linked = false) (hspare : k.spare = none) :
    (saveSeL4Info m c s).Ok (Inv m D) Fits env c
      (fun _ s' o => ∃ shape, Own m D c { k with shape := shape } s' o) o := by
  refine Ok.bind (ensureChunk_ok hC halloc h hk hl hspare) ?_
  rintro _ s1 o1 ⟨shape, h1⟩
  exact ⟨shape, h1.books.sameTable c word_bumpLast frameAt_bumpLast,
    hC.sameTable h1.extra word_bumpLast frameAt_bumpLast, h1.alone, h1.running⟩

lemma seL4PageMap_ok (h : Own m D c k s o) {f : Nat}
    (hpage : k.page = some f) (hl : k.linked = false) (hcap : k.cap ≠ 0) :
    (seL4PageMap m c k.vaddr k.cap allRights f s).Ok (Inv m D) Fits env c
      (fun _ s' o => Own m D c k s' o) o := by
  have ht := h.tick hC (s.time + 1)
  obtain ⟨-, hmap⟩ | ⟨-, hmap⟩ | ⟨-, hmap⟩ := seL4PageMap_cases m c k.vaddr k.cap allRights f s
  · rw [hmap]
    exact ht
  · rw [hmap]
    exact ht
  · rw [hmap]
    exact ht.same ⟨fun _ => rfl, rfl, rfl, rfl, rfl⟩ rfl (.inr rfl)
      (hC.pageMap ht.books ht.extra hpage hl hcap) rfl

lemma retryMap_ok (h : Own m D c k s o) {f : Nat}
    (hpage : k.page = some f) (hl : k.linked = false) (hcap : k.cap ≠ 0) (err : SeL4Error) :
    (retryMap m c k.vaddr k.cap allRights f err s).Ok (Inv m D) Fits env c
      (fun _ s' o => Own m D c k s' o) o := by
  unfold retryMap
  split
  · exact seL4PageMap_ok hC h hpage hl hcap
  · exact h

lemma mapLevels_ok (halloc : ∀ t, m.allocOk t = true) (h : Own m D c k s o)
    (hk : k.leaving = none) (hspare : k.spare = none) {f : Nat} (hpage : k.page = some f)
    (hl : k.linked = false) (hcap : k.cap ≠ 0) (n : Nat) (err : SeL4Error) :
    (mapLevels m c c k.vaddr k.cap allRights f n err s).Ok (Inv m D) Fits env c
      (fun r s' o => r ≠ none ∧ ∃ shape, Own m D c { k with shape := shape } s' o) o := by
  induction n generalizing k s o err with
  | zero => exact ⟨by simp, k.shape, h⟩
  | succ n ih =>
    cases err with
    | noError | deleteFirst | other => exact ⟨by simp, k.shape, h⟩
    | failedLookup =>
      simp only [mapLevels, ask, bind_apply, get_apply, set_apply,
        pure_apply, Res.bind, halloc, if_true]
      have ht := h.tick hC (s.time + 1 + 1 + 1)
      refine Ok.bind (saveSeL4Info_ok hC halloc ht hk hl hspare) ?_
      rintro _ s1 o1 ⟨sh1, h1⟩
      refine Ok.bind (retryMap_ok hC h1 hpage hl hcap _) ?_
      intro err' s2 o2 h2
      exact ih h2 hk hspare hpage hl hcap err'

lemma sosMapFrame_ok (halloc : ∀ t, m.allocOk t = true)
    (h : Own m D c k s o) (hk : k.leaving = none) (hspare : k.spare = none) {f : Nat}
    (hpage : k.page = some f) (hl : k.linked = false) (hcap : k.cap ≠ 0) :
    (sosMapFrame m c c k.cap k.vaddr allRights f true s).Ok (Inv m D) Fits env c
      (fun _ s' o => ∃ shape, Own m D c { k with shape := shape, linked := true } s' o) o := by
  refine Ok.bind (seL4PageMap_ok hC h hpage hl hcap) fun err s1 o1 h1 => ?_
  refine Ok.bind (mapLevels_ok hC halloc h1 hk hspare hpage hl hcap mappingSlots err) ?_
  rintro r s2 o2 ⟨hr, sh2, h2⟩
  cases r with
  | none => exact absurd rfl hr
  | some err => exact pageTableInsert_ok hC halloc h2 hk hspare hpage hl

/-! ## The branches -/

lemma allocPage_ok (halloc : ∀ t, m.allocOk t = true) (h : Own m D c k s o)
    (hk : k.leaving = none) (hpage : k.page = none) (hl : k.linked = false) (hcap : k.cap = 0) :
    (allocPage m s).Ok (Inv m D) Fits env c
      (fun r s' o => r.2.1 = m.pageNumToVaddr r.1 ∧ r.2.2 ≠ 0 ∧
        Own m D c { k with page := some r.1, cap := r.2.2 } s' o) o := by
  refine Ok.bind (frameAllocWith_ok hC halloc h hk hl false ⟨hpage, hl⟩) ?_
  rintro ⟨page, kernelVaddr⟩ s1 o1 ⟨hr, h1⟩
  have ht := h1.tick hC (s1.time + 1)
  simp only [cspaceAllocSlot, ask, bind_apply, get_apply, set_apply,
    pure_apply, Res.bind, halloc, if_true]
  exact ⟨hr, Nat.succ_ne_zero _,
    (ht.books.withCap _).congr ⟨fun _ => rfl, rfl, rfl, rfl, rfl⟩ rfl (.inr rfl),
    hC.slot ht.extra hcap, h1.alone, h1.running⟩

lemma pagein_ok (h : Own m D c k s o) {f i : Nat} (hpage : k.page = some f)
    (hl : k.linked = true) (hold : k.old = some i) (hk : k.leaving = none) :
    (pagein m i (m.pageNumToVaddr f) s).Ok (Inv m D) Fits env c
      (fun _ s' o => Inv m D s' (update o c (some { k with old := none }))) o := by
  have hsize : i < s.pfList.size := by
    obtain ⟨u, -, hc⟩ := h.books
    exact ((Holds.of_update hc).reading i |>.mpr ⟨hl, hold⟩).1
  simp only [pagein, bind_apply, get_apply, Res.bind]
  rw [if_neg (by omega)]
  refine Ok.bind (Q := fun n s' o => ∃ s1 s2 r, Inv m D s1 (update o c (some k)) ∧
    env (.read (i * pageSize) pageSize) r s1 s2 ∧ 0 ≤ r.status ∧
    n = shareBufCheckLen r.status.toNat ∧
    s' = s2.copyTo (m.getBufFromPid kernelProc) n r.data) ?_ ?_
  · refine Ok.yield_bind k ⟨i, hold, hl, hk, rfl, rfl⟩ ⟨h.books, h.extra⟩ ?_
    intro r s1 s2 o' h1 henv
    exact Ok.check_bind fun hstatus => ⟨s1, s2, r, h1, henv, hstatus, rfl, rfl⟩
  rintro n _ o1 ⟨s1, s2, r, ⟨hb, hd⟩, henv, hstatus, hn, rfl⟩
  refine Ok.check_bind fun hlen => ?_
  rw [hlen]
  have hr : r.status = pageSize := by
    rw [hlen, shareBufCheckLen] at hn
    split at hn
    · exact absurd hn (by decide)
    · omega
  refine Ok.check_bind fun _ => ?_
  simp only [sosCopyout, bind_apply, modify_apply, pure_apply, Res.bind, shareBufCheckLen_pageSize]
  refine Ok.check_bind fun _ => ?_
  obtain ⟨hsame, hclock, hopen, -⟩ := hC.reply henv
  have hb2 := (hb.congr hsame hclock (.inr hopen)).readDone hold hl
  exact ⟨hb2.congr ⟨fun _ => rfl, rfl, rfl, rfl, rfl⟩ rfl (.inr rfl),
    hC.read hb hd hpage hl hold hk henv hr⟩

omit hC in
lemma Books.owner (hb : Books m s o) (hnone : o c = none) {v f : Nat} (hv : PageAddr v)
    (hpte : s.pte c v = .frame f) : (s.frameTable f).pid = c := by
  obtain ⟨u, hm, hc⟩ := hb
  have hown := hc c
  rw [hnone] at hown
  obtain ⟨hf, hu | hu⟩ := (hm.framed c v f hv).mp hpte
  · have hok := hm.frames f hf
    rw [hu] at hok
    exact hok.2.2.1
  · exact absurd (by rw [hu]; rfl) (hown.1 f hf)

def Over (m : Machine) (E : VmState → (Int → Option Claim) → Prop) (c : Int) (_ : Unit)
    (s : VmState) (o : Int → Option Claim) : Prop :=
  Books m s (update o c none) ∧ E s (update o c none)

lemma newPage_ok (halloc : ∀ t, m.allocOk t = true)
    {shape : PageTable.Place → Option Nat} (h : Own m D c (.begin v none shape) s o) :
    (newPage m c v s).Ok (Inv m D) Fits env c (Over m E c) o := by
  refine Ok.bind (allocPage_ok hC halloc h rfl rfl rfl rfl) ?_
  rintro ⟨page, kernelVaddr, slot⟩ s1 o1 ⟨-, hcap, h1⟩
  refine Ok.bind (sosMapFrame_ok hC halloc h1 rfl rfl rfl rfl hcap) ?_
  rintro _ s2 o2 ⟨shape₂, h2⟩
  exact ⟨h2.books.settle rfl rfl rfl rfl rfl,
    hC.settle h2.books h2.extra rfl ⟨rfl, rfl, rfl, rfl, hcap⟩⟩

lemma copyBack_ok (h : Inv m D s (update o c (some k)))
    {f : Nat} (hpage : k.page = some f) (hk : k.Done) :
    ((do let _ ← sosCopyin m c m.sharedBufBegin pageSize; settle c k.vaddr k.cap f : VmM Unit)
      s).Ok (Inv m D) Fits env c (Over m R c) o := by
  obtain ⟨hb, hd⟩ := h
  have hcopy := hb.copyTo (m.getBufFromPid c) pageSize fun j => s.mem (m.sharedBufBegin + j)
  simp only [sosCopyin, settle, bind_apply, modify_apply, pure_apply, Res.bind,
    shareBufCheckLen_pageSize]
  exact ⟨hcopy.settle hpage hk.linked hk.old hk.spare hk.leaving, hC.settleRead hb hd hpage hk⟩

lemma readPage_ok (halloc : ∀ t, m.allocOk t = true) {i : Nat}
    {shape : PageTable.Place → Option Nat} (h : Own m D c (.begin v (some i) shape) s o) :
    (readPage m c v i s).Ok (Inv m D) Fits env c (Over m R c) o := by
  refine Ok.bind (allocPage_ok hC halloc h rfl rfl rfl rfl) ?_
  rintro ⟨page, kernelVaddr, slot⟩ s1 o1 ⟨hk, hcap, h1⟩
  obtain rfl : kernelVaddr = m.pageNumToVaddr page := hk
  refine Ok.bind (sosMapFrame_ok hC halloc h1 rfl rfl rfl rfl hcap) ?_
  rintro _ s2 o2 ⟨shape₂, h2⟩
  refine Ok.bind (pagein_ok hC h2 rfl rfl rfl rfl) ?_
  intro _ s3 o3 h3
  exact copyBack_ok hC h3 rfl ⟨rfl, rfl, rfl, rfl, hcap⟩

lemma remapPage_ok (hb : Books m s o) (hd : D s o)
    (hnone : o c = none) {f : Nat} (hv : PageAddr v) (hpte : s.pte c v = .frame f) :
    (remapPage m c v f s).Ok (Inv m D) Fits env c (Over m E c) o := by
  have hsame : ∀ t, SameBooks s
      ({ s.setFrame f fun e => { e with pid := c } with time := t }.setFrame f
        fun e => { e with refBit := true }) := by
    intro t
    refine ⟨fun g => ?_, rfl, rfl, rfl, rfl⟩
    rcases eq_or_ne g f with rfl | hne
    · simp [VmState.setFrame, FrameTableEntry.core, hb.owner hnone hv hpte]
    · simp [VmState.setFrame, hne]
  have hself : update o c none = o := by
    rw [← hnone]
    exact Function.update_eq_self c o
  simp only [remapPage, bind_apply, get_apply, Res.bind]
  refine Ok.ofOption_bind fun fte hfte => ?_
  obtain rfl : s.frameTable f = fte := by
    unfold Machine.getFrame at hfte
    split at hfte
    · cases hfte
    · exact Option.some.inj hfte
  refine Ok.check_bind fun _ => ?_
  simp only [bind_apply, modify_apply, Res.bind]
  refine Ok.check_bind fun _ => ?_
  have hend := hC.remap hb hd hnone hv hpte (s.time + 1)
  have hbooks := hb.congr (hsame (s.time + 1)) rfl (.inr rfl)
  have hkept : Over m E c ⟨⟩ ({ s.setFrame f fun e => { e with pid := c } with
      time := s.time + 1 }.setFrame f fun e => { e with refBit := true }) o := by
    refine ⟨?_, ?_⟩
    · rw [hself]
      exact hbooks
    · rw [hself]
      exact hend false
  obtain ⟨-, hmap⟩ | ⟨-, hmap⟩ | ⟨-, hmap⟩ := seL4PageMap_cases m c v (s.frameTable f).userCap
    allRights f (s.setFrame f fun e => { e with pid := c })
  · rw [bind_apply, hmap]
    exact hkept
  · rw [bind_apply, hmap]
    exact hkept
  · rw [bind_apply, hmap]
    refine ⟨?_, ?_⟩
    · rw [hself]
      exact hbooks.congr ⟨fun _ => rfl, rfl, rfl, rfl, rfl⟩ rfl (.inr rfl)
    · rw [hself]
      exact hend true

/-- What a fault leaves behind, the page having been read back or not. -/
def AfterFault (m : Machine) (E R : VmState → (Int → Option Claim) → Prop) (c : Int) (entry : Pte)
    (u : Unit) (s : VmState) (o : Int → Option Claim) : Prop :=
  (∃ i, entry = .pagefile i) ∧ Over m R c u s o ∨ (∀ i, entry ≠ .pagefile i) ∧ Over m E c u s o

lemma handleFault_ok (halloc : ∀ t, m.allocOk t = true) (hb : Books m s o) (hd : D s o)
    (hnone : o c = none) (hrun : s.running = c) (hv : PageAddr v) {as : AddrSpace}
    (has : s.procs c = some as) (halone : NoLeaving c o ∨ ∃ f, s.pte c v = .frame f) :
    (handleFault m c v (pageLookup as.pt v) s).Ok (Inv m D) Fits env c
      (AfterFault m E R c (s.pte c v)) o := by
  have hbegin : ∀ old, s.pte c v = (Claim.begin v old (s.tableFrame c)).entry →
      Own m D c (.begin v old (s.tableFrame c)) s o := by
    intro old hentry
    have hne := (Claim.begin v old (s.tableFrame c)).entry_ne_frame
    refine ⟨hb.start hnone hv (by simp [has]) hentry, hC.start hb hd hnone hentry, ?_, hrun⟩
    exact halone.resolve_right fun ⟨f, hf⟩ => hne f (hentry ▸ hf)
  have hnew : s.pte c v = .invalid →
      (newPage m c v s).Ok (Inv m D) Fits env c (AfterFault m E R c (s.pte c v)) o := by
    intro hpte
    refine (newPage_ok hC halloc (hbegin none hpte)).mono fun _ _ _ h => .inr ⟨fun i => ?_, h⟩
    simp [hpte]
  have hpte : s.pte c v = as.pt.pte (getPtIndex v) := pte_of_procs has v
  rw [PageTable.pte] at hpte
  unfold handleFault pageLookup
  cases hw : as.pt.word (getPtIndex v) with
  | none =>
    rw [hw] at hpte
    exact hnew hpte
  | some w =>
    rw [hw] at hpte
    change s.pte c v = Pte.ofWord w at hpte
    unfold Pte.ofWord at hpte
    dsimp only
    split
    · rename_i hbits
      rw [if_pos hbits] at hpte
      refine (remapPage_ok hC hb hd hnone hv hpte).mono fun _ _ _ h => .inr ⟨fun i => ?_, h⟩
      simp [hpte]
    · rename_i hbits
      rw [if_neg hbits] at hpte
      split
      · rename_i hpage
        rw [if_pos hpage] at hpte
        exact (readPage_ok hC halloc (hbegin (some _) hpte)).mono
          fun _ _ _ h => .inl ⟨⟨_, hpte⟩, h⟩
      · rename_i hpage
        rw [if_neg hpage] at hpte
        exact hnew hpte

omit hC

lemma vmFault_ok {fa : Nat} (hC : Carried m c (pageAlign fa) env D Sent E R)
    (halloc : ∀ t, m.allocOk t = true) (hb : Books m s o) (hd : D s o) (hnone : o c = none)
    (hrun : s.running = c) (hfa : fa < 2 ^ 48)
    (halone : NoLeaving c o ∨ ∃ f, s.pte c (pageAlign fa) = .frame f) :
    (vmFault m c fa s).Ok (Inv m D) Fits env c (AfterFault m E R c (s.pte c (pageAlign fa))) o := by
  have hv : PageAddr (pageAlign fa) := by
    unfold PageAddr pageAlign pageSize
    omega
  simp only [vmFault, bind_apply, get_apply, Res.bind]
  refine Ok.ofOption_bind fun as has => Ok.ofOption_bind fun _ _ => ?_
  exact Ok.check_bind fun _ => handleFault_ok hC halloc hb hd hnone hrun hv has halone

lemma faultCo_ok {fa : Nat} (hC : Carried m c (pageAlign fa) env D Sent E R)
    (halloc : ∀ t, m.allocOk t = true) (hb : Books m s o) (hd : D { s with running := c } o)
    (hnone : o c = none)
    (hfa : fa < 2 ^ 48) (halone : NoLeaving c o ∨ ∃ f, s.pte c (pageAlign fa) = .frame f) :
    (faultCo m c fa s).Ok (Inv m D) Fits env c
      (fun _ s' o => ∃ s1, AfterFault m E R c (s.pte c (pageAlign fa)) ⟨⟩ s1 o ∧
        s' = { s1 with log := .finished c :: s1.log }) o := by
  have hb' : Books m { s with running := c } o :=
    hb.congr ⟨fun _ => rfl, rfl, rfl, rfl, rfl⟩ rfl (.inr rfl)
  simp only [faultCo, bind_apply, modify_apply, Res.bind]
  refine Ok.bind (vmFault_ok hC halloc hb' hd hnone rfl hfa halone) ?_
  intro _ s1 o1 h1
  exact ⟨s1, h1, rfl⟩

lemma AfterFault.over {entry : Pte} {u : Unit} (h : AfterFault m E E c entry u s o) :
    Over m E c u s o := by
  rcases h with ⟨-, h⟩ | ⟨-, h⟩ <;> exact h

end Fault

end SpaghettiOS.Vm
