import SpaghettiOS.VM.Image
import SpaghettiOS.VM.Stock

/-!
# What `sos_map_frame` reports

`sos_map_frame` tries to map a frame, adds a paging structure and tries again, up to
three times.  For a page that SOS keeps track of it then calls `page_table_insert`
and returns what that returns, in the variable that held the error of the mapping.
So an error of seL4 is lost: the call returns zero and the page table names a frame
that the hardware does not map.
-/

namespace SpaghettiOS.Vm

open Coro (Keeps)
open Coroutine (Res Exec)
open Coroutine.Res (Ends)

/-- A run of `sos_map_frame` in which the attempts came to `err` and left `s₁`.  `err` is the
last answer of seL4, and none when untyped memory or a slot was refused. -/
def MapRun (m : Machine) (pid vspace : Int) (cap vaddr : Nat) (r : CapRights) (page : Nat) (p : Int)
    (s : VmState) (err : Option SeL4Error) (s₁ : VmState) (result : Int) (t : VmState) : Prop :=
  Exec (Served p) (mapAttempts m pid vspace cap vaddr r page s) err s₁ ∧
    Exec (Served p) (reportMap m pid vaddr page err s₁) result t

/-- The allocators refuse a frame for a node that `page_table_insert` has to add. -/
def NodesRefused (m : Machine) (pid : Int) (vaddr : Nat) (s : VmState) : Prop :=
  (s.stock m).nodes m (s.tableFrame pid) (getPtIndex vaddr) = none

instance NodesRefused.decidable (m : Machine) (pid : Int) (vaddr : Nat) (s : VmState) :
    Decidable (NodesRefused m pid vaddr s) :=
  inferInstanceAs (Decidable (_ = none))

/-- A call that returned `result` reported what became of the mapping, where `err` is
what the attempts came to. -/
structure ReportsMapping (pid vspace : Int) (cap vaddr page : Nat) (err : Option SeL4Error)
    (result : Int) (s t : VmState) : Prop where
  success : result = 0 → err = some .noError ∧ t.vspace vspace vaddr = some (cap, page) ∧
    t.entry pid vaddr = some (BitVec.ofNat 64 page)
  failure : err ≠ some .noError → result ≠ 0 ∧ t.entry pid vaddr = s.entry pid vaddr

/-! ## The mapping -/

/-- Through a capability that is not on record for the frame, the frame stays mapped. -/
def StaysMapped (vspace : Int) (cap vaddr page : Nat) (s t : VmState) : Prop :=
  (s.frameTable page).userCap ≠ cap → (t.frameTable page).userCap ≠ cap ∧
    (s.vspace vspace vaddr = some (cap, page) → t.vspace vspace vaddr = some (cap, page))

section Mapping

variable {m : Machine} {pid vspace : Int} {cap vaddr page : Nat} {s t : VmState}

instance : Std.Refl (StaysMapped vspace cap vaddr page) where
  refl _ h := ⟨h, id⟩

instance : IsTrans VmState (StaysMapped vspace cap vaddr page) where
  trans _ _ _ hst htu hs := by
    obtain ⟨ht, hmap⟩ := hst hs
    obtain ⟨hu, hmap'⟩ := htu ht
    exact ⟨hu, hmap' ∘ hmap⟩

lemma StaysMapped.of_same (hframes : t.frameTable = s.frameTable)
    (hvspace : t.vspace = s.vspace) : StaysMapped vspace cap vaddr page s t :=
  fun h => ⟨by rwa [hframes], by rw [hvspace]; exact id⟩

lemma StaysMapped.pageUnmap (s : VmState) (f : Nat) :
    StaysMapped vspace cap vaddr page s (s.pageUnmap (s.frameTable f).userCap f) := by
  refine fun h => ⟨h, fun hmap => ?_⟩
  simp only [VmState.pageUnmap, hmap]
  refine if_neg ?_
  rintro ⟨-, heq⟩
  cases heq
  exact h rfl

lemma StaysMapped.reset (hcap : cap ≠ 0) {f : Nat} {e : FrameTableEntry} (he : e.userCap = 0)
    (hframes : t.frameTable = Function.update s.frameTable f e) (hvspace : t.vspace = s.vspace) :
    StaysMapped vspace cap vaddr page s t := by
  refine fun h => ⟨?_, by rw [hvspace]; exact id⟩
  rw [hframes]
  rcases eq_or_ne page f with rfl | hne
  · rw [Function.update_self, he]
    exact hcap.symm
  · rwa [Function.update_of_ne hne]

lemma staysMapped_moves (hcap : cap ≠ 0) : TableMoves m (StaysMapped vspace cap vaddr page) where
  same := by
    intro s t h _
    rw [h]
    exact .of_same rfl rfl
  swapOut _ _ _ := .of_same rfl rfl
  turn s := by
    intro h
    refine ⟨?_, fun hmap => ?_⟩
    · rw [sweepStep_frameTable]
      split
      · exact h
      · exact h
    · rcases sweepStep_vspace (m := m) (s := s) vspace vaddr with hsame | ⟨-, -, hsome⟩
      · rw [hsame, hmap]
      · rw [hmap] at hsome
        cases hsome
        exact absurd rfl h
  release s f := by
    refine IsTrans.trans _ _ _ (StaysMapped.pageUnmap s f) ?_
    exact .reset hcap rfl rfl rfl
  take _ _ _ := .reset hcap rfl rfl rfl
  table _ _ _ := .of_same rfl rfl

variable {r : CapRights} {p : Int}

lemma seL4PageMap_maps (s : VmState) :
    (seL4PageMap m vspace vaddr cap r page s).Ends (Served p) fun err t =>
      err = .noError → t.vspace vspace vaddr = some (cap, page) := by
  obtain ⟨herr, hmap⟩ | ⟨-, hmap⟩ | ⟨-, hmap⟩ := seL4PageMap_cases m vspace vaddr cap r page s
  · rw [hmap]
    exact fun h => absurd h herr
  · rw [hmap]
    exact fun h => absurd h (by decide)
  · rw [hmap]
    exact fun _ => by simp [VmState.pageMap]

lemma mapLevels_maps (n : Nat) (err : SeL4Error)
    (h : err = .noError → s.vspace vspace vaddr = some (cap, page)) :
    (mapLevels m pid vspace vaddr cap r page n err s).Ends (Served p) fun err t =>
      err = some .noError → t.vspace vspace vaddr = some (cap, page) := by
  induction n generalizing err s with
  | zero => exact fun herr => h (Option.some.inj herr)
  | succ n ih =>
    cases err with
    | noError | deleteFirst | other => exact fun herr => h (Option.some.inj herr)
    | failedLookup =>
      refine Ends.after fun ut s1 => ?_
      split
      · refine Ends.after fun slot s2 => ?_
        split
        · refine Ends.after fun err s3 => Ends.after fun _ s4 => ?_
          have hretry : (retryMap m vspace vaddr cap r page err s4).Ends (Served p) fun err t =>
              err = .noError → t.vspace vspace vaddr = some (cap, page) := by
            unfold retryMap
            split
            · exact seL4PageMap_maps s4
            · exact fun herr => absurd herr ‹_›
          exact Ends.bind hretry fun err s5 h5 => ih err h5
        · exact fun herr => nomatch herr
      · exact fun herr => nomatch herr

lemma mapAttempts_maps (s : VmState) :
    (mapAttempts m pid vspace cap vaddr r page s).Ends (Served p) fun err t =>
      err = some .noError → t.vspace vspace vaddr = some (cap, page) :=
  Ends.bind (seL4PageMap_maps s) fun err _ h => mapLevels_maps mappingSlots err h

lemma seL4PageMap_staysMapped (hcap : cap ≠ 0) :
    Keeps (Served p) (StaysMapped vspace cap vaddr page) (seL4PageMap m vspace vaddr cap r page) :=
  seL4PageMap_keeps (staysMapped_moves (m := m) hcap).same
    fun _ h => ⟨h, fun _ => by simp [VmState.pageMap]⟩

lemma mapAttempts_staysMapped (hcap : cap ≠ 0) :
    Keeps (Served p) (StaysMapped vspace cap vaddr page)
      (mapAttempts m pid vspace cap vaddr r page) :=
  Keeps.bind (seL4PageMap_staysMapped hcap) fun err =>
    mapLevels_keeps ((staysMapped_moves hcap).chunkMoves pid) (seL4PageMap_staysMapped hcap) _ err

end Mapping

/-! ## The entry -/

/-- The entry of a page that no frame is on record for stays as it is. -/
def KeepsEntry (pid : Int) (i : PtIndex) (s t : VmState) : Prop :=
  NotHeld pid i s → NotHeld pid i t ∧ ∀ as, s.procs pid = some as →
    ∃ as', t.procs pid = some as' ∧ as'.pt.word i = as.pt.word i

section Entry

variable {m : Machine} {pid p : Int} {i : PtIndex} {s t : VmState}

instance : Std.Refl (KeepsEntry pid i) where
  refl _ h := ⟨h, fun as has => ⟨as, has, rfl⟩⟩

instance : IsTrans VmState (KeepsEntry pid i) where
  trans s t u hst htu hs := by
    obtain ⟨ht, hproc⟩ := hst hs
    obtain ⟨hu, hproc'⟩ := htu ht
    refine ⟨hu, fun as has => ?_⟩
    obtain ⟨as', has', hsame⟩ := hproc as has
    obtain ⟨as'', has'', hsame'⟩ := hproc' as' has'
    exact ⟨as'', has'', hsame'.trans hsame⟩

lemma KeepsEntry.of_same (hframes : ∀ page, (t.frameTable page).pid = (s.frameTable page).pid ∧
    (t.frameTable page).userVaddr = (s.frameTable page).userVaddr) (hprocs : t.procs = s.procs) :
    KeepsEntry pid i s t := by
  refine fun h => ⟨fun page => ?_, fun as has => ⟨as, by rw [hprocs, has], rfl⟩⟩
  rw [(hframes page).1, (hframes page).2]
  exact h page

lemma KeepsEntry.reset (hpid : 0 ≤ pid) {f : Nat} {e : FrameTableEntry} (he : e.pid = -1)
    (hframes : t.frameTable = Function.update s.frameTable f e) (hprocs : t.procs = s.procs) :
    KeepsEntry pid i s t := by
  refine fun h => ⟨fun page => ?_, fun as has => ⟨as, by rw [hprocs, has], rfl⟩⟩
  rw [hframes]
  rcases eq_or_ne page f with rfl | hne
  · rw [Function.update_self, he]
    omega
  · rw [Function.update_of_ne hne]
    exact h page

lemma KeepsEntry.modifyTable (s : VmState) (c : Int) {f : PageTable → PageTable}
    (hf : c = pid → ∀ pt, (f pt).word i = pt.word i) :
    KeepsEntry pid i s (s.modifyTable c f) := by
  refine fun h => ⟨h, fun as has => ?_⟩
  rcases eq_or_ne pid c with rfl | hne
  · exact ⟨{ as with pt := f as.pt }, by simp [VmState.modifyTable, has], hf rfl as.pt⟩
  · exact ⟨as, by simp [VmState.modifyTable, hne, has], rfl⟩

lemma keepsEntry_moves (hpid : 0 ≤ pid) : AllocMoves m (KeepsEntry pid i) where
  same := by
    intro s t h _
    rw [h]
    exact .of_same (fun _ => ⟨rfl, rfl⟩) rfl
  swapOut s page ind := by
    intro h
    refine KeepsEntry.modifyTable s _ (fun heq pt => ?_) h
    rw [PageTable.word_setWord, if_neg (h page heq).symm]
  turn s := by
    refine .of_same (fun page => ?_) ?_
    · rw [sweepStep_frameTable]
      split
      · exact ⟨rfl, rfl⟩
      · exact ⟨rfl, rfl⟩
    · rw [sweepStep_rest]
  release _ _ := .reset hpid rfl rfl rfl
  take _ _ _ := .reset hpid rfl rfl rfl

lemma mapAttempts_keepsEntry (hpid : 0 ≤ pid) (vspace : Int) (vaddr cap : Nat) (r : CapRights)
    (page : Nat) :
    Keeps (Served p) (KeepsEntry pid i) (mapAttempts m pid vspace cap vaddr r page) := by
  have hmoves : ChunkMoves m pid (KeepsEntry pid i) :=
    { keepsEntry_moves hpid with
      chunks := fun s _ => .modifyTable s pid fun _ _ => rfl }
  have hmap : Keeps (Served p) (KeepsEntry pid i) (seL4PageMap m vspace vaddr cap r page) :=
    seL4PageMap_keeps hmoves.same fun _ => .of_same (fun _ => ⟨rfl, rfl⟩) rfl
  exact Keeps.bind hmap fun err => mapLevels_keeps hmoves hmap _ err

end Entry

/-! ## What is reported -/

section Report

variable {m : Machine} {pid vspace p : Int} {cap vaddr page : Nat} {r : CapRights}

/-- What the callers of `sos_map_frame` see to: the capability is one, it is not yet on
record for the frame, and no frame is on record for the page. -/
structure MapRequest (pid : Int) (cap vaddr page : Nat) (s : VmState) : Prop where
  pid_nonneg : 0 ≤ pid
  cap_ne : cap ≠ 0
  fresh : (s.frameTable page).userCap ≠ cap
  notHeld : NotHeld pid (getPtIndex vaddr) s
  proc : s.procs pid ≠ none

lemma MapRequest.attempts {s : VmState} (h : MapRequest pid cap vaddr page s) :
    (mapAttempts m pid vspace cap vaddr r page s).Ends (Served p) fun err t =>
      MapRequest pid cap vaddr page t ∧ t.entry pid vaddr = s.entry pid vaddr ∧
        (err = some .noError → t.vspace vspace vaddr = some (cap, page)) := by
  have hstays : Keeps (Served p) (StaysMapped vspace cap vaddr page)
      (mapAttempts m pid vspace cap vaddr r page) := mapAttempts_staysMapped h.cap_ne
  have hkeeps : Keeps (Served p) (KeepsEntry pid (getPtIndex vaddr))
      (mapAttempts m pid vspace cap vaddr r page) :=
    mapAttempts_keepsEntry h.pid_nonneg _ _ _ _ _
  refine Ends.mono ((mapAttempts_maps s).and ((hstays s).and (hkeeps s))) ?_
  rintro err t ⟨hmaps, hstays, hkeeps⟩
  obtain ⟨hnot, hproc⟩ := hkeeps h.notHeld
  obtain ⟨as, has⟩ := Option.ne_none_iff_exists'.mp h.proc
  obtain ⟨as', has', hsame⟩ := hproc as has
  refine ⟨⟨h.pid_nonneg, h.cap_ne, (hstays h.fresh).1, hnot, by simp [has']⟩, ?_, hmaps⟩
  simp only [VmState.entry, has, has', Option.bind_some]
  exact hsame

lemma MapRequest.report {s : VmState} (h : MapRequest pid cap vaddr page s) (vspace : Int)
    (err : Option SeL4Error) : (reportMap m pid vaddr page err s).Ends (Served p) fun result t =>
      (if err = none ∨ NodesRefused m pid vaddr s then
          result = -1 ∧ t.entry pid vaddr = s.entry pid vaddr
        else result = 0 ∧ t.entry pid vaddr = some (BitVec.ofNat 64 page)) ∧
      (s.vspace vspace vaddr = some (cap, page) → t.vspace vspace vaddr = some (cap, page)) := by
  cases err with
  | none => exact ⟨⟨rfl, rfl⟩, id⟩
  | some err =>
    have hmoves : TableMoves m (StaysMapped vspace cap vaddr page) := staysMapped_moves h.cap_ne
    refine Ends.mono (pageTableInsert_adds (frameAllocWith_keeps hmoves.toAllocMoves true)
      (fun _ _ => hmoves.table _ _ _) vaddr page) fun result t hr => ?_
    simp only [reduceCtorEq, false_or, NodesRefused]
    split at hr
    case isTrue hnone =>
      obtain ⟨hresult, hst, hs, ht⟩ := hr
      rw [if_pos hnone]
      exact ⟨⟨hresult, ht.trans hs.symm⟩, (hst h.fresh).2⟩
    case isFalse hsome =>
      obtain ⟨hresult, u, as, hsu, has, hword, rfl⟩ := hr
      obtain ⟨w, hw⟩ := Option.ne_none_iff_exists'.mp hword
      rw [if_neg hsome]
      refine ⟨⟨hresult, ?_⟩, (hsu h.fresh).2⟩
      simp [VmState.entry, VmState.modifyTable, has, pageLookup, PageTable.word_setWord, hw]

/-- `sos_map_frame` reports what became of the mapping exactly if seL4 mapped the frame,
if untyped memory or a slot was refused on the way, or if a frame for the page table is. -/
theorem sosMapFrame_reports_iff {s : VmState} (h : MapRequest pid cap vaddr page s) (vspace : Int) :
    (∀ result t, Exec (Served p) (sosMapFrame m pid vspace cap vaddr r page true s) result t ↔
      ∃ err s₁, MapRun m pid vspace cap vaddr r page p s err s₁ result t) ∧
    ∀ err s₁ result t, MapRun m pid vspace cap vaddr r page p s err s₁ result t →
      (ReportsMapping pid vspace cap vaddr page err result s t ↔
        err = some .noError ∨ err = none ∨ NodesRefused m pid vaddr s₁) := by
  refine ⟨fun result t => ?_, fun err s₁ result t ⟨hattempts, hreport⟩ => ?_⟩
  · rw [sosMapFrame_eq, Coro.bind_apply]
    exact Coroutine.exec_bind_iff
  obtain ⟨h₁, hentry, hmaps⟩ := h.attempts.exec hattempts
  obtain ⟨hresult, hstays⟩ := (h₁.report vspace err).exec hreport
  split at hresult
  case isTrue hwhen =>
    obtain ⟨rfl, hsame⟩ := hresult
    refine iff_of_true ⟨fun h => ?_, fun _ => ⟨by decide, hsame.trans hentry⟩⟩ (.inr hwhen)
    exact absurd h (by decide)
  case isFalse hwhen =>
    obtain ⟨rfl, hset⟩ := hresult
    rw [or_iff_left hwhen]
    refine ⟨fun hrep => (hrep.success rfl).1, fun herr => ?_⟩
    exact ⟨fun _ => ⟨herr, hstays (hmaps herr), hset⟩, fun hne => absurd herr hne⟩

end Report

lemma mapRequest_newProcess : MapRequest 1 100 0x1000 5 newProcess where
  pid_nonneg := by decide
  cap_ne := by decide
  fresh := by decide
  notHeld f hf := by
    simp only [newProcess] at hf
    split at hf
    · cases hf
    · cases hf
  proc := by simp [newProcess]

lemma MapRun.of_play {m : Machine} (err : SeL4Error) {P : VmState → Bool}
    (hplay : ((mapAttempts m 1 1 100 0x1000 allRights 5 newProcess).run (wholePages 1)).toOption.any
      (fun x => x.1 = some err ∧ ((reportMap m 1 0x1000 5 (some err) x.2).run
        (wholePages 1)).toOption.any fun y => y.1 = 0 ∧ P y.2) = true) :
    ∃ s₁ t, MapRun m 1 1 100 0x1000 allRights 5 1 newProcess (some err) s₁ 0 t ∧ P t = true := by
  obtain ⟨⟨_, s1⟩, hattempts, rfl, hrest⟩ := Lts.exists_of_any hplay
  obtain ⟨⟨_, t⟩, hreport, rfl, hP⟩ := Lts.exists_of_any hrest
  exact ⟨s1, t, ⟨Res.exec_of_toOption (served_wholePages 1) hattempts,
    Res.exec_of_toOption (served_wholePages 1) hreport⟩, hP⟩

theorem sosMapFrame_reports_granted :
    MapRequest 1 100 0x1000 5 newProcess ∧
      ∃ t, Exec (Served 1) (sosMapFrame (grantingMachine 64) 1 1 100 0x1000 allRights 5
          true newProcess) 0 t ∧
        ReportsMapping 1 1 100 0x1000 5 (some .noError) 0 newProcess t := by
  obtain ⟨s₁, t, hrun, -⟩ := MapRun.of_play (m := grantingMachine 64) (P := fun _ => true)
    .noError (by decide +kernel)
  obtain ⟨hruns, hiff⟩ := sosMapFrame_reports_iff (m := grantingMachine 64) (p := 1)
    (r := allRights) mapRequest_newProcess 1
  exact ⟨mapRequest_newProcess, t, (hruns 0 t).mpr ⟨_, s₁, hrun⟩,
    (hiff _ s₁ 0 t hrun).mpr (.inl rfl)⟩

/-- A machine on which seL4 refuses every mapping. -/
def refusingMachine : Machine := { grantingMachine 64 with pageMap := fun _ => .other }

theorem sosMapFrame_hides_error :
    ∃ s₁ t, MapRun refusingMachine 1 1 100 0x1000 allRights 5 1 newProcess (some .other) s₁ 0 t ∧
      t.vspace 1 0x1000 = none ∧ t.entry 1 0x1000 = some 5 ∧
      ¬ ReportsMapping 1 1 100 0x1000 5 (some .other) 0 newProcess t := by
  obtain ⟨s₁, t, hrun, htest⟩ : ∃ s₁ t, MapRun refusingMachine 1 1 100 0x1000 allRights 5 1
      newProcess (some .other) s₁ 0 t ∧
        decide (t.vspace 1 0x1000 = none ∧ t.entry 1 0x1000 = some 5) = true :=
    MapRun.of_play .other (by decide +kernel)
  obtain ⟨hvspace, hentry⟩ := of_decide_eq_true htest
  exact ⟨s₁, t, hrun, hvspace, hentry, fun h => nomatch (h.success rfl).1⟩

end SpaghettiOS.Vm
