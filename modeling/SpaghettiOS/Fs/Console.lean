import SpaghettiOS.Fs.Inflight

/-!
# Who reads the console

`console_open` is meant to let one process at a time open the console for reading.
The test of the flags is `flags & O_ACCMODE == O_RDONLY`, which compares first, so that
no open is ever taken for one: `reader` stays empty and every open succeeds.
-/

namespace SpaghettiOS.Fs

open Function (update)
open Coroutine (Res Pool Event)

def Reads (flags : Nat) : Prop := flags &&& oAccmode = oRdonly ∨ flags &&& oAccmode = oRdwr

instance (flags : Nat) : Decidable (Reads flags) := inferInstanceAs (Decidable (_ ∨ _))

/-- The process has a descriptor on which the console was opened for reading. -/
def HoldsRead (s : FsState) (pid : Int) : Prop :=
  ∃ a fd f, s.procs pid = some a ∧ s.file a fd = some f ∧ f.vn = .console ∧ Reads f.flags

def OneReader (s : FsState) : Prop := ∀ p q, HoldsRead s p → HoldsRead s q → p = q

def console : Contract := ⟨OneReader, fun _ _ => True, fun _ _ _ => True⟩

variable {fd : Fin processMaxFiles} {mode c : Nat}

section Console

variable {s t : FsState} {pid : Int} {a : Nat}

lemma OneReader.mono (h : OneReader s) (hle : ∀ q, HoldsRead t q → HoldsRead s q) : OneReader t :=
  fun p q hp hq => h p q (hle p hp) (hle q hq)

lemma HoldsRead.of_setFile {file : OpenFile}
    (hfile : file.vn = .console → ¬ Reads file.flags) {q : Int}
    (h : HoldsRead (s.setFile a fd (some file)) q) : HoldsRead s q := by
  obtain ⟨b, fd', f, hb, hf, hvn, hreads⟩ := h
  rw [file_setFile] at hf
  split at hf
  · cases hf
    exact absurd hreads (hfile hvn)
  · exact ⟨b, fd', f, hb, hf, hvn, hreads⟩

lemma console_fileSafe : console.FileSafe where
  counts _ _ := trivial
  sameVnodes _ _ _ _ := trivial
  holds := by
    intro s t hsame h
    refine OneReader.mono h ?_
    rintro q ⟨a, fd, f, ha, hf, hvn, hreads⟩
    refine ⟨a, fd, f, by rw [← hsame.procs, ha], ?_, hvn, hreads⟩
    rw [FsState.file, ← hsame.fdt]
    exact hf
  drops := by
    intro s t hdrop h
    refine OneReader.mono h ?_
    rintro q ⟨a, fd, f, ha, hf, hvn, hreads⟩
    exact ⟨a, fd, f, by rw [← hdrop.procs, ha], hdrop.file a fd f hf, hvn, hreads⟩
  place _ _ _ _ h := OneReader.mono h fun _ => HoldsRead.of_setFile (by simp)
  std _ _ h := OneReader.mono h fun _ => HoldsRead.of_setFile fun _ => by decide
  create := by
    intro s pid a state htable hnone hfree h
    refine OneReader.mono h ?_
    rintro q ⟨b, fd, f, hb, hf, hvn, hreads⟩
    rcases eq_or_ne q pid with rfl | hne
    · obtain rfl : a = b := by simpa using hb
      simp [FsState.file] at hf
    · have hb' : s.procs q = some b := by simpa [hne] using hb
      have hba : b ≠ a := by
        rintro rfl
        exact absurd ((htable.used q b hb').symm.trans hfree) (by decide)
      exact ⟨b, fd, f, hb', by simpa [FsState.file, hba] using hf, hvn, hreads⟩
  exit := by
    intro s a h
    refine OneReader.mono h ?_
    rintro q ⟨b, fd, f, hb, hf, hvn, hreads⟩
    refine ⟨b, fd, f, hb, ?_, hvn, hreads⟩
    rcases eq_or_ne b a with rfl | hba
    · simpa [FsState.file, FsState.setProc] using hf
    · simpa [FsState.file, FsState.setProc, hba] using hf
  free := by
    intro s pid a _ h
    refine OneReader.mono h ?_
    rintro q ⟨b, fd, f, hb, hf, hvn, hreads⟩
    rcases eq_or_ne q pid with rfl | hne
    · simp at hb
    · exact ⟨b, fd, f, by simpa [hne] using hb, hf, hvn, hreads⟩

end Console

/-! ## Runs -/

/-- The console is opened for reading only when no other process has it open for
reading, or the process has no descriptor left. -/
def Polite (p : FsPool) (e : Event Nat FsOp NfsReply) : Prop :=
  ∀ c pid mode a t fd, e = .start c (.open pid "console" mode) → Reads mode →
    p.state.procs pid = some a → (p.state.heap a).fdt = some t → freeFd t = some fd →
    ∀ q, HoldsRead p.state q → q = pid

section Run

variable {n : Libnfs} {p₀ p p' : FsPool} {e : Event Nat FsOp NfsReply}

lemma fdtPlace_some {s : FsState} {a mode : Nat} {vn : Vnode} {t : FileTable}
    (ht : (s.heap a).fdt = some t) (hfd : freeFd t = some fd) :
    fdtPlace a vn mode s = .done (some fd) (s.setFile a fd (some ⟨vn, mode⟩)) := by
  simp only [fdtPlace, Coro.bind_apply, Coro.get_apply, Res.bind, ht, Coro.ofOption,
    Coro.pure_apply, hfd, Coro.set_apply]

lemma file_freeFd {s : FsState} {a : Nat} {t : FileTable}
    (ht : (s.heap a).fdt = some t) (hfd : freeFd t = some fd) : s.file a fd = none := by
  have hnone := List.find?_some hfd
  rw [FsState.file, ht]
  simpa using hnone

lemma console_open_ok {l : List (Nat × Int)} {s : FsState} {o : Nat → Option Token}
    {pid : Int} (h : console.Inside c l s o)
    (hpolite : ∀ a t fd, Reads mode → s.procs pid = some a → (s.heap a).fdt = some t →
      freeFd t = some fd → ∀ q, HoldsRead s q → q = pid) :
    console.Ok c (syscallOpen n c pid "console" mode s)
      (fun _ s o => console.Inside c l s o) o := by
  rw [syscallOpen_console]
  refine Res.Ok.ofOption_bind fun a ha => ?_
  simp only [fdtPlace, Coro.bind_apply, Coro.get_apply, Res.bind]
  refine Res.Ok.ofOption_bind fun t ht => ?_
  cases hfd : freeFd t with
  | none => exact h
  | some fd =>
    refine h.setFile console_fileSafe.toProcSafe a fd _ ?_
    by_cases hreads : Reads mode
    · have hall : ∀ q, HoldsRead (s.setFile a fd (some ⟨.console, mode⟩)) q → q = pid := by
        rintro q ⟨b, fd', f, hb, hf, hvn, hr⟩
        rw [file_setFile] at hf
        split at hf
        · rename_i hwhere
          obtain rfl := hwhere.1
          exact h.balanced.inj q pid b hb ha
        · exact hpolite a t fd hreads ha ht hfd q ⟨b, fd', f, hb, hf, hvn, hr⟩
      exact fun q q' hq hq' => (hall q hq).trans (hall q' hq').symm
    · exact OneReader.mono h.holds fun q => HoldsRead.of_setFile fun _ => hreads

lemma Polite.ok (hok : ∃ toks, p.Ok console.Inv HasCall (fun _ => console.env) toks)
    (hp : Polite p e) (hstep : FsStep n p e p') :
    ∃ toks, p'.Ok console.Inv HasCall (fun _ => console.env) toks := by
  refine Contract.step_ok hstep hok (fun c op o he h => ?_) fun _ _ _ _ _ _ => trivial
  by_cases hop : ∀ pid mode, op ≠ .open pid "console" mode
  · exact Contract.body_keeps console_fileSafe op hop _ o h
  · push Not at hop
    obtain ⟨pid, mode, rfl⟩ := hop
    refine (console_open_ok h fun a t fd => ?_).bind fun _ _ _ hs => hs
    exact hp c pid mode a t fd he

lemma not_oneReader_of_not_polite (h : ¬ Polite p e) (hstep : FsStep n p e p') :
    ¬ OneReader p'.state := by
  unfold Polite at h
  push Not at h
  obtain ⟨c, pid, mode, a, t, fd, rfl, hreads, ha, ht, hfd, q, hq, hne⟩ := h
  cases hstep with
  | start hw hpark =>
    have hbody : FsOp.body n c (.open pid "console" mode) p.state =
        .done ⟨⟩ (p.state.setFile a fd (some ⟨.console, mode⟩)) := by
      show (syscallOpen n c pid "console" mode p.state).bind _ = _
      rw [syscallOpen_console, ha]
      show (fdtPlace a .console mode p.state).bind _ = _
      rw [fdtPlace_some ht hfd]
      rfl
    rw [hbody] at hpark
    cases hpark
    intro hone
    refine hne (hone q pid ?_ ?_)
    · obtain ⟨b, fd', f, hb, hf, hvn, hr⟩ := hq
      refine ⟨b, fd', f, hb, ?_, hvn, hr⟩
      rw [file_setFile, if_neg]
      · exact hf
      · rintro ⟨rfl, rfl, -⟩
        rw [file_freeFd ht hfd] at hf
        cases hf
    · refine ⟨a, fd, ⟨.console, mode⟩, ha, ?_, rfl, hreads⟩
      rw [file_setFile, if_pos ⟨rfl, rfl, by rw [ht]; rfl⟩]

lemma holdsRead_close {pid fd : Int} {a : Nat} {i : Fin processMaxFiles} {f : OpenFile}
    (ha : p.state.procs pid = some a) (hi : toFd fd = some i) (hf : p.state.file a i = some f)
    (hvn : f.vn = .console) (hwrite : ¬ Reads f.flags)
    (hstep : FsStep n p (.start c (.close pid fd)) p') (q : Int) :
    HoldsRead p'.state q ↔ HoldsRead p.state q := by
  obtain ⟨s', hprocs, hfile, hbody⟩ : ∃ s' : FsState, s'.procs = p.state.procs ∧
      s'.file = p.state.file ∧
      FsOp.body n c (.close pid fd) p.state = .done ⟨⟩ (s'.setFile a i none) := by
    refine ⟨if p.state.reader = p.state.procs pid then { p.state with reader := none }
      else p.state, ?_, ?_, ?_⟩
    · split <;> rfl
    · split <;> rfl
    · simp only [FsOp.body, syscallClose, Coro.bind_apply, Coro.get_apply, Res.bind, ha, hi, hf,
        Coro.ofOption, Coro.pure_apply, vopReclaim, hvn, consoleClose, Coro.modify_apply]
  cases hstep with
  | start hw hpark =>
    rw [hbody] at hpark
    cases hpark
    constructor
    · rintro ⟨b, fd', g, hb, hg, hgvn, hr⟩
      rw [file_setFile, hfile] at hg
      split at hg
      · cases hg
      · exact ⟨b, fd', g, by rw [← hprocs]; exact hb, hg, hgvn, hr⟩
    · rintro ⟨b, fd', g, hb, hg, hgvn, hr⟩
      refine ⟨b, fd', g, by rw [← hprocs] at hb; exact hb, ?_, hgvn, hr⟩
      rw [file_setFile, hfile, if_neg]
      · exact hg
      · rintro ⟨rfl, rfl, -⟩
        rw [hf] at hg
        cases hg
        exact hwrite hr

/-- In a run in which the processes open the console for reading one at a time, the next step
leaves at most one reader exactly when it does so too; and the close of a descriptor for writing
takes nobody's right to read. -/
theorem console_one_reader_iff (hidle : Idle p₀) (hnone : ∀ pid, ¬ HoldsRead p₀.state pid)
    (hrun : Lts.Run (FsStep n) Polite p₀ p) (hstep : FsStep n p e p') :
    (OneReader p'.state ↔ Polite p e) ∧
      ∀ c pid fd a i f, e = .start c (.close pid fd) → p.state.procs pid = some a →
        toFd fd = some i → p.state.file a i = some f → f.vn = .console → ¬ Reads f.flags →
        ∀ q, HoldsRead p'.state q ↔ HoldsRead p.state q := by
  have hok : ∃ toks, p.Ok console.Inv HasCall (fun _ => console.env) toks :=
    hrun.invariant (hidle.ok fun q _ hq _ => absurd hq (hnone q))
      fun hok hp hstep => hp.ok hok hstep
  refine ⟨⟨fun hone => ?_, fun hp => ?_⟩, ?_⟩
  · by_contra hnot
    exact not_oneReader_of_not_polite hnot hstep hone
  · obtain ⟨toks, hinv, -⟩ := hp.ok hok hstep
    exact hinv.2.1
  · rintro c pid fd a i f rfl ha hi hf hvn hwrite q
    exact holdsRead_close ha hi hf hvn hwrite hstep q

end Run

/-! ### Two processes -/

def oneProcess : FsPool :=
  { bootedFs with
    state := (({ bootedFs.state with
      procs := update bootedFs.state.procs 1 (some 10)
      heap := update bootedFs.state.heap 10 ⟨.running, 0, some fun _ => none⟩
      allocated := update bootedFs.state.allocated 10 true }).setFile 10 1
        (some ⟨.console, oWronly⟩)).setFile 10 2 (some ⟨.console, oWronly⟩)
    waiting := update bootedFs.waiting 1 none }

lemma oneProcess_step : FsStep acceptAll bootedFs (.start 1 (.create 1 10 .running)) oneProcess :=
  .start rfl rfl

lemma not_holdsRead_bootedFs (pid : Int) : ¬ HoldsRead bootedFs.state pid := by
  rintro ⟨a, fd, f, -, hf, -, -⟩
  cases hf

lemma not_holdsRead_oneProcess (pid : Int) : ¬ HoldsRead oneProcess.state pid := by
  intro h
  have hstd : oWronly &&& oAccmode ≠ oRdonly ∧ oWronly &&& oAccmode ≠ oRdwr := by decide
  have hnot : ¬ Reads oWronly := not_or.mpr hstd
  obtain ⟨a, fd, f, -, hf, -, -⟩ := (h.of_setFile fun _ => hnot).of_setFile fun _ => hnot
  rcases eq_or_ne a 10 with rfl | hne
  · simp [FsState.file] at hf
  · simp [FsState.file, bootedFs, hne] at hf

theorem console_one_reader_first :
    ∃ p, FsStep acceptAll oneProcess (.start 2 (.open 1 "console" oRdonly)) p ∧
      HoldsRead p.state 1 ∧ OneReader p.state := by
  have hstep : FsStep acceptAll oneProcess (.start 2 (.open 1 "console" oRdonly))
      { oneProcess with
        state := oneProcess.state.setFile 10 0 (some ⟨.console, oRdonly⟩)
        waiting := update oneProcess.waiting 2 none } := .start rfl rfl
  have hrun : Lts.Run (FsStep acceptAll) Polite bootedFs oneProcess :=
    .tail .refl (a := .start 1 (.create 1 10 .running)) (fun _ _ _ _ _ _ he => nomatch he)
      oneProcess_step
  refine ⟨_, hstep, ⟨10, 0, ⟨.console, oRdonly⟩, rfl, rfl, rfl, .inl rfl⟩, ?_⟩
  exact (console_one_reader_iff idle_bootedFs not_holdsRead_bootedFs hrun hstep).1.mpr
    fun _ _ _ _ _ _ _ _ _ _ _ q hq => absurd hq (not_holdsRead_oneProcess q)

theorem two_console_readers :
    ∃ p, Lts.Run (FsStep acceptAll) Lts.anyStep bootedFs p ∧ ¬ OneReader p.state := by
  obtain ⟨p, hrun, ⟨h1, h2⟩, hf1, hf2⟩ : ∃ p, Lts.Run (FsStep acceptAll) Lts.anyStep bootedFs p ∧
      (p.state.procs 1 = some 10 ∧ p.state.procs 2 = some 11) ∧
      p.state.file 10 0 = some ⟨.console, oRdonly⟩ ∧ p.state.file 11 0 = some ⟨.console, oRdonly⟩ :=
    Pool.exists_run (answers_serve []) [(1, some (.create 1 10 .running)),
      (2, some (.create 2 11 .running)), (3, some (.open 1 "console" oRdonly)),
      (4, some (.open 2 "console" oRdonly))] (by decide +kernel)
  refine ⟨p, hrun, fun hone => ?_⟩
  exact absurd (hone 1 2 ⟨10, 0, _, h1, hf1, rfl, .inl rfl⟩ ⟨11, 0, _, h2, hf2, rfl, .inl rfl⟩)
    (by decide)

end SpaghettiOS.Fs
