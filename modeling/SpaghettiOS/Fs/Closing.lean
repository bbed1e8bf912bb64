import SpaghettiOS.Fs.Syscalls

/-!
# The files of a process that is taken down

`proc_destroy` reclaims the open files of a process that `zombiefy` has made a zombie
before.  `vnfs_reclaim` begins with a test for a zombie and closes nothing: the handles
stay open, and with the file table goes the last trace of them.
-/

namespace SpaghettiOS.Fs

open Coro (ofOption)
open Coroutine (Res Pool)

def NfsCall.Closes (a : Nat) (fd : Fin processMaxFiles) : NfsCall → Bool
  | .close _ _ file => file = some (a, fd)
  | _ => false

/-- If `proc_destroy` succeeds for process `a`, then each of its NFS files has been closed
once and its handle is gone, and a process with the console open is not its reader
anymore. -/
def ClosesFiles (n : Libnfs) (co a : Nat) (pid : Int) (s : FsState) : Prop :=
  ∀ h t, (∀ req s, Answers req (h req s).1 s (h req s).2) →
    (procDestroy n co pid s).run h = .ok (0, t) → ∀ fd f, s.file a fd = some f → match f.vn with
      | .console => t.reader ≠ some a
      | .nfs v => ((procDestroy n co pid s).requests h).countP (NfsCall.Closes a fd) = 1 ∧
          ∀ x, (s.vnodes v).nfsfh = .handle x → t.handles x = none

section Closing

variable {n : Libnfs} {co a : Nat} {pid : Int} {s : FsState}

/-- What happens to the reader of the console when a file of a zombie is reclaimed. -/
structure ReaderDrop (a : Nat) (fds : List (Fin processMaxFiles)) (s s' : FsState) : Prop where
  reader : s'.reader = s.reader ∨ s'.reader = none
  released : ∀ fd ∈ fds, ∀ flags, s.file a fd = some ⟨.console, flags⟩ → s'.reader ≠ some a
  others : ∀ fd, fd ∉ fds → s'.file a fd = s.file a fd

lemma ReaderDrop.not_reader {fds : List (Fin processMaxFiles)} {s' : FsState}
    (h : ReaderDrop a fds s s') (hs : s.reader ≠ some a) : s'.reader ≠ some a := by
  rcases h.reader with heq | hnone
  · rwa [heq]
  · rw [hnone]
    nofun

variable (n co) in
lemma fdtDestroyAt_reader (hp : s.procs pid = some a) (hz : (s.heap a).state = .zombie)
    (fd : Fin processMaxFiles) : ∃ s', fdtDestroyAt n co a pid fd s = .done ⟨⟩ s' ∧ FilesDrop s s' ∧
      ReaderDrop a [fd] s s' := by
  obtain ⟨s', hs', hdrop⟩ := fdtDestroyAt_zombie n co hp hz fd
  refine ⟨s', hs', hdrop, ?_⟩
  have hothers : ∀ u : FsState, u.heap = s.heap → ∀ fd', fd' ∉ [fd] →
      (u.setFile a fd none).file a fd' = s.file a fd' := by
    intro u hu fd' hne
    have hne : fd' ≠ fd := by simpa using hne
    rw [file_setFile, if_neg fun h => hne h.2.1]
    simp only [FsState.file, hu]
  simp only [fdtDestroyAt, Coro.bind_apply, Coro.get_apply, Res.bind] at hs'
  cases hf : s.file a fd with
  | none =>
    rw [hf] at hs'
    cases hs'
    refine ⟨.inl rfl, fun fd' hfd' flags hfile => ?_, fun _ _ => rfl⟩
    rw [List.mem_singleton.mp hfd', hf] at hfile
    cases hfile
  | some f =>
    obtain ⟨vn, flags⟩ := f
    rw [hf] at hs'
    cases vn with
    | console =>
      cases hs'
      by_cases hreader : s.reader = s.procs pid
      · simp only [if_pos hreader]
        exact ⟨.inr rfl, fun _ _ _ _ h => (by cases h), hothers { s with reader := none } rfl⟩
      · simp only [if_neg hreader]
        exact ⟨.inl rfl, fun _ _ _ _ => hp ▸ hreader, hothers s rfl⟩
    | nfs v =>
      have hclosed : vopReclaim n co (.nfs v) pid (some (a, fd)) s = .done 0 s := by
        simp [vopReclaim, vnfsReclaim, operation, hp, ofOption, hz, Res.bind]
      simp only [Coro.bind_apply, hclosed, Res.bind, Coro.modify_apply] at hs'
      cases hs'
      refine ⟨.inl rfl, fun fd' hfd' flags' hfile => ?_, hothers s rfl⟩
      rw [List.mem_singleton.mp hfd', hf] at hfile
      cases hfile

variable (n co) in
lemma fdtDestroy_reader (hp : s.procs pid = some a) (hz : (s.heap a).state = .zombie) :
    ∃ s', fdtDestroy n co a pid s = .done ⟨⟩ s' ∧ FilesDrop s s' ∧
      ReaderDrop a (List.finRange processMaxFiles) s s' := by
  unfold fdtDestroy
  have hnodup := List.nodup_finRange processMaxFiles
  generalize List.finRange processMaxFiles = l at hnodup
  induction l generalizing s with
  | nil => exact ⟨s, rfl, .refl s, .inl rfl, nofun, fun _ _ => rfl⟩
  | cons fd l ih =>
    obtain ⟨hfd, hl⟩ := List.nodup_cons.mp hnodup
    obtain ⟨s1, h1, hdrop₁, hreader₁⟩ := fdtDestroyAt_reader n co hp hz fd
    obtain ⟨s2, h2, hdrop₂, hreader₂⟩ :=
      ih (s := s1) (by rw [hdrop₁.procs, hp]) (by rw [hdrop₁.state, hz]) hl
    refine ⟨s2, ?_, hdrop₁.trans hdrop₂, ?_, fun fd' hfd' flags hfile => ?_, fun fd' hfd' => ?_⟩
    · show (fdtDestroyAt n co a pid fd s).bind _ = _
      rw [h1]
      exact h2
    · rcases hreader₂.reader with heq | hnone
      · rw [heq]
        exact hreader₁.reader
      · exact .inr hnone
    · rcases List.mem_cons.mp hfd' with rfl | hmem
      · exact hreader₂.not_reader (hreader₁.released fd' (by simp) flags hfile)
      · have hne : fd' ∉ [fd] := fun h => hfd (List.mem_singleton.mp h ▸ hmem)
        exact hreader₂.released fd' hmem flags ((hreader₁.others fd' hne).trans hfile)
    · obtain ⟨hne, hmem⟩ := not_or.mp (mt List.mem_cons.mpr hfd')
      exact (hreader₂.others fd' hmem).trans (hreader₁.others fd' (by simpa using hne))

variable (n co) in
lemma procDestroy_reader (hp : s.procs pid = some a) (hz : (s.heap a).state = .zombie)
    (hcount : (s.heap a).coroCount = 0) : ∃ t, procDestroy n co pid s = .done 0 t ∧
      ∀ fd flags, s.file a fd = some ⟨.console, flags⟩ → t.reader ≠ some a := by
  obtain ⟨s', hs', hdrop, hreader⟩ : ∃ s', dropFiles n co a pid s = .done ⟨⟩ s' ∧
      FilesDrop s s' ∧ ∀ fd flags, s.file a fd = some ⟨.console, flags⟩ → s'.reader ≠ some a := by
    simp only [dropFiles, Coro.bind_apply, Coro.get_apply, Res.bind]
    cases hfdt : (s.heap a).fdt with
    | none => exact ⟨s, rfl, .refl s, fun fd flags hf => by simp [FsState.file, hfdt] at hf⟩
    | some files =>
      obtain ⟨s', hs', hdrop, hreader⟩ := fdtDestroy_reader n co hp hz
      exact ⟨s', hs', hdrop, fun fd => hreader.released fd (List.mem_finRange fd)⟩
  exact ⟨_, procDestroy_zombie n co hp hz hcount hs' hdrop, hreader⟩

lemma not_closesFiles (hp : s.procs pid = some a) (hz : (s.heap a).state = .zombie)
    (hcount : (s.heap a).coroCount = 0) {fd : Fin processMaxFiles} {v flags : Nat}
    (hf : s.file a fd = some ⟨.nfs v, flags⟩) : ¬ ClosesFiles n co a pid s := by
  intro h
  obtain ⟨t, ht, -⟩ := procDestroy_reader n co hp hz hcount
  have hclosed := h (serve [] co) t (answers_serve [] co) (by rw [ht]; rfl) fd _ hf
  rw [ht] at hclosed
  exact absurd hclosed.1 Nat.zero_ne_one

/-- For a zombie with nothing in flight `proc_destroy` succeeds, and it has closed its
files exactly if none of them is one of the server. -/
theorem closesFiles_iff (hp : s.procs pid = some a) (hz : (s.heap a).state = .zombie)
    (hcount : (s.heap a).coroCount = 0) :
    ClosesFiles n co a pid s ↔ ∀ fd f, s.file a fd = some f → f.vn = .console := by
  constructor
  · intro h fd f hf
    obtain ⟨vn, flags⟩ := f
    cases vn with
    | console => rfl
    | nfs v => exact absurd h (not_closesFiles hp hz hcount hf)
  · intro h handler u _ hu fd f hf
    obtain ⟨t, ht, hreader⟩ := procDestroy_reader n co hp hz hcount
    rw [ht] at hu
    cases hu
    obtain ⟨vn, flags⟩ := f
    obtain rfl : vn = .console := h fd _ hf
    exact hreader fd flags hf

end Closing

theorem closesFiles_console :
    ∃ p, Lts.Run (FsStep acceptAll) Lts.anyStep bootedFs p ∧ p.state.procs 1 = some 10 ∧
      ClosesFiles acceptAll 3 10 1 p.state := by
  obtain ⟨p, hrun, hproc, hz, hcount, hfiles⟩ :
      ∃ p, Lts.Run (FsStep acceptAll) Lts.anyStep bootedFs p ∧ p.state.procs 1 = some 10 ∧
        (p.state.heap 10).state = .zombie ∧ (p.state.heap 10).coroCount = 0 ∧
        ∀ fd, (p.state.file 10 fd).all fun f => f.vn = .console :=
    Pool.exists_run (answers_serve []) [(1, some (.create 1 10 .running)), (2, some (.exit 1))]
      (by decide +kernel)
  refine ⟨p, hrun, hproc, (closesFiles_iff hproc hz hcount).mpr fun fd f hf => ?_⟩
  have hfd := hfiles fd
  rw [hf] at hfd
  exact of_decide_eq_true hfd

theorem nfs_file_not_closed :
    ∃ p, Lts.Run (FsStep acceptAll) Lts.anyStep bootedFs p ∧ p.state.procs 1 = some 10 ∧
      (p.state.heap 10).state = .zombie ∧ ¬ ClosesFiles acceptAll 4 10 1 p.state ∧
      ∃ q, FsStep acceptAll p (.start 4 (.destroy 1)) q ∧ q.state.procs 1 = none ∧
        q.state.handles 0 = some "f" := by
  obtain ⟨p, hrun, hproc, hz, hcount, hfile, hidle, hdestroy⟩ :
      ∃ p, Lts.Run (FsStep acceptAll) Lts.anyStep bootedFs p ∧ p.state.procs 1 = some 10 ∧
        (p.state.heap 10).state = .zombie ∧ (p.state.heap 10).coroCount = 0 ∧
        p.state.file 10 0 = some ⟨.nfs 1, 0⟩ ∧ (p.waiting 4).isNone ∧
        (p.park 4 (FsOp.body acceptAll 4 (.destroy 1) p.state)).any
          fun q => q.state.procs 1 = none ∧ q.state.handles 0 = some "f" :=
    Pool.exists_run (answers_serve ["f"]) [(1, some (.create 1 10 .running)),
      (2, some (.open 1 "f" 0)), (2, none), (2, none), (3, some (.exit 1))] (by decide +kernel)
  obtain ⟨q, hq, hnone, hopen⟩ := Lts.exists_of_any hdestroy
  exact ⟨p, hrun, hproc, hz, not_closesFiles hproc hz hcount hfile, q,
    .start (Option.isNone_iff_eq_none.mp hidle) hq, hnone, hopen⟩

end SpaghettiOS.Fs
