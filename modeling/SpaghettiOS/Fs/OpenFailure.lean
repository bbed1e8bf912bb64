import SpaghettiOS.Fs.Syscalls

/-!
# Opens that fail

`syscall_open` looks the path up, has the vnode opened, and places it in the file table.
`vnfs_eachopen` takes a reference that nobody gives back, whether libnfs refuses the call, the
server reports an error, or the file table turns out to be full; in the last case the handle
stays open, too.
-/

namespace SpaghettiOS.Fs

open Coroutine (Res Exec)
open Coro (ofOption bind_apply get_apply pure_apply set_apply)

/-! ## What an open can leave behind -/

/-- The vnode was made between the two states. -/
def Fresh (s t : FsState) (v : Nat) : Prop := s.nextVnode ≤ v ∧ v < t.nextVnode

/-- Descriptors, the reader of the console, the handles that are open, and of each vnode its
handle and its references are as before.  A new vnode has the one reference it is made with. -/
structure Clean (s t : FsState) : Prop where
  file : ∀ a fd, t.file a fd = s.file a fd
  reader : t.reader = s.reader
  handles : t.handles = s.handles
  old : ∀ v, ¬ Fresh s t v → (t.vnodes v).nfsfh = (s.vnodes v).nfsfh ∧
    (t.vnodes v).refcount = (s.vnodes v).refcount
  new : ∀ v, Fresh s t v → (t.vnodes v).refcount = 1

lemma clean_refl (s : FsState) : Clean s s where
  file _ _ := rfl
  reader := rfl
  handles := rfl
  old _ _ := ⟨rfl, rfl⟩
  new _ hv := absurd hv.2 (not_lt.mpr hv.1)

/-! ## Changes that do not matter -/

/-- The processes, whether they are zombies, and the vnodes are as before. -/
structure Same (s t : FsState) : Prop where
  procs : t.procs = s.procs
  state : ∀ a, (t.heap a).state = (s.heap a).state
  vnodes : t.vnodes = s.vnodes
  nextVnode : t.nextVnode = s.nextVnode

section Same

variable {s t u : FsState}

lemma Same.refl (s : FsState) : Same s s := ⟨rfl, fun _ => rfl, rfl, rfl⟩

lemma Same.trans (h : Same s t) (h' : Same t u) : Same s u where
  procs := h'.procs.trans h.procs
  state a := (h'.state a).trans (h.state a)
  vnodes := h'.vnodes.trans h.vnodes
  nextVnode := h'.nextVnode.trans h.nextVnode

lemma Same.addCount (s : FsState) (a : Nat) (k : Int) : Same s (s.addCount a k) :=
  ⟨rfl, fun b => s.addCount_state a b k, rfl, rfl⟩

lemma Same.active (s : FsState) (l : List (Nat × Nat × Int)) : Same s { s with active := l } :=
  ⟨rfl, fun _ => rfl, rfl, rfl⟩

lemma Same.calls (s : FsState) (k : Nat) : Same s { s with calls := k } :=
  ⟨rfl, fun _ => rfl, rfl, rfl⟩

lemma Same.addVnode (h : Same s t) (dir : Nat) (name : String) :
    Same (s.addVnode dir name) (t.addVnode dir name) where
  procs := h.procs
  state := h.state
  vnodes := by simp only [FsState.addVnode, h.vnodes, h.nextVnode]
  nextVnode := congrArg (· + 1) h.nextVnode

end Same

/-- A statement about an outcome that does not look at the counts. -/
def Stable {α : Type} (Q : α → FsState → Prop) : Prop := ∀ r t u, Same t u → Q r t → Q r u

section Operations

variable {α : Type} {Q : α → FsState → Prop} {n : Libnfs} {co a : Nat} {pid : Int} {s : FsState}
  {env : NfsCall → NfsReply → FsState → FsState → Prop}

lemma ret_ends (hQ : Stable Q) {r : α} (h : Q r s) : (ret a r s).Ends env Q :=
  hQ r s _ (.addCount s a (-1)) h

lemma operation_ends (hQ : Stable Q) {skipped : α} {body : Nat → FsM α}
    (hskip : ∀ a, s.procs pid = some a → (s.heap a).state = .zombie → Q skipped s)
    (hbody : ∀ a t, s.procs pid = some a → (s.heap a).state ≠ .zombie → Same s t →
      (body a t).Ends env Q) : (operation co pid skipped body s).Ends env Q := by
  simp only [operation, bind_apply, get_apply, Res.bind]
  refine Res.Ends.ofOption_bind fun a ha => ?_
  split
  · exact hskip a ha ‹_›
  · have henter : Same s ((s.enter co a pid).addCount a 1) :=
      (Same.active s _).trans (.addCount _ a 1)
    exact (hbody a _ ha ‹_› henter).bind fun r t hr => hQ r t _ (.active t _) hr

lemma call_bind_ends {req : NfsCall} {f : Option NfsReply → FsM α}
    (hrefused : ∀ t, Same s t → (f none t).Ends env Q)
    (hreply : ∀ t r u, Same s t → env req r t u → (f (some r) u).Ends env Q) :
    ((call n req s).bind f).Ends env Q := by
  simp only [call, bind_apply, get_apply, set_apply, Res.bind]
  cases n.accepts s.calls with
  | false => exact hrefused _ (.calls s _)
  | true => exact fun r u hu => hreply _ r u (.calls s _) hu

/-! ## The stages -/

/-- The processes and the references are as before, whatever became of the handles. -/
structure Reclaimed (s t : FsState) : Prop where
  procs : t.procs = s.procs
  state : ∀ a, (t.heap a).state = (s.heap a).state
  nextVnode : t.nextVnode = s.nextVnode
  refcount : ∀ w, (t.vnodes w).refcount = (s.vnodes w).refcount

lemma Same.reclaimed {t : FsState} (h : Same s t) : Reclaimed s t :=
  ⟨h.procs, h.state, h.nextVnode, fun _ => by rw [h.vnodes]⟩

lemma stable_reclaimed : Stable fun (_ : α) t => Reclaimed s t :=
  fun _ _ _ hsame h => ⟨hsame.procs.trans h.procs, fun a => (hsame.state a).trans (h.state a),
    hsame.nextVnode.trans h.nextVnode, fun w => by rw [hsame.vnodes, h.refcount]⟩

lemma Same.closed {t : FsState} (h : Same s t) (fh : Fh) : Reclaimed s (t.closed fh) := by
  cases fh with
  | null | junk | handle => exact ⟨h.procs, h.state, h.nextVnode, h.reclaimed.refcount⟩

lemma Reclaimed.setFh {t : FsState} (h : Reclaimed s t) (v : Nat) (fh : Fh) :
    Reclaimed s (t.setFh v fh) := by
  refine ⟨h.procs, h.state, h.nextVnode, fun w => ?_⟩
  rw [← h.refcount]
  rcases eq_or_ne w v with rfl | hne
  · simp [FsState.setFh]
  · simp [FsState.setFh, hne]

lemma vnfsReclaim_ends (v : Nat) (file : Option (Nat × Fin processMaxFiles)) :
    (vnfsReclaim n co v pid file s).Ends Answers fun _ t => Reclaimed s t := by
  refine operation_ends stable_reclaimed (fun a _ _ => (Same.refl s).reclaimed)
    fun a t _ _ hst => ?_
  refine call_bind_ends (fun u hu => ?_) fun u r u' hu hanswer => ?_
  · exact ret_ends stable_reclaimed (hst.trans hu).reclaimed
  · cases hanswer
    refine Res.Ends.bind (Q := fun _ t => Reclaimed s t) ?_ fun r t' ht' =>
      ret_ends stable_reclaimed ht'
    exact Res.Ends.check_bind fun _ => ((hst.trans hu).closed _).setFh v .null

/-- What `vnfs_creat` returns: nothing, or the vnode it has added. -/
def Creates (dir : Nat) (name : String) (s : FsState) (x : Int × Option Nat) (t : FsState) :
    Prop :=
  (x.2 = none ∧ Same s t) ∨ (x.2 = some s.nextVnode ∧ Same (s.addVnode dir name) t)

lemma vnfsCreat_ends (dir : Nat) (name : String) :
    (vnfsCreat co dir name pid s).Ends Answers (Creates dir name s) := by
  have hstable : Stable (Creates dir name s) := by
    rintro r t u hsame (⟨hnone, h⟩ | ⟨hnew, h⟩)
    · exact .inl ⟨hnone, h.trans hsame⟩
    · exact .inr ⟨hnew, h.trans hsame⟩
  refine operation_ends hstable (fun a _ _ => .inl ⟨rfl, .refl s⟩) fun a t _ _ hst => ?_
  refine ret_ends hstable (.inr ⟨?_, hst.addVnode dir name⟩)
  rw [hst.nextVnode]

/-- The references of a vnode that was found are those it had, or it was made for this. -/
def Counted (s t : FsState) (v : Nat) : Prop :=
  (¬ Fresh s t v ∧ (t.vnodes v).refcount = (s.vnodes v).refcount) ∨
    (Fresh s t v ∧ 1 ≤ (t.vnodes v).refcount)

/-- What a lookup comes to: it does not fail. -/
structure Looked (s : FsState) (x : Int × Option Nat) (t : FsState) : Prop where
  procs : t.procs = s.procs
  state : ∀ a, (t.heap a).state = (s.heap a).state
  result : x.1 = 0
  found : ∀ v, x.2 = some v → Counted s t v

lemma stable_looked : Stable (Looked s) := by
  intro r t u hsame h
  refine ⟨hsame.procs.trans h.procs, fun a => (hsame.state a).trans (h.state a), h.result,
    fun v hv => ?_⟩
  have hcounted := h.found v hv
  simp only [Counted, Fresh, hsame.nextVnode, hsame.vnodes] at hcounted ⊢
  exact hcounted

lemma Same.looked {t : FsState} (h : Same s t) (v : Option Nat) : Looked s (0, v) t where
  procs := h.procs
  state := h.state
  result := rfl
  found w _ := by
    refine .inl ⟨fun hw => ?_, by rw [h.vnodes]⟩
    have hnext := h.nextVnode
    have hle := hw.1
    have hlt := hw.2
    omega

/-- One vnode has been made, with a reference at least. -/
structure Made (s t : FsState) : Prop where
  procs : t.procs = s.procs
  state : ∀ a, (t.heap a).state = (s.heap a).state
  nextVnode : t.nextVnode = s.nextVnode + 1
  refcount : 1 ≤ (t.vnodes s.nextVnode).refcount

lemma Made.reclaimed {t u : FsState} (h : Made s t) (h' : Reclaimed t u) : Made s u where
  procs := h'.procs.trans h.procs
  state a := (h'.state a).trans (h.state a)
  nextVnode := h'.nextVnode.trans h.nextVnode
  refcount := by
    rw [h'.refcount]
    exact h.refcount

lemma Made.looked {t : FsState} (h : Made s t) : Looked s (0, some s.nextVnode) t where
  procs := h.procs
  state := h.state
  result := rfl
  found v hv := by
    obtain rfl := Option.some.inj hv
    exact .inr ⟨⟨le_rfl, by rw [h.nextVnode]; exact Nat.lt_succ_self _⟩, h.refcount⟩

lemma nfsCreateCb_ends {dir : Nat} {name path : String} {t u : FsState} {r : NfsReply}
    (h : Same (s.addVnode dir name) t) (hanswer : Answers (.create s.nextVnode path) r t u) :
    (nfsCreateCb s.nextVnode r u).Ends Answers fun x t => x = 0 ∧ Made s t := by
  have hu : u.procs = s.procs ∧ (∀ a, (u.heap a).state = (s.heap a).state) ∧
      u.nextVnode = s.nextVnode + 1 ∧ (u.vnodes s.nextVnode).refcount = 1 := by
    have hrefcount : (t.vnodes s.nextVnode).refcount = 1 := by
      rw [h.vnodes]
      simp [FsState.addVnode]
    rcases hanswer with ⟨-, -, rfl⟩ | ⟨-, -, rfl⟩
    · exact ⟨h.procs, h.state, h.nextVnode, hrefcount⟩
    · exact ⟨h.procs, h.state, h.nextVnode, hrefcount⟩
  obtain ⟨hprocs, hstate, hnext, hrefcount⟩ := hu
  refine Res.Ends.check_bind fun _ => ⟨rfl, hprocs, hstate, hnext, ?_⟩
  simp [FsState.incref, FsState.setFh, hrefcount]

lemma createFile_ends (dir : Nat) (pathname : String) {t : FsState} (h : Same s t) :
    (createFile n co dir pathname a t).Ends Answers (Looked s) := by
  refine (vnfsCreat_ends dir pathname).bind fun x t1 hx => ?_
  refine Res.Ends.ofOption_bind fun new hnew => ?_
  obtain ⟨hnone, -⟩ | ⟨hsome, hadd⟩ := hx
  · rw [hnew] at hnone
    cases hnone
  obtain rfl : new = s.nextVnode := by
    rw [← h.nextVnode]
    exact Option.some.inj (hnew.symm.trans hsome)
  have hadd : Same (s.addVnode dir pathname) t1 := (h.addVnode dir pathname).trans hadd
  refine call_bind_ends (fun _ _ => trivial) fun t2 r u ht2 hanswer => ?_
  refine (nfsCreateCb_ends (hadd.trans ht2) hanswer).bind ?_
  rintro r t3 ⟨rfl, hmade⟩
  refine (vnfsReclaim_ends s.nextVnode none).bind fun _ t4 ht4 => ?_
  exact ret_ends stable_looked (hmade.reclaimed ht4).looked

lemma nfsLookupCb_ends (dir : Nat) (pathname : String) (reply : NfsReply) {t : FsState}
    (h : Same s t) : (nfsLookupCb co dir pathname reply t).Ends Answers fun x u =>
      (x.1 ≠ 0 ∧ Same s u) ∨ Looked s x u := by
  refine Res.Ends.check_bind fun _ => ?_
  split
  · refine (vnfsCreat_ends dir pathname).bind fun x u hx => .inr ?_
    obtain ⟨-, hsame⟩ | ⟨hnew, hadd⟩ := hx
    · exact (h.trans hsame).looked _
    · have hadd : Same (s.addVnode dir pathname) u := (h.addVnode dir pathname).trans hadd
      rw [hnew, h.nextVnode]
      refine Made.looked ⟨hadd.procs, hadd.state, hadd.nextVnode, ?_⟩
      rw [hadd.vnodes]
      simp [FsState.addVnode]
  · exact .inl ⟨show (-1 : Int) ≠ 0 by decide, h⟩

lemma vnfsLookup_ends (dir : Nat) (pathname : String) :
    (vnfsLookup n co dir pathname true pid s).Ends Answers (Looked s) := by
  refine operation_ends stable_looked (fun a _ _ => (Same.refl s).looked _) fun a t _ _ hst => ?_
  simp only [bind_apply, get_apply, Res.bind]
  cases (t.chain.dropWhile (· ≠ dir)).find? fun v => (t.vnodes v).path = pathname with
  | some v => exact ret_ends stable_looked (hst.looked _)
  | none =>
    by_cases hdev : pathname ∈ devList dir
    · simp only [hdev, if_true]
      exact ret_ends stable_looked (hst.looked _)
    simp only [hdev, if_false]
    refine call_bind_ends (fun _ _ => trivial) fun u r u' hu hanswer => ?_
    cases hanswer
    refine (nfsLookupCb_ends dir pathname r (hst.trans hu)).bind fun x t1 hx => ?_
    rcases hx with ⟨hr, hsame⟩ | hlooked
    · simp only [ne_eq, hr, not_false_eq_true, and_self, if_true]
      exact createFile_ends dir pathname hsame
    · simp only [ne_eq, hlooked.result, not_true_eq_false, false_and, if_false]
      rw [← hlooked.result]
      exact ret_ends stable_looked hlooked

lemma vnfsEachopen_ends (v flags : Nat) (hp : s.procs pid = some a)
    (hstate : (s.heap a).state ≠ .zombie) :
    (vnfsEachopen n co v flags pid s).Ends Answers fun _ t =>
      t.nextVnode = s.nextVnode ∧ (t.vnodes v).refcount = (s.vnodes v).refcount + 1 := by
  have hstable : Stable fun (_ : Int) (t : FsState) =>
      t.nextVnode = s.nextVnode ∧ (t.vnodes v).refcount = (s.vnodes v).refcount + 1 := by
    rintro r t u hsame ⟨hnext, hrefcount⟩
    exact ⟨hsame.nextVnode.trans hnext, by rw [hsame.vnodes, hrefcount]⟩
  refine operation_ends hstable (fun b hb hz => ?_) fun b t _ _ hst => ?_
  · obtain rfl := Option.some.inj (hp.symm.trans hb)
    exact absurd hz hstate
  have hincref : (t.incref v).nextVnode = s.nextVnode ∧
      ((t.incref v).vnodes v).refcount = (s.vnodes v).refcount + 1 :=
    ⟨hst.nextVnode, by simp [FsState.incref, hst.vnodes]⟩
  refine call_bind_ends (fun u hu => ?_) fun u r u' hu hanswer => ?_
  · exact ret_ends hstable (hstable 0 _ _ hu hincref)
  · have hopen := hstable 0 _ _ hu hincref
    have hreply : u'.nextVnode = u.nextVnode ∧ u'.vnodes = u.vnodes := by
      rcases hanswer with ⟨-, -, rfl⟩ | ⟨-, -, rfl⟩
      · exact ⟨rfl, rfl⟩
      · exact ⟨rfl, rfl⟩
    refine ret_ends hstable ⟨hreply.1.trans hopen.1, ?_⟩
    rw [← hopen.2, ← hreply.2]
    simp [FsState.setFh]

lemma operation_zombie {skipped : α} {body : Nat → FsM α} (hp : s.procs pid = some a)
    (hz : (s.heap a).state = .zombie) : operation co pid skipped body s = .done skipped s := by
  simp only [operation, bind_apply, get_apply, Res.bind, hp, ofOption, pure_apply, hz, if_true]

end Operations

section Failed

variable {n : Libnfs} {co a mode : Nat} {pid : Int} {path : String} {s s₁ s₂ : FsState}

lemma findDevice_of_ne (hpath : path ≠ "console") : findDevice path = none := if_neg hpath

/-- A path that is not the console's leads to a vnode of the file system. -/
lemma vfsLookup_ends (hpath : path ≠ "console") :
    (vfsLookup n co path true pid s).Ends Answers fun x t =>
      ∃ v, x.2 = v.map .nfs ∧ Looked s (x.1, v) t := by
  simp only [vfsLookup, findDevice_of_ne hpath]
  by_cases hroot : path = ""
  · simp only [hroot, ne_eq, not_true_eq_false, if_false]
    exact ⟨some rootVnode, rfl, (Same.refl s).looked _⟩
  · simp only [ne_eq, hroot, not_false_eq_true, if_true]
    exact (vnfsLookup_ends rootVnode path).bind fun x t hx => ⟨x.2, rfl, hx⟩

lemma vfsLookup_zombie (hpath : path ≠ "console") (hp : s.procs pid = some a)
    (hz : (s.heap a).state = .zombie) :
    (vfsLookup n co path true pid s).Ends Answers fun _ t => t = s := by
  simp only [vfsLookup, findDevice_of_ne hpath]
  by_cases hroot : path = ""
  · simp only [hroot, ne_eq, not_true_eq_false, if_false]
    rfl
  · simp only [ne_eq, hroot, not_false_eq_true, if_true, bind_apply, vnfsLookup,
      operation_zombie hp hz]
    rfl

lemma fdtPlace_failed {vn : Vnode} (h : Exec Answers (fdtPlace a vn mode s) none s₂) : s₂ = s := by
  simp only [fdtPlace, bind_apply, get_apply, Res.bind] at h
  obtain ⟨t, s', ht, hrest⟩ := Exec.of_bind h
  cases hfdt : (s.heap a).fdt with
  | none =>
    rw [hfdt] at ht
    cases ht
  | some t' =>
    rw [hfdt] at ht
    cases ht
    cases hfree : freeFd t with
    | none =>
      simp only [hfree] at hrest
      cases hrest
      rfl
    | some fd =>
      simp only [hfree] at hrest
      cases hrest

/-- Every call that fails has found a vnode and had it opened. -/
lemma syscallOpen_failed (hpath : path ≠ "console") (hp : s.procs pid = some a)
    (h : Exec Answers (syscallOpen n co pid path mode s) none s₂) :
    ∃ x v r s₁, Exec Answers (vfsLookup n co path true pid s) x s₁ ∧ x.2 = some (.nfs v) ∧
      Looked s (x.1, some v) s₁ ∧ Exec Answers (vnfsEachopen n co v mode pid s₁) r s₂ := by
  simp only [syscallOpen, bind_apply, get_apply, Res.bind, hp, ofOption, pure_apply] at h
  obtain ⟨res, t, hopen, hplace⟩ := Exec.of_bind h
  obtain ⟨x, s₁, hlookup, hrest⟩ := Exec.of_bind hopen
  obtain ⟨v, hv, hlooked⟩ := (vfsLookup_ends hpath).exec hlookup
  have hr : x.1 = 0 := hlooked.result
  simp only [hr, ne_eq, not_true_eq_false, if_false, hv] at hrest
  obtain ⟨vn, t', hvn, hrest⟩ := Exec.of_bind hrest
  cases v with
  | none => cases hvn
  | some v =>
    cases hvn
    obtain ⟨r, u, heach, hrest⟩ := Exec.of_bind hrest
    refine ⟨x, v, r, s₁, hlookup, hv, hlooked, ?_⟩
    split at hrest
    · cases hrest
      cases hplace
      exact heach
    · cases hrest
      rw [fdtPlace_failed hplace]
      exact heach

/-- A failed open leaves nothing behind exactly if the path is that of the console, or the
process is a zombie. -/
theorem failedOpen_clean_iff (hp : s.procs pid = some a)
    (h : Exec Answers (syscallOpen n co pid path mode s) none s₂) :
    Clean s s₂ ↔ path = "console" ∨ (s.heap a).state = .zombie := by
  by_cases hpath : path = "console"
  · subst hpath
    rw [syscallOpen_console, hp] at h
    rw [fdtPlace_failed h]
    exact ⟨fun _ => .inl rfl, fun _ => clean_refl s⟩
  obtain ⟨x, v, r, s₁, hlookup, hx, hlooked, heach⟩ := syscallOpen_failed hpath hp h
  by_cases hz : (s.heap a).state = .zombie
  · obtain rfl := (vfsLookup_zombie hpath hp hz).exec hlookup
    rw [vnfsEachopen, operation_zombie hp hz] at heach
    cases heach
    exact ⟨fun _ => .inr hz, fun _ => clean_refl _⟩
  · refine ⟨fun hclean => ?_, fun hor => absurd hor (not_or.mpr ⟨hpath, hz⟩)⟩
    have hp₁ : s₁.procs pid = some a := by rw [hlooked.procs, hp]
    have hz₁ : (s₁.heap a).state ≠ .zombie := by rwa [hlooked.state]
    obtain ⟨hnext, hrefcount⟩ := (vnfsEachopen_ends v mode hp₁ hz₁).exec heach
    rcases hlooked.found v rfl with ⟨hold, hcount⟩ | ⟨hnew, hcount⟩
    · have hkept := (hclean.old v (by rwa [Fresh, hnext])).2
      omega
    · have hone := hclean.new v (by rwa [Fresh, hnext])
      omega

end Failed

/-! ### A process with a file table -/

/-- Process 1 with its file table, and the file `f` that was looked up before. -/
def oneUser (t : FileTable) : FsState :=
  { bootedFs.state with
    procs := fun pid => if pid = kernelProc then some 0 else if pid = 1 then some 1 else none
    heap := fun a => ⟨.running, 0, if a = 1 then some t else none⟩
    vnodes := fun v => if v = 1 then ⟨"f", .null, 1⟩ else ⟨"", .junk, 1⟩
    chain := [rootVnode, 1]
    nextVnode := 2 }

def fullTable : FileTable := fun _ => some ⟨.console, oWronly⟩

def refuseAll : Libnfs := ⟨fun _ => false⟩

theorem failedOpen_clean_console :
    Exec Answers (syscallOpen acceptAll 3 1 "console" 0 (oneUser fullTable)) none
        (oneUser fullTable) ∧ Clean (oneUser fullTable) (oneUser fullTable) := by
  have hopen : Exec Answers (syscallOpen acceptAll 3 1 "console" 0 (oneUser fullTable)) none
      (oneUser fullTable) := by
    rw [syscallOpen_console]
    exact .done
  exact ⟨hopen, (failedOpen_clean_iff rfl hopen).mpr (.inl rfl)⟩

theorem failed_open_leaks :
    (∃ t, Exec Answers (syscallOpen refuseAll 3 1 "f" 0 (oneUser fun _ => none)) none t ∧
      ¬ Clean (oneUser fun _ => none) t) ∧
    ∃ t, Exec Answers (syscallOpen acceptAll 3 1 "f" 0 (oneUser fullTable)) none t ∧
      t.handles 0 = some "f" ∧ ¬ Clean (oneUser fullTable) t := by
  obtain ⟨_, t, hrefused, rfl, hrefcount⟩ := Res.exists_exec
    (m := syscallOpen refuseAll 3 1 "f" 0 (oneUser fun _ => none))
    (P := fun r t => r = none ∧ (t.vnodes 1).refcount = 2) (answers_serve [] 3) (by decide +kernel)
  obtain ⟨_, u, hfull, rfl, hopen⟩ := Res.exists_exec
    (m := syscallOpen acceptAll 3 1 "f" 0 (oneUser fullTable))
    (P := fun r u => r = none ∧ u.handles 0 = some "f") (answers_serve [] 3) (by decide +kernel)
  refine ⟨⟨t, hrefused, fun hclean => ?_⟩, u, hfull, hopen, fun hclean => ?_⟩
  · have hkept := (hclean.old 1 fun hfresh => absurd hfresh.1 (by decide)).2
    rw [hrefcount] at hkept
    exact absurd hkept (by decide)
  · have hkept := congrFun hclean.handles 0
    rw [hopen] at hkept
    cases hkept

end SpaghettiOS.Fs
