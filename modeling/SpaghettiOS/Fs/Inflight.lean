import SpaghettiOS.Fs.Syscalls

/-!
# Operations in flight are counted exactly

`coro_count` of a process is to be the number of its operations that are past their
test for a zombie and have not returned, in any interleaving.

The token of a suspended coroutine is the list of the operations it is inside of, the
innermost first, with the call it waits for.  What later modules prove beyond the count
comes as a `Contract`.
-/

namespace SpaghettiOS.Fs

open Function (update)
open Coro (bind_apply get_apply modify_apply set_apply)
open Coroutine (Res Pool)

/-! ## Contracts -/

/-- Every structure in use is the process of one pid. -/
structure ProcTable (s : FsState) : Prop where
  used : ∀ pid a, s.procs pid = some a → s.allocated a = true
  owned : ∀ a, s.allocated a = true → ∃ pid, s.procs pid = some a
  inj : ∀ pid pid' a, s.procs pid = some a → s.procs pid' = some a → pid = pid'

/-- The counts are those of the operations in flight, which are the ones the coroutines
are inside of, and whose processes are still there. -/
structure Balanced (s : FsState) (stack : Nat → List (Nat × Int)) : Prop extends ProcTable s where
  count : ∀ a, s.allocated a = true → (s.heap a).coroCount = s.active.countP (·.2.1 = a)
  own : ∀ c x, s.active.count (c, x) = (stack c).count x
  live : ∀ x ∈ s.active, s.procs x.2.2 = some x.2.1

/-- What else is proved of the coroutines. -/
structure Contract where
  holds : FsState → Prop
  counts : FsState → NfsCall → Prop
  allows : FsState → NfsCall → NfsReply → Prop

abbrev Token := List (Nat × Int) × NfsCall

def stackOf (toks : Nat → Option Token) (c : Nat) : List (Nat × Int) :=
  ((toks c).map Prod.fst).getD []

def HasCall (req : NfsCall) (tok : Token) : Prop := tok.2 = req

namespace Contract

variable (E : Contract)

def Inv (s : FsState) (toks : Nat → Option Token) : Prop :=
  Balanced s (stackOf toks) ∧ E.holds s ∧ ∀ c tok, toks c = some tok → E.counts s tok.2

def env (req : NfsCall) (r : NfsReply) (s s' : FsState) : Prop :=
  Answers req r s s' ∧ E.allows s req r

/-- Coroutine `c` runs and is inside of the operations of `l`. -/
structure Inside (c : Nat) (l : List (Nat × Int)) (s : FsState) (o : Nat → Option Token) :
    Prop where
  balanced : Balanced s (update (stackOf o) c l)
  holds : E.holds s
  counts : ∀ d tok, d ≠ c → o d = some tok → E.counts s tok.2

/-- From inside of `l`, the coroutine comes to a result that meets `Q`. -/
abbrev Ok {α : Type} (c : Nat) (x : Res FsState NfsCall NfsReply Crash α)
    (Q : α → FsState → (Nat → Option Token) → Prop) (o : Nat → Option Token) : Prop :=
  x.Ok E.Inv HasCall E.env c Q o

/-- The coroutine keeps what it finds, inside of the operations of `l`. -/
abbrev Keeps {α : Type} (c : Nat) (l : List (Nat × Int)) (x : FsM α) : Prop :=
  ∀ s o, E.Inside c l s o → E.Ok c (x s) (fun _ s o => E.Inside c l s o) o

/-- The same for a coroutine that takes the innermost operation off the count, and has
not left it. -/
abbrev Returns {α : Type} (c a : Nat) (pid : Int) (l : List (Nat × Int)) (x : FsM α) : Prop :=
  ∀ s o, E.Inside c ((a, pid) :: l) s o →
    E.Ok c (x s) (fun _ s o => E.Inside c ((a, pid) :: l) (s.addCount a 1) o) o

end Contract

/-! ## Changes that a contract may not notice -/

structure SameFiles (s t : FsState) : Prop where
  procs : t.procs = s.procs
  allocated : t.allocated = s.allocated
  fdt : ∀ a, (t.heap a).fdt = (s.heap a).fdt
  state : ∀ a, (t.heap a).state = (s.heap a).state

/-- So are the handles of the server and of the vnodes, though there may be new vnodes. -/
structure Quiet (s t : FsState) : Prop extends SameFiles s t where
  handles : t.handles = s.handles
  nextHandle : t.nextHandle = s.nextHandle
  nextVnode : s.nextVnode ≤ t.nextVnode
  chain : ∀ v ∈ t.chain, v ∈ s.chain ∨ v < t.nextVnode
  path : ∀ v < s.nextVnode, (t.vnodes v).path = (s.vnodes v).path
  nfsfh : ∀ v < s.nextVnode, (t.vnodes v).nfsfh = (s.vnodes v).nfsfh
  new : ∀ v, s.nextVnode ≤ v → v < t.nextVnode → (t.vnodes v).nfsfh = .junk

def NfsCall.Plain : NfsCall → Prop
  | .opendir | .pread _ _ _ | .pwrite _ _ _ | .stat _ => True
  | .open _ _ _ | .create _ _ | .close _ _ _ => False

/-- Quiet changes do not matter, nor does waiting for a plain call. -/
structure Contract.Steady (E : Contract) : Prop where
  holds : ∀ {s t}, Quiet s t → E.holds s → E.holds t
  counts : ∀ {s t req}, Quiet s t → E.counts s req → E.counts t req
  plain : ∀ {req} s, req.Plain → E.counts s req

structure Contract.FilesOnly (E : Contract) : Prop where
  holds : ∀ {s t}, SameFiles s t → E.holds s → E.holds t
  counts : ∀ s req, E.counts s req

lemma Contract.FilesOnly.steady {E : Contract} (h : E.FilesOnly) : E.Steady :=
  ⟨fun hq => h.holds hq.toSameFiles, fun _ _ => h.counts _ _, fun s _ => h.counts s _⟩

variable {req : NfsCall}

section Changes

variable {s t : FsState}

lemma Quiet.of_vnodes (hprocs : t.procs = s.procs) (hallocated : t.allocated = s.allocated)
    (hfdt : ∀ a, (t.heap a).fdt = (s.heap a).fdt)
    (hstate : ∀ a, (t.heap a).state = (s.heap a).state) (hvnodes : t.vnodes = s.vnodes)
    (hnext : t.nextVnode = s.nextVnode) (hchain : t.chain = s.chain)
    (hhandles : t.handles = s.handles) (hfresh : t.nextHandle = s.nextHandle) : Quiet s t where
  procs := hprocs
  allocated := hallocated
  fdt := hfdt
  state := hstate
  handles := hhandles
  nextHandle := hfresh
  nextVnode := hnext.ge
  chain v hv := .inl (hchain ▸ hv)
  path v _ := by rw [hvnodes]
  nfsfh v _ := by rw [hvnodes]
  new v hv hv' := absurd hv (by omega)

lemma Quiet.addCount (s : FsState) (a : Nat) (k : Int) : Quiet s (s.addCount a k) :=
  .of_vnodes rfl rfl (fun b => s.addCount_fdt a b k) (fun b => s.addCount_state a b k)
    rfl rfl rfl rfl rfl

lemma Quiet.active (s : FsState) (l : List (Nat × Nat × Int)) : Quiet s { s with active := l } :=
  .of_vnodes rfl rfl (fun _ => rfl) (fun _ => rfl) rfl rfl rfl rfl rfl

lemma Quiet.trans {u : FsState} (h : Quiet s t) (h' : Quiet t u) : Quiet s u where
  procs := h'.procs.trans h.procs
  allocated := h'.allocated.trans h.allocated
  fdt a := (h'.fdt a).trans (h.fdt a)
  state a := (h'.state a).trans (h.state a)
  handles := h'.handles.trans h.handles
  nextHandle := h'.nextHandle.trans h.nextHandle
  nextVnode := h.nextVnode.trans h'.nextVnode
  chain v hv := by
    rcases h'.chain v hv with hv | hv
    · exact (h.chain v hv).imp_right fun hlt => hlt.trans_le h'.nextVnode
    · exact .inr hv
  path v hv := (h'.path v (hv.trans_le h.nextVnode)).trans (h.path v hv)
  nfsfh v hv := (h'.nfsfh v (hv.trans_le h.nextVnode)).trans (h.nfsfh v hv)
  new v hv hv' := by
    by_cases hlt : v < t.nextVnode
    · exact (h'.nfsfh v hlt).trans (h.new v hv hlt)
    · exact h'.new v (not_lt.mp hlt) hv'

lemma Quiet.incref (s : FsState) (v : Nat) : Quiet s (s.incref v) where
  procs := rfl
  allocated := rfl
  fdt _ := rfl
  state _ := rfl
  handles := rfl
  nextHandle := rfl
  nextVnode := le_rfl
  chain _ hv := .inl hv
  path w _ := by
    rcases eq_or_ne w v with rfl | hne
    · simp [FsState.incref]
    · simp [FsState.incref, hne]
  nfsfh w _ := by
    rcases eq_or_ne w v with rfl | hne
    · simp [FsState.incref]
    · simp [FsState.incref, hne]
  new w hw hw' := absurd hw' (not_lt.mpr hw)

lemma mem_insertAfter {dir v w : Nat} {l : List Nat} (h : w ∈ insertAfter dir v l) :
    w ∈ l ∨ w = v := by
  induction l with
  | nil => cases h
  | cons x l ih =>
    unfold insertAfter at h
    split at h
    · rcases List.mem_cons.mp h with rfl | h
      · exact .inl List.mem_cons_self
      rcases List.mem_cons.mp h with rfl | h
      · exact .inr rfl
      · exact .inl (List.mem_cons_of_mem _ h)
    · rcases List.mem_cons.mp h with rfl | h
      · exact .inl List.mem_cons_self
      · exact (ih h).imp_left (List.mem_cons_of_mem _)

lemma Quiet.addVnode (s : FsState) (dir : Nat) (name : String) :
    Quiet s (s.addVnode dir name) where
  procs := rfl
  allocated := rfl
  fdt _ := rfl
  state _ := rfl
  handles := rfl
  nextHandle := rfl
  nextVnode := Nat.le_succ _
  chain v hv := (mem_insertAfter hv).imp_right fun heq => heq.trans_lt (Nat.lt_succ_self _)
  path v hv := by simp [FsState.addVnode, hv.ne]
  nfsfh v hv := by simp [FsState.addVnode, hv.ne]
  new v hv hv' := by
    obtain rfl : v = s.nextVnode := Nat.le_antisymm (Nat.le_of_lt_succ hv') hv
    simp [FsState.addVnode]

lemma SameFiles.setFh (s : FsState) (v : Nat) (fh : Fh) : SameFiles s (s.setFh v fh) :=
  ⟨rfl, rfl, fun _ => rfl, fun _ => rfl⟩

lemma SameFiles.answers {r : NfsReply} (h : Answers req r s t) :
    SameFiles s t ∧ t.active = s.active ∧ ∀ a, (t.heap a).coroCount = (s.heap a).coroCount := by
  cases req with
  | «open» v path flags | create v path =>
    rcases h with ⟨-, -, rfl⟩ | ⟨-, -, rfl⟩
    · exact ⟨⟨rfl, rfl, fun _ => rfl, fun _ => rfl⟩, rfl, fun _ => rfl⟩
    · exact ⟨⟨rfl, rfl, fun _ => rfl, fun _ => rfl⟩, rfl, fun _ => rfl⟩
  | close v fh file =>
    cases h
    cases fh with
    | null | junk | handle x => exact ⟨⟨rfl, rfl, fun _ => rfl, fun _ => rfl⟩, rfl, fun _ => rfl⟩
  | opendir | pread | pwrite | stat =>
    cases h
    exact ⟨⟨rfl, rfl, fun _ => rfl, fun _ => rfl⟩, rfl, fun _ => rfl⟩

lemma Answers.eq_of_plain {r : NfsReply} (hreq : req.Plain) (h : Answers req r s t) : t = s := by
  cases req with
  | «open» | create | close => exact hreq.elim
  | opendir | pread | pwrite | stat => exact h

/-! ## The balance -/

variable {stack : Nat → List (Nat × Int)} {c a : Nat} {pid : Int} {l : List (Nat × Int)}

lemma ProcTable.same (h : ProcTable s) (hsame : SameFiles s t) : ProcTable t where
  used := by rw [hsame.procs, hsame.allocated]; exact h.used
  owned := by rw [hsame.procs, hsame.allocated]; exact h.owned
  inj := by rw [hsame.procs]; exact h.inj

lemma Balanced.same (h : Balanced s stack) (hsame : SameFiles s t)
    (hcount : ∀ a, (t.heap a).coroCount = (s.heap a).coroCount) (hactive : t.active = s.active) :
    Balanced t stack where
  toProcTable := h.toProcTable.same hsame
  count a ha := by rw [hcount, hactive]; exact h.count a (hsame.allocated ▸ ha)
  own := by rw [hactive]; exact h.own
  live := by rw [hactive, hsame.procs]; exact h.live

lemma coroCount_addCount (s : FsState) (a b : Nat) (k : Int) :
    ((s.addCount a k).heap b).coroCount = (s.heap b).coroCount + if b = a then k else 0 := by
  rcases eq_or_ne b a with rfl | hne
  · simp [FsState.addCount, FsState.setProc]
  · simp [FsState.addCount, FsState.setProc, hne]

lemma Balanced.enter (h : Balanced s (update stack c l)) (ha : s.procs pid = some a) :
    Balanced ((s.enter c a pid).addCount a 1) (update stack c ((a, pid) :: l)) where
  toProcTable := h.toProcTable.same ((Quiet.active s _).trans (.addCount _ a 1)).toSameFiles
  count b hb := by
    rw [coroCount_addCount]
    show (s.heap b).coroCount + _ = (((c, a, pid) :: s.active).countP fun x => x.2.1 = b : Nat)
    rw [List.countP_cons, h.count b hb]
    rcases eq_or_ne b a with rfl | hne
    · simp
    · simp [hne, hne.symm]
  own d x := by
    show ((c, a, pid) :: s.active).count (d, x) = _
    rw [List.count_cons, h.own d x]
    rcases eq_or_ne d c with rfl | hd
    · simp [List.count_cons]
    · simp [hd, hd.symm]
  live x hx := by
    rcases List.mem_cons.mp hx with rfl | hx
    · exact ha
    · exact h.live x hx

lemma Balanced.procs (h : Balanced s (update stack c ((a, pid) :: l))) :
    (c, a, pid) ∈ s.active ∧ s.procs pid = some a := by
  have hmem : (c, a, pid) ∈ s.active := by
    rw [← List.count_pos_iff, h.own c (a, pid)]
    simp
  exact ⟨hmem, h.live _ hmem⟩

lemma Balanced.leave (h : Balanced (s.addCount a 1) (update stack c ((a, pid) :: l))) :
    Balanced (s.leave c a pid) (update stack c l) := by
  obtain ⟨hmem, -⟩ := h.procs
  replace hmem : (c, a, pid) ∈ s.active := hmem
  refine { toProcTable := ⟨h.used, h.owned, h.inj⟩, count := fun b hb => ?_, own := fun d x => ?_,
           live := fun x hx => h.live x (List.mem_of_mem_erase hx) }
  · have hb' := h.count b hb
    rw [coroCount_addCount] at hb'
    have hperm : s.active.countP (fun x => x.2.1 = b) =
        ((c, a, pid) :: s.active.erase (c, a, pid)).countP fun x => x.2.1 = b :=
      (List.perm_cons_erase hmem).countP_eq _
    show (s.heap b).coroCount = ((s.active.erase (c, a, pid)).countP fun x => x.2.1 = b : Nat)
    have hactive : (s.addCount a 1).active = s.active := rfl
    rw [hactive, hperm, List.countP_cons] at hb'
    rcases eq_or_ne b a with rfl | hne
    · simpa using hb'
    · simpa [hne, hne.symm] using hb'
  · show (s.active.erase (c, a, pid)).count (d, x) = _
    have hd' : s.active.count (d, x) = _ := h.own d x
    rw [List.count_erase, hd']
    rcases eq_or_ne d c with rfl | hd
    · rcases eq_or_ne x (a, pid) with rfl | hx
      · simp
      · have hx' : ((d, a, pid) == (d, x)) = false := by simpa using hx.symm
        simp [hx', hx.symm]
    · simp [hd, hd.symm]

lemma coroCount_setFile (s : FsState) (a : Nat) (fd : Fin processMaxFiles)
    (file : Option OpenFile) (b : Nat) :
    ((s.setFile a fd file).heap b).coroCount = (s.heap b).coroCount := by
  rcases eq_or_ne b a with rfl | hne
  · simp [FsState.setFile, FsState.setProc]
  · simp [FsState.setFile, FsState.setProc, hne]

lemma Balanced.setFile (h : Balanced s stack) (a : Nat) (fd : Fin processMaxFiles)
    (file : Option OpenFile) : Balanced (s.setFile a fd file) stack where
  used := h.used
  owned := h.owned
  inj := h.inj
  count b hb := (coroCount_setFile s a fd file b).trans (h.count b hb)
  own := h.own
  live := h.live

lemma Balanced.create (h : Balanced s stack) (hnone : s.procs pid = none)
    (hfree : s.allocated a = false) (state : ProcState) (fdt : Option FileTable) :
    Balanced { s with
      procs := update s.procs pid (some a)
      heap := update s.heap a ⟨state, 0, fdt⟩
      allocated := update s.allocated a true } stack := by
  have hother : ∀ b, s.allocated b = true → b ≠ a := by
    rintro b hb rfl
    exact absurd (hb.symm.trans hfree) (by decide)
  have hidle : s.active.countP (·.2.1 = a) = 0 := by
    refine List.countP_eq_zero.mpr fun x hx heq => ?_
    exact hother _ (h.used _ _ (h.live x hx)) (by simpa using heq)
  refine { used := ?_, owned := ?_, inj := ?_, count := ?_, own := h.own, live := ?_ }
  · intro p b hp
    rcases eq_or_ne p pid with rfl | hne
    · obtain rfl : a = b := by simpa using hp
      simp
    · have hb := h.used p b (by simpa [hne] using hp)
      simp [hother b hb, hb]
  · intro b hb
    rcases eq_or_ne b a with rfl | hne
    · exact ⟨pid, by simp⟩
    · obtain ⟨p, hp⟩ := h.owned b (by simpa [hne] using hb)
      have hpid : p ≠ pid := by
        rintro rfl
        rw [hnone] at hp
        cases hp
      exact ⟨p, by simpa [hpid] using hp⟩
  · intro p p' b hp hp'
    rcases eq_or_ne p pid with rfl | hne
    · rcases eq_or_ne p' p with rfl | hne'
      · rfl
      · obtain rfl : a = b := by simpa using hp
        exact absurd rfl (hother a (h.used p' a (by simpa [hne'] using hp')))
    · rcases eq_or_ne p' pid with rfl | hne'
      · obtain rfl : a = b := by simpa using hp'
        exact absurd rfl (hother a (h.used p a (by simpa [hne] using hp)))
      · exact h.inj p p' b (by simpa [hne] using hp) (by simpa [hne'] using hp')
  · intro b hb
    rcases eq_or_ne b a with rfl | hne
    · simp [hidle]
    · simpa [hne] using h.count b (by simpa [hne] using hb)
  · intro x hx
    have hlive := h.live x hx
    have hpid : x.2.2 ≠ pid := by
      intro heq
      rw [heq, hnone] at hlive
      cases hlive
    simpa [hpid] using hlive

lemma Balanced.destroy (h : Balanced s stack) (hp : s.procs pid = some a)
    (hzero : (s.heap a).coroCount = 0) (hdrop : FilesDrop s t) :
    Balanced { t with
      procs := update t.procs pid none
      allocated := update t.allocated a false } stack := by
  have hidle : ∀ x ∈ s.active, x.2.1 ≠ a := by
    have hcount := h.count a (h.used pid a hp)
    rw [hzero] at hcount
    have hnone := List.countP_eq_zero.mp (Int.natCast_eq_zero.mp hcount.symm)
    exact fun x hx heq => hnone x hx (by simpa using heq)
  refine { used := ?_, owned := ?_, inj := ?_, count := ?_, own := ?_, live := ?_ }
  · intro q b hq
    rcases eq_or_ne q pid with rfl | hne
    · simp at hq
    · have hq' : s.procs q = some b := by simpa [hne, hdrop.procs] using hq
      have hb : b ≠ a := by
        rintro rfl
        exact hne (h.inj q pid b hq' hp)
      simpa [hb, hdrop.allocated] using h.used q b hq'
  · intro b hb
    rcases eq_or_ne b a with rfl | hne
    · simp at hb
    · obtain ⟨q, hq⟩ := h.owned b (by simpa [hne, hdrop.allocated] using hb)
      have hqpid : q ≠ pid := by
        rintro rfl
        exact hne (Option.some.inj (hq.symm.trans hp))
      exact ⟨q, by simpa [hqpid, hdrop.procs] using hq⟩
  · intro q q' b hq hq'
    rcases eq_or_ne q pid with rfl | hne
    · simp at hq
    rcases eq_or_ne q' pid with rfl | hne'
    · simp at hq'
    · exact h.inj q q' b (by simpa [hne, hdrop.procs] using hq)
        (by simpa [hne', hdrop.procs] using hq')
  · intro b hb
    rcases eq_or_ne b a with rfl | hne
    · simp at hb
    · show (t.heap b).coroCount = t.active.countP _
      rw [hdrop.coroCount, hdrop.active]
      exact h.count b (by simpa [hne, hdrop.allocated] using hb)
  · show ∀ d x, t.active.count (d, x) = _
    rw [hdrop.active]
    exact h.own
  · intro x hx
    have hx' : x ∈ s.active := by rwa [← hdrop.active]
    have hlive := h.live x hx'
    have hpid : x.2.2 ≠ pid := by
      intro heq
      rw [heq, hp] at hlive
      exact hidle x hx' (Option.some.inj hlive).symm
    simpa [hpid, hdrop.procs] using hlive

end Changes

/-! ## Inside of an operation -/

namespace Contract

variable {E : Contract} {n : Libnfs} {c a : Nat} {pid : Int} {l : List (Nat × Int)}
variable {s t : FsState} {o : Nat → Option Token} {α β : Type}

lemma stackOf_update (o : Nat → Option Token) (c : Nat) (tok : Option Token) :
    stackOf (update o c tok) = update (stackOf o) c ((tok.map Prod.fst).getD []) := by
  funext d
  rcases eq_or_ne d c with rfl | hd
  · simp [stackOf]
  · simp [stackOf, hd]

lemma inv_some : E.Inv s (update o c (some (l, req))) ↔ E.Inside c l s o ∧ E.counts s req := by
  unfold Inv
  rw [stackOf_update]
  constructor
  · rintro ⟨hb, hh, hc⟩
    refine ⟨⟨hb, hh, fun d tok hd htok => hc d tok ?_⟩, hc c (l, req) (by simp)⟩
    simpa [hd] using htok
  · rintro ⟨⟨hb, hh, hc⟩, hreq⟩
    refine ⟨hb, hh, fun d tok htok => ?_⟩
    rcases eq_or_ne d c with rfl | hd
    · obtain rfl : (l, req) = tok := by simpa using htok
      exact hreq
    · exact hc d tok hd (by simpa [hd] using htok)

lemma inv_none : E.Inv s (update o c none) ↔ E.Inside c [] s o := by
  unfold Inv
  rw [stackOf_update]
  constructor
  · rintro ⟨hb, hh, hc⟩
    exact ⟨hb, hh, fun d tok hd htok => hc d tok (by simpa [hd] using htok)⟩
  · rintro ⟨hb, hh, hc⟩
    refine ⟨hb, hh, fun d tok htok => ?_⟩
    rcases eq_or_ne d c with rfl | hd
    · simp at htok
    · exact hc d tok hd (by simpa [hd] using htok)

lemma Inside.quiet (hE : E.Steady) (h : E.Inside c l s o) (hq : Quiet s t)
    (hcount : ∀ a, (t.heap a).coroCount = (s.heap a).coroCount) (hactive : t.active = s.active) :
    E.Inside c l t o :=
  ⟨h.balanced.same hq.toSameFiles hcount hactive, hE.holds hq h.holds,
    fun d tok hd htok => hE.counts hq (h.counts d tok hd htok)⟩

lemma Inside.enter (hE : E.Steady) (h : E.Inside c l s o) (ha : s.procs pid = some a) :
    E.Inside c ((a, pid) :: l) ((s.enter c a pid).addCount a 1) o := by
  have hq : Quiet s ((s.enter c a pid).addCount a 1) := (Quiet.active s _).trans (.addCount _ a 1)
  exact ⟨h.balanced.enter ha, hE.holds hq h.holds,
    fun d tok hd htok => hE.counts hq (h.counts d tok hd htok)⟩

lemma Inside.leave (hE : E.Steady) (h : E.Inside c ((a, pid) :: l) (s.addCount a 1) o) :
    E.Inside c l (s.leave c a pid) o := by
  have hq : Quiet (s.addCount a 1) (s.leave c a pid) := by
    refine .of_vnodes rfl rfl (fun b => ?_) (fun b => ?_) rfl rfl rfl rfl rfl
    · exact ((Quiet.addCount s a 1).fdt b).symm
    · exact ((Quiet.addCount s a 1).state b).symm
  exact ⟨h.balanced.leave, hE.holds hq h.holds,
    fun d tok hd htok => hE.counts hq (h.counts d tok hd htok)⟩

lemma Inside.off (hE : E.Steady) (h : E.Inside c l s o) :
    E.Inside c l ((s.addCount a (-1)).addCount a 1) o := by
  refine h.quiet hE ((Quiet.addCount s a (-1)).trans (.addCount _ a 1)) (fun b => ?_) rfl
  rw [coroCount_addCount, coroCount_addCount]
  split
  · omega
  · omega

lemma Keeps.pure (x : α) : E.Keeps c l (Pure.pure x) := fun _ _ h => h

lemma Keeps.bind {x : FsM α} {f : α → FsM β} (hx : E.Keeps c l x)
    (hf : ∀ r, E.Keeps c l (f r)) : E.Keeps c l (x >>= f) :=
  fun s o h => (hx s o h).bind fun r s o hs => hf r s o hs

lemma Keeps.get_bind {f : FsState → FsM β} (hf : ∀ s, E.Keeps c l (f s)) :
    E.Keeps c l (get >>= f) := fun s o h => hf s s o h

lemma Keeps.check (p : Prop) [Decidable p] (e : Crash) : E.Keeps c l (Coro.check p e) := by
  intro s o h
  unfold Coro.check
  split
  · exact h
  · trivial

lemma Keeps.ofOption (e : Crash) (x : Option α) : E.Keeps c l (Coro.ofOption e x) := by
  intro s o h
  cases x with
  | none => trivial
  | some r => exact h

lemma Returns.bind {x : FsM α} {f : α → FsM β} (hx : E.Keeps c ((a, pid) :: l) x)
    (hf : ∀ r, E.Returns c a pid l (f r)) : E.Returns c a pid l (x >>= f) :=
  fun s o h => (hx s o h).bind fun r s o hs => hf r s o hs

lemma Returns.get_bind {f : FsState → FsM β} (hf : ∀ s, E.Returns c a pid l (f s)) :
    E.Returns c a pid l (get >>= f) := fun s o h => hf s s o h

lemma call_ok (hE : E.Steady) (h : E.Inside c l s o) (hreq : E.counts s req) :
    E.Ok c (call n req s) (fun reply t o => match reply with
      | none => E.Inside c l t o ∧ Quiet s t
      | some r => ∃ s1, E.Inside c l s1 o ∧ E.counts s1 req ∧ E.env req r s1 t) o := by
  have hq : Quiet s { s with calls := s.calls + 1 } :=
    .of_vnodes rfl rfl (fun _ => rfl) (fun _ => rfl) rfl rfl rfl rfl rfl
  have hcall : E.Inside c l { s with calls := s.calls + 1 } o := h.quiet hE hq (fun _ => rfl) rfl
  simp only [call, bind_apply, get_apply, set_apply, Res.bind]
  split
  · refine Res.Ok.yield_bind (l, req) rfl (inv_some.mpr ⟨hcall, hE.counts hq hreq⟩) ?_
    intro r s1 s2 o' h1 hr
    obtain ⟨hinside, hcounts⟩ := inv_some.mp h1
    exact ⟨s1, hinside, hcounts, hr⟩
  · exact ⟨hcall, hq⟩

lemma call_keeps (hE : E.Steady) (hreq : req.Plain) : E.Keeps c l (call n req) := by
  intro s o h
  refine (call_ok hE h (hE.plain s hreq)).mono fun reply t o ht => ?_
  cases reply with
  | none => exact ht.1
  | some r =>
    obtain ⟨s1, hinside, -, hr⟩ := ht
    obtain rfl := hr.1.eq_of_plain hreq
    exact hinside

lemma ret_returns (hE : E.Steady) (r : α) : E.Returns c a pid l (ret a r) :=
  fun _ _ h => h.off hE

lemma operation_ok (hE : E.Steady) {skipped : α} {body : Nat → FsM α}
    {Q : α → FsState → (Nat → Option Token) → Prop} (h : E.Inside c l s o)
    (hskip : ∀ a, s.procs pid = some a → (s.heap a).state = .zombie → Q skipped s o)
    (hbody : ∀ a t, s.procs pid = some a → (s.heap a).state ≠ .zombie → Quiet s t →
      E.Inside c ((a, pid) :: l) t o → E.Ok c (body a t) (fun r s o => Q r (s.leave c a pid) o) o) :
    E.Ok c (operation c pid skipped body s) Q o := by
  simp only [operation, bind_apply, get_apply, Res.bind]
  refine Res.Ok.ofOption_bind fun a ha => ?_
  split
  · rename_i hz
    exact hskip a ha hz
  · rename_i hz
    simp only [bind_apply, modify_apply, Res.bind]
    have hq : Quiet s ((s.enter c a pid).addCount a 1) :=
      (Quiet.active s _).trans (.addCount _ a 1)
    exact Res.Ok.bind (hbody a _ ha hz hq (h.enter hE ha)) fun r s o hs => hs

lemma operation_keeps (hE : E.Steady) {skipped : α} {body : Nat → FsM α}
    (hbody : ∀ a, E.Returns c a pid l (body a)) : E.Keeps c l (operation c pid skipped body) := by
  intro s o h
  refine operation_ok hE h (fun _ _ _ => h) fun a t _ _ _ ht => ?_
  exact (hbody a t o ht).mono fun r s o hr => hr.leave hE

/-! ## The operations without handles -/

section Steady

variable (hE : E.Steady)

include hE

lemma request_returns (hreq : req.Plain) {refused : α} {callback : NfsReply → FsM α}
    (hcb : ∀ reply, E.Keeps c ((a, pid) :: l) (callback reply)) :
    E.Returns c a pid l (request n a req refused callback) := by
  refine Returns.bind (call_keeps hE hreq) fun reply => ?_
  cases reply with
  | none => exact ret_returns hE _
  | some reply => exact Returns.bind (hcb reply) fun r => ret_returns hE r

lemma incref_keeps (v : Nat) : E.Keeps c l (modify fun s => s.incref v) :=
  fun s _ h => h.quiet hE (.incref s v) (fun _ => rfl) rfl

omit hE in
lemma nfsStat64Cb_keeps (reply : NfsReply) : E.Keeps c l (nfsStat64Cb reply) := by
  unfold nfsStat64Cb
  split
  · exact .pure _
  · exact .pure _

lemma retName_returns (name : String) : E.Returns c a pid l (retName a name) :=
  Returns.bind (.check _ _) fun _ => ret_returns hE _

lemma vnfsWrite_keeps (v : Nat) (uio : Uio) : E.Keeps c l (vnfsWrite n c v uio) :=
  operation_keeps hE fun _ => Returns.get_bind fun _ =>
    request_returns hE (by trivial) fun _ => Keeps.bind (.check _ _) fun _ => .pure _

lemma vnfsRead_keeps (v : Nat) (uio : Uio) : E.Keeps c l (vnfsRead n c v uio) :=
  operation_keeps hE fun _ => Returns.get_bind fun _ =>
    request_returns hE (by trivial) fun _ => Keeps.bind (.check _ _) fun _ => .pure _

lemma vnfsGetdirent_keeps (dir : Nat) (uio : Uio) : E.Keeps c l (vnfsGetdirent n c dir uio) := by
  refine operation_keeps hE fun a => ?_
  split
  · exact retName_returns hE _
  · refine Returns.bind (call_keeps hE (by trivial)) fun reply => ?_
    cases reply with
    | none => exact ret_returns hE _
    | some reply =>
      refine Returns.bind (Keeps.bind (.check _ _) fun _ => .pure _) fun path => ?_
      cases path with
      | none => exact ret_returns hE _
      | some path => exact retName_returns hE path

lemma vnfsStat_keeps (v : Nat) (pid : Int) : E.Keeps c l (vnfsStat n c v pid) :=
  operation_keeps hE fun _ => Returns.get_bind fun _ =>
    request_returns hE (by trivial) nfsStat64Cb_keeps

lemma vnfsCreat_keeps (dir : Nat) (name : String) (pid : Int) :
    E.Keeps c l (vnfsCreat c dir name pid) := by
  refine operation_keeps hE fun a s o h => ?_
  have hadd : E.Inside c ((a, pid) :: l) (s.addVnode dir name) o :=
    h.quiet hE (.addVnode s dir name) (fun _ => rfl) rfl
  exact ret_returns hE (0, some s.nextVnode) (s.addVnode dir name) o hadd

lemma nfsLookupCb_keeps (dir : Nat) (pathname : String) (reply : NfsReply) :
    E.Keeps c l (nfsLookupCb c dir pathname reply) := by
  refine Keeps.bind (.check _ _) fun _ => ?_
  split
  · exact Keeps.bind (vnfsCreat_keeps hE _ _ _) fun _ => .pure _
  · exact .pure _

lemma nfsGetStatbuf_keeps (dir : Nat) (path : String) (pid : Int) :
    E.Keeps c l (nfsGetStatbuf n c dir path pid) := by
  refine operation_keeps hE fun a => ?_
  split
  · exact ret_returns hE _
  · exact request_returns hE (by trivial) nfsStat64Cb_keeps

end Steady

/-! ## The operations with handles, for a contract that does not look at them -/

section FilesOnly

variable (hE : E.FilesOnly)

include hE

lemma Inside.same (h : E.Inside c l s o) (hsame : SameFiles s t)
    (hcount : ∀ a, (t.heap a).coroCount = (s.heap a).coroCount) (hactive : t.active = s.active) :
    E.Inside c l t o :=
  ⟨h.balanced.same hsame hcount hactive, hE.holds hsame h.holds, fun _ _ _ _ => hE.counts _ _⟩

lemma anyCall_keeps (req : NfsCall) : E.Keeps c l (call n req) := by
  intro s o h
  refine (call_ok hE.steady h (hE.counts s req)).mono fun reply t o ht => ?_
  cases reply with
  | none => exact ht.1
  | some r =>
    obtain ⟨s1, hinside, -, hr⟩ := ht
    obtain ⟨hsame, hactive, hcount⟩ := SameFiles.answers hr.1
    exact hinside.same hE hsame hcount hactive

lemma setFh_keeps (v : Nat) (fh : Fh) : E.Keeps c l (modify fun s => s.setFh v fh) :=
  fun s _ h => h.same hE (.setFh s v fh) (fun _ => rfl) rfl

lemma anyRequest_returns {refused : α} {callback : NfsReply → FsM α}
    (hcb : ∀ reply, E.Keeps c ((a, pid) :: l) (callback reply)) :
    E.Returns c a pid l (request n a req refused callback) := by
  refine Returns.bind (anyCall_keeps hE req) fun reply => ?_
  cases reply with
  | none => exact ret_returns hE.steady _
  | some reply => exact Returns.bind (hcb reply) fun r => ret_returns hE.steady r

lemma vnfsEachopen_keeps (v flags : Nat) (pid : Int) : E.Keeps c l (vnfsEachopen n c v flags pid) :=
  operation_keeps hE.steady fun _ => Returns.bind (incref_keeps hE.steady v) fun _ =>
    Returns.get_bind fun _ => anyRequest_returns hE fun _ =>
      Keeps.bind (setFh_keeps hE v _) fun _ => .pure _

lemma vnfsReclaim_keeps (v : Nat) (pid : Int) (file : Option (Nat × Fin processMaxFiles)) :
    E.Keeps c l (vnfsReclaim n c v pid file) :=
  operation_keeps hE.steady fun _ => Returns.get_bind fun _ => anyRequest_returns hE fun _ =>
    Keeps.bind (.check _ _) fun _ => Keeps.bind (setFh_keeps hE v _) fun _ => .pure _

lemma createFile_returns (dir : Nat) (pathname : String) :
    E.Returns c a pid l (createFile n c dir pathname a) := by
  refine Returns.bind (vnfsCreat_keeps hE.steady _ _ _) fun _ =>
    Returns.bind (.ofOption _ _) fun new => ?_
  refine Returns.bind (anyCall_keeps hE _) fun reply => ?_
  cases reply with
  | none => exact fun _ _ _ => trivial
  | some reply =>
    refine Returns.bind (Keeps.bind (setFh_keeps hE new _) fun _ => Keeps.bind (.check _ _)
      fun _ => Keeps.bind (incref_keeps hE.steady new) fun _ => .pure _) fun r => ?_
    exact Returns.bind (vnfsReclaim_keeps hE _ _ _) fun _ => ret_returns hE.steady _

lemma vnfsLookup_keeps (dir : Nat) (pathname : String) (create : Bool) (pid : Int) :
    E.Keeps c l (vnfsLookup n c dir pathname create pid) := by
  refine operation_keeps hE.steady fun a => Returns.get_bind fun s => ?_
  split
  · exact ret_returns hE.steady _
  · split
    · exact ret_returns hE.steady _
    · refine Returns.bind (call_keeps hE.steady (by trivial)) fun reply => ?_
      cases reply with
      | none => exact fun _ _ _ => trivial
      | some reply =>
        refine Returns.bind (nfsLookupCb_keeps hE.steady _ _ _) fun r => ?_
        split
        split
        · exact createFile_returns hE _ _
        · exact ret_returns hE.steady _

lemma vopEachopen_keeps (vn : Vnode) (flags : Nat) (pid : Int) :
    E.Keeps c l (vopEachopen n c vn flags pid) := by
  cases vn with
  | console =>
    show E.Keeps c l (consoleOpen flags pid)
    rw [consoleOpen_eq]
    exact .pure _
  | nfs v => exact vnfsEachopen_keeps hE _ _ _

lemma vopReclaim_keeps (vn : Vnode) (pid : Int) (file : Option (Nat × Fin processMaxFiles)) :
    E.Keeps c l (vopReclaim n c vn pid file) := by
  cases vn with
  | console =>
    intro s o h
    simp only [vopReclaim, consoleClose, bind_apply, modify_apply, Res.bind]
    split
    · exact h.same hE ⟨rfl, rfl, fun _ => rfl, fun _ => rfl⟩ (fun _ => rfl) rfl
    · exact h
  | nfs v => exact vnfsReclaim_keeps hE _ _ _

end FilesOnly

lemma onVnode_keeps (v : Nat) {x : FsM α} (hx : E.Keeps c l x) : E.Keeps c l (onVnode v x) :=
  Keeps.get_bind fun _ => Keeps.bind (.check _ _) fun _ =>
    fun s o h => (hx s o h).bind fun _ _ _ hs => hs

/-! ## System calls and processes -/

/-- Files may be closed, and processes may come and go, each with the console for
writing. -/
structure ProcSafe (E : Contract) : Prop where
  sameVnodes : ∀ {s t req}, t.vnodes = s.vnodes → t.nextVnode = s.nextVnode →
    t.nextHandle = s.nextHandle → E.counts s req → E.counts t req
  drops : ∀ {s t}, FilesDrop s t → E.holds s → E.holds t
  std : ∀ {s} a fd, E.holds s → E.holds (s.setFile a fd (some ⟨.console, oWronly⟩))
  create : ∀ {s pid a} state, ProcTable s → s.procs pid = none → s.allocated a = false →
    E.holds s → E.holds { s with
      procs := update s.procs pid (some a)
      heap := update s.heap a ⟨state, 0, some fun _ => none⟩
      allocated := update s.allocated a true }
  exit : ∀ {s} a, E.holds s → E.holds (s.setProc a fun q => { q with state := .zombie })
  free : ∀ {s pid a}, s.procs pid = some a → E.holds s → E.holds { s with
    procs := update s.procs pid none
    allocated := update s.allocated a false }

/-- Files of the server may be opened as well. -/
structure FileSafe (E : Contract) : Prop extends E.FilesOnly, E.ProcSafe where
  place : ∀ {s} a fd v mode, E.holds s → E.holds (s.setFile a fd (some ⟨.nfs v, mode⟩))

lemma Inside.setFile (hE : E.ProcSafe) (h : E.Inside c l s o) (a : Nat)
    (fd : Fin processMaxFiles) (file : Option OpenFile) (hholds : E.holds (s.setFile a fd file)) :
    E.Inside c l (s.setFile a fd file) o :=
  ⟨h.balanced.setFile a fd file, hholds,
    fun d tok hd htok => hE.sameVnodes (s := s) rfl rfl rfl (h.counts d tok hd htok)⟩

section ProcSafe

variable (hE : E.ProcSafe)

include hE

lemma openStd_keeps (a : Nat) (pid : Int) (fd : Fin processMaxFiles) :
    E.Keeps c l (openStd n c a pid fd) := by
  unfold openStd
  rw [vfsOpen_console]
  exact fun s o h => h.setFile hE a fd _ (hE.std a fd h.holds)

lemma procCreate_keeps (pid : Int) (a : Nat) (state : ProcState) :
    E.Keeps c l (procCreate n c pid a state) := by
  intro s o h
  simp only [procCreate, bind_apply, get_apply, Res.bind]
  refine Res.Ok.check_bind ?_
  rintro ⟨hnone, hfree⟩
  have hstd : E.Keeps c l (do openStd n c a pid 1; openStd n c a pid 2) :=
    Keeps.bind (openStd_keeps hE a pid 1) fun _ => openStd_keeps hE a pid 2
  refine hstd _ o ?_
  exact ⟨h.balanced.create hnone hfree _ _,
    hE.create state h.balanced.toProcTable hnone hfree h.holds,
    fun d tok hd htok => hE.sameVnodes (s := s) rfl rfl rfl (h.counts d tok hd htok)⟩

lemma procExit_keeps (pid : Int) : E.Keeps c l (procExit pid) := by
  intro s o h
  simp only [procExit, bind_apply, get_apply, Res.bind]
  refine Res.Ok.ofOption_bind fun a _ => ?_
  refine ⟨?_, hE.exit a h.holds,
    fun d tok hd htok => hE.sameVnodes (s := s) rfl rfl rfl (h.counts d tok hd htok)⟩
  refine { used := h.balanced.used, owned := h.balanced.owned, inj := h.balanced.inj,
           count := fun b hb => (?_ : _ = _).trans (h.balanced.count b hb),
           own := h.balanced.own, live := h.balanced.live }
  rcases eq_or_ne b a with rfl | hne
  · simp [FsState.setProc]
  · simp [FsState.setProc, hne]

lemma procDestroy_keeps (pid : Int) : E.Keeps c l (procDestroy n c pid) := by
  intro s o h
  rcases procDestroy_cases n c pid s with ⟨e, he⟩ | he | ⟨p, s', hp, hzero, hdrop, he⟩
  · rw [he]
    trivial
  · rw [he]
    exact h
  · rw [he]
    have hp' : s'.procs pid = some p := by rw [hdrop.procs, hp]
    exact ⟨h.balanced.destroy hp hzero hdrop, hE.free hp' (hE.drops hdrop h.holds),
      fun d tok hd htok => hE.sameVnodes hdrop.vnodes hdrop.nextVnode hdrop.nextHandle
        (h.counts d tok hd htok)⟩

end ProcSafe

section FileSafe

variable (hE : E.FileSafe)

include hE

lemma fdtPlace_keeps (a v mode : Nat) : E.Keeps c l (fdtPlace a (.nfs v) mode) := by
  intro s o h
  simp only [fdtPlace, bind_apply, get_apply, Res.bind]
  refine Res.Ok.ofOption_bind fun t _ => ?_
  cases freeFd t with
  | none => exact h
  | some fd => exact h.setFile hE.toProcSafe a fd _ (hE.place a fd v mode h.holds)

lemma vfsOpen_ok {path : String} (hpath : path ≠ "console") (mode : Nat) (pid : Int)
    (h : E.Inside c l s o) : E.Ok c (vfsOpen n c path mode pid s) (fun res s o =>
      E.Inside c l s o ∧ ∀ vn, res = some vn → ∃ v, vn = .nfs v) o := by
  have hlookup : E.Ok c (vfsLookup n c path true pid s) (fun r s o =>
      E.Inside c l s o ∧ ∀ vn, r.2 = some vn → ∃ v, vn = .nfs v) o := by
    simp only [vfsLookup, findDevice, if_neg hpath]
    split
    · refine (vnfsLookup_keeps hE.toFilesOnly _ _ _ _ s o h).bind fun r s o hs => ⟨hs, ?_⟩
      intro vn hvn
      obtain ⟨v, -, rfl⟩ := Option.map_eq_some_iff.mp hvn
      exact ⟨v, rfl⟩
    · exact ⟨h, fun vn hvn => ⟨rootVnode, (Option.some.inj hvn).symm⟩⟩
  refine Res.Ok.bind hlookup fun r s o hs => ?_
  dsimp only
  split
  · exact ⟨hs.1, by simp⟩
  · refine Res.Ok.ofOption_bind fun res hres => ?_
    refine Res.Ok.bind (vopEachopen_keeps hE.toFilesOnly _ _ _ s o hs.1) fun r s o hs' => ?_
    split
    · exact ⟨hs', by simp⟩
    · refine ⟨hs', fun vn hvn => ?_⟩
      cases hvn
      exact hs.2 res hres

lemma syscallOpen_keeps {path : String} (hpath : path ≠ "console") (pid : Int) (mode : Nat) :
    E.Keeps c l (syscallOpen n c pid path mode) := by
  refine Keeps.get_bind fun s => Keeps.bind (.ofOption _ _) fun a s o h => ?_
  refine Res.Ok.bind (vfsOpen_ok hE hpath mode pid h) fun res s o hs => ?_
  cases res with
  | none => exact hs.1
  | some vn =>
    obtain ⟨v, rfl⟩ := hs.2 vn rfl
    exact fdtPlace_keeps hE a v mode s o hs.1

lemma syscallClose_keeps (pid fd : Int) : E.Keeps c l (syscallClose n c pid fd) := by
  refine Keeps.get_bind fun s => Keeps.bind (.ofOption _ _) fun a => ?_
  refine Keeps.bind (.ofOption _ _) fun fd => Keeps.bind (.ofOption _ _) fun f => ?_
  refine Keeps.bind (vopReclaim_keeps hE.toFilesOnly _ _ _) fun _ s o h => ?_
  exact h.setFile hE.toProcSafe a fd none (hE.drops (.setFile s a fd) h.holds)

lemma body_keeps (op : FsOp) (hop : ∀ pid mode, op ≠ .open pid "console" mode) :
    E.Keeps c l (op.body n c) := by
  have hdiscard : ∀ {γ : Type} {x : FsM γ}, E.Keeps c l x → E.Keeps c l (discard x) :=
    fun hx s o h => (hx s o h).bind fun _ _ _ hs => hs
  have hF := hE.toFilesOnly
  have hS := hF.steady
  cases op with
  | eachopen v flags pid => exact onVnode_keeps v (vnfsEachopen_keeps hF v flags pid)
  | write v uio => exact onVnode_keeps v (vnfsWrite_keeps hS v uio)
  | read v uio => exact onVnode_keeps v (vnfsRead_keeps hS v uio)
  | getdirent dir uio => exact onVnode_keeps dir (vnfsGetdirent_keeps hS dir uio)
  | stat v pid => exact onVnode_keeps v (vnfsStat_keeps hS v pid)
  | lookup dir name new pid => exact onVnode_keeps dir (vnfsLookup_keeps hF dir name new pid)
  | creat dir name pid => exact onVnode_keeps dir (vnfsCreat_keeps hS dir name pid)
  | reclaim v pid => exact onVnode_keeps v (vnfsReclaim_keeps hF v pid none)
  | statbuf dir path pid => exact onVnode_keeps dir (nfsGetStatbuf_keeps hS dir path pid)
  | «open» pid path mode =>
    refine hdiscard (syscallOpen_keeps hE ?_ pid mode)
    rintro rfl
    exact hop pid mode rfl
  | close pid fd => exact syscallClose_keeps hE pid fd
  | create pid a state => exact procCreate_keeps hE.toProcSafe pid a state
  | exit pid => exact procExit_keeps hE.toProcSafe pid
  | destroy pid => exact hdiscard (procDestroy_keeps hE.toProcSafe pid)

end FileSafe

/-! ## Pools -/

lemma step_ok {p p' : FsPool} {e : Coroutine.Event Nat FsOp NfsReply} (hstep : FsStep n p e p')
    (hok : ∃ toks, p.Ok E.Inv HasCall (fun _ => E.env) toks)
    (hstart : ∀ c op o, e = .start c op → E.Inside c [] p.state o →
      E.Ok c (op.body n c p.state) (fun _ s o => E.Inside c [] s o) o)
    (hallows : ∀ c r req k, e = .resume c r → p.waiting c = some (req, k) →
      E.allows p.state req r) : ∃ toks, p'.Ok E.Inv HasCall (fun _ => E.env) toks := by
  obtain ⟨toks, hp⟩ := hok
  have hstep' : Pool.Step (FsOp.body n) (fun _ => E.env) p e p' := by
    cases hstep with
    | start hw hpark => exact .start hw hpark
    | resume hw hr hpark => exact .resume hw ⟨hr, hallows _ _ _ _ rfl hw⟩ hpark
  refine hp.step (fun c op he hnone => ?_) hstep'
  have hinside : E.Inside c [] p.state toks := by
    refine inv_none.mp ?_
    rw [← hnone, Function.update_eq_self]
    exact hp.1
  exact (hstart c op toks he hinside).mono fun _ s o hs => inv_none.mpr hs

end Contract

/-! ## Any interleaving -/

/-- Nothing is suspended, and no process has an operation in flight. -/
structure Idle (p : FsPool) : Prop extends ProcTable p.state where
  waiting : ∀ c, p.waiting c = none
  active : p.state.active = []
  coroCount : ∀ a, p.state.allocated a = true → (p.state.heap a).coroCount = 0

lemma Idle.ok {E : Contract} {p : FsPool} (h : Idle p) (hholds : E.holds p.state) :
    ∃ toks, p.Ok E.Inv HasCall (fun _ => E.env) toks := by
  refine ⟨fun _ => none, ⟨⟨h.toProcTable, ?_, ?_, ?_⟩, hholds, nofun⟩, fun c => ?_⟩
  · intro a ha
    rw [h.coroCount a ha, h.active]
    rfl
  · simp [h.active, stackOf]
  · simp [h.active]
  · rw [h.waiting c]
    trivial

def counting : Contract := ⟨fun _ => True, fun _ _ => True, fun _ _ _ => True⟩

lemma counting_fileSafe : counting.FileSafe where
  holds _ _ := trivial
  counts _ _ := trivial
  sameVnodes _ _ _ _ := trivial
  drops _ _ := trivial
  place _ _ _ _ _ := trivial
  std _ _ _ := trivial
  create _ _ _ _ _ := trivial
  exit _ _ := trivial
  free _ _ := trivial

lemma counting_open {n : Libnfs} {c : Nat} {l : List (Nat × Int)} (pid : Int) (mode : Nat) :
    counting.Keeps c l (syscallOpen n c pid "console" mode) := by
  intro s o h
  rw [syscallOpen_console]
  refine Res.Ok.ofOption_bind fun a _ => ?_
  simp only [fdtPlace, bind_apply, get_apply, Res.bind]
  refine Res.Ok.ofOption_bind fun t _ => ?_
  cases freeFd t with
  | none => exact h
  | some fd => exact h.setFile counting_fileSafe.toProcSafe a fd _ trivial

lemma counting_body {n : Libnfs} {c : Nat} {l : List (Nat × Int)} (op : FsOp) :
    counting.Keeps c l (op.body n c) := by
  by_cases hop : ∀ pid mode, op ≠ .open pid "console" mode
  · exact Contract.body_keeps counting_fileSafe op hop
  · push Not at hop
    obtain ⟨pid, mode, rfl⟩ := hop
    exact fun s o h => (counting_open pid mode s o h).bind fun _ _ _ hs => hs

section Run

variable {n : Libnfs} {p₀ p : FsPool}

/-- In every state between the stretches of the coroutines, `coro_count` of a process is
the number of its operations in flight.  The coroutine of each of them is suspended,
and the process it was invoked for has not been freed. -/
theorem coro_count_exact (hidle : Idle p₀) (hrun : Lts.Run (FsStep n) Lts.anyStep p₀ p) :
    (∀ pid a, p.state.procs pid = some a →
      (p.state.heap a).coroCount = p.state.active.countP (·.2.1 = a)) ∧
    ∀ co a pid, (co, a, pid) ∈ p.state.active →
      p.waiting co ≠ none ∧ p.state.procs pid = some a := by
  obtain ⟨toks, hinv, hwaiting⟩ :
      ∃ toks, p.Ok counting.Inv HasCall (fun _ => counting.env) toks :=
    hrun.invariant (hidle.ok trivial) fun hok _ hstep => Contract.step_ok hstep hok
      (fun c op o _ h => counting_body op _ o h) fun _ _ _ _ _ _ => trivial
  have hbal := hinv.1
  refine ⟨fun pid a ha => hbal.count a (hbal.used pid a ha),
    fun co a pid hmem => ⟨fun hnone => ?_, hbal.live _ hmem⟩⟩
  have htok : toks co = none := by
    have hco := hwaiting co
    cases htok : toks co with
    | none => rfl
    | some l => simp [hnone, htok] at hco
  have hzero := hbal.own co (a, pid)
  rw [stackOf, htok] at hzero
  exact absurd hmem (List.count_eq_zero.mp hzero)

end Run

lemma idle_bootedFs : Idle bootedFs := by
  refine { used := ?_, owned := ?_, inj := ?_, waiting := fun _ => rfl, active := rfl,
           coroCount := fun _ _ => rfl }
  · intro pid a ha
    simp only [bootedFs] at ha ⊢
    split at ha
    · cases ha
      decide
    · cases ha
  · intro a ha
    obtain rfl : a = 0 := by simpa [bootedFs] using ha
    exact ⟨0, rfl⟩
  · intro pid pid' a ha ha'
    simp only [bootedFs] at ha ha'
    split at ha
    · split at ha'
      · omega
      · cases ha'
    · cases ha

theorem coro_count_exact_lookup :
    ∃ p, Lts.Run (FsStep acceptAll) Lts.anyStep bootedFs p ∧ p.state.active = [(2, 10, 1)] ∧
      (p.state.heap 10).coroCount = 1 := by
  obtain ⟨p, hrun, hactive, hproc⟩ : ∃ p, Lts.Run (FsStep acceptAll) Lts.anyStep bootedFs p ∧
      p.state.active = [(2, 10, 1)] ∧ p.state.procs 1 = some 10 :=
    Pool.exists_run (answers_serve ["f"]) [(1, some (.create 1 10 .running)),
      (2, some (.open 1 "f" 0))] (by decide +kernel)
  refine ⟨p, hrun, hactive, ?_⟩
  have hcount := (coro_count_exact idle_bootedFs hrun).1 1 10 hproc
  rw [hcount, hactive]
  rfl

end SpaghettiOS.Fs
