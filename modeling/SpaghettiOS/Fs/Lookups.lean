import Mathlib.Data.List.Nodup
import SpaghettiOS.Fs.Inflight

/-!
# Lookups and the list of vnodes

`vnfs_lookup` searches the vnodes behind the root for the path, and asks the server for
the directory if there is none.  The callback adds a vnode without another search, so
that two overlapping lookups of a name that is not listed yet both add one.
-/

namespace SpaghettiOS.Fs

open Function (update)
open Coro (Stretches bind_apply get_apply modify_apply set_apply)
open Coroutine (Res Pool Event)

structure LookupReq where
  path : String
  create : Bool
  pid : Int

def lookups (n : Libnfs) (req : Nat → LookupReq) (c : Nat) (_ : Unit) : FsM Unit := do
  let _ ← vnfsLookup n c rootVnode (req c).path (req c).create (req c).pid
  pure ()

def LookupStep (n : Libnfs) (req : Nat → LookupReq) :
    FsPool → Event Nat Unit NfsReply → FsPool → Prop :=
  Pool.Step (lookups n req) fun _ => Answers

def paths (s : FsState) : List String := s.chain.map fun v => (s.vnodes v).path

structure Chained (s : FsState) : Prop where
  root : ∃ l, s.chain = rootVnode :: l
  bound : ∀ v ∈ s.chain, v < s.nextVnode

structure Kept (s t : FsState) : Prop where
  listed : ∀ v ∈ s.chain, v ∈ t.chain
  path : ∀ v ∈ s.chain, (t.vnodes v).path = (s.vnodes v).path

/-! ## The list only grows -/

structure SamePaths (s t : FsState) : Prop where
  chain : t.chain = s.chain
  nextVnode : t.nextVnode = s.nextVnode
  path : ∀ v, (t.vnodes v).path = (s.vnodes v).path

/-- A list that begins at the root still does, and what was on it still is. -/
def Grows (s t : FsState) : Prop := Chained s → Chained t ∧ Kept s t

variable {pid : Int} {p : FsPool}

section Grows

variable {s t : FsState} {n : Libnfs} {co a : Nat} {α : Type}

lemma SamePaths.of_vnodes (hchain : t.chain = s.chain) (hnext : t.nextVnode = s.nextVnode)
    (hvnodes : t.vnodes = s.vnodes) : SamePaths s t :=
  ⟨hchain, hnext, fun v => by rw [hvnodes]⟩

lemma SamePaths.refl (s : FsState) : SamePaths s s := ⟨rfl, rfl, fun _ => rfl⟩

lemma SamePaths.setFh (s : FsState) (v : Nat) (fh : Fh) : SamePaths s (s.setFh v fh) := by
  refine ⟨rfl, rfl, fun w => ?_⟩
  rcases eq_or_ne w v with rfl | hne
  · simp [FsState.setFh]
  · simp [FsState.setFh, hne]

lemma SamePaths.incref (s : FsState) (v : Nat) : SamePaths s (s.incref v) := by
  refine ⟨rfl, rfl, fun w => ?_⟩
  rcases eq_or_ne w v with rfl | hne
  · simp [FsState.incref]
  · simp [FsState.incref, hne]

lemma SamePaths.answers {req : NfsCall} {r : NfsReply} (h : Answers req r s t) : SamePaths s t := by
  cases req with
  | «open» v path flags | create v path =>
    rcases h with ⟨-, -, rfl⟩ | ⟨-, -, rfl⟩
    · exact .refl _
    · exact .of_vnodes rfl rfl rfl
  | close v fh file =>
    cases h
    cases fh with
    | null | junk => exact .refl _
    | handle x => exact .of_vnodes rfl rfl rfl
  | opendir | pread | pwrite | stat =>
    cases h
    exact .refl _

lemma SamePaths.paths (h : SamePaths s t) : paths t = paths s := by
  simp only [Fs.paths, h.chain, h.path]

lemma SamePaths.chained (h : SamePaths s t) (hs : Chained s) : Chained t := by
  refine ⟨h.chain ▸ hs.root, fun v hv => ?_⟩
  rw [h.nextVnode]
  exact hs.bound v (h.chain ▸ hv)

lemma SamePaths.grows (h : SamePaths s t) : Grows s t :=
  fun hs => ⟨h.chained hs, fun _ hv => h.chain ▸ hv, fun v _ => h.path v⟩

lemma Chained.chain_addVnode (h : Chained s) (name : String) : ∃ l, s.chain = rootVnode :: l ∧
      (s.addVnode rootVnode name).chain = rootVnode :: s.nextVnode :: l := by
  obtain ⟨l, hl⟩ := h.root
  exact ⟨l, hl, by simp [FsState.addVnode, hl, insertAfter]⟩

lemma Chained.path_addVnode (h : Chained s) (name : String) {v : Nat} (hv : v ∈ s.chain) :
    ((s.addVnode rootVnode name).vnodes v).path = (s.vnodes v).path := by
  simp [FsState.addVnode, (h.bound v hv).ne]

lemma Grows.addVnode (s : FsState) (name : String) : Grows s (s.addVnode rootVnode name) := by
  intro hs
  obtain ⟨l, hl, hl'⟩ := hs.chain_addVnode name
  refine ⟨⟨⟨_, hl'⟩, fun v hv => ?_⟩, fun v hv => ?_, fun v hv => hs.path_addVnode name hv⟩
  · rcases mem_insertAfter hv with hv | rfl
    · exact (hs.bound v hv).trans (Nat.lt_succ_self _)
    · exact Nat.lt_succ_self _
  · rw [hl] at hv
    rw [hl']
    rcases List.mem_cons.mp hv with rfl | hv
    · exact List.mem_cons_self
    · exact List.mem_cons_of_mem _ (List.mem_cons_of_mem _ hv)

instance : Std.Refl Grows where
  refl s := (SamePaths.refl s).grows

instance : IsTrans FsState Grows where
  trans s t u hst htu hs := by
    obtain ⟨ht, hkept⟩ := hst hs
    obtain ⟨hu, hkept'⟩ := htu ht
    exact ⟨hu, fun v hv => hkept'.listed v (hkept.listed v hv),
      fun v hv => (hkept'.path v (hkept.listed v hv)).trans (hkept.path v hv)⟩

lemma modify_grows {f : FsState → FsState} (h : ∀ s, SamePaths s (f s)) :
    Stretches Answers Grows (modify f : FsM PUnit) :=
  .modify fun s => (h s).grows

lemma ret_grows (r : α) : Stretches Answers Grows (ret a r) :=
  .bind (modify_grows fun _ => .of_vnodes rfl rfl rfl) fun _ => .pure r

lemma call_grows (req : NfsCall) : Stretches Answers Grows (call n req) := by
  intro s
  simp only [call, bind_apply, get_apply, set_apply, Res.bind]
  have hset : Grows s { s with calls := s.calls + 1 } :=
    SamePaths.grows (.of_vnodes rfl rfl rfl)
  split
  · exact Res.Stretches.left (Stretches.bind
      (.yield fun r s t h => (SamePaths.answers h).grows) (fun _ => .pure _) _) hset
  · exact hset

lemma operation_grows {skipped : α} {body : Nat → FsM α}
    (hbody : ∀ a, Stretches Answers Grows (body a)) :
    Stretches Answers Grows (operation co pid skipped body) := by
  refine Stretches.bind .get fun s => Stretches.bind (.ofOption _ _) fun a => ?_
  split
  · exact .pure _
  · refine Stretches.bind (modify_grows fun _ => .of_vnodes rfl rfl rfl) fun _ => ?_
    refine Stretches.bind (hbody a) fun r => ?_
    exact Stretches.bind (modify_grows fun _ => .of_vnodes rfl rfl rfl) fun _ => .pure _

lemma vnfsCreat_grows (name : String) (pid : Int) :
    Stretches Answers Grows (vnfsCreat co rootVnode name pid) := by
  refine operation_grows fun a s => ?_
  simp only [bind_apply, get_apply, set_apply, Res.bind]
  exact (ret_grows _ _).left (.addVnode s name)

lemma nfsCloseCb_grows (v : Nat) (reply : NfsReply) :
    Stretches Answers Grows (nfsCloseCb v reply) :=
  .bind (.check _ _) fun _ => .bind (modify_grows fun _ => .setFh _ _ _) fun _ => .pure _

lemma vnfsReclaim_grows (v : Nat) (pid : Int) (file : Option (Nat × Fin processMaxFiles)) :
    Stretches Answers Grows (vnfsReclaim n co v pid file) := by
  refine operation_grows fun a => Stretches.bind .get fun s => ?_
  refine Stretches.bind (call_grows _) fun reply => ?_
  split
  · exact ret_grows _
  · exact Stretches.bind (nfsCloseCb_grows v _) fun _ => ret_grows _

lemma createFile_grows (path : String) :
    Stretches Answers Grows (createFile n co rootVnode path a) := by
  refine Stretches.bind (vnfsCreat_grows path _) fun new => ?_
  refine Stretches.bind (.ofOption _ _) fun v => Stretches.bind (call_grows _) fun reply => ?_
  split
  · exact fun _ => trivial
  · refine Stretches.bind ?_ fun r => ?_
    · refine Stretches.bind (modify_grows fun _ => .setFh _ _ _) fun _ => ?_
      refine Stretches.bind (.check _ _) fun _ => ?_
      exact Stretches.bind (modify_grows fun _ => .incref _ _) fun _ => .pure _
    · exact Stretches.bind (vnfsReclaim_grows _ _ _) fun _ => ret_grows _

lemma vnfsLookup_grows (path : String) (new : Bool) (pid : Int) :
    Stretches Answers Grows (vnfsLookup n co rootVnode path new pid) := by
  refine operation_grows fun a => Stretches.bind .get fun s => ?_
  split
  · exact ret_grows _
  · split
    · exact ret_grows _
    · refine Stretches.bind (call_grows _) fun reply => ?_
      split
      · exact fun _ => trivial
      · refine Stretches.bind (Stretches.bind (.check _ _) fun _ => ?_) fun r => ?_
        · split
          · exact Stretches.bind (vnfsCreat_grows path _) fun _ => .pure _
          · exact .pure _
        · simp only
          split
          · exact createFile_grows path
          · exact ret_grows _

lemma lookups_grow {req : Nat → LookupReq} {p0 q : FsPool} {guard guard' : _ → _ → Prop}
    (hidle : ∀ c, p0.waiting c = none) (hrun : Lts.Run (LookupStep n req) guard p0 p)
    (hrun' : Lts.Run (LookupStep n req) guard' p q) : Grows p.state q.state := by
  have hbody : ∀ c b s, (lookups n req c b s).Stretches Answers Grows s := fun c b =>
    Stretches.bind (vnfsLookup_grows _ _ _) fun _ => .pure _
  have hp : p.Stretches (fun _ => Answers) Grows :=
    hrun.invariant (I := fun p => p.Stretches (fun _ => Answers) Grows)
      (fun c i k hc => by simp [hidle c] at hc) fun h _ hstep => (h.step hbody hstep).2
  have hq := hrun'.invariant
    (I := fun q => Grows p.state q.state ∧ q.Stretches (fun _ => Answers) Grows)
    ⟨Std.Refl.refl _, hp⟩ fun h _ hstep => by
      obtain ⟨hgrows, hstretches⟩ := h.2.step hbody hstep
      exact ⟨IsTrans.trans _ _ _ h.1 hgrows, hstretches⟩
  exact hq.1

end Grows

/-! ## One vnode per path -/

/-- What a suspended lookup has done: it waits for the directory, or its vnode is on the
list. -/
inductive LookupStage where
  | reading
  | added
deriving DecidableEq, Repr

def stageOf : NfsCall → LookupStage
  | .opendir => .reading
  | _ => .added

def HasStage (call : NfsCall) (tok : LookupStage) : Prop := tok = stageOf call

/-- A lookup of a path that is not listed starts only if no other one is reading the
directory for it. -/
def LookupsApart (req : Nat → LookupReq) (p : FsPool) : Event Nat Unit NfsReply → Prop
  | .start c _ => (req c).path ∈ paths p.state ∨
      ∀ d k, p.waiting d = some (.opendir, k) → (req d).path ≠ (req c).path
  | .resume _ _ => True

/-- Each path is listed once, and the lookups that are reading the directory are for
different paths that are not listed. -/
structure Cached (req : Nat → LookupReq) (s : FsState) (toks : Nat → Option LookupStage) :
    Prop where
  chained : Chained s
  unique : (paths s).Nodup
  missing : ∀ c, toks c = some .reading → (req c).path ∉ paths s
  apart : ∀ c d, toks c = some .reading → toks d = some .reading →
    (req c).path = (req d).path → c = d

section Unique

variable {n : Libnfs} {req : Nat → LookupReq} {s t : FsState} {c a : Nat} {α β : Type}
variable {o toks : Nat → Option LookupStage}

lemma Cached.same (h : Cached req s toks) (hst : SamePaths s t) : Cached req t toks :=
  ⟨hst.chained h.chained, hst.paths ▸ h.unique, fun d hd => hst.paths ▸ h.missing d hd, h.apart⟩

lemma Cached.fewer {toks' : Nat → Option LookupStage} (h : Cached req s toks)
    (hsub : ∀ d, toks' d = some .reading → toks d = some .reading) : Cached req s toks' :=
  ⟨h.chained, h.unique, fun d hd => h.missing d (hsub d hd),
    fun d e hd he => h.apart d e (hsub d hd) (hsub e he)⟩

lemma Cached.setStage {x y : Option LookupStage} (h : Cached req s (update o c x))
    (hy : y ≠ some .reading) : Cached req s (update o c y) := by
  refine h.fewer fun d hd => ?_
  rcases eq_or_ne d c with rfl | hne
  · exact absurd (by simpa using hd) hy
  · simpa [hne] using hd

lemma Cached.addVnode (h : Cached req s (update o c (some .reading))) :
    Cached req (s.addVnode rootVnode (req c).path) (update o c none) := by
  have hpaths : (paths (s.addVnode rootVnode (req c).path)).Perm ((req c).path :: paths s) := by
    obtain ⟨l, hl, hl'⟩ := h.chained.chain_addVnode (req c).path
    have hold : ∀ v ∈ s.chain, _ := fun v hv => h.chained.path_addVnode (req c).path hv
    have hnew : ((s.addVnode rootVnode (req c).path).vnodes s.nextVnode).path = (req c).path := by
      simp [FsState.addVnode]
    rw [hl] at hold
    have htail : l.map (fun v => ((s.addVnode rootVnode (req c).path).vnodes v).path) =
        l.map fun v => (s.vnodes v).path :=
      List.map_congr_left fun v hv => hold v (List.mem_cons_of_mem _ hv)
    rw [paths, paths, hl, hl', List.map_cons, List.map_cons, List.map_cons, hnew, htail,
      hold rootVnode List.mem_cons_self]
    exact .swap _ _ _
  have hmissing : (req c).path ∉ paths s := h.missing c (Function.update_self _ _ _)
  refine ⟨(Grows.addVnode s _ h.chained).1, ?_, fun d hd => ?_, fun d e hd he => ?_⟩
  · exact hpaths.nodup_iff.mpr (List.nodup_cons.mpr ⟨hmissing, h.unique⟩)
  · rcases eq_or_ne d c with rfl | hne
    · simp at hd
    · have hd' : Function.update o c (some .reading) d = some .reading := by
        simpa [hne] using hd
      intro hmem
      rcases List.mem_cons.mp (hpaths.mem_iff.mp hmem) with heq | hmem
      · exact hne (h.apart d c hd' (Function.update_self _ _ _) heq)
      · exact h.missing d hd' hmem
  · refine (h.setStage (y := none) (by simp)).apart d e hd he

/-- The rest of a lookup, at the end of which the coroutine has no token. -/
def LookupOk (req : Nat → LookupReq) (c : Nat) (o : Nat → Option LookupStage)
    (m : Res FsState NfsCall NfsReply Crash α) : Prop :=
  m.Ok (Cached req) HasStage Answers c (fun _ s o => Cached req s (update o c none)) o

/-- A part of a lookup that adds nothing and does not read the directory. -/
def KeepsCache (req : Nat → LookupReq) (c : Nat) (x : FsM α) : Prop :=
  ∀ s o, Cached req s (update o c none) → LookupOk req c o (x s)

lemma LookupOk.bind {m : Res FsState NfsCall NfsReply Crash α} {f : α → FsM β}
    (h : LookupOk req c o m) (hf : ∀ x, KeepsCache req c (f x)) : LookupOk req c o (m.bind f) :=
  Res.Ok.bind h fun x s o hs => hf x s o hs

lemma KeepsCache.bind {x : FsM α} {f : α → FsM β} (hx : KeepsCache req c x)
    (hf : ∀ r, KeepsCache req c (f r)) : KeepsCache req c (x >>= f) :=
  fun s o h => (hx s o h).bind hf

lemma KeepsCache.pure (r : α) : KeepsCache req c (Pure.pure r : FsM α) := fun _ _ h => h

lemma KeepsCache.get : KeepsCache req c (MonadState.get : FsM FsState) := fun _ _ h => h

lemma KeepsCache.modify {f : FsState → FsState} (hf : ∀ s, SamePaths s (f s)) :
    KeepsCache req c (modify f : FsM PUnit) := fun s _ h => h.same (hf s)

lemma KeepsCache.check (p : Prop) [Decidable p] (e : Crash) :
    KeepsCache req c (Coro.check p e : FsM Unit) := by
  intro s o h
  unfold Coro.check
  split
  · exact h
  · trivial

lemma KeepsCache.ofOption (e : Crash) (x : Option α) : KeepsCache req c (Coro.ofOption e x) := by
  intro s o h
  cases x with
  | none => trivial
  | some r => exact h

lemma ret_keepsCache (r : α) : KeepsCache req c (ret a r) :=
  .bind (.modify fun _ => .of_vnodes rfl rfl rfl) fun _ => .pure r

lemma call_keepsCache {req' : NfsCall} (hreq : stageOf req' = .added) :
    KeepsCache req c (call n req') := by
  intro s o h
  simp only [call, bind_apply, get_apply, set_apply, Res.bind]
  have hset : Cached req { s with calls := s.calls + 1 } (update o c none) :=
    h.same (.of_vnodes rfl rfl rfl)
  split
  · refine Res.Ok.yield_bind .added hreq.symm (hset.setStage (by simp)) fun r s1 s2 o' h1 hr => ?_
    exact (h1.same (.answers hr)).setStage (by simp)
  · exact hset

lemma operation_cached {x : Option LookupStage} {skipped : α} {body : Nat → FsM α}
    (h : Cached req s (update o c x)) (hbody : ∀ a t, SamePaths s t → LookupOk req c o (body a t)) :
    LookupOk req c o (operation c pid skipped body s) := by
  simp only [operation, bind_apply, get_apply, Res.bind]
  refine Res.Ok.ofOption_bind fun a _ => ?_
  split
  · exact h.setStage (by simp)
  · simp only [bind_apply, modify_apply, Res.bind]
    have hcount : SamePaths s ((s.enter c a pid).addCount a 1) := .of_vnodes rfl rfl rfl
    refine (hbody a _ hcount).bind fun r => ?_
    exact .bind (.modify fun _ => .of_vnodes rfl rfl rfl) fun _ => .pure _

lemma operation_keepsCache {skipped : α} {body : Nat → FsM α}
    (hbody : ∀ a, KeepsCache req c (body a)) : KeepsCache req c (operation c pid skipped body) :=
  fun _ o h => operation_cached h fun a t hst => hbody a t o (h.same hst)

lemma vnfsReclaim_keepsCache (v : Nat) (pid : Int) (file : Option (Nat × Fin processMaxFiles)) :
    KeepsCache req c (vnfsReclaim n c v pid file) := by
  refine operation_keepsCache fun a => .bind .get fun s => ?_
  refine .bind (call_keepsCache rfl) fun reply => ?_
  split
  · exact ret_keepsCache _
  · refine .bind ?_ fun _ => ret_keepsCache _
    exact .bind (.check _ _) fun _ => .bind (.modify fun _ => .setFh _ _ _) fun _ => .pure _

lemma vnfsCreat_cached (pid : Int) (h : Cached req s (update o c (some .reading))) :
    LookupOk req c o (vnfsCreat c rootVnode (req c).path pid s) := by
  refine operation_cached h fun a t hst => ?_
  simp only [bind_apply, get_apply, set_apply, Res.bind]
  exact ret_keepsCache _ _ _ (h.same hst).addVnode

lemma createFile_cached (h : Cached req s (update o c (some .reading))) :
    LookupOk req c o (createFile n c rootVnode (req c).path a s) := by
  refine (vnfsCreat_cached _ h).bind fun new => .bind (.ofOption _ _) fun v => ?_
  refine .bind (call_keepsCache rfl) fun reply => ?_
  split
  · exact fun _ _ _ => trivial
  · refine .bind ?_ fun r => .bind (vnfsReclaim_keepsCache _ _ _) fun _ => ret_keepsCache _
    refine .bind (.modify fun _ => .setFh _ _ _) fun _ => .bind (.check _ _) fun _ => ?_
    exact .bind (.modify fun _ => .incref _ _) fun _ => .pure _

lemma not_mem_paths (h : Chained s) {path : String}
    (hfind : (s.chain.dropWhile (· ≠ rootVnode)).find? (fun v => (s.vnodes v).path = path) =
      none) : path ∉ paths s := by
  obtain ⟨l, hl⟩ := h.root
  have hdrop : s.chain.dropWhile (· ≠ rootVnode) = s.chain := by simp [hl]
  rw [hdrop, List.find?_eq_none] at hfind
  simpa [paths] using hfind

lemma createOrReturn_cached (r : Int × Option Nat)
    (h : Cached req s (update o c (some .reading))) :
    LookupOk req c o ((if r.1 ≠ 0 ∧ (req c).create then createFile n c rootVnode (req c).path a
      else ret a (r.1, r.2) : FsM (Int × Option Nat)) s) := by
  split
  · exact createFile_cached h
  · exact ret_keepsCache _ s o (h.setStage nofun)

lemma afterDirectory_cached (reply : NfsReply) (h : Cached req s (update o c (some .reading))) :
    LookupOk req c o ((nfsLookupCb c rootVnode (req c).path reply s).bind fun x =>
      if x.1 ≠ 0 ∧ (req c).create then createFile n c rootVnode (req c).path a
      else ret a (x.1, x.2)) := by
  refine Res.Ok.bind (Q := fun x t o => x.1 = 0 ∧ Cached req t (update o c none) ∨
    Cached req t (update o c (some .reading))) ?_ ?_
  · refine Res.Ok.check_bind (p := 0 ≤ reply.status) fun _ => ?_
    split
    · exact Res.Ok.bind (vnfsCreat_cached _ h) fun x t o ht => .inl ⟨rfl, ht⟩
    · exact .inr h
  · rintro ⟨r, v⟩ t o (⟨rfl, ht⟩ | ht)
    · exact ret_keepsCache _ t o ht
    · exact createOrReturn_cached (r, v) ht

lemma Cached.reading (h : Cached req s (update o c none)) (hmissing : (req c).path ∉ paths s)
    (hapart : ∀ d, d ≠ c → o d = some .reading → (req d).path ≠ (req c).path) :
    Cached req s (update o c (some .reading)) := by
  have hother : ∀ d, d ≠ c → update o c (some .reading) d = some .reading →
      o d = some .reading ∧ update o c none d = some .reading := by
    intro d hne hd
    simpa [hne] using hd
  refine ⟨h.chained, h.unique, fun d hd => ?_, fun d e hd he heq => ?_⟩
  · rcases eq_or_ne d c with rfl | hne
    · exact hmissing
    · exact h.missing d (hother d hne hd).2
  · rcases eq_or_ne d c with rfl | hd'
    · rcases eq_or_ne e d with rfl | he'
      · rfl
      · exact absurd heq.symm (hapart e he' (hother e he' he).1)
    · rcases eq_or_ne e c with rfl | he'
      · exact absurd heq (hapart d hd' (hother d hd' hd).1)
      · exact h.apart d e (hother d hd' hd).2 (hother e he' he).2 heq

lemma vnfsLookup_cached (h : Cached req s (update o c none)) (hapart : (req c).path ∈ paths s ∨
      ∀ d, d ≠ c → o d = some .reading → (req d).path ≠ (req c).path) :
    LookupOk req c o (vnfsLookup n c rootVnode (req c).path (req c).create (req c).pid s) := by
  refine operation_cached h fun a t hst => ?_
  have ht := h.same hst
  simp only [bind_apply, get_apply, Res.bind]
  cases hfind : (t.chain.dropWhile (· ≠ rootVnode)).find? fun v =>
      (t.vnodes v).path = (req c).path with
  | some v => exact ret_keepsCache _ _ _ ht
  | none =>
    have hmissing : (req c).path ∉ paths t := not_mem_paths ht.chained hfind
    have hothers := hapart.resolve_left (hst.paths ▸ hmissing)
    simp only
    split
    · exact ret_keepsCache _ _ _ ht
    · simp only [call, bind_apply, get_apply, set_apply, Res.bind]
      have hset : SamePaths t { t with calls := t.calls + 1 } := .of_vnodes rfl rfl rfl
      split
      · refine Res.Ok.yield_bind .reading rfl
          ((ht.same hset).reading (hset.paths ▸ hmissing) hothers) fun r s1 s2 o' h1 hr => ?_
        exact afterDirectory_cached r (h1.same (.answers hr))
      · trivial

lemma waiting_of_reading (hp : p.Ok (Cached req) HasStage (fun _ => Answers) toks) {d : Nat}
    (hd : toks d = some .reading) : ∃ k, p.waiting d = some (.opendir, k) := by
  have hwait := hp.2 d
  rw [hd] at hwait
  cases hw : p.waiting d with
  | none => simp [hw] at hwait
  | some x =>
    obtain ⟨call, k⟩ := x
    rw [hw] at hwait
    cases call with
    | opendir => exact ⟨k, rfl⟩
    | «open» | create | close | pread | pwrite | stat => exact absurd hwait.1 nofun

/-- If no two lookups read the directory for one path, then each path is listed once.
Whatever happens, a vnode that is listed stays listed under its path. -/
theorem one_vnode_per_path {p₀ p : FsPool} (hidle : ∀ c, p₀.waiting c = none)
    (hchained : Chained p₀.state) (hunique : (paths p₀.state).Nodup)
    (hrun : Lts.Run (LookupStep n req) (LookupsApart req) p₀ p) :
    (paths p.state).Nodup ∧
      ∀ q, Lts.Run (LookupStep n req) Lts.anyStep p q → Kept p.state q.state := by
  obtain ⟨toks, hcached, -⟩ : ∃ toks, p.Ok (Cached req) HasStage (fun _ => Answers) toks := by
    refine hrun.invariant (I := fun p => ∃ toks, p.Ok (Cached req) HasStage
      (fun _ => Answers) toks) ?_ ?_
    · refine ⟨fun _ => none, ⟨hchained, hunique, nofun, nofun⟩, fun c => ?_⟩
      rw [hidle c]
      trivial
    · rintro p p' e ⟨toks, hp⟩ hguard hstep
      refine hp.step (fun c b he hnone => ?_) hstep
      have hrest : Cached req p.state (update toks c none) := by
        rw [← hnone, Function.update_eq_self]
        exact hp.1
      subst he
      have hothers : (req c).path ∈ paths p.state ∨
          ∀ d, d ≠ c → toks d = some .reading → (req d).path ≠ (req c).path := by
        refine hguard.imp_right fun h d _ hd => ?_
        obtain ⟨k, hk⟩ := waiting_of_reading hp hd
        exact h d k hk
      exact (vnfsLookup_cached hrest hothers).bind fun _ => .pure _
  exact ⟨hcached.unique, fun q hrun' => (lookups_grow hidle hrun hrun' hcached.chained).2⟩

lemma LookupsApart.of_injective {q : FsPool} (hinj : ∀ c d, (req c).path = (req d).path → c = d)
    (hrun : Lts.Run (LookupStep n req) Lts.anyStep p q) :
    Lts.Run (LookupStep n req) (LookupsApart req) p q := by
  induction hrun with
  | refl => exact .refl
  | tail _ _ hstep ih =>
    refine .tail ih ?_ hstep
    cases hstep with
    | start hw hpark =>
      refine .inr fun d k hd heq => ?_
      rw [hinj d _ heq, hw] at hd
      cases hd
    | resume hw hr hpark => trivial

end Unique

def twoUsers : FsPool where
  state :=
    { bootedFs.state with
      procs := fun pid =>
        if pid = kernelProc then some 0 else if pid = 1 then some 10
        else if pid = 2 then some 11 else none }
  waiting := fun _ => none

lemma chained_twoUsers : Chained twoUsers.state where
  root := ⟨[], rfl⟩
  bound v hv := by
    obtain rfl : v = rootVnode := by simpa [twoUsers, bootedFs] using hv
    decide

theorem path_listed_twice :
    ∃ p, Lts.Run (LookupStep acceptAll fun c => ⟨"f", false, c⟩) Lts.anyStep twoUsers p ∧
      paths p.state = ["", "f", "f"] :=
  Pool.exists_run (answers_serve ["f"]) [(1, some ()), (2, some ()), (1, none), (2, none)]
    (by decide +kernel)

theorem one_vnode_per_path_two :
    ∃ p, Lts.Run (LookupStep acceptAll fun c => ⟨.ofList (.replicate c 'f'), true, c⟩)
        (LookupsApart fun c => ⟨.ofList (.replicate c 'f'), true, c⟩) twoUsers p ∧
      paths p.state = ["", "ff", "f"] ∧ (paths p.state).Nodup := by
  obtain ⟨p, hplay, hpaths⟩ :
      ∃ p, Lts.Run (LookupStep acceptAll fun c => ⟨.ofList (.replicate c 'f'), true, c⟩) Lts.anyStep
        twoUsers p ∧ paths p.state = ["", "ff", "f"] :=
    Pool.exists_run (answers_serve ["f"]) [(1, some ()), (2, some ()), (1, none), (2, none),
      (2, none), (2, none)] (by decide +kernel)
  have hrun := LookupsApart.of_injective (fun c d h => by
    simpa using congrArg List.length (String.ofList_injective h)) hplay
  exact ⟨p, hrun, hpaths, (one_vnode_per_path (fun _ => rfl) chained_twoUsers (by decide) hrun).1⟩

end SpaghettiOS.Fs
