import SpaghettiOS.Fs.Inflight

/-!
# Handles of open files

A vnode has one field for the handle of its file, and all who have the file open share
the vnode.  Each open overwrites the handle, also when it failed, and each close gives
it back and clears the field, whoever else still uses it.
-/

namespace SpaghettiOS.Fs

open Function (update)
open Coro (bind_apply get_apply modify_apply)
open Coroutine (Res Pool Event)
open Coroutine.Res (Ok)

/-- A process that has not exited has the vnode open. -/
def InUse (s : FsState) (v a : Nat) (fd : Fin processMaxFiles) : Prop :=
  (s.heap a).state ≠ .zombie ∧ (s.file a fd).map OpenFile.vn = some (.nfs v)

/-- The handle of the vnode was given out for its path and has not been closed. -/
def HandleOk (s : FsState) (v : Nat) : Prop :=
  ∃ h, (s.vnodes v).nfsfh = .handle h ∧ s.handles h = some (s.vnodes v).path

/-- The vnodes in use have their handles, and no two vnodes share one. -/
structure HandlesOk (s : FsState) : Prop where
  inUse : ∀ v a fd, InUse s v a fd → v < s.nextVnode ∧ HandleOk s v
  chain : ∀ v ∈ s.chain, v < s.nextVnode
  root : rootVnode < s.nextVnode
  fresh : ∀ v < s.nextVnode, ∀ h, (s.vnodes v).nfsfh = .handle h → h < s.nextHandle
  unique : ∀ v < s.nextVnode, ∀ w < s.nextVnode, ∀ h, (s.vnodes v).nfsfh = .handle h →
    (s.vnodes w).nfsfh = .handle h → v = w

/-- What a suspended call counts on: an open is for the path of its vnode, and the
handle that is being closed belongs to no other vnode. -/
def CallOk (s : FsState) : NfsCall → Prop
  | .open v path _ | .create v path => v < s.nextVnode ∧ path = (s.vnodes v).path
  | .close v fh _ => v < s.nextVnode ∧ ∀ h, fh = .handle h →
      h < s.nextHandle ∧ ∀ w < s.nextVnode, (s.vnodes w).nfsfh = .handle h → w = v
  | .opendir | .pread _ _ _ | .pwrite _ _ _ | .stat _ => True

/-- An open fails only when the vnode is not in use, and a close succeeds only when no
other open file uses it. -/
def ReplyOk (s : FsState) (req : NfsCall) (r : NfsReply) : Prop :=
  match req with
  | .open v _ _ => r.status < 0 → ∀ a fd, ¬ InUse s v a fd
  | .close v _ file => 0 ≤ r.status → ∀ a fd, InUse s v a fd → file = some (a, fd)
  | .create _ _ | .opendir | .pread _ _ _ | .pwrite _ _ _ | .stat _ => True

def handles : Contract := ⟨HandlesOk, CallOk, ReplyOk⟩

def FsState.dropFile (s : FsState) : Option (Nat × Fin processMaxFiles) → FsState
  | none => s
  | some (a, fd) => s.setFile a fd none

/-! ## Changes of handles -/

variable {fh : Fh} {req : NfsCall} {r : NfsReply}

section State

variable {s t : FsState} {v a : Nat} {fd : Fin processMaxFiles}

lemma inUse_iff (hfdt : ∀ a, (t.heap a).fdt = (s.heap a).fdt)
    (hstate : ∀ a, (t.heap a).state = (s.heap a).state) : InUse t v a fd ↔ InUse s v a fd := by
  simp only [InUse, FsState.file, hfdt, hstate]

lemma handles_steady : handles.Steady where
  plain {req} s hreq := by
    cases req with
    | «open» | create | close => exact hreq.elim
    | opendir | pread | pwrite | stat => trivial
  counts {s t req} hq h := by
    cases req with
    | «open» v path flags | create v path =>
      exact ⟨h.1.trans_le hq.nextVnode, h.2.trans (hq.path v h.1).symm⟩
    | close v fh file =>
      refine ⟨h.1.trans_le hq.nextVnode, fun x hx => ?_⟩
      obtain ⟨hlt, hown⟩ := h.2 x hx
      refine ⟨hq.nextHandle ▸ hlt, fun w hw hfh => ?_⟩
      by_cases hold : w < s.nextVnode
      · exact hown w hold ((hq.nfsfh w hold).symm.trans hfh)
      · rw [hq.new w (not_lt.mp hold) hw] at hfh
        cases hfh
    | opendir | pread | pwrite | stat => trivial
  holds {s t} hq h := by
    have hold : ∀ w < t.nextVnode, ∀ x, (t.vnodes w).nfsfh = .handle x →
        w < s.nextVnode ∧ (s.vnodes w).nfsfh = .handle x := by
      intro w hw x hfh
      by_cases hlt : w < s.nextVnode
      · exact ⟨hlt, (hq.nfsfh w hlt).symm.trans hfh⟩
      · rw [hq.new w (not_lt.mp hlt) hw] at hfh
        cases hfh
    refine ⟨fun v a fd hu => ?_, fun v hv => ?_, h.root.trans_le hq.nextVnode, fun v hv x hfh => ?_,
      fun v hv w hw x hfv hfw => ?_⟩
    · obtain ⟨hlt, x, hfh, hopen⟩ := h.inUse v a fd ((inUse_iff hq.fdt hq.state).mp hu)
      refine ⟨hlt.trans_le hq.nextVnode, x, (hq.nfsfh v hlt).trans hfh, ?_⟩
      rw [hq.handles, hq.path v hlt]
      exact hopen
    · exact (hq.chain v hv).elim (fun hv => (h.chain v hv).trans_le hq.nextVnode) id
    · obtain ⟨hlt, hfh⟩ := hold v hv x hfh
      exact hq.nextHandle ▸ h.fresh v hlt x hfh
    · obtain ⟨hv, hfv⟩ := hold v hv x hfv
      obtain ⟨hw, hfw⟩ := hold w hw x hfw
      exact h.unique v hv w hw x hfv hfw

lemma nfsfh_setFh (s : FsState) (v w : Nat) (fh : Fh) :
    ((s.setFh v fh).vnodes w).nfsfh = if w = v then fh else (s.vnodes w).nfsfh := by
  rcases eq_or_ne w v with rfl | hne
  · simp [FsState.setFh]
  · simp [FsState.setFh, hne]

lemma path_setFh (s : FsState) (v w : Nat) (fh : Fh) :
    ((s.setFh v fh).vnodes w).path = (s.vnodes w).path := by
  rcases eq_or_ne w v with rfl | hne
  · simp [FsState.setFh]
  · simp [FsState.setFh, hne]

lemma HandlesOk.opened (h : HandlesOk s) (hv : v < s.nextVnode) :
    HandlesOk ((s.opened (s.vnodes v).path).setFh v (.handle s.nextHandle)) ∧
      HandleOk ((s.opened (s.vnodes v).path).setFh v (.handle s.nextHandle)) v := by
  have hnew : HandleOk ((s.opened (s.vnodes v).path).setFh v (.handle s.nextHandle)) v := by
    refine ⟨s.nextHandle, by rw [nfsfh_setFh, if_pos rfl], ?_⟩
    rw [path_setFh]
    exact Function.update_self _ _ _
  refine ⟨⟨fun w a fd hu => ?_, h.chain, h.root, fun w hw x hfh => ?_,
    fun w hw w' hw' x hfw hfw' => ?_⟩, hnew⟩
  · obtain ⟨hlt, x, hfh, hopen⟩ := h.inUse w a fd hu
    refine ⟨hlt, ?_⟩
    rcases eq_or_ne w v with rfl | hne
    · exact hnew
    · refine ⟨x, by rw [nfsfh_setFh, if_neg hne]; exact hfh, ?_⟩
      rw [path_setFh]
      exact (Function.update_of_ne (h.fresh w hlt x hfh).ne _ _).trans hopen
  · rw [nfsfh_setFh] at hfh
    show x < s.nextHandle + 1
    split at hfh
    · cases hfh
      exact Nat.lt_succ_self _
    · exact (h.fresh w hw x hfh).trans (Nat.lt_succ_self _)
  · rw [nfsfh_setFh] at hfw hfw'
    split at hfw
    · rename_i heq
      split at hfw'
      · rename_i heq'
        exact heq.trans heq'.symm
      · cases hfw
        exact absurd (h.fresh w' hw' _ hfw') (lt_irrefl _)
    · split at hfw'
      · cases hfw'
        exact absurd (h.fresh w hw _ hfw) (lt_irrefl _)
      · exact h.unique w hw w' hw' x hfw hfw'

lemma CallOk.opened (h : CallOk s req) :
    CallOk ((s.opened (s.vnodes v).path).setFh v (.handle s.nextHandle)) req := by
  cases req with
  | «open» w path flags | create w path => exact ⟨h.1, h.2.trans (path_setFh _ _ _ _).symm⟩
  | close w fh file =>
    refine ⟨h.1, fun x hx => ⟨(h.2 x hx).1.trans (Nat.lt_succ_self _), fun w' hw' hfh => ?_⟩⟩
    rw [nfsfh_setFh] at hfh
    split at hfh
    · cases hfh
      exact absurd (h.2 _ hx).1 (lt_irrefl _)
    · exact (h.2 x hx).2 w' hw' hfh
  | opendir | pread | pwrite | stat => trivial

lemma HandlesOk.lose (h : HandlesOk s) (hfh : ∀ x, fh ≠ .handle x)
    (hnextVnode : t.nextVnode = s.nextVnode) (hchain : t.chain = s.chain)
    (hnextHandle : t.nextHandle = s.nextHandle) (hvnodes : t.vnodes = (s.setFh v fh).vnodes)
    (hhandles : ∀ w < s.nextVnode, w ≠ v → ∀ x, (s.vnodes w).nfsfh = .handle x →
      t.handles x = s.handles x)
    (huse : ∀ w a fd, InUse t w a fd → w ≠ v ∧ InUse s w a fd) : HandlesOk t := by
  have hold : ∀ w x, (t.vnodes w).nfsfh = .handle x → (s.vnodes w).nfsfh = .handle x := by
    intro w x hw
    rw [hvnodes, nfsfh_setFh] at hw
    split at hw
    · exact absurd hw (hfh x)
    · exact hw
  refine ⟨fun w a fd hu => ?_, ?_, ?_, fun w hw x hx => ?_, fun w hw w' hw' x hx hx' => ?_⟩
  · obtain ⟨hne, hu⟩ := huse w a fd hu
    obtain ⟨hlt, x, hx, hopen⟩ := h.inUse w a fd hu
    refine ⟨hnextVnode ▸ hlt, x, ?_, ?_⟩
    · rw [hvnodes, nfsfh_setFh, if_neg hne]
      exact hx
    · rw [hhandles w hlt hne x hx, hvnodes, path_setFh]
      exact hopen
  · rw [hchain, hnextVnode]
    exact h.chain
  · rw [hnextVnode]
    exact h.root
  · rw [hnextHandle]
    exact h.fresh w (hnextVnode ▸ hw) x (hold w x hx)
  · exact h.unique w (hnextVnode ▸ hw) w' (hnextVnode ▸ hw') x (hold w x hx) (hold w' x hx')

lemma CallOk.lose (h : CallOk s req) (hfh : ∀ x, fh ≠ .handle x)
    (hnextVnode : t.nextVnode = s.nextVnode) (hnextHandle : t.nextHandle = s.nextHandle)
    (hvnodes : t.vnodes = (s.setFh v fh).vnodes) : CallOk t req := by
  cases req with
  | «open» w path flags | create w path =>
    refine ⟨hnextVnode ▸ h.1, ?_⟩
    rw [hvnodes, path_setFh]
    exact h.2
  | close w fh' file =>
    refine ⟨hnextVnode ▸ h.1, fun x hx => ⟨hnextHandle ▸ (h.2 x hx).1, fun w' hw' hw => ?_⟩⟩
    rw [hvnodes, nfsfh_setFh] at hw
    split at hw
    · exact absurd hw (hfh x)
    · exact (h.2 x hx).2 w' (hnextVnode ▸ hw') hw
  | opendir | pread | pwrite | stat => trivial

lemma HandlesOk.files (h : HandlesOk s) (hvnodes : t.vnodes = s.vnodes)
    (hnextVnode : t.nextVnode = s.nextVnode) (hchain : t.chain = s.chain)
    (hhandles : t.handles = s.handles) (hnextHandle : t.nextHandle = s.nextHandle)
    (huse : ∀ v a fd, InUse t v a fd → v < s.nextVnode ∧ HandleOk s v) : HandlesOk t := by
  refine ⟨fun v a fd hu => ?_, ?_, ?_, ?_, ?_⟩
  · rw [HandleOk, hvnodes, hnextVnode, hhandles]
    exact huse v a fd hu
  · rw [hchain, hnextVnode]
    exact h.chain
  · rw [hnextVnode]
    exact h.root
  · rw [hnextVnode, hvnodes, hnextHandle]
    exact h.fresh
  · rw [hnextVnode, hvnodes]
    exact h.unique

lemma state_setFile (s : FsState) (a b : Nat) (fd : Fin processMaxFiles)
    (file : Option OpenFile) : ((s.setFile a fd file).heap b).state = (s.heap b).state := by
  rcases eq_or_ne b a with rfl | hne
  · simp [FsState.setFile, FsState.setProc]
  · simp [FsState.setFile, FsState.setProc, hne]

lemma HandlesOk.setFile (h : HandlesOk s) (a : Nat) (fd : Fin processMaxFiles)
    (file : Option OpenFile) (hfile : ∀ v, file.map OpenFile.vn = some (.nfs v) →
      v < s.nextVnode ∧ (HandleOk s v ∨ (s.heap a).state = .zombie)) :
    HandlesOk (s.setFile a fd file) := by
  refine h.files rfl rfl rfl rfl rfl fun v b fd' hu => ?_
  obtain ⟨hstate, hvn⟩ := hu
  rw [state_setFile] at hstate
  rw [file_setFile] at hvn
  split at hvn
  · rename_i hwhere
    obtain ⟨hlt, hok | hz⟩ := hfile v hvn
    · exact ⟨hlt, hok⟩
    · exact absurd (hwhere.1 ▸ hz) hstate
  · exact h.inUse v b fd' ⟨hstate, hvn⟩

lemma handles_procSafe : handles.ProcSafe where
  sameVnodes {s t req} hvnodes hnextVnode hnextHandle h := by
    cases req with
    | «open» | create | close =>
      simp only [handles, CallOk, hvnodes, hnextVnode, hnextHandle] at h ⊢
      exact h
    | opendir | pread | pwrite | stat => trivial
  drops {s t} hdrop h := by
    refine HandlesOk.files h hdrop.vnodes hdrop.nextVnode hdrop.chain hdrop.handles
      hdrop.nextHandle fun v a fd hu => h.inUse v a fd ⟨hdrop.state a ▸ hu.1, ?_⟩
    obtain ⟨f, hf, hvn⟩ := Option.map_eq_some_iff.mp hu.2
    exact Option.map_eq_some_iff.mpr ⟨f, hdrop.file a fd f hf, hvn⟩
  std a fd h := HandlesOk.setFile h a fd _ (by simp)
  create {s pid a} state _ _ _ h := by
    refine HandlesOk.files h rfl rfl rfl rfl rfl fun v b fd hu => ?_
    rcases eq_or_ne b a with rfl | hne
    · simp [InUse, FsState.file] at hu
    · exact h.inUse v b fd (by simpa [InUse, FsState.file, hne] using hu)
  exit {s} a h := by
    refine HandlesOk.files h rfl rfl rfl rfl rfl fun v b fd hu => ?_
    rcases eq_or_ne b a with rfl | hne
    · simp [InUse, FsState.setProc] at hu
    · exact h.inUse v b fd (by simpa [InUse, FsState.file, FsState.setProc, hne] using hu)
  free _ h := HandlesOk.files h rfl rfl rfl rfl rfl h.inUse

end State

/-! ## Coroutines -/

section Operations

variable {n : Libnfs} {c a v : Nat} {pid : Int} {l : List (Nat × Int)} {s t : FsState}
variable {o : Nat → Option Token} {file : Option (Nat × Fin processMaxFiles)}

open Contract (call_ok operation_ok)

lemma inside_ret (h : handles.Inside c ((a, pid) :: l) s o) :
    handles.Inside c l ((s.addCount a (-1)).leave c a pid) o :=
  (h.off handles_steady).leave handles_steady

lemma inside_dropFile (file : Option (Nat × Fin processMaxFiles)) (h : handles.Inside c l s o) :
    handles.Inside c l (s.dropFile file) o := by
  cases file with
  | none => exact h
  | some file => exact h.setFile handles_procSafe _ _ none (h.holds.setFile _ _ none (by simp))

lemma dropFile_ret (s : FsState) (file : Option (Nat × Fin processMaxFiles)) :
    ((s.addCount a (-1)).leave c a pid).dropFile file =
      ((s.dropFile file).addCount a (-1)).leave c a pid := by
  cases file with
  | none => rfl
  | some file =>
    obtain ⟨b, fd⟩ := file
    simp only [FsState.dropFile, FsState.setFile, FsState.addCount, FsState.setProc, FsState.leave]
    congr 1
    rcases eq_or_ne a b with rfl | hne
    · simp
    · simp [hne, hne.symm, Function.update_comm hne]

lemma inside_opened {path : String} (h : handles.Inside c l s o)
    (hcall : CallOk s (.create v path)) (hr : Answers (.create v path) r s t)
    (hallows : r.status < 0 → ∀ a fd, ¬ InUse s v a fd) : handles.Inside c l (t.setFh v r.fh) o ∧
      (r.status = 0 → v < t.nextVnode ∧ HandleOk (t.setFh v r.fh) v) := by
  obtain ⟨hv, rfl⟩ := hcall
  obtain ⟨hneg, hfh, rfl⟩ | ⟨hpos, hfh, rfl⟩ := hr
  · have hjunk : ∀ x, r.fh ≠ .handle x := by
      intro x
      rw [hfh]
      exact nofun
    refine ⟨⟨h.balanced.same (.setFh t v r.fh) (fun _ => rfl) rfl, ?_, ?_⟩, fun hz => by omega⟩
    · refine HandlesOk.lose h.holds hjunk rfl rfl rfl rfl (fun _ _ _ _ _ => rfl) ?_
      intro w a fd hu
      refine ⟨?_, hu⟩
      rintro rfl
      exact hallows hneg a fd hu
    · exact fun d tok hd htok => CallOk.lose (h.counts d tok hd htok) hjunk rfl rfl rfl
  · rw [hfh]
    obtain ⟨hholds, hok⟩ := HandlesOk.opened h.holds hv
    refine ⟨⟨?_, hholds, fun d tok hd htok => CallOk.opened (h.counts d tok hd htok)⟩,
      fun _ => ⟨hv, hok⟩⟩
    exact h.balanced.same ⟨rfl, rfl, fun _ => rfl, fun _ => rfl⟩ (fun _ => rfl) rfl

lemma inUse_closed {w b : Nat} {fd : Fin processMaxFiles}
    (hallows : ∀ a fd, InUse s v a fd → file = some (a, fd))
    (hu : InUse (((s.closed fh).setFh v .null).dropFile file) w b fd) : w ≠ v ∧ InUse s w b fd := by
  have hheap : ((s.closed fh).setFh v .null).heap = s.heap := by
    cases fh with
    | null | junk | handle x => rfl
  cases file with
  | none =>
    have hold : InUse s w b fd := by
      simpa only [FsState.dropFile, InUse, FsState.file, hheap] using hu
    refine ⟨?_, hold⟩
    rintro rfl
    cases hallows b fd hold
  | some file =>
    obtain ⟨a, fd'⟩ := file
    obtain ⟨hstate, hvn⟩ := hu
    simp only [FsState.dropFile, state_setFile, file_setFile, hheap] at hstate hvn
    split at hvn
    · cases hvn
    · rename_i hother
      have hold : InUse s w b fd := ⟨hstate, by simpa only [FsState.file, hheap] using hvn⟩
      refine ⟨?_, hold⟩
      rintro rfl
      cases hallows b fd hold
      refine hother ⟨rfl, rfl, ?_⟩
      obtain ⟨f, hf, -⟩ := Option.map_eq_some_iff.mp hold.2
      obtain ⟨t, ht, -⟩ := Option.bind_eq_some_iff.mp hf
      rw [ht]
      rfl

lemma inside_closed (h : handles.Inside c l s o) (hcall : CallOk s (.close v fh file))
    (hclosed : Answers (.close v fh file) r s t)
    (hallows : ∀ a fd, InUse s v a fd → file = some (a, fd)) :
    handles.Inside c l ((t.setFh v .null).dropFile file) o := by
  have hbal : Balanced (t.setFh v .null) (update (stackOf o) c l) := by
    obtain ⟨hsame, hactive, hcount⟩ := SameFiles.answers hclosed
    exact (h.balanced.same hsame hcount hactive).same (.setFh _ v .null) (fun _ => rfl) rfl
  obtain ⟨hnextVnode, hchain, hnextHandle, hvnodes⟩ : t.nextVnode = s.nextVnode ∧
      t.chain = s.chain ∧ t.nextHandle = s.nextHandle ∧ t.vnodes = s.vnodes := by
    cases hclosed
    cases fh with
    | null | junk | handle x => exact ⟨rfl, rfl, rfl, rfl⟩
  have hhandles : ∀ w < s.nextVnode, w ≠ v → ∀ x, (s.vnodes w).nfsfh = .handle x →
      t.handles x = s.handles x := by
    intro w hw hne x hx
    cases hclosed
    cases fh with
    | null | junk => rfl
    | handle y =>
      refine Function.update_of_ne ?_ _ _
      rintro rfl
      exact hne ((hcall.2 x rfl).2 w hw hx)
  have hfh : ∀ x, Fh.null ≠ .handle x := nofun
  have hset : (t.setFh v .null).vnodes = (s.setFh v .null).vnodes := by
    rw [FsState.setFh, FsState.setFh, hvnodes]
  have huse : ∀ w b fd, InUse ((t.setFh v .null).dropFile file) w b fd →
      w ≠ v ∧ InUse s w b fd := by
    cases hclosed
    exact fun w b fd hu => inUse_closed hallows hu
  cases file with
  | none =>
    exact ⟨hbal, h.holds.lose hfh hnextVnode hchain hnextHandle hset hhandles huse,
      fun d tok hd htok => CallOk.lose (h.counts d tok hd htok) hfh hnextVnode hnextHandle hset⟩
  | some file =>
    exact ⟨hbal.setFile _ _ none, h.holds.lose hfh hnextVnode hchain hnextHandle hset hhandles huse,
      fun d tok hd htok => CallOk.lose (h.counts d tok hd htok) hfh hnextVnode hnextHandle hset⟩

lemma nextVnode_answers (h : Answers req r s t) : t.nextVnode = s.nextVnode := by
  cases req with
  | «open» | create =>
    rcases h with ⟨-, -, rfl⟩ | ⟨-, -, rfl⟩
    · rfl
    · rfl
  | close v fh file =>
    cases h
    cases fh with
    | null | junk | handle x => rfl
  | opendir | pread | pwrite | stat =>
    cases h
    rfl

lemma nfsCloseCb_ok (r : NfsReply) : handles.Ok c (nfsCloseCb v r s)
    (fun _ t o' => 0 ≤ r.status ∧ t = s.setFh v .null ∧ o' = o) o := by
  unfold nfsCloseCb
  exact Ok.check_bind fun hpos => ⟨hpos, rfl, rfl⟩

lemma nfsCreateCb_ok (r : NfsReply) : handles.Ok c (nfsCreateCb v r s)
    (fun _ t o' => 0 ≤ r.status ∧ t = (s.setFh v r.fh).incref v ∧ o' = o) o := by
  simp only [nfsCreateCb, bind_apply, modify_apply, Res.bind]
  exact Ok.check_bind fun hpos => ⟨hpos, rfl, rfl⟩

lemma vnfsEachopen_ok (h : handles.Inside c l s o) (hv : v < s.nextVnode)
    (ha : s.procs pid = some a) (flags : Nat) :
    handles.Ok c (vnfsEachopen n c v flags pid s) (fun r s o => handles.Inside c l s o ∧
      (r = 0 → v < s.nextVnode ∧ (HandleOk s v ∨ (s.heap a).state = .zombie))) o := by
  refine operation_ok handles_steady h (fun b hb hz => ?_) fun b t _ _ hq ht => ?_
  · obtain rfl : a = b := Option.some.inj (ha.symm.trans hb)
    exact ⟨h, fun _ => ⟨hv, .inr hz⟩⟩
  · have hinc : handles.Inside c ((b, pid) :: l) (t.incref v) o :=
      ht.quiet handles_steady (.incref t v) (fun _ => rfl) rfl
    have hcall : CallOk (t.incref v) (.open v ((t.incref v).vnodes v).path flags) :=
      ⟨hv.trans_le hq.nextVnode, rfl⟩
    simp only [bind_apply, modify_apply, get_apply, Res.bind, request]
    refine Ok.bind (call_ok handles_steady hinc hcall) fun reply t o ht => ?_
    cases reply with
    | none => exact ⟨inside_ret ht.1, fun hr => absurd hr (by decide)⟩
    | some r =>
      obtain ⟨s1, hinside, hcounts, hr⟩ := ht
      obtain ⟨hnew, hok⟩ := inside_opened hinside hcounts hr.1 hr.2
      exact ⟨inside_ret hnew, fun hz => (hok hz).imp_right .inl⟩

lemma vnfsReclaim_ok (h : handles.Inside c l s o)
    (hv : ∀ a, s.procs pid = some a → (s.heap a).state ≠ .zombie → v < s.nextVnode) :
    handles.Ok c (vnfsReclaim n c v pid file s) (fun _ t o =>
      handles.Inside c l (t.dropFile file) o ∧ (v < s.nextVnode → v < t.nextVnode)) o := by
  refine operation_ok handles_steady h (fun b _ _ => ⟨inside_dropFile file h, id⟩)
    fun b t hb hz hq ht => ?_
  have hlt : v < t.nextVnode := (hv b hb hz).trans_le hq.nextVnode
  have hcall : CallOk t (.close v (t.vnodes v).nfsfh file) :=
    ⟨hlt, fun x hx => ⟨ht.holds.fresh v hlt x hx,
      fun w hw hx' => ht.holds.unique w hw v hlt x hx' hx⟩⟩
  simp only [bind_apply, get_apply, Res.bind, request]
  refine Ok.bind (call_ok handles_steady ht hcall) fun reply t' o ht => ?_
  cases reply with
  | none => exact ⟨inside_dropFile file (inside_ret ht.1), fun _ => hlt.trans_le ht.2.nextVnode⟩
  | some r =>
    obtain ⟨s1, hinside, hcounts, hr⟩ := ht
    refine Ok.bind (nfsCloseCb_ok r) fun _ u o' hu => ?_
    obtain ⟨hpos, rfl, rfl⟩ := hu
    refine ⟨?_, fun _ => ?_⟩
    · have hclosed := inside_ret (inside_closed hinside hcounts hr.1 (hr.2 hpos))
      rw [← dropFile_ret] at hclosed
      exact hclosed
    · show v < t'.nextVnode
      rw [nextVnode_answers hr.1]
      exact hcounts.1

lemma vnfsCreat_ok (dir : Nat) (name : String) (h : handles.Inside c l s o) :
    handles.Ok c (vnfsCreat c dir name pid s) (fun r s o => handles.Inside c l s o ∧
      ∀ v, r.2 = some v → v < s.nextVnode ∧ (s.vnodes v).path = name) o := by
  refine operation_ok handles_steady h (fun _ _ _ => ⟨h, nofun⟩) fun b t _ _ _ ht => ?_
  have hadd : handles.Inside c ((b, pid) :: l) (t.addVnode dir name) o :=
    ht.quiet handles_steady (.addVnode t dir name) (fun _ => rfl) rfl
  refine ⟨inside_ret hadd, fun v hv => ?_⟩
  obtain rfl : t.nextVnode = v := Option.some.inj hv
  exact ⟨Nat.lt_succ_self _, by simp [FsState.addVnode, FsState.addCount, FsState.setProc,
    FsState.leave]⟩

def Found (c a : Nat) (pid : Int) (l : List (Nat × Int)) (r : Int × Option Nat) (s : FsState)
    (o : Nat → Option Token) : Prop :=
  handles.Inside c l s o ∧ s.procs pid = some a ∧ (r.1 = 0 → ∀ v, r.2 = some v → v < s.nextVnode)

lemma Found.ret {r : Int × Option Nat} (h : handles.Inside c ((a, pid) :: l) s o)
    (hr : r.1 = 0 → ∀ v, r.2 = some v → v < s.nextVnode) :
    Found c a pid l r ((s.addCount a (-1)).leave c a pid) o :=
  ⟨inside_ret h, h.balanced.procs.2, hr⟩

lemma createFile_ok (dir : Nat) (pathname : String) (h : handles.Inside c ((a, pid) :: l) s o) :
    handles.Ok c (createFile n c dir pathname a s)
      (fun r s o => Found c a pid l r (s.leave c a pid) o) o := by
  refine Ok.bind (vnfsCreat_ok dir pathname h) fun r s o hs => ?_
  refine Ok.ofOption_bind fun new hnew => ?_
  obtain ⟨hlt, hpath⟩ := hs.2 new hnew
  have hcall : handles.counts s (.create new pathname) := ⟨hlt, hpath.symm⟩
  refine Ok.bind (call_ok handles_steady hs.1 hcall) fun reply t o ht => ?_
  cases reply with
  | none => trivial
  | some r =>
    obtain ⟨s1, hinside, hcounts, hr⟩ := ht
    refine Ok.bind (nfsCreateCb_ok r) fun _ u o' hu => ?_
    obtain ⟨hpos, rfl, rfl⟩ := hu
    have hopened := (inside_opened hinside hcounts hr.1 fun hneg => by omega).1
    have hinc := hopened.quiet handles_steady (.incref _ new) (fun _ => rfl) rfl
    have hlt' : new < t.nextVnode := by
      rw [nextVnode_answers hr.1]
      exact hcounts.1
    refine Ok.bind (vnfsReclaim_ok hinc fun _ _ _ => hlt') fun _ t o ht => ?_
    refine Found.ret ht.1 fun _ v hv => ?_
    cases hv
    exact ht.2 hlt'

lemma vnfsLookup_ok (dir : Nat) (pathname : String) (new : Bool) (h : handles.Inside c l s o)
    (ha : s.procs pid = some a) : handles.Ok c (vnfsLookup n c dir pathname new pid s)
      (fun r s o => Found c a pid l r s o) o := by
  refine operation_ok handles_steady h (fun _ _ _ => ⟨h, ha, nofun⟩) fun b t hb _ _ ht => ?_
  obtain rfl : a = b := Option.some.inj (ha.symm.trans hb)
  simp only [bind_apply, get_apply, Res.bind]
  cases hv : (t.chain.dropWhile (· ≠ dir)).find? fun v => (t.vnodes v).path = pathname with
  | some v =>
    refine Found.ret ht fun _ w hw => ?_
    cases hw
    exact ht.holds.chain v ((List.dropWhile_sublist _).subset (List.mem_of_find?_eq_some hv))
  | none => ?_
  dsimp only
  split
  · exact Found.ret ht nofun
  refine Ok.bind (Contract.call_keeps handles_steady (by trivial) _ _ ht) fun reply t o ht => ?_
  cases reply with
  | none => trivial
  | some reply =>
    have hcb : handles.Ok c (nfsLookupCb c dir pathname reply t) (fun r s o =>
        handles.Inside c ((a, pid) :: l) s o ∧
          (r.1 = 0 → ∀ v, r.2 = some v → v < s.nextVnode)) o := by
      refine Ok.check_bind fun _ => ?_
      split
      · refine Ok.bind (vnfsCreat_ok dir pathname ht) fun r s o hs => ?_
        exact ⟨hs.1, fun _ v hv => (hs.2 v hv).1⟩
      · exact ⟨ht, fun hr => absurd hr (by show ¬ (-1 : Int) = 0; decide)⟩
    refine Ok.bind hcb fun r t o ht => ?_
    split
    · exact createFile_ok dir pathname ht.1
    · exact Found.ret ht.1 ht.2

lemma vfsOpen_handle_ok {path : String} (hpath : path ≠ "console") (mode : Nat)
    (h : handles.Inside c l s o) (ha : s.procs pid = some a) :
    handles.Ok c (vfsOpen n c path mode pid s) (fun res s o => handles.Inside c l s o ∧
      ∀ vn, res = some vn → ∃ v, vn = .nfs v ∧ v < s.nextVnode ∧
        (HandleOk s v ∨ (s.heap a).state = .zombie)) o := by
  have hlookup : handles.Ok c (vfsLookup n c path true pid s) (fun r s o =>
      handles.Inside c l s o ∧ s.procs pid = some a ∧
        (r.1 = 0 → ∀ vn, r.2 = some vn → ∃ v, vn = .nfs v ∧ v < s.nextVnode)) o := by
    simp only [vfsLookup, findDevice, if_neg hpath]
    split
    · refine (vnfsLookup_ok _ _ _ h ha).bind fun r s o hs => ⟨hs.1, hs.2.1, fun hr vn hvn => ?_⟩
      obtain ⟨v, hv, rfl⟩ := Option.map_eq_some_iff.mp hvn
      exact ⟨v, rfl, hs.2.2 hr v hv⟩
    · exact ⟨h, ha, fun _ vn hvn => ⟨rootVnode, (Option.some.inj hvn).symm, h.holds.root⟩⟩
  refine Ok.bind hlookup fun r s o hs => ?_
  dsimp only
  split
  · exact ⟨hs.1, by simp⟩
  · rename_i hr
    refine Ok.ofOption_bind fun res hres => ?_
    obtain ⟨v, rfl, hv⟩ := hs.2.2 (not_not.mp hr) res hres
    refine Ok.bind (vnfsEachopen_ok hs.1 hv hs.2.1 mode) fun r s o hs' => ?_
    split
    · exact ⟨hs'.1, by simp⟩
    · rename_i hr'
      refine ⟨hs'.1, fun vn hvn => ?_⟩
      cases hvn
      exact ⟨v, rfl, hs'.2 (not_not.mp hr')⟩

lemma fdtPlace_ok {vn : Vnode} (mode : Nat) (h : handles.Inside c l s o)
    (hvn : ∀ v, vn = .nfs v → v < s.nextVnode ∧ (HandleOk s v ∨ (s.heap a).state = .zombie)) :
    handles.Ok c (fdtPlace a vn mode s) (fun _ s o => handles.Inside c l s o) o := by
  simp only [fdtPlace, bind_apply, get_apply, Res.bind]
  refine Ok.ofOption_bind fun t _ => ?_
  cases freeFd t with
  | none => exact h
  | some fd =>
    refine h.setFile handles_procSafe a fd _ (h.holds.setFile a fd _ fun v hv => hvn v ?_)
    simpa using hv

lemma syscallOpen_handles (path : String) (mode : Nat) :
    handles.Keeps c l (syscallOpen n c pid path mode) := by
  intro s o h
  by_cases hpath : path = "console"
  · subst hpath
    rw [syscallOpen_console]
    exact Ok.ofOption_bind fun a _ => fdtPlace_ok mode h nofun
  · simp only [syscallOpen, bind_apply, get_apply, Res.bind]
    refine Ok.ofOption_bind fun a ha => ?_
    refine Ok.bind (vfsOpen_handle_ok hpath mode h ha) fun res s o hs => ?_
    cases res with
    | none => exact hs.1
    | some vn =>
      obtain ⟨v, rfl, hv⟩ := hs.2 vn rfl
      refine fdtPlace_ok mode hs.1 fun w hw => ?_
      cases hw
      exact hv

lemma syscallClose_handles (fd : Int) : handles.Keeps c l (syscallClose n c pid fd) := by
  intro s o h
  simp only [syscallClose, bind_apply, get_apply, Res.bind]
  refine Ok.ofOption_bind fun a ha => Ok.ofOption_bind fun fd _ => ?_
  refine Ok.ofOption_bind fun f hf => ?_
  cases hvn : f.vn with
  | console =>
    have hclose : handles.Keeps c l (vopReclaim n c .console pid (some (a, fd))) := by
      intro s o h
      simp only [vopReclaim, consoleClose, bind_apply, modify_apply, Res.bind]
      split
      · exact h.quiet handles_steady (.of_vnodes rfl rfl (fun _ => rfl) (fun _ => rfl) rfl rfl rfl
          rfl rfl) (fun _ => rfl) rfl
      · exact h
    exact Ok.bind (hclose s o h) fun _ s o hs =>
      inside_dropFile (some (a, fd)) hs
  | nfs v =>
    have hv : ∀ b, s.procs pid = some b → (s.heap b).state ≠ .zombie → v < s.nextVnode := by
      intro b hb hz
      obtain rfl : a = b := Option.some.inj (ha.symm.trans hb)
      exact (h.holds.inUse v a fd ⟨hz, by rw [hf, Option.map_some, hvn]⟩).1
    exact Ok.bind (vnfsReclaim_ok h hv) fun _ s o hs => hs.1

lemma operation_of_none {α : Type} (hp : s.procs pid = none) (skipped : α) (body : Nat → FsM α) :
    operation c pid skipped body s = .fail .nullPointer := by
  simp only [operation, bind_apply, get_apply, Res.bind, hp, Coro.ofOption]
  rfl

lemma body_handles (op : FsOp) : handles.Keeps c l (op.body n c) := by
  have hdiscard : ∀ {γ : Type} {x : FsM γ}, handles.Keeps c l x → handles.Keeps c l (discard x) :=
    fun hx s o h => (hx s o h).bind fun _ _ _ hs => hs
  have hS := handles_steady
  cases op with
  | eachopen v flags pid =>
    intro s o h
    refine Ok.check_bind fun hv => ?_
    cases hp : s.procs pid with
    | none =>
      show handles.Ok c ((vnfsEachopen n c v flags pid s).bind _) _ o
      rw [vnfsEachopen, operation_of_none hp]
      trivial
    | some a => exact Ok.bind (vnfsEachopen_ok h hv hp flags) fun _ _ _ hs => hs.1
  | write v uio => exact Contract.onVnode_keeps v (Contract.vnfsWrite_keeps hS v uio)
  | read v uio => exact Contract.onVnode_keeps v (Contract.vnfsRead_keeps hS v uio)
  | getdirent dir uio => exact Contract.onVnode_keeps dir (Contract.vnfsGetdirent_keeps hS dir uio)
  | stat v pid => exact Contract.onVnode_keeps v (Contract.vnfsStat_keeps hS v pid)
  | lookup dir name new pid =>
    intro s o h
    refine Ok.check_bind fun _ => ?_
    cases hp : s.procs pid with
    | none =>
      show handles.Ok c ((vnfsLookup n c dir name new pid s).bind _) _ o
      rw [vnfsLookup, operation_of_none hp]
      trivial
    | some a => exact Ok.bind (vnfsLookup_ok dir name new h hp) fun _ _ _ hs => hs.1
  | creat dir name pid =>
    exact Contract.onVnode_keeps dir (Contract.vnfsCreat_keeps hS dir name pid)
  | reclaim v pid =>
    intro s o h
    refine Ok.check_bind fun hv => ?_
    exact Ok.bind (vnfsReclaim_ok h fun _ _ _ => hv) fun _ _ _ hs => hs.1
  | statbuf dir path pid =>
    exact Contract.onVnode_keeps dir (Contract.nfsGetStatbuf_keeps hS dir path pid)
  | «open» pid path mode => exact hdiscard (syscallOpen_handles path mode)
  | close pid fd => exact syscallClose_handles fd
  | create pid a state => exact Contract.procCreate_keeps handles_procSafe pid a state
  | exit pid => exact Contract.procExit_keeps handles_procSafe pid
  | destroy pid => exact hdiscard (Contract.procDestroy_keeps handles_procSafe pid)

end Operations

/-! ## Runs -/

/-- A step in which no open of a vnode in use fails, and no vnode is closed that is open
elsewhere. -/
def Careful (p : FsPool) (e : Event Nat FsOp NfsReply) : Prop :=
  ∀ c r req k, e = .resume c r → p.waiting c = some (req, k) → ReplyOk p.state req r

section Run

variable {n : Libnfs} {p₀ p : FsPool}

/-- In every run of such steps, the handle of a vnode that a process has open was given
out for its path and is still open, as long as the process has not exited. -/
theorem open_files_have_handles (hidle : Idle p₀) (hbooted : HandlesOk p₀.state)
    (hrun : Lts.Run (FsStep n) Careful p₀ p) {a v : Nat} {fd : Fin processMaxFiles}
    {f : OpenFile} (hstate : (p.state.heap a).state ≠ .zombie) (hf : p.state.file a fd = some f)
    (hvn : f.vn = .nfs v) : HandleOk p.state v := by
  obtain ⟨toks, hinv, -⟩ : ∃ toks, p.Ok handles.Inv HasCall (fun _ => handles.env) toks :=
    hrun.invariant (hidle.ok hbooted) fun hok hcareful hstep => Contract.step_ok hstep hok
      (fun c op o _ h => body_handles op _ o h) fun c r req k he hw => hcareful c r req k he hw
  exact (hinv.2.1.inUse v a fd ⟨hstate, by rw [hf, Option.map_some, hvn]⟩).2

lemma Careful.of_run {q : FsPool} (hrun : Lts.Run (Pool.Step (FsOp.body n)
    fun _ => handles.env) Lts.anyStep p q) : Lts.Run (FsStep n) Careful p q := by
  induction hrun with
  | refl => exact .refl
  | tail _ _ hstep ih =>
    cases hstep with
    | start hw hpark =>
      refine .tail ih ?_ (.start hw hpark)
      rintro _ _ _ _ ⟨⟩
    | resume hw hr hpark =>
      refine .tail ih ?_ (.resume hw hr.1 hpark)
      rintro c r req k he hw'
      cases he
      rw [hw] at hw'
      cases hw'
      exact hr.2

end Run

lemma handlesOk_bootedFs : HandlesOk bootedFs.state where
  inUse v a fd hu := by simp [InUse, FsState.file, bootedFs] at hu
  chain v hv := by
    obtain rfl : v = 0 := by simpa [bootedFs] using hv
    exact Nat.zero_lt_one
  root := Nat.zero_lt_one
  fresh v _ h hfh := nomatch hfh
  unique v _ w _ h hfh := nomatch hfh

def serveOpens (names : List String) (co : Nat) (req : NfsCall) (s : FsState) :
    NfsReply × FsState :=
  match req with
  | .close _ fh _ => (⟨-1, .null, [], devStat⟩, s.closed fh)
  | req => serve names co req s

lemma env_serveOpens (names : List String) (co : Nat) (req : NfsCall) (s : FsState) :
    handles.env req (serveOpens names co req s).1 s (serveOpens names co req s).2 := by
  cases req with
  | «open» v path flags =>
    exact ⟨.inr ⟨le_rfl, rfl, rfl⟩, fun hneg => absurd hneg (by show ¬ (0 : Int) < 0; decide)⟩
  | create v path => exact ⟨.inr ⟨le_rfl, rfl, rfl⟩, trivial⟩
  | close v fh file => exact ⟨rfl, fun hpos => absurd hpos (by show ¬ (0 : Int) ≤ -1; decide)⟩
  | opendir | pread fh offset len | pwrite fh offset len | stat path => exact ⟨rfl, trivial⟩

theorem open_files_have_handles_shared :
    ∃ p, Lts.Run (FsStep acceptAll) Careful bootedFs p ∧
      (p.state.file 10 0).map OpenFile.vn = some (.nfs 1) ∧
      (p.state.file 11 0).map OpenFile.vn = some (.nfs 1) ∧ HandleOk p.state 1 := by
  obtain ⟨p, hplay, hstate, hf1, hf2⟩ :
      ∃ p, Lts.Run (Pool.Step (FsOp.body acceptAll) fun _ => handles.env) Lts.anyStep bootedFs p ∧
        (p.state.heap 10).state = .running ∧ p.state.file 10 0 = some ⟨.nfs 1, 0⟩ ∧
        p.state.file 11 0 = some ⟨.nfs 1, 1⟩ :=
    Pool.exists_run (env_serveOpens ["f"]) [(1, some (.create 1 10 .running)),
      (2, some (.create 2 11 .running)), (3, some (.open 1 "f" 0)), (3, none), (3, none),
      (4, some (.open 2 "f" 1)), (4, none)] (by decide +kernel)
  have hrun := Careful.of_run hplay
  refine ⟨p, hrun, by rw [hf1]; rfl, by rw [hf2]; rfl, ?_⟩
  exact open_files_have_handles idle_bootedFs handlesOk_bootedFs hrun
    (by rw [hstate]; decide) hf1 rfl

theorem close_takes_handle :
    ∃ p, Lts.Run (FsStep acceptAll) Lts.anyStep bootedFs p ∧ p.state.procs 2 = some 11 ∧
      (p.state.heap 11).state = .running ∧ p.state.file 11 0 = some ⟨.nfs 1, 1⟩ ∧
      ¬ HandleOk p.state 1 := by
  obtain ⟨p, hrun, hproc, hstate, hf, hnull⟩ :
      ∃ p, Lts.Run (FsStep acceptAll) Lts.anyStep bootedFs p ∧ p.state.procs 2 = some 11 ∧
        (p.state.heap 11).state = .running ∧ p.state.file 11 0 = some ⟨.nfs 1, 1⟩ ∧
        (p.state.vnodes 1).nfsfh = .null :=
    Pool.exists_run (answers_serve ["f"]) [(1, some (.create 1 10 .running)),
      (2, some (.create 2 11 .running)), (3, some (.open 1 "f" 0)), (3, none), (3, none),
      (4, some (.open 2 "f" 1)), (4, none), (5, some (.close 1 0)), (5, none)] (by decide +kernel)
  refine ⟨p, hrun, hproc, hstate, hf, ?_⟩
  rintro ⟨h, hfh, -⟩
  rw [hnull] at hfh
  cases hfh

end SpaghettiOS.Fs
