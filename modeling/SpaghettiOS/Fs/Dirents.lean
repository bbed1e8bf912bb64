import SpaghettiOS.Fs.NfsOps

/-!
# The entries of the directory

`vnfs_getdirent` with its two loops.  The entries are the devices followed by the names
that `nfs_readdir` gives.  A name goes to the caller through its shared buffer, with the
zero at its end.  What does not fit into the buffer fails an assertion.
-/

namespace SpaghettiOS.Dirents

open Coroutine (Res)
open Coro (check)
open Fs (ProcState Crash NfsCall)
open Vm (shareBufBytes shareBufCheckLen)

/-! ## The code -/

structure CString where
  bytes : List UInt8
  nonzero : ∀ b ∈ bytes, b ≠ 0

def CString.strlen (s : CString) : Nat := s.bytes.length

def CString.stored (s : CString) : List UInt8 := s.bytes ++ [0]

structure Caller where
  state : ProcState
  coroCount : Int
  sharedBuf : Nat → UInt8

/-- What the callback of `nfs_opendir_async` is given, with the names that `nfs_readdir`
returns one after the other. -/
structure DirReply where
  status : Int
  names : List CString

abbrev DirM := Coro Caller NfsCall DirReply Crash

/-- A loop that looks for entry `len` among some names, the first of which is number `i`: the
name, if it is there, and the number reached. -/
def seek {α : Type} (len : Nat) : List α → Nat → Option α × Nat
  | [], i => (none, i)
  | name :: names, i =>
      if i ≤ len then
        if i = len then (some name, i) else seek len names (i + 1)
      else (none, i)

def findDevicePos (devs : List CString) (len : Nat) : Option CString × Nat := seek len devs 0

/-- `nfs_dirent_cb`: the path it leaves. -/
def nfsDirentCb (i len : Nat) (reply : DirReply) : DirM (Option CString) := do
  check (0 ≤ reply.status) .nfsError
  pure (seek len reply.names i).1

/-- `curproc->coro_count--; return r;` -/
def ret (r : Int) : DirM Int := do
  modify fun c => { c with coroCount := c.coroCount - 1 }
  pure r

def sosCopyin (name : CString) (len : Nat) : DirM Nat := do
  let len := shareBufCheckLen len
  modify fun c => { c with
    sharedBuf := fun k => if k < len then name.stored.getD k 0 else c.sharedBuf k }
  pure len

def retName (name : CString) : DirM Int := do
  let bytesWritten ← sosCopyin name (name.strlen + 1)
  check (bytesWritten = name.strlen + 1) .assertion
  ret (name.strlen + 1)

/-- `vnfs_getdirent`, for a directory with the devices `devs`.  libnfs accepts the call or
not. -/
def vnfsGetdirent (devs : List CString) (accepts : Bool) (len : Nat) : DirM Int := do
  let curproc ← get
  if curproc.state = .zombie then pure 0
  else do
    modify fun c => { c with coroCount := c.coroCount + 1 }
    match findDevicePos devs len with
    | (some name, _) => retName name
    | (none, i) =>
        if accepts then do
          let reply ← Coro.yield .opendir
          let path ← nfsDirentCb i len reply
          match path with
          | none => ret 0
          | some path => retName path
        else ret (-1)

/-! ## Every entry in its place -/

def answer (names : List CString) (_ : NfsCall) (c : Caller) : DirReply × Caller := (⟨0, names⟩, c)

def getdirent (devs names : List CString) (pos : Nat) (c : Caller) :
    Except Crash (Int × Caller) :=
  (vnfsGetdirent devs true pos c).run (answer names)

def Caller.Has (c : Caller) (name : CString) : Prop :=
  ∀ k < name.strlen + 1, c.sharedBuf k = name.stored.getD k 0

/-- What a call is to do: it returns entry `pos` and its length, or 0 behind the last. -/
structure IsEntry (devs names : List CString) (pos : Nat) (r : Int) (c : Caller) : Prop where
  entry : ∀ name, (devs ++ names)[pos]? = some name → r = name.strlen + 1 ∧ c.Has name
  zero : r = 0 ↔ devs.length + names.length ≤ pos

variable {name : CString}

section Entries

variable {α : Type} {devs names : List CString} {pos : Nat} {c : Caller}

lemma seek_eq {len : Nat} (l : List α) {i : Nat} (hi : i ≤ len) :
    seek len l i = (l[len - i]?, min len (i + l.length)) := by
  induction l generalizing i with
  | nil => simp [seek, hi]
  | cons name l ih =>
    rw [seek, if_pos hi]
    by_cases heq : i = len
    · subst heq
      simp
    · have hsucc : len - i = len - (i + 1) + 1 := by omega
      rw [if_neg heq, ih (by omega), hsucc, List.getElem?_cons_succ, List.length_cons]
      simp only [Prod.mk.injEq, true_and]
      omega

def Caller.entered (c : Caller) : Caller := { c with coroCount := c.coroCount + 1 }

lemma getdirent_eq (hc : c.state ≠ .zombie) :
    getdirent devs names pos c = ((match (devs ++ names)[pos]? with
        | none => ret 0
        | some name => retName name) c.entered).run (answer names) := by
  have hdevs : findDevicePos devs pos = (devs[pos]?, min pos devs.length) := by
    rw [findDevicePos, seek_eq devs (Nat.zero_le pos), Nat.sub_zero, Nat.zero_add]
  simp only [getdirent, vnfsGetdirent, Coro.bind_apply, Coro.get_apply, Res.bind, hc, if_false,
    Coro.modify_apply, hdevs]
  by_cases hpos : pos < devs.length
  · rw [List.getElem?_append_left hpos, List.getElem?_eq_getElem hpos]
    rfl
  · have hle : devs.length ≤ pos := Nat.le_of_not_lt hpos
    have hloop : (seek pos names devs.length).1 = names[pos - devs.length]? := by
      rw [seek_eq names hle]
    rw [List.getElem?_append_right hle, List.getElem?_eq_none hle, Nat.min_eq_right hle]
    simp only [if_true, Coro.bind_apply, Coro.yield, Res.bind, nfsDirentCb, Res.run, answer, check,
      le_refl, hloop]
    cases names[pos - devs.length]? with
    | none => rfl
    | some name => rfl

lemma retName_eq (name : CString) :
    retName name c = if shareBufCheckLen (name.strlen + 1) = name.strlen + 1 then
        .done (name.strlen + 1 : Int) { c with
          coroCount := c.coroCount - 1
          sharedBuf := fun k =>
            if k < shareBufCheckLen (name.strlen + 1) then name.stored.getD k 0
            else c.sharedBuf k }
      else .fail .assertion := by
  simp only [retName, sosCopyin, Coro.bind_apply, Coro.modify_apply, Coro.pure_apply, Res.bind,
    check]
  split
  · rfl
  · rfl

lemma retName_short (hshort : name.strlen + 1 ≤ shareBufBytes) :
    ∃ c', retName name c = .done (name.strlen + 1 : Int) c' ∧ c'.Has name ∧ c'.state = c.state := by
  have hlen : shareBufCheckLen (name.strlen + 1) = name.strlen + 1 := if_neg (not_lt.mpr hshort)
  refine ⟨_, (retName_eq name).trans (if_pos hlen), fun k hk => ?_, rfl⟩
  exact if_pos (by rw [hlen]; exact hk)

lemma retName_long (hlong : shareBufBytes < name.strlen + 1) :
    retName name c = .fail .assertion := by
  have hlen : shareBufCheckLen (name.strlen + 1) = shareBufBytes := if_pos hlong
  rw [retName_eq, hlen, if_neg hlong.ne]

lemma getdirent_end (hc : c.state ≠ .zombie) (hpos : devs.length + names.length ≤ pos) :
    ∃ c', getdirent devs names pos c = .ok (0, c') ∧ c'.state = c.state := by
  rw [getdirent_eq hc, List.getElem?_eq_none (by rw [List.length_append]; exact hpos)]
  exact ⟨_, rfl, rfl⟩

lemma getdirent_short (hc : c.state ≠ .zombie) (hname : (devs ++ names)[pos]? = some name)
    (hshort : name.strlen + 1 ≤ shareBufBytes) :
    ∃ c', getdirent devs names pos c = .ok ((name.strlen + 1 : Int), c') ∧ c'.Has name ∧
      c'.state = c.state := by
  obtain ⟨c', hret, hhas, hstate⟩ := retName_short (c := c.entered) hshort
  refine ⟨c', ?_, hhas, hstate⟩
  rw [getdirent_eq hc, hname]
  simp only [hret, Res.run]

lemma getdirent_long (hc : c.state ≠ .zombie) (hname : (devs ++ names)[pos]? = some name)
    (hlong : shareBufBytes < name.strlen + 1) : getdirent devs names pos c = .error .assertion := by
  rw [getdirent_eq hc, hname]
  simp only [retName_long hlong, Res.run]

lemma getdirent_isEntry_iff (hc : c.state ≠ .zombie) :
    (∃ r c', getdirent devs names pos c = .ok (r, c') ∧ IsEntry devs names pos r c') ↔
      ∀ name, (devs ++ names)[pos]? = some name → name.strlen + 1 ≤ shareBufBytes := by
  constructor
  · rintro ⟨r, c', hrun, -⟩ name hname
    by_contra hlong
    rw [getdirent_long hc hname (not_le.mp hlong)] at hrun
    cases hrun
  · intro hshort
    cases hname : (devs ++ names)[pos]? with
    | none =>
      have hpos : devs.length + names.length ≤ pos := by
        rw [← List.length_append]
        exact List.getElem?_eq_none_iff.mp hname
      obtain ⟨c', hrun, -⟩ := getdirent_end hc hpos
      refine ⟨0, c', hrun, fun name hsome => ?_, fun _ => hpos, fun _ => rfl⟩
      rw [hname] at hsome
      cases hsome
    | some name =>
      obtain ⟨c', hrun, hhas, -⟩ := getdirent_short hc hname (hshort name hname)
      have hpos : pos < devs.length + names.length := by
        rw [← List.length_append]
        exact (List.getElem?_eq_some_iff.mp hname).1
      refine ⟨_, c', hrun, fun name' hname' => ?_, fun hzero => ?_, fun hle => ?_⟩
      · obtain rfl := Option.some.inj (hname.symm.trans hname')
        exact ⟨rfl, hhas⟩
      · omega
      · omega

/-! ## Listing the directory -/

def Caller.read (c : Caller) (r : Int) : List UInt8 := (List.range (r.toNat - 1)).map c.sharedBuf

/-- Asks for the entries from `pos` on, until 0 is returned. -/
def listFrom (devs names : List CString) : Nat → Nat → Caller → Option (List (List UInt8))
  | 0, _, _ => none
  | rounds + 1, pos, c =>
      match getdirent devs names pos c with
      | .error _ => none
      | .ok (r, c') =>
          if r = 0 then some []
          else (listFrom devs names rounds (pos + 1) c').map fun rest => c'.read r :: rest

lemma Caller.Has.read (h : c.Has name) : c.read (name.strlen + 1 : Int) = name.bytes := by
  have hlen : ((name.strlen + 1 : Int).toNat - 1) = name.strlen := by omega
  rw [Caller.read, hlen]
  refine List.ext_getElem (by simp [CString.strlen]) fun k hk hk' => ?_
  have hlt : k < name.strlen := hk'
  rw [List.getElem_map, List.getElem_range, h k (by omega), CString.stored,
    List.getD_eq_getElem?_getD, List.getElem?_append_left hk', List.getElem?_eq_getElem hk']
  rfl

lemma listFrom_eq (hc : c.state ≠ .zombie)
    (hshort : ∀ name ∈ devs ++ names, name.strlen + 1 ≤ shareBufBytes) {rounds : Nat}
    (hpos : pos ≤ devs.length + names.length)
    (hrounds : devs.length + names.length < pos + rounds) :
    listFrom devs names rounds pos c = some (((devs ++ names).drop pos).map CString.bytes) := by
  induction rounds generalizing pos c with
  | zero => omega
  | succ rounds ih =>
    rw [listFrom]
    cases hname : (devs ++ names)[pos]? with
    | none =>
      have hend := List.getElem?_eq_none_iff.mp hname
      have hdrop := List.drop_eq_nil_of_le hend
      rw [List.length_append] at hend
      obtain ⟨c', hrun, -⟩ := getdirent_end hc hend
      rw [hrun, hdrop]
      rfl
    | some name =>
      obtain ⟨hlt, hget⟩ := List.getElem?_eq_some_iff.mp hname
      have hdrop := List.drop_eq_getElem_cons hlt
      rw [List.length_append] at hlt
      obtain ⟨c', hrun, hhas, hstate⟩ := getdirent_short hc hname
        (hshort name (List.mem_of_getElem? hname))
      have hne : ¬ (name.strlen + 1 : Int) = 0 := by omega
      simp only [hrun, if_neg hne]
      rw [ih (by rw [hstate]; exact hc) (by omega) (by omega), hhas.read, hdrop, hget]
      rfl

/-- For a live process and every device list, directory and position: the call returns the
entry exactly if its name fits into the shared buffer.  If all names do, the calls from 0 on
list the directory, each entry once and in order. -/
theorem getdirent_lists (devs names : List CString) (c : Caller) (hc : c.state ≠ .zombie) :
    (∀ pos, (∃ r c', getdirent devs names pos c = .ok (r, c') ∧ IsEntry devs names pos r c') ↔
      ∀ name, (devs ++ names)[pos]? = some name → name.strlen + 1 ≤ shareBufBytes) ∧
    ((∀ name ∈ devs ++ names, name.strlen + 1 ≤ shareBufBytes) →
      listFrom devs names (devs.length + names.length + 1) 0 c =
        some ((devs ++ names).map CString.bytes)) := by
  refine ⟨fun pos => getdirent_isEntry_iff hc, fun hshort => ?_⟩
  rw [listFrom_eq hc hshort (Nat.zero_le _) (by omega), List.drop_zero]

def longName (n : Nat) : CString := ⟨List.replicate n 97, fun b hb => by
  rw [List.eq_of_mem_replicate hb]
  decide⟩

lemma strlen_longName (n : Nat) : (longName n).strlen = n := List.length_replicate

lemma getdirent_longName {n : Nat} {c : Caller} (hc : c.state ≠ .zombie)
    (hn : shareBufBytes ≤ n) : getdirent [] [longName n] 0 c = .error .assertion := by
  refine getdirent_long hc rfl ?_
  rw [strlen_longName]
  exact Nat.lt_succ_of_le hn

theorem getdirent_lists_two :
    listFrom [longName 7] [longName 3] 3 0 ⟨.running, 0, fun _ => 0⟩ =
      some [List.replicate 7 97, List.replicate 3 97] :=
  (getdirent_lists [longName 7] [longName 3] ⟨.running, 0, fun _ => 0⟩ (by decide)).2 (by decide)

theorem getdirent_long_name :
    ¬ ∃ r c', getdirent [] [longName shareBufBytes] 0 ⟨.running, 0, fun _ => 0⟩ = .ok (r, c') := by
  rintro ⟨r, c', hrun⟩
  have hfail := getdirent_longName (c := ⟨.running, 0, fun _ => 0⟩) (by decide) le_rfl
  exact nomatch hfail.symm.trans hrun

end Entries

end SpaghettiOS.Dirents
