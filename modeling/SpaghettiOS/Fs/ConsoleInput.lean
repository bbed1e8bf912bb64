import Mathlib.Data.List.Basic
import SpaghettiOS.Fs.State

/-!
# Lines from the console

`console_handler` is called for every character that arrives, and `console_read` waits in
its coroutine until the handler has seen a newline.

The handler stores characters as long as somebody reads, however many there are.  A second
read while one is waiting takes the place of the first as the one to resume, and leaves the
bytes where they are.
-/

namespace SpaghettiOS.ConsoleInput

open Function (update)
open Fs (Crash)

/-! ## The code -/

abbrev bufferSize : Nat := 8192

abbrev newline : UInt8 := 10

/-- The static variables of `console.c`. -/
structure Console where
  reading : Bool
  nbytesRead : Nat
  buffer : Nat → UInt8
  curr : Nat

/-- `console_handler`: whether it resumes `curr`. -/
def consoleHandler (s : Console) (c : UInt8) : Except Crash (Console × Bool) :=
  if s.reading then
    if s.nbytesRead < bufferSize then
      .ok ({ s with
        buffer := update s.buffer s.nbytesRead c
        nbytesRead := s.nbytesRead + 1 }, c = newline)
    else .error .outOfBounds
  else .ok (s, false)

/-- `console_read` up to the `yield`, in coroutine `co`. -/
def beginRead (s : Console) (co : Nat) : Console := { s with reading := true, curr := co }

/-- The loop of `console_read`: `i` and the array.  It makes no more rounds than there are
bytes. -/
def copyLine (s : Console) (len : Nat) :
    Nat → Nat → (Nat → UInt8) → Except Crash (Nat × (Nat → UInt8))
  | 0, i, msg => .ok (i, msg)
  | rounds + 1, i, msg =>
      if i < len ∧ i < s.nbytesRead then
        if i < bufferSize then copyLine s len rounds (i + 1) (update msg i (s.buffer i))
        else .error .outOfBounds
      else .ok (i, msg)

/-- `console_read` after the `yield`: the bytes that go to the caller, as many as it
returns. -/
def endRead (s : Console) (len : Nat) (msg : Nat → UInt8) :
    Except Crash (Console × List UInt8) := do
  let (i, msg) ← copyLine s len s.nbytesRead 0 msg
  if i < bufferSize then
    let msg := update msg i 0
    pure ({ s with reading := false, nbytesRead := 0 }, (List.range i).map msg)
  else throw .outOfBounds

/-! ## Readers and characters in any order -/

/-- A call of `console_read` that waits, with the characters that have arrived since it
began. -/
structure Reader where
  co : Nat
  len : Nat
  since : List UInt8

structure Sys where
  console : Console
  waiting : List Reader

inductive Event where
  | read (co len : Nat)
  | char (c : UInt8)

/-- A coroutine calls once at a time. -/
def Enabled (s : Sys) : Event → Prop
  | .read co _ => ∀ r ∈ s.waiting, r.co ≠ co
  | .char _ => True

def Reader.hear (r : Reader) (c : UInt8) : Reader := { r with since := r.since ++ [c] }

/-- What an event does, and the call that returns, with its bytes.  `junk` is what the array
`msg` holds at first. -/
def Sys.handle (junk : Nat → UInt8) (s : Sys) :
    Event → Except Crash (Sys × Option (Nat × List UInt8))
  | .read co len => .ok (⟨beginRead s.console co, ⟨co, len, []⟩ :: s.waiting⟩, none)
  | .char c => do
      let waiting := s.waiting.map fun r => r.hear c
      let (console, resumes) ← consoleHandler s.console c
      if resumes then
        match waiting.find? fun r => r.co = console.curr with
        | none => throw .nullPointer
        | some r => do
            let (console, bytes) ← endRead console r.len junk
            pure (⟨console, waiting.filter fun r' => r'.co ≠ r.co⟩, some (r.co, bytes))
      else pure (⟨console, waiting⟩, none)

def Step (junk : Nat → UInt8) (s : Sys) (e : Event) (s' : Sys) : Prop :=
  Enabled s e ∧ ∃ returned, s.handle junk e = .ok (s', returned)

def idle (buffer : Nat → UInt8) (curr : Nat) : Sys := ⟨⟨false, 0, buffer, curr⟩, []⟩

/-- What an event is to do: nothing is written outside of an array, and at a newline every
call that waits returns the first of the bytes that have arrived since it began, as many as
it asked for. -/
def Good (junk : Nat → UInt8) (s : Sys) (e : Event) : Prop :=
  ∃ s' returned, s.handle junk e = .ok (s', returned) ∧ match e with
    | .read _ _ => returned = none
    | .char c =>
        (c ≠ newline → returned = none) ∧ (c = newline → ∀ r ∈ s.waiting,
          returned = some (r.co, (r.since ++ [newline]).take r.len))

/-- There is room in the buffer, and at a newline there is one call that waits, and room for
the zero. -/
def Guard (s : Sys) : Event → Prop
  | .read _ _ => True
  | .char c => s.waiting ≠ [] → s.console.nbytesRead < bufferSize ∧
      (c = newline → ∃ r, s.waiting = [r] ∧ min r.len (s.console.nbytesRead + 1) < bufferSize)

/-! ## What a read returns -/

section EndRead

variable {s : Console} {len : Nat}

def copied (s : Console) (len i : Nat) (msg : Nat → UInt8) (k : Nat) : UInt8 :=
  if i ≤ k ∧ k < min len s.nbytesRead then s.buffer k else msg k

lemma copied_min (msg : Nat → UInt8) : copied s len (min len s.nbytesRead) msg = msg :=
  funext fun _ => if_neg fun hk => absurd hk.1 (not_le.mpr hk.2)

lemma copied_succ {i : Nat} (hi : i < min len s.nbytesRead) (msg : Nat → UInt8) :
    copied s len (i + 1) (update msg i (s.buffer i)) = copied s len i msg := by
  funext k
  unfold copied
  rcases eq_or_ne k i with rfl | hne
  · rw [if_neg (by omega), if_pos ⟨le_rfl, hi⟩, Function.update_self]
  · rw [Function.update_of_ne hne]
    exact if_congr (by omega) rfl rfl

lemma copyLine_eq (hn : s.nbytesRead ≤ bufferSize) {rounds i : Nat} (msg : Nat → UInt8)
    (hi : i ≤ min len s.nbytesRead) (hrounds : s.nbytesRead ≤ i + rounds) :
    copyLine s len rounds i msg = .ok (min len s.nbytesRead, copied s len i msg) := by
  induction rounds generalizing i msg with
  | zero =>
    obtain rfl : i = min len s.nbytesRead := by omega
    rw [copyLine, copied_min]
  | succ rounds ih =>
    rw [copyLine]
    split
    · rw [if_pos (by omega), ih _ (by omega) (by omega), copied_succ (by omega)]
    · obtain rfl : i = min len s.nbytesRead := by omega
      rw [copied_min]

lemma endRead_eq (hn : s.nbytesRead ≤ bufferSize) (msg : Nat → UInt8) :
    endRead s len msg = if min len s.nbytesRead < bufferSize then
        .ok ({ s with reading := false, nbytesRead := 0 },
          (List.range (min len s.nbytesRead)).map s.buffer)
      else .error .outOfBounds := by
  rw [endRead, copyLine_eq hn msg (Nat.zero_le _) (by omega)]
  simp only [bind, Except.bind]
  split
  · refine congrArg Except.ok (Prod.ext rfl (List.map_congr_left fun k hk => ?_))
    have hlt := List.mem_range.mp hk
    rw [Function.update_of_ne hlt.ne, copied, if_pos ⟨Nat.zero_le k, hlt⟩]
  · rfl

lemma copyLine_le {rounds i j : Nat} {msg msg' : Nat → UInt8} (hi : i ≤ len)
    (h : copyLine s len rounds i msg = .ok (j, msg')) : j ≤ len := by
  induction rounds generalizing i msg with
  | zero =>
    cases h
    exact hi
  | succ rounds ih =>
    rw [copyLine] at h
    split at h
    case isTrue hlt =>
      split at h
      · exact ih hlt.1 h
      · cases h
    case isFalse =>
      cases h
      exact hi

/-- However many characters there are, a read returns no more bytes than it asked for. -/
lemma length_endRead_le {s' : Console} {msg : Nat → UInt8} {bytes : List UInt8}
    (h : endRead s len msg = .ok (s', bytes)) : bytes.length ≤ len := by
  rw [endRead] at h
  cases hcopy : copyLine s len s.nbytesRead 0 msg with
  | error e =>
    rw [hcopy] at h
    cases h
  | ok x =>
    rw [hcopy] at h
    simp only [bind, Except.bind] at h
    split at h
    · cases h
      rw [List.length_map, List.length_range]
      exact copyLine_le (Nat.zero_le len) hcopy
    · cases h

end EndRead

/-! ## The invariant -/

def Console.bytes (s : Console) : List UInt8 := (List.range s.nbytesRead).map s.buffer

/-- The buffer has what has arrived since the first of the calls that wait began, and the
last of them is the one to resume. -/
structure Inv (s : Sys) : Prop where
  reading : s.console.reading = true ↔ s.waiting ≠ []
  none : s.waiting = [] → s.console.nbytesRead = 0
  curr : ∀ r ∈ s.waiting.head?, r.co = s.console.curr
  first : ∀ r ∈ s.waiting.getLast?, r.since = s.console.bytes
  apart : (s.waiting.map Reader.co).Nodup

section Invariant

variable {s s' : Sys} {junk : Nat → UInt8} {c : UInt8}

lemma inv_idle (buffer : Nat → UInt8) (curr : Nat) : Inv (idle buffer curr) where
  reading := by simp [idle]
  none _ := rfl
  curr r hr := nomatch hr
  first r hr := nomatch hr
  apart := List.nodup_nil

lemma Inv.read (h : Inv s) {co len : Nat} (hco : Enabled s (.read co len)) :
    Inv ⟨beginRead s.console co, ⟨co, len, []⟩ :: s.waiting⟩ where
  reading := by simp [beginRead]
  none hnil := nomatch hnil
  curr r hr := by
    cases hr
    rfl
  first r hr := by
    cases hwaiting : s.waiting with
    | nil =>
      rw [hwaiting] at hr
      cases hr
      show [] = Console.bytes s.console
      rw [Console.bytes, h.none hwaiting]
      rfl
    | cons r' rs =>
      refine h.first r ?_
      rw [hwaiting] at hr ⊢
      rwa [List.getLast?_cons_cons] at hr
  apart := by
    rw [List.map_cons, List.nodup_cons]
    refine ⟨fun hmem => ?_, h.apart⟩
    obtain ⟨r, hr, hrco⟩ := List.mem_map.mp hmem
    exact hco r hr hrco

def stored (s : Console) (c : UInt8) : Console :=
  { s with buffer := update s.buffer s.nbytesRead c, nbytesRead := s.nbytesRead + 1 }

def heard (s : Sys) (c : UInt8) : List Reader := s.waiting.map fun r => r.hear c

lemma nbytesRead_stored (s : Console) (c : UInt8) :
    (stored s c).nbytesRead = s.nbytesRead + 1 := rfl

lemma bytes_stored (s : Console) (c : UInt8) : (stored s c).bytes = s.bytes ++ [c] := by
  rw [Console.bytes, stored, List.range_succ, List.map_append]
  refine congrArg₂ (· ++ ·) (List.map_congr_left fun k hk => ?_) ?_
  · exact Function.update_of_ne (List.mem_range.mp hk).ne _ _
  · exact congrArg (fun b => [b]) (Function.update_self ..)

lemma take_bytes (s : Console) (len : Nat) :
    s.bytes.take len = (List.range (min len s.nbytesRead)).map s.buffer := by
  rw [Console.bytes, ← List.map_take, List.take_range]

lemma handle_quiet (h : Inv s) (hwaiting : s.waiting = []) :
    s.handle junk (.char c) = .ok (s, none) := by
  have hreading : ¬ s.console.reading = true := fun hr => h.reading.mp hr hwaiting
  rw [Sys.handle, consoleHandler, if_neg hreading, hwaiting]
  obtain ⟨console, waiting⟩ := s
  cases hwaiting
  rfl

lemma handle_full (h : Inv s) (hwaiting : s.waiting ≠ [])
    (hfull : ¬ s.console.nbytesRead < bufferSize) :
    s.handle junk (.char c) = .error .outOfBounds := by
  rw [Sys.handle, consoleHandler, if_pos (h.reading.mpr hwaiting), if_neg hfull]
  rfl

lemma handle_char (h : Inv s) (hwaiting : s.waiting ≠ [])
    (hroom : s.console.nbytesRead < bufferSize) (hc : c ≠ newline) :
    s.handle junk (.char c) = .ok (⟨stored s.console c, heard s c⟩, none) := by
  rw [Sys.handle, consoleHandler, if_pos (h.reading.mpr hwaiting), if_pos hroom, decide_eq_false hc]
  rfl

lemma handle_newline (h : Inv s) {r : Reader} {rs : List Reader} (hwaiting : s.waiting = r :: rs)
    (hroom : s.console.nbytesRead < bufferSize) :
    s.handle junk (.char newline) = if min r.len (s.console.nbytesRead + 1) < bufferSize then
        .ok (⟨{ stored s.console newline with reading := false, nbytesRead := 0 },
            (heard s newline).filter fun r' => r'.co ≠ r.co⟩,
          some (r.co, (s.console.bytes ++ [newline]).take r.len))
      else .error .outOfBounds := by
  have hreading : s.console.reading = true := h.reading.mpr (by rw [hwaiting]; exact nofun)
  have hcurr : r.co = s.console.curr := h.curr r (by rw [hwaiting]; exact rfl)
  have hfind : (heard s newline).find? (fun r' => r'.co = (stored s.console newline).curr) =
      some (r.hear newline) := by
    rw [heard, hwaiting, List.map_cons, List.find?_cons_of_pos]
    exact decide_eq_true hcurr
  have hn : (stored s.console newline).nbytesRead ≤ bufferSize := hroom
  have hend : endRead (stored s.console newline) r.len junk = _ := endRead_eq hn junk
  rw [← take_bytes, bytes_stored, nbytesRead_stored] at hend
  have hhandler : consoleHandler s.console newline = .ok (stored s.console newline, true) := by
    rw [consoleHandler, if_pos hreading, if_pos hroom]
    rfl
  simp only [Sys.handle, hhandler, bind, Except.bind, if_true]
  rw [heard] at hfind
  simp only [hfind, show (r.hear newline).len = r.len from rfl, hend]
  by_cases hfits : min r.len (s.console.nbytesRead + 1) < bufferSize
  · rw [if_pos hfits, if_pos hfits]
    rfl
  · rw [if_neg hfits, if_neg hfits]

lemma Inv.char (h : Inv s) (hwaiting : s.waiting ≠ []) :
    Inv ⟨stored s.console c, heard s c⟩ where
  reading := by
    refine ⟨fun _ hnil => hwaiting (List.map_eq_nil_iff.mp hnil), fun _ => ?_⟩
    exact h.reading.mpr hwaiting
  none hnil := absurd (List.map_eq_nil_iff.mp hnil) hwaiting
  curr r hr := by
    rw [heard, List.head?_map] at hr
    obtain ⟨r', hr', rfl⟩ := Option.map_eq_some_iff.mp hr
    exact h.curr r' hr'
  first r hr := by
    rw [heard, List.getLast?_map] at hr
    obtain ⟨r', hr', rfl⟩ := Option.map_eq_some_iff.mp hr
    rw [bytes_stored, ← h.first r' hr']
    rfl
  apart := by
    rw [heard, List.map_map]
    exact h.apart

/-! ## When lines are read as they should be -/

lemma good_char_iff (h : Inv s) : Good junk s (.char c) ↔ Guard s (.char c) := by
  by_cases hwaiting : s.waiting = []
  · refine ⟨fun _ hne => absurd hwaiting hne, fun _ => ?_⟩
    refine ⟨s, none, handle_quiet h hwaiting, fun _ => rfl, fun _ r hr => ?_⟩
    rw [hwaiting] at hr
    cases hr
  by_cases hroom : s.console.nbytesRead < bufferSize
  swap
  · refine ⟨?_, fun hguard => absurd (hguard hwaiting).1 hroom⟩
    rintro ⟨s', returned, hhandle, -⟩
    rw [handle_full h hwaiting hroom] at hhandle
    cases hhandle
  by_cases hc : c = newline
  swap
  · refine ⟨fun _ _ => ⟨hroom, fun hc' => absurd hc' hc⟩, fun _ => ?_⟩
    exact ⟨_, none, handle_char h hwaiting hroom hc, fun _ => rfl, fun hc' => absurd hc' hc⟩
  subst hc
  obtain ⟨r, rs, hwaiting'⟩ := List.exists_cons_of_ne_nil hwaiting
  have hhandle : s.handle junk (.char newline) = _ := handle_newline h hwaiting' hroom
  constructor
  · rintro ⟨s', returned, hgood, -, hall⟩ -
    rw [hhandle] at hgood
    have hall := hall rfl
    rw [hwaiting'] at hall
    split at hgood
    · rename_i hfits
      injection hgood with hgood
      injection hgood with _ hreturned
      refine ⟨hroom, fun _ => ⟨r, ?_, hfits⟩⟩
      cases rs with
      | nil => exact hwaiting'
      | cons r' rs =>
        have hboth := (hall r List.mem_cons_self).symm.trans
          (hall r' (List.mem_cons_of_mem _ List.mem_cons_self))
        have hco : r.co = r'.co := congrArg Prod.fst (Option.some.inj hboth)
        have hapart := h.apart
        rw [hwaiting', List.map_cons, List.map_cons, hco] at hapart
        exact absurd List.mem_cons_self (List.nodup_cons.mp hapart).1
    · cases hgood
  · intro hguard
    obtain ⟨r', hone, hfits⟩ := (hguard hwaiting).2 rfl
    obtain ⟨rfl, rfl⟩ : r = r' ∧ rs = [] := List.cons.inj (hwaiting'.symm.trans hone)
    have hsince : r.since = s.console.bytes := h.first r (by rw [hone]; exact rfl)
    rw [if_pos hfits] at hhandle
    refine ⟨_, _, hhandle, fun hne => absurd rfl hne, fun _ r' hr' => ?_⟩
    rw [hone, List.mem_singleton] at hr'
    rw [hr', hsince]

lemma Inv.step (h : Inv s) {e : Event} (hguard : Guard s e) (hstep : Step junk s e s') :
    Inv s' := by
  obtain ⟨henabled, returned, hhandle⟩ := hstep
  cases e with
  | read co len =>
    cases hhandle
    exact h.read henabled
  | char c =>
    by_cases hwaiting : s.waiting = []
    · rw [handle_quiet h hwaiting] at hhandle
      cases hhandle
      exact h
    obtain ⟨hroom, hline⟩ := hguard hwaiting
    by_cases hc : c = newline
    · subst hc
      obtain ⟨r, hone, hfits⟩ := hline rfl
      rw [handle_newline h hone hroom, if_pos hfits] at hhandle
      cases hhandle
      have hnone : ((heard s newline).filter fun r' => r'.co ≠ r.co) = [] := by
        simp [heard, hone, Reader.hear]
      rw [hnone]
      exact ⟨by simp, fun _ => rfl, nofun, nofun, List.nodup_nil⟩
    · rw [handle_char h hwaiting hroom hc] at hhandle
      cases hhandle
      exact h.char hwaiting

lemma inv_run {buffer : Nat → UInt8} {curr : Nat}
    (hrun : Lts.Run (Step junk) Guard (idle buffer curr) s) : Inv s :=
  hrun.invariant (inv_idle buffer curr) fun h hguard hstep => h.step hguard hstep

/-- As long as all went well since the console was idle, an event does what it is to do exactly
if there is room for what it writes, and a newline finds at most one waiting call. -/
theorem consoleInput_good_iff (junk buffer : Nat → UInt8) (curr : Nat) (s : Sys)
    (hrun : Lts.Run (Step junk) Guard (idle buffer curr) s) (e : Event) :
    Good junk s e ↔ Guard s e := by
  cases e with
  | read co len => exact ⟨fun _ => trivial, fun _ => ⟨_, none, rfl, rfl⟩⟩
  | char c => exact good_char_iff (inv_run hrun)

lemma run_chars (junk : Nat → UInt8) (len : Nat) {n : Nat} (hn : n ≤ bufferSize) :
    ∃ s, Lts.Run (Step junk) Guard (idle (fun _ => 0) 0) s ∧
      s.waiting = [⟨1, len, List.replicate n 97⟩] ∧ s.console.nbytesRead = n := by
  induction n with
  | zero => exact ⟨_, .tail .refl (a := .read 1 len) trivial ⟨nofun, none, rfl⟩, rfl, rfl⟩
  | succ n ih =>
    obtain ⟨s, hrun, hwaiting, hbytes⟩ := ih (by omega)
    have hsome : s.waiting ≠ [] := by
      rw [hwaiting]
      exact nofun
    have hroom : s.console.nbytesRead < bufferSize := by omega
    have hc : (97 : UInt8) ≠ newline := by decide
    have hstep : Step junk s (.char 97) ⟨stored s.console 97, heard s 97⟩ :=
      ⟨trivial, none, handle_char (inv_run hrun) hsome hroom hc⟩
    have hguard : Guard s (.char 97) := fun _ => ⟨hroom, fun hc' => absurd hc' hc⟩
    refine ⟨_, .tail hrun hguard hstep, ?_, ?_⟩
    · rw [List.replicate_succ', heard, hwaiting]
      rfl
    · exact congrArg (· + 1) hbytes

theorem consoleInput_good_line :
    ∃ s, Lts.Run (Step fun _ => 0) Guard (idle (fun _ => 0) 0) s ∧
      s.waiting = [⟨1, 100, [97, 97]⟩] ∧ Good (fun _ => 0) s (.char newline) := by
  obtain ⟨s, hrun, hwaiting, hbytes⟩ := run_chars (fun _ => 0) 100 (n := 2) (by decide)
  refine ⟨s, hrun, hwaiting, (consoleInput_good_iff _ _ _ s hrun _).mpr fun _ => ?_⟩
  rw [hbytes]
  exact ⟨by decide, fun _ => ⟨_, hwaiting, by decide⟩⟩

theorem console_line_wrong :
    (∃ s, Lts.Run (Step fun _ => 0) Guard (idle (fun _ => 0) 0) s ∧
      s.waiting = [⟨1, 100, List.replicate 8192 97⟩] ∧ ¬ Good (fun _ => 0) s (.char 97)) ∧
    (∃ s, Lts.Run (Step fun _ => 0) Guard (idle (fun _ => 0) 0) s ∧
      s.waiting = [⟨1, 8192, List.replicate 8191 97⟩] ∧ ¬ Good (fun _ => 0) s (.char newline)) ∧
    ∃ s, Lts.Run (Step fun _ => 0) Guard (idle (fun _ => 0) 0) s ∧
      s.waiting = [⟨2, 100, []⟩, ⟨1, 100, [97]⟩] ∧ ¬ Good (fun _ => 0) s (.char newline) := by
  refine ⟨?_, ?_, ?_⟩
  · obtain ⟨s, hrun, hwaiting, hbytes⟩ := run_chars (fun _ => 0) 100 (n := 8192) le_rfl
    refine ⟨s, hrun, hwaiting, fun hgood => ?_⟩
    have hguard := (good_char_iff (inv_run hrun)).mp hgood (by rw [hwaiting]; exact nofun)
    rw [hbytes] at hguard
    exact absurd hguard.1 (by decide)
  · obtain ⟨s, hrun, hwaiting, hbytes⟩ := run_chars (fun _ => 0) 8192 (n := 8191) (by decide)
    refine ⟨s, hrun, hwaiting, fun hgood => ?_⟩
    have hguard := (good_char_iff (inv_run hrun)).mp hgood (by rw [hwaiting]; exact nofun)
    obtain ⟨r, hone, hfits⟩ := hguard.2 rfl
    rw [hwaiting] at hone
    cases hone
    rw [hbytes] at hfits
    exact absurd hfits (by decide)
  · obtain ⟨s, hrun, hwaiting, -⟩ := run_chars (fun _ => 0) 100 (n := 1) (by decide)
    have hstep : Step (fun _ => 0) s (.read 2 100)
        ⟨beginRead s.console 2, ⟨2, 100, []⟩ :: s.waiting⟩ := by
      refine ⟨fun r hr => ?_, none, rfl⟩
      rw [hwaiting, List.mem_singleton] at hr
      rw [hr]
      decide
    have hrun' := Lts.Run.tail hrun (show Guard s (.read 2 100) from trivial) hstep
    refine ⟨_, hrun', by rw [hwaiting]; rfl, fun hgood => ?_⟩
    have hguard := (good_char_iff (inv_run hrun')).mp hgood (by exact nofun)
    obtain ⟨r, hone, -⟩ := hguard.2 rfl
    rw [hwaiting] at hone
    cases hone

end Invariant

end SpaghettiOS.ConsoleInput
