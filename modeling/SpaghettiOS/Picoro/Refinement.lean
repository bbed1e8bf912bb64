import SpaghettiOS.Picoro.Machine

/-!
# The coroutine library implements asymmetric coroutines

`Agrees` compares the machine at a call of a coroutine with a configuration of asymmetric
coroutines: the running list is the stack, the suspended coroutines are on no list, and the idle
list holds the finished ones, with one more behind them that no caller has a pointer to.

Between two calls structures are moved from one list to the other, one at a time.  `Shape` allows
for those in hand, each list operation has a lemma, and a call is a composition of them.
-/

namespace SpaghettiOS.Picoro

open Function (update update_self update_of_ne)
open Asymmetric
open List (nodup_cons mem_cons_self)

/-- The coroutine is saved where it takes a value and goes on. -/
def Waits (m : Memory) (c : Nat) (f : Cont Nat) : Prop :=
  m.state c = .caller f ∨ m.state c = .waiting f

def Bottom (a : Conf Nat) : Prop := a.active.getLast? = some first

/-- The lists and the saved places are those of a configuration, but for the coroutines `X`,
which are in hand between two list operations. -/
structure Shape (m : Memory) (a : Conf Nat) (X : List Nat) : Prop where
  running : m.running = a.active
  nodup : a.active.Nodup ∧ m.idle.Nodup
  apart : ∀ c ∈ a.active, c ∉ m.idle
  loose : ∀ c ∈ X, c ∉ a.active ∧ c ∉ m.idle
  range : ∀ c, c ∈ a.active ∨ c ∈ m.idle ∨ c ∈ X → c ≠ 0 ∧ c ≤ m.made
  bottom : Bottom a
  stack : ∀ d k, (d, k) ∈ a.stack → m.state d = .caller k
  waiting : ∀ c f, a.waiting c = some f →
    c ∉ a.active ∧ c ∉ m.idle ∧ c ∉ X ∧ c ≠ 0 ∧ c ≤ m.made ∧ Waits m c f
  issued : ∀ c ∈ a.issued, c ≠ first ∧ (a.waiting c = none → c ∈ a.active ∨ c ∈ m.idle ∨ c ∈ X)

/-- The finished coroutines, the last one first, and behind them the spare one, to which no one
has a pointer. -/
def Spare (m : Memory) (g : List Nat) : Prop :=
  ∃ l x, m.idle = l ++ [x] ∧ (∀ c ∈ l, m.state c = .looping) ∧ m.state x = .idling ∧ x ∉ g

/-- At a call of a coroutine the machine is as the configuration says.  The idle list is empty
until the first coroutine is made. -/
structure Machine.Agrees (s : Machine) (a : Conf Nat) : Prop where
  control : s.control = .run a.prog
  given : s.given = a.issued
  shape : Shape s.toMemory a []
  idle : s.idle = [] ∧ a.stack = [] ∧ a.issued = [] ∨ Spare s.toMemory a.issued

/-- Where asymmetric coroutines cannot go on, and what the machine does there. -/
inductive Halts : Conf Nat → Stop → Prop where
  | exit {v c w g} : Halts ⟨.ret v, c, [], w, g⟩ (.exit v)
  | null {v k c w g} : Halts ⟨.yield v k, c, [], w, g⟩ .null
  | assertion {d v k c st w g} : w d = none → Halts ⟨.resume d v k, c, st, w, g⟩ .assertion

variable {m : Memory} {p q : Prog Nat} {c d e v : Nat} {st : List (Nat × Cont Nat)}
  {w : Nat → Option (Cont Nat)} {g X R I : List Nat} {k f : Cont Nat} {j : Point}
  {x : Nat ⊕ Cont Nat} {t : Control} {S : Nat → Point} {n : Nat}

/-! ## The list operations -/

namespace Shape

lemma current (h : Shape m ⟨p, c, st, w, g⟩ X) :
    c ≠ 0 ∧ c ∉ st.map Prod.fst ∧ ∀ x ∈ m.idle, x ≠ c := by
  obtain ⟨-, ⟨hnodup, -⟩, hapart, -, hrange, -⟩ := h
  refine ⟨(hrange c ?_).1, (nodup_cons.mp hnodup).1, ?_⟩ <;> grind [Conf.active]

/-- Where the running coroutine and those in hand were saved last does not matter. -/
lemma save (h : Shape m ⟨p, c, st, w, g⟩ X) (hd : d = c ∨ d ∈ X) :
    Shape { m with state := update m.state d j } ⟨p, c, st, w, g⟩ X := by
  have hst := h.current.2.1
  obtain ⟨hrunning, hnodup, hapart, hloose, hrange, hbottom, hstack, hwaiting, hissued⟩ := h
  refine ⟨hrunning, hnodup, hapart, hloose, hrange, hbottom, ?_, ?_, hissued⟩
  · grind [Conf.active, List.mem_map_of_mem]
  · grind [Conf.active, Waits]

/-- The running coroutine is taken off its list. -/
lemma leave (h : Shape ⟨c :: R, I, S, n⟩ ⟨p, c, (d, k) :: st, w, g⟩ []) :
    Shape ⟨R, I, S, n⟩ ⟨q, d, st, w, g⟩ [c] := by
  obtain ⟨hrunning, hnodup, hapart, -, hrange, hbottom, hstack, hwaiting, hissued⟩ := h
  refine ⟨(List.cons.inj hrunning).2, ?_, ?_, ?_, ?_, hbottom, ?_, ?_, ?_⟩ <;>
    grind [Conf.active, Waits]

/-- An idle coroutine is taken off its list to be given out. -/
lemma take (h : Shape ⟨R, e :: I, S, n⟩ ⟨p, c, st, w, g⟩ []) :
    Shape ⟨R, I, S, n⟩ ⟨p, c, st, w, e :: g⟩ [e] := by
  have hmem : first ∈ c :: st.map Prod.fst := List.mem_of_getLast? h.bottom
  obtain ⟨hrunning, hnodup, hapart, -, hrange, hbottom, hstack, hwaiting, hissued⟩ := h
  refine ⟨hrunning, ?_, ?_, ?_, ?_, hbottom, hstack, ?_, ?_⟩ <;> grind [Conf.active, Waits]

/-- A suspended coroutine is resumed. -/
lemma wake (h : Shape m ⟨p, c, st, w, g⟩ []) (he : w e = some f) :
    Shape m ⟨p, c, st, update w e none, g⟩ [e] := by
  obtain ⟨hrunning, hnodup, hapart, -, hrange, hbottom, hstack, hwaiting, hissued⟩ := h
  have hw := hwaiting e f he
  refine ⟨hrunning, hnodup, hapart, ?_, ?_, hbottom, hstack, ?_, ?_⟩ <;> grind [Conf.active]

/-- The stack has grown over one more structure. -/
lemma grow (h : Shape m ⟨p, c, st, w, g⟩ []) :
    Shape { m with made := m.made + 1 } ⟨p, c, st, w, g⟩ [m.made + 1] := by
  obtain ⟨hrunning, hnodup, hapart, -, hrange, hbottom, hstack, hwaiting, hissued⟩ := h
  refine ⟨hrunning, hnodup, hapart, ?_, ?_, hbottom, hstack, ?_, ?_⟩ <;> grind [Waits]

lemma enter (h : Shape ⟨R, I, S, n⟩ ⟨p, c, st, w, g⟩ [e]) (hc : S c = .caller k) :
    Shape ⟨e :: R, I, S, n⟩ ⟨q, e, (c, k) :: st, w, g⟩ [] := by
  obtain ⟨hrunning, hnodup, hapart, hloose, hrange, hbottom, hstack, hwaiting, hissued⟩ := h
  refine ⟨congrArg (e :: ·) hrunning, ?_, ?_, ?_, ?_, hbottom, ?_, ?_, ?_⟩ <;>
    grind [Conf.active, Waits]

lemma retire (h : Shape ⟨R, I, S, n⟩ ⟨p, c, st, w, g⟩ [e]) :
    Shape ⟨R, e :: I, S, n⟩ ⟨p, c, st, w, g⟩ [] := by
  obtain ⟨hrunning, hnodup, hapart, hloose, hrange, hbottom, hstack, hwaiting, hissued⟩ := h
  refine ⟨hrunning, ?_, ?_, ?_, ?_, hbottom, hstack, ?_, ?_⟩ <;> grind [Conf.active, Waits]

lemma suspend (h : Shape m ⟨p, c, st, w, g⟩ [e]) (hpt : Waits m e f) :
    Shape m ⟨p, c, st, update w e (some f), g⟩ [] := by
  obtain ⟨hrunning, hnodup, hapart, hloose, hrange, hbottom, hstack, hwaiting, hissued⟩ := h
  refine ⟨hrunning, hnodup, hapart, ?_, ?_, hbottom, hstack, ?_, ?_⟩ <;> grind [Conf.active]

lemma issued_le (h : Shape m ⟨p, c, st, w, g⟩ X) (hd : d ∈ g) : d ≤ m.made := by
  cases hw : w d with
  | none => exact (h.range d ((h.issued d hd).2 hw)).2
  | some f => exact (h.waiting d f hw).2.2.2.2.1

lemma first_iff (h : Shape m ⟨p, c, st, w, g⟩ X) : c = first ↔ st = [] := by
  have hbottom := h.bottom
  have hst := h.current.2.1
  cases st with
  | nil => simpa [Bottom, Conf.active] using hbottom
  | cons y st =>
    have hmem : first ∈ (y :: st).map Prod.fst :=
      List.mem_of_getLast? (by simpa [Bottom, Conf.active] using hbottom)
    exact ⟨fun hc => absurd (hc ▸ hmem) hst, by simp⟩

end Shape

lemma follows_eq_zero (hc : c ∉ R) : follows c R = 0 := by
  fun_induction follows c R <;> simp_all

lemma follows_ne_zero (hzero : 0 ∉ R) (hc : c ∈ R) (hlast : R.getLast? ≠ some c) :
    follows c R ≠ 0 := by
  fun_induction follows c R with
  | case1 y l => grind
  | case2 y z l hy ih => exact ih (by grind) (by grind) (by simpa using hlast)
  | case3 l hl =>
    rcases l with _ | ⟨y, _ | ⟨z, l⟩⟩
    · cases hc
    · simp_all
    · exact absurd rfl (hl y z l)

/-! ## The calls -/

open Machine

/-- A jump to a coroutine that waits for a value is the end of a call. -/
lemma pass_soon (h : Shape ⟨d :: R, I, update S c j, n⟩ ⟨k v, d, st, w, g⟩ [])
    (hspare : Spare ⟨d :: R, I, update S c j, n⟩ g) (hc : c ≠ 0)
    (hd : Waits ⟨d :: R, I, update S c j, n⟩ d k) :
    ∃ s, pass ⟨⟨d :: R, I, S, n⟩, x, t, g⟩ j c (.inl v) = .ok s ∧
      Soon step Busy (·.Agrees ⟨k v, d, st, w, g⟩) s := by
  refine ⟨⟨⟨d :: R, I, update S c j, n⟩, .inl v, .jump, g⟩, if_neg (by simp [hc]),
    .later (t := ⟨_, .inl v, .run (k v), g⟩) rfl ?_
      (.now (by simp [Busy]) ⟨rfl, rfl, h, .inr hspare⟩)⟩
  rcases hd with hd | hd
  · exact congrArg (land _ · _) hd
  · exact congrArg (land _ · _) hd

lemma Spare.update (h : Spare ⟨R, I, S, n⟩ g) (hc : ∀ y ∈ I, y ≠ c) :
    Spare ⟨X, I, update S c j, n⟩ g := by
  obtain ⟨l, y, rfl, hl, hy, hg⟩ := h
  refine ⟨l, y, rfl, ?_, ?_, hg⟩ <;> grind

lemma yield_soon (h : Shape m ⟨p, c, (d, k) :: st, w, g⟩ []) (hspare : Spare m g)
    (hpt : j = .caller f ∨ j = .waiting f) : ∃ s, yield ⟨m, x, t, g⟩ j (.inl v) = .ok s ∧
      Soon step Busy (·.Agrees ⟨k v, d, st, update w c (some f), g⟩) s := by
  obtain ⟨R, I, S, n⟩ := m
  obtain rfl := h.running
  obtain ⟨hc, hst, hI⟩ := h.current
  have hdc : d ≠ c := fun hdc => hst (hdc ▸ mem_cons_self)
  have hshape := ((h.leave (q := k v)).save (j := j) (.inr mem_cons_self)).suspend (f := f)
    (by simpa [Waits] using hpt)
  refine pass_soon hshape (hspare.update hI) hc (.inl ?_)
  exact (update_of_ne hdc _ _).trans (h.stack d k mem_cons_self)

lemma finish_soon (h : Shape m ⟨p, c, (d, k) :: st, w, g⟩ []) (hspare : Spare m g) :
    ∃ s, finish ⟨m, x, t, g⟩ v = .ok s ∧ Soon step Busy (·.Agrees ⟨k v, d, st, w, g⟩) s := by
  obtain ⟨R, I, S, n⟩ := m
  obtain rfl := h.running
  obtain ⟨hc, hst, hI⟩ := h.current
  have hdc : d ≠ c := fun hdc => hst (hdc ▸ mem_cons_self)
  have hshape := ((h.leave (q := k v)).save (j := .looping) (.inr mem_cons_self)).retire
  refine pass_soon hshape ?_ hc (.inl ?_)
  · obtain ⟨l, y, rfl, hl, hy, hg⟩ := hspare
    refine ⟨c :: l, y, rfl, ?_, ?_, hg⟩ <;> grind
  · exact (update_of_ne hdc _ _).trans (h.stack d k mem_cons_self)

lemma resume_soon (h : Shape m ⟨p, c, st, w, g⟩ []) (hspare : Spare m g) (he : w e = some f)
    (hres : resumable ⟨m, x, t, g⟩ e) : ∃ s, resume ⟨m, x, t, g⟩ (.caller k) e (.inl v) = .ok s ∧
      Soon step Busy (·.Agrees ⟨f v, e, (c, k) :: st, update w e none, g⟩) s := by
  obtain ⟨R, I, S, n⟩ := m
  obtain rfl := h.running
  obtain ⟨hc, -, hI⟩ := h.current
  obtain ⟨hea, -, -, -, -, hpt⟩ := h.waiting e f he
  have hec : e ≠ c := fun hec => hea (hec ▸ mem_cons_self)
  have hshape := ((h.wake he).save (j := .caller k) (.inl rfl)).enter (q := f v) (k := k)
    (update_self _ _ _)
  have hme : Memory.next ⟨e :: c :: st.map Prod.fst, I, S, n⟩ e = c := by
    simp [Memory.next, follows]
  rw [Machine.resume, if_pos hres]
  simp only [Conf.active, push, hme]
  refine pass_soon hshape (hspare.update hI) hc ?_
  simpa only [Waits, update_of_ne hec] using hpt

/-- A new idle coroutine is made while there is none. -/
lemma start_ok (h : Shape ⟨R, [], S, n⟩ ⟨p, c, st, w, g⟩ []) :
    ∃ S', coroutineStart ⟨⟨R, [], S, n⟩, x, t, g⟩ j =
        .ok ⟨⟨R, [n + 1], S', n + 1⟩, .inl (n + 1), .jump, g⟩ ∧ S' c = j ∧
      Shape ⟨R, [n + 1], S', n + 1⟩ ⟨p, c, st, w, g⟩ [] ∧ Spare ⟨R, [n + 1], S', n + 1⟩ g := by
  obtain rfl := h.running
  have hne : c ≠ n + 1 := fun hc =>
    absurd (h.range c (.inl mem_cons_self)).2 (by simp [hc])
  have hshape := (((h.save (j := j) (.inl rfl)).grow).save (j := .idling)
    (.inr mem_cons_self)).retire
  refine ⟨_, ?_, ?_, hshape, [], _, rfl, by simp, update_self _ _ _,
    fun hg => absurd (h.issued_le hg) (by simp)⟩
  · rw [coroutineStart, Machine.pass, if_neg (by simp [Conf.active])]
    rfl
  · exact (update_of_ne hne _ _).trans (update_self _ _ _)

lemma activate_ok (h : Shape ⟨R, e :: I, S, n⟩ ⟨p, c, st, w, g⟩ []) :
    activate ⟨⟨R, e :: I, S, n⟩, x, t, g⟩ f k =
        .ok ⟨⟨e :: R, I, update S c (.caller k), n⟩, .inr f, .jump, e :: g⟩ ∧
      Shape ⟨e :: R, I, update S c (.caller k), n⟩ ⟨p, e, (c, k) :: st, w, e :: g⟩ [] := by
  have hshape := (h.take.save (j := .caller k) (.inl rfl)).enter (q := p) (k := k)
    (update_self _ _ _)
  obtain rfl := h.running
  obtain ⟨hc, -, hI⟩ := h.current
  have he : e ∉ c :: st.map Prod.fst := fun he => h.apart e he mem_cons_self
  have heI : e ∉ I := (nodup_cons.mp h.nodup.2).1
  have he0 := (h.range e (.inr (.inl mem_cons_self))).1
  have hnext : Memory.next ⟨c :: st.map Prod.fst, I, S, n⟩ e = 0 := by
    rw [Memory.next, if_neg he, follows_eq_zero heI]
  have hme : Memory.next ⟨e :: c :: st.map Prod.fst, I, S, n⟩ e = c := by
    simp [Memory.next, follows]
  refine ⟨?_, hshape⟩
  change Machine.resume _ _ _ _ = _
  rw [Machine.resume, if_pos ⟨he0, hnext⟩]
  simp only [Conf.active, push, hme]
  exact if_neg (by simp [hc])

/-- An idle coroutine takes the function, makes a new spare one if it was the last, and
yields its own address. -/
lemma activate_soon (h : Shape m ⟨p, c, st, w, g⟩ []) (hspare : Spare m g) :
    ∃ s e, activate ⟨m, x, t, g⟩ f k = .ok s ∧ (e ≠ 0 ∧ w e = none ∧ e ∉ c :: st.map Prod.fst) ∧
      Soon step Busy (·.Agrees ⟨k e, c, st, update w e (some f), e :: g⟩) s := by
  obtain ⟨R, I, S, n⟩ := m
  obtain ⟨l, y, rfl, hl, hy, hg⟩ := hspare
  obtain ⟨e, I, hI⟩ : ∃ e I, l ++ [y] = e :: I := List.exists_cons_of_ne_nil (by simp)
  rw [hI] at h ⊢
  have hec : e ∉ c :: st.map Prod.fst := fun he => h.apart e he mem_cons_self
  have hne : ∀ d ∈ e :: I, d ≠ c := h.current.2.2
  have hwe : w e = none := Option.eq_none_iff_forall_ne_some.mpr fun f' hw =>
    (h.waiting e f' hw).2.1 mem_cons_self
  obtain ⟨hactivate, hshape⟩ := activate_ok (x := x) (t := t) (f := f) (k := k) h
  refine ⟨_, e, hactivate, ⟨(h.range e (.inr (.inl mem_cons_self))).1, hwe, hec⟩, ?_⟩
  have hland : ∀ {I S n x}, step ⟨⟨e :: R, I, S, n⟩, x, .jump, e :: g⟩ =
      land ⟨⟨e :: R, I, S, n⟩, x, .jump, e :: g⟩ (S e) x := rfl
  have hstate : update S c (.caller k) e = S e := update_of_ne (hne e mem_cons_self) _ _
  cases l with
  | nil =>
    obtain ⟨rfl, rfl⟩ : y = e ∧ I = [] := by simpa using hI
    obtain ⟨S', hstart, hpt, hshape', hspare'⟩ :=
      start_ok (x := .inr f) (t := .jump) (j := .forkingMain f) hshape
    obtain ⟨s, hs, hsoon⟩ := yield_soon (x := .inl (n + 1)) (t := .jump) (v := y)
      (j := .waiting f) hshape' hspare' (.inr rfl)
    refine .later (t := ⟨⟨y :: R, [n + 1], S', n + 1⟩, .inl (n + 1), .jump, y :: g⟩) rfl
      (hland.trans ?_) (.later rfl (hland.trans ?_) hsoon)
    · rw [hstate]
      exact (congrArg (land _ · _) hy).trans hstart
    · exact (congrArg (land _ · _) hpt).trans hs
  | cons e' l =>
    obtain ⟨rfl, rfl⟩ : e' = e ∧ l ++ [y] = I := by simpa using hI
    have hye : y ≠ e' := fun hye => (nodup_cons.mp h.nodup.2).1 (hye ▸ by simp)
    have hspare : Spare ⟨e' :: R, l ++ [y], update S c (.caller k), n⟩ (e' :: g) := by
      refine ⟨l, y, rfl, ?_, ?_, ?_⟩ <;> grind
    obtain ⟨s, hs, hsoon⟩ := yield_soon (x := .inr f) (t := .jump) (v := e')
      (j := .waiting f) hshape hspare (.inr rfl)
    refine .later rfl (hland.trans ?_) hsoon
    rw [hstate]
    exact (congrArg (land _ · _) (hl e' mem_cons_self)).trans hs

/-! ## Whole runs -/

variable {s : Machine} {a : Conf Nat}

/-- A pointer that was given out can be resumed if its coroutine is suspended. -/
lemma Machine.Agrees.resumable_iff (h : s.Agrees a) (hd : d ∈ a.issued) :
    s.resumable d ↔ a.waiting d ≠ none := by
  obtain ⟨-, -, hshape, hidle⟩ := h
  obtain ⟨hfirst, hlisted⟩ := hshape.issued d hd
  rw [resumable, Memory.next, hshape.running]
  constructor
  · rintro ⟨-, hnext⟩ hw
    by_cases hactive : d ∈ a.active
    · rw [if_pos hactive] at hnext
      refine follows_ne_zero (fun h0 => (hshape.range 0 (.inl h0)).1 rfl) hactive ?_ hnext
      exact fun hlast => hfirst (Option.some.inj (hlast.symm.trans hshape.bottom))
    · rw [if_neg hactive] at hnext
      have hI : d ∈ s.idle := by simpa [hactive] using hlisted hw
      refine follows_ne_zero (fun h0 => (hshape.range 0 (.inr (.inl h0))).1 rfl) hI ?_ hnext
      obtain ⟨hnil, -⟩ | ⟨l, y, hl, -, -, hy⟩ := hidle
      · simp [hnil] at hI
      · rw [hl, List.getLast?_concat]
        rintro ⟨⟩
        exact hy hd
  · intro hw
    obtain ⟨f, hf⟩ := Option.ne_none_iff_exists'.mp hw
    obtain ⟨hactive, hI, -, hne, -⟩ := hshape.waiting d f hf
    rw [if_neg hactive, follows_eq_zero hI]
    exact ⟨hne, rfl⟩

lemma Machine.Agrees.step (h : s.Agrees a) (honest : Honest s ()) :
    (∃ u b, s.step = .ok u ∧ a.Step b ∧ Soon Machine.step Busy (·.Agrees b) u) ∨
      ∃ e, s.step = .error e ∧ Halts a e := by
  have hres := fun d => h.resumable_iff (d := d)
  obtain ⟨hcontrol, hgiven, hshape, hidle⟩ := h
  obtain ⟨m, x, t, g⟩ := s
  obtain ⟨p, c, st, w, g'⟩ := a
  obtain rfl : g = g' := hgiven
  obtain rfl : t = .run p := hcontrol
  have hspare : st ≠ [] ∨ g ≠ [] → Spare m g := fun hne =>
    hidle.resolve_left fun h => hne.elim (· h.2.1) (· h.2.2)
  have hrunning : getRunning ⟨m, x, .run p, g⟩ = c := by rw [getRunning, hshape.running]; rfl
  cases p with
  | ret v =>
    cases st with
    | nil => exact .inr ⟨_, if_pos (hrunning.trans (hshape.first_iff.mpr rfl)), .exit⟩
    | cons y st =>
      have hne : getRunning ⟨m, x, .run (.ret v), g⟩ ≠ first := fun hc => by
        cases hshape.first_iff.mp (hrunning.symm.trans hc)
      obtain ⟨u, hu, hsoon⟩ := finish_soon hshape (hspare (.inl (by simp)))
      exact .inl ⟨u, _, (if_neg hne).trans hu, .ret, hsoon⟩
  | self k =>
    refine .inl ⟨_, _, rfl, .self, .now (by simp [Busy]) ⟨?_, rfl, ?_, hidle⟩⟩
    · rw [hrunning]
    · obtain ⟨h, hnodup, hapart, hloose, hrange, hbottom, hstack, hwaiting, hissued⟩ := hshape
      exact ⟨h, hnodup, hapart, hloose, hrange, hbottom, hstack, hwaiting, hissued⟩
  | yield v k =>
    cases st with
    | nil =>
      refine .inr ⟨.null, ?_, .null⟩
      change Machine.yield _ _ _ = _
      rw [Machine.yield, hshape.running]
      exact if_pos (.inr rfl)
    | cons y st =>
      obtain ⟨u, hu, hsoon⟩ := yield_soon hshape (hspare (.inl (by simp))) (.inl rfl)
      exact .inl ⟨u, _, hu, .yield, hsoon⟩
  | resume d v k =>
    have hd : d ∈ g := honest d rfl
    have hg : g ≠ [] := List.ne_nil_of_mem hd
    cases hw : w d with
    | none => exact .inr ⟨.assertion, if_neg fun h => (hres d hd).mp h hw, .assertion hw⟩
    | some f =>
      obtain ⟨u, hu, hsoon⟩ := resume_soon (k := k) (v := v) hshape (hspare (.inr hg)) hw
        ((hres d hd).mpr (by simp [hw]))
      exact .inl ⟨u, _, hu, .resume hw, hsoon⟩
  | create f k =>
    obtain ⟨R, I, S, n⟩ := m
    obtain ⟨hI, -, -⟩ | hspare := hidle
    · -- the first coroutine: a spare one is made before it
      obtain rfl : I = [] := hI
      obtain ⟨S', hstart, hpt, hshape', hspare'⟩ := start_ok (j := .forking f k) hshape
      obtain ⟨u, e, hu, ⟨he, hwe, hec⟩, hsoon⟩ :=
        activate_soon (x := .inl (n + 1)) (t := .jump) (f := f) (k := k) hshape' hspare'
      refine .inl ⟨⟨⟨R, [n + 1], S', n + 1⟩, .inl (n + 1), .jump, g⟩, _, hstart,
        .create he hwe hec, .later rfl ?_ hsoon⟩
      rw [Machine.step, getRunning, hshape'.running]
      exact (congrArg (land _ · _) hpt).trans hu
    · obtain ⟨u, e, hu, ⟨he, hwe, hec⟩, hsoon⟩ := activate_soon (f := f) (k := k) hshape hspare
      have hne : I ≠ [] := by
        obtain ⟨l, y, hl, -⟩ := hspare
        simp_all
      exact .inl ⟨u, _, (if_neg hne).trans hu, .create he hwe hec, hsoon⟩

/-- The program alone, with no coroutine made. -/
def start (p : Prog Nat) : Conf Nat := ⟨p, first, [], fun _ => none, []⟩

lemma boot_agrees (p : Prog Nat) : (boot p).Agrees (start p) := by
  refine ⟨rfl, rfl, ⟨rfl, ?_, ?_, ?_, ?_, rfl, ?_, ?_, ?_⟩, .inl ⟨rfl, rfl, rfl⟩⟩ <;>
    simp [Conf.active, start, boot, first]

lemma run_soon {p : Prog Nat} {s : Machine} (h : Run p s) :
    Soon step Busy (fun s => ∃ a, (start p).Reach a ∧ s.Agrees a) s := by
  refine Soon.run (fun {s t} hquiet hagrees honest hnext => ?_)
    (.now (by simp [Busy, boot]) ⟨_, .refl, boot_agrees p⟩) h
  obtain ⟨a, hreach, hagrees⟩ := hagrees
  obtain ⟨t', b, ht', hstep, hsoon⟩ | ⟨e, he, -⟩ := hagrees.step honest
  · rw [ht'] at hnext
    cases hnext
    exact hsoon.mono fun u hu => ⟨b, .tail (a := ()) hreach trivial hstep, hu⟩
  · cases he.symm.trans hnext

/-- A coroutine yields once and returns, and is then resumed once too often. -/
def onceTooOften : Prog Nat :=
  .create (fun v => .yield (v + 1) .ret) fun c =>
    .resume c 5 fun _ => .resume c 0 fun _ => .resume c 0 .ret

lemma exists_run (p : Prog Nat) (n : Nat) (P : Machine → Prop) [DecidablePred P]
    (h : ((List.replicate n ()).foldlM (fun s a => if Honest s a then s.step.toOption else none)
      (boot p)).any (fun s => P s) = true) : ∃ s, Run p s ∧ P s := by
  have hplay {s t : Machine} (hs : s.step.toOption = some t) : s.step = .ok t := by
    cases hstep : s.step <;> simp_all [Except.toOption]
  exact Lts.Run.exists_of_guarded_play (fun hs => hplay hs) _ h

/-- Whenever a coroutine makes a call, the machine is in a state of asymmetric coroutines: the
running list, the saved places and the values handed over are theirs. -/
theorem picoro_refines {p : Prog Nat} {s : Machine} (h : Run p s) (hcall : ¬ s.Busy) :
    ∃ a, (start p).Reach a ∧ s.Agrees a := by
  cases run_soon h with
  | now _ hagrees => exact hagrees
  | later hbusy => exact absurd hbusy hcall

theorem picoro_refines_suspended : ∃ s, Run onceTooOften s ∧ ¬ s.Busy ∧ s.given = [2] ∧
    ∃ a, (start onceTooOften).Reach a ∧ s.Agrees a := by
  obtain ⟨s, hrun, hcall, hgiven⟩ := exists_run onceTooOften 9
    (fun s => ¬ s.Busy ∧ s.given = [2] ∧ s.resumable 2) (by decide +kernel)
  exact ⟨s, hrun, hcall, hgiven.1, picoro_refines hrun hcall⟩

/-- Also from within the library a state is reached in which a coroutine makes a call. -/
theorem picoro_returns {p : Prog Nat} {s : Machine} (h : Run p s) :
    ∃ t, Lts.Run (fun s (_ : Unit) t => s.step = .ok t) Lts.anyStep s t ∧ ¬ t.Busy ∧
      ∃ a, (start p).Reach a ∧ t.Agrees a := (run_soon h).reaches

theorem picoro_returns_jumping : ∃ s, Run onceTooOften s ∧ s.Busy ∧
    ∃ t, Lts.Run (fun s (_ : Unit) t => s.step = .ok t) Lts.anyStep s t ∧ ¬ t.Busy ∧
      ∃ a, (start onceTooOften).Reach a ∧ t.Agrees a := by
  obtain ⟨s, hrun, hbusy⟩ := exists_run onceTooOften 2 Busy (by decide +kernel)
  exact ⟨s, hrun, hbusy, picoro_returns hrun⟩

/-- The library stops only where asymmetric coroutines do: when the program returns, yields
without having been resumed, or resumes a coroutine that is not suspended. -/
theorem picoro_stops {p : Prog Nat} {s : Machine} {e : Stop} (h : Run p s) (honest : Honest s ())
    (hstop : s.step = .error e) : ∃ a, (start p).Reach a ∧ s.Agrees a ∧ Halts a e := by
  cases run_soon h with
  | now _ hagrees =>
    obtain ⟨a, hreach, hagrees⟩ := hagrees
    obtain ⟨t, b, ht, -⟩ | ⟨e', he', hhalts⟩ := hagrees.step honest
    · cases ht.symm.trans hstop
    · cases he'.symm.trans hstop
      exact ⟨a, hreach, hagrees, hhalts⟩
  | later _ hnext => cases hnext.symm.trans hstop

theorem picoro_stops_once_too_often : ∃ s e, Run onceTooOften s ∧ s.idle = [2, 3] ∧
    s.step = .error e ∧ ∃ a, (start onceTooOften).Reach a ∧ s.Agrees a ∧ Halts a e := by
  obtain ⟨s, hrun, honest, hidle, hstop⟩ := exists_run onceTooOften 13
    (fun s => Honest s () ∧ s.idle = [2, 3] ∧ s.step.toOption.isNone) (by decide +kernel)
  cases hstep : s.step with
  | ok t => simp [hstep, Except.toOption] at hstop
  | error e => exact ⟨s, e, hrun, hidle, hstep, picoro_stops hrun honest hstep⟩

/-- For every pointer that `coroutine` has returned, `resumable` tells whether the coroutine is
on neither list. -/
theorem resumable_iff_not_listed {p : Prog Nat} {s : Machine} {c : Nat} (h : Run p s)
    (hcall : ¬ s.Busy) (hc : c ∈ s.given) :
    s.resumable c ↔ c ∉ s.running ∧ c ∉ s.idle := by
  cases run_soon h with
  | later hbusy => exact absurd hbusy hcall
  | now _ hagrees =>
    obtain ⟨a, -, hagrees⟩ := hagrees
    rw [hagrees.given] at hc
    rw [hagrees.resumable_iff hc, hagrees.shape.running]
    constructor
    · intro hw
      obtain ⟨f, hf⟩ := Option.ne_none_iff_exists'.mp hw
      obtain ⟨hactive, hI, -⟩ := hagrees.shape.waiting c f hf
      exact ⟨hactive, hI⟩
    · rintro ⟨hactive, hI⟩ hw
      simpa [hactive, hI] using (hagrees.shape.issued c hc).2 hw

theorem resumable_iff_not_listed_suspended : ∃ s, Run onceTooOften s ∧ s.given = [2] ∧
    s.resumable 2 ∧ 2 ∉ s.running ∧ 2 ∉ s.idle := by
  obtain ⟨s, hrun, hcall, hgiven, hres⟩ := exists_run onceTooOften 9
    (fun s => ¬ s.Busy ∧ s.given = [2] ∧ s.resumable 2) (by decide +kernel)
  exact ⟨s, hrun, hgiven, hres, (resumable_iff_not_listed hrun hcall (by simp [hgiven])).mp hres⟩

end SpaghettiOS.Picoro
