import Mathlib.Logic.Function.Basic
import LearnNotes.Lib.Machine

/-!
# Objects under a spin lock

Threads share an object. A call takes the lock, makes its accesses one at a time and gives
the lock back; the threads' accesses interleave in any order. `Guards L M locked finish` says
that a thread alone inside serves its call as the machine `M` does, whatever is left of the
call. Then at most one thread is inside, giving the lock back never fails, and the replies
are those of `M` on the calls in the order the lock was taken: `Guards.linearizable`.
-/

namespace Lib

universe u

/-- An object under a lock: one try to take the lock and one to give it back, the first
access of a call, and what an access leads to, the next access or the reply. -/
structure SpinLock (σ α ρ κ : Type u) where
  init : σ
  acquire : σ → Bool × σ
  release : σ → Bool × σ
  start : α → κ
  access : κ → σ → (κ ⊕ ρ) × σ

namespace SpinLock

inductive Point (κ ρ : Type u) where
  | outside
  | inside (k : κ)
  | leaving (r : ρ)

def Point.ofSum {κ ρ : Type u} : κ ⊕ ρ → Point κ ρ
  | .inl k => .inside k
  | .inr r => .leaving r

/-- A thread: the calls it has still to make, and where it is. -/
structure Thread (α ρ κ : Type u) where
  todo : List α
  point : Point κ ρ

structure State (ι σ α ρ κ : Type u) where
  shared : σ
  threads : ι → Thread α ρ κ

inductive Event (ι α ρ : Type u) where
  | entered (i : ι) (a : α)
  | left (i : ι) (r : ρ)
  deriving DecidableEq

variable {ι σ α ρ κ β : Type u}

/-- The lock was taken by the thread, for the call. -/
def Event.entered? : Option (Event ι α ρ) → Option (ι × α)
  | some (.entered i a) => some (i, a)
  | _ => none

def Event.left? : Option (Event ι α ρ) → Option (ι × ρ)
  | some (.left i r) => some (i, r)
  | _ => none

/-- The calls, in the order the lock was taken for them. -/
def entered (os : List (Option (Event ι α ρ))) : List (ι × α) := os.filterMap Event.entered?

/-- The replies, in the order the lock was given back. -/
def left (os : List (Option (Event ι α ρ))) : List (ι × ρ) := os.filterMap Event.left?

/-- The calls served one after another. -/
def sequential (M : Machine β α ρ) (calls : List (ι × α)) : List (ι × ρ) :=
  (calls.map Prod.fst).zip (M.outs (calls.map Prod.snd))

/-- What is left of a thread's call, made at once: the reply and the object. -/
def Point.rest (finish : κ → β → ρ × β) : Point κ ρ → β → Option (ρ × β)
  | .outside, _ => none
  | .inside k, x => some (finish k x)
  | .leaving r, x => some (r, x)

/-- A thread alone inside serves its call as `M` does. `locked b x` is the object `x` with the
lock taken or free; an access leaves what `finish` makes of the rest of the call as it is. -/
structure Guards (L : SpinLock σ α ρ κ) (M : Machine β α ρ) (locked : Bool → β → σ)
    (finish : κ → β → ρ × β) : Prop where
  init : L.init = locked false M.init
  acquire_free : ∀ x, L.acquire (locked false x) = (true, locked true x)
  acquire_taken : ∀ x, L.acquire (locked true x) = (false, locked true x)
  release_taken : ∀ x, L.release (locked true x) = (true, locked false x)
  start : ∀ a x, finish (L.start a) x = M.step x a
  access : ∀ k x, ∃ p y, L.access k (locked true x) = (p, locked true y) ∧
    (Point.ofSum p).rest finish y = some (finish k x)

/-! ## Traces -/

section Traces

variable {os : List (Option (Event ι α ρ))} {i : ι} {a : α} {r : ρ}

@[simp] theorem entered_none : entered (os ++ [none]) = entered os := by
  simp [entered, Event.entered?]

@[simp] theorem entered_entered :
    entered (os ++ [some (.entered i a)]) = entered os ++ [(i, a)] := by
  simp [entered, Event.entered?]

@[simp] theorem entered_left : entered (os ++ [some (.left i r)]) = entered os := by
  simp [entered, Event.entered?]

@[simp] theorem left_none : left (os ++ [none]) = left os := by
  simp [left, Event.left?]

@[simp] theorem left_entered : left (os ++ [some (.entered i a)]) = left os := by
  simp [left, Event.left?]

@[simp] theorem left_left : left (os ++ [some (.left i r)]) = left os ++ [(i, r)] := by
  simp [left, Event.left?]

theorem sequential_snoc (M : Machine β α ρ) (es : List (ι × α)) (i : ι) (a : α) :
    sequential M (es ++ [(i, a)]) =
      sequential M es ++ [(i, M.out (M.after (es.map Prod.snd)) a)] := by
  unfold sequential
  rw [List.map_append, List.map_append, List.map_singleton, List.map_singleton,
    Machine.outs_snoc, List.zip_append (by simp)]
  rfl

theorem length_sequential (M : Machine β α ρ) (es : List (ι × α)) :
    (sequential M es).length = es.length := by
  simp [sequential]

end Traces

/-! ## The invariant -/

section Invariant

variable {M : Machine β α ρ} {locked : Bool → β → σ} {finish : κ → β → ρ × β}
  {s : State ι σ α ρ κ} {os : List (Option (Event ι α ρ))} {i j : ι}

/-- Nobody is inside, and every call that entered has been answered. -/
structure Quiet (M : Machine β α ρ) (locked : Bool → β → σ) (s : State ι σ α ρ κ)
    (os : List (Option (Event ι α ρ))) : Prop where
  outside : ∀ j, (s.threads j).point = .outside
  shared : s.shared = locked false (M.after ((entered os).map Prod.snd))
  replies : left os = sequential M (entered os)

/-- Thread `i` alone is inside; the rest of its call is what `M` makes of the call. -/
structure Busy (M : Machine β α ρ) (locked : Bool → β → σ) (finish : κ → β → ρ × β)
    (s : State ι σ α ρ κ) (os : List (Option (Event ι α ρ))) (i : ι) : Prop where
  alone : ∀ j, j ≠ i → (s.threads j).point = .outside
  serves : ∃ es a x, entered os = es ++ [(i, a)] ∧ left os = sequential M es ∧
    s.shared = locked true x ∧
    (s.threads i).point.rest finish x = some (M.step (M.after (es.map Prod.snd)) a)

/-- Whoever is not outside is the one inside. -/
theorem Busy.eq (h : Busy M locked finish s os i) (hj : (s.threads j).point ≠ .outside) : j = i :=
  Classical.byContradiction fun hne => hj (h.alone j hne)

theorem Busy.taken (h : Busy M locked finish s os i) : ∃ x, s.shared = locked true x := by
  obtain ⟨es, a, x, -, -, hx, -⟩ := h.serves
  exact ⟨x, hx⟩

/-- An attempt that finds the lock taken, or a thread that is done. -/
theorem Quiet.skip (h : Quiet M locked s os) : Quiet M locked s (os ++ [none]) where
  outside := h.outside
  shared := by rw [entered_none]; exact h.shared
  replies := by rw [entered_none, left_none]; exact h.replies

theorem Busy.skip (h : Busy M locked finish s os i) :
    Busy M locked finish s (os ++ [none]) i where
  alone := h.alone
  serves := by rw [entered_none, left_none]; exact h.serves

end Invariant

/-! ## Runs -/

variable [DecidableEq ι]

def State.move (s : State ι σ α ρ κ) (i : ι) (shared : σ) (t : Thread α ρ κ) :
    State ι σ α ρ κ :=
  ⟨shared, Function.update s.threads i t⟩

/-- One access of thread `i`. -/
def step (L : SpinLock σ α ρ κ) (s : State ι σ α ρ κ) (i : ι) :
    Option (Event ι α ρ) × State ι σ α ρ κ :=
  match s.threads i with
  | ⟨todo, .outside⟩ =>
    match todo with
    | [] => (none, s)
    | a :: todo =>
      match L.acquire s.shared with
      | (true, x) => (some (.entered i a), s.move i x ⟨todo, .inside (L.start a)⟩)
      | (false, x) => (none, { s with shared := x })
  | ⟨todo, .inside k⟩ =>
    (none, s.move i (L.access k s.shared).2 ⟨todo, .ofSum (L.access k s.shared).1⟩)
  | ⟨todo, .leaving r⟩ =>
    match L.release s.shared with
    | (true, x) => (some (.left i r), s.move i x ⟨todo, .outside⟩)
    | (false, x) => (none, { s with shared := x })

/-- The threads together; an input is the thread that moves. -/
def system (L : SpinLock σ α ρ κ) (prog : ι → List α) :
    Machine (State ι σ α ρ κ) ι (Option (Event ι α ρ)) where
  init := ⟨L.init, fun i => ⟨prog i, .outside⟩⟩
  step := L.step

/-- The calls one thread has entered with. -/
def callsOf (i : ι) (es : List (ι × α)) : List α :=
  es.filterMap fun e => if e.1 = i then some e.2 else none

section Steps

variable {L : SpinLock σ α ρ κ} {M : Machine β α ρ} {locked : Bool → β → σ}
  {finish : κ → β → ρ × β} {s : State ι σ α ρ κ} {os : List (Option (Event ι α ρ))}
  {i j : ι} {a : α} {k : κ} {r : ρ} {todo : List α} {x : β} {y : σ} {t : Thread α ρ κ}

@[simp] theorem move_self : (s.move i y t).threads i = t := Function.update_self ..

theorem move_ne (h : j ≠ i) : (s.move i y t).threads j = s.threads j :=
  Function.update_of_ne h ..

theorem step_done (hi : s.threads i = ⟨[], .outside⟩) : L.step s i = (none, s) := by
  unfold step
  rw [hi]

theorem Guards.step_enter (hL : Guards L M locked finish)
    (hi : s.threads i = ⟨a :: todo, .outside⟩) (hx : s.shared = locked false x) :
    L.step s i =
      (some (.entered i a), s.move i (locked true x) ⟨todo, .inside (L.start a)⟩) := by
  unfold step
  rw [hi, hx]
  dsimp only
  rw [hL.acquire_free]

/-- A thread that finds the lock taken tries again. -/
theorem Guards.step_wait (hL : Guards L M locked finish)
    (hi : (s.threads i).point = .outside) (hx : s.shared = locked true x) :
    L.step s i = (none, s) := by
  obtain ⟨shared, threads⟩ := s
  cases h : threads i with
  | mk todo point =>
    dsimp only at hi hx
    rw [h] at hi
    cases hi
    cases todo with
    | nil => exact step_done h
    | cons a todo =>
      unfold step
      dsimp only
      rw [h, hx, hL.acquire_taken]

theorem Guards.step_access (hL : Guards L M locked finish)
    (hi : s.threads i = ⟨todo, .inside k⟩) (hx : s.shared = locked true x) :
    ∃ p y, L.step s i = (none, s.move i (locked true y) ⟨todo, .ofSum p⟩) ∧
      (Point.ofSum p).rest finish y = some (finish k x) := by
  obtain ⟨p, y, hp, hrest⟩ := hL.access k x
  refine ⟨p, y, ?_, hrest⟩
  unfold step
  rw [hi, hx]
  show (none, s.move i (L.access k (locked true x)).2
    ⟨todo, .ofSum (L.access k (locked true x)).1⟩) = _
  rw [hp]

theorem Guards.step_leave (hL : Guards L M locked finish)
    (hi : s.threads i = ⟨todo, .leaving r⟩) (hx : s.shared = locked true x) :
    L.step s i = (some (.left i r), s.move i (locked false x) ⟨todo, .outside⟩) := by
  unfold step
  rw [hi, hx]
  dsimp only
  rw [hL.release_taken]

/-- A step that takes the lock takes a call off its thread's list; no other step touches one. -/
theorem step_todo (L : SpinLock σ α ρ κ) (s : State ι σ α ρ κ) (i : ι) :
    (∃ a y t, (L.step s i).1 = some (.entered i a) ∧ (L.step s i).2 = s.move i y t ∧
      (s.threads i).todo = a :: t.todo) ∨
    (Event.entered? (L.step s i).1 = none ∧
      ∀ j, ((L.step s i).2.threads j).todo = (s.threads j).todo) := by
  have hmove : ∀ y t, t.todo = (s.threads i).todo →
      ∀ j, ((s.move i y t).threads j).todo = (s.threads j).todo := by
    intro y t ht j
    by_cases hj : j = i
    · rw [hj, move_self, ht]
    · rw [move_ne hj]
  unfold step
  rcases h : s.threads i with ⟨todo, point⟩
  rw [h] at hmove
  cases point with
  | outside =>
    cases todo with
    | nil => exact .inr ⟨rfl, fun _ => rfl⟩
    | cons a todo =>
      dsimp only
      rcases L.acquire s.shared with ⟨ok, y⟩
      cases ok with
      | true => exact .inl ⟨a, y, _, rfl, rfl, rfl⟩
      | false => exact .inr ⟨rfl, fun _ => rfl⟩
  | inside k => exact .inr ⟨rfl, hmove _ _ rfl⟩
  | leaving r =>
    dsimp only
    rcases L.release s.shared with ⟨ok, y⟩
    cases ok with
    | true => exact .inr ⟨rfl, hmove _ _ rfl⟩
    | false => exact .inr ⟨rfl, fun _ => rfl⟩

end Steps

/-! ## Steps keep the invariant -/

section Preserved

variable {L : SpinLock σ α ρ κ} {M : Machine β α ρ} {locked : Bool → β → σ}
  {finish : κ → β → ρ × β} {s : State ι σ α ρ κ} {os : List (Option (Event ι α ρ))}
  {i j : ι} {a : α} {k : κ} {r : ρ} {todo : List α} {x : β}

/-- The thread that takes the lock is alone inside. -/
theorem Quiet.enter (h : Quiet M locked s os) (hL : Guards L M locked finish) :
    Busy M locked finish (s.move i (locked true (M.after ((entered os).map Prod.snd)))
      ⟨todo, .inside (L.start a)⟩) (os ++ [some (.entered i a)]) i where
  alone j hj := by
    rw [move_ne hj]
    exact h.outside j
  serves := by
    refine ⟨entered os, a, _, entered_entered, ?_, rfl, ?_⟩
    · rw [left_entered]
      exact h.replies
    · rw [move_self, ← hL.start]
      rfl

/-- An access of the thread inside leaves the rest of its call as it is. -/
theorem Busy.access (h : Busy M locked finish s os i) (hL : Guards L M locked finish)
    (hi : s.threads i = ⟨todo, .inside k⟩) :
    (L.step s i).1 = none ∧ Busy M locked finish (L.step s i).2 (os ++ [none]) i := by
  obtain ⟨es, a, x, hes, hleft, hx, hrest⟩ := h.serves
  obtain ⟨p, y, hstep, hp⟩ := hL.step_access hi hx
  rw [hstep]
  refine ⟨rfl, fun j hj => ?_, es, a, y, ?_, ?_, rfl, ?_⟩
  · rw [move_ne hj]
    exact h.alone j hj
  · rw [entered_none]
    exact hes
  · rw [left_none]
    exact hleft
  · rw [move_self, hp, ← hrest, hi]
    rfl

/-- The thread that gives the lock back leaves a reply of `M` and its next object. -/
theorem Busy.leave (h : Busy M locked finish s os i) (hL : Guards L M locked finish)
    (hi : s.threads i = ⟨todo, .leaving r⟩) :
    (L.step s i).1 = some (.left i r) ∧
      Quiet M locked (L.step s i).2 (os ++ [some (.left i r)]) := by
  obtain ⟨es, a, x, hes, hleft, hx, hrest⟩ := h.serves
  have hserved : (r, x) = M.step (M.after (es.map Prod.snd)) a := by
    rw [hi] at hrest
    exact Option.some.inj hrest
  rw [hL.step_leave hi hx]
  refine ⟨rfl, fun j => ?_, ?_, ?_⟩
  · by_cases hj : j = i
    · rw [hj, move_self]
    · rw [move_ne hj]
      exact h.alone j hj
  · rw [entered_left, hes, List.map_append, List.map_singleton, Machine.after_snoc, Machine.next,
      ← hserved]
    rfl
  · rw [entered_left, left_left, hes, sequential_snoc, Machine.out, ← hserved, hleft]

/-- **Step.** -/
theorem Guards.invariant_step (hL : Guards L M locked finish)
    (h : Quiet M locked s os ∨ ∃ i, Busy M locked finish s os i) (j : ι) :
    Quiet M locked (L.step s j).2 (os ++ [(L.step s j).1]) ∨
      ∃ i, Busy M locked finish (L.step s j).2 (os ++ [(L.step s j).1]) i := by
  rcases h with h | ⟨i, h⟩
  · rcases hj : s.threads j with ⟨todo, point⟩
    obtain rfl : point = .outside := by
      have hout := h.outside j
      rw [hj] at hout
      exact hout
    cases todo with
    | nil =>
      rw [step_done hj]
      exact .inl h.skip
    | cons a todo =>
      rw [hL.step_enter hj h.shared]
      exact .inr ⟨j, h.enter hL⟩
  · by_cases hji : j = i
    · subst hji
      rcases hj : s.threads j with ⟨todo, point⟩
      cases point with
      | outside =>
        obtain ⟨es, a, x, -, -, -, hrest⟩ := h.serves
        rw [hj] at hrest
        cases hrest
      | inside k =>
        obtain ⟨hout, hnext⟩ := h.access hL hj
        rw [hout]
        exact .inr ⟨j, hnext⟩
      | leaving r =>
        obtain ⟨hout, hnext⟩ := h.leave hL hj
        rw [hout]
        exact .inl hnext
    · obtain ⟨x, hx⟩ := h.taken
      rw [hL.step_wait (h.alone j hji) hx]
      exact .inr ⟨i, h.skip⟩

/-- **Run.** -/
theorem Guards.invariant (hL : Guards L M locked finish) (prog : ι → List α) (sched : List ι) :
    Quiet M locked ((L.system prog).after sched) ((L.system prog).outs sched) ∨
      ∃ i, Busy M locked finish ((L.system prog).after sched) ((L.system prog).outs sched) i :=
  Machine.trace_of_step (P := fun s os => Quiet M locked s os ∨ ∃ i, Busy M locked finish s os i)
    (.inl ⟨fun _ => rfl, hL.init, rfl⟩) fun _ _ i h => hL.invariant_step h i

theorem callsOf_snoc (es : List (ι × α)) (i j : ι) (a : α) :
    callsOf j (es ++ [(i, a)]) = callsOf j es ++ if i = j then [a] else [] := by
  unfold callsOf
  rw [List.filterMap_append]
  split <;> simp [*]

/-- Each thread enters with its own calls, in their order. -/
theorem entered_program (L : SpinLock σ α ρ κ) (prog : ι → List α) (sched : List ι) (j : ι) :
    callsOf j (entered ((L.system prog).outs sched)) ++
      (((L.system prog).after sched).threads j).todo = prog j := by
  refine Machine.trace_of_step (M := L.system prog)
    (P := fun s os => callsOf j (entered os) ++ (s.threads j).todo = prog j) rfl ?_
  intro s os i h
  show callsOf j (entered (os ++ [(L.step s i).1])) ++ ((L.step s i).2.threads j).todo = prog j
  rcases L.step_todo s i with ⟨a, y, t, hout, hnext, htodo⟩ | ⟨hout, htodo⟩
  · rw [hout, hnext, entered_entered, callsOf_snoc]
    by_cases hij : i = j
    · subst hij
      rw [if_pos rfl, move_self, List.append_assoc, List.singleton_append, ← htodo, h]
    · rw [if_neg hij, List.append_nil, move_ne (Ne.symm hij), h]
  · have hentered : entered (os ++ [(L.step s i).1]) = entered os := by
      simp [entered, hout]
    rw [hentered, htodo, h]

end Preserved

/-! ## Linearizability -/

/-- What a run of the threads looks like from outside. -/
structure Linearizable (L : SpinLock σ α ρ κ) (M : Machine β α ρ) (locked : Bool → β → σ)
    (prog : ι → List α) (sched : List ι) : Prop where
  exclusive : (L.system prog).EveryState sched fun s => ∀ i j,
    (s.threads i).point ≠ .outside → (s.threads j).point ≠ .outside → i = j
  taken : (L.system prog).EveryState sched fun s => ∀ i,
    (s.threads i).point ≠ .outside → ∃ x, s.shared = locked true x
  /-- The replies so far are those of `M`, in the order the lock was taken. -/
  replies :
    left ((L.system prog).outs sched) <+: sequential M (entered ((L.system prog).outs sched))
  /-- At most the call of the thread inside is still to be answered. -/
  pending : (entered ((L.system prog).outs sched)).length ≤
    (left ((L.system prog).outs sched)).length + 1
  quiet : (∀ i, (((L.system prog).after sched).threads i).point = .outside) →
    Quiet M locked ((L.system prog).after sched) ((L.system prog).outs sched)
  program : ∀ i, callsOf i (entered ((L.system prog).outs sched)) ++
    (((L.system prog).after sched).threads i).todo = prog i

/-- **Main.** -/
theorem Guards.linearizable {L : SpinLock σ α ρ κ} {M : Machine β α ρ} {locked : Bool → β → σ}
    {finish : κ → β → ρ × β} (hL : Guards L M locked finish) (prog : ι → List α)
    (sched : List ι) : Linearizable L M locked prog sched where
  exclusive pre _ i j hi hj := by
    rcases hL.invariant prog pre with h | ⟨k, h⟩
    · exact absurd (h.outside i) hi
    · rw [h.eq hi, h.eq hj]
  taken pre _ i hi := by
    rcases hL.invariant prog pre with h | ⟨k, h⟩
    · exact absurd (h.outside i) hi
    · exact h.taken
  replies := by
    rcases hL.invariant prog sched with h | ⟨k, h⟩
    · rw [h.replies]
    · obtain ⟨es, a, x, hes, hleft, -, -⟩ := h.serves
      rw [hes, hleft, sequential_snoc]
      exact List.prefix_append _ _
  pending := by
    rcases hL.invariant prog sched with h | ⟨k, h⟩
    · rw [h.replies, length_sequential]
      omega
    · obtain ⟨es, a, x, hes, hleft, -, -⟩ := h.serves
      rw [hes, hleft, length_sequential, List.length_append, List.length_singleton]
  quiet hout := by
    rcases hL.invariant prog sched with h | ⟨k, h⟩
    · exact h
    · obtain ⟨es, a, x, -, -, -, hrest⟩ := h.serves
      rw [hout k] at hrest
      cases hrest
  program := entered_program L prog sched

end SpinLock

end Lib
