import LearnNotes.Factorial.C

/-!
# The buffer of `big_factorial`

`big_factorial` grows its array after a multiplication that fills it, but one multiplication may
bring two digits: from `49!` to `50!` they go from 63 to 65, and the array of 64 cells is overrun
before it ever grows. `inBounds_iff`: up to `49!` every access is inside. On an array with a cell
to spare the loop leaves the digits of the factorial (`leaves_factorialLoop`), but with a buffer
of the caller it is not run on that buffer: `res` is still `NULL` (`not_honours`).
-/

namespace LearnNotes.Factorial.C

open Lib
open scoped Nat

variable {allocates : Nat → Bool} {m : Memory} {s : Growing} {size p x : Nat}

theorem Memory.deref_some {block : Block} (h : m.blocks[p]? = some (some block)) :
    m.deref (some p) = .ok (p, block) := by
  simp only [Memory.deref, h]

theorem Memory.write_get {block old : Block} (h : m.blocks[p]? = some (some old)) :
    (m.write p block).blocks[p]? = some (some block) := by
  obtain ⟨hlt, -⟩ := List.getElem?_eq_some_iff.mp h
  exact List.getElem?_set_self hlt

theorem Memory.malloc_some (m : Memory) (h : allocates size = true) :
    ∃ p m', m.malloc allocates size = (some p, m') ∧
      m'.blocks[p]? = some (some (List.replicate size none)) := by
  refine ⟨_, _, if_pos h, ?_⟩
  rw [List.getElem?_append_right (Nat.le_refl _), Nat.sub_self]
  rfl

/-! ## One round -/

/-- When round `x` starts the array has `size` cells, the first of them the digits of `(x - 1)!`. -/
structure Before (size p x : Nat) (s : Growing) : Prop where
  size_eq : s.size = size
  res_eq : s.res = p
  res_size : s.res_size = (Nat.digits 10 (x - 1)!).length
  block : ∃ rest, s.memory.blocks[p]? = some (some (cells (Nat.digits 10 (x - 1)!) ++ rest)) ∧
    s.res_size + rest.length = size

/-- What `multiply` does in round `x`. -/
theorem Before.multiply (h : Before size p x s) (hpos : 1 ≤ x) (hx : Small x)
    (hsize : size ≤ INT_MAX) :
    ∃ block rest, s.memory.deref (some s.res) = .ok (p, block) ∧
      C.multiply x block s.res_size =
        (if (Nat.digits 10 x !).length ≤ size then
          .ok (cells (Nat.digits 10 x !) ++ rest, (Nat.digits 10 x !).length)
        else .error (.outOfBounds size size)) ∧
      ((Nat.digits 10 x !).length ≤ size → (Nat.digits 10 x !).length + rest.length = size) := by
  obtain ⟨rest, hblock, hrest⟩ := h.block
  have hlen := h.res_size
  have hmul := multiply_eq rest hpos hx (v := (x - 1)!) (by omega)
  rw [Nat.mul_comm, Nat.mul_factorial_pred (by omega), ← hlen] at hmul
  dsimp only at hmul
  rw [hrest] at hmul
  have hmono : (Nat.digits 10 (x - 1)!).length ≤ (Nat.digits 10 x !).length :=
    Nat.le_length_digits_le 10 _ _ (Nat.factorial_le (Nat.sub_le x 1))
  refine ⟨_, _, ?_, hmul, fun hfits => ?_⟩
  · rw [h.res_eq]
    exact Memory.deref_some hblock
  · rw [List.length_drop]
    omega

/-- A round that leaves a cell free does not grow the array. -/
theorem growRound_ok (h : Before size p x s) (hpos : 1 ≤ x) (hx : Small x) (hsize : size ≤ INT_MAX)
    (hfits : (Nat.digits 10 x !).length < size) :
    ∃ s', growRound allocates x s = .ok s' ∧ Before size p (x + 1) s' := by
  obtain ⟨block, rest, hderef, hmul, hrest⟩ := h.multiply hpos hx hsize
  rw [if_pos (Nat.le_of_lt hfits)] at hmul
  have hfree : ¬ s.size ≤ (Nat.digits 10 x !).length := by
    rw [h.size_eq]
    omega
  refine ⟨⟨s.size, p, (Nat.digits 10 x !).length,
    s.memory.write p (cells (Nat.digits 10 x !) ++ rest)⟩, ?_, h.size_eq, rfl, rfl, rest, ?_,
    hrest (Nat.le_of_lt hfits)⟩
  · simp only [growRound, hderef, hmul, Except.mapError, ok_bind, if_neg hfree, pure_eq_ok]
  · obtain ⟨old, hold, -⟩ := h.block
    exact Memory.write_get hold

/-- A round whose digits do not fit writes the cell behind the last. -/
theorem growRound_overruns (h : Before size p x s) (hpos : 1 ≤ x) (hx : Small x)
    (hsize : size ≤ INT_MAX) (hover : size < (Nat.digits 10 x !).length) :
    growRound allocates x s = .error (.fault (.outOfBounds size size)) := by
  obtain ⟨block, rest, hderef, hmul, -⟩ := h.multiply hpos hx hsize
  rw [if_neg (by omega)] at hmul
  simp only [growRound, hderef, hmul, Except.mapError, ok_bind, error_bind]

/-! ## The loop -/

/-- The loop starts with `res[0] = 1` written, whatever the other cells are. -/
theorem factorialLoop_eq {block : Block} (allocates : Nat → Bool) (n : Int)
    (h : m.blocks[p]? = some (some block)) (hsize : block.length = size) (hpos : 0 < size) :
    ∃ s, Before size p 2 s ∧ factorialLoop allocates n size (some p) m =
      forTo INT_MAX (.fault .signedOverflow) (growRound allocates) 2 n s := by
  subst hsize
  obtain ⟨first, rest, rfl⟩ := List.exists_cons_of_length_pos hpos
  have hstore : store (first :: rest) 0 1 = .ok (cells [1] ++ rest) := store_at [] rest first 1
  have hone : Nat.digits 10 (2 - 1)! = [1] := by simp
  refine ⟨⟨(first :: rest).length, p, 1, m.write p (cells [1] ++ rest)⟩,
    ⟨rfl, rfl, ?_, rest, ?_, ?_⟩, ?_⟩
  · rw [hone]
    rfl
  · rw [hone]
    exact Memory.write_get h
  · exact Nat.add_comm 1 rest.length
  · simp only [factorialLoop, Memory.deref_some h, hstore, Except.mapError, ok_bind]

/-- The rounds up to `n`, if the digits of `n!` leave a cell free. -/
theorem rounds_pass {n : Nat} (hn : Small n) (hsize : size ≤ INT_MAX)
    (hfits : (Nat.digits 10 n !).length < size) (hpos : 2 ≤ x) (hx : x ≤ n)
    (h : Before size p x s) :
    ∃ s', growRound allocates x s = .ok s' ∧ Before size p (x + 1) s' := by
  have hmono : (Nat.digits 10 x !).length ≤ (Nat.digits 10 n !).length :=
    Nat.le_length_digits_le 10 _ _ (Nat.factorial_le hx)
  have hsmall : Small x := by
    unfold Small at *
    omega
  exact growRound_ok h (by omega) hsmall hsize (by omega)

/-- A call returned the number of the digits of `v`, and `*result` is the block at `p`, where they
are. -/
def Leaves (v p : Nat) (call : Except Fault (Nat × Memory)) : Prop :=
  ∃ m rest, call = .ok ((Nat.digits 10 v).length, m) ∧ m.result = some p ∧
    m.blocks[p]? = some (some (cells (Nat.digits 10 v) ++ rest))

/-- **The loop on an array that is large enough**, with a cell to spare. -/
theorem leaves_factorialLoop {block : Block} {n : Int} (h : m.blocks[p]? = some (some block))
    (hlen : block.length = size) (hn : Small n.toNat) (hsize : size ≤ INT_MAX)
    (hfits : (Nat.digits 10 n.toNat !).length < size) :
    Leaves n.toNat ! p (returned (factorialLoop allocates n size (some p) m)) := by
  obtain ⟨s, hs, hrun⟩ := factorialLoop_eq allocates n h hlen (by omega)
  have hend : ∃ s', forTo INT_MAX (.fault .signedOverflow) (growRound allocates) 2 n s = .ok s' ∧
      Before size p (max 2 (n.toNat + 1)) s' := by
    by_cases hn2 : n < 2
    · rw [max_eq_left (by omega)]
      exact ⟨s, forTo_nil hn2, hs⟩
    · rw [max_eq_right (by omega)]
      apply forTo_ok (by unfold Small at hn; omega) (by omega) (by omega) _ hs
      intro x s hx hlt h
      exact rounds_pass hn hsize hfits hx (by omega) h
  have hfact : (max 2 (n.toNat + 1) - 1)! = n.toNat ! := by
    by_cases hn2 : n.toNat < 2
    · rw [max_eq_left (by omega)]
      interval_cases n.toNat <;> rfl
    · rw [max_eq_right (by omega), Nat.add_sub_cancel]
  obtain ⟨s', hloop, hend⟩ := hend
  obtain ⟨rest, hblock, -⟩ := hend.block
  have hres_size := hend.res_size
  rw [hfact] at hblock hres_size
  refine ⟨{ s'.memory with result := some s'.res }, rest, ?_, congrArg some hend.res_eq, hblock⟩
  rw [hrun, hloop, ← hres_size]
  rfl

/-! ## An array of its own -/

/-- A call that allocates its array. -/
theorem big_factorial_eq (n : Int) (m : Memory) (h : allocates 64 = true) :
    ∃ p m', m'.blocks[p]? = some (some (List.replicate 64 none)) ∧
      big_factorial allocates n 0 m = returned (factorialLoop allocates n 64 (some p) m') := by
  obtain ⟨p, m', hmalloc, hblock⟩ := m.malloc_some h
  refine ⟨p, m', hblock, ?_⟩
  rw [big_factorial, if_pos rfl]
  simp only [hmalloc]

theorem length_digits_of_le {k : Nat} (h : k ≤ 49) : (Nat.digits 10 k !).length < 64 := by
  have hle : k ! ≤ 49 ! := Nat.factorial_le h
  have h49 : 49 ! < 10 ^ 63 := by decide
  exact Nat.lt_succ_of_le ((Nat.digits_length_le_iff (by decide) _).mpr (by omega))

theorem length_digits_50 : 64 < (Nat.digits 10 50 !).length :=
  (Nat.lt_digits_length_iff (by decide) _).mpr (by decide)

theorem small_of_le (h : x ≤ 50) : Small x := by
  have hmax : 500 ≤ INT_MAX := by decide
  unfold Small
  omega

/-- **Up to `49!`** the digits are those of the factorial. -/
theorem leaves_big_factorial {n : Int} (hn : n < 50) (m : Memory)
    (allocates : Nat → Bool) (h : allocates 64 = true) :
    ∃ p, Leaves n.toNat ! p (big_factorial allocates n 0 m) := by
  obtain ⟨p, m', hblock, hrun⟩ := big_factorial_eq n m h
  rw [hrun]
  exact ⟨p, leaves_factorialLoop hblock List.length_replicate (small_of_le (by omega))
    (by decide) (length_digits_of_le (by omega))⟩

/-- **From `50!` on** the first cell behind the array is written. -/
theorem overruns {n : Int} (hn : 50 ≤ n) (m : Memory) (h : allocates 64 = true) :
    big_factorial allocates n 0 m = .error (.outOfBounds 64 64) := by
  obtain ⟨p, m', hblock, hrun⟩ := big_factorial_eq n m h
  obtain ⟨s, hs, hloop⟩ := factorialLoop_eq allocates n hblock List.length_replicate (by decide)
  have hend : ∃ e, forTo INT_MAX (.fault .signedOverflow) (growRound allocates) 2 n s =
      .error e ∧ e = .fault (.outOfBounds 64 64) := by
    apply forTo_error (n := 50) (by decide) (by decide) hn _ _ hs
    · intro x s hx hlt h
      exact rounds_pass (n := 49) (small_of_le (by decide)) (by decide)
        (length_digits_of_le le_rfl) hx (by omega) h
    · intro s h
      exact ⟨_, growRound_overruns h (by decide) (small_of_le le_rfl) (by decide)
        length_digits_50, rfl⟩
  obtain ⟨e, he, rfl⟩ := hend
  rw [hrun, hloop, he]
  rfl

/-- A call that allocates its array, while there is memory, accesses no cell it does not have. -/
def InBounds (n : Int) : Prop :=
  ∀ m i capacity, big_factorial (fun _ => true) n 0 m ≠ .error (.outOfBounds i capacity)

theorem inBounds_iff (n : Int) : InBounds n ↔ n < 50 := by
  constructor
  · intro h
    by_contra hn
    exact h ⟨[], none⟩ 64 64 (overruns (by omega) _ rfl)
  · intro hn m i capacity hrun
    obtain ⟨p, m', rest, hok, -⟩ := leaves_big_factorial hn m (fun _ => true) rfl
    rw [hrun] at hok
    cases hok

theorem fifty_overruns : ¬ InBounds 50 := fun h => h ⟨[], none⟩ 64 64 (overruns le_rfl _ rfl)

/-! ## A buffer of the caller -/

/-- The call leaves the digits of `n!` in the caller's buffer and returns their number. -/
def Honours (allocates : Nat → Bool) (n size : Nat) (m : Memory) : Prop :=
  ∃ p, m.result = some p ∧ Leaves n ! p (big_factorial allocates n size m)

/-- The array is `NULL` when `res[0]` is written. -/
theorem writes_null (allocates : Nat → Bool) (n : Int) (m : Memory) (h : 0 < size) :
    big_factorial allocates n size m = .error .nullPointer := by
  rw [big_factorial, if_neg (by omega)]
  rfl

/-- `5!`, with room for ten digits. -/
theorem five_not_honoured :
    ¬ Honours (fun _ => true) 5 10 ⟨[some (List.replicate 10 none)], some 0⟩ := by
  rintro ⟨p, -, m', rest, hok, -⟩
  rw [writes_null _ _ _ (by decide)] at hok
  cases hok

/-- **No buffer is honoured.** -/
theorem not_honours (allocates : Nat → Bool) (n : Nat) (m : Memory) {size : Nat} (h : 0 < size) :
    ¬ Honours allocates n size m := by
  rintro ⟨p, -, m', rest, hok, -⟩
  rw [writes_null _ _ _ h] at hok
  cases hok

theorem not_honours_zero : ¬ Honours (fun _ => true) 0 1 ⟨[some [none]], some 0⟩ :=
  not_honours (fun _ => true) 0 _ (by decide)

end LearnNotes.Factorial.C
