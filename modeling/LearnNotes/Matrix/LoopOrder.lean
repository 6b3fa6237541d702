import Mathlib.Data.BitVec
import Mathlib.Data.Matrix.Mul
import Mathlib.Data.Matrix.Basis
import LearnNotes.Lib.Nest

/-!
# The order of the loops in a matrix product

`martrix_for` of `learn_tbb/src/matrix.cpp` multiplies `a` by `b` into `c` with three loops over the
global variables `i`, `j` and `k`, whose order is the macro's arguments. Its statement adds to one
cell of `c` and has to find all three variables in range. `martrix_for_adds`: a nest over three
different variables adds `a * b` to `c`, whatever the order.
-/

namespace LearnNotes.Matrix

open Lib Lib.Nest

/-- `int`, whose sums and products wrap. -/
abbrev int := BitVec 32

/-- The global `int i, j, k`. -/
inductive Index where
  | i
  | j
  | k
  deriving DecidableEq

/-- An `int [N][N]`. -/
abbrev Cells (N : Nat) := Matrix (Fin N) (Fin N) int

/-- The index variables, and `c`. -/
abbrev Globals (N : Nat) := State Index (Cells N)

variable {N : Nat} (a b : Cells N)

/-- `c[i][j] = v`. -/
def assign (c : Cells N) (i j : Fin N) (v : int) : Cells N :=
  Matrix.of fun r s => if i = r ∧ j = s then v else c r s

/-- `c[i][j] += a[i][k] * b[k][j]`; an index outside of the arrays has no result. -/
def statement (s : Globals N) : Option (Globals N) :=
  if h : s.index .i < N ∧ s.index .j < N ∧ s.index .k < N then
    let i : Fin N := ⟨s.index .i, h.1⟩
    let j : Fin N := ⟨s.index .j, h.2.1⟩
    let k : Fin N := ⟨s.index .k, h.2.2⟩
    some { s with acc := assign s.acc i j (s.acc i j + a i k * b k j) }
  else none

/-- The macro, with `fuel` for each of its loops. -/
def martrix_for (fuel : Nat) (x y z : Index) : Globals N → Option (Globals N) :=
  forLoop N fuel x (forLoop N fuel y (forLoop N fuel z (statement a b)))

/-- `memset(c, 0, sizeof(c))`. -/
def memset (s : Globals N) : Globals N := { s with acc := 0 }

/-- The macro of the benchmarks, all of which pass it `i, j, k`. A round leaves `c` as it found
it. -/
def martrix_for_test (fuel : Nat) (x y z : Index) (s : Globals N) : Option (Globals N) :=
  (martrix_for a b fuel x y z s).map memset

/-! ## What the statement adds -/

/-- The term the index variables name, in its cell. -/
def term (w : Index → Nat) : Cells N :=
  if h : w .i < N ∧ w .j < N ∧ w .k < N then
    let i : Fin N := ⟨w .i, h.1⟩
    let j : Fin N := ⟨w .j, h.2.1⟩
    let k : Fin N := ⟨w .k, h.2.2⟩
    Matrix.single i j (a i k * b k j)
  else 0

theorem assign_add (c : Cells N) (i j : Fin N) (v : int) :
    assign c i j (c i j + v) = c + Matrix.single i j v := by
  apply Matrix.ext
  intro r s
  rw [assign, Matrix.of_apply, Matrix.add_apply, Matrix.single_apply]
  by_cases h : i = r ∧ j = s
  · rw [if_pos h, if_pos h, h.1, h.2]
  · rw [if_neg h, if_neg h, add_zero]

theorem statement_adds : Adds N ∅ (statement a b) (term a b) where
  run s hs := by
    have h : s.index .i < N ∧ s.index .j < N ∧ s.index .k < N :=
      ⟨hs _ id, hs _ id, hs _ id⟩
    rw [statement, dif_pos h]
    refine ⟨_, rfl, fun v _ => rfl, ?_⟩
    rw [term, dif_pos h]
    exact assign_add ..
  reads w w' hw := by
    have hww : w = w' := funext fun v => hw v id
    rw [hww]

/-- The terms of all the indices make up the product. -/
theorem sum_term (w : Index → Nat) : sumOver N (term a b) [.i, .j, .k] w = a * b := by
  have hterm : ∀ i j k : Fin N,
      term a b (Function.update (Function.update (Function.update w .i i) .j j) .k k) =
        Matrix.single i j (a i k * b k j) := by
    intro i j k
    simp [term]
  simp only [sumOver, hterm]
  funext r s
  simp only [Matrix.sum_apply, Matrix.mul_apply, Matrix.single_apply]
  rw [Finset.sum_eq_single r, Finset.sum_eq_single s]
  · simp
  · intro j _ hj
    simp [hj]
  · simp
  · intro i _ hi
    simp [hi]
  · simp

/-- A nest over three different variables. -/
theorem martrix_for_adds {fuel : Nat} {x y z : Index} (hnd : [x, y, z].Nodup) (hfuel : N < fuel)
    (s : Globals N) :
    ∃ index, martrix_for a b fuel x y z s = some { index := index, acc := s.acc + a * b } := by
  have hperm : [x, y, z].Perm [.i, .j, .k] := by
    revert hnd
    cases x <;> cases y <;> cases z <;> decide
  have hall : ∀ v : Index, v ∈ [x, y, z] := fun v => hperm.mem_iff.mpr (by cases v <;> decide)
  obtain ⟨s', hrun, -, hacc⟩ := (nest_adds (statement_adds a b) hnd hfuel).run s
    fun v hv => absurd (hall v) hv
  rw [sumOver_perm hperm hnd, sum_term] at hacc
  refine ⟨s'.index, ?_⟩
  rw [← hacc]
  exact hrun

/-! ## The six orders -/

inductive Order where
  | ijk
  | ikj
  | jik
  | jki
  | kij
  | kji

/-- The macro with its arguments in this order. -/
def Order.nest (fuel : Nat) : Order → Globals N → Option (Globals N)
  | ijk => martrix_for a b fuel .i .j .k
  | ikj => martrix_for a b fuel .i .k .j
  | jik => martrix_for a b fuel .j .i .k
  | jki => martrix_for a b fuel .j .k .i
  | kij => martrix_for a b fuel .k .i .j
  | kji => martrix_for a b fuel .k .j .i

/-- **Every order of the loops leaves the matrix product in `c`**, once each loop has been given
more than `N` tests of its condition. -/
theorem orders_agree (order : Order) (index : Index → Nat) (more : Nat) :
    ∃ index', order.nest a b (N + 1 + more) { index := index, acc := 0 } =
      some { index := index', acc := a * b } := by
  have hfuel : N < N + 1 + more := by omega
  have hnest : ∀ x y z : Index, [x, y, z].Nodup →
      ∃ index', martrix_for a b (N + 1 + more) x y z { index := index, acc := 0 } =
        some { index := index', acc := a * b } := by
    intro x y z hnd
    have hadds := martrix_for_adds a b hnd hfuel { index := index, acc := 0 }
    rwa [zero_add] at hadds
  cases order <;> exact hnest _ _ _ (by decide)

/-- A round of a benchmark ends with `c` cleared for the next. -/
theorem martrix_for_test_clears {fuel : Nat} {x y z : Index} (hnd : [x, y, z].Nodup)
    (hfuel : N < fuel) (s : Globals N) :
    ∃ index, martrix_for_test a b fuel x y z s = some { index := index, acc := 0 } := by
  obtain ⟨index, hrun⟩ := martrix_for_adds a b hnd hfuel s
  exact ⟨index, by rw [martrix_for_test, hrun]; rfl⟩

end LearnNotes.Matrix
