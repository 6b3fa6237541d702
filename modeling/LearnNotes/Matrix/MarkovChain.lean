import Mathlib.Algebra.BigOperators.Fin
import Mathlib.Algebra.Order.Ring.Star
import Mathlib.Data.Rat.Star
import Mathlib.LinearAlgebra.Matrix.Stochastic
import Mathlib.Logic.Equiv.Fin.Basic
import LearnNotes.Lib.Machine

/-!
# Squaring a Markov chain

The loop of `MCMC/Markov-Chain/Markov-Chain.cpp` squares a matrix in every round: it multiplies the
one in `data` by itself into `temp`, tile by tile, exchanges the vectors and points the views at
them again. `multiply_spec` says what a multiplication leaves behind, for any tiles in any order,
and which cells it reads and writes; `round_spec` follows a round through the exchange. Over `r`
rounds the matrix is raised to the power `2 ^ r`: `rounds_square`.
-/

namespace LearnNotes.Matrix.Markov

open Lib

variable {n : Nat} {T : Type}

/-! ## Vectors and views -/

/-- The storage of the two vectors. -/
inductive Block where
  | first
  | second
  deriving DecidableEq

abbrev Mem (n : Nat) (T : Type) := Block → Fin (n * n) → T

/-- Where a view finds `[i, j]`: at `i * n + j`. -/
def offset (i j : Fin n) : Fin (n * n) := finProdFinEquiv (i, j)

/-- The matrix a view on the block shows. -/
def view (mem : Mem n T) (p : Block) : Matrix (Fin n) (Fin n) T :=
  Matrix.of fun i j => mem p (offset i j)

inductive Access (n : Nat) where
  | read (p : Block) (c : Fin (n * n))
  | write (p : Block) (c : Fin (n * n))

/-- The memory in the course of a multiplication, and the accesses so far. -/
structure Exec (n : Nat) (T : Type) where
  mem : Mem n T
  accesses : List (Access n) := []

namespace Exec

/-- The value of `A[i, j]`. -/
def read (e : Exec n T) (A : Block) (i j : Fin n) : T × Exec n T :=
  (e.mem A (offset i j), { e with accesses := e.accesses ++ [.read A (offset i j)] })

/-- `C[i, j] = value`. -/
def write (e : Exec n T) (C : Block) (i j : Fin n) (value : T) : Exec n T where
  mem := Function.update e.mem C (Function.update (e.mem C) (offset i j) value)
  accesses := e.accesses ++ [.write C (offset i j)]

end Exec

/-! ## `tbb_matrix_multiply` -/

/-- A `blocked_range2d` inside the square. -/
structure Tile (n : Nat) where
  rowBegin : Nat
  rowEnd : Nat
  colBegin : Nat
  colEnd : Nat
  row_le : rowEnd ≤ n
  col_le : colEnd ≤ n

namespace Tile

variable (r : Tile n)

/-- The `i` of `for(i = r.rows().begin(); i < r.rows().end(); ++i)`. -/
def rows : List (Fin n) := (List.finRange n).filter fun i => r.rowBegin ≤ i ∧ i < r.rowEnd

def cols : List (Fin n) := (List.finRange n).filter fun j => r.colBegin ≤ j ∧ j < r.colEnd

def Mem (i j : Fin n) : Prop :=
  (r.rowBegin ≤ i ∧ i < r.rowEnd) ∧ r.colBegin ≤ j ∧ j < r.colEnd

end Tile

/-- Tiles that make up the square, in the order in which they are taken. -/
structure Tiling (n : Nat) where
  tiles : List (Tile n)
  disjoint : tiles.Pairwise fun r r' => ∀ i j, ¬ (r.Mem i j ∧ r'.Mem i j)
  covers : ∀ i j, ∃ r ∈ tiles, r.Mem i j

variable [CommSemiring T]

/-- `sum += A[i, k] * B[k, j]`. -/
def addProduct (A B : Block) (i j : Fin n) (acc : T × Exec n T) (k : Fin n) : T × Exec n T :=
  let (x, e) := acc.2.read A i k
  let (y, e) := e.read B k j
  (acc.1 + x * y, e)

/-- The body of the loop over `j`. -/
def cell (A B C : Block) (e : Exec n T) (i j : Fin n) : Exec n T :=
  let (sum, e) := (List.finRange n).foldl (addProduct A B i j) (0, e)
  e.write C i j sum

def tile (A B C : Block) (e : Exec n T) (r : Tile n) : Exec n T :=
  r.rows.foldl (fun e i => r.cols.foldl (fun e j => cell A B C e i j) e) e

def tbb_matrix_multiply (tiles : List (Tile n)) (A B C : Block) (mem : Mem n T) : Exec n T :=
  tiles.foldl (tile A B C) { mem := mem }

/-! ## `main` -/

/-- The two vectors and the two views. -/
structure State (n : Nat) (T : Type) where
  mem : Mem n T
  data : Block
  temp : Block
  matrix : Block
  result : Block

/-- What a round does to memory while it multiplies, and what it prints. -/
structure Round (n : Nat) (T : Type) where
  accesses : List (Access n)
  printed : Matrix (Fin n) (Fin n) T

def State.new (P : Matrix (Fin n) (Fin n) T) : State n T where
  mem
    | .first => fun c => P (finProdFinEquiv.symm c).1 (finProdFinEquiv.symm c).2
    | .second => fun _ => 0
  data := .first
  temp := .second
  matrix := .first
  result := .second

def State.round (s : State n T) (tiling : Tiling n) : Round n T × State n T :=
  let mem := Function.update s.mem s.temp fun _ => 0
  let e := tbb_matrix_multiply tiling.tiles s.matrix s.matrix s.result mem
  let s := { s with mem := e.mem, data := s.temp, temp := s.data }
  let s := { s with matrix := s.data }
  let s := { s with result := s.temp }
  ({ accesses := e.accesses, printed := view s.mem s.matrix }, s)

def main (P : Matrix (Fin n) (Fin n) T) : Machine (State n T) (Tiling n) (Round n T) where
  init := .new P
  step := State.round

/-! ## One cell -/

/-- The accesses of a multiplication of `A` by `B` into `C`. -/
def Access.Of (A B C : Block) : Access n → Prop
  | .read p _ => p = A ∨ p = B
  | .write p _ => p = C

variable {A B C : Block} {e : Exec n T} {i j : Fin n}

theorem addProducts_spec (sum : T) (hall : ∀ a ∈ e.accesses, a.Of A B C) (ks : List (Fin n)) :
    ∃ accesses, (∀ a ∈ accesses, Access.Of A B C a) ∧
      ks.foldl (addProduct A B i j) (sum, e) =
        (sum + (ks.map fun k => view e.mem A i k * view e.mem B k j).sum,
          { e with accesses := accesses }) := by
  induction ks generalizing sum e with
  | nil => exact ⟨e.accesses, hall, by simp⟩
  | cons k ks ih =>
    have hnext : ∀ a ∈ ((e.read A i k).2.read B k j).2.accesses, a.Of A B C := by
      intro a ha
      simp only [Exec.read, List.append_assoc, List.mem_append, List.mem_singleton] at ha
      rcases ha with ha | rfl | rfl
      · exact hall a ha
      · exact .inl rfl
      · exact .inr rfl
    obtain ⟨accesses, hall', hrun⟩ := ih (sum + view e.mem A i k * view e.mem B k j) hnext
    refine ⟨accesses, hall', ?_⟩
    rw [List.foldl_cons, List.map_cons, List.sum_cons, ← add_assoc]
    exact hrun

/-- **One cell** is set to its entry of the product. -/
theorem cell_spec (hall : ∀ a ∈ e.accesses, a.Of A B C) :
    (cell A B C e i j).mem = Function.update e.mem C
        (Function.update (e.mem C) (offset i j) ((view e.mem A * view e.mem B) i j)) ∧
      ∀ a ∈ (cell A B C e i j).accesses, a.Of A B C := by
  obtain ⟨accesses, hall', hrun⟩ := addProducts_spec (i := i) (j := j) 0 hall (List.finRange n)
  rw [cell, hrun, zero_add, ← Fin.sum_univ_def, ← Matrix.mul_apply]
  refine ⟨rfl, fun a ha => ?_⟩
  rcases List.mem_append.mp ha with ha | ha
  · exact hall' a ha
  · rw [List.mem_singleton.mp ha]
    rfl

/-! ## A multiplication -/

/-- The cells of a tile, row by row. -/
def Tile.cells (r : Tile n) : List (Fin n × Fin n) :=
  r.rows.flatMap fun i => r.cols.map fun j => (i, j)

theorem Tile.mem_cells {r : Tile n} : (i, j) ∈ r.cells ↔ r.Mem i j := by
  simp [Tile.cells, Tile.rows, Tile.cols, Tile.Mem]

theorem tile_eq (A B C : Block) (e : Exec n T) (r : Tile n) :
    tile A B C e r = r.cells.foldl (fun e ij => cell A B C e ij.1 ij.2) e := by
  rw [tile, Tile.cells, List.foldl_flatMap]
  simp only [List.foldl_map]

/-- In the course of a multiplication: the other block is as it was, the cells `done` are
computed. -/
structure Multiplied (A B C : Block) (mem : Mem n T) (done : List (Fin n × Fin n))
    (e : Exec n T) : Prop where
  kept : ∀ p, p ≠ C → e.mem p = mem p
  computed : ∀ i j, (i, j) ∈ done → view e.mem C i j = (view mem A * view mem B) i j
  accesses : ∀ a ∈ e.accesses, a.Of A B C

theorem Multiplied.cell {mem : Mem n T} {done : List (Fin n × Fin n)}
    (h : Multiplied A B C mem done e) (hA : A ≠ C) (hB : B ≠ C) (i j : Fin n) :
    Multiplied A B C mem (done ++ [(i, j)]) (cell A B C e i j) := by
  obtain ⟨hmem, haccesses⟩ := cell_spec (i := i) (j := j) h.accesses
  have hviewA : view e.mem A = view mem A := by rw [view, h.kept A hA, view]
  have hviewB : view e.mem B = view mem B := by rw [view, h.kept B hB, view]
  rw [hviewA, hviewB] at hmem
  refine ⟨fun p hp => ?_, fun i' j' hij => ?_, haccesses⟩
  · rw [hmem, Function.update_of_ne hp, h.kept p hp]
  · rw [view, Matrix.of_apply, hmem, Function.update_self]
    by_cases hoff : offset i' j' = offset i j
    · obtain ⟨rfl, rfl⟩ : i' = i ∧ j' = j := by
        simpa using finProdFinEquiv.injective hoff
      rw [hoff, Function.update_self]
    · rw [Function.update_of_ne hoff]
      rcases List.mem_append.mp hij with hij | hij
      · exact h.computed i' j' hij
      · obtain ⟨rfl, rfl⟩ := Prod.mk.inj (List.mem_singleton.mp hij)
        exact absurd rfl hoff

theorem Multiplied.cells {mem : Mem n T} {done : List (Fin n × Fin n)}
    (h : Multiplied A B C mem done e) (hA : A ≠ C) (hB : B ≠ C) (ijs : List (Fin n × Fin n)) :
    Multiplied A B C mem (done ++ ijs)
      (ijs.foldl (fun e ij => Markov.cell A B C e ij.1 ij.2) e) := by
  induction ijs generalizing e done with
  | nil => simpa using h
  | cons ij ijs ih =>
    have hnext := ih (h.cell hA hB ij.1 ij.2)
    rwa [List.append_assoc, List.singleton_append] at hnext

/-- **A multiplication** leaves the product, whatever the tiles and their order. -/
theorem multiply_spec (hA : A ≠ C) (hB : B ≠ C) (mem : Mem n T) (tiling : Tiling n) :
    let e := tbb_matrix_multiply tiling.tiles A B C mem
    (∀ p, p ≠ C → e.mem p = mem p) ∧ view e.mem C = view mem A * view mem B ∧
      ∀ a ∈ e.accesses, a.Of A B C := by
  intro e
  have he : e = (tiling.tiles.flatMap Tile.cells).foldl
      (fun e ij => cell A B C e ij.1 ij.2) { mem := mem } := by
    rw [List.foldl_flatMap]
    simp only [← tile_eq]
    rfl
  have hstart : Multiplied A B C mem [] ({ mem := mem } : Exec n T) :=
    ⟨fun _ _ => rfl, fun _ _ h => absurd h List.not_mem_nil, fun _ h => absurd h List.not_mem_nil⟩
  have hend := hstart.cells hA hB (tiling.tiles.flatMap Tile.cells)
  rw [← he, List.nil_append] at hend
  refine ⟨hend.kept, ?_, hend.accesses⟩
  apply Matrix.ext
  intro i j
  obtain ⟨r, hr, hij⟩ := tiling.covers i j
  exact hend.computed i j (List.mem_flatMap.mpr ⟨r, hr, Tile.mem_cells.mpr hij⟩)

/-! ## Rounds -/

/-- No cell is read after it was written. -/
def ReadsFirst (accesses : List (Access n)) : Prop :=
  accesses.Pairwise fun earlier later => ∀ p c, ¬ (earlier = .write p c ∧ later = .read p c)

/-- Reads and writes are of different blocks. -/
theorem readsFirst_of {accesses : List (Access n)} (hA : A ≠ C) (hB : B ≠ C)
    (h : ∀ a ∈ accesses, a.Of A B C) : ReadsFirst accesses := by
  apply List.Pairwise.imp_of_mem (R := fun _ _ => True)
  · rintro earlier later hearlier hlater - p c ⟨rfl, rfl⟩
    obtain rfl : p = C := h _ hearlier
    rcases h _ hlater with rfl | rfl
    · exact hA rfl
    · exact hB rfl
  · exact List.pairwise_of_forall fun _ _ => trivial

/-- Between two rounds: the views show the vectors, which have a block each. -/
structure Seated (s : State n T) : Prop where
  matrix : s.matrix = s.data
  result : s.result = s.temp
  ne : s.data ≠ s.temp

/-- The matrix in `data`. -/
def State.current (s : State n T) : Matrix (Fin n) (Fin n) T := view s.mem s.data

/-- **A round** squares the matrix in `data`, prints it and leaves the views on the vectors. -/
theorem round_spec {s : State n T} (hs : Seated s) (tiling : Tiling n) :
    Seated (s.round tiling).2 ∧ (s.round tiling).2.current = s.current * s.current ∧
      (s.round tiling).1.printed = s.current * s.current ∧
      ReadsFirst (s.round tiling).1.accesses := by
  obtain ⟨hmatrix, hresult, hne⟩ := hs
  have hne' : s.matrix ≠ s.result := by rwa [hmatrix, hresult]
  obtain ⟨-, hview, haccesses⟩ := multiply_spec hne' hne'
    (Function.update s.mem s.temp fun _ => 0) tiling
  have hcurrent : view (Function.update s.mem s.temp fun _ => 0) s.matrix = s.current := by
    rw [view, hmatrix, Function.update_of_ne hne]
    rfl
  rw [hcurrent] at hview
  have hprinted : (s.round tiling).1.printed = s.current * s.current :=
    (congrArg (view _) hresult.symm).trans hview
  exact ⟨⟨rfl, rfl, Ne.symm hne⟩, hprinted, hprinted, readsFirst_of hne' hne' haccesses⟩

/-- What holds after the rounds `os`. -/
structure Squared (P : Matrix (Fin n) (Fin n) T) (s : State n T) (os : List (Round n T)) :
    Prop where
  seated : Seated s
  current : s.current = P ^ 2 ^ os.length
  printed : ∀ k o, os[k]? = some o → o.printed = P ^ 2 ^ (k + 1)
  readsFirst : ∀ o ∈ os, ReadsFirst o.accesses

theorem Squared.round {P : Matrix (Fin n) (Fin n) T} {s : State n T} {os : List (Round n T)}
    (h : Squared P s os) (tiling : Tiling n) :
    Squared P (s.round tiling).2 (os ++ [(s.round tiling).1]) := by
  obtain ⟨hseated, hcurrent, hprinted, hreads⟩ := round_spec h.seated tiling
  have hpow : s.current * s.current = P ^ 2 ^ (os.length + 1) := by
    rw [h.current, ← pow_add, ← two_mul, ← pow_succ']
  refine ⟨hseated, ?_, fun k o ho => ?_, fun o ho => ?_⟩
  · rw [hcurrent, hpow, List.length_append, List.length_singleton]
  · rw [List.getElem?_append] at ho
    split at ho
    · exact h.printed k o ho
    · next hk =>
      rw [List.getElem?_singleton] at ho
      split at ho
      · next hk0 =>
        obtain rfl : k = os.length := by omega
        rw [← Option.some.inj ho, hprinted, hpow]
      · cases ho
  · rcases List.mem_append.mp ho with ho | ho
    · exact h.readsFirst o ho
    · rwa [List.mem_singleton.mp ho]

theorem squared_new (P : Matrix (Fin n) (Fin n) T) : Squared P (State.new P) [] where
  seated := ⟨rfl, rfl, Block.noConfusion⟩
  current := by
    apply Matrix.ext
    intro i j
    have hij : finProdFinEquiv.symm (offset i j) = (i, j) := finProdFinEquiv.symm_apply_apply _
    rw [List.length_nil, pow_zero, pow_one, State.current, view, Matrix.of_apply]
    exact congrArg (fun ij : Fin n × Fin n => P ij.1 ij.2) hij
  printed k o ho := by cases ho
  readsFirst o ho := absurd ho List.not_mem_nil

theorem squared_main (P : Matrix (Fin n) (Fin n) T) (tilings : List (Tiling n)) :
    Squared P ((main P).after tilings) ((main P).outs tilings) :=
  Machine.trace_of_step (squared_new P) fun _ _ tiling h => h.round tiling

/-- **Squaring.** After `r` rounds `data` is `P ^ 2 ^ r`; no round reads a cell it has written; and
where the rows of `P` are distributions, so are those of every matrix printed. -/
theorem rounds_square (P : Matrix (Fin n) (Fin n) T) (tilings : List (Tiling n)) :
    ((main P).after tilings).current = P ^ 2 ^ tilings.length ∧
      (∀ o ∈ (main P).outs tilings, ReadsFirst o.accesses) ∧
      ∀ [PartialOrder T] [IsOrderedRing T], P ∈ Matrix.rowStochastic T (Fin n) →
        ∀ o ∈ (main P).outs tilings, o.printed ∈ Matrix.rowStochastic T (Fin n) := by
  have h := squared_main P tilings
  refine ⟨?_, h.readsFirst, ?_⟩
  · rw [h.current, Machine.length_outs]
  · intro _ _ hP o ho
    obtain ⟨k, hk⟩ := List.mem_iff_getElem?.mp ho
    rw [h.printed k o hk]
    exact pow_mem hP _

/-- One tile for the whole square, and one for each column from the right. -/
def wholeAndColumns : List (Tiling 2) :=
  [{ tiles := [⟨0, 2, 0, 2, by decide, by decide⟩]
     disjoint := List.pairwise_singleton ..
     covers := by unfold Tile.Mem; decide },
   { tiles := [⟨0, 2, 1, 2, by decide, by decide⟩, ⟨0, 2, 0, 1, by decide, by decide⟩]
     disjoint := by unfold Tile.Mem; decide
     covers := by unfold Tile.Mem; decide }]

/-- A chain that changes its state half the time, or always. -/
def halfOrAlways : Matrix (Fin 2) (Fin 2) ℚ := Matrix.of ![![1 / 2, 1 / 2], ![1, 0]]

theorem rounds_square_two :
    ((main halfOrAlways).after wholeAndColumns).current = halfOrAlways ^ 4 ∧
      ∀ o ∈ (main halfOrAlways).outs wholeAndColumns,
        o.printed ∈ Matrix.rowStochastic ℚ (Fin 2) := by
  have hP : halfOrAlways ∈ Matrix.rowStochastic ℚ (Fin 2) := by
    rw [Matrix.mem_rowStochastic_iff_sum, Fin.forall_fin_two]
    simp only [Fin.forall_fin_two, Fin.sum_univ_two]
    norm_num [halfOrAlways]
  obtain ⟨hcurrent, -, hprinted⟩ := rounds_square halfOrAlways wholeAndColumns
  exact ⟨hcurrent, hprinted hP⟩

end LearnNotes.Matrix.Markov
