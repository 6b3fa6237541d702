import LearnNotes.Lib.Workers
import LearnNotes.Matrix.MarkovChain

/-!
# `simple.cpp` and `auto.cpp`

Both transpose a square matrix with `tbb::parallel_for` over a `blocked_range2d`; the partitioner
decides how the square is cut into tiles, and the bodies of the tiles run in any interleaving.
`transposed`: no cell is written twice, what is written is from the place across, and once the
bodies are through, what is left is what the plain loops leave.
-/

namespace LearnNotes.Matrix.Transpose

open Lib Markov

variable {n : Nat} {T : Type}

/-- A vector of `N * N`. -/
abbrev Vector (n : Nat) (T : Type) := Fin (n * n) → T

/-- `b[i*N+j] = a[j*N+i]`. -/
def assign (a : Vector n T) (b : Vector n T) (ij : Fin n × Fin n) : Vector n T :=
  Function.update b (offset ij.1 ij.2) (a (offset ij.2 ij.1))

/-- The `parallel_for`: an input is the tile whose body goes on by one assignment. -/
def transpose (tiling : Tiling n) (a b : Vector n T) :
    Machine (Workers.State (Fin tiling.tiles.length) (Fin n × Fin n) (Vector n T))
      (Fin tiling.tiles.length) Unit :=
  Workers.workers (fun k => (tiling.tiles.get k).cells) (assign a) b

/-- The two loops over the whole square. -/
def loops (a b : Vector n T) : Vector n T :=
  (List.finRange n).foldl (fun b i => (List.finRange n).foldl (fun b j => assign a b (i, j)) b) b

/-- The matrix in a vector. -/
def matrix (b : Vector n T) : Matrix (Fin n) (Fin n) T := Matrix.of fun i j => b (offset i j)

/-! ## The tiles -/

theorem nodup_cells (r : Tile n) : r.cells.Nodup := by
  unfold Tile.cells
  refine List.nodup_flatMap.mpr ⟨fun i _ => ?_, ?_⟩
  · exact ((List.nodup_finRange n).filter _).map fun j j' h => (Prod.mk.inj h).2
  · refine ((List.nodup_finRange n).filter _).imp fun hne => ?_
    intro c hc hc'
    obtain ⟨_, -, rfl⟩ := List.mem_map.mp hc
    obtain ⟨_, -, heq⟩ := List.mem_map.mp hc'
    exact hne (Prod.mk.inj heq).1.symm

/-- The cells of all tiles. -/
theorem nodup_tiles (tiling : Tiling n) : (tiling.tiles.flatMap Tile.cells).Nodup :=
  List.nodup_flatMap.mpr ⟨fun r _ => nodup_cells r,
    tiling.disjoint.imp fun hdis _ hc hc' =>
      hdis _ _ ⟨Tile.mem_cells.mp hc, Tile.mem_cells.mp hc'⟩⟩

theorem mem_tiles (tiling : Tiling n) (i j : Fin n) :
    (i, j) ∈ tiling.tiles.flatMap Tile.cells := by
  obtain ⟨r, hr, hij⟩ := tiling.covers i j
  exact List.mem_flatMap.mpr ⟨r, hr, Tile.mem_cells.mpr hij⟩

theorem flatMap_get (tiling : Tiling n) :
    ((List.finRange tiling.tiles.length).flatMap fun k => (tiling.tiles.get k).cells) =
      tiling.tiles.flatMap Tile.cells := by
  conv_rhs => rw [← List.map_get_finRange tiling.tiles]
  rw [List.flatMap_map]

/-- The square, row by row. -/
def square (n : Nat) : List (Fin n × Fin n) :=
  (List.finRange n).flatMap fun i => (List.finRange n).map fun j => (i, j)

theorem loops_eq (a b : Vector n T) : loops a b = (square n).foldl (assign a) b := by
  unfold loops square
  rw [List.foldl_flatMap]
  simp only [List.foldl_map]

theorem nodup_square (n : Nat) : (square n).Nodup := by
  refine List.nodup_flatMap.mpr ⟨fun i _ => ?_, ?_⟩
  · exact (List.nodup_finRange n).map fun j j' h => (Prod.mk.inj h).2
  · refine (List.nodup_finRange n).imp fun hne => ?_
    intro c hc hc'
    obtain ⟨_, -, rfl⟩ := List.mem_map.mp hc
    obtain ⟨_, -, heq⟩ := List.mem_map.mp hc'
    exact hne (Prod.mk.inj heq).1.symm

theorem square_perm (tiling : Tiling n) :
    (square n).Perm ((List.finRange tiling.tiles.length).flatMap fun k =>
      (tiling.tiles.get k).cells) := by
  rw [flatMap_get]
  refine (List.perm_ext_iff_of_nodup (nodup_square n) (nodup_tiles tiling)).mpr fun c => ?_
  exact iff_of_true (by simp [square]) (mem_tiles tiling c.1 c.2)

/-! ## The assignments -/

theorem offset_inj {i j i' j' : Fin n} : offset i j = offset i' j' ↔ i = i' ∧ j = j' := by
  rw [offset, offset, finProdFinEquiv.injective.eq_iff, Prod.mk.injEq]

theorem matrix_assign (a b : Vector n T) (ij : Fin n × Fin n) (i j : Fin n) :
    matrix (assign a b ij) i j = if ij = (i, j) then matrix a j i else matrix b i j := by
  show Function.update b (offset ij.1 ij.2) (a (offset ij.2 ij.1)) (offset i j) = _
  split_ifs with h
  · rw [h, Function.update_self]
    rfl
  · rw [Function.update_of_ne]
    · rfl
    · exact fun heq => h (Prod.ext (offset_inj.mp heq).1.symm (offset_inj.mp heq).2.symm)

/-- **What some assignments do**, in any order. -/
theorem matrix_foldl (a b : Vector n T) (done : List (Fin n × Fin n)) (i j : Fin n) :
    matrix (done.foldl (assign a) b) i j =
      if (i, j) ∈ done then matrix a j i else matrix b i j := by
  induction done using List.reverseRecOn with
  | nil => rfl
  | append_singleton done ij ih =>
    rw [List.foldl_append]
    show matrix (assign a (done.foldl (assign a) b) ij) i j = _
    rw [matrix_assign, ih]
    simp only [List.mem_append, List.mem_singleton, eq_comm (a := (i, j))]
    by_cases hij : ij = (i, j) <;> simp [hij]

theorem matrix_injective : Function.Injective (matrix : Vector n T → _) := by
  intro b b' h
  funext c
  obtain ⟨⟨i, j⟩, rfl⟩ := finProdFinEquiv.surjective c
  exact congrFun (congrFun h i) j

theorem assign_comm (a b : Vector n T) (ij ij' : Fin n × Fin n) :
    assign a (assign a b ij) ij' = assign a (assign a b ij') ij := by
  apply matrix_injective
  funext i j
  simp only [matrix_assign]
  split_ifs <;> rfl

/-- **The transpose.** In every interleaving of the bodies no cell of `b` is written twice, a
written one has what is across of it in `a` and the others what they had; with turns enough for
every tile, `b` is what the plain loops make of it, the transpose of `a`. -/
theorem transposed (tiling : Tiling n) (a b : Vector n T) (is : List (Fin tiling.tiles.length)) :
    ((transpose tiling a b).after is).done.Nodup ∧
    (∀ i j, matrix ((transpose tiling a b).after is).memory i j =
      if (i, j) ∈ ((transpose tiling a b).after is).done then matrix a j i else matrix b i j) ∧
    ((∀ k, (tiling.tiles.get k).cells.length ≤ is.count k) →
      ((transpose tiling a b).after is).memory = loops a b ∧
        matrix ((transpose tiling a b).after is).memory = (matrix a).transpose) := by
  have hids := List.nodup_finRange tiling.tiles.length
  have hall : ∀ k, k ∈ List.finRange tiling.tiles.length := List.mem_finRange
  refine ⟨?_, fun i j => ?_, fun henough => ?_⟩
  · exact Workers.nodup_done hids hall (by rw [flatMap_get]; exact nodup_tiles tiling) b is
  · have hmem : ((transpose tiling a b).after is).memory =
        ((transpose tiling a b).after is).done.foldl (assign a) b := Workers.memory_eq b is
    rw [hmem, matrix_foldl]
  · have hplain : ((transpose tiling a b).after is).memory = loops a b := by
      rw [loops_eq]
      exact Workers.memory_eq_foldl hids hall (assign_comm a) b henough (square_perm tiling)
    refine ⟨hplain, ?_⟩
    rw [hplain, loops_eq]
    funext i j
    rw [matrix_foldl, if_pos (by simp [square])]
    rfl

/-- The right column and the left one. -/
def columns : Tiling 2 := wholeAndColumns.getLast (List.cons_ne_nil _ _)

/-- The body of the right column is overtaken, and has a turn left over. -/
theorem transposed_columns :
    ((transpose columns (fun c => c.val) fun _ => 0).after
        ([0, 1, 1, 0, 0] : List (Fin 2))).memory =
      loops (fun c => c.val) fun _ => 0 :=
  ((transposed columns (fun c => c.val) (fun _ => 0) ([0, 1, 1, 0, 0] : List (Fin 2))).2.2
    (by decide)).1

end LearnNotes.Matrix.Transpose
