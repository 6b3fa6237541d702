import Mathlib.Tactic.Ring

/-!
# Rows with gaps

A block of `h` rows of `row` elements without gaps, and a reader that takes a row to start every
`stride` elements. It finds each element in its place, and stays inside of the block, exactly where
the strides are the rows or there is only one row.
-/

namespace Lib.Rows

variable {h row stride : Nat}

theorem in_place_iff (hrow : 0 < row) :
    (∀ y < h, ∀ x < row, y * stride + x = y * row + x) ↔ stride = row ∨ h ≤ 1 := by
  constructor
  · intro heq
    by_contra hne
    obtain ⟨hs, hh⟩ := not_or.mp hne
    have := heq 1 (by omega) 0 hrow
    omega
  · rintro (rfl | hh) y hy x -
    · rfl
    · obtain rfl : y = 0 := by omega
      rw [Nat.zero_mul, Nat.zero_mul]

theorem inside_iff (hrow : 0 < row) (hle : row ≤ stride) :
    (∀ y < h, ∀ x < row, y * stride + x < h * row) ↔ stride = row ∨ h ≤ 1 := by
  constructor
  · intro hin
    by_contra hne
    obtain ⟨hs, hh⟩ := not_or.mp hne
    obtain ⟨k, rfl⟩ : ∃ k, h = k + 2 := ⟨h - 2, by omega⟩
    -- the last element of the last row
    have hlast := hin (k + 1) (by omega) (row - 1) (by omega)
    have hgap : (k + 1) * (row + 1) ≤ (k + 1) * stride := Nat.mul_le_mul_left _ (by omega)
    have hrows : (k + 2) * row = (k + 1) * row + row := by ring
    rw [Nat.mul_add, Nat.mul_one] at hgap
    omega
  · rintro (rfl | hh) y hy x hx
    · have hnext : (y + 1) * stride ≤ h * stride := Nat.mul_le_mul_right _ hy
      rw [Nat.add_mul, Nat.one_mul] at hnext
      omega
    · obtain rfl : y = 0 := by omega
      obtain rfl : h = 1 := by omega
      rwa [Nat.zero_mul, Nat.zero_add, Nat.one_mul]

/-- An element of a row of groups of `n` is one of a group. -/
theorem forall_groups {n w : Nat} {P : Nat → Prop} :
    (∀ i < w * n, P i) ↔ ∀ x < w, ∀ c < n, P (x * n + c) := by
  constructor
  · intro hP x hx c hc
    refine hP _ ?_
    have hnext : (x + 1) * n ≤ w * n := Nat.mul_le_mul_right _ hx
    rw [Nat.add_mul, Nat.one_mul] at hnext
    omega
  · intro hP i hi
    have hn : 0 < n := Nat.pos_of_ne_zero fun h0 => by rw [h0] at hi; omega
    have hx : i / n < w := Nat.div_lt_of_lt_mul (by rwa [Nat.mul_comm])
    have := hP (i / n) hx (i % n) (Nat.mod_lt _ hn)
    rwa [Nat.mul_comm, Nat.div_add_mod] at this

end Lib.Rows
