import Mathlib.Data.List.Basic
import Mathlib.Logic.Function.Basic

/-!
# Blocks of memory

An `Arena` holds a block of cells under each key in use. `write` stores cells into a block from an
offset on, and only where they fit (`write_eq_some`). The block then holds the cells it was given
(`overwrite_take`, `overwrite_getElem?`) and before them what it held (`overwrite_take_of_le`); its
size stays (`HasSize.write`). `read` is given the cells of a part of a block.
-/

namespace Lib

universe u v

abbrev Arena (κ : Type u) (α : Type v) := κ → Option (List α)

namespace Arena

variable {κ : Type u} {α : Type v}

/-- `cells` in the place of what stood from `off` on. -/
def overwrite (block : List α) (off : Nat) (cells : List α) : List α :=
  block.take off ++ cells ++ block.drop (off + cells.length)

/-- The `len` cells of the block under `k` from `off` on, all of them inside it. -/
def read (m : Arena κ α) (k : κ) (off len : Nat) : Option (List α) :=
  match m k with
  | none => none
  | some block => if off + len ≤ block.length then some ((block.drop off).take len) else none

theorem read_eq_some {m : Arena κ α} {k : κ} {off len : Nat} {block : List α}
    (hb : m k = some block) (h : off + len ≤ block.length) :
    m.read k off len = some ((block.drop off).take len) := by
  unfold read
  rw [hb]
  exact if_pos h

/-- A block of `n` cells under `k`. -/
def HasSize (m : Arena κ α) (k : κ) (n : Nat) : Prop := ∃ block, m k = some block ∧ block.length = n

section

variable {block cells : List α} {off : Nat}

theorem length_overwrite (h : off + cells.length ≤ block.length) :
    (overwrite block off cells).length = block.length := by
  unfold overwrite
  simp only [List.length_append, List.length_take, List.length_drop]
  omega

theorem overwrite_take (h : off ≤ block.length) :
    (overwrite block off cells).take (off + cells.length) = block.take off ++ cells := by
  have hlen : (block.take off ++ cells).length = off + cells.length := by
    simp only [List.length_append, List.length_take]
    omega
  unfold overwrite
  rw [← hlen, List.take_left]

theorem overwrite_take_of_le {n : Nat} (hn : n ≤ off) (h : off ≤ block.length) :
    (overwrite block off cells).take n = block.take n := by
  have hlen : n ≤ (block.take off).length := by
    rw [List.length_take]
    omega
  unfold overwrite
  rw [List.append_assoc, List.take_append_of_le_length hlen, List.take_take, Nat.min_eq_left hn]

theorem overwrite_getElem? {i : Nat} (hi : i < cells.length) (h : off ≤ block.length) :
    (overwrite block off cells)[off + i]? = cells[i]? := by
  have hoff : (block.take off).length = off := List.length_take_of_le h
  unfold overwrite
  rw [List.append_assoc, List.getElem?_append_right (by omega), hoff, Nat.add_sub_cancel_left,
    List.getElem?_append_left hi]

end

variable [DecidableEq κ]

/-- A write outside the block, or to no block, has no result. -/
def write (m : Arena κ α) (k : κ) (off : Nat) (cells : List α) : Option (Arena κ α) :=
  match m k with
  | none => none
  | some block =>
    if off + cells.length ≤ block.length then
      some (Function.update m k (some (overwrite block off cells)))
    else none

variable {m m' : Arena κ α} {j k : κ} {off n : Nat} {block cells : List α}

theorem write_eq_some (hb : m k = some block) (h : off + cells.length ≤ block.length) :
    m.write k off cells = some (Function.update m k (some (overwrite block off cells))) := by
  unfold write
  rw [hb]
  exact if_pos h

theorem of_write (h : m.write k off cells = some m') :
    ∃ block, m k = some block ∧ off + cells.length ≤ block.length ∧
      m' = Function.update m k (some (overwrite block off cells)) := by
  unfold write at h
  cases hb : m k with
  | none =>
    rw [hb] at h
    cases h
  | some block =>
    rw [hb] at h
    by_cases hfit : off + cells.length ≤ block.length
    · exact ⟨block, rfl, hfit, Option.some.inj (h.symm.trans (if_pos hfit))⟩
    · cases h.symm.trans (if_neg hfit)

theorem HasSize.update_of_ne (h : m.HasSize k n) (hjk : k ≠ j) (b : Option (List α)) :
    HasSize (Function.update m j b) k n := by
  obtain ⟨block, hb, hlen⟩ := h
  exact ⟨block, by rw [Function.update_of_ne hjk, hb], hlen⟩

theorem HasSize.write (h : m.HasSize k n) (hw : m.write j off cells = some m') :
    m'.HasSize k n := by
  obtain ⟨block, hb, hfit, rfl⟩ := of_write hw
  by_cases hjk : k = j
  · subst hjk
    obtain ⟨block', hb', hlen⟩ := h
    obtain rfl : block = block' := Option.some.inj (hb.symm.trans hb')
    exact ⟨_, Function.update_self .., (length_overwrite hfit).trans hlen⟩
  · exact h.update_of_ne hjk _

end Arena

end Lib
