import Mathlib.Data.List.Flatten
import Mathlib.Data.List.Perm.Subperm

/-!
# Blocks one behind another

Each key has a block of elements, and `order` lists the keys whose blocks are laid out, one
behind the other: `layout block order`. `start block order k` is where the block of `k` begins.
The blocks do not overlap and leave no gap, and a key that comes in last begins at the end.
-/

namespace Lib.Blocks

universe u v

variable {κ : Type u} {α : Type v} [DecidableEq κ] (block : κ → List α)

def layout (order : List κ) : List α := order.flatMap block

/-- Where the block of `k` begins. -/
def start : List κ → κ → Nat
  | [], _ => 0
  | j :: order, k => if j = k then 0 else (block j).length + start order k

variable {block} {order order' : List κ} {k k' : κ} {i i' c : Nat}

omit [DecidableEq κ] in
theorem layout_cons (k : κ) (order : List κ) :
    layout block (k :: order) = block k ++ layout block order := List.flatMap_cons ..

omit [DecidableEq κ] in
theorem layout_concat (order : List κ) (k : κ) :
    layout block (order ++ [k]) = layout block order ++ block k := by
  unfold layout
  rw [List.flatMap_append, List.flatMap_singleton]

theorem start_cons_self (k : κ) (order : List κ) : start block (k :: order) k = 0 := if_pos rfl

theorem start_cons_of_ne (h : k' ≠ k) (order : List κ) :
    start block (k' :: order) k = (block k').length + start block order k := if_neg h

/-! ## A key that comes in last -/

theorem start_concat_of_mem (h : k ∈ order) (k' : κ) :
    start block (order ++ [k']) k = start block order k := by
  induction order with
  | nil => cases h
  | cons j order ih =>
    rw [List.cons_append]
    by_cases hj : j = k
    · rw [hj, start_cons_self, start_cons_self]
    · rw [start_cons_of_ne hj, start_cons_of_ne hj, ih (List.mem_of_ne_of_mem (Ne.symm hj) h)]

theorem start_concat_self (h : k ∉ order) :
    start block (order ++ [k]) k = (layout block order).length := by
  induction order with
  | nil => exact start_cons_self k []
  | cons j order ih =>
    obtain ⟨hj, h⟩ := not_or.mp (mt List.mem_cons.mpr h)
    rw [List.cons_append, start_cons_of_ne (Ne.symm hj), ih h, layout_cons, List.length_append]

/-! ## Where a block lies -/

theorem start_add_lt (h : k ∈ order) (hi : i < (block k).length) :
    start block order k + i < (layout block order).length := by
  induction order with
  | nil => cases h
  | cons j order ih =>
    rw [layout_cons, List.length_append]
    by_cases hj : j = k
    · subst hj
      rw [start_cons_self]
      omega
    · rw [start_cons_of_ne hj]
      have := ih (List.mem_of_ne_of_mem (Ne.symm hj) h)
      omega

theorem getElem?_layout (h : k ∈ order) (hi : i < (block k).length) :
    (layout block order)[start block order k + i]? = (block k)[i]? := by
  induction order with
  | nil => cases h
  | cons j order ih =>
    rw [layout_cons]
    by_cases hj : j = k
    · subst hj
      rw [start_cons_self, Nat.zero_add, List.getElem?_append_left hi]
    · rw [start_cons_of_ne hj, Nat.add_assoc, List.getElem?_append_right (Nat.le_add_right ..),
        Nat.add_sub_cancel_left]
      exact ih (List.mem_of_ne_of_mem (Ne.symm hj) h)

/-- Two blocks share no place. -/
theorem start_inj (hk : k ∈ order) (hk' : k' ∈ order) (hi : i < (block k).length)
    (hi' : i' < (block k').length)
    (h : start block order k + i = start block order k' + i') : k = k' ∧ i = i' := by
  induction order with
  | nil => cases hk
  | cons j order ih =>
    by_cases hj : j = k
    · by_cases hj' : j = k'
      · subst hj hj'
        exact ⟨rfl, Nat.add_left_cancel h⟩
      · subst hj
        rw [start_cons_self, start_cons_of_ne hj'] at h
        omega
    · by_cases hj' : j = k'
      · subst hj'
        rw [start_cons_self, start_cons_of_ne hj] at h
        omega
      · rw [start_cons_of_ne hj, start_cons_of_ne hj'] at h
        exact ih (List.mem_of_ne_of_mem (Ne.symm hj) hk) (List.mem_of_ne_of_mem (Ne.symm hj') hk')
          (by omega)

/-- Every place is in a block. -/
theorem exists_start (hnd : order.Nodup) (h : c < (layout block order).length) :
    ∃ k ∈ order, ∃ i < (block k).length, c = start block order k + i := by
  induction order generalizing c with
  | nil => cases h
  | cons j order ih =>
    obtain ⟨hj, hnd⟩ := List.nodup_cons.mp hnd
    rw [layout_cons, List.length_append] at h
    rcases Nat.lt_or_ge c (block j).length with hlt | hge
    · exact ⟨j, List.mem_cons_self .., c, hlt, by rw [start_cons_self, Nat.zero_add]⟩
    · obtain ⟨k, hk, i, hi, hc⟩ := ih hnd (c := c - (block j).length) (by omega)
      have hjk : j ≠ k := fun hjk => hj (hjk ▸ hk)
      refine ⟨k, List.mem_cons_of_mem j hk, i, hi, ?_⟩
      rw [start_cons_of_ne hjk]
      omega

/-! ## All the blocks -/

omit [DecidableEq κ] in
theorem layout_perm (h : order.Perm order') :
    (layout block order).Perm (layout block order') := h.flatMap_right block

omit [DecidableEq κ] in
theorem length_layout_le (hnd : order.Nodup) (h : order ⊆ order') :
    (layout block order).length ≤ (layout block order').length := by
  obtain ⟨l, hperm, hsub⟩ := hnd.subperm h
  calc (layout block order).length = (layout block l).length := (layout_perm hperm).symm.length_eq
    _ ≤ (layout block order').length := (hsub.flatMap block).length_le

end Lib.Blocks
