import Mathlib.Data.List.Perm.Basic

/-!
# Tables that fill from the front

An array of `cap` slots holds the elements of a list in its first slots and nothing in the
others: `pad cap l`. An element is added behind the last one and taken out by putting the last
one in its place (`swapRemove`), which keeps the elements together and moves at most one.
-/

namespace Lib

universe u

variable {α : Type u} {cap j k : Nat} {l : List α} {a b : α}

/-! ## Removal by the last element -/

/-- The element at `j` replaced by the last one, and the list one shorter. -/
def swapRemove (l : List α) (j : Nat) : List α :=
  match l.getLast? with
  | none => []
  | some a => (l.set j a).dropLast

theorem swapRemove_concat (hj : j ≤ l.length) : swapRemove (l ++ [a]) j = l.set j a := by
  unfold swapRemove
  rw [List.getLast?_concat]
  rcases Nat.lt_or_eq_of_le hj with h | rfl
  · simp [h]
  · simp [List.set_eq_of_length_le]

/-- Every list with an element at `j` has a last one. -/
theorem exists_concat (h : l[j]? = some b) : ∃ l' a, l = l' ++ [a] ∧ j ≤ l'.length := by
  obtain ⟨hj, -⟩ := List.getElem?_eq_some_iff.mp h
  rcases List.eq_nil_or_concat' l with rfl | ⟨l', a, rfl⟩
  · cases hj
  · rw [List.length_append, List.length_singleton] at hj
    exact ⟨l', a, rfl, Nat.le_of_lt_succ hj⟩

theorem length_swapRemove (h : l[j]? = some b) : (swapRemove l j).length = l.length - 1 := by
  obtain ⟨l', a, rfl, hj⟩ := exists_concat h
  rw [swapRemove_concat hj, List.length_set, List.length_append, List.length_singleton,
    Nat.add_sub_cancel]

/-- The elements are those of before, less the one removed. -/
theorem perm_swapRemove (h : l[j]? = some b) : (b :: swapRemove l j).Perm l := by
  obtain ⟨l', a, rfl, hj⟩ := exists_concat h
  rw [swapRemove_concat hj]
  rcases Nat.lt_or_eq_of_le hj with hlt | rfl
  · rw [List.getElem?_append_left hlt] at h
    obtain ⟨-, rfl⟩ := List.getElem?_eq_some_iff.mp h
    have hset : (l'.set j a).Perm (a :: l'.eraseIdx j) := List.set_perm_cons_eraseIdx hlt a
    have hback : (l'[j] :: l'.eraseIdx j).Perm l' := List.getElem_cons_eraseIdx_perm hlt
    calc (l'[j] :: l'.set j a).Perm (l'[j] :: a :: l'.eraseIdx j) := hset.cons _
      List.Perm _ (a :: l'[j] :: l'.eraseIdx j) := List.Perm.swap ..
      List.Perm _ (a :: l') := hback.cons _
      List.Perm _ (l' ++ [a]) := (List.perm_append_singleton a l').symm
  · rw [List.getElem?_concat_length, Option.some.injEq] at h
    subst h
    rw [List.set_eq_of_length_le (Nat.le_refl _)]
    exact (List.perm_append_singleton a l').symm

theorem nodup_swapRemove (h : l[j]? = some b) (hl : l.Nodup) : (swapRemove l j).Nodup :=
  ((perm_swapRemove h).nodup_iff.mpr hl).of_cons

theorem mem_swapRemove (h : l[j]? = some b) (hl : l.Nodup) :
    a ∈ swapRemove l j ↔ a ∈ l ∧ a ≠ b := by
  have hnodup := (perm_swapRemove h).nodup_iff.mpr hl
  rw [← (perm_swapRemove h).mem_iff, List.mem_cons]
  have hb : b ∉ swapRemove l j := (List.nodup_cons.mp hnodup).1
  constructor
  · exact fun ha => ⟨.inr ha, fun hab => hb (hab ▸ ha)⟩
  · rintro ⟨rfl | ha, hne⟩
    · exact absurd rfl hne
    · exact ha

/-- The last element moves to `j`, unless it is the one removed. -/
theorem getElem?_swapRemove_last (h : l[j]? = some b) (hk : l[k]? = some a)
    (hlast : k + 1 = l.length) (hne : a ≠ b) : (swapRemove l j)[j]? = some a := by
  obtain ⟨l', a', rfl, hj⟩ := exists_concat h
  rw [List.length_append, List.length_singleton, Nat.add_right_cancel_iff] at hlast
  subst hlast
  rw [List.getElem?_concat_length, Option.some.injEq] at hk
  subst hk
  rw [swapRemove_concat hj]
  rcases Nat.lt_or_eq_of_le hj with hlt | rfl
  · rw [List.getElem?_set_self hlt]
  · rw [List.getElem?_concat_length, Option.some.injEq] at h
    exact absurd h hne

/-- The other elements stay. -/
theorem getElem?_swapRemove_of_lt (h : l[j]? = some b) (hk : l[k]? = some a)
    (hlast : k + 1 < l.length) (hne : a ≠ b) : (swapRemove l j)[k]? = some a := by
  obtain ⟨l', a', rfl, hj⟩ := exists_concat h
  rw [List.length_append, List.length_singleton, Nat.add_lt_add_iff_right] at hlast
  have hjk : j ≠ k := by
    rintro rfl
    rw [h, Option.some.injEq] at hk
    exact hne hk.symm
  rw [swapRemove_concat hj, List.getElem?_set_ne hjk]
  rwa [List.getElem?_append_left hlast] at hk

/-! ## The array -/

/-- The elements of `l`, and nothing in the slots behind them. -/
def pad (cap : Nat) (l : List α) : List (Option α) :=
  l.map some ++ List.replicate (cap - l.length) none

theorem take_pad : (pad cap l).take l.length = l.map some := by
  rw [pad, ← List.length_map (f := some), List.take_left]

/-- What stands in slot `k`. -/
theorem join_getElem?_pad : (pad cap l)[k]?.join = l[k]? := by
  unfold pad
  rcases Nat.lt_or_ge k l.length with hk | hk
  · rw [List.getElem?_append_left (by rwa [List.length_map])]
    simp [hk]
  · rw [List.getElem?_append_right (by rwa [List.length_map]), List.getElem?_eq_none hk,
      List.getElem?_replicate]
    split_ifs <;> rfl

/-- An element put behind the last one. -/
theorem pad_concat (hl : l.length < cap) :
    pad cap (l ++ [a]) = (pad cap l).set l.length (some a) := by
  obtain ⟨n, hn⟩ : ∃ n, cap - l.length = n + 1 := ⟨cap - l.length - 1, by omega⟩
  have hn' : cap - (l ++ [a]).length = n := by
    rw [List.length_append, List.length_singleton]
    omega
  unfold pad
  rw [hn, hn', List.set_append_right _ _ (by simp)]
  simp [List.replicate_succ]

/-- The last element put in slot `j`, and its own slot cleared. -/
theorem pad_swapRemove (h : l[j]? = some b) (hl : l.length ≤ cap) :
    pad cap (swapRemove l j) =
      ((pad cap l).set j l[l.length - 1]?).set (l.length - 1) none := by
  obtain ⟨l', a, rfl, hj⟩ := exists_concat h
  rw [List.length_append, List.length_singleton] at hl
  rw [swapRemove_concat hj, List.length_append, List.length_singleton, Nat.add_sub_cancel,
    List.getElem?_concat_length]
  obtain ⟨n, hn⟩ : ∃ n, cap - l'.length = n + 1 := ⟨cap - l'.length - 1, by omega⟩
  have hn' : cap - (l' ++ [a]).length = n := by
    rw [List.length_append, List.length_singleton]
    omega
  unfold pad
  rw [List.length_set, hn, hn', List.map_append, List.map_set, List.append_assoc]
  rcases Nat.lt_or_eq_of_le hj with hlt | rfl
  · rw [List.set_append_left _ _ (by rwa [List.length_map]),
      List.set_append_right _ _ (by simp)]
    simp [List.replicate_succ]
  · rw [List.set_eq_of_length_le (Nat.le_of_eq (List.length_map some))]
    simp [List.replicate_succ]

end Lib
