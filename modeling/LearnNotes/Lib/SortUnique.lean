import Mathlib

/-!
# Sorting without repetition

`sort` followed by `unique`: the members of a list, each once, in increasing order. A search from
the front of such a list stops at the least member it accepts.
-/

namespace Lib

namespace SortUnique

variable {α β : Type*}

/-- Of equal neighbours the first stays. -/
def unique [DecidableEq α] : List α → List α
  | [] => []
  | [a] => [a]
  | a :: b :: l => if a = b then unique (b :: l) else a :: unique (b :: l)

def sortUnique [LinearOrder α] (l : List α) : List α :=
  unique (l.mergeSort fun a b => decide (a ≤ b))

theorem mem_unique [DecidableEq α] {a : α} {l : List α} : a ∈ unique l ↔ a ∈ l := by
  induction l with
  | nil => rfl
  | cons b l ih =>
    cases l with
    | nil => rfl
    | cons c l =>
      by_cases hbc : b = c
      · rw [unique, if_pos hbc, ih, hbc]
        simp
      · rw [unique, if_neg hbc, List.mem_cons, ih, ← List.mem_cons]

variable [LinearOrder α] {a : α} {l : List α}

/-- In a sorted list the neighbours that stay increase. -/
theorem pairwise_unique (h : l.Pairwise (· ≤ ·)) : (unique l).Pairwise (· < ·) := by
  induction l with
  | nil => exact List.Pairwise.nil
  | cons b l ih =>
    obtain ⟨hb, htail⟩ := List.pairwise_cons.mp h
    cases l with
    | nil => exact List.pairwise_singleton _ b
    | cons c l =>
      by_cases hbc : b = c
      · rw [unique, if_pos hbc]
        exact ih htail
      · rw [unique, if_neg hbc]
        refine List.pairwise_cons.mpr ⟨fun d hd => ?_, ih htail⟩
        have hlt : b < c := lt_of_le_of_ne (hb c List.mem_cons_self) hbc
        rcases List.mem_cons.mp (mem_unique.mp hd) with rfl | hd
        · exact hlt
        · exact lt_of_lt_of_le hlt ((List.pairwise_cons.mp htail).1 d hd)

theorem mem_sortUnique : a ∈ sortUnique l ↔ a ∈ l := by
  rw [sortUnique, mem_unique, List.mem_mergeSort]

theorem pairwise_sortUnique (l : List α) : (sortUnique l).Pairwise (· < ·) := by
  refine pairwise_unique ?_
  exact List.pairwise_mergeSort' (· ≤ ·) l

end SortUnique

/-- **The least that is accepted**, by the order the list is in. -/
theorem findSome?_least {α β : Type*} {R : α → α → Prop} {l : List α} (h : l.Pairwise R)
    {f : α → Option β} {b : β} (hb : l.findSome? f = some b) :
    ∃ a ∈ l, f a = some b ∧ ∀ a' ∈ l, f a' ≠ none → a' = a ∨ R a a' := by
  obtain ⟨pre, a, post, rfl, ha, hpre⟩ := List.findSome?_eq_some_iff.mp hb
  refine ⟨a, by simp, ha, fun a' hmem hsome => ?_⟩
  rcases List.mem_append.mp hmem with hmem | hmem
  · exact absurd (hpre a' hmem) hsome
  · rcases List.mem_cons.mp hmem with rfl | hmem
    · exact .inl rfl
    · have hpost := (List.pairwise_append.mp h).2.1
      exact .inr ((List.pairwise_cons.mp hpost).1 a' hmem)

end Lib
