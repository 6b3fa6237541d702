import Mathlib.Data.Finset.Card
import Mathlib.Data.Fintype.Defs

/-!
# Readers and writers

Who holds a readers-writer lock: each of the threads has no part in it, a shared one, or the
exclusive one. `Exclusion` says that whoever holds it exclusively is alone. The lemmas say what
becomes of it, and of the number of shared holders, when one thread's part changes.
-/

namespace Lib.ReadersWriters

universe u

inductive Role where
  | none
  | shared
  | exclusive
  deriving DecidableEq, Repr

variable {ι : Type u}

/-- An exclusive holder is the only holder. -/
def Exclusion (r : ι → Role) : Prop := ∀ i, r i = .exclusive → ∀ j, j ≠ i → r j = .none

instance [Fintype ι] [DecidableEq ι] (r : ι → Role) : Decidable (Exclusion r) :=
  inferInstanceAs (Decidable (∀ i, r i = .exclusive → ∀ j, j ≠ i → r j = .none))

/-- The shared holders. -/
def sharers [Fintype ι] (r : ι → Role) : Finset ι := Finset.univ.filter (r · = .shared)

variable [DecidableEq ι] {r : ι → Role} {i : ι} {a : Role}

/-! ## Exclusion -/

theorem Exclusion.release (h : Exclusion r) (i : ι) : Exclusion (Function.update r i .none) := by
  intro j hj k hk
  have hji : j ≠ i := by
    rintro rfl
    rw [Function.update_self] at hj
    cases hj
  rw [Function.update_of_ne hji] at hj
  by_cases hki : k = i
  · rw [hki, Function.update_self]
  · rw [Function.update_of_ne hki]
    exact h j hj k hk

/-- A thread may take the lock for itself when nobody holds it. -/
theorem exclusion_exclusive_iff (hi : r i = .none) :
    Exclusion (Function.update r i .exclusive) ↔ ∀ j, r j = .none := by
  constructor
  · intro h j
    by_cases hj : j = i
    · rw [hj]
      exact hi
    · have := h i (Function.update_self ..) j hj
      rwa [Function.update_of_ne hj] at this
  · intro h j hj k hk
    have hji : j = i := by
      by_contra hji
      rw [Function.update_of_ne hji, h j] at hj
      cases hj
    rw [Function.update_of_ne (hji ▸ hk)]
    exact h k

/-- A thread may share the lock when nobody holds it exclusively. -/
theorem exclusion_shared_iff (hi : r i = .none) :
    Exclusion (Function.update r i .shared) ↔ ∀ j, r j ≠ .exclusive := by
  constructor
  · intro h' j hj
    have hji : j ≠ i := by
      rintro rfl
      rw [hi] at hj
      cases hj
    have := h' j (by rwa [Function.update_of_ne hji]) i (Ne.symm hji)
    rw [Function.update_self] at this
    cases this
  · intro hnone j hj
    by_cases hji : j = i
    · rw [hji, Function.update_self] at hj
      cases hj
    · rw [Function.update_of_ne hji] at hj
      exact absurd hj (hnone j)

/-! ## The shared holders -/

variable [Fintype ι]

omit [DecidableEq ι] in
theorem mem_sharers : i ∈ sharers r ↔ r i = .shared := by
  simp [sharers]

theorem card_sharers_enter (hi : r i ≠ .shared) :
    (sharers (Function.update r i .shared)).card = (sharers r).card + 1 := by
  have hinsert : sharers (Function.update r i .shared) = insert i (sharers r) := by
    ext j
    rw [Finset.mem_insert, mem_sharers, mem_sharers]
    by_cases hj : j = i
    · simp [hj]
    · simp [hj]
  rw [hinsert, Finset.card_insert_of_notMem (mt mem_sharers.mp hi)]

theorem card_sharers_leave (hi : r i = .shared) (ha : a ≠ .shared) :
    (sharers (Function.update r i a)).card + 1 = (sharers r).card := by
  have herase : sharers (Function.update r i a) = (sharers r).erase i := by
    ext j
    rw [Finset.mem_erase, mem_sharers, mem_sharers]
    by_cases hj : j = i
    · simp [hj, ha]
    · simp [hj]
  rw [herase, Finset.card_erase_add_one (mem_sharers.mpr hi)]

theorem sharers_keep (hi : r i ≠ .shared) (ha : a ≠ .shared) :
    sharers (Function.update r i a) = sharers r := by
  ext j
  rw [mem_sharers, mem_sharers]
  by_cases hj : j = i
  · simp [hj, hi, ha]
  · simp [hj]

end Lib.ReadersWriters
