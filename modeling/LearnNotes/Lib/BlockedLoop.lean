import Mathlib.Data.Nat.Init

/-!
# Loops over blocks of indices

`for (; i + last < n; i += last + 1)` takes `last + 1` indices a round and leaves the rest to the
code behind it. A round may fail. Where the rounds lead from `g j` to `g (j + last + 1)`, the loop
leads to `g` of the index it stops at: `blocked_eq`.
-/

namespace Lib

variable {σ : Type} {body : Nat → σ → Option σ} {last n i : Nat}

/-- The index the loop stops at, and the state. -/
def blocked (last n : Nat) (body : Nat → σ → Option σ) (i : Nat) (s : σ) : Option (Nat × σ) :=
  if i + last < n then
    match body i s with
    | some s => blocked last n body (i + (last + 1)) s
    | none => none
  else some (i, s)
termination_by n - i

/-- The last index that is a whole number of blocks from `i`. -/
def stop (last n i : Nat) : Nat := n - (n - i) % (last + 1)

theorem stop_of_lt (h : i + last < n) : stop last n (i + (last + 1)) = stop last n i := by
  have hsub : n - (i + (last + 1)) = n - i - (last + 1) := by omega
  have hle : last + 1 ≤ n - i := by omega
  rw [stop, stop, hsub, ← Nat.mod_eq_sub_mod hle]

theorem stop_of_le (hi : i ≤ n) (h : n ≤ i + last) : stop last n i = i := by
  have hlt : n - i < last + 1 := by omega
  rw [stop, Nat.mod_eq_of_lt hlt]
  omega

theorem stop_le : stop last n i ≤ n := Nat.sub_le ..

/-- A loop of single steps runs to the end. -/
@[simp] theorem stop_zero : stop 0 n i = n := by
  rw [stop, Nat.mod_one, Nat.sub_zero]

/-- **The loop to its end.** -/
theorem blocked_eq (last : Nat) (g : Nat → σ) (hi : i ≤ n)
    (hbody : ∀ j, i ≤ j → j + last < n → body j (g j) = some (g (j + (last + 1)))) :
    blocked last n body i (g i) = some (stop last n i, g (stop last n i)) := by
  induction hk : n - i using Nat.strong_induction_on generalizing i with
  | _ k ih =>
    rw [blocked]
    by_cases h : i + last < n
    · rw [if_pos h, hbody i (Nat.le_refl i) h, ← stop_of_lt h]
      exact ih (n - (i + (last + 1))) (by omega) (by omega) (fun j hj => hbody j (by omega)) rfl
    · rw [if_neg h, stop_of_le hi (Nat.le_of_not_lt h)]

end Lib
