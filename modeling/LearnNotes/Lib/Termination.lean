import Mathlib.Algebra.BigOperators.Group.Finset.Basic
import Mathlib.Data.Fintype.Basic
import Mathlib.Logic.Relation
import Mathlib.Tactic.Choose

/-!
# Steps without end

A step relation may leave several next states. `Terminates step s`: no run from `s` goes on for
ever. It follows from a measure that every step lowers (`terminates_of_measure`), and fails where a
property keeps providing a next state that has it too (`not_terminates_of_progress`). Where many
parties are measured and one of them moves, `sum_update` says what becomes of the sum.
-/

namespace Lib

universe u

variable {σ : Type u} {step : σ → σ → Prop} {P : σ → Prop} {s t : σ}

def Terminates (step : σ → σ → Prop) (s : σ) : Prop :=
  ¬ ∃ run : Nat → σ, run 0 = s ∧ ∀ n, step (run n) (run (n + 1))

/-- A state nothing follows. -/
def Final (step : σ → σ → Prop) (s : σ) : Prop := ∀ t, ¬ step s t

/-- What every step keeps holds of all that is reached. -/
theorem invariant_of_step (hstep : ∀ s t, P s → step s t → P t) (hs : P s)
    (h : Relation.ReflTransGen step s t) : P t := by
  induction h with
  | refl => exact hs
  | tail _ hlast ih => exact hstep _ _ ih hlast

/-- **A measure.** -/
theorem terminates_of_measure (μ : σ → Nat) (hstep : ∀ s t, P s → step s t → P t ∧ μ t < μ s)
    (hs : P s) : Terminates step s := by
  rintro ⟨run, rfl, hrun⟩
  have hlow : ∀ n, P (run n) ∧ μ (run n) + n ≤ μ (run 0) := by
    intro n
    induction n with
    | zero => exact ⟨hs, Nat.le_refl _⟩
    | succ n ih =>
      obtain ⟨hP, hlt⟩ := hstep _ _ ih.1 (hrun n)
      exact ⟨hP, by omega⟩
  have hend := (hlow (μ (run 0) + 1)).2
  omega

/-- **Progress without end.** -/
theorem not_terminates_of_progress (hstep : ∀ s, P s → ∃ t, step s t ∧ P t) (hs : P s) :
    ¬ Terminates step s := by
  have hnext : ∀ s : {s // P s}, ∃ t : {s // P s}, step s t := by
    rintro ⟨s, hs⟩
    obtain ⟨t, hst, ht⟩ := hstep s hs
    exact ⟨⟨t, ht⟩, hst⟩
  choose next hnext using hnext
  let run : Nat → {s // P s} := fun n => Nat.rec ⟨s, hs⟩ (fun _ => next) n
  intro hterm
  have hrun : ∀ n, step (run n).val (run (n + 1)).val := fun n => hnext (run n)
  exact hterm ⟨fun n => (run n).val, rfl, hrun⟩

/-- **One of many moves.** -/
theorem sum_update {ι α : Type*} [Fintype ι] [DecidableEq ι] (μ : α → Nat) (parties : ι → α) (i : ι)
    (a : α) :
    ∑ j, μ (Function.update parties i a j) + μ (parties i) = ∑ j, μ (parties j) + μ a := by
  have hold := Finset.add_sum_erase Finset.univ (fun j => μ (parties j)) (Finset.mem_univ i)
  have hnew := Finset.add_sum_erase Finset.univ (fun j => μ (Function.update parties i a j))
    (Finset.mem_univ i)
  have hsame : ∑ j ∈ Finset.univ.erase i, μ (Function.update parties i a j) =
      ∑ j ∈ Finset.univ.erase i, μ (parties j) :=
    Finset.sum_congr rfl fun j hj => by rw [Function.update_of_ne (Finset.ne_of_mem_erase hj)]
  rw [Function.update_self] at hnew
  omega

end Lib
