import Mathlib.Data.Prod.Basic

/-!
# Operators that compare

A type may come with an `==` and a `!=` of its own, which are there to compare a key. `IsEquality`
is what is asked of the two on three values; it holds of all where `==` is equality of the keys
(`isEquality_of_iff`). `Apart f g` relates values that differ in `f` and agree in `g`. It relates
no value to itself, and is equality of both on no more than the pairs that differ in `g`:
`apart_iff_key`.
-/

namespace Lib.Comparison

variable {α ι κ : Type}

/-- `==` is an equivalence, and equality of the keys, and `!=` its negation. -/
structure IsEquality (eq ne : α → α → Bool) (key : α → κ) (a b c : α) : Prop where
  refl : eq a a = true
  symm : eq a b = true → eq b a = true
  trans : eq a b = true → eq b c = true → eq a c = true
  same : eq a b = true ↔ key a = key b
  negated : ne a b = !eq a b

theorem isEquality_of_iff {eq ne : α → α → Bool} {key : α → κ}
    (heq : ∀ a b, eq a b = true ↔ key a = key b) (hne : ∀ a b, ne a b = !eq a b) (a b c : α) :
    IsEquality eq ne key a b c where
  refl := (heq a a).mpr rfl
  symm h := (heq b a).mpr ((heq a b).mp h).symm
  trans h h' := (heq a c).mpr (((heq a b).mp h).trans ((heq b c).mp h'))
  same := heq a b
  negated := hne a b

/-! ## Values apart -/

variable {f : α → ι} {g : α → κ} {a b c : α}

variable (f g) in
/-- The values differ in `f` and agree in `g`. -/
def Apart (a b : α) : Prop := f a ≠ f b ∧ g a = g b

theorem not_apart_self (a : α) : ¬ Apart f g a a := fun h => h.1 rfl

theorem Apart.symm (h : Apart f g a b) : Apart f g b a := ⟨h.1.symm, h.2.symm⟩

/-- Two steps lead apart, unless the second undoes the first. -/
theorem apart_trans_iff :
    (Apart f g a b → Apart f g b c → Apart f g a c) ↔
      ¬ (Apart f g a b ∧ Apart f g b c ∧ f a = f c) := by
  constructor
  · rintro h ⟨hab, hbc, hac⟩
    exact (h hab hbc).1 hac
  · intro h hab hbc
    exact ⟨fun hac => h ⟨hab, hbc, hac⟩, hab.2.trans hbc.2⟩

/-- Equality in both is something else wherever the values agree in `g`. -/
theorem apart_iff_key : (Apart f g a b ↔ (f a, g a) = (f b, g b)) ↔ g a ≠ g b := by
  rw [Prod.mk.injEq]
  constructor
  · intro h hg
    by_cases hf : f a = f b
    · exact (h.mpr ⟨hf, hg⟩).1 hf
    · exact hf (h.mp ⟨hf, hg⟩).1
  · intro hg
    exact iff_of_false (fun h => hg h.2) (fun h => hg h.2)

end Lib.Comparison
