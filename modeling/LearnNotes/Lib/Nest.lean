import Mathlib.Algebra.BigOperators.Fin
import Mathlib.Algebra.BigOperators.Intervals

/-!
# Loops over shared index variables

A nest of loops `for (x = 0; x < n; x++)` whose index variables are global, around a statement
that adds to an accumulator. `Adds n inner body E`: `body` changes the variables `inner` only and
adds `E`, read off the others. A loop around it adds the sum over its own variable
(`Adds.forLoop`), so that a nest adds the sum over all of them, the outermost first (`nest_adds`).
The order of the loops does not matter: `sumOver_perm`.
-/

namespace Lib.Nest

variable {V M : Type}

/-- The index variables and the accumulator. -/
structure State (V M : Type) where
  index : V → Nat
  acc : M

variable [DecidableEq V]

namespace State

def set (x : V) (t : Nat) (s : State V M) : State V M :=
  { s with index := Function.update s.index x t }

@[simp] theorem acc_set (x : V) (t : Nat) (s : State V M) : (s.set x t).acc = s.acc := rfl

@[simp] theorem index_set (x : V) (t : Nat) (s : State V M) :
    (s.set x t).index = Function.update s.index x t := rfl

end State

/-- `for (; x < n; x++) body`, with `fuel` tests of the condition to go. -/
def rest (n : Nat) (x : V) (body : State V M → Option (State V M)) :
    (fuel : Nat) → State V M → Option (State V M)
  | 0, _ => none
  | fuel + 1, s =>
    if s.index x < n then
      match body s with
      | some s => rest n x body fuel (s.set x (s.index x + 1))
      | none => none
    else some s

/-- `for (x = 0; x < n; x++) body`. -/
def forLoop (n fuel : Nat) (x : V) (body : State V M → Option (State V M)) (s : State V M) :
    Option (State V M) :=
  rest n x body fuel (s.set x 0)

variable [AddCommMonoid M] {n fuel : Nat} {x : V} {inner : Set V}
  {body : State V M → Option (State V M)} {E : (V → Nat) → M}

omit [DecidableEq V] in
variable (n inner body E) in
/-- Where the variables around it are below `n`, `body` adds `E` of them. -/
structure Adds : Prop where
  run : ∀ s : State V M, (∀ v ∉ inner, s.index v < n) →
    ∃ s', body s = some s' ∧ (∀ v ∉ inner, s'.index v = s.index v) ∧ s'.acc = s.acc + E s.index
  reads : ∀ w w' : V → Nat, (∀ v ∉ inner, w v = w' v) → E w = E w'

/-- Variables that agree but for `x` agree once `x` is set. -/
theorem update_agree {w w' : V → Nat} (hw : ∀ v ∉ insert x inner, w v = w' v) (u : Nat) :
    ∀ v ∉ inner, Function.update w x u v = Function.update w' x u v := by
  intro v hv
  by_cases hvx : v = x
  · rw [hvx, Function.update_self, Function.update_self]
  · rw [Function.update_of_ne hvx, Function.update_of_ne hvx]
    exact hw v fun hmem => hmem.elim hvx hv

/-- The rounds from `t` on. -/
theorem Adds.rest (h : Adds n inner body E) (hx : x ∉ inner) (s : State V M)
    (hs : ∀ v ∉ insert x inner, s.index v < n) {t : Nat} (ht : s.index x = t)
    (hfuel : n - t < fuel) :
    ∃ s', rest n x body fuel s = some s' ∧ (∀ v ∉ insert x inner, s'.index v = s.index v) ∧
      s'.acc = s.acc + ∑ u ∈ Finset.Ico t n, E (Function.update s.index x u) := by
  induction fuel generalizing s t with
  | zero => omega
  | succ fuel ih =>
    rw [Nest.rest]
    by_cases hlt : s.index x < n
    · have hbound : ∀ v ∉ inner, s.index v < n := by
        intro v hv
        by_cases hvx : v = x
        · rw [hvx]
          exact hlt
        · exact hs v fun hmem => hmem.elim hvx hv
      obtain ⟨s', hrun, hkeep, hacc⟩ := h.run s hbound
      have hkeepx : ∀ v ∉ insert x inner, (s'.set x (s'.index x + 1)).index v = s.index v := by
        intro v hv
        have hvx : v ≠ x := fun hvx => hv (.inl hvx)
        rw [State.index_set, Function.update_of_ne hvx]
        exact hkeep v fun hmem => hv (.inr hmem)
      have hnext : (s'.set x (s'.index x + 1)).index x = t + 1 := by
        rw [State.index_set, Function.update_self, hkeep x hx, ht]
      obtain ⟨s'', hrun', hkeep', hacc'⟩ := ih (s'.set x (s'.index x + 1))
        (fun v hv => by rw [hkeepx v hv]; exact hs v hv) hnext (by omega)
      rw [if_pos hlt, hrun]
      refine ⟨s'', hrun', fun v hv => (hkeep' v hv).trans (hkeepx v hv), ?_⟩
      -- the inner loops left their own variables anywhere, which `E` does not read
      have hE : ∀ u, E (Function.update (s'.set x (s'.index x + 1)).index x u) =
          E (Function.update s.index x u) :=
        fun u => h.reads _ _ (update_agree hkeepx u)
      have hself : E s.index = E (Function.update s.index x t) := by
        rw [← ht, Function.update_eq_self]
      rw [hacc', State.acc_set, hacc, Finset.sum_congr rfl fun u _ => hE u, hself, add_assoc,
        ← Finset.sum_eq_sum_Ico_succ_bot (by omega)
          (fun u => E (Function.update s.index x u))]
    · rw [if_neg hlt, Finset.Ico_eq_empty (by omega), Finset.sum_empty]
      exact ⟨s, rfl, fun v _ => rfl, (add_zero _).symm⟩

/-- **A loop adds the sum over its variable**, and ends. -/
theorem Adds.forLoop (h : Adds n inner body E) (hx : x ∉ inner) (hfuel : n < fuel) :
    Adds n (insert x inner) (forLoop n fuel x body)
      fun w => ∑ t : Fin n, E (Function.update w x t) where
  run s hs := by
    have hkeep : ∀ v ∉ insert x inner, (s.set x 0).index v = s.index v := by
      intro v hv
      rw [State.index_set, Function.update_of_ne fun hvx => hv (.inl hvx)]
    obtain ⟨s', hrun, hkeep', hacc⟩ := h.rest hx (s.set x 0)
      (fun v hv => by rw [hkeep v hv]; exact hs v hv) (t := 0) (Function.update_self ..) hfuel
    refine ⟨s', hrun, fun v hv => (hkeep' v hv).trans (hkeep v hv), ?_⟩
    rw [hacc, State.acc_set, State.index_set, ← Finset.range_eq_Ico,
      Finset.sum_range fun u => E (Function.update (Function.update s.index x 0) x u)]
    simp only [Function.update_idem]
  reads w w' hw := by
    apply Finset.sum_congr rfl
    intro t _
    exact h.reads _ _ (update_agree hw t)

/-! ## Nests -/

omit [AddCommMonoid M] in
variable (n fuel) in
/-- The loops over `xs`, the first outermost. -/
def nest (body : State V M → Option (State V M)) : List V → State V M → Option (State V M)
  | [] => body
  | x :: xs => forLoop n fuel x (nest body xs)

variable (n) in
/-- The sum over the variables `xs`. -/
def sumOver (E : (V → Nat) → M) : List V → (V → Nat) → M
  | [] => E
  | x :: xs => fun w => ∑ t : Fin n, sumOver E xs (Function.update w x t)

variable {xs ys : List V}

/-- **What a nest of loops adds.** -/
theorem nest_adds (h : Adds n ∅ body E) (hxs : xs.Nodup) (hfuel : n < fuel) :
    Adds n {v | v ∈ xs} (nest n fuel body xs) (sumOver n E xs) := by
  induction xs with
  | nil => simpa [nest, sumOver] using h
  | cons x xs ih =>
    obtain ⟨hx, hxs⟩ := List.nodup_cons.mp hxs
    have hset : {v | v ∈ x :: xs} = insert x {v | v ∈ xs} := by
      ext v
      simp
    rw [hset]
    exact (ih hxs).forLoop hx hfuel

/-- Loops over different variables may be taken in any order. -/
theorem sumOver_perm (h : xs.Perm ys) (hxs : xs.Nodup) : sumOver n E xs = sumOver n E ys := by
  induction h with
  | nil => rfl
  | cons x _ ih =>
    funext w
    simp only [sumOver, ih (List.nodup_cons.mp hxs).2]
  | swap x y l =>
    have hyx : y ≠ x := fun hyx => (List.nodup_cons.mp hxs).1 (hyx ▸ List.mem_cons_self ..)
    funext w
    simp only [sumOver]
    rw [Finset.sum_comm]
    apply Finset.sum_congr rfl
    intro t _
    apply Finset.sum_congr rfl
    intro u _
    rw [Function.update_comm hyx]
  | trans h _ ih ih' => rw [ih hxs, ih' (h.nodup_iff.mp hxs)]

end Lib.Nest
