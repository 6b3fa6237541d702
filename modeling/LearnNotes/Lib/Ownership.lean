import Mathlib.Logic.Function.Basic

/-!
# Exclusive ownership

`tab` records which name occupies each place, `hold` which place and name each
holder has. `Owned tab hold` says the two agree: what is held is recorded, no
place has two holders, and everything recorded is held. `grant`, `drop` and
`transfer` keep it; `not_owned_of_forgotten` is how it is lost: a holder gives up
a recorded place and nobody takes it.

Where only the names matter, `present p` is the table of the names that exist and
`named name` what an object holds by its name field, 0 being no name: `owner` is then the
one object of each name, and `no_owner` how a name is left without one.
-/

namespace Lib

universe u v w

variable {ι : Type u} {κ : Type v} {α : Type w}

structure Owned (tab : κ → Option α) (hold : ι → Option (κ × α)) : Prop where
  sound : ∀ {i k a}, hold i = some (k, a) → tab k = some a
  inj : ∀ {i j k a b}, hold i = some (k, a) → hold j = some (k, b) → i = j
  total : ∀ {k a}, tab k = some a → ∃ i, hold i = some (k, a)

namespace Owned

variable {tab : κ → Option α} {hold : ι → Option (κ × α)} {i j : ι} {k : κ} {a : α}

/-- Nothing is held and nothing recorded. -/
theorem empty : Owned (fun _ : κ => (none : Option α)) (fun _ : ι => none) where
  sound h := by cases h
  inj h := by cases h
  total h := by cases h

theorem existsUnique (h : Owned tab hold) (hk : tab k = some a) :
    ∃! i, ∃ b, hold i = some (k, b) := by
  obtain ⟨i, hi⟩ := h.total hk
  exact ⟨i, ⟨a, hi⟩, fun j ⟨b, hj⟩ => h.inj hj hi⟩

variable [DecidableEq ι]

theorem update_some_eq_some {β : Type*} {f : ι → Option β} {x y : β} :
    Function.update f i (some x) j = some y ↔ (j = i ∧ x = y) ∨ (j ≠ i ∧ f j = some y) := by
  by_cases hji : j = i
  · subst hji
    rw [Function.update_self, Option.some.injEq]
    simp
  · rw [Function.update_of_ne hji]
    simp [hji]

theorem update_none_eq_some {β : Type*} {f : ι → Option β} {y : β} :
    Function.update f i none j = some y ↔ j ≠ i ∧ f j = some y := by
  by_cases hji : j = i
  · subst hji
    rw [Function.update_self]
    simp
  · rw [Function.update_of_ne hji]
    simp [hji]

/-- A free place is given to a holder of nothing. -/
theorem grant [DecidableEq κ] (h : Owned tab hold) (hi : hold i = none) (hk : tab k = none) :
    Owned (Function.update tab k (some a)) (Function.update hold i (some (k, a))) := by
  -- nobody holds a free place
  have hfree : ∀ {j b}, hold j ≠ some (k, b) := fun hj => by
    rw [h.sound hj] at hk
    cases hk
  refine ⟨fun {j l b} hj => ?_, fun {j j' l b c} hj hj' => ?_, fun {l b} hl => ?_⟩
  · rcases update_some_eq_some.mp hj with ⟨rfl, heq⟩ | ⟨-, hj⟩
    · cases heq
      exact Function.update_self ..
    · have hlk : l ≠ k := fun e => hfree (e ▸ hj)
      rw [Function.update_of_ne hlk]
      exact h.sound hj
  · rcases update_some_eq_some.mp hj with ⟨rfl, heq⟩ | ⟨-, hj₀⟩ <;>
      rcases update_some_eq_some.mp hj' with ⟨rfl, heq'⟩ | ⟨-, hj₀'⟩
    · rfl
    · cases heq
      exact absurd hj₀' hfree
    · cases heq'
      exact absurd hj₀ hfree
    · exact h.inj hj₀ hj₀'
  · rcases update_some_eq_some.mp hl with ⟨rfl, rfl⟩ | ⟨-, hl⟩
    · exact ⟨i, Function.update_self ..⟩
    · obtain ⟨j, hj⟩ := h.total hl
      have hji : j ≠ i := fun e => by
        rw [e, hi] at hj
        cases hj
      exact ⟨j, update_some_eq_some.mpr (.inr ⟨hji, hj⟩)⟩

/-- A holder gives its place back. -/
theorem drop [DecidableEq κ] (h : Owned tab hold) (hi : hold i = some (k, a)) :
    Owned (Function.update tab k none) (Function.update hold i none) := by
  refine ⟨fun {j l b} hj => ?_, fun hj hj' => h.inj (update_none_eq_some.mp hj).2
    (update_none_eq_some.mp hj').2, fun {l b} hl => ?_⟩
  · obtain ⟨hji, hj⟩ := update_none_eq_some.mp hj
    have hlk : l ≠ k := fun e => hji (h.inj (e ▸ hj) hi)
    exact update_none_eq_some.mpr ⟨hlk, h.sound hj⟩
  · obtain ⟨hlk, hl⟩ := update_none_eq_some.mp hl
    obtain ⟨j, hj⟩ := h.total hl
    have hji : j ≠ i := fun e => by
      rw [e, hi] at hj
      cases hj
      exact hlk rfl
    exact ⟨j, update_none_eq_some.mpr ⟨hji, hj⟩⟩

/-- A holder hands what it has to a holder of nothing. -/
theorem transfer (h : Owned tab hold) (hij : i ≠ j) (hj : hold j = none) :
    Owned tab (Function.update (Function.update hold j (hold i)) i none) := by
  -- who holds a place afterwards held it before, `j` as `i` did
  let σ := fun l => if l = j then i else l
  have hne : ∀ {l p}, Function.update (Function.update hold j (hold i)) i none l = some p →
      hold (σ l) = some p ∧ l ≠ i := fun {l p} hl => by
    obtain ⟨hli, hl⟩ := update_none_eq_some.mp hl
    by_cases hlj : l = j
    · rw [hlj, Function.update_self] at hl
      exact ⟨by simpa [σ, hlj] using hl, hli⟩
    · rw [Function.update_of_ne hlj] at hl
      exact ⟨by simpa [σ, hlj] using hl, hli⟩
  refine ⟨fun hl => h.sound (hne hl).1, fun {l l' k b c} hl hl' => ?_, fun {k b} hk => ?_⟩
  · have hσ : σ l = σ l' := h.inj (hne hl).1 (hne hl').1
    have hli := (hne hl).2
    have hli' := (hne hl').2
    simp only [σ] at hσ
    split at hσ <;> split at hσ <;> simp_all
  · obtain ⟨l, hl⟩ := h.total hk
    by_cases hli : l = i
    · exact ⟨j, by rw [Function.update_of_ne (Ne.symm hij), Function.update_self, ← hli, hl]⟩
    · have hlj : l ≠ j := fun e => by
        rw [e, hj] at hl
        cases hl
      exact ⟨l, by rw [Function.update_of_ne hli, Function.update_of_ne hlj, hl]⟩

omit [DecidableEq ι] in
/-- A place that stays recorded and that its holder gave up to nobody is a leak. -/
theorem not_owned_of_forgotten {hold' : ι → Option (κ × α)} (h : Owned tab hold)
    (hi : hold i = some (k, a)) (hsame : ∀ l b, hold' l = some (k, b) → ∃ l', l' ≠ i ∧
      ∃ c, hold l' = some (k, c)) : ¬ Owned tab hold' := by
  intro h'
  obtain ⟨l, hl⟩ := h'.total (h.sound hi)
  obtain ⟨l', hne, c, hc⟩ := hsame l a hl
  exact hne (h.inj hc hi)

end Owned

/-! ## Names -/

/-- The names that exist, as a table. -/
def present (p : κ → Prop) [DecidablePred p] (k : κ) : Option Unit :=
  if p k then some () else none

section Present

variable {p q : κ → Prop} [DecidablePred p] [DecidablePred q] {k : κ}

theorem present_eq_some : present p k = some () ↔ p k := by
  unfold present
  split <;> simp [*]

theorem present_eq_none : present p k = none ↔ ¬ p k := by
  unfold present
  split <;> simp [*]

theorem present_congr (h : ∀ j, q j ↔ p j) : present q = present p := by
  funext j
  unfold present
  by_cases hj : p j
  · rw [if_pos hj, if_pos ((h j).mpr hj)]
  · rw [if_neg hj, if_neg fun hq => hj ((h j).mp hq)]

theorem present_insert [DecidableEq κ] (h : ∀ j, q j ↔ j = k ∨ p j) :
    present q = Function.update (present p) k (some ()) := by
  funext j
  by_cases hj : j = k
  · subst hj
    rw [Function.update_self, present_eq_some, h]
    exact .inl rfl
  · rw [Function.update_of_ne hj]
    unfold present
    simp only [h, hj, false_or]

theorem present_erase [DecidableEq κ] (h : ∀ j, q j ↔ j ≠ k ∧ p j) :
    present q = Function.update (present p) k none := by
  funext j
  by_cases hj : j = k
  · subst hj
    rw [Function.update_self, present_eq_none, h]
    exact fun hj => hj.1 rfl
  · rw [Function.update_of_ne hj]
    unfold present
    simp only [h, hj, ne_eq, not_false_eq_true, true_and]

end Present

/-! ## Objects with a name field -/

section Named

variable [Zero κ] [DecidableEq κ] {name : α → κ} {a : α} {o : Option α} {k : κ}

def named (name : α → κ) (o : Option α) : Option (κ × Unit) :=
  o.bind fun a => if name a = 0 then none else some (name a, ())

@[simp] theorem named_none : named name none = none := rfl

theorem named_zero (h : name a = 0) : named name (some a) = none := by
  simp [named, h]

theorem named_ne_zero (h : name a ≠ 0) : named name (some a) = some (name a, ()) := by
  simp [named, h]

theorem named_congr {b : α} (h : name a = name b) : named name (some a) = named name (some b) := by
  simp only [named, Option.bind_some, h]

theorem named_eq_some : named name o = some (k, ()) ↔ k ≠ 0 ∧ ∃ a, o = some a ∧ name a = k := by
  cases o with
  | none => simp
  | some a =>
    by_cases h : name a = 0
    · rw [named_zero h]
      constructor
      · intro h'
        cases h'
      · rintro ⟨h0, b, hb, hk⟩
        cases hb
        exact absurd (hk.symm.trans h) h0
    · rw [named_ne_zero h]
      constructor
      · intro h'
        cases h'
        exact ⟨h, a, rfl, rfl⟩
      · rintro ⟨-, b, hb, hk⟩
        cases hb
        rw [hk]

variable {p : κ → Prop} [DecidablePred p] {objs : ι → Option α} {i : ι}

/-- The one object of a name. -/
theorem Owned.owner (h : Owned (present p) (named name ∘ objs)) (hk : p k) :
    ∃! i, ∃ a, objs i = some a ∧ name a = k := by
  obtain ⟨i, hi⟩ := h.total (present_eq_some.mpr hk)
  obtain ⟨h0, ha⟩ := named_eq_some.mp hi
  exact ⟨i, ha, fun j hj => h.inj (a := ()) (named_eq_some.mpr ⟨h0, hj⟩) hi⟩

/-- An object's name exists. -/
theorem Owned.exists_name (h : Owned (present p) (named name ∘ objs)) (ha : objs i = some a)
    (h0 : name a ≠ 0) : p (name a) :=
  present_eq_some.mp (h.sound (named_eq_some.mpr ⟨h0, a, ha, rfl⟩))

theorem Owned.name_inj (h : Owned (present p) (named name ∘ objs)) {j : ι} {b : α}
    (ha : objs i = some a) (hb : objs j = some b) (h0 : name a ≠ 0) (he : name b = name a) :
    j = i :=
  h.inj (a := ()) (b := ()) (named_eq_some.mpr ⟨h0, b, hb, he⟩)
    (named_eq_some.mpr ⟨h0, a, ha, rfl⟩)

/-- An object lost its name, and no other can have it: nobody does. -/
theorem Owned.no_owner (h : Owned (present p) (named name ∘ objs)) (ha : objs i = some a)
    (h0 : name a ≠ 0) {objs' : ι → Option α}
    (hlost : ∀ j b, objs' j = some b → name b = name a →
      ∃ k c, k ≠ i ∧ objs k = some c ∧ name c = name a) :
    ¬ ∃ j b, objs' j = some b ∧ name b = name a := by
  rintro ⟨j, b, hb, he⟩
  obtain ⟨k, c, hk, hc, he'⟩ := hlost j b hb he
  exact hk (h.name_inj ha hc h0 he')

end Named

end Lib
