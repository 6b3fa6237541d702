import Mathlib.Logic.Function.Basic
import Mathlib.Data.List.Basic

/-!
# Populations of objects

The objects of a program by the order of their construction. A destroyed object leaves
`none` at its place, and its place is not used again: `live` is what stands at each place.
`push` constructs, `put` overwrites or destroys, and `count p` is how many live objects
satisfy `p`. Each operation is a `Function.update` of `live` and one equation on `count`.
-/

namespace Lib

universe u

structure Objects (α : Type u) where
  cells : List (Option α) := []
  deriving DecidableEq

namespace Objects

variable {α : Type u}

/-- The live object at place `i`. -/
def live (os : Objects α) (i : Nat) : Option α := os.cells[i]?.join

/-- The place of the next object. -/
def size (os : Objects α) : Nat := os.cells.length

def push (a : α) (os : Objects α) : Objects α := ⟨os.cells ++ [some a]⟩

/-- Place `i` gets another object, or none. -/
def put (i : Nat) (a : Option α) (os : Objects α) : Objects α := ⟨os.cells.set i a⟩

def count (p : α → Bool) (os : Objects α) : Nat := os.cells.countP fun o => o.any p

variable {os : Objects α} {i : Nat} {a : α} {b : Option α} {p : α → Bool}

@[simp] theorem live_nil : (⟨[]⟩ : Objects α).live = fun _ => none := by
  funext i
  simp [live]

@[simp] theorem count_nil : (⟨[]⟩ : Objects α).count p = 0 := rfl

theorem lt_size (h : os.live i = some a) : i < os.size := by
  unfold live at h
  unfold size
  by_contra hi
  simp [List.getElem?_eq_none (Nat.not_lt.mp hi)] at h

@[simp] theorem live_size : os.live os.size = none := by simp [live, size]

theorem ne_size (h : os.live i = some a) : i ≠ os.size := Nat.ne_of_lt (lt_size h)

theorem live_push : (os.push a).live = Function.update os.live os.size (some a) := by
  funext j
  unfold live push size
  rcases Nat.lt_trichotomy j os.cells.length with hj | rfl | hj
  · simp [List.getElem?_append_left hj, Function.update_of_ne (Nat.ne_of_lt hj)]
  · simp
  · rw [Function.update_of_ne (Nat.ne_of_gt hj), List.getElem?_eq_none (by simp; omega),
      List.getElem?_eq_none (by omega)]

theorem live_put (h : os.live i = some a) (b : Option α) :
    (os.put i b).live = Function.update os.live i b := by
  have hi : i < os.cells.length := lt_size h
  funext j
  unfold live put
  by_cases hji : j = i
  · subst hji
    simp [hi]
  · simp [hji, List.getElem?_set_ne (Ne.symm hji)]

/-- An aspect the new object shares with the old one. -/
theorem comp_live_put {β : Type*} {f : Option α → β} (h : os.live i = some a)
    (hf : f b = f (some a)) : f ∘ (os.put i b).live = f ∘ os.live := by
  rw [live_put h, Function.comp_update, hf, ← h]
  exact Function.update_eq_self i (f ∘ os.live)

theorem comp_live_push {β : Type*} {f : Option α → β} (hf : f (some a) = f none) :
    f ∘ (os.push a).live = f ∘ os.live := by
  have hnew : f none = (f ∘ os.live) os.size := by rw [Function.comp_apply, live_size]
  rw [live_push, Function.comp_update, hf, hnew, Function.update_eq_self]

@[simp] theorem count_push : (os.push a).count p = os.count p + if p a then 1 else 0 := by
  simp [count, push, List.countP_append, List.countP_cons]

/-- Some live object is counted. -/
theorem count_pos_iff : 0 < os.count p ↔ ∃ i a, os.live i = some a ∧ p a := by
  unfold count
  rw [List.countP_pos_iff]
  constructor
  · rintro ⟨_ | a, hmem, hp⟩
    · cases hp
    · obtain ⟨i, hi, ha⟩ := List.getElem_of_mem hmem
      exact ⟨i, a, by simp [live, hi, ha], hp⟩
  · rintro ⟨i, a, h, hp⟩
    have hi : i < os.cells.length := lt_size h
    have ha : os.cells[i] = some a := by simpa [live, hi] using h
    exact ⟨some a, ha ▸ List.getElem_mem hi, hp⟩

theorem count_pos (h : os.live i = some a) (hp : p a) : 0 < os.count p :=
  count_pos_iff.mpr ⟨i, a, h, hp⟩

/-- What stood at the place is no longer counted, what stands there now is. -/
theorem count_put (h : os.live i = some a) (b : Option α) :
    (os.put i b).count p + (if p a then 1 else 0) = os.count p + if b.any p then 1 else 0 := by
  have hi : i < os.cells.length := lt_size h
  have ha : os.cells[i] = some a := by simpa [live, hi] using h
  have hle : (if p a then 1 else 0) ≤ os.count p := by
    split
    · next hp => exact count_pos h hp
    · exact Nat.zero_le _
  have hset := List.countP_set (p := fun o : Option α => o.any p) (a := b) hi
  simp only [ha, Option.any_some] at hset
  unfold count at hle ⊢
  show (os.cells.set i b).countP _ + _ = _
  omega

end Objects

end Lib
