import Mathlib.Data.Finset.Image
import Mathlib.Logic.Function.Basic
import LearnNotes.Lib.Machine

/-!
# Bounded FIFO queues and rings

`Fifo` is a FIFO list of at most `cap` elements as a machine. `Rings n read head tail l` says
that the `n` places `read` off hold `l` in order from `head` on, around the end, with one
place left free. The rules follow the way a ring is written to: `write` puts an element at
the tail, `advanceTail` lets it in, `advanceHead` lets the oldest go.
-/

namespace Lib

universe u

/-! ## The queue -/

namespace Fifo

variable {α : Type u}

inductive Call (α : Type u) where
  | put (a : α)
  | take
  deriving DecidableEq

inductive Reply (α : Type u) where
  | put (ok : Bool)
  | taken (a : Option α)
  deriving DecidableEq

/-- A full queue refuses an element, an empty one gives none, and neither changes. -/
def apply (cap : Nat) (l : List α) : Call α → Reply α × List α
  | .put a => if l.length < cap then (.put true, l ++ [a]) else (.put false, l)
  | .take =>
    match l with
    | [] => (.taken none, [])
    | a :: l => (.taken (some a), l)

end Fifo

/-- The FIFO of at most `cap` elements. -/
def fifo (α : Type u) (cap : Nat) : Machine (List α) (Fifo.Call α) (Fifo.Reply α) where
  init := []
  step := Fifo.apply cap

section Fifo

variable {α : Type u} {cap : Nat} {l : List α} {a : α}

theorem fifo_put (a : α) (h : l.length < cap) :
    (fifo α cap).out l (.put a) = .put true ∧ (fifo α cap).next l (.put a) = l ++ [a] := by
  simp [Machine.out, Machine.next, fifo, Fifo.apply, h]

theorem fifo_put_full (a : α) (h : ¬ l.length < cap) :
    (fifo α cap).out l (.put a) = .put false ∧ (fifo α cap).next l (.put a) = l := by
  simp [Machine.out, Machine.next, fifo, Fifo.apply, h]

theorem fifo_take (cap : Nat) (a : α) (l : List α) :
    (fifo α cap).out (a :: l) .take = .taken (some a) ∧ (fifo α cap).next (a :: l) .take = l :=
  ⟨rfl, rfl⟩

theorem fifo_take_empty (cap : Nat) :
    (fifo α cap).out [] .take = .taken none ∧ (fifo α cap).next [] .take = [] := ⟨rfl, rfl⟩

end Fifo

/-! ## The ring -/

/-- The place `i` places after `head` in a ring of `n`. -/
def slot (n head i : Nat) : Nat := if head + i < n then head + i else head + i - n

variable {α : Type u} {n head tail i j : Nat} {read : Nat → Option α} {l : List α} {a : α}

theorem slot_lt (hh : head < n) (hi : i < n) : slot n head i < n := by
  unfold slot
  split <;> omega

@[simp] theorem slot_zero (hh : head < n) : slot n head 0 = head := by
  unfold slot
  split <;> omega

theorem slot_inj (hi : i < n) (hj : j < n) (h : slot n head i = slot n head j) : i = j := by
  unfold slot at h
  split at h <;> split at h <;> omega

theorem slot_succ (hh : head < n) (hi : i < n) :
    slot n (slot n head i) 1 = slot n head (i + 1) := by
  unfold slot
  split_ifs <;> omega

theorem slot_one (hh : head < n) (hi : i + 1 < n) :
    slot n (slot n head 1) i = slot n head (i + 1) := by
  unfold slot
  split_ifs <;> omega

/-- The next place, as a remainder. -/
theorem mod_eq_slot (hh : head < n) : (head + 1) % n = slot n head 1 := by
  unfold slot
  split
  · next h => exact Nat.mod_eq_of_lt h
  · next h =>
    obtain rfl : n = head + 1 := by omega
    simp

/-- The `len` places from `head` on. -/
def cells (n head len : Nat) : Finset Nat := (Finset.range len).image (slot n head)

/-- One place more at the tail. -/
theorem cells_succ (n head len : Nat) :
    cells n head (len + 1) = insert (slot n head len) (cells n head len) := by
  rw [cells, cells, Finset.range_add_one, Finset.image_insert]

theorem slot_notMem_cells {len : Nat} (hlen : len < n) : slot n head len ∉ cells n head len := by
  intro hmem
  obtain ⟨i, hi, heq⟩ := Finset.mem_image.mp hmem
  rw [Finset.mem_range] at hi
  exact absurd (slot_inj (Nat.lt_trans hi hlen) hlen heq) (Nat.ne_of_lt hi)

theorem head_mem_cells {len : Nat} (hh : head < n) : head ∈ cells n head (len + 1) :=
  Finset.mem_image.mpr ⟨0, Finset.mem_range.mpr (Nat.succ_pos len), slot_zero hh⟩

/-- One place less at the head. -/
theorem cells_advance {len : Nat} (hh : head < n) (hlen : len + 1 ≤ n) :
    cells n (slot n head 1) len = (cells n head (len + 1)).erase head := by
  ext k
  simp only [cells, Finset.mem_erase, Finset.mem_image, Finset.mem_range]
  constructor
  · rintro ⟨i, hi, rfl⟩
    rw [slot_one hh (by omega)]
    refine ⟨fun heq => ?_, i + 1, by omega, rfl⟩
    have := slot_inj (by omega) (by omega) (heq.trans (slot_zero hh).symm)
    omega
  · rintro ⟨hne, i, hi, rfl⟩
    cases i with
    | zero => exact absurd (slot_zero hh) hne
    | succ i => exact ⟨i, by omega, slot_one hh (by omega)⟩

/-- The ring of `n` places holds `l`. -/
structure Rings (n : Nat) (read : Nat → Option α) (head tail : Nat) (l : List α) : Prop where
  head_lt : head < n
  length_lt : l.length < n
  tail_eq : tail = slot n head l.length
  get : ∀ i b, l[i]? = some b → read (slot n head i) = some b

namespace Rings

theorem empty (hn : 0 < n) (read : Nat → Option α) : Rings n read 0 0 [] where
  head_lt := hn
  length_lt := hn
  tail_eq := by simp [hn]
  get _ _ h := by cases h

theorem tail_lt (h : Rings n read head tail l) : tail < n := by
  rw [h.tail_eq]
  exact slot_lt h.head_lt h.length_lt

theorem empty_iff (h : Rings n read head tail l) : head = tail ↔ l = [] := by
  have hh := h.head_lt
  have hl := h.length_lt
  rw [h.tail_eq, ← List.length_eq_zero_iff]
  unfold slot
  split <;> omega

theorem full_iff (h : Rings n read head tail l) : slot n tail 1 = head ↔ l.length + 1 = n := by
  have hh := h.head_lt
  have hl := h.length_lt
  rw [h.tail_eq, slot_succ hh hl]
  unfold slot
  split <;> omega

theorem front (h : Rings n read head tail (a :: l)) : read head = some a := by
  have h0 := h.get 0 a rfl
  rwa [slot_zero h.head_lt] at h0

/-- Another element in the place of the oldest. -/
theorem writeFront (h : Rings n read head tail (a :: l)) (b : α) :
    Rings n (Function.update read head (some b)) head tail (b :: l) where
  head_lt := h.head_lt
  length_lt := h.length_lt
  tail_eq := h.tail_eq
  get i c hc := by
    cases i with
    | zero =>
      cases hc
      rw [slot_zero h.head_lt, Function.update_self]
    | succ i =>
      have hi : i + 1 < (b :: l).length := (List.getElem?_eq_some_iff.mp hc).1
      have hne : slot n head (i + 1) ≠ head := fun e => by
        have := slot_inj (Nat.lt_trans hi h.length_lt) (Nat.zero_lt_of_lt h.head_lt)
          (e.trans (slot_zero h.head_lt).symm)
        omega
      rw [Function.update_of_ne hne]
      exact h.get (i + 1) c hc

/-- Writing at the tail touches no element. -/
theorem write (h : Rings n read head tail l) (b : Option α) :
    Rings n (Function.update read tail b) head tail l where
  head_lt := h.head_lt
  length_lt := h.length_lt
  tail_eq := h.tail_eq
  get i c hc := by
    have hi : i < l.length := (List.getElem?_eq_some_iff.mp hc).1
    have hne : slot n head i ≠ tail := fun e => by
      have := slot_inj (Nat.lt_trans hi h.length_lt) h.length_lt (e.trans h.tail_eq)
      omega
    rw [Function.update_of_ne hne]
    exact h.get i c hc

/-- An element written at the tail is let in. -/
theorem advanceTail (h : Rings n read head tail l) (hl : l.length + 1 < n)
    (ha : read tail = some a) : Rings n read head (slot n tail 1) (l ++ [a]) where
  head_lt := h.head_lt
  length_lt := by rw [List.length_append, List.length_singleton]; exact hl
  tail_eq := by
    rw [h.tail_eq, slot_succ h.head_lt h.length_lt, List.length_append, List.length_singleton]
  get i c hc := by
    by_cases hi : i < l.length
    · rw [List.getElem?_append_left hi] at hc
      exact h.get i c hc
    · obtain ⟨hlt, hget⟩ := List.getElem?_eq_some_iff.mp hc
      rw [List.length_append, List.length_singleton] at hlt
      obtain rfl : i = l.length := by omega
      simp only [List.getElem_concat_length] at hget
      rw [← hget, ← h.tail_eq, ha]

/-- The oldest element is let go, whatever is left in its place. -/
theorem advanceHead (h : Rings n read head tail (a :: l)) (b : Option α) :
    Rings n (Function.update read head b) (slot n head 1) tail l := by
  have hl := h.length_lt
  rw [List.length_cons] at hl
  have hslot : ∀ i, i < l.length → slot n (slot n head 1) i = slot n head (i + 1) := fun i hi =>
    slot_one h.head_lt (by omega)
  refine ⟨slot_lt h.head_lt (by omega), by omega, ?_, fun i c hc => ?_⟩
  · rw [h.tail_eq, List.length_cons, slot_one h.head_lt (by omega)]
  · have hi : i < l.length := (List.getElem?_eq_some_iff.mp hc).1
    have hne : slot n head (i + 1) ≠ head := fun e => by
      have := slot_inj (i := i + 1) (j := 0) (by omega) (by omega)
        (e.trans (slot_zero h.head_lt).symm)
      omega
    rw [hslot i hi, Function.update_of_ne hne]
    exact h.get (i + 1) c hc

end Rings

end Lib
