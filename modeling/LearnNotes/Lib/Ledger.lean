import Mathlib.Data.Finset.Basic
import LearnNotes.Lib.Ownership

/-!
# Ledgers of creation and deletion

A ledger lists what a program asked of an allocator, the newest entry first: `create k`
made an object under the key `k`, `delete k` took it away. `live` is what is left, and a
ledger is `WellUsed` when no entry creates a live key or deletes one that is not live. In a
well-used ledger that leaves nothing, every key was deleted as often as it was created
(`balanced`). `Since` says the same of the part of a ledger that one call added.
-/

namespace Lib

universe u

namespace Ledger

inductive Entry (κ : Type u) where
  | create (k : κ)
  | delete (k : κ)
  deriving DecidableEq

end Ledger

open Ledger

abbrev Ledger (κ : Type u) := List (Entry κ)

namespace Ledger

variable {κ : Type u} [DecidableEq κ]

/-- The keys created and not deleted since. -/
def live : Ledger κ → Finset κ
  | [] => ∅
  | .create k :: l => insert k (live l)
  | .delete k :: l => (live l).erase k

def WellUsed : Ledger κ → Prop
  | [] => True
  | .create k :: l => k ∉ live l ∧ WellUsed l
  | .delete k :: l => k ∈ live l ∧ WellUsed l

/-- The live keys as a table for `Owned`. -/
def tab (l : Ledger κ) : κ → Option Unit := present (· ∈ l.live)

variable {l : Ledger κ} {j k : κ}

instance : (l : Ledger κ) → Decidable l.WellUsed
  | [] => inferInstanceAs (Decidable True)
  | .create k :: l =>
    have := instDecidableWellUsed l
    inferInstanceAs (Decidable (k ∉ live l ∧ WellUsed l))
  | .delete k :: l =>
    have := instDecidableWellUsed l
    inferInstanceAs (Decidable (k ∈ live l ∧ WellUsed l))

@[simp] theorem live_nil : live ([] : Ledger κ) = ∅ := rfl

@[simp] theorem live_create : live (.create k :: l) = insert k (live l) := rfl

@[simp] theorem live_delete : live (.delete k :: l) = (live l).erase k := rfl

@[simp] theorem wellUsed_nil : WellUsed ([] : Ledger κ) := trivial

@[simp] theorem wellUsed_create : WellUsed (.create k :: l) ↔ k ∉ live l ∧ WellUsed l := Iff.rfl

@[simp] theorem wellUsed_delete : WellUsed (.delete k :: l) ↔ k ∈ live l ∧ WellUsed l := Iff.rfl

theorem tab_eq_none : l.tab k = none ↔ k ∉ l.live := present_eq_none

theorem mem_live_congr {l' : Ledger κ} (h : l'.tab = l.tab) : k ∈ l'.live ↔ k ∈ l.live := by
  have hk := congrFun h k
  unfold tab at hk
  rw [← present_eq_some (p := (· ∈ l'.live)), hk, present_eq_some]

@[simp] theorem tab_nil : tab ([] : Ledger κ) = fun _ => none := by
  funext k
  exact tab_eq_none.mpr (Finset.notMem_empty k)

theorem tab_create : tab (.create k :: l) = Function.update l.tab k (some ()) :=
  present_insert fun j => by simp

theorem tab_delete : tab (.delete k :: l) = Function.update l.tab k none :=
  present_erase fun j => by simp

/-- An ill-used ledger stays one. -/
theorem WellUsed.of_cons {e : Entry κ} (h : WellUsed (e :: l)) : WellUsed l := by
  cases e with
  | create k => exact h.2
  | delete k => exact h.2

/-- A key is live as often as its creations outnumber its deletions. -/
theorem count_create (h : l.WellUsed) (k : κ) :
    l.count (.create k) = l.count (.delete k) + if k ∈ l.live then 1 else 0 := by
  induction l with
  | nil => rfl
  | cons e l ih =>
    have hl := ih h.of_cons
    cases e with
    | create j =>
      by_cases hj : j = k
      · subst hj
        have hnot : j ∉ live l := h.1
        rw [if_neg hnot] at hl
        simp [hl]
      · simp [hl, hj, Ne.symm hj]
    | delete j =>
      by_cases hj : j = k
      · subst hj
        have hin : j ∈ live l := h.1
        rw [if_pos hin] at hl
        simp [hl]
      · simp [hl, hj, Ne.symm hj]

/-- **Balance.** -/
theorem balanced (h : l.WellUsed) (h0 : l.live = ∅) (k : κ) :
    l.count (.create k) = l.count (.delete k) := by
  rw [count_create h k, h0]
  rfl

/-! ## The keys an owner knows -/

/-- An owner that knows the keys `S` has used the allocator well, and they are all there is. -/
def Keeps (l : Ledger κ) (S : Finset κ) : Prop := l.WellUsed ∧ l.live = S

/-- It has misused the allocator, or lost sight of a key. -/
def Loses (l : Ledger κ) (S : Finset κ) : Prop := ¬ l.WellUsed ∨ ¬ l.live ⊆ S

variable {S S' : Finset κ}

theorem keeps_nil : Keeps ([] : Ledger κ) ∅ := ⟨trivial, rfl⟩

theorem Keeps.create (h : l.Keeps S) (hk : k ∉ S) : Keeps (.create k :: l) (insert k S) :=
  ⟨⟨h.2 ▸ hk, h.1⟩, congrArg (insert k) h.2⟩

theorem Keeps.delete (h : l.Keeps S) (hk : k ∈ S) : Keeps (.delete k :: l) (S.erase k) :=
  ⟨⟨h.2 ▸ hk, h.1⟩, congrArg (Finset.erase · k) h.2⟩

/-- A key is forgotten. -/
theorem Keeps.forget (h : l.Keeps S) (hk : k ∈ S) (hk' : k ∉ S') : l.Loses S' :=
  .inr fun hsub => hk' (hsub (h.2 ▸ hk))

theorem Loses.mono (h : l.Loses S) (hS : S' ⊆ S) : l.Loses S' :=
  h.imp_right fun hsub hsub' => hsub (hsub'.trans hS)

theorem Loses.create (h : l.Loses S) (k : κ) : Loses (.create k :: l) (insert k S) := by
  rcases h with h | h
  · exact .inl fun hw => h hw.2
  · by_cases hk : k ∈ live l
    · exact .inl fun hw => hw.1 hk
    · refine .inr fun hsub => h fun j hj => ?_
      have hj' := hsub (Finset.mem_insert_of_mem hj)
      exact Finset.mem_of_mem_insert_of_ne hj' fun hjk => hk (hjk ▸ hj)

theorem Loses.delete (h : l.Loses S) (hk : k ∈ S) : Loses (.delete k :: l) (S.erase k) := by
  rcases h with h | h
  · exact .inl fun hw => h hw.2
  · refine .inr fun hsub => h fun j hj => ?_
    by_cases hjk : j = k
    · exact hjk ▸ hk
    · exact Finset.mem_of_mem_erase (hsub (Finset.mem_erase.mpr ⟨hjk, hj⟩))

/-- An owner that knows no key any more has given everything back. -/
theorem Keeps.balanced (h : l.Keeps ∅) (k : κ) : l.count (.create k) = l.count (.delete k) :=
  Ledger.balanced h.1 h.2 k

theorem Loses.not_balanced (h : l.Loses ∅) :
    ¬ (l.WellUsed ∧ ∀ k, l.count (.create k) = l.count (.delete k)) := by
  rintro ⟨hw, hcount⟩
  rcases h with h | h
  · exact h hw
  · refine h fun k hk => ?_
    have := count_create hw k
    rw [hcount k, if_pos hk] at this
    omega

/-! ## What was done since -/

/-- From `l` on, the allocator was used well and what was made is gone again but for `S`. -/
def Since (l l' : Ledger κ) (S : Finset κ) : Prop := ∃ new : Ledger κ, l' = new ++ l ∧ new.Keeps S

variable {l' : Ledger κ}

theorem Since.refl (l : Ledger κ) : Since l l ∅ := ⟨[], rfl, keeps_nil⟩

theorem Since.create (h : Since l l' S) (hk : k ∉ S) : Since l (.create k :: l') (insert k S) := by
  obtain ⟨new, rfl, hnew⟩ := h
  exact ⟨.create k :: new, rfl, hnew.create hk⟩

theorem Since.delete (h : Since l l' S) (hk : k ∈ S) : Since l (.delete k :: l') (S.erase k) := by
  obtain ⟨new, rfl, hnew⟩ := h
  exact ⟨.delete k :: new, rfl, hnew.delete hk⟩

/-- What is made and taken away at once leaves no trace. -/
theorem Since.create_delete (h : Since l l' S) (hk : k ∉ S) :
    Since l (.delete k :: .create k :: l') S := by
  have hgone := (h.create hk).delete (Finset.mem_insert_self k S)
  rwa [Finset.erase_insert hk] at hgone

theorem Keeps.append {new : Ledger κ} (h : l.Keeps ∅) (hnew : new.Keeps S) :
    Keeps (new ++ l) S := by
  induction new generalizing S with
  | nil => exact ⟨h.1, h.2.trans hnew.2⟩
  | cons e new ih =>
    cases e with
    | create k =>
      have hrest := ih ⟨hnew.1.2, rfl⟩
      rw [← hnew.2]
      exact hrest.create hnew.1.1
    | delete k =>
      have hrest := ih ⟨hnew.1.2, rfl⟩
      rw [← hnew.2]
      exact hrest.delete hnew.1.1

theorem Since.trans {l'' : Ledger κ} (h : Since l l' ∅) (h' : Since l' l'' S) : Since l l'' S := by
  obtain ⟨new, rfl, hk⟩ := h
  obtain ⟨new', rfl, hk'⟩ := h'
  exact ⟨new' ++ new, (List.append_assoc ..).symm, hk.append hk'⟩

/-- Nothing was done, or one new key made and taken away. -/
def Idles (l l' : Ledger κ) : Prop := l' = l ∨ ∃ k, k ∉ l.live ∧ l' = .delete k :: .create k :: l

theorem Idles.tab (h : Idles l l') : l'.tab = l.tab := by
  rcases h with rfl | ⟨k, hk, rfl⟩
  · rfl
  · rw [tab_delete, tab_create, Function.update_idem, ← tab_eq_none.mpr hk, Function.update_eq_self]

theorem Idles.wellUsed (h : Idles l l') (hl : l.WellUsed) : l'.WellUsed := by
  rcases h with rfl | ⟨k, hk, rfl⟩
  · exact hl
  · exact ⟨Finset.mem_insert_self k _, hk, hl⟩

theorem Since.idles {l₀ : Ledger κ} (h : Since l₀ l S) (hS : S ⊆ l.live) (hi : Idles l l') :
    Since l₀ l' S := by
  rcases hi with rfl | ⟨k, hk, rfl⟩
  · exact h
  · exact h.create_delete fun hin => hk (hS hin)

theorem Since.unique (h : Since l l' S) (h' : Since l l' S') : S = S' := by
  obtain ⟨new, rfl, hk⟩ := h
  obtain ⟨new', heq, hk'⟩ := h'
  obtain rfl : new = new' := List.append_cancel_right heq
  exact hk.2.symm.trans hk'.2

end Ledger

end Lib
