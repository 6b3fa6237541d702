import Mathlib.Data.Nat.Find
import Mathlib.Logic.Function.Basic

/-!
# The slot search of `thread_server`

`web/thread_server.cpp` keeps a `SockInfo` for each connection and looks for one whose `acceptfd`
is -1 before it accepts the next. Where it finds none it sleeps for a second and takes the index
back by one, so from then on it only looks at the last slot again: `search_spec`. Meanwhile the
workers give slots back. `selects_iff`: the search ends iff a slot is free when its turn comes, or
the last one is later.
-/

namespace LearnNotes.Web.ThreadServer

def MAXLINK : Nat := 128

/-- The `acceptfd` of each slot of `infos`. -/
abbrev Infos := Nat → Int

/-- `for(int i = 0; i + 1 < MAXLINK; i += 2)`, two slots a round. -/
def clear (infos : Infos) : Infos :=
  (List.range (MAXLINK / 2)).foldl
    (fun infos k => Function.update (Function.update infos (2 * k) (-1)) (2 * k + 1) (-1)) infos

/-- `working` for slot `i`, once `read` has returned `ret`. -/
def working (i : Nat) (ret : Int) (infos : Infos) : Infos :=
  if ret = 0 then Function.update infos i (-1)
  else if ret = -1 then Function.update infos i (-1)
  else infos

/-! ## The loop -/

/-- The loop with its index, left by `break` with `pinfo` at a slot, or run out of slots. -/
inductive Search where
  | at (i : Nat)
  | found (pinfo : Nat)
  | over
  deriving DecidableEq

/-- One iteration. -/
def Search.turn (infos : Infos) : Search → Search
  | .at i =>
    if i < MAXLINK then
      if infos i = -1 then .found i
      else
        let i := if i = MAXLINK - 1 then i - 1 else i
        .at (i + 1)
    else .over
  | .found pinfo => .found pinfo
  | .over => .over

/-- The loop after `t` iterations, where iteration `t` sees `snaps t`. -/
def search (snaps : Nat → Infos) : Nat → Search
  | 0 => .at 0
  | t + 1 => (search snaps t).turn (snaps t)

/-- The search ends, at a slot that was free. -/
def Selects (snaps : Nat → Infos) : Prop :=
  ∃ t pinfo, search snaps t = .at pinfo ∧ search snaps (t + 1) = .found pinfo ∧
    pinfo < MAXLINK ∧ snaps t pinfo = -1

/-- A slot is free from some iteration on. -/
def FreedForGood (snaps : Nat → Infos) : Prop :=
  ∃ start i, i < MAXLINK ∧ ∀ t, start ≤ t → snaps t i = -1

/-- A slot is free at the one iteration that looks at it, or the last slot at one that does. -/
def InTime (snaps : Nat → Infos) : Prop :=
  (∃ i, i < MAXLINK - 1 ∧ snaps i i = -1) ∨ ∃ t, MAXLINK - 1 ≤ t ∧ snaps t (MAXLINK - 1) = -1

/-! ## Which slots are looked at -/

/-- The slot iteration `t` looks at. -/
def cursor (t : Nat) : Nat := min t (MAXLINK - 1)

theorem cursor_lt (t : Nat) : cursor t < MAXLINK := by
  unfold cursor MAXLINK
  omega

variable {snaps : Nat → Infos} {t : Nat}

theorem turn_of_free {infos : Infos} {i : Nat} (hi : i < MAXLINK) (h : infos i = -1) :
    (Search.at i).turn infos = .found i := by
  rw [Search.turn, if_pos hi, if_pos h]

theorem turn_of_busy {infos : Infos} (h : infos (cursor t) ≠ -1) :
    (Search.at (cursor t)).turn infos = .at (cursor (t + 1)) := by
  have hnext :
      (if cursor t = MAXLINK - 1 then cursor t - 1 else cursor t) + 1 = cursor (t + 1) := by
    unfold cursor MAXLINK
    split <;> omega
  rw [Search.turn, if_pos (cursor_lt t), if_neg h]
  exact congrArg Search.at hnext

/-- **The search so far**: it is at the cursor, or has met a free slot there. -/
theorem search_spec (t : Nat) :
    (search snaps t = .at (cursor t) ∧ ∀ u, u < t → snaps u (cursor u) ≠ -1) ∨
      ∃ u, u < t ∧ snaps u (cursor u) = -1 ∧ search snaps t = .found (cursor u) := by
  induction t with
  | zero => exact .inl ⟨rfl, fun u hu => absurd hu (Nat.not_lt_zero u)⟩
  | succ t ih =>
    rcases ih with ⟨hat, hbusy⟩ | ⟨u, hu, hfree, hfound⟩
    · by_cases hfree : snaps t (cursor t) = -1
      · exact .inr ⟨t, Nat.lt_succ_self t, hfree, by
          rw [search, hat, turn_of_free (cursor_lt t) hfree]⟩
      · refine .inl ⟨by rw [search, hat, turn_of_busy hfree], fun u hu => ?_⟩
        rcases Nat.lt_succ_iff_lt_or_eq.mp hu with hu | rfl
        · exact hbusy u hu
        · exact hfree
    · exact .inr ⟨u, Nat.lt_succ_of_lt hu, hfree, by rw [search, hfound]; rfl⟩

/-- `pinfo` is never left unset. -/
theorem search_ne_over (t : Nat) : search snaps t ≠ .over := by
  rcases search_spec t with ⟨hat, -⟩ | ⟨u, -, -, hfound⟩
  · rw [hat]
    exact Search.noConfusion
  · rw [hfound]
    exact Search.noConfusion

theorem inTime_iff : InTime snaps ↔ ∃ t, snaps t (cursor t) = -1 := by
  constructor
  · rintro (⟨i, hi, hfree⟩ | ⟨t, ht, hfree⟩)
    · exact ⟨i, by rwa [cursor, Nat.min_eq_left (Nat.le_of_lt hi)]⟩
    · exact ⟨t, by rwa [cursor, Nat.min_eq_right ht]⟩
  · rintro ⟨t, hfree⟩
    rcases Nat.lt_or_ge t (MAXLINK - 1) with ht | ht
    · rw [cursor, Nat.min_eq_left (Nat.le_of_lt ht)] at hfree
      exact .inl ⟨t, ht, hfree⟩
    · rw [cursor, Nat.min_eq_right ht] at hfree
      exact .inr ⟨t, ht, hfree⟩

/-- A free slot under the cursor ends the search, by the first iteration that meets one. -/
theorem selects_of_free (h : ∃ t, snaps t (cursor t) = -1) : Selects snaps := by
  have hfree := Nat.find_spec h
  have hat : search snaps (Nat.find h) = .at (cursor (Nat.find h)) := by
    rcases search_spec (Nat.find h) with ⟨hat, -⟩ | ⟨u, hu, hfree, -⟩
    · exact hat
    · exact absurd hfree (Nat.find_min h hu)
  exact ⟨Nat.find h, cursor (Nat.find h), hat, by
    rw [search, hat, turn_of_free (cursor_lt _) hfree], cursor_lt _, hfree⟩

/-- **The search ends iff a slot is free in time.** -/
theorem selects_iff (snaps : Nat → Infos) : Selects snaps ↔ InTime snaps := by
  rw [inTime_iff]
  refine ⟨?_, selects_of_free⟩
  rintro ⟨t, pinfo, -, hfound, -, -⟩
  rcases search_spec (t + 1) with ⟨hat, -⟩ | ⟨u, -, hfree, -⟩
  · rw [hat] at hfound
    cases hfound
  · exact ⟨u, hfree⟩

/-- It is enough that the last slot is the one given back. -/
theorem selects_of_last {start : Nat} (h : ∀ t, start ≤ t → snaps t (MAXLINK - 1) = -1) :
    Selects snaps :=
  selects_of_free ⟨max start (MAXLINK - 1), by
    rw [cursor, Nat.min_eq_right (le_max_right _ _)]
    exact h _ (le_max_left _ _)⟩

/-! ## The table meanwhile -/

/-- The slots are free to begin with. -/
theorem clear_free (infos : Infos) {i : Nat} (hi : i < MAXLINK) : clear infos i = -1 := by
  have hpairs : ∀ m, i < 2 * m → (List.range m).foldl (fun infos k =>
      Function.update (Function.update infos (2 * k) (-1)) (2 * k + 1) (-1)) infos i = -1 := by
    intro m
    induction m with
    | zero => omega
    | succ m ih =>
      intro him
      rw [List.range_succ, List.foldl_append, List.foldl_cons, List.foldl_nil]
      by_cases hodd : i = 2 * m + 1
      · rw [hodd, Function.update_self]
      · rw [Function.update_of_ne hodd]
        by_cases heven : i = 2 * m
        · rw [heven, Function.update_self]
        · rw [Function.update_of_ne heven]
          exact ih (by omega)
  unfold MAXLINK at hi
  apply hpairs
  unfold MAXLINK
  omega

/-- The workers have run between two iterations, each for its slot. -/
def Worked (infos infos' : Infos) : Prop :=
  ∃ returns : List (Nat × Int),
    infos' = returns.foldl (fun infos r => working r.1 r.2 infos) infos

theorem working_free {infos : Infos} {j : Nat} (h : infos j = -1) (i : Nat) (ret : Int) :
    working i ret infos j = -1 := by
  have hupdate : Function.update infos i (-1) j = -1 := by
    by_cases hj : j = i
    · rw [hj, Function.update_self]
    · rw [Function.update_of_ne hj, h]
  unfold working
  split
  · exact hupdate
  · split
    · exact hupdate
    · exact h

/-- Workers take no slot. -/
theorem Worked.free {infos infos' : Infos} (hw : Worked infos infos') {j : Nat}
    (h : infos j = -1) : infos' j = -1 := by
  obtain ⟨returns, rfl⟩ := hw
  induction returns generalizing infos with
  | nil => exact h
  | cons r returns ih => exact ih (working_free h r.1 r.2)

/-- While the search goes on, a slot that is given back is free for good. -/
theorem freedForGood_of_worked (hw : ∀ t, Worked (snaps t) (snaps (t + 1))) {i : Nat}
    (hi : i < MAXLINK) (h : snaps t i = -1) : FreedForGood snaps := by
  refine ⟨t, i, hi, fun u hu => ?_⟩
  induction u, hu using Nat.le_induction with
  | base => exact h
  | succ u _ ih => exact (hw u).free ih

/-- Each slot has a connection until iteration 128, when the first client hangs up. -/
def firstLeaves (t : Nat) : Infos :=
  let infos := fun i : Nat => (i : Int) + 4
  if t < MAXLINK then infos else working 0 0 infos

/-- The first slot is free for good, and the search goes on for ever at the last. -/
theorem firstLeaves_unseen :
    FreedForGood firstLeaves ∧ (∀ t, search firstLeaves t = .at (cursor t)) ∧
      ¬ Selects firstLeaves := by
  have hbusy : ∀ t, firstLeaves t (cursor t) ≠ -1 := by
    intro t
    unfold firstLeaves
    by_cases ht : t < MAXLINK
    · rw [if_pos ht]
      omega
    · have hne : cursor t ≠ 0 := by
        unfold cursor
        unfold MAXLINK at ht ⊢
        omega
      rw [if_neg ht, working, if_pos rfl, Function.update_of_ne hne]
      omega
  have hat : ∀ t, search firstLeaves t = .at (cursor t) := by
    intro t
    rcases search_spec t with ⟨hat, -⟩ | ⟨u, -, hfree, -⟩
    · exact hat
    · exact absurd hfree (hbusy u)
  refine ⟨⟨MAXLINK, 0, by decide, fun t ht => ?_⟩, hat, ?_⟩
  · rw [firstLeaves, if_neg (Nat.not_lt.mpr ht), working, if_pos rfl, Function.update_self]
  · rintro ⟨t, pinfo, -, hfound, -, -⟩
    rw [hat] at hfound
    cases hfound

end LearnNotes.Web.ThreadServer
