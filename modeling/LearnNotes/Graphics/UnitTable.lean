import LearnNotes.Graphics.Ownership

/-!
# What `TextureUnit::acquire` answers

`AcquireAnswers` is what a request for a unit should get: without a position the lowest unit
that is free, at a position that unit, where it is free or holds the name already. The test
on a given position joins its two comparisons with `||`, and only the name 0 gets past it, so
that every other request at a unit of the table is refused. `acquireAnswers_iff`: the answer
is right exactly where the request gives no position, none of the table's, or that of a unit
another name holds.
-/

namespace LearnNotes.Graphics

namespace TextureUnit

/-- The answer `r` to `acquire(ec, TexID, pos)`: the error, the position and the table left. -/
structure AcquireAnswers (u : TextureUnit) (TexID : GLuint) (pos : Nat)
    (r : Option errc × Nat × TextureUnit) : Prop where
  any_iff : pos = SIZE_T_MAX → (r.1 = none ↔ ∃ k < u.maxUnits, u.unit k = 0)
  any_lowest : pos = SIZE_T_MAX → r.1 = none →
    r.2.1 < u.maxUnits ∧ u.unit r.2.1 = 0 ∧ ∀ k < r.2.1, u.unit k ≠ 0
  at_iff : pos ≠ SIZE_T_MAX → pos < u.maxUnits →
    (r.1 = none ↔ u.unit pos = 0 ∨ u.unit pos = TexID)
  at_pos : pos ≠ SIZE_T_MAX → pos < u.maxUnits → r.1 = none → r.2.1 = pos
  invalid : pos ≠ SIZE_T_MAX → u.maxUnits ≤ pos → r.1 = some .invalid_argument
  stored : r.1 = none → r.2.2.unit r.2.1 = TexID
  others : ∀ k, k ≠ r.2.1 → r.2.2.unit k = u.unit k
  unchanged : r.1 ≠ none → r.2.2 = u

variable {u : TextureUnit} {TexID : GLuint} {pos : Nat}

/-- An answer that leaves the table alone. -/
theorem AcquireAnswers.of_refused {e : errc} {p : Nat}
    (hany : pos = SIZE_T_MAX → ∀ k < u.maxUnits, u.unit k ≠ 0)
    (hat : pos ≠ SIZE_T_MAX → pos < u.maxUnits → u.unit pos ≠ 0 ∧ u.unit pos ≠ TexID)
    (he : pos ≠ SIZE_T_MAX → u.maxUnits ≤ pos → e = .invalid_argument) :
    AcquireAnswers u TexID pos (some e, p, u) where
  any_iff hmax := iff_of_false (Option.some_ne_none e) fun ⟨k, hk, h0⟩ => hany hmax k hk h0
  any_lowest _ h := by cases h
  at_iff hne hlt := iff_of_false (Option.some_ne_none e) (not_or.mpr (hat hne hlt))
  at_pos _ _ h := by cases h
  invalid hne hge := congrArg some (he hne hge)
  stored h := by cases h
  others _ _ := rfl
  unchanged _ := rfl

/-! ## The two paths -/

/-- Without a position: the lowest free unit, or none is free. -/
theorem acquire_any (h : u.Sized) (TexID : GLuint) :
    (∃ it < u.units.length, u.unit it = 0 ∧ (∀ k < it, u.unit k ≠ 0) ∧
      u.acquire TexID SIZE_T_MAX = (none, it, { u with units := u.units.set it TexID })) ∨
    (∀ k < u.maxUnits, u.unit k ≠ 0) ∧
      u.acquire TexID SIZE_T_MAX = (some .texture_unit_exhausted, SIZE_T_MAX, u) := by
  have hlen := h.length_units
  have hget : ∀ {k : Nat} (hk : k < u.units.length), u.unit k = u.units[k] := fun hk => by
    simp [unit, hk]
  unfold acquire
  rw [if_neg (not_not.mpr rfl)]
  cases hfind : u.units.findIdx? (· == 0) with
  | none =>
    rw [List.findIdx?_eq_none_iff] at hfind
    refine .inr ⟨fun k hk h0 => ?_, rfl⟩
    have hk' : k < u.units.length := by omega
    have hne := hfind u.units[k] (List.getElem_mem hk')
    rw [hget hk'] at h0
    simp [h0] at hne
  | some it =>
    rw [List.findIdx?_eq_some_iff_getElem] at hfind
    obtain ⟨hlt, h0, hbefore⟩ := hfind
    refine .inl ⟨it, hlt, by simpa [hget hlt] using h0, fun k hk hk0 => ?_, rfl⟩
    have hk' : k < u.units.length := by omega
    rw [hget hk'] at hk0
    exact hbefore k hk (by simp [hk0])

/-- At a unit of the table: the `||` refuses every name but 0. -/
theorem acquire_at (hID : TexID ≠ 0) (hne : pos ≠ SIZE_T_MAX) (hlt : pos < u.maxUnits) :
    u.acquire TexID pos = (some .texture_unit_mismatch, pos, u) := by
  have htest : u.unit pos ≠ TexID ∨ u.unit pos ≠ 0 := by
    by_contra h
    obtain ⟨hid, h0⟩ := not_or.mp h
    exact hID ((not_not.mp hid).symm.trans (not_not.mp h0))
  unfold acquire
  rw [if_pos hne, if_neg (by omega), if_pos htest]

theorem acquire_beyond (hne : pos ≠ SIZE_T_MAX) (hge : u.maxUnits ≤ pos) :
    u.acquire TexID pos = (some .invalid_argument, pos, u) := by
  unfold acquire
  rw [if_pos hne, if_pos hge]

theorem acquireAnswers_any (h : u.Sized) (TexID : GLuint) :
    AcquireAnswers u TexID SIZE_T_MAX (u.acquire TexID SIZE_T_MAX) := by
  rcases acquire_any h TexID with ⟨it, hlt, h0, hbefore, heq⟩ | ⟨hnone, heq⟩
  · have hit : it < u.maxUnits := h.length_units ▸ hlt
    rw [heq]
    exact {
      any_iff := fun _ => iff_of_true rfl ⟨it, hit, h0⟩
      any_lowest := fun _ _ => ⟨hit, h0, hbefore⟩
      at_iff := fun hne => absurd rfl hne
      at_pos := fun hne => absurd rfl hne
      invalid := fun hne => absurd rfl hne
      stored := fun _ => (unit_set hlt it u.activePos).trans (if_pos rfl)
      others := fun k hk => (unit_set hlt k u.activePos).trans (if_neg hk)
      unchanged := fun hset => absurd rfl hset }
  · rw [heq]
    exact .of_refused (fun _ => hnone) (fun hne => absurd rfl hne) fun hne => absurd rfl hne

end TextureUnit

open TextureUnit

/-- **Exactly when `acquire` answers right**, for a name other than 0. -/
theorem acquireAnswers_iff {u : TextureUnit} {TexID : GLuint} (h : u.Sized) (hID : TexID ≠ 0)
    (pos : Nat) :
    AcquireAnswers u TexID pos (u.acquire TexID pos) ↔
      pos = SIZE_T_MAX ∨ u.maxUnits ≤ pos ∨ (u.unit pos ≠ 0 ∧ u.unit pos ≠ TexID) := by
  by_cases hmax : pos = SIZE_T_MAX
  · subst hmax
    exact iff_of_true (acquireAnswers_any h TexID) (.inl rfl)
  · rw [or_iff_right hmax]
    by_cases hge : u.maxUnits ≤ pos
    · rw [acquire_beyond hmax hge]
      exact iff_of_true (.of_refused (fun he => absurd he hmax) (fun _ hlt => by omega)
        fun _ _ => rfl) (.inl hge)
    · have hlt : pos < u.maxUnits := not_le.mp hge
      rw [or_iff_right hge, acquire_at hID hmax hlt]
      constructor
      · intro ha
        have hrefused := (ha.at_iff hmax hlt).not.mp (Option.some_ne_none _)
        exact not_or.mp hrefused
      · exact fun hheld => .of_refused (fun he => absurd he hmax) (fun _ _ => hheld)
          fun _ hge' => absurd hge' hge

theorem acquireAnswers_iff_new :
    AcquireAnswers (TextureUnit.new 2) 5 SIZE_T_MAX ((TextureUnit.new 2).acquire 5 SIZE_T_MAX) :=
  (acquireAnswers_iff (u := .new 2) ⟨rfl, by decide⟩ (show (5 : GLuint) ≠ 0 by decide)
    SIZE_T_MAX).mpr (.inl rfl)

/-- A free unit asked for by its position is refused. -/
theorem acquire_refuses_free :
    ¬ AcquireAnswers (TextureUnit.new 2) 5 1 ((TextureUnit.new 2).acquire 5 1) := fun h => by
  have hfree := (h.at_iff (by decide) (by decide)).mpr (.inl rfl)
  revert hfree
  decide

end LearnNotes.Graphics
