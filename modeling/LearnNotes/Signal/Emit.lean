import LearnNotes.Signal.Table

/-!
# Emission while callbacks change the table

The loop of `signal_emit` goes up the live table. A slot that stays connected moves only when
a `signal_disconnect` puts it, the last one, in the place of the slot removed. Where that
place is one the loop has been at and the last one is not, the slot is never invoked
(`Moment.Skips`); nothing else goes wrong: `invokesEach_iff`.
-/

namespace LearnNotes.Signal

open Lib

variable {F : Type} [DecidableEq F] {sig : signal_t F} {l l' : List F} {e : Emission F}
  {c : Call F} {f g : F} {i k p p' : Nat}

namespace Moment

/-- The call disconnects `f`. -/
def Disconnects (m : Moment F) (f : F) : Prop :=
  m.call = .disconnect (some f) ∧ (m.call.on m.sig).1 = EXIT_SUCCESS

instance (m : Moment F) (f : F) : Decidable (m.Disconnects f) :=
  inferInstanceAs (Decidable (_ ∧ _))

/-- The call removes a slot the loop has been at, and `f` takes its place from the end of the
table, where the loop has yet to come. -/
def Skips (m : Moment F) (f : F) : Prop :=
  ∃ g j, m.call = .disconnect (some g) ∧ m.sig.find g = some j ∧ j ≤ m.index ∧
    m.index + 1 < m.sig.slot_count.toNat ∧ m.sig.entry (m.sig.slot_count.toNat - 1) = some f

end Moment

/-- `f` is connected when the emission starts and is not disconnected during it. -/
structure Stays (start : signal_t F) (e : Emission F) (f : F) : Prop where
  connected : ∃ i < start.slot_count.toNat, start.entry i = some f
  kept : ∀ m ∈ e.made, ¬ m.Disconnects f

/-- Every slot that stays is invoked exactly once. -/
def InvokesEach (script : Nat → F → List (Call F)) (sig : signal_t F) : Prop :=
  ∀ f, Stays sig (Emission.of script sig) f → (Emission.of script sig).invoked.count f = 1

/-- No call of the emission skips a slot that stays. -/
def SkipsNone (script : Nat → F → List (Call F)) (sig : signal_t F) : Prop :=
  ∀ f, Stays sig (Emission.of script sig) f → ∀ m ∈ (Emission.of script sig).made, ¬ m.Skips f

/-! ## One slot through the loop -/

/-- `f` stands at `p`, and the loop has been at the indices below `k`. -/
structure Tracked (f : F) (k : Nat) (e : Emission F) (l : List F) (p : Nat) : Prop where
  holds : Holds e.sig l
  pos : l[p]? = some f
  reached : p < k → (e.invoked.count f = 1 ↔ ∀ m ∈ e.made, ¬ m.Skips f)
  ahead : k ≤ p → e.invoked.count f = 0 ∧ ∀ m ∈ e.made, ¬ m.Skips f

/-- `f` was disconnected, or is tracked. -/
def Follows (f : F) (k : Nat) (e : Emission F) : Prop :=
  (∃ m ∈ e.made, m.Disconnects f) ∨ ∃ l p, Tracked f k e l p

/-- A call that moves `f` to `p'` skips it iff that takes it from ahead to behind. -/
theorem Tracked.make (h : Tracked f (i + 1) e l p) (hholds : Holds (e.make i c).sig l')
    (hpos : l'[p']? = some f) (hback : p < i + 1 → p' < i + 1)
    (hskips : Moment.Skips ⟨i, e.sig, c⟩ f ↔ i + 1 ≤ p ∧ p' < i + 1) :
    Tracked f (i + 1) (e.make i c) l' p' := by
  have hmade : (∀ m ∈ (e.make i c).made, ¬ m.Skips f) ↔
      (∀ m ∈ e.made, ¬ m.Skips f) ∧ ¬ (i + 1 ≤ p ∧ p' < i + 1) := by
    rw [← hskips]
    show (∀ m ∈ e.made ++ [⟨i, e.sig, c⟩], ¬ m.Skips f) ↔ _
    simp only [List.mem_append, List.mem_singleton, or_imp, forall_and, forall_eq]
  refine ⟨hholds, hpos, fun hp' => ?_, fun hp' => ?_⟩
  · rw [hmade]
    rcases Nat.lt_or_ge p (i + 1) with hp | hp
    · rw [and_iff_left (fun hcross => by omega)]
      exact h.reached hp
    · have hzero : (e.make i c).invoked.count f = 0 := (h.ahead hp).1
      rw [hzero]
      simp [hp, hp']
  · have hp : i + 1 ≤ p := by
      by_contra hlt
      exact absurd (hback (Nat.lt_of_not_le hlt)) (Nat.not_lt.mpr hp')
    exact ⟨(h.ahead hp).1, hmade.mpr ⟨(h.ahead hp).2, fun hcross => by omega⟩⟩

/-- A call that leaves `f` where it is. -/
theorem skips_iff_stays (h : ¬ Moment.Skips ⟨i, e.sig, c⟩ f) (hpos : l'[p]? = some f) :
    ∃ p', l'[p']? = some f ∧ (p < i + 1 → p' < i + 1) ∧
      (Moment.Skips ⟨i, e.sig, c⟩ f ↔ i + 1 ≤ p ∧ p' < i + 1) :=
  ⟨p, hpos, id, iff_of_false h fun hcross => by omega⟩

/-- A slot removed at `j` by the callback of index `i`. -/
theorem Tracked.skips_iff (h : Tracked f k e l p) {j : Nat} (hj : l.idxOf? g = some j) :
    Moment.Skips ⟨i, e.sig, .disconnect (some g)⟩ f ↔
      j ≤ i ∧ i + 1 < l.length ∧ p + 1 = l.length := by
  obtain ⟨hp, -⟩ := List.getElem?_eq_some_iff.mp h.pos
  constructor
  · rintro ⟨g', j', hcall, hfind, hji, hilast, hentry⟩
    cases hcall
    rw [h.holds.find, hj, Option.some.injEq] at hfind
    rw [h.holds.count] at hilast hentry
    rw [h.holds.entry, ← h.pos] at hentry
    have hp' : l.length - 1 = p :=
      (List.getElem?_inj (by omega) h.holds.nodup).mp hentry
    exact ⟨hfind ▸ hji, hilast, by omega⟩
  · rintro ⟨hji, hilast, hlast⟩
    refine ⟨g, j, rfl, ?_, hji, ?_, ?_⟩
    · rw [h.holds.find, hj]
    · rw [h.holds.count]
      exact hilast
    · rw [h.holds.count, h.holds.entry, ← hlast, Nat.add_sub_cancel, h.pos]

/-- What a call can do to the list decides whether it skips `f`. -/
theorem Tracked.takes (h : Tracked f k e l p) {rc : Int} (htakes : Takes l c rc l')
    (hkept : ¬ (c = .disconnect (some f) ∧ rc = EXIT_SUCCESS)) (i : Nat) :
    ∃ p', l'[p']? = some f ∧ (p < i + 1 → p' < i + 1) ∧
      (Moment.Skips ⟨i, e.sig, c⟩ f ↔ i + 1 ≤ p ∧ p' < i + 1) := by
  obtain ⟨hp, -⟩ := List.getElem?_eq_some_iff.mp h.pos
  cases htakes with
  | present | full | connect_null | disconnect_null =>
    exact skips_iff_stays (by rintro ⟨g, j, hcall, -⟩; cases hcall) h.pos
  | added =>
    refine skips_iff_stays (by rintro ⟨g, j, hcall, -⟩; cases hcall) ?_
    rw [List.getElem?_append_left hp]
    exact h.pos
  | absent hg =>
    refine skips_iff_stays ?_ h.pos
    rintro ⟨g, j, hcall, hfind, -⟩
    cases hcall
    rw [h.holds.find, List.idxOf?_eq_none_iff.mpr hg] at hfind
    cases hfind
  | @removed g j hj =>
    have hget := getElem?_of_idxOf? hj
    have hne : f ≠ g := by
      rintro rfl
      exact hkept ⟨rfl, rfl⟩
    have hjp : j ≠ p := by
      rintro rfl
      exact hne (Option.some.inj (h.pos.symm.trans hget))
    rcases Nat.lt_or_eq_of_le (Nat.succ_le_of_lt hp) with hlast | hlast
    · -- Another slot is the last one.
      refine ⟨p, getElem?_swapRemove_of_lt hget h.pos hlast hne, id, ?_⟩
      rw [h.skips_iff hj]
      omega
    · -- `f` is the last one and moves to `j`.
      obtain ⟨hjl, -⟩ := List.getElem?_eq_some_iff.mp hget
      refine ⟨j, getElem?_swapRemove_last hget h.pos hlast hne, fun hlt => by omega, ?_⟩
      rw [h.skips_iff hj]
      omega

/-- **Step.** A call of the callback the loop is at. -/
theorem Follows.make (h : Follows f (i + 1) e) (c : Call F) : Follows f (i + 1) (e.make i c) := by
  rcases h with ⟨m, hm, hdisc⟩ | ⟨l, p, h⟩
  · exact .inl ⟨m, List.mem_append_left _ hm, hdisc⟩
  by_cases hkept : c = .disconnect (some f) ∧ (c.on e.sig).1 = EXIT_SUCCESS
  · exact .inl ⟨⟨i, e.sig, c⟩, List.mem_append_right _ (List.mem_singleton_self _), hkept⟩
  obtain ⟨sig', l', hon, htakes, hholds⟩ := h.holds.on c
  obtain ⟨p', hpos, hback, hskips⟩ := h.takes htakes hkept i
  have hsig : (e.make i c).sig = sig' := by
    show (c.on e.sig).2.getD e.sig = sig'
    rw [hon]
    rfl
  exact .inr ⟨l', p', h.make (hsig ▸ hholds) hpos hback hskips⟩

theorem Follows.foldl_make (h : Follows f (i + 1) e) (calls : List (Call F)) :
    Follows f (i + 1) (calls.foldl (Emission.make i) e) := by
  induction calls generalizing e with
  | nil => exact h
  | cons c calls ih => exact ih (h.make c)

/-- The slot of index `i` is invoked. -/
theorem Follows.invoke (h : Follows f i e) (hg : e.sig.entry i = some g) :
    Follows f (i + 1) { e with invoked := e.invoked ++ [g] } := by
  rcases h with hdisc | ⟨l, p, h⟩
  · exact .inl hdisc
  rw [h.holds.entry] at hg
  have hcount : (e.invoked ++ [g]).count f = e.invoked.count f + if p = i then 1 else 0 := by
    rw [List.count_append, List.count_singleton]
    congr 1
    by_cases hpi : p = i
    · rw [← hpi, h.pos, Option.some.injEq] at hg
      simp [hg, hpi]
    · have hne : g ≠ f := by
        rintro rfl
        obtain ⟨hp, -⟩ := List.getElem?_eq_some_iff.mp h.pos
        exact hpi ((List.getElem?_inj hp h.holds.nodup).mp (h.pos.trans hg.symm))
      simp [hne, hpi]
  refine .inr ⟨l, p, h.holds, h.pos, fun hp => ?_, fun hp => ?_⟩
  · show (e.invoked ++ [g]).count f = 1 ↔ _
    rw [hcount]
    rcases Nat.lt_or_eq_of_le (Nat.le_of_lt_succ hp) with hlt | rfl
    · rw [if_neg (Nat.ne_of_lt hlt), Nat.add_zero]
      exact h.reached hlt
    · obtain ⟨hzero, hnone⟩ := h.ahead (Nat.le_refl _)
      rw [hzero, if_pos rfl]
      exact iff_of_true rfl hnone
  · obtain ⟨hzero, hnone⟩ := h.ahead (Nat.le_of_succ_le hp)
    refine ⟨?_, hnone⟩
    show (e.invoked ++ [g]).count f = 0
    rw [hcount, hzero, if_neg (Nat.ne_of_gt hp)]

/-- **Step.** A round of the loop. -/
theorem Follows.visit (h : Follows f i e) (hi : i < e.sig.slot_count.toNat)
    (script : Nat → F → List (Call F)) : Follows f (i + 1) (e.visit script i) := by
  unfold Emission.visit
  cases hentry : e.sig.entry i with
  | some g => exact (h.invoke hentry).foldl_make _
  | none =>
    rcases h with hdisc | ⟨l, p, h⟩
    · exact .inl hdisc
    · rw [h.holds.count] at hi
      rw [h.holds.entry, List.getElem?_eq_getElem hi] at hentry
      cases hentry

/-- **Run.** At the end of the loop `f` was invoked once, unless it was disconnected or
skipped. -/
theorem Follows.loop (script : Nat → F → List (Call F)) :
    ∀ (n i : Nat) (e : Emission F), n + i = 255 → Follows f i e →
      (∃ m ∈ (Emission.loop script n i e).made, m.Disconnects f) ∨
        ((Emission.loop script n i e).invoked.count f = 1 ↔
          ∀ m ∈ (Emission.loop script n i e).made, ¬ m.Skips f) := by
  have hend : ∀ (i : Nat) (e : Emission F), e.sig.slot_count.toNat ≤ i → Follows f i e →
      (∃ m ∈ e.made, m.Disconnects f) ∨
        (e.invoked.count f = 1 ↔ ∀ m ∈ e.made, ¬ m.Skips f) := by
    intro i e hi h
    rcases h with hdisc | ⟨l, p, h⟩
    · exact .inl hdisc
    · obtain ⟨hp, -⟩ := List.getElem?_eq_some_iff.mp h.pos
      rw [h.holds.count] at hi
      exact .inr (h.reached (by omega))
  intro n
  induction n with
  | zero =>
    intro i e hi h
    have hcount := e.sig.slot_count.toNat_lt
    exact hend i e (by omega) h
  | succ n ih =>
    intro i e hi h
    unfold Emission.loop
    split_ifs with hlt
    · exact ih (i + 1) _ (by omega) (h.visit hlt script)
    · exact hend i e (Nat.le_of_not_lt hlt) h

/-- Nothing was invoked at the start. -/
theorem Holds.follows (h : Holds sig l) (hf : ∃ j < sig.slot_count.toNat, sig.entry j = some f) :
    Follows f 0 ⟨sig, [], []⟩ := by
  obtain ⟨p, -, hp⟩ := hf
  rw [h.entry] at hp
  refine .inr ⟨l, p, h, hp, fun hlt => absurd hlt (Nat.not_lt_zero p), fun _ => ?_⟩
  exact ⟨List.count_nil, fun m hm => absurd hm List.not_mem_nil⟩

/-- **Emission under mutation**, for any signal its functions made and any callbacks. -/
theorem invokesEach_iff (name : String) (calls : List (Call F))
    (script : Nat → F → List (Call F)) :
    InvokesEach script ((signal F name).after calls) ↔
      SkipsNone script ((signal F name).after calls) := by
  obtain ⟨l, hl⟩ := exists_holds name calls
  refine forall₂_congr fun f hf => ?_
  rcases Follows.loop script 255 0 _ rfl (hl.follows hf.connected) with ⟨m, hm, hdisc⟩ | hiff
  · exact absurd hdisc (hf.kept m hm)
  · exact hiff

/-- Three slots, of which the first disconnects itself: the third takes its place and is
passed over. -/
theorem disconnect_skips :
    ¬ InvokesEach (fun _ f => if f = 0 then [.disconnect (some 0)] else [])
      ((signal Nat "sig").after [.connect (some 0), .connect (some 1), .connect (some 2)]) := by
  intro h
  have hcount := h 2 ⟨⟨2, by decide, by decide⟩, by decide⟩
  revert hcount
  decide

end LearnNotes.Signal
