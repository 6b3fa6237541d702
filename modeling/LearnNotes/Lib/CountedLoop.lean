import Mathlib.Data.Int.Basic

/-!
# Counted loops

A C loop that counts an `int` up, `for (int i = first; i <= last; ++i)`, whose rounds may fail.
`rounds` runs a number of rounds; `forTo` is the loop, which also fails when `++i` leaves the
range of `int`. A loop is reasoned about by what holds when round `i` starts: `forTo_ok` where
every round passes it on, `forTo_error` where the rounds up to one do and that one fails,
`forTo_overflow` where they all do but `i` does not.
-/

namespace Lib

variable {ε σ : Type} {step body : Nat → σ → Except ε σ} {Inv : Nat → σ → Prop} {s : σ} {e : ε}

@[simp] theorem ok_bind {τ : Type} (f : σ → Except ε τ) : (Except.ok s >>= f) = f s := rfl

@[simp] theorem error_bind {τ : Type} (f : σ → Except ε τ) :
    ((Except.error e : Except ε σ) >>= f) = .error e := rfl

@[simp] theorem pure_eq_ok : (pure s : Except ε σ) = .ok s := rfl

/-- `k` rounds from round `i` on, up to the first that fails. -/
def rounds (step : Nat → σ → Except ε σ) : Nat → Nat → σ → Except ε σ
  | 0, _, s => .ok s
  | k + 1, i, s =>
    match step i s with
    | .ok s => rounds step k (i + 1) s
    | .error e => .error e

theorem rounds_of_ok {k i : Nat} {t : σ} (h : step i s = .ok t) :
    rounds step (k + 1) i s = rounds step k (i + 1) t := by
  rw [rounds, h]

theorem rounds_of_error {k i : Nat} (h : step i s = .error e) :
    rounds step (k + 1) i s = .error e := by
  rw [rounds, h]

/-- What every round passes on holds after the last. -/
theorem rounds_ok {k i : Nat}
    (hstep : ∀ j t, i ≤ j → j < i + k → Inv j t → ∃ t', step j t = .ok t' ∧ Inv (j + 1) t')
    (h : Inv i s) : ∃ t, rounds step k i s = .ok t ∧ Inv (i + k) t := by
  induction k generalizing i s with
  | zero => exact ⟨s, rfl, h⟩
  | succ k ih =>
    obtain ⟨t, ht, hinv⟩ := hstep i s (by omega) (by omega) h
    obtain ⟨t', ht', hinv'⟩ := ih (fun j u hj hk => hstep j u (by omega) (by omega)) hinv
    refine ⟨t', by rw [rounds_of_ok ht, ht'], ?_⟩
    rw [← Nat.add_assoc, Nat.add_right_comm]
    exact hinv'

/-- A round that fails in every state the rounds before it can leave ends the loop. -/
theorem rounds_error {P : ε → Prop} {k i m : Nat}
    (hstep : ∀ j t, i ≤ j → j < i + k → Inv j t → ∃ t', step j t = .ok t' ∧ Inv (j + 1) t')
    (hfail : ∀ t, Inv (i + k) t → ∃ e, step (i + k) t = .error e ∧ P e) (hk : k < m)
    (h : Inv i s) : ∃ e, rounds step m i s = .error e ∧ P e := by
  induction k generalizing i s m with
  | zero =>
    obtain ⟨m, rfl⟩ : ∃ m', m = m' + 1 := ⟨m - 1, by omega⟩
    obtain ⟨e, he, hp⟩ := hfail s h
    exact ⟨e, rounds_of_error he, hp⟩
  | succ k ih =>
    obtain ⟨m, rfl⟩ : ∃ m', m = m' + 1 := ⟨m - 1, by omega⟩
    obtain ⟨t, ht, hinv⟩ := hstep i s (by omega) (by omega) h
    rw [rounds_of_ok ht]
    apply ih (fun j u hj hlt => hstep j u (by omega) (by omega)) _ (by omega) hinv
    rw [Nat.add_right_comm, Nat.add_assoc]
    exact hfail

/-- A round of a loop, and the `++i` behind it. -/
def counted (max : Nat) (overflow : ε) (body : Nat → σ → Except ε σ) (i : Nat) (s : σ) :
    Except ε σ :=
  match body i s with
  | .ok s => if i < max then .ok s else .error overflow
  | .error e => .error e

/-- `for (int i = first; i <= last; ++i) body`. -/
def forTo (max : Nat) (overflow : ε) (body : Nat → σ → Except ε σ) (first : Nat) (last : Int)
    (s : σ) : Except ε σ :=
  rounds (counted max overflow body) (last + 1 - first).toNat first s

variable {max first : Nat} {overflow : ε} {last : Int}

theorem counted_of_ok {i : Nat} {t : σ} (hi : i < max) (h : body i s = .ok t) :
    counted max overflow body i s = .ok t := by
  simp only [counted, h, if_pos hi]

theorem counted_of_error {i : Nat} (h : body i s = .error e) :
    counted max overflow body i s = .error e := by
  simp only [counted, h]

/-- The rounds a loop has to do pass on what the body does. -/
theorem counted_passes (overflow : ε) {n : Nat} (hn : n ≤ max)
    (hbody : ∀ j t, first ≤ j → j < n → Inv j t → ∃ t', body j t = .ok t' ∧ Inv (j + 1) t')
    (j : Nat) (t : σ) (hj : first ≤ j) (hlt : j < n) (h : Inv j t) :
    ∃ t', counted max overflow body j t = .ok t' ∧ Inv (j + 1) t' := by
  obtain ⟨t', ht, hinv⟩ := hbody j t hj hlt h
  exact ⟨t', counted_of_ok (by omega) ht, hinv⟩

/-- **The loop to its end**: `Inv` holds of the round that would be next. -/
theorem forTo_ok {n : Nat} (hn : n ≤ max) (hfirst : first ≤ n) (hlast : last = (n : Int) - 1)
    (hbody : ∀ j t, first ≤ j → j < n → Inv j t → ∃ t', body j t = .ok t' ∧ Inv (j + 1) t')
    (h : Inv first s) : ∃ t, forTo max overflow body first last s = .ok t ∧ Inv n t := by
  have hk : (last + 1 - first).toNat = n - first := by omega
  have hend : first + (n - first) = n := by omega
  rw [forTo, hk]
  have hrun := rounds_ok (k := n - first)
    (fun j t hj hlt => counted_passes overflow hn hbody j t hj (by omega)) h
  rwa [hend] at hrun

/-- **The loop up to the round that fails.** -/
theorem forTo_error {P : ε → Prop} {n : Nat} (hn : n ≤ max) (hfirst : first ≤ n)
    (hlast : (n : Int) ≤ last)
    (hbody : ∀ j t, first ≤ j → j < n → Inv j t → ∃ t', body j t = .ok t' ∧ Inv (j + 1) t')
    (hfail : ∀ t, Inv n t → ∃ e, body n t = .error e ∧ P e) (h : Inv first s) :
    ∃ e, forTo max overflow body first last s = .error e ∧ P e := by
  have hend : first + (n - first) = n := by omega
  apply rounds_error (k := n - first)
    (fun j t hj hlt => counted_passes overflow hn hbody j t hj (by omega)) _ (by omega) h
  rw [hend]
  intro t ht
  obtain ⟨e, he, hp⟩ := hfail t ht
  exact ⟨e, counted_of_error he, hp⟩

/-- **The loop past the range of `int`**: the last `++i` fails. -/
theorem forTo_overflow (hfirst : first ≤ max) (hlast : (max : Int) ≤ last)
    (hbody : ∀ j t, first ≤ j → j ≤ max → Inv j t → ∃ t', body j t = .ok t' ∧ Inv (j + 1) t')
    (h : Inv first s) : forTo max overflow body first last s = .error overflow := by
  have hend : first + (max - first) = max := by omega
  have hfail : ∃ e, forTo max overflow body first last s = .error e ∧ e = overflow := by
    apply rounds_error (k := max - first)
      (fun j t hj hlt => counted_passes overflow le_rfl
        (fun j t hj hlt => hbody j t hj (by omega)) j t hj (by omega)) _ (by omega) h
    rw [hend]
    intro t ht
    obtain ⟨t', ht', -⟩ := hbody max t hfirst le_rfl ht
    refine ⟨overflow, ?_, rfl⟩
    simp only [counted, ht', if_neg (Nat.lt_irrefl max)]
  obtain ⟨e, he, rfl⟩ := hfail
  exact he

/-- A loop whose first round is past the last does nothing. -/
theorem forTo_nil (h : last < first) : forTo max overflow body first last s = .ok s := by
  have hk : (last + 1 - first).toNat = 0 := by omega
  rw [forTo, hk, rounds]

end Lib
