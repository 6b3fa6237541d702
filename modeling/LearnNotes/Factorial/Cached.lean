import LearnNotes.Factorial.C

/-!
# The cache of the C version

The C version keeps its cache in `int32_t`, where `13!` is the first factorial without room, and
every call fills it up to `20!`. So every call overflows an `int` (`init_overflows`). Where the
machine wraps, the call still returns a number: it is that of the C++ version up to `12!`, wrong
from `13!` on, and right again from `54!` on, when the factors beyond the cache have pushed the
wrong bits out of the 64 (`agrees_iff`).
-/

namespace LearnNotes.Factorial.C

open Lib
open scoped Nat

/-- What a signed product out of range does. -/
inductive Overflow where
  | traps
  | wraps

def Overflow.product : Overflow → Int → Except Fault Int
  | .traps, value => int value
  | .wraps, value => .ok (value.bmod (2 ^ 32))

/-- The `int32_t` cells of `__factorial_cache`, of which there are `MAX_PRECOMPUTED + 1`. -/
abbrev Cache := Nat → Int

/-- The cache it fills; it returns `true`. -/
def init_factorial_cache (o : Overflow) (cache : Cache) : Except Fault Cache :=
  forTo INT_MAX .signedOverflow
    (fun i cache => do
      let value ← o.product (cache (i - 1) * i)
      return Function.update cache i value)
    1 MAX_PRECOMPUTED cache

/-- The result, and the cache as the call leaves it. -/
def optimized_factorial (o : Overflow) (n : Int) (cache : Cache) :
    Except Fault (UInt64 × Cache) := do
  let cache ← init_factorial_cache o cache
  if n < 0 then
    return (0, cache)
  else if n ≤ MAX_PRECOMPUTED then
    return (UInt64.ofInt (cache n.toNat), cache)
  else
    let result ← productLoop .signedOverflow n (UInt64.ofInt (cache MAX_PRECOMPUTED))
    return (result, cache)

/-- Both versions return `n!` modulo `2 ^ 64`. -/
def Agrees (o : Overflow) (n : Nat) (cache : Cache) (cppCache : Cpp.Cache) : Prop :=
  ∃ cache' cppCache', optimized_factorial o n cache = .ok (UInt64.ofNat n !, cache') ∧
    Cpp.optimized_factorial n cppCache = .ok (UInt64.ofNat n !, cppCache')

/-! ## Filling the cache -/

/-- `k!` in an `int32_t`. -/
def wrapped (k : Nat) : Int := (k ! : Int).bmod (2 ^ 32)

theorem wrapped_step {i : Nat} (hi : 1 ≤ i) :
    (wrapped (i - 1) * i).bmod (2 ^ 32) = wrapped i := by
  unfold wrapped
  rw [Int.bmod_mul_bmod, ← Nat.cast_mul, Nat.mul_comm, Nat.mul_factorial_pred (by omega)]

/-- Where products wrap. -/
theorem init_wraps {cache : Cache} (h : cache 0 = 1) :
    ∃ cache', init_factorial_cache .wraps cache = .ok cache' ∧
      Filled wrapped (MAX_PRECOMPUTED + 1) cache' := by
  apply forTo_ok (by decide) (by decide) (by decide) _ (Filled.first h)
  intro i cache hi _ hcache
  refine ⟨_, rfl, hcache.update ?_⟩
  rw [hcache (i - 1) (by omega), wrapped_step hi]

/-- **Round 13 overflows.** -/
theorem init_overflows {cache : Cache} (h : cache 0 = 1) :
    init_factorial_cache .traps cache = .error .signedOverflow := by
  have hrun : ∃ e, init_factorial_cache .traps cache = .error e ∧ e = .signedOverflow := by
    have hfirst : Filled wrapped 1 cache := Filled.first h
    apply forTo_error (n := 13) (by decide) (by decide) (by decide) _ _ hfirst
    · intro i cache hi hlt hcache
      have hproduct : int (wrapped (i - 1) * i) = .ok (wrapped i) := by
        interval_cases i <;> rfl
      rw [hcache (i - 1) (by omega), Overflow.product, hproduct]
      exact ⟨_, rfl, hcache.update rfl⟩
    · intro cache hcache
      have hproduct : int (wrapped 12 * (13 : Nat)) = .error .signedOverflow := rfl
      rw [hcache 12 (by decide), Overflow.product, hproduct]
      exact ⟨_, rfl, rfl⟩
  obtain ⟨e, he, rfl⟩ := hrun
  exact he

/-! ## Beyond the cache -/

theorem ofNat_eq_iff (a b : Nat) : UInt64.ofNat a = UInt64.ofNat b ↔ a ≡ b [MOD 2 ^ 64] := by
  rw [← UInt64.toNat_inj, UInt64.toNat_ofNat', UInt64.toNat_ofNat']
  rfl

/-- The last cell, `20!` cut to 32 bits, converted to `size_t`. -/
theorem last_cell : UInt64.ofInt (wrapped MAX_PRECOMPUTED) = UInt64.ofNat 0xFFFFFFFF82B40000 := by
  decide +kernel

theorem ascFactorial_dvd (n : Nat) {k l : Nat} (h : k ≤ l) :
    n.ascFactorial k ∣ n.ascFactorial l := by
  have hsplit := Nat.ascFactorial_mul_ascFactorial n k (l - k)
  rw [Nat.add_sub_cancel' h] at hsplit
  exact ⟨_, hsplit.symm⟩

/-- The factors beyond the cache have 32 factors 2 from 54 on. -/
theorem two_pow_dvd_iff {n : Nat} (h : MAX_PRECOMPUTED < n) :
    2 ^ 32 ∣ (MAX_PRECOMPUTED + 1).ascFactorial (n - MAX_PRECOMPUTED) ↔ 54 ≤ n := by
  have hmax : MAX_PRECOMPUTED = 20 := rfl
  constructor
  · intro hn
    by_contra hlt
    have h53 : ¬ 2 ^ 32 ∣ (MAX_PRECOMPUTED + 1).ascFactorial 33 := by decide +kernel
    exact h53 (hn.trans (ascFactorial_dvd _ (by omega)))
  · intro hn
    have h54 : 2 ^ 32 ∣ (MAX_PRECOMPUTED + 1).ascFactorial 34 := by decide +kernel
    exact h54.trans (ascFactorial_dvd _ (by omega))

/-- The product the loop comes to is that of the factorial when its factors are divisible so. -/
theorem product_eq_iff {n : Nat} (h : MAX_PRECOMPUTED < n) :
    UInt64.ofInt (wrapped MAX_PRECOMPUTED) *
        UInt64.ofNat ((MAX_PRECOMPUTED + 1).ascFactorial (n - MAX_PRECOMPUTED)) =
      UInt64.ofNat n ! ↔ 54 ≤ n := by
  have hfact : n ! = MAX_PRECOMPUTED ! *
      (MAX_PRECOMPUTED + 1).ascFactorial (n - MAX_PRECOMPUTED) := by
    rw [Nat.factorial_mul_ascFactorial, Nat.add_sub_cancel' (by omega)]
  rw [← two_pow_dvd_iff h, hfact, last_cell, ← UInt64.ofNat_mul, ofNat_eq_iff]
  generalize (MAX_PRECOMPUTED + 1).ascFactorial (n - MAX_PRECOMPUTED) = factors
  have hle : MAX_PRECOMPUTED ! ≤ 0xFFFFFFFF82B40000 := by decide
  have hdiff : 0xFFFFFFFF82B40000 - MAX_PRECOMPUTED ! = 2 ^ 32 * 0xDE3C9883 := by decide
  have hodd : Nat.Coprime (2 ^ 32) 0xDE3C9883 := by decide
  rw [Nat.ModEq.comm, Nat.modEq_iff_dvd' (Nat.mul_le_mul_right factors hle), ← Nat.sub_mul, hdiff,
    Nat.mul_assoc, show 2 ^ 64 = 2 ^ 32 * 2 ^ 32 from rfl,
    Nat.mul_dvd_mul_iff_left (by decide), hodd.dvd_mul_left]

/-! ## Both versions -/

variable {cache : Cache} {cppCache : Cpp.Cache} {n : Nat}

/-- What the C version returns where products wrap. -/
def wrappedResult (n : Nat) : UInt64 :=
  if n ≤ MAX_PRECOMPUTED then UInt64.ofInt (wrapped n)
  else UInt64.ofInt (wrapped MAX_PRECOMPUTED) *
    UInt64.ofNat ((MAX_PRECOMPUTED + 1).ascFactorial (n - MAX_PRECOMPUTED))

theorem wrappedResult_eq_iff (n : Nat) : wrappedResult n = UInt64.ofNat n ! ↔ n ≤ 12 ∨ 54 ≤ n := by
  have hmax : MAX_PRECOMPUTED = 20 := rfl
  unfold wrappedResult
  split
  · next hle =>
    have hsmall : ∀ k, k ≤ 20 → (UInt64.ofInt (wrapped k) = UInt64.ofNat k ! ↔ k ≤ 12) := by
      decide +kernel
    rw [hsmall n hle]
    omega
  · next hgt =>
    rw [product_eq_iff (by omega)]
    omega

theorem optimized_wraps (hn : n < INT_MAX) (h : cache 0 = 1) :
    ∃ cache', optimized_factorial .wraps n cache = .ok (wrappedResult n, cache') := by
  obtain ⟨cache', hinit, hfilled⟩ := init_wraps h
  refine ⟨cache', ?_⟩
  unfold optimized_factorial wrappedResult
  rw [hinit]
  by_cases hle : n ≤ MAX_PRECOMPUTED
  · have hcell : cache' n = _ := hfilled n (by omega)
    simp [hle, hcell]
  · have hlast : cache' MAX_PRECOMPUTED = _ := hfilled MAX_PRECOMPUTED (by omega)
    simp [hle, productLoop_ok (by omega) hn, hlast]

theorem optimized_traps (n : Int) (h : cache 0 = 1) :
    optimized_factorial .traps n cache = .error .signedOverflow := by
  rw [optimized_factorial, init_overflows h, error_bind]

/-- `__factorial_cache` as the program starts. -/
def factorial_cache : Cache := fun i => if i = 0 then 1 else 0

/-- `13!`, whether the overflow on the way traps or wraps. -/
theorem thirteen_disagrees :
    ¬ Agrees .traps 13 factorial_cache Cpp.factorial_cache ∧
      ¬ Agrees .wraps 13 factorial_cache Cpp.factorial_cache := by
  constructor
  · rintro ⟨cache', -, hc, -⟩
    rw [optimized_traps _ rfl] at hc
    cases hc
  · rintro ⟨cache', -, hc, -⟩
    have hfirst : factorial_cache 0 = 1 := rfl
    obtain ⟨cache'', hrun⟩ := optimized_wraps (n := 13) (by decide) hfirst
    rw [hrun] at hc
    have hvalue := (wrappedResult_eq_iff 13).mp (Prod.mk.inj (Except.ok.inj hc)).1
    omega

/-- **Every call overflows**, and where that wraps the result is right up to 12 and from 54 on. -/
theorem agrees_iff (n : Nat) (hcache : cache 0 = 1) (hcpp : cppCache 0 = 1) :
    ¬ Agrees .traps n cache cppCache ∧
      (Agrees .wraps n cache cppCache ↔ n < INT_MAX ∧ (n ≤ 12 ∨ 54 ≤ n)) := by
  refine ⟨?_, ?_, ?_⟩
  · rintro ⟨cache', -, hc, -⟩
    rw [optimized_traps _ hcache] at hc
    cases hc
  · rintro ⟨cache', cppCache', hc, hcpp'⟩
    have hn : n < INT_MAX := by
      by_contra hn
      rw [Cpp.optimized_overflows (by omega) hcpp] at hcpp'
      cases hcpp'
    obtain ⟨cache'', hrun⟩ := optimized_wraps hn hcache
    rw [hrun] at hc
    exact ⟨hn, (wrappedResult_eq_iff n).mp (Prod.mk.inj (Except.ok.inj hc)).1⟩
  · rintro ⟨hn, hvalue⟩
    obtain ⟨cache', hc⟩ := optimized_wraps hn hcache
    obtain ⟨cppCache', hcpp', -⟩ := Cpp.optimized_ok hn hcpp
    rw [(wrappedResult_eq_iff n).mpr hvalue] at hc
    exact ⟨cache', cppCache', hc, hcpp'⟩

theorem agrees_iff_60 :
    ¬ Agrees .traps 60 factorial_cache Cpp.factorial_cache ∧
      (Agrees .wraps 60 factorial_cache Cpp.factorial_cache ↔
        60 < INT_MAX ∧ (60 ≤ 12 ∨ 54 ≤ 60)) :=
  agrees_iff 60 rfl rfl

end LearnNotes.Factorial.C
