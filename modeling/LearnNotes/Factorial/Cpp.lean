import Mathlib
import LearnNotes.Lib.CountedLoop
import LearnNotes.Lib.Digits

/-!
# Factorials in C++

The C++ half of `learn_cpp/src/factorial.cpp`. `optimized_factorial` reads `n!` from a cache or
goes on from its last cell, in `uint64_t`; `big_factorial` multiplies decimal digits.
`big_factorial_exact`: the digits are those of `n!`, no product on the way wraps, and both give the
same number modulo `2 ^ 64`. `reduction_eq`: threads that share the rounds of the loop out come to
the same product.
-/

namespace LearnNotes.Factorial

open Lib
open scoped Nat

def INT_MAX : Nat := 2 ^ 31 - 1

def MAX_PRECOMPUTED : Nat := 20

/-- The cells below `i` hold their values. -/
def Filled {α : Type} (value : Nat → α) (i : Nat) (cache : Nat → α) : Prop :=
  ∀ k, k < i → cache k = value k

theorem Filled.first {α : Type} {value cache : Nat → α} (h : cache 0 = value 0) :
    Filled value 1 cache := by
  intro k hk
  obtain rfl : k = 0 := by omega
  exact h

theorem Filled.update {α : Type} {value cache : Nat → α} {i : Nat} {v : α}
    (h : Filled value i cache) (hv : v = value i) :
    Filled value (i + 1) (Function.update cache i v) := by
  intro k hk
  by_cases hki : k = i
  · rw [hki, Function.update_self, hv]
  · rw [Function.update_of_ne hki]
    exact h k (by omega)

/-- The loop beyond the cache, in both versions. -/
def productLoop {ε : Type} (overflow : ε) (n : Int) (result : UInt64) : Except ε UInt64 :=
  forTo INT_MAX overflow (fun i result => .ok (result * UInt64.ofNat i))
    (MAX_PRECOMPUTED + 1) n result

/-- `c` times the product of the rounds below `i`. -/
def Multiplied (c : UInt64) (i : Nat) (result : UInt64) : Prop :=
  result = c * UInt64.ofNat ((MAX_PRECOMPUTED + 1).ascFactorial (i - (MAX_PRECOMPUTED + 1)))

theorem Multiplied.first (c : UInt64) : Multiplied c (MAX_PRECOMPUTED + 1) c :=
  (UInt64.mul_one c).symm

theorem Multiplied.step {c result : UInt64} {i : Nat} (h : Multiplied c i result)
    (hi : MAX_PRECOMPUTED + 1 ≤ i) : Multiplied c (i + 1) (result * UInt64.ofNat i) := by
  obtain ⟨j, rfl⟩ := Nat.exists_eq_add_of_le hi
  unfold Multiplied at h ⊢
  rw [Nat.add_sub_cancel_left] at h
  rw [h, Nat.add_assoc (MAX_PRECOMPUTED + 1), Nat.add_sub_cancel_left, Nat.ascFactorial_succ,
    Nat.mul_comm (MAX_PRECOMPUTED + 1 + j), UInt64.ofNat_mul, UInt64.mul_assoc]

variable {ε : Type} {overflow : ε} {n : Nat}

theorem productLoop_ok (hlo : MAX_PRECOMPUTED < n) (hn : n < INT_MAX) (c : UInt64) :
    productLoop overflow n c =
      .ok (c * UInt64.ofNat ((MAX_PRECOMPUTED + 1).ascFactorial (n - MAX_PRECOMPUTED))) := by
  have hrun : ∃ result, productLoop overflow n c = .ok result ∧ Multiplied c (n + 1) result := by
    apply forTo_ok (by omega) (by omega) (by omega) _ (Multiplied.first c)
    intro i result hi _ h
    exact ⟨_, rfl, h.step hi⟩
  obtain ⟨result, hresult, hmul⟩ := hrun
  rw [hresult, hmul, Nat.add_sub_add_right]

theorem productLoop_overflows (hn : INT_MAX ≤ n) (c : UInt64) :
    productLoop overflow n c = .error overflow := by
  apply forTo_overflow (by decide) (by omega) _ (Multiplied.first c)
  intro i result hi _ h
  exact ⟨_, rfl, h.step hi⟩

namespace Cpp

inductive Fault where
  /-- The exception, with its text. -/
  | invalid_argument (what : String)
  /-- `++i` on `INT_MAX`. -/
  | signedOverflow

/-- The cells of `__factorial_cache`, of which there are `MAX_PRECOMPUTED + 1`. -/
abbrev Cache := Nat → UInt64

/-- The cache it fills; it returns `true`. -/
def init_factorial_cache (cache : Cache) : Except Fault Cache :=
  forTo INT_MAX .signedOverflow
    (fun i cache => .ok (Function.update cache i (cache (i - 1) * UInt64.ofNat i)))
    1 MAX_PRECOMPUTED cache

/-- A call with the default `cache`: the result, and the cache as it leaves it. -/
def optimized_factorial (n : Int) (cache : Cache) : Except Fault (UInt64 × Cache) := do
  let cache ← init_factorial_cache cache
  if n < 0 then
    throw (.invalid_argument "Negative input, Function: optimized_factorial")
  else if n ≤ MAX_PRECOMPUTED then
    return (cache n.toNat, cache)
  else
    let result ← productLoop .signedOverflow n (cache MAX_PRECOMPUTED)
    return (result, cache)

/-- `for (auto& d : digits)`: the digits it leaves, and the carry. -/
def digitLoop (i : Nat) : UInt64 → List UInt64 → List UInt64 × UInt64
  | carry, [] => ([], carry)
  | carry, d :: digits =>
    let temp := d * UInt64.ofNat i + carry
    let r := digitLoop i (temp / 10) digits
    (temp % 10 :: r.1, r.2)

theorem toNat_pos {carry : UInt64} (h : carry ≠ 0) : 0 < carry.toNat :=
  Nat.pos_of_ne_zero fun h0 => h (UInt64.toNat_inj.mp h0)

theorem toNat_div_lt {carry : UInt64} (h : carry ≠ 0) : (carry / 10).toNat < carry.toNat := by
  rw [UInt64.toNat_div]
  exact Nat.div_lt_self (toNat_pos h) (by decide)

/-- `while (carry)`. -/
def carryLoop (carry : UInt64) (digits : List UInt64) : List UInt64 :=
  if carry = 0 then digits else carryLoop (carry / 10) (digits ++ [carry % 10])
termination_by carry.toNat
decreasing_by exact toNat_div_lt (by assumption)

/-- A round of the loop over `i`. -/
def multiplyBy (i : Nat) (digits : List UInt64) : List UInt64 :=
  let r := digitLoop i 0 digits
  carryLoop r.2 r.1

/-- The digits once the loop has counted to `n`, the lowest first. -/
def digitsAfter (n : Int) : Except Fault (List UInt64) :=
  forTo INT_MAX .signedOverflow (fun i digits => .ok (multiplyBy i digits)) 1 n [1]

def big_factorial (n : Int) : Except Fault (List UInt64) := do
  let digits ← digitsAfter n
  return digits.reverse

/-! ## The fast path -/

theorem init_ok {cache : Cache} (h : cache 0 = 1) :
    ∃ cache', init_factorial_cache cache = .ok cache' ∧
      Filled (fun k => UInt64.ofNat k !) (MAX_PRECOMPUTED + 1) cache' := by
  apply forTo_ok (by decide) (by decide) (by decide) _ (Filled.first h)
  intro i cache hi _ hcache
  refine ⟨_, rfl, hcache.update ?_⟩
  rw [hcache (i - 1) (by omega), ← UInt64.ofNat_mul, Nat.mul_comm,
    Nat.mul_factorial_pred (by omega)]

/-- What `reduction(* : result)` comes to: every thread multiplies its rounds up from 1, and the
products are gathered into `result`. -/
def reduction (shares : List (List Nat)) (result : UInt64) : UInt64 :=
  shares.foldl (fun result share =>
    result * share.foldl (fun own i => own * UInt64.ofNat i) 1) result

theorem foldl_mul {α : Type} (f : α → UInt64) (l : List α) (c : UInt64) :
    l.foldl (fun r a => r * f a) c = c * (l.map f).prod := by
  induction l generalizing c with
  | nil => exact (UInt64.mul_one c).symm
  | cons a l ih => rw [List.foldl_cons, ih, List.map_cons, List.prod_cons, UInt64.mul_assoc]

theorem prod_range (n k : Nat) :
    ((List.range' n k).map UInt64.ofNat).prod = UInt64.ofNat (n.ascFactorial k) := by
  induction k with
  | zero => rfl
  | succ k ih =>
    rw [List.range'_1_concat, List.map_append, List.prod_append, ih, List.map_singleton,
      List.prod_singleton, Nat.ascFactorial_succ, Nat.mul_comm, UInt64.ofNat_mul]

/-- **However the threads share the rounds**, in whatever order they are done and gathered. -/
theorem reduction_eq {shares : List (List Nat)} (hlo : MAX_PRECOMPUTED < n) (hn : n < INT_MAX)
    (c : UInt64)
    (hshares : shares.flatten.Perm (List.range' (MAX_PRECOMPUTED + 1) (n - MAX_PRECOMPUTED))) :
    productLoop Fault.signedOverflow n c = .ok (reduction shares c) := by
  have hown : ∀ share : List Nat, share.foldl (fun own i => own * UInt64.ofNat i) 1 =
      (share.map UInt64.ofNat).prod := fun share => by rw [foldl_mul, UInt64.one_mul]
  have hall : (shares.map fun share => (share.map UInt64.ofNat).prod).prod =
      (shares.flatten.map UInt64.ofNat).prod := by
    rw [List.map_flatten, List.prod_flatten, List.map_map]
    rfl
  unfold reduction
  simp only [hown]
  rw [productLoop_ok hlo hn, foldl_mul, hall, (hshares.map UInt64.ofNat).prod_eq, prod_range]

/-- The call leaves the cache to the next call as it has to be. -/
theorem optimized_ok {cache : Cache} (hn : n < INT_MAX) (hcache : cache 0 = 1) :
    ∃ cache', optimized_factorial n cache = .ok (UInt64.ofNat n !, cache') ∧ cache' 0 = 1 := by
  obtain ⟨cache', hinit, hfilled⟩ := init_ok hcache
  refine ⟨cache', ?_, hfilled 0 (by decide)⟩
  unfold optimized_factorial
  rw [hinit]
  by_cases hle : n ≤ MAX_PRECOMPUTED
  · have hcell : cache' n = _ := hfilled n (by omega)
    simp [hle, hcell]
  · have hlast : cache' MAX_PRECOMPUTED = _ := hfilled MAX_PRECOMPUTED (by omega)
    have hprod :
        MAX_PRECOMPUTED ! * (MAX_PRECOMPUTED + 1).ascFactorial (n - MAX_PRECOMPUTED) = n ! := by
      rw [Nat.factorial_mul_ascFactorial, Nat.add_sub_cancel' (by omega)]
    simp [hle, productLoop_ok (by omega) hn, hlast, ← UInt64.ofNat_mul, hprod]

theorem optimized_overflows {cache : Cache} (hn : INT_MAX ≤ n) (hcache : cache 0 = 1) :
    optimized_factorial n cache = .error .signedOverflow := by
  obtain ⟨cache', hinit, -⟩ := init_ok hcache
  have hgt : ¬ n ≤ MAX_PRECOMPUTED := by
    have hmax : MAX_PRECOMPUTED < INT_MAX := by decide
    omega
  unfold optimized_factorial
  rw [hinit]
  simp [hgt, productLoop_overflows hn]

/-! ## The digits -/

/-- No product of the pass wraps. -/
def Exact (i : Nat) : UInt64 → List UInt64 → Prop
  | _, [] => True
  | carry, d :: digits =>
    d.toNat * i + carry.toNat < 2 ^ 64 ∧ Exact i ((d * UInt64.ofNat i + carry) / 10) digits

/-- No product of any round wraps. -/
def NoWrap (n : Int) : Prop :=
  ∀ (i : Nat) (digits : List UInt64), 1 ≤ i → i ≤ n → digitsAfter (i - 1) = .ok digits →
    Exact i 0 digits

theorem toNat_temp {i : Nat} {d carry : UInt64} (hi : i ≤ INT_MAX)
    (h : d.toNat * i + carry.toNat < 2 ^ 64) :
    (d * UInt64.ofNat i + carry).toNat = d.toNat * i + carry.toNat := by
  have hmax : INT_MAX < 2 ^ 64 := by decide
  have hofNat : (UInt64.ofNat i).toNat = i := Nat.mod_eq_of_lt (by omega)
  have hmul : (d * UInt64.ofNat i).toNat = d.toNat * i := by
    rw [UInt64.toNat_mul, hofNat, Nat.mod_eq_of_lt (by omega)]
  rw [UInt64.toNat_add, hmul, Nat.mod_eq_of_lt h]

/-- Digits below 10 and a carry below the factor keep every product in range. -/
theorem exact_of_digits {i : Nat} {carry : UInt64} {digits : List UInt64} (hi : i ≤ INT_MAX)
    (hcarry : carry.toNat < i) (hdigits : ∀ d ∈ digits, d.toNat < 10) : Exact i carry digits := by
  induction digits generalizing carry with
  | nil => trivial
  | cons d digits ih =>
    have hmax : 10 * INT_MAX < 2 ^ 64 := by decide
    have hd := hdigits d List.mem_cons_self
    have hlt := product_lt hd hcarry
    have hfits : d.toNat * i + carry.toNat < 2 ^ 64 := by omega
    refine ⟨hfits, ih ?_ fun d' hd' => hdigits d' (List.mem_cons_of_mem d hd')⟩
    rw [UInt64.toNat_div, toNat_temp hi hfits]
    exact carry_lt hd hcarry

/-- The pass over `uint64_t` digits is the pass over the numbers. -/
theorem digitLoop_eq {i : Nat} {carry : UInt64} {digits : List UInt64} (hi : i ≤ INT_MAX)
    (h : Exact i carry digits) :
    (digitLoop i carry digits).1.map UInt64.toNat =
        (mulPass 10 i carry.toNat (digits.map UInt64.toNat)).1 ∧
      (digitLoop i carry digits).2.toNat =
        (mulPass 10 i carry.toNat (digits.map UInt64.toNat)).2 := by
  induction digits generalizing carry with
  | nil => exact ⟨rfl, rfl⟩
  | cons d digits ih =>
    have htemp := toNat_temp hi h.1
    have hrest := ih h.2
    rw [UInt64.toNat_div, htemp] at hrest
    refine ⟨?_, hrest.2⟩
    simp only [digitLoop, List.map_cons, mulPass, UInt64.toNat_mod, htemp, hrest.1]
    rfl

theorem toNat_carryLoop (carry : UInt64) (digits : List UInt64) :
    (carryLoop carry digits).map UInt64.toNat =
      digits.map UInt64.toNat ++ Nat.digits 10 carry.toNat := by
  fun_induction carryLoop carry digits with
  | case1 digits => simp
  | case2 carry digits h ih =>
    rw [ih, Nat.digits_def' (by decide) (toNat_pos h), UInt64.toNat_div, List.map_append,
      List.append_assoc]
    rfl

/-- The digits of a number, the lowest first. -/
def DigitsOf (v : Nat) (digits : List UInt64) : Prop :=
  digits.map UInt64.toNat = Nat.digits 10 v

theorem DigitsOf.lt {v : Nat} {digits : List UInt64} (h : DigitsOf v digits) :
    ∀ d ∈ digits, d.toNat < 10 := by
  intro d hd
  have hmem : d.toNat ∈ Nat.digits 10 v := by
    rw [← h]
    exact List.mem_map_of_mem hd
  exact Nat.digits_lt_base (by decide) hmem

theorem DigitsOf.exact {v i : Nat} {digits : List UInt64} (h : DigitsOf v digits) (hpos : 1 ≤ i)
    (hi : i ≤ INT_MAX) : Exact i 0 digits :=
  exact_of_digits hi hpos h.lt

theorem DigitsOf.multiplyBy {v i : Nat} {digits : List UInt64} (h : DigitsOf v digits)
    (hpos : 1 ≤ i) (hi : i ≤ INT_MAX) : DigitsOf (v * i) (multiplyBy i digits) := by
  obtain ⟨hlow, hcarry⟩ := digitLoop_eq hi (h.exact hpos hi)
  have hdigits := mulPass_digits (by decide : 1 < 10) hpos 0 v
  unfold DigitsOf Cpp.multiplyBy
  rw [toNat_carryLoop, hlow, hcarry, h]
  exact hdigits

/-- What the loop holds when round `i` starts. -/
def Before (i : Nat) (digits : List UInt64) : Prop := DigitsOf (i - 1)! digits

theorem Before.step {i : Nat} {digits : List UInt64} (h : Before i digits) (hpos : 1 ≤ i)
    (hi : i ≤ INT_MAX) : Before (i + 1) (Cpp.multiplyBy i digits) := by
  have hstep := h.multiplyBy hpos hi
  rwa [Nat.mul_comm, Nat.mul_factorial_pred (by omega)] at hstep

theorem digitsAfter_ok (hn : n < INT_MAX) :
    ∃ digits, digitsAfter n = .ok digits ∧ DigitsOf n ! digits := by
  have hrun : ∃ digits, digitsAfter n = .ok digits ∧ Before (n + 1) digits := by
    have hfirst : Before 1 [1] := by simp [Before, DigitsOf]
    apply forTo_ok (by omega) (by omega) (by omega) _ hfirst
    intro i digits hi hlt h
    exact ⟨_, rfl, h.step hi (by omega)⟩
  exact hrun

theorem noWrap (hn : n < INT_MAX) : NoWrap n := by
  intro i digits hpos hi hdigits
  obtain ⟨digits', hrun, hof⟩ := digitsAfter_ok (n := i - 1) (by omega)
  rw [Nat.cast_sub hpos, Nat.cast_one, hdigits] at hrun
  cases hrun
  exact hof.exact hpos (by omega)

/-! ## Both together -/

/-- The number digits denote, the highest first. -/
def number (digits : List UInt64) : Nat := digits.foldl (fun v d => 10 * v + d.toNat) 0

theorem number_reverse (digits : List UInt64) :
    number digits.reverse = Nat.ofDigits 10 (digits.map UInt64.toNat) := by
  rw [number, List.foldl_reverse]
  induction digits with
  | nil => rfl
  | cons d digits ih =>
    rw [List.foldr_cons, ih, List.map_cons, Nat.ofDigits_cons, Nat.add_comm]

theorem head_reverse_ne {v : Nat} {digits : List UInt64} (h : DigitsOf v digits) (hv : v ≠ 0) :
    digits.reverse.head? ≠ some 0 := by
  rw [List.head?_reverse]
  intro hlast
  have hzero : (digits.map UInt64.toNat).getLast? = some 0 := by
    rw [List.getLast?_map, hlast]
    rfl
  rw [h, List.getLast?_eq_some_getLast (Nat.digits_ne_nil_iff_ne_zero.mpr hv)] at hzero
  exact Nat.getLast_digit_ne_zero 10 hv (Option.some.inj hzero)

/-- **The big factorial is exact**, and the fast path agrees with it. -/
theorem big_factorial_exact {n : Int} {cache : Cache} (h0 : 0 ≤ n) (hn : n < INT_MAX)
    (hcache : cache 0 = 1) :
    ∃ digits value cache', big_factorial n = .ok digits ∧
      optimized_factorial n cache = .ok (value, cache') ∧ cache' 0 = 1 ∧
      digits.map UInt64.toNat = (Nat.digits 10 n.toNat !).reverse ∧
      (∀ d ∈ digits, d.toNat ≤ 9) ∧ digits.head? ≠ some 0 ∧ NoWrap n ∧
      number digits ≡ value.toNat [MOD 2 ^ 64] ∧ (n ≤ 20 → number digits = value.toNat) := by
  lift n to Nat using h0
  have hlt : n < INT_MAX := by omega
  obtain ⟨digits, hdigits, hof⟩ := digitsAfter_ok hlt
  obtain ⟨cache', hfast, hkept⟩ := optimized_ok hlt hcache
  have hnumber : number digits.reverse = n ! := by
    rw [number_reverse, hof, Nat.ofDigits_digits]
  refine ⟨digits.reverse, UInt64.ofNat n !, cache', ?_, hfast, hkept, ?_, ?_, ?_, noWrap hlt,
    ?_, ?_⟩
  · rw [big_factorial, hdigits]
    rfl
  · rw [List.map_reverse, hof, Int.toNat_natCast]
  · intro d hd
    exact Nat.le_of_lt_succ (hof.lt d (List.mem_reverse.mp hd))
  · exact head_reverse_ne hof (Nat.factorial_ne_zero n)
  · rw [hnumber, UInt64.toNat_ofNat']
    exact (Nat.mod_modEq _ _).symm
  · intro hsmall
    have hle : n ! ≤ 20 ! := Nat.factorial_le (by omega)
    have h20 : 20 ! < 2 ^ 64 := by decide
    rw [hnumber, UInt64.toNat_ofNat', Nat.mod_eq_of_lt (by omega)]

/-- `__factorial_cache` as the program starts. -/
def factorial_cache : Cache := fun i => if i = 0 then 1 else 0

theorem big_factorial_exact_25 :
    ∃ digits value cache', big_factorial 25 = .ok digits ∧
      optimized_factorial 25 factorial_cache = .ok (value, cache') ∧ cache' 0 = 1 ∧
      digits.map UInt64.toNat = (Nat.digits 10 (25 : Int).toNat !).reverse ∧
      (∀ d ∈ digits, d.toNat ≤ 9) ∧ digits.head? ≠ some 0 ∧ NoWrap 25 ∧
      number digits ≡ value.toNat [MOD 2 ^ 64] ∧
      ((25 : Int) ≤ 20 → number digits = value.toNat) :=
  big_factorial_exact (by decide) (by decide) rfl

end Cpp
end LearnNotes.Factorial
