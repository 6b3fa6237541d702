import LearnNotes.Lib.Crc
import Mathlib.Algebra.CharP.Two
import Mathlib.Algebra.Field.ZMod
import Mathlib.Algebra.Polynomial.OfFn
import Mathlib.Dynamics.PeriodicPts.Lemmas
import Mathlib.RingTheory.AdjoinRoot

/-!
# Cyclic redundancy checks as polynomials

A register is a polynomial over the field of two elements, its highest bit the constant
coefficient (`toPoly`), and a bit step multiplies it by `X` modulo the generator
(`residue_bit`). Registers are the remainders (`residue_inj`), so what a message leaves is its
remainder behind the register it started from: `foldl_feed_eq_iff`. Many steps are one product
with a power of `X` (`IsPower.iterate`), which is how a period is found: `minimalPeriod_eq`.
-/

namespace Lib.Crc

open Polynomial

variable {w n : Nat}

/-- The register as a polynomial: the highest bit is the constant coefficient. -/
noncomputable def toPoly (r : BitVec w) : (ZMod 2)[X] :=
  ofFn w fun i => if r.getMsbD i then 1 else 0

theorem coeff_toPoly (r : BitVec w) (k : Nat) :
    (toPoly r).coeff k = if r.getMsbD k then 1 else 0 := by
  unfold toPoly
  by_cases hk : k < w
  · rw [ofFn_coeff_eq_val_of_lt _ hk]
  · rw [ofFn_coeff_eq_zero_of_ge _ (not_lt.mp hk), BitVec.getMsbD_of_ge r k (not_lt.mp hk)]
    rfl

theorem degree_toPoly_lt (r : BitVec w) : (toPoly r).degree < w := ofFn_degree_lt _

theorem add_of_bool (a b : Bool) : (if a then 1 else 0) + (if b then 1 else 0) =
    (if a ^^ b then 1 else 0 : ZMod 2) := by
  cases a <;> cases b <;> decide

@[simp] theorem toPoly_zero : toPoly (0 : BitVec w) = 0 := by
  ext k
  simp [coeff_toPoly]

theorem toPoly_xor (r s : BitVec w) : toPoly (r ^^^ s) = toPoly r + toPoly s := by
  ext k
  rw [coeff_add, coeff_toPoly, coeff_toPoly, coeff_toPoly, add_of_bool, BitVec.getMsbD_xor]

theorem toPoly_inj {r s : BitVec w} : toPoly r = toPoly s ↔ r = s := by
  refine ⟨fun h => BitVec.eq_of_getMsbD_eq fun i hi => ?_, fun h => h ▸ rfl⟩
  have hi := congrArg (coeff · i) h
  simp only [coeff_toPoly] at hi
  cases hr : r.getMsbD i <;> cases hs : s.getMsbD i <;> simp [hr, hs] at hi ⊢

variable (poly : BitVec w)

/-- The polynomial of the check: `poly` without its leading term. -/
noncomputable def generator : (ZMod 2)[X] := X ^ w + toPoly poly

theorem degree_generator : (generator poly).degree = w := by
  unfold generator
  have hlt : (toPoly poly).degree < (X ^ w : (ZMod 2)[X]).degree := by
    rw [degree_X_pow]
    exact degree_toPoly_lt poly
  rw [degree_add_eq_left_of_degree_lt hlt, degree_X_pow]

theorem bit_eq (r : BitVec w) :
    bit poly r = (r >>> 1) ^^^ (if r.getLsbD 0 then poly else 0) := by
  unfold bit
  split
  · rfl
  · exact (BitVec.xor_zero).symm

theorem coeff_ite_X_pow (b : Bool) (k : Nat) :
    (if b then (X : (ZMod 2)[X]) ^ w else 0).coeff k = if b ∧ k = w then 1 else 0 := by
  cases b with
  | false => simp
  | true => simp [coeff_X_pow]

/-- The lowest bit is the leading coefficient, and falls out. -/
theorem toPoly_ushiftRight (r : BitVec w) :
    toPoly (r >>> 1) = X * toPoly r + if r.getLsbD 0 then X ^ w else 0 := by
  ext k
  rw [coeff_add, coeff_toPoly, BitVec.getMsbD_ushiftRight, coeff_ite_X_pow]
  cases k with
  | zero =>
    rw [coeff_X_mul_zero]
    cases w with
    | zero => simp
    | succ w => simp
  | succ k =>
    rw [coeff_X_mul, coeff_toPoly, Nat.add_sub_cancel]
    rcases lt_trichotomy (k + 1) w with h | h | h
    · rw [if_neg (show ¬(r.getLsbD 0 = true ∧ k + 1 = w) by omega), add_zero]
      simp [h]
    · have hlow : r.getMsbD k = r.getLsbD 0 := by
        rw [BitVec.getMsbD_eq_getLsbD, decide_eq_true (by omega), Bool.true_and]
        congr 1
        omega
      rw [hlow]
      cases r.getLsbD 0 with
      | false => simp
      | true =>
        simp [h]
        decide
    · rw [if_neg (show ¬(r.getLsbD 0 = true ∧ k + 1 = w) by omega),
        r.getMsbD_of_ge k (by omega)]
      simp

/-- **A bit step multiplies by `X`**, less the generator where a one falls out. -/
theorem toPoly_bit (r : BitVec w) :
    toPoly (bit poly r) = X * toPoly r + if r.getLsbD 0 then generator poly else 0 := by
  rw [bit_eq, toPoly_xor, toPoly_ushiftRight, add_assoc]
  split
  · rfl
  · rw [toPoly_zero, add_zero]

/-- The register in the quotient by the generator. -/
noncomputable def residue (r : BitVec w) : AdjoinRoot (generator poly) :=
  AdjoinRoot.mk (generator poly) (toPoly r)

@[simp] theorem residue_zero : residue poly 0 = 0 := by
  rw [residue, toPoly_zero, map_zero]

theorem residue_xor (r s : BitVec w) :
    residue poly (r ^^^ s) = residue poly r + residue poly s := by
  rw [residue, toPoly_xor, map_add]
  rfl

theorem residue_bit (r : BitVec w) :
    residue poly (bit poly r) = AdjoinRoot.root (generator poly) * residue poly r := by
  rw [residue, toPoly_bit, map_add, map_mul, AdjoinRoot.mk_X]
  split
  · rw [AdjoinRoot.mk_self, add_zero]
    rfl
  · rw [map_zero, add_zero]
    rfl

theorem residue_iterate (k : Nat) (r : BitVec w) :
    residue poly ((bit poly)^[k] r) = AdjoinRoot.root (generator poly) ^ k * residue poly r := by
  induction k with
  | zero => rw [Function.iterate_zero_apply, pow_zero, one_mul]
  | succ k ih => rw [Function.iterate_succ_apply', residue_bit, ih, pow_succ', mul_assoc]

/-- Registers are the remainders of the generator. -/
theorem residue_inj {r s : BitVec w} : residue poly r = residue poly s ↔ r = s := by
  refine ⟨fun h => ?_, fun h => h ▸ rfl⟩
  have hdvd : generator poly ∣ toPoly r - toPoly s := AdjoinRoot.mk_eq_mk.mp h
  have hdeg : (toPoly r - toPoly s).degree < (generator poly).degree := by
    rw [degree_generator]
    exact (degree_sub_le _ _).trans_lt (max_lt (degree_toPoly_lt r) (degree_toPoly_lt s))
  have hzero := eq_zero_of_dvd_of_degree_lt hdvd hdeg
  exact toPoly_inj.mp (sub_eq_zero.mp hzero)

/-! ## A message -/

/-- The words of a message as one polynomial, the first word highest. -/
noncomputable def message (data : List (BitVec n)) : (ZMod 2)[X] :=
  data.foldl (fun m b => X ^ n * m + toPoly b) 0

theorem toPoly_setWidth (hn : n ≤ w) (b : BitVec n) :
    toPoly (b.setWidth w) = X ^ (w - n) * toPoly b := by
  ext k
  rw [coeff_toPoly, BitVec.getMsbD_setWidth, coeff_X_pow_mul', coeff_toPoly]
  by_cases hk : w - n ≤ k
  · have hidx : k + n - w = k - (w - n) := by omega
    simp [hk, hidx]
  · simp [hk]

theorem residue_feed (hn : n ≤ w) (r : BitVec w) (b : BitVec n) :
    residue poly (feed poly r b) =
      AdjoinRoot.mk (generator poly) (X ^ n * toPoly r + X ^ w * toPoly b) := by
  have hpow : (X : (ZMod 2)[X]) ^ n * X ^ (w - n) = X ^ w := by
    rw [← pow_add, Nat.add_sub_cancel' hn]
  unfold feed
  rw [residue_iterate, residue, toPoly_xor, toPoly_setWidth hn, ← AdjoinRoot.mk_X, ← map_pow,
    ← map_mul, mul_add, ← mul_assoc, hpow]

/-- **The register after a message** is the remainder of the message behind the register. -/
theorem residue_foldl (hn : n ≤ w) (data : List (BitVec n)) (r : BitVec w) :
    residue poly (data.foldl (feed poly) r) =
      AdjoinRoot.mk (generator poly) (X ^ (n * data.length) * toPoly r + X ^ w * message data) := by
  induction data using List.reverseRecOn with
  | nil => simp [message, residue]
  | append_singleton data b ih =>
    have hmsg : message (data ++ [b]) = X ^ n * message data + toPoly b := by
      simp [message]
    have hpow : (X : (ZMod 2)[X]) ^ (n * (data ++ [b]).length) = X ^ n * X ^ (n * data.length) := by
      rw [← pow_add, List.length_append, List.length_singleton, Nat.mul_succ, Nat.add_comm]
    have hstep : AdjoinRoot.mk (generator poly) (X ^ n * toPoly (data.foldl (feed poly) r)) =
        AdjoinRoot.mk (generator poly)
          (X ^ n * (X ^ (n * data.length) * toPoly r + X ^ w * message data)) := by
      rw [map_mul, map_mul]
      exact congrArg _ ih
    rw [List.foldl_append, List.foldl_cons, List.foldl_nil, residue_feed poly hn, map_add, hstep,
      ← map_add, hmsg, hpow]
    exact congrArg _ (by ring)

theorem foldl_feed_eq_iff (hn : n ≤ w) (data : List (BitVec n)) (r s : BitVec w) :
    data.foldl (feed poly) r = s ↔
      generator poly ∣ X ^ (n * data.length) * toPoly r + X ^ w * message data + toPoly s := by
  rw [← residue_inj poly, residue_foldl poly hn, residue, AdjoinRoot.mk_eq_mk, CharTwo.sub_eq_add]

/-! ## Many steps at once -/

/-- The constant polynomial one. -/
def one : BitVec w := BitVec.twoPow w (w - 1)

/-- The product of two registers, a bit of the second at a time. -/
def mul (r s : BitVec w) : BitVec w :=
  (List.range w).foldl (fun p k => bit poly p ^^^ if s.getLsbD k then r else 0) 0

theorem toPoly_one (hw : 0 < w) : toPoly (one : BitVec w) = 1 := by
  ext k
  rw [coeff_toPoly, one, BitVec.getMsbD_twoPow, coeff_one]
  have hidx : w - (w - 1) - 1 = 0 := by omega
  simp [hidx, hw]

theorem getMsbD_low (s : BitVec w) (k j : Nat) :
    (s.setWidth k).getMsbD j = (decide (j < k) && s.getLsbD (k - 1 - j)) := by
  rw [BitVec.getMsbD_eq_getLsbD, BitVec.getLsbD_setWidth]
  by_cases hj : j < k
  · rw [decide_eq_true (by omega : k - 1 - j < k), Bool.true_and]
  · rw [decide_eq_false hj, Bool.false_and, Bool.false_and]

/-- One more of the low bits. -/
theorem toPoly_low (s : BitVec w) (k : Nat) :
    toPoly (s.setWidth (k + 1)) = X * toPoly (s.setWidth k) + if s.getLsbD k then 1 else 0 := by
  ext j
  rw [coeff_toPoly, getMsbD_low, coeff_add, apply_ite (coeff · j), coeff_one, coeff_zero]
  cases j with
  | zero =>
    rw [coeff_X_mul_zero]
    simp
  | succ j =>
    have hidx : k + 1 - 1 - (j + 1) = k - 1 - j := by omega
    rw [coeff_X_mul, coeff_toPoly, getMsbD_low, hidx]
    simp

theorem residue_mul (r s : BitVec w) :
    residue poly (mul poly r s) = residue poly r * residue poly s := by
  have h : ∀ k ≤ w, residue poly ((List.range k).foldl
      (fun p k => bit poly p ^^^ if s.getLsbD k then r else 0) 0) =
        residue poly r * AdjoinRoot.mk (generator poly) (toPoly (s.setWidth k)) := by
    intro k hk
    induction k with
    | zero =>
      have hnil : toPoly (s.setWidth 0) = 0 := by
        rw [BitVec.of_length_zero (x := s.setWidth 0)]
        exact toPoly_zero
      rw [hnil, map_zero, mul_zero]
      exact residue_zero poly
    | succ k ih =>
      rw [List.range_succ, List.foldl_append, List.foldl_cons, List.foldl_nil, residue_xor,
        residue_bit, ih (by omega), toPoly_low, map_add, map_mul, AdjoinRoot.mk_X]
      split
      · rw [map_one]
        ring
      · rw [map_zero, residue_zero]
        ring
  have hw := h w le_rfl
  rw [BitVec.setWidth_eq] at hw
  exact hw

/-- The square, and a step more where the digit is one. -/
def squareStep (r : BitVec w) (digit : Bool) : BitVec w :=
  if digit then bit poly (mul poly r r) else mul poly r r

/-- `r` is what `m` steps make of the constant one. -/
def IsPower (m : Nat) (r : BitVec w) : Prop := (bit poly)^[m] one = r

variable {poly} {m : Nat} {r : BitVec w}

theorem isPower_iff (hw : 0 < w) :
    IsPower poly m r ↔ residue poly r = AdjoinRoot.root (generator poly) ^ m := by
  rw [IsPower, ← residue_inj poly, residue_iterate, residue, toPoly_one hw, map_one, mul_one]
  exact eq_comm

/-- **Many steps from any register** by one product. -/
theorem IsPower.iterate (hw : 0 < w) (h : IsPower poly m r) (s : BitVec w) :
    (bit poly)^[m] s = mul poly r s := by
  rw [← residue_inj poly, residue_iterate, residue_mul, (isPower_iff hw).mp h]

theorem IsPower.squareStep (hw : 0 < w) (h : IsPower poly m r) (digit : Bool) :
    IsPower poly (2 * m + digit.toNat) (squareStep poly r digit) := by
  rw [isPower_iff hw] at h ⊢
  unfold Crc.squareStep
  cases digit with
  | false =>
    rw [if_neg Bool.false_ne_true, residue_mul, h, ← pow_add, ← two_mul]
    rfl
  | true =>
    rw [if_pos rfl, residue_bit, residue_mul, h, ← pow_add, ← pow_succ', ← two_mul]
    rfl

/-- The registers after each of some blocks of binary digits, each checked from the last. -/
def Certified (poly : BitVec w) : BitVec w → List (List Bool × BitVec w) → Prop
  | _, [] => True
  | r, (digits, s) :: blocks =>
    digits.foldl (Crc.squareStep poly) r = s ∧ Certified poly s blocks

instance Certified.decidable :
    (r : BitVec w) → (blocks : List (List Bool × BitVec w)) → Decidable (Certified poly r blocks)
  | _, [] => inferInstanceAs (Decidable True)
  | _, (_, s) :: blocks =>
    have := Certified.decidable s blocks
    inferInstanceAs (Decidable (_ ∧ _))

/-- The number the blocks go on from `m` to, the highest digit first. -/
def exponent (m : Nat) (blocks : List (List Bool × BitVec w)) : Nat :=
  (blocks.flatMap Prod.fst).foldl (fun m digit => 2 * m + digit.toNat) m

/-- More binary digits of the number of steps. -/
theorem IsPower.digits (hw : 0 < w) (h : IsPower poly m r) (digits : List Bool) :
    IsPower poly (digits.foldl (fun m digit => 2 * m + digit.toNat) m)
      (digits.foldl (Crc.squareStep poly) r) := by
  induction digits generalizing m r with
  | nil => exact h
  | cons digit digits ih => exact ih (h.squareStep hw digit)

theorem IsPower.certified (hw : 0 < w) (h : IsPower poly m r) {blocks : List (List Bool × BitVec w)}
    (hc : Certified poly r blocks) :
    IsPower poly (exponent m blocks) (blocks.foldl (fun _ block => block.2) r) := by
  induction blocks generalizing m r with
  | nil => exact h
  | cons block blocks ih =>
    obtain ⟨hs, hc⟩ := hc
    have hblock := h.digits hw block.1
    rw [hs] at hblock
    unfold exponent
    rw [List.flatMap_cons, List.foldl_append]
    exact ih hblock hc

/-- A point that is back after `N` steps, and after no `N / p` for a prime `p`, has period `N`. -/
theorem minimalPeriod_eq {α : Type*} {f : α → α} {x : α} {N : Nat}
    (h : Function.IsPeriodicPt f N x)
    (hprime : ∀ p, p.Prime → p ∣ N → ¬ Function.IsPeriodicPt f (N / p) x) :
    Function.minimalPeriod f x = N := by
  obtain ⟨a, ha⟩ := h.minimalPeriod_dvd
  by_contra hne
  have ha1 : a ≠ 1 := fun h1 => hne (by rw [ha, h1, mul_one])
  obtain ⟨b, hb⟩ := Nat.minFac_dvd a
  have hN : N = a.minFac * (Function.minimalPeriod f x * b) := by
    calc
      N = Function.minimalPeriod f x * a := ha
      _ = Function.minimalPeriod f x * (a.minFac * b) := by rw [← hb]
      _ = a.minFac * (Function.minimalPeriod f x * b) := by ring
  refine hprime a.minFac (Nat.minFac_prime ha1) ⟨_, hN⟩ ?_
  rw [hN, Nat.mul_div_cancel_left _ (Nat.minFac_pos a)]
  exact (Function.isPeriodicPt_minimalPeriod f x).mul_const b

end Lib.Crc
