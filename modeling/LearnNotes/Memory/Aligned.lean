import Mathlib.Data.Nat.ModEq
import Mathlib.Order.Bounds.Basic

/-!
# Allocation sizes

`aligned` of `skl/base.hpp` rounds a size up to a power of two. The alignment is a `uint8_t`,
promoted to `int` before 1 is taken off and the bits are flipped, so the mask reaches 64 bits by
sign extension: `mask_eq`. The sum is taken in 64 bits. Where it passes `2 ^ 64` the size comes out
as 0 (`aligned_eq_zero`), and `aligned_iff` says that this is the only way it goes wrong.
-/

namespace LearnNotes.Memory

/-! ## The least multiple -/

/-- The positive multiples of `a` from `n` on. -/
def multiplesFrom (a n : Nat) : Set Nat := {m | 0 < m ∧ a ∣ m ∧ n ≤ m}

theorem isLeast_ceil {a n : Nat} (ha : 0 < a) (hn : 0 < n) :
    IsLeast (multiplesFrom a n) ((n + a - 1) / a * a) := by
  have hdm : (n + a - 1) / a * a + (n + a - 1) % a = n + a - 1 := Nat.div_add_mod' ..
  have hlt : (n + a - 1) % a < a := Nat.mod_lt _ ha
  constructor
  · exact ⟨by omega, Nat.dvd_mul_left a _, by omega⟩
  · rintro m ⟨-, ⟨q, rfl⟩, hm⟩
    have hq : (n + a - 1) / a < q + 1 := by
      apply Nat.div_lt_of_lt_mul
      rw [Nat.mul_add, Nat.mul_one]
      omega
    rw [Nat.mul_comm a q]
    exact Nat.mul_le_mul_right a (by omega)

/-- From 0 on the least positive multiple is `a` itself. -/
theorem isLeast_self {a : Nat} (ha : 0 < a) : IsLeast (multiplesFrom a 0) a :=
  ⟨⟨ha, Nat.dvd_refl a, Nat.zero_le a⟩, fun _ hm => Nat.le_of_dvd hm.1 hm.2.1⟩

/-- Clearing the `k` low bits rounds down to a multiple of `2 ^ k`. -/
theorem toNat_and_not_low {w : Nat} (x : BitVec w) (k : Nat) :
    (x &&& ~~~(BitVec.ofNat w (2 ^ k - 1))).toNat = x.toNat / 2 ^ k * 2 ^ k := by
  apply Nat.eq_of_testBit_eq
  intro i
  rw [Nat.testBit_mul_two_pow, Nat.testBit_div_two_pow, BitVec.testBit_toNat,
    BitVec.getLsbD_and, BitVec.getLsbD_not, BitVec.getLsbD_ofNat, Nat.testBit_two_pow_sub_one]
  by_cases hk : k ≤ i
  · rw [Nat.sub_add_cancel hk, BitVec.testBit_toNat]
    by_cases hi : i < w
    · simp [hi, hk, Nat.not_lt.mpr hk]
    · simp [hi, BitVec.getLsbD_of_ge x i (by omega)]
  · simp [hk, Nat.lt_of_not_le hk]

/-! ## `aligned` -/

/-- A `uint8_t` that is a power of two. -/
structure Alignment where
  size : BitVec 8
  pow : ∃ k, size.toNat = 2 ^ k

/-- `~(aligned_size - 1)`, in `int` and then as a `size_t`. -/
def mask (aligned_size : BitVec 8) : BitVec 64 :=
  (~~~(aligned_size.setWidth 32 - 1)).signExtend 64

/-- `n + aligned_size`. -/
def sum (aligned_size : BitVec 8) (n : BitVec 64) : BitVec 64 :=
  n + (aligned_size.setWidth 32).signExtend 64

def aligned (aligned_size : BitVec 8) (n : BitVec 64) : BitVec 64 :=
  if n = 0 then aligned_size.setWidth 64 else (sum aligned_size n - 1) &&& mask aligned_size

def aligned8 (n : BitVec 64) : BitVec 64 := aligned 8 n

def aligned16 (n : BitVec 64) : BitVec 64 := aligned 16 n

def aligned32 (n : BitVec 64) : BitVec 64 := aligned 32 n

def aligned64 (n : BitVec 64) : BitVec 64 := aligned 64 n

/-- The result is the least positive multiple that is not below `n`. -/
def RoundsUp (a : BitVec 8) (n : BitVec 64) : Prop :=
  IsLeast (multiplesFrom a.toNat n.toNat) (aligned a n).toNat

/-- The addition, where there is one, keeps its value in 64 bits. -/
def NoWrap (a : BitVec 8) (n : BitVec 64) : Prop :=
  n ≠ 0 → (sum a n).toNat = n.toNat + a.toNat

/-! ## The machine words -/

theorem Alignment.pos (a : Alignment) : 0 < a.size.toNat := by
  obtain ⟨k, hk⟩ := a.pow
  rw [hk]
  exact Nat.two_pow_pos k

theorem toNat_promoted (a : BitVec 8) : ((a.setWidth 32).signExtend 64).toNat = a.toNat := by
  have ha : a.toNat < 256 := a.isLt
  have hmsb : (a.setWidth 32).msb = false := by
    rw [BitVec.msb_eq_false_iff_two_mul_lt, BitVec.toNat_setWidth]
    omega
  rw [BitVec.signExtend_eq_setWidth_of_msb_false hmsb, BitVec.toNat_setWidth,
    BitVec.toNat_setWidth]
  omega

theorem toNat_sum (a : BitVec 8) (n : BitVec 64) :
    (sum a n).toNat = (n.toNat + a.toNat) % 2 ^ 64 := by
  rw [sum, BitVec.toNat_add, toNat_promoted]

/-- **The mask clears the low bits** of a `size_t`, its upper half included. -/
theorem mask_eq (a : Alignment) : mask a.size = ~~~(BitVec.ofNat 64 (a.size.toNat - 1)) := by
  have ha : a.size.toNat < 256 := a.size.isLt
  have hpos := a.pos
  have hsub : (a.size.setWidth 32 - 1).toNat = a.size.toNat - 1 := by
    rw [BitVec.toNat_sub, BitVec.toNat_setWidth]
    simp
    omega
  have hmsb : (a.size.setWidth 32 - 1).msb = false := by
    rw [BitVec.msb_eq_false_iff_two_mul_lt, hsub]
    omega
  rw [mask, BitVec.signExtend_not (by decide), BitVec.signExtend_eq_setWidth_of_msb_false hmsb]
  congr 1
  apply BitVec.eq_of_toNat_eq
  rw [BitVec.toNat_setWidth, hsub, BitVec.toNat_ofNat]

/-- The value of `aligned` on a positive size. -/
theorem toNat_aligned (a : Alignment) {n : BitVec 64} (hn : n ≠ 0) :
    (aligned a.size n).toNat =
      (sum a.size n - 1).toNat / a.size.toNat * a.size.toNat := by
  obtain ⟨k, hk⟩ := a.pow
  rw [aligned, if_neg hn, mask_eq, hk, toNat_and_not_low]

/-- `n + aligned_size - 1`, which comes back below `2 ^ 64` where the sum is `2 ^ 64` itself. -/
theorem toNat_sum_sub_one (a : Alignment) (n : BitVec 64) :
    (sum a.size n - 1).toNat =
      if n.toNat + a.size.toNat ≤ 2 ^ 64 then n.toNat + a.size.toNat - 1
      else n.toNat + a.size.toNat - 1 - 2 ^ 64 := by
  have ha : a.size.toNat < 256 := a.size.isLt
  have hn : n.toNat < 2 ^ 64 := n.isLt
  have hpos := a.pos
  have hone : (1 : BitVec 64).toNat = 1 := rfl
  rw [BitVec.toNat_sub, toNat_sum, hone]
  split <;> omega

/-! ## Rounding up -/

theorem roundsUp_zero (a : Alignment) : RoundsUp a.size 0 := by
  have ha : a.size.toNat < 256 := a.size.isLt
  have hvalue : (aligned a.size 0).toNat = a.size.toNat := by
    rw [aligned, if_pos rfl, BitVec.toNat_setWidth]
    omega
  rw [RoundsUp, hvalue]
  exact isLeast_self a.pos

/-- Past `2 ^ 64` less than one block is left of the sum. -/
theorem aligned_eq_zero (a : Alignment) {n : BitVec 64} (hn : n ≠ 0)
    (h : 2 ^ 64 < n.toNat + a.size.toNat) : aligned a.size n = 0 := by
  have hlt : n.toNat < 2 ^ 64 := n.isLt
  apply BitVec.eq_of_toNat_eq
  rw [toNat_aligned a hn, toNat_sum_sub_one, if_neg (by omega), Nat.div_eq_of_lt (by omega)]
  simp

theorem roundsUp_iff (a : Alignment) (n : BitVec 64) :
    RoundsUp a.size n ↔ n.toNat + a.size.toNat ≤ 2 ^ 64 := by
  by_cases hn : n = 0
  · subst hn
    have ha : a.size.toNat < 256 := a.size.isLt
    have hz : (0 : BitVec 64).toNat = 0 := rfl
    exact iff_of_true (roundsUp_zero a) (by omega)
  have hpos : 0 < n.toNat := Nat.pos_of_ne_zero fun h => hn (BitVec.eq_of_toNat_eq h)
  constructor
  · intro h
    by_contra hlt
    have hzero := aligned_eq_zero a hn (Nat.lt_of_not_le hlt)
    rw [RoundsUp, hzero] at h
    exact Nat.lt_irrefl 0 h.1.1
  · intro h
    rw [RoundsUp, toNat_aligned a hn, toNat_sum_sub_one, if_pos h]
    exact isLeast_ceil a.pos hpos

theorem noWrap_iff (a : Alignment) (n : BitVec 64) :
    NoWrap a.size n ↔ n.toNat + a.size.toNat < 2 ^ 64 := by
  have ha : a.size.toNat < 256 := a.size.isLt
  by_cases hn : n = 0
  · subst hn
    have hz : (0 : BitVec 64).toNat = 0 := rfl
    exact iff_of_true (fun h => absurd rfl h) (by omega)
  · rw [NoWrap, toNat_sum]
    constructor
    · intro h
      have := h hn
      omega
    · exact fun h _ => Nat.mod_eq_of_lt h

/-- **`aligned` rounds up, and its sum stays in range, iff `n + aligned_size` does**; the result
alone is also right where the sum is `2 ^ 64`. -/
theorem aligned_iff (a : Alignment) (n : BitVec 64) :
    (RoundsUp a.size n ∧ NoWrap a.size n ↔ n.toNat + a.size.toNat < 2 ^ 64) ∧
      (RoundsUp a.size n ↔ n.toNat + a.size.toNat ≤ 2 ^ 64) := by
  rw [roundsUp_iff, noWrap_iff]
  constructor
  · omega
  · exact Iff.rfl

/-- The four helpers round every size up that leaves a block of 64 bytes below `2 ^ 64`. -/
theorem helpers_roundUp {n : BitVec 64} (h : n.toNat + 64 ≤ 2 ^ 64) :
    IsLeast (multiplesFrom 8 n.toNat) (aligned8 n).toNat ∧
      IsLeast (multiplesFrom 16 n.toNat) (aligned16 n).toNat ∧
      IsLeast (multiplesFrom 32 n.toNat) (aligned32 n).toNat ∧
      IsLeast (multiplesFrom 64 n.toNat) (aligned64 n).toNat := by
  have hround : ∀ a : Alignment, a.size.toNat ≤ 64 → RoundsUp a.size n := fun a ha =>
    (roundsUp_iff a n).mpr (by omega)
  exact ⟨hround ⟨8, 3, rfl⟩ (by decide), hround ⟨16, 4, rfl⟩ (by decide),
    hround ⟨32, 5, rfl⟩ (by decide), hround ⟨64, 6, rfl⟩ (by decide)⟩

/-- The largest `size_t` is rounded up to 0. -/
theorem aligned64_max :
    aligned64 (-1) = 0 ∧ ¬ (RoundsUp 64 (-1) ∧ NoWrap 64 (-1)) := by
  have hzero : aligned 64 (-1) = 0 := by decide
  refine ⟨hzero, fun h => ?_⟩
  have hpos := h.1.1.1
  rw [hzero] at hpos
  exact Nat.lt_irrefl 0 hpos

end LearnNotes.Memory
