import LearnNotes.Lib.CrcPolynomial
import LearnNotes.Net.Crc32

/-!
# A checksum in parts

`crc32` takes the result of an earlier call, and by it decides how to start and how to finish: a
new checksum (0) starts from all ones and is complemented, any other value is gone on with as it
is. So the parts of a checksum do not add up to the whole, but for an empty second part or a first
part that leaves 0: `incremental_iff`.
-/

namespace LearnNotes.Net

open Lib

/-- One call after another is one call on everything. -/
def Incremental (a b : List UInt8) (s : UInt32) : Prop :=
  crc32 b (crc32 a s) = crc32 (a ++ b) s

/-- "a", then "b". -/
theorem two_parts : ¬ Incremental [0x61] [0x62] 0 := by
  unfold Incremental
  decide +kernel

/-! ## The period of the register -/

def ones : BitVec 32 := 0xFFFFFFFF

/-- `X` to the `0x55555555`, a third of `2 ^ 32 - 1`, a byte of the exponent at a time. -/
def third : List (List Bool × BitVec 32) :=
  let digits := [false, true, false, true, false, true, false, true]
  [(digits, 0xf44f2413), (digits, 0xeba0264a), (digits, 0x4281464d), (digits, 0xc736eb52)]

/-- A fifth. -/
def fifth : List (List Bool × BitVec 32) :=
  let digits := [false, false, true, true, false, false, true, true]
  [(digits, 0x1c26a370), (digits, 0xc1a99cf7), (digits, 0xc6a740b1), (digits, 0x84011278)]

/-- A 17th. -/
def part17 : List (List Bool × BitVec 32) :=
  let digits := [false, false, false, false, true, true, true, true]
  [(digits, 0x00010000), (digits, 0xe01f9dcf), (digits, 0xaf69585a), (digits, 0x8c283ca0)]

/-- A 257th. -/
def part257 : List (List Bool × BitVec 32) :=
  [(List.replicate 8 true, 0x01b5fd1d), (List.replicate 8 false, 0x3ef534d3),
    (List.replicate 8 true, 0x351c22c9)]

/-- A 65537th. -/
def part65537 : List (List Bool × BitVec 32) :=
  [(List.replicate 8 true, 0x01b5fd1d), (List.replicate 8 true, 0xdc7b5c5f)]

/-- The whole. -/
def whole : List (List Bool × BitVec 32) :=
  part65537 ++ [(List.replicate 8 true, 0xaec31a2f), (List.replicate 8 true, 0x80000000)]

theorem isPower_zero : Crc.IsPower crc32Poly 0 Crc.one := rfl

theorem back_iff (blocks : List (List Bool × BitVec 32))
    (hc : Crc.Certified crc32Poly Crc.one blocks) :
    Function.IsPeriodicPt (Crc.bit crc32Poly) (Crc.exponent 0 blocks) ones ↔
      Crc.mul crc32Poly (blocks.foldl (fun _ block => block.2) Crc.one) ones = ones := by
  have hpower := isPower_zero.certified (by decide) hc
  rw [Function.IsPeriodicPt, Function.IsFixedPt, hpower.iterate (by decide)]

theorem prime_dvd_period {p : Nat} (hp : p.Prime) (h : p ∣ 2 ^ 32 - 1) :
    p = 3 ∨ p = 5 ∨ p = 17 ∨ p = 257 ∨ p = 65537 := by
  have hfactors : 2 ^ 32 - 1 = 3 * (5 * (17 * (257 * 65537))) := by decide
  rw [hfactors, hp.dvd_mul, hp.dvd_mul, hp.dvd_mul, hp.dvd_mul] at h
  have heq : ∀ {q : Nat}, q.Prime → p ∣ q → p = q := fun hq => (Nat.prime_dvd_prime_iff_eq hp hq).mp
  rcases h with h | h | h | h | h
  · exact .inl (heq (by norm_num) h)
  · exact .inr (.inl (heq (by norm_num) h))
  · exact .inr (.inr (.inl (heq (by norm_num) h)))
  · exact .inr (.inr (.inr (.inl (heq (by norm_num) h))))
  · exact .inr (.inr (.inr (.inr (heq (by norm_num) h))))

/-- **The register takes all its values** before it comes back: the generator is primitive. -/
theorem period_ones : Function.minimalPeriod (Crc.bit crc32Poly) ones = 2 ^ 32 - 1 := by
  refine Crc.minimalPeriod_eq ?_ fun p hp hdvd => ?_
  · exact (back_iff whole (by decide +kernel)).mpr (by decide +kernel)
  · rcases prime_dvd_period hp hdvd with rfl | rfl | rfl | rfl | rfl
    · exact mt (back_iff third (by decide +kernel)).mp (by decide +kernel)
    · exact mt (back_iff fifth (by decide +kernel)).mp (by decide +kernel)
    · exact mt (back_iff part17 (by decide +kernel)).mp (by decide +kernel)
    · exact mt (back_iff part257 (by decide +kernel)).mp (by decide +kernel)
    · exact mt (back_iff part65537 (by decide +kernel)).mp (by decide +kernel)

/-! ## The register after a message -/

theorem toBitVec_foldl (data : List UInt8) (c : UInt32) :
    (data.foldl crc32Byte c).toBitVec =
      (data.map UInt8.toBitVec).foldl (Crc.feed crc32Poly) c.toBitVec := by
  induction data generalizing c with
  | nil => rfl
  | cons b data ih =>
    have hbyte : (crc32Byte c b).toBitVec = Crc.feed crc32Poly c.toBitVec b.toBitVec := by
      rw [crc32Byte_eq, toBitVec_iterate_crc32Bit]
      rfl
    rw [List.foldl_cons, ih, hbyte, List.map_cons, List.foldl_cons]

/-- The all-ones register `8 * n` steps on. -/
def onward (n : Nat) : UInt32 := ⟨(Crc.bit crc32Poly)^[8 * n] ones⟩

/-- What is complemented before the loop is complemented, moved on, after it. -/
theorem foldl_complement (data : List UInt8) (c : UInt32) :
    data.foldl crc32Byte (c ^^^ 0xffffffff) = data.foldl crc32Byte c ^^^ onward data.length := by
  have h := Crc.foldl_feed_xor crc32Poly (data.map UInt8.toBitVec) c.toBitVec ones
  rw [List.length_map] at h
  rw [← UInt32.toBitVec_inj, UInt32.toBitVec_xor, toBitVec_foldl, toBitVec_foldl]
  exact h

/-- The complement is back exactly after a whole number of periods. -/
theorem onward_eq_iff (n : Nat) : onward n = 0xffffffff ↔ 2 ^ 32 - 1 ∣ n := by
  have hcop : Nat.Coprime (2 ^ 32 - 1) 8 := by decide
  have h := Function.isPeriodicPt_iff_minimalPeriod_dvd
    (f := Crc.bit crc32Poly) (x := ones) (n := 8 * n)
  rw [period_ones, hcop.dvd_mul_left] at h
  rw [← h, ← UInt32.toBitVec_inj]
  exact Iff.rfl

/-- What the register starts from, and what is added at the end. -/
def initial (s : UInt32) : UInt32 := if s ≠ 0 then s else 0xffffffff

def final (s : UInt32) : UInt32 := if s ≠ 0 then 0 else 0xffffffff

theorem crc32_eq (data : List UInt8) (s : UInt32) :
    crc32 data s = data.foldl crc32Byte (initial s) ^^^ final s := by
  unfold crc32 initial final
  split
  · rw [UInt32.xor_zero]
  · rfl

open Polynomial in
/-- The bytes of `a` behind the start of the register, and the final complement, as a multiple of
the generator. -/
def Vanishes (a : List UInt8) (s : UInt32) : Prop :=
  Crc.generator crc32Poly ∣ X ^ (8 * a.length) * Crc.toPoly (initial s).toBitVec +
    X ^ 32 * Crc.message (a.map UInt8.toBitVec) + Crc.toPoly (final s).toBitVec

theorem crc32_eq_zero_iff (a : List UInt8) (s : UInt32) : crc32 a s = 0 ↔ Vanishes a s := by
  have h := Crc.foldl_feed_eq_iff crc32Poly (by decide : 8 ≤ 32) (a.map UInt8.toBitVec)
    (initial s).toBitVec (final s).toBitVec
  rw [← toBitVec_foldl, UInt32.toBitVec_inj, List.length_map] at h
  rw [crc32_eq, UInt32.xor_eq_zero_iff]
  exact h

theorem crc32_of_ne {s : UInt32} (h : s ≠ 0) (data : List UInt8) :
    crc32 data s = data.foldl crc32Byte s := by
  rw [crc32_eq, initial, final, if_pos h, if_pos h, UInt32.xor_zero]

theorem crc32_zero (data : List UInt8) :
    crc32 data 0 = data.foldl crc32Byte 0xffffffff ^^^ 0xffffffff := rfl

/-- The second call starts or finishes as the one on everything does not, unless the complement
is back or both calls agree on what 0 stands for. -/
theorem incremental_cases (a b : List UInt8) (s : UInt32) :
    Incremental a b s ↔ onward b.length = 0xffffffff ∨ (s = 0 ↔ crc32 a s = 0) := by
  unfold Incremental
  by_cases hs : s = 0
  · subst hs
    rw [crc32_zero (a ++ b), List.foldl_append]
    by_cases hr : crc32 a 0 = 0
    · -- the register is all ones again
      have hx : a.foldl crc32Byte 0xffffffff = 0xffffffff := UInt32.xor_eq_zero_iff.mp hr
      rw [hr, hx]
      exact iff_of_true rfl (.inr Iff.rfl)
    · rw [crc32_of_ne hr, crc32_zero a, foldl_complement, UInt32.xor_right_inj]
      exact (or_iff_left fun h => hr (h.mp rfl)).symm
  · rw [crc32_of_ne hs, crc32_of_ne hs (a ++ b), List.foldl_append]
    by_cases hr : a.foldl crc32Byte s = 0
    · -- the second call starts anew
      have hzero : crc32 b 0 = b.foldl crc32Byte 0 ^^^ (onward b.length ^^^ 0xffffffff) := by
        rw [crc32_zero, ← UInt32.xor_assoc, ← foldl_complement]
        rfl
      have hself : b.foldl crc32Byte 0 = b.foldl crc32Byte 0 ^^^ 0 := UInt32.xor_zero.symm
      rw [hr, hzero]
      conv_lhs => rhs; rw [hself]
      rw [UInt32.xor_right_inj, UInt32.xor_eq_zero_iff]
      exact (or_iff_left fun h => hs (h.mpr rfl)).symm
    · rw [crc32_of_ne hr]
      exact iff_of_true rfl (.inr (iff_of_false hs hr))

/-- **Exactly when the parts add up.** -/
theorem incremental_iff (a b : List UInt8) (s : UInt32) :
    Incremental a b s ↔ 2 ^ 32 - 1 ∣ b.length ∨ (s = 0 ↔ Vanishes a s) := by
  rw [incremental_cases, onward_eq_iff, crc32_eq_zero_iff]

end LearnNotes.Net
