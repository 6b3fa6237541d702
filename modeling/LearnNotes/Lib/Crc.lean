import Mathlib.Data.BitVec
import Mathlib.Logic.Function.Iterate

/-!
# Reflected cyclic redundancy checks

The register shifts right one bit a step, and takes the polynomial in where a one fell out
(`bit`). A step is linear in exclusive or, and a register whose low `n` bits are clear only
moves down through `n` steps, so `n` steps from any register are those of its low `n` bits and
the rest moved down (`iterate_bit_eq`). A table of the former feeds `n` bits at once
(`feedTable_eq_feed`).
-/

namespace Lib.Crc

variable {w n : Nat} (poly : BitVec w)

/-- One bit step. -/
def bit (r : BitVec w) : BitVec w :=
  if r.getLsbD 0 then (r >>> 1) ^^^ poly else r >>> 1

/-- The register after the `n` bits of `b`, lowest first. -/
def feed (r : BitVec w) (b : BitVec n) : BitVec w := (bit poly)^[n] (r ^^^ b.setWidth w)

/-- The same from a table of the `n`-bit words. -/
def feedTable (table : BitVec n → BitVec w) (r : BitVec w) (b : BitVec n) : BitVec w :=
  (r >>> n) ^^^ table ((r ^^^ b.setWidth w).setWidth n)

theorem bit_xor (r s : BitVec w) : bit poly (r ^^^ s) = bit poly r ^^^ bit poly s := by
  have hpoly : ∀ a b : BitVec w, a ^^^ poly ^^^ (b ^^^ poly) = a ^^^ b := fun a b => by
    rw [BitVec.xor_assoc, BitVec.xor_comm b, ← BitVec.xor_assoc poly, BitVec.xor_self,
      BitVec.zero_xor]
  unfold bit
  rw [BitVec.getLsbD_xor, BitVec.ushiftRight_xor_distrib]
  cases r.getLsbD 0 with
  | false => cases s.getLsbD 0 <;> simp [BitVec.xor_assoc]
  | true =>
    cases s.getLsbD 0 with
    | false =>
      simp only [Bool.true_xor, Bool.not_false, if_true, Bool.false_eq_true, if_false]
      ac_rfl
    | true => simp [hpoly]

theorem iterate_bit_xor (k : Nat) (r s : BitVec w) :
    (bit poly)^[k] (r ^^^ s) = (bit poly)^[k] r ^^^ (bit poly)^[k] s := by
  induction k with
  | zero => rfl
  | succ k ih => simp only [Function.iterate_succ_apply', ih, bit_xor]

/-- No one falls out of a register whose low bits are clear. -/
theorem iterate_bit_of_clear {k : Nat} {r : BitVec w} (h : ∀ i < k, r.getLsbD i = false) :
    (bit poly)^[k] r = r >>> k := by
  induction k with
  | zero => simp
  | succ k ih =>
    have hlow : (r >>> k).getLsbD 0 = false := by simpa using h k (Nat.lt_succ_self k)
    rw [Function.iterate_succ_apply', ih fun i hi => h i (Nat.lt_succ_of_lt hi), bit, hlow,
      if_neg Bool.false_ne_true, BitVec.shiftRight_add]

/-- A register is its low `n` bits and the others. -/
theorem split_low (n : Nat) (r : BitVec w) :
    r = (r.setWidth n).setWidth w ^^^ (r >>> n) <<< n := by
  refine BitVec.eq_of_getLsbD_eq fun i hi => ?_
  simp only [BitVec.getLsbD_xor, BitVec.getLsbD_setWidth, BitVec.getLsbD_shiftLeft,
    BitVec.getLsbD_ushiftRight, hi, decide_true, Bool.true_and]
  by_cases hin : i < n
  · simp [hin]
  · simp [hin, Nat.add_sub_cancel' (Nat.not_lt.mp hin)]

/-- **`n` steps**: those of the low `n` bits, and the rest moved down. -/
theorem iterate_bit_eq (n : Nat) (r : BitVec w) :
    (bit poly)^[n] r = (r >>> n) ^^^ (bit poly)^[n] ((r.setWidth n).setWidth w) := by
  have hhigh : (bit poly)^[n] ((r >>> n) <<< n) = r >>> n := by
    rw [iterate_bit_of_clear poly fun i hi => by simp [hi]]
    refine BitVec.eq_of_getLsbD_eq fun i hi => ?_
    by_cases hni : n + i < w
    · simp [hni]
    · simp [hni, BitVec.getLsbD_of_ge r (n + i) (by omega)]
  conv_lhs => rw [split_low n r, iterate_bit_xor, hhigh]
  exact BitVec.xor_comm _ _

/-- What differs in two registers only moves on, whatever both are fed. -/
theorem foldl_feed_xor (data : List (BitVec n)) (r s : BitVec w) :
    data.foldl (feed poly) (r ^^^ s) =
      data.foldl (feed poly) r ^^^ (bit poly)^[n * data.length] s := by
  induction data generalizing r s with
  | nil => simp
  | cons b data ih =>
    have hstep : feed poly (r ^^^ s) b = feed poly r b ^^^ (bit poly)^[n] s := by
      unfold feed
      rw [← iterate_bit_xor, BitVec.xor_assoc, BitVec.xor_comm s, BitVec.xor_assoc]
    rw [List.foldl_cons, List.foldl_cons, hstep, ih, ← Function.iterate_add_apply,
      List.length_cons, Nat.mul_succ]

/-- **A table of the low bits' steps replaces the steps.** -/
theorem feedTable_eq_feed {table : BitVec n → BitVec w}
    (h : ∀ i, table i = (bit poly)^[n] (i.setWidth w)) : feedTable table = feed poly := by
  funext r b
  have hb : (b.setWidth w) >>> n = 0 := by
    refine BitVec.eq_of_getLsbD_eq fun i _ => ?_
    simp
  unfold feed feedTable
  rw [iterate_bit_eq, h, BitVec.ushiftRight_xor_distrib, hb]
  simp

end Lib.Crc
