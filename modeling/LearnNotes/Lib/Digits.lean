import Mathlib.Data.Nat.Digits.Lemmas

/-!
# Multiplying a number by its digits

Numbers as their digits, the lowest first. `mulPass` goes over the digits of a number from the
lowest up, multiplies each and carries on; the digits of the last carry then go behind. What comes
out is the digits of the product (`mulPass_digits`), and no carry reaches the factor
(`carry_lt`), which bounds every product of the pass (`product_lt`).
-/

namespace Lib

variable {b x c d : Nat}

/-- One pass over the digits: the new digits, and the carry left. -/
def mulPass (b x : Nat) : Nat → List Nat → List Nat × Nat
  | c, [] => ([], c)
  | c, d :: ds =>
    let r := mulPass b x ((d * x + c) / b) ds
    ((d * x + c) % b :: r.1, r.2)

@[simp] theorem length_mulPass (b x c : Nat) (ds : List Nat) :
    (mulPass b x c ds).1.length = ds.length := by
  induction ds generalizing c with
  | nil => rfl
  | cons d ds ih => simp [mulPass, ih]

theorem product_lt (hd : d < b) (hc : c < x) : d * x + c < b * x := by
  have hle : (d + 1) * x ≤ b * x := Nat.mul_le_mul_right x hd
  rw [Nat.succ_mul] at hle
  omega

theorem carry_lt (hd : d < b) (hc : c < x) : (d * x + c) / b < x :=
  Nat.div_lt_of_lt_mul (product_lt hd hc)

/-- **The digits of the product.** -/
theorem mulPass_digits (hb : 1 < b) (hx : 0 < x) (c v : Nat) :
    (mulPass b x c (Nat.digits b v)).1 ++ Nat.digits b (mulPass b x c (Nat.digits b v)).2 =
      Nat.digits b (v * x + c) := by
  induction v using Nat.strongRecOn generalizing c with
  | _ v ih =>
    rcases Nat.eq_zero_or_pos v with rfl | hv
    · rw [Nat.digits_zero, mulPass, Nat.zero_mul, Nat.zero_add, List.nil_append]
    · have hsplit : v * x + c = (v % b * x + c) + b * (v / b * x) := by
        conv_lhs => rw [← Nat.mod_add_div v b]
        ring
      have hpos : 0 < v * x + c := Nat.add_pos_left (Nat.mul_pos hv hx) c
      have hlow : (v * x + c) % b = (v % b * x + c) % b := by
        rw [hsplit, Nat.add_mul_mod_self_left]
      have hhigh : (v * x + c) / b = v / b * x + (v % b * x + c) / b := by
        rw [hsplit, Nat.add_mul_div_left _ _ (by omega), Nat.add_comm]
      rw [Nat.digits_def' hb hv, Nat.digits_def' hb hpos, hlow, hhigh,
        ← ih _ (Nat.div_lt_self hv hb)]
      rfl

end Lib
