import Mathlib

/-!
# Unsigned words as bytes

`put e w n` is the `w`-byte word `n` in memory under byte order `e`, `get e w bs` reads the
first `w` bytes of `bs`. Reading what was put gives the word back whatever follows
(`get_put_append`), and the bytes of what was read are the bytes read (`put_get`).
-/

namespace Lib

inductive Endian where
  | little
  | big
  deriving DecidableEq, Repr

namespace Bytes

def putLE : Nat → Nat → List UInt8
  | 0, _ => []
  | w + 1, n => UInt8.ofNat n :: putLE w (n / 256)

def getLE : Nat → List UInt8 → Nat
  | 0, _ => 0
  | w + 1, bs => (bs.headD 0).toNat + 256 * getLE w bs.tail

def put (e : Endian) (w n : Nat) : List UInt8 :=
  match e with
  | .little => putLE w n
  | .big => (putLE w n).reverse

def get (e : Endian) (w : Nat) (bs : List UInt8) : Nat :=
  match e with
  | .little => getLE w bs
  | .big => getLE w (bs.take w).reverse

variable {e : Endian} {w n : Nat} {bs rest : List UInt8}

@[simp] theorem length_putLE (w n : Nat) : (putLE w n).length = w := by
  induction w generalizing n with
  | zero => rfl
  | succ w ih => rw [putLE, List.length_cons, ih]

@[simp] theorem length_put (e : Endian) (w n : Nat) : (put e w n).length = w := by
  unfold put
  cases e <;> simp

theorem getLE_append (h : bs.length = w) : getLE w (bs ++ rest) = getLE w bs := by
  induction w generalizing bs with
  | zero => rfl
  | succ w ih =>
    cases bs with
    | nil => cases h
    | cons b bs =>
      have hbs : bs.length = w := by simpa using h
      simp only [getLE, List.cons_append, List.headD_cons, List.tail_cons, ih hbs]

theorem getLE_putLE (h : n < 256 ^ w) : getLE w (putLE w n) = n := by
  induction w generalizing n with
  | zero => simp only [Nat.pow_zero, Nat.lt_one_iff] at h; rw [h]; rfl
  | succ w ih =>
    have hdiv : n / 256 < 256 ^ w := by
      rw [Nat.div_lt_iff_lt_mul (by omega)]
      rwa [Nat.pow_succ] at h
    have hb : (UInt8.ofNat n).toNat = n % 256 := UInt8.toNat_ofNat' ..
    simp only [getLE, putLE, List.headD_cons, List.tail_cons, ih hdiv, hb]
    omega

theorem getLE_lt (w : Nat) (bs : List UInt8) : getLE w bs < 256 ^ w := by
  induction w generalizing bs with
  | zero => simp [getLE]
  | succ w ih =>
    have hb : (bs.headD 0).toNat < 256 := UInt8.toNat_lt _
    have hrest := ih bs.tail
    rw [getLE, Nat.pow_succ]
    omega

theorem putLE_getLE (h : bs.length = w) : putLE w (getLE w bs) = bs := by
  induction w generalizing bs with
  | zero => exact (List.length_eq_zero_iff.mp h).symm
  | succ w ih =>
    cases bs with
    | nil => cases h
    | cons b bs =>
      have hbs : bs.length = w := by simpa using h
      have hb : b.toNat < 256 := UInt8.toNat_lt b
      have hhead : UInt8.ofNat (b.toNat + 256 * getLE w bs) = b := by
        apply UInt8.toNat_inj.mp
        rw [UInt8.toNat_ofNat']
        omega
      have htail : (b.toNat + 256 * getLE w bs) / 256 = getLE w bs := by omega
      simp only [getLE, putLE, List.headD_cons, List.tail_cons, hhead, htail, ih hbs]

/-- **Reading back.** -/
theorem get_put_append (h : n < 256 ^ w) : get e w (put e w n ++ rest) = n := by
  unfold get put
  cases e with
  | little => rw [getLE_append (length_putLE w n), getLE_putLE h]
  | big => rw [List.take_left' (by simp), List.reverse_reverse, getLE_putLE h]

theorem get_lt (e : Endian) (w : Nat) (bs : List UInt8) : get e w bs < 256 ^ w := by
  unfold get
  cases e <;> exact getLE_lt ..

theorem put_get (h : bs.length = w) : put e w (get e w bs) = bs := by
  unfold get put
  cases e with
  | little => exact putLE_getLE h
  | big =>
    rw [putLE_getLE (by simp [h]), List.reverse_reverse, List.take_of_length_le (Nat.le_of_eq h)]

end Bytes

end Lib
