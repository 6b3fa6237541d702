import LearnNotes.Lib.Crc
import LearnNotes.Net.Endpoint

/-!
# The checksum

`crc32Bitwise` is the reflected CRC-32 bit by bit. The table-driven `crc32` of `tcp_package.c`
feeds its register a byte at a time from a table of the bytes' eight steps (`feedTable_crc32`), and
so computes the same: `crc32_eq_bitwise`.
-/

namespace LearnNotes.Net

open Lib

/-- The reflected CRC-32, bit by bit. -/
def crc32Bitwise (data : List UInt8) : UInt32 :=
  ~~~(data.foldl (fun crc byte => crc32Bit^[8] (crc ^^^ byte.toUInt32)) 0xFFFFFFFF)

def crc32Poly : BitVec 32 := 0xEDB88320

theorem low_bit (c : UInt32) : c &&& 1 = 1 ↔ c.toBitVec.getLsbD 0 = true := by
  have hmask := BitVec.and_one_eq_setWidth_ofBool_getLsbD (x := c.toBitVec)
  rw [← UInt32.toBitVec_inj, UInt32.toBitVec_and, UInt32.toBitVec_one, hmask]
  cases c.toBitVec.getLsbD 0 <;> decide

theorem toBitVec_crc32Bit (c : UInt32) :
    (crc32Bit c).toBitVec = Crc.bit crc32Poly c.toBitVec := by
  unfold crc32Bit Crc.bit
  by_cases h : c &&& 1 = 1
  · rw [if_pos h, if_pos (low_bit c |>.mp h)]
    rfl
  · rw [if_neg h, if_neg (mt (low_bit c).mpr h)]
    rfl

theorem toBitVec_iterate_crc32Bit (k : Nat) (c : UInt32) :
    (crc32Bit^[k] c).toBitVec = (Crc.bit crc32Poly)^[k] c.toBitVec := by
  induction k with
  | zero => rfl
  | succ k ih => simp only [Function.iterate_succ_apply', toBitVec_crc32Bit, ih]

/-- The table's word for a byte. -/
theorem crc32_table_getD (i : UInt8) :
    crc32_table.getD i.toNat 0 = crc32Bit^[8] i.toUInt32 := by
  have hi : i.toNat < 256 := i.toNat_lt
  rw [crc32_table_eq, List.getD_eq_getElem?_getD, List.getElem?_map,
    List.getElem?_range hi, Option.map_some, Option.getD_some, UInt32.ofNat_uInt8ToNat]

/-- One byte of the loop is a table step of the register. -/
theorem toBitVec_crc32Byte (c : UInt32) (b : UInt8) :
    (crc32Byte c b).toBitVec =
      Crc.feedTable (fun i => (crc32_table.getD i.toNat 0).toBitVec) c.toBitVec b.toBitVec := by
  have hidx : (((c ^^^ b.toUInt32) &&& 0xff).toUInt8).toBitVec =
      (c.toBitVec ^^^ b.toBitVec.setWidth 32).setWidth 8 := by
    rw [UInt32.toBitVec_toUInt8, UInt32.toBitVec_and, UInt32.toBitVec_xor, UInt8.toBitVec_toUInt32,
      BitVec.setWidth_and]
    exact BitVec.and_allOnes
  unfold crc32Byte Crc.feedTable
  rw [← hidx]
  simp

/-- **A byte of the loop is eight bit steps.** -/
theorem crc32Byte_eq (c : UInt32) (b : UInt8) :
    crc32Byte c b = crc32Bit^[8] (c ^^^ b.toUInt32) := by
  have htable : ∀ i : BitVec 8, (crc32_table.getD i.toNat 0).toBitVec =
      (Crc.bit crc32Poly)^[8] (i.setWidth 32) := fun i => by
    have h := congrArg UInt32.toBitVec (crc32_table_getD ⟨i⟩)
    rw [toBitVec_iterate_crc32Bit] at h
    exact h
  rw [← UInt32.toBitVec_inj, toBitVec_crc32Byte, Crc.feedTable_eq_feed crc32Poly htable,
    toBitVec_iterate_crc32Bit]
  rfl

/-- **The table-driven checksum is the bitwise one.** -/
theorem crc32_eq_bitwise (data : List UInt8) : crc32 data 0 = crc32Bitwise data := by
  have hfun : crc32Byte = fun crc byte => crc32Bit^[8] (crc ^^^ byte.toUInt32) := by
    funext c b
    exact crc32Byte_eq c b
  have hnot : ∀ c : UInt32, c ^^^ 0xffffffff = ~~~c := by
    intro c
    rw [← UInt32.toBitVec_inj, UInt32.toBitVec_xor, UInt32.toBitVec_not]
    exact BitVec.xor_allOnes
  unfold crc32 crc32Bitwise
  rw [hfun, if_neg (not_not.mpr rfl), if_neg (not_not.mpr rfl), hnot]

end LearnNotes.Net
