import Mathlib
import Arm64Emu.Core.Decode.Helpers

namespace arm64emu

open BitVec

/-- The reflected CRC a bit at a time: the first `n` bits of the data, the
lowest first, are fed into the accumulator. -/
def crc_serial (poly acc : u32) (data : u64) : Nat → u32
  | 0 => acc
  | n + 1 =>
    let c := crc_serial poly acc data n
    (c >>> 1) ^^^ (if c.getLsbD 0 ^^ data.getLsbD n then poly else 0#32)

variable (poly acc : u32) (data : u64)

theorem crc32_bits_xor (k : Nat) (a b : u32) :
    crc32_bits poly k (a ^^^ b) = crc32_bits poly k a ^^^ crc32_bits poly k b := by
  induction k generalizing a b with
  | zero => rfl
  | succ k ih =>
    have hpoly : (if (a ^^^ b).getLsbD 0 then poly else 0#32) =
        (if a.getLsbD 0 then poly else 0#32) ^^^ (if b.getLsbD 0 then poly else 0#32) := by
      rw [getLsbD_xor]
      cases a.getLsbD 0 <;> cases b.getLsbD 0 <;> simp
    rw [crc32_bits, crc32_bits, crc32_bits, ← ih, hpoly, ushiftRight_xor_distrib]
    congr 1
    ac_rfl

theorem crc32_bits_add (m n : Nat) (c : u32) : crc32_bits poly (m + n) c = crc32_bits poly n (crc32_bits poly m c) := by
  induction m generalizing c with
  | zero => rw [Nat.zero_add, crc32_bits]
  | succ m ih => rw [Nat.succ_add, crc32_bits, crc32_bits, ih]

/-- While the low bits are clear a step only shifts. -/
theorem crc32_bits_clear {k : Nat} {c : u32} (hclear : ∀ i < k, c.getLsbD i = false) :
    crc32_bits poly k c = c >>> k := by
  induction k generalizing c with
  | zero => rfl
  | succ k ih =>
    rw [crc32_bits, hclear 0 (by omega), if_neg Bool.false_ne_true, BitVec.xor_zero, ih, ← BitVec.shiftRight_add,
      Nat.add_comm]
    intro i hi
    rw [getLsbD_ushiftRight]
    exact hclear _ (by omega)

theorem toNat_byte (c : u32) : (BitVec.ofNat 32 (crc_byte c 0)).toNat = c.toNat % 2 ^ 8 := by
  rw [crc_byte, toNat_ofNat, ushiftRight_zero]
  omega

/-- Eight steps shift the high bytes down and pass the low byte on. -/
theorem crc32_bits_byte (c : u32) :
    crc32_bits poly 8 c = (c >>> 8) ^^^ crc32_bits poly 8 (BitVec.ofNat 32 (crc_byte c 0)) := by
  set low := BitVec.ofNat 32 (crc_byte c 0)
  have hclear : crc32_bits poly 8 (c ^^^ low) = (c ^^^ low) >>> 8 := by
    refine crc32_bits_clear poly fun i hi => ?_
    rw [getLsbD_xor, ← BitVec.testBit_toNat low, toNat_byte, Nat.testBit_mod_two_pow, BitVec.testBit_toNat]
    simp [hi]
  have hhigh : low >>> 8 = 0#32 := by
    refine eq_of_toNat_eq ?_
    rw [toNat_ushiftRight, toNat_byte, Nat.shiftRight_eq_div_pow]
    exact Nat.div_eq_of_lt (Nat.mod_lt _ (by decide))
  rw [crc32_bits_xor, ushiftRight_xor_distrib, hhigh, BitVec.xor_zero] at hclear
  rw [← hclear, BitVec.xor_assoc, BitVec.xor_self, BitVec.xor_zero]

/-- Table `j` carries a byte through `j + 1` bytes of steps. -/
theorem crc32_tab_eq (j i : Nat) : crc32_tab poly j i = crc32_bits poly (8 * (j + 1)) (BitVec.ofNat 32 i) := by
  induction j with
  | zero => rfl
  | succ j ih =>
    have hlow (v : u32) : v &&& 0xff#32 = BitVec.ofNat 32 (crc_byte v 0) :=
      eq_of_toNat_eq ((Nat.and_two_pow_sub_one_eq_mod v.toNat 8).trans (toNat_byte v).symm)
    rw [crc32_tab, Nat.mul_succ, crc32_bits_add, ← ih, hlow, ← crc32_bits_byte]

theorem crc32_bits_peel (j : Nat) (v : u32) :
    crc32_bits poly (8 * (j + 1)) v = crc32_tab poly j (crc_byte v 0) ^^^ crc32_bits poly (8 * j) (v >>> 8) := by
  rw [crc32_tab_eq, show 8 * (j + 1) = 8 + 8 * j by omega, crc32_bits_add, crc32_bits_byte, crc32_bits_xor,
    crc32_bits_add, BitVec.xor_comm]

theorem crc32_bits_word (j : Nat) (v : u32) :
    crc32_bits poly (8 * (j + 4)) v =
        crc32_tab poly (j + 3) (crc_byte v 0) ^^^ crc32_tab poly (j + 2) (crc_byte v 8) ^^^
      crc32_tab poly (j + 1) (crc_byte v 16) ^^^ crc32_tab poly j (crc_byte v 24) := by
  have hbyte (sh n : Nat) : crc_byte (v >>> n) sh = crc_byte v (n + sh) := by
    rw [crc_byte, ← BitVec.shiftRight_add, crc_byte]
  have hzero (k : Nat) : crc32_bits poly k (v >>> 32) = 0#32 := by
    rw [show v >>> 32 = 0#32 from ushiftRight_eq_zero (Nat.le_refl _), crc32_bits_clear] <;> simp
  simp only [crc32_bits_peel, ← BitVec.shiftRight_add, hbyte, Nat.reduceAdd, hzero, BitVec.xor_zero, BitVec.xor_assoc]

theorem crc_serial_add (m n : Nat) :
    crc_serial poly acc data (m + n) = crc_serial poly (crc_serial poly acc data m) (data >>> m) n := by
  induction n with
  | zero => rfl
  | succ n ih => rw [← Nat.add_assoc, crc_serial, crc_serial, ih, getLsbD_ushiftRight]

/-- Adding a word of data at once is feeding its bits one by one, but for those
not fed yet. -/
theorem crc_serial_word {n : Nat} (hn : n ≤ 32) :
    crc32_bits poly n (acc ^^^ data.setWidth 32) = crc_serial poly acc data n ^^^ (data.setWidth 32 >>> n) := by
  induction n with
  | zero => rfl
  | succ n ih =>
    rw [crc32_bits_add, ih (by omega), crc32_bits, crc32_bits, crc_serial, getLsbD_xor,
      getLsbD_ushiftRight, ushiftRight_xor_distrib, BitVec.shiftRight_add, Nat.add_zero,
      getLsbD_setWidth, decide_eq_true (show n < 32 by omega), Bool.true_and]
    ac_rfl

/-- The step over the tables is the bit-serial CRC of the data's bytes. -/
theorem crc32_step_eq_serial (bytes : Nat) :
    crc32_step acc data bytes poly = crc_serial poly acc data (8 * bytes) := by
  rw [crc32_step]
  split
  case isTrue h8 =>
    have hword (acc : u32) (data : u64) :
        crc_serial poly acc data 32 = crc32_bits poly 32 (acc ^^^ data.setWidth 32) := by
      rw [crc_serial_word poly acc data (Nat.le_refl 32), ushiftRight_eq_zero (Nat.le_refl _), BitVec.xor_zero]
    rw [h8, show 8 * 8 = 32 + 32 from rfl, crc_serial_add, hword, hword, crc32_bits_xor, ← crc32_bits_add,
      show 32 + 32 = 8 * (4 + 4) from rfl, crc32_bits_word, show crc32_bits poly 32 _ = _ from crc32_bits_word poly 0 _]
    simp only [BitVec.xor_assoc, Nat.reduceAdd]
  case isFalse h8 =>
    clear h8
    induction bytes with
    | zero => rfl
    | succ n ih =>
      set c := crc_serial poly acc data (8 * n) with hc
      have hbyte := crc_serial_word poly c (data >>> (8 * n)) (n := 8) (by decide)
      rw [crc32_bits_byte, ushiftRight_xor_distrib, BitVec.xor_assoc, BitVec.xor_comm (_ : u32) (crc32_bits ..),
        ← BitVec.xor_assoc] at hbyte
      rw [List.range_succ, List.foldl_append, ih, Nat.mul_succ, crc_serial_add, ← hc]
      exact (BitVec.xor_left_inj _).1 hbyte

end arm64emu
