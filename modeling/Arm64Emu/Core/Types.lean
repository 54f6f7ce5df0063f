import Mathlib.Data.BitVec
import Mathlib.Logic.Function.Basic

namespace arm64emu

open BitVec

abbrev u8 := BitVec 8
abbrev u16 := BitVec 16
abbrev u32 := BitVec 32
abbrev u64 := BitVec 64

/-- The 128-bit SIMD&FP register, on a little-endian host: `d[0]` is the low
half of the vector. -/
abbrev V128 := BitVec 128

def V128.ofD (d0 d1 : u64) : V128 := d1 ++ d0

def V128.d0 (v : V128) : u64 := v.extractLsb' 0 64

def V128.d1 (v : V128) : u64 := v.extractLsb' 64 64

variable (a b : u64) (insn : u32) (v : u64)

@[simp] theorem V128.d0_ofD (d0 d1 : u64) : V128.d0 (V128.ofD d0 d1) = d0 := by
  unfold V128.d0 V128.ofD
  exact BitVec.extractLsb'_append_eq_right

@[simp] theorem V128.d1_ofD (d0 d1 : u64) : V128.d1 (V128.ofD d0 d1) = d1 := by
  unfold V128.d1 V128.ofD
  exact BitVec.extractLsb'_append_eq_left

/-- The C conversion `(u32)v` of a 64-bit value, used again as 64 bits. -/
def trunc32 (v : u64) : u64 := (v.setWidth 32).setWidth 64

def sign_extend (x : u64) (bits : Nat) : u64 :=
  if bits = 0 ∨ 64 ≤ bits then x
  else
    let m : u64 := 1#64 <<< (bits - 1)
    (x ^^^ m) - m

def ones (n : Nat) : u64 := if 64 ≤ n then BitVec.allOnes 64 else (1#64 <<< n) - 1#64

def ror32 (x : u32) (n : Nat) : u32 :=
  let n := n % 32
  if n = 0 then x else (x >>> n) ||| (x <<< (32 - n))

def ror64 (x : u64) (n : Nat) : u64 :=
  let n := n % 64
  if n = 0 then x else (x >>> n) ||| (x <<< (64 - n))

def umulh64 (a b : u64) : u64 :=
  ((a.setWidth 128 * b.setWidth 128) >>> 64).setWidth 64

def smulh64 (a b : u64) : u64 :=
  ((a.signExtend 128 * b.signExtend 128).sshiftRight 64).setWidth 64

def BITS (insn : u32) (hi lo : Nat) : Nat := (insn >>> lo).toNat % 2 ^ (hi - lo + 1)

def BIT (insn : u32) (i : Nat) : Bool := insn.getLsbD i

theorem BITS_lt (hi lo : Nat) : BITS insn hi lo < 2 ^ (hi - lo + 1) :=
  Nat.mod_lt _ (Nat.two_pow_pos _)

theorem BIT_eq_decide (i : Nat) : BIT insn i = decide (BITS insn i i = 1) := by
  unfold BIT BITS
  rw [← BitVec.testBit_toNat, Nat.testBit_eq_decide_div_mod_eq, toNat_ushiftRight,
    Nat.shiftRight_eq_div_pow, Nat.sub_self]
  rfl

theorem BITS_tail {hi lo : Nat} (h : lo < hi) : BITS insn hi (lo + 1) = BITS insn hi lo / 2 := by
  have hpow : 2 ^ (hi - lo + 1) = 2 * 2 ^ (hi - (lo + 1) + 1) := by
    rw [show hi - lo + 1 = hi - (lo + 1) + 1 + 1 by omega, Nat.pow_succ']
  unfold BITS
  rw [hpow, toNat_ushiftRight, toNat_ushiftRight, Nat.shiftRight_succ,
    Nat.mod_mul_right_div_self]

theorem toNat_ofNat64 {n : Nat} (h : n < 2 ^ 64) : (BitVec.ofNat 64 n).toNat = n := by
  rw [toNat_ofNat, Nat.mod_eq_of_lt h]

theorem or_shift_toNat {a b : u64} {k : Nat} (ha : a.toNat < 2 ^ k) (hb : b.toNat * 2 ^ k < 2 ^ 64) :
    (a ||| b <<< k).toNat = a.toNat + b.toNat * 2 ^ k := by
  have hshift : (b <<< k).toNat = b.toNat <<< k := by
    rw [toNat_shiftLeft, Nat.shiftLeft_eq, Nat.mod_eq_of_lt hb]
  rw [toNat_or, hshift, Nat.or_comm, ← Nat.shiftLeft_add_eq_or_of_lt ha, Nat.shiftLeft_eq,
    Nat.add_comm]

theorem trunc32_getLsbD (i : Nat) : (trunc32 v).getLsbD i = (decide (i < 32) && v.getLsbD i) := by
  simp only [trunc32, getLsbD_setWidth]
  by_cases hi : i < 64
  · by_cases h32 : i < 32 <;> simp [hi, h32]
  · have h32 : ¬ i < 32 := by omega
    simp [hi, h32]

@[simp] theorem trunc32_trunc32 : trunc32 (trunc32 v) = trunc32 v := by
  apply eq_of_getLsbD_eq
  intro i hi
  simp [trunc32_getLsbD]

theorem setWidth32_trunc32 : (trunc32 v).setWidth 32 = v.setWidth 32 := by
  apply eq_of_getLsbD_eq
  intro i hi
  simp [trunc32_getLsbD, hi]

@[simp] theorem trunc32_setWidth (w : u32) : trunc32 (w.setWidth 64) = w.setWidth 64 := by
  apply eq_of_getLsbD_eq
  intro i hi
  simp only [trunc32_getLsbD, getLsbD_setWidth, hi, decide_true, Bool.true_and]
  by_cases h : i < 32
  · simp [h]
  · simp [h, getLsbD_of_ge w i (by omega)]

theorem trunc32_toNat : (trunc32 v).toNat = v.toNat % 2 ^ 32 := by
  simp [trunc32]
  omega

theorem trunc32_and : trunc32 (a &&& trunc32 b) = trunc32 (a &&& b) := by
  apply eq_of_getLsbD_eq
  intro i hi
  simp only [trunc32_getLsbD, getLsbD_and]
  by_cases h : i < 32 <;> simp [h]

theorem trunc32_or : trunc32 (a ||| trunc32 b) = trunc32 (a ||| b) := by
  apply eq_of_getLsbD_eq
  intro i hi
  simp only [trunc32_getLsbD, getLsbD_or]
  by_cases h : i < 32 <;> simp [h]

theorem trunc32_xor : trunc32 (a ^^^ trunc32 b) = trunc32 (a ^^^ b) := by
  apply eq_of_getLsbD_eq
  intro i hi
  simp only [trunc32_getLsbD, getLsbD_xor]
  by_cases h : i < 32 <;> simp [h]

theorem trunc32_not (a : u64) : trunc32 (~~~trunc32 a) = trunc32 (~~~a) := by
  apply eq_of_getLsbD_eq
  intro i hi
  simp only [trunc32_getLsbD, getLsbD_not]
  by_cases h : i < 32 <;> simp [h]

theorem add_not_add_one (x y : u64) : x + ~~~y + 1#64 = x - y := by
  rw [BitVec.sub_eq_add_neg, BitVec.neg_eq_not_add, BitVec.add_assoc]

theorem ones_toNat (n : Nat) (hn : n ≤ 64) : (ones n).toNat = 2 ^ n - 1 := by
  unfold ones
  by_cases h : 64 ≤ n
  · have heq : n = 64 := by omega
    subst heq
    simp
  rw [if_neg h]
  have hlt : 2 ^ n < 2 ^ 64 := Nat.pow_lt_pow_right (by omega) (by omega)
  have hone : (1#64 <<< n).toNat = 2 ^ n := by
    rw [toNat_shiftLeft, Nat.shiftLeft_eq]
    simpa using hlt
  have hpos : 1 ≤ 2 ^ n := Nat.one_le_two_pow
  rw [toNat_sub_of_le (by rw [BitVec.le_def, hone]; simpa using hpos), hone]
  rfl

theorem ones_getLsbD (n i : Nat) : (ones n).getLsbD i = (decide (i < n) && decide (i < 64)) := by
  by_cases hn : n ≤ 64
  · rw [← BitVec.testBit_toNat, ones_toNat n hn, Nat.testBit_two_pow_sub_one]
    by_cases hi : i < n
    · have : i < 64 := by omega
      simp [hi, this]
    · simp [hi]
  have h : 64 ≤ n := by omega
  unfold ones
  rw [if_pos h, getLsbD_allOnes]
  by_cases hi : i < 64
  · have : i < n := by omega
    simp [hi, this]
  · simp [hi]

theorem ror64_getLsbD (x : u64) (r i : Nat) (hr : r < 64) (hi : i < 64) :
    (ror64 x r).getLsbD i = if i + r < 64 then x.getLsbD (i + r) else x.getLsbD (i + r - 64) := by
  unfold ror64
  rw [Nat.mod_eq_of_lt hr]
  by_cases h0 : r = 0
  · subst h0
    simp [hi]
  simp only [h0, if_false, getLsbD_or, getLsbD_ushiftRight,
    getLsbD_shiftLeft]
  by_cases hsum : i + r < 64
  · have hlt : i < 64 - r := by omega
    simp [hsum, hlt, Nat.add_comm r i]
  have hge : ¬ i < 64 - r := by omega
  have hsub : i - (64 - r) = i + r - 64 := by omega
  have hout : x.getLsbD (r + i) = false := getLsbD_of_ge _ _ (by omega)
  simp [hsum, hge, hi, hsub, hout]

theorem xor_bit_of_clear {x m : u64} (h : x &&& m = 0#64) : x ^^^ m = x + m := by
  rw [BitVec.add_eq_or_of_and_eq_zero x m h]
  apply eq_of_getLsbD_eq
  intro i hi
  have hi' : (x &&& m).getLsbD i = false := by rw [h]; simp
  rw [getLsbD_and] at hi'
  rw [getLsbD_xor, getLsbD_or]
  revert hi'
  cases x.getLsbD i <;> cases m.getLsbD i <;> decide

/-- The C idiom `(x ^ m) - m` extends the sign of a field of `bits` bits. -/
theorem sign_extend_getLsbD {x : u64} {bits : Nat} (h0 : 0 < bits) (h64 : bits < 64) (hx : x.toNat < 2 ^ bits)
    {i : Nat} (hi : i < 64) :
    (sign_extend x bits).getLsbD i = if i < bits then x.getLsbD i else x.getLsbD (bits - 1) := by
  have hhigh (j : Nat) (hj : bits ≤ j) : x.getLsbD j = false := by
    rw [← BitVec.testBit_toNat]
    exact Nat.testBit_lt_two_pow (lt_of_lt_of_le hx (Nat.pow_le_pow_right (by decide) hj))
  have hbit (j : Nat) : (1#64 <<< (bits - 1)).getLsbD j = decide (j = bits - 1) := by
    rw [getLsbD_shiftLeft]
    by_cases hj : j = bits - 1
    · subst hj
      simp
      omega
    · simp [hj]
      omega
  unfold sign_extend
  rw [if_neg (by omega)]
  dsimp only
  cases hs : x.getLsbD (bits - 1) with
  | false =>
    have hclear : x &&& (1#64 <<< (bits - 1)) = 0#64 := by
      apply eq_of_getLsbD_eq
      intro j hj
      rw [getLsbD_and, hbit]
      by_cases h : j = bits - 1
      · rw [h, hs]; simp
      · simp [h]
    rw [xor_bit_of_clear hclear, BitVec.add_sub_cancel]
    split
    · rfl
    · exact hhigh i (by omega)
  | true =>
    have hclear : (x ^^^ 1#64 <<< (bits - 1)) &&& (1#64 <<< (bits - 1)) = 0#64 := by
      apply eq_of_getLsbD_eq
      intro j hj
      rw [getLsbD_and, getLsbD_xor, hbit]
      by_cases h : j = bits - 1
      · rw [h, hs]; simp
      · simp [h]
    have hsub : (x ^^^ 1#64 <<< (bits - 1)) = x - 1#64 <<< (bits - 1) := by
      have hback := xor_bit_of_clear hclear
      rw [BitVec.xor_assoc, BitVec.xor_self, BitVec.xor_zero] at hback
      rw [hback, BitVec.add_sub_cancel, ← hback]
    have hdouble : 1#64 <<< (bits - 1) + 1#64 <<< (bits - 1) = ones bits + 1#64 := by
      have hpow : 2 ^ bits = 2 ^ (bits - 1) + 2 ^ (bits - 1) := by
        rw [← Nat.two_mul, ← Nat.pow_succ', Nat.succ_eq_add_one, Nat.sub_add_cancel h0]
      have hlt : 2 ^ bits < 2 ^ 64 := Nat.pow_lt_pow_right (by decide) h64
      apply eq_of_toNat_eq
      rw [toNat_add, toNat_add, ones_toNat bits (by omega), toNat_shiftLeft,
        Nat.shiftLeft_eq]
      simp only [toNat_ofNat, Nat.one_mod_two_pow_eq_one.mpr (show 0 < 64 by decide), Nat.one_mul]
      omega
    have hdisj : x &&& ~~~ones bits = 0#64 := by
      apply eq_of_getLsbD_eq
      intro j hj
      rw [getLsbD_and, getLsbD_not, ones_getLsbD]
      by_cases h : j < bits
      · simp [h, hj]
      · rw [hhigh j (by omega)]; simp
    have hval : (x ^^^ 1#64 <<< (bits - 1)) - 1#64 <<< (bits - 1) = x ||| ~~~ones bits := by
      rw [hsub, ← BitVec.add_eq_or_of_and_eq_zero _ _ hdisj, BitVec.sub_sub, hdouble, ← BitVec.sub_sub,
        ← add_not_add_one x, BitVec.add_sub_cancel]
    rw [hval, getLsbD_or, getLsbD_not, ones_getLsbD]
    by_cases h : i < bits
    · simp [h, hi]
    · simp [h, hi]

end arm64emu
