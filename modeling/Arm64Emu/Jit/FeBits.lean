import Arm64Emu.Jit.FeDp

namespace arm64emu

open BitVec

theorem BITS_testBit (insn : u32) (hi lo i : Nat) :
    (BITS insn hi lo).testBit i = (decide (i < hi - lo + 1) && insn.getLsbD (lo + i)) := by
  unfold BITS
  rw [Nat.testBit_mod_two_pow, BitVec.testBit_toNat, getLsbD_ushiftRight]

theorem BITS_of_mask {insn m v : u32} (h : insn &&& m = v) {hi lo : Nat} (hle : lo ≤ hi)
    (hm : ∀ i < 32, lo ≤ i → i ≤ hi → m.getLsbD i = true) : BITS insn hi lo = BITS v hi lo := by
  subst h
  apply Nat.eq_of_testBit_eq
  intro i
  rw [BITS_testBit, BITS_testBit, getLsbD_and]
  by_cases hin : i < hi - lo + 1 ∧ lo + i < 32
  · rw [hm (lo + i) hin.2 (by omega) (by omega), Bool.and_true]
  by_cases hi' : i < hi - lo + 1
  · have hout : insn.getLsbD (lo + i) = false := getLsbD_of_ge _ _ (by omega)
    rw [hout, Bool.false_and]
  · simp [hi']

theorem BIT_of_mask {insn m v : u32} (h : insn &&& m = v) {i : Nat} (hm : m.getLsbD i = true) :
    BIT insn i = BIT v i := by
  subst h
  unfold BIT
  rw [getLsbD_and, hm, Bool.and_true]

theorem sfield_eq (insn : u32) {l r : Nat} (hlr : l ≤ r) (hr : r < 32) :
    sfield insn l r = sign_extend (BitVec.ofNat 64 (BITS insn (31 - l) (r - l))) (32 - r) := by
  have hwidth : 31 - l - (r - l) + 1 = 32 - r := by omega
  have hlt : (BITS insn (31 - l) (r - l)) < 2 ^ (32 - r) := hwidth ▸ BITS_lt insn (31 - l) (r - l)
  have hpow : 2 ^ (32 - r) ≤ 2 ^ 32 := Nat.pow_le_pow_right (by decide) (by omega)
  have hfield : (BitVec.ofNat 64 (BITS insn (31 - l) (r - l))).toNat = BITS insn (31 - l) (r - l) :=
    toNat_ofNat64 (by omega)
  have hbit (j : Nat) (hj : j < 32 - r) :
      (BitVec.ofNat 64 (BITS insn (31 - l) (r - l))).getLsbD j = insn.getLsbD (r - l + j) := by
    rw [← BitVec.testBit_toNat, hfield, BITS_testBit, hwidth, decide_eq_true hj, Bool.true_and]
  have hmsb : (insn <<< l).msb = insn.getLsbD (31 - l) := by
    rw [BitVec.msb_eq_getLsbD_last, getLsbD_shiftLeft]
    simp [show ¬ 31 < l by omega]
  apply eq_of_getLsbD_eq
  intro i hi
  rw [sign_extend_getLsbD (by omega) (by omega) (by rw [hfield]; exact hlt) hi, sfield, getLsbD_signExtend,
    BitVec.msb_sshiftRight, hmsb, hbit (32 - r - 1) (by omega)]
  have htop : r - l + (32 - r - 1) = 31 - l := by omega
  by_cases h32 : i < 32
  · rw [if_pos h32, getLsbD_sshiftRight, hmsb]
    by_cases hin : i < 32 - r
    · have hsum : r + i < 32 := by omega
      have hge : ¬ r + i < l := by omega
      rw [if_pos hin, hbit i hin]
      simp only [hi, hsum, hge, show ¬ 32 ≤ i by omega, show r + i - l = r - l + i by omega, if_true,
        getLsbD_shiftLeft, decide_true, decide_false, Bool.not_false, Bool.true_and]
    · rw [if_neg hin, htop]
      simp [hi, h32, show ¬ r + i < 32 by omega]
  · rw [if_neg h32, if_neg (by omega), htop]
    simp [hi]

section bitfield

variable {src rd wmask tmask : u64} {imms immr : Nat} {sf : Bool}

/-- BFXIL: the low field of the shifted source over the old value. -/
theorem bfxil_value (hs : imms < reg_width sf) (hr : immr < reg_width sf) (hle : immr ≤ imms)
    (hmask : FieldMasks wmask tmask imms immr sf)
    {shifted : u64} (hshift : ∀ i, i + immr < reg_width sf → shifted.getLsbD i = src.getLsbD (i + immr)) :
    at_width sf ((rd &&& ~~~tmask) |||
        (((rd &&& ~~~wmask) ||| (ror_within src immr (reg_width sf) &&& wmask)) &&& tmask)) =
      at_width sf ((shifted &&& ones (imms - immr + 1)) ||| (rd &&& ~~~ones (imms - immr + 1))) := by
  apply width_bits
  intro i hi
  have hi64 := lt_64_of_lt_width hi
  rw [bitfield_getLsbD hr hmask hi, field_length hs hr, if_pos hle]
  simp only [getLsbD_or, getLsbD_and, getLsbD_not, ones_getLsbD, hi64, decide_true,
    Bool.and_true, Bool.true_and]
  by_cases hin : i < imms - immr + 1
  · have hmod : (i + immr) % reg_width sf = i + immr := Nat.mod_eq_of_lt (by omega)
    rw [hmod, if_pos (by omega), if_pos (by omega), hshift i (by omega)]
    simp [hin]
  · rw [if_neg (by omega)]
    simp [hin]

/-- BFI: the low field of the source, moved up, over the old value. -/
theorem bfi_value (hs : imms < reg_width sf) (hr : immr < reg_width sf) (hlt : imms < immr)
    (hmask : FieldMasks wmask tmask imms immr sf) :
    at_width sf ((rd &&& ~~~tmask) |||
        (((rd &&& ~~~wmask) ||| (ror_within src immr (reg_width sf) &&& wmask)) &&& tmask)) =
      at_width sf (((src &&& ones (imms + 1)) <<< (reg_width sf - immr)) |||
        (rd &&& ~~~(ones (imms + 1) <<< (reg_width sf - immr)))) := by
  apply width_bits
  intro i hi
  exact bfi_getLsbD hs hr hlt hmask hi

theorem sbfiz_value (hs : imms < reg_width sf) (hr : immr < reg_width sf) (hlt : imms < immr)
    (hmask : FieldMasks wmask tmask imms immr sf) :
    at_width sf (((if src.getLsbD imms then BitVec.allOnes 64 else 0#64) &&& ~~~tmask) |||
        ((ror_within src immr (reg_width sf) &&& wmask) &&& tmask)) =
      at_width sf (shift_reg (at_width sf (shift_reg src 0 (reg_width sf - 1 - imms) sf)) 2 (immr - imms - 1) sf) := by
  have hbits (i : Nat) (hi : i < reg_width sf) : (((if src.getLsbD imms then BitVec.allOnes 64 else 0#64) &&&
      ~~~tmask) ||| ((ror_within src immr (reg_width sf) &&& wmask) &&& tmask)).getLsbD i =
      if i < reg_width sf - immr then false
      else if i ≤ imms + reg_width sf - immr then src.getLsbD (i - (reg_width sf - immr))
      else src.getLsbD imms := by
    rw [field_getLsbD hr hmask hi, field_length hs hr, if_neg (show ¬ immr ≤ imms by omega),
      sign_mask_getLsbD _ (lt_64_of_lt_width hi)]
    by_cases hcut : i < reg_width sf - immr
    · have hmod : (i + immr) % reg_width sf = i + immr := Nat.mod_eq_of_lt (by omega)
      rw [hmod, if_pos (by omega), if_pos hcut]
      simp [show ¬ i + immr ≤ imms by omega]
    rw [rotated_high hr hi hcut, if_neg hcut]
    by_cases hin : i ≤ imms + reg_width sf - immr
    · rw [if_pos hin, if_pos hin]
      simp [show i ≤ imms + (reg_width sf - immr) by omega]
    · rw [if_neg hin, if_neg hin]
  apply width_bits
  intro i hi
  rw [hbits i hi]
  cases sf with
  | true =>
    change i < 64 at hi
    change imms < 64 at hs
    change immr < 64 at hr
    simp only [at_width_true, reg_width, if_true]
    rw [shift_reg_lsl64 _ (by omega), shift_reg_asr64 _ (by omega), getLsbD_sshiftRight,
      BitVec.msb_eq_getLsbD_last, getLsbD_shiftLeft, getLsbD_shiftLeft]
    by_cases hlow : i < 64 - immr
    · simp [hlow, show immr - imms - 1 + i < 64 by omega, show immr - imms - 1 + i < 63 - imms by omega]
    by_cases hin : i ≤ imms + 64 - immr
    · have hidx : immr - imms - 1 + i - (63 - imms) = i - (64 - immr) := by omega
      simp [hlow, hin, hidx, show immr - imms - 1 + i < 64 by omega,
        show ¬ immr - imms - 1 + i < 63 - imms by omega, show ¬ 64 ≤ i by omega]
    · simp [hlow, hin, show ¬ immr - imms - 1 + i < 64 by omega, show ¬ 64 ≤ i by omega,
        show 63 - (63 - imms) = imms by omega]
  | false =>
    change i < 32 at hi
    change imms < 32 at hs
    change immr < 32 at hr
    simp only [at_width_false, reg_width, Bool.false_eq_true, if_false]
    rw [shift_reg_lsl32 _ (by omega), shift_reg_asr32 _ (by omega), setWidth32_trunc32, low_shl,
      getLsbD_setWidth, getLsbD_sshiftRight, BitVec.msb_eq_getLsbD_last, getLsbD_shiftLeft,
      getLsbD_shiftLeft, getLsbD_setWidth, getLsbD_setWidth]
    by_cases hlow : i < 32 - immr
    · simp [hlow, show immr - imms - 1 + i < 32 by omega, show immr - imms - 1 + i < 31 - imms by omega]
    by_cases hin : i ≤ imms + 32 - immr
    · have hidx : immr - imms - 1 + i - (31 - imms) = i - (32 - immr) := by omega
      simp [hlow, hin, hidx, show immr - imms - 1 + i < 32 by omega,
        show ¬ immr - imms - 1 + i < 31 - imms by omega, show ¬ 32 ≤ i by omega, show i < 64 by omega,
        show i - (32 - immr) < 32 by omega]
    · simp [hlow, hin, show ¬ immr - imms - 1 + i < 32 by omega, show ¬ 32 ≤ i by omega,
        show 31 - (31 - imms) = imms by omega, show i < 64 by omega, hs]

end bitfield

end arm64emu
