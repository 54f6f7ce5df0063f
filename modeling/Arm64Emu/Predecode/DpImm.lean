import Arm64Emu.Core.Decode.Bitmask
import Arm64Emu.Predecode.Run

namespace arm64emu

theorem pd_awc_eq : pd_awc = add_with_carry := rfl

theorem pd_extend_reg_eq : pd_extend_reg = extend_reg := rfl

theorem pd_bitmasks_eq {immN : Nat} (hN : immN < 2) (imms immr : Nat) (is64 : Bool) :
    pd_bitmasks immN imms immr is64 = (decode_bitmasks immN imms immr is64).map Prod.fst := by
  unfold pd_bitmasks decode_bitmasks decode_bitmasks_slow
  cases hlen : bitmask_len immN imms with
  | none => rfl
  | some len =>
    obtain ⟨-, hle, hsix⟩ := bitmask_len_le hN hlen
    have hpow : 2 ^ len ≤ 64 := Nat.pow_le_pow_right (by decide) hle
    cases is64 with
    | true =>
      simp only [if_true]
      rw [if_neg (by omega)]
      rfl
    | false =>
      by_cases hbig : len = 6
      · have hone := hsix.1 hbig
        subst hbig hone
        rfl
      have hzero : immN = 0 := by omega
      have hsmall : 2 ^ len ≤ 32 := Nat.pow_le_pow_right (by decide) (show len ≤ 5 by omega)
      subst hzero
      simp only [Bool.false_eq_true, if_false]
      rw [if_neg (by omega)]
      rfl

theorem width_ext {v p : u64} (sf : Bool) (hlow : ∀ i, i < reg_width sf → v.getLsbD i = p.getLsbD i)
    (hhigh : ∀ i, reg_width sf ≤ i → p.getLsbD i = false) : (if sf then v else trunc32 v) = p := by
  apply BitVec.eq_of_getLsbD_eq
  intro i hi
  cases sf with
  | true => exact hlow i hi
  | false =>
    simp only [Bool.false_eq_true, if_false, trunc32_getLsbD]
    by_cases h32 : i < 32
    · simp [h32, hlow i h32]
    · simp [h32, hhigh i (by simpa [reg_width] using h32)]

theorem width_bits {a b : u64} (sf : Bool) (h : ∀ i, i < reg_width sf → a.getLsbD i = b.getLsbD i) :
    (if sf then a else trunc32 a) = if sf then b else trunc32 b := by
  cases sf with
  | true => exact BitVec.eq_of_getLsbD_eq h
  | false =>
    apply BitVec.eq_of_getLsbD_eq
    intro i _
    simp only [Bool.false_eq_true, if_false, trunc32_getLsbD]
    by_cases h32 : i < 32
    · rw [h i h32]
    · simp [h32]

theorem lt_64_of_lt_width {sf : Bool} {i : Nat} (hi : i < reg_width sf) : i < 64 := by
  have : reg_width sf ≤ 64 := by cases sf <;> decide
  omega

theorem sign_mask_getLsbD (b : Bool) {i : Nat} (hi : i < 64) :
    (if b then BitVec.allOnes 64 else 0#64).getLsbD i = b := by
  cases b with
  | true => rw [if_pos rfl, BitVec.getLsbD_allOnes, decide_eq_true hi]
  | false => simp

section bitfield

variable {src top bot wmask tmask : u64} {imms immr : Nat} {sf : Bool}

/-- Bit `i` of a bitfield move: the source field up to its length, around it the
bits of `bot`, and above it those of `top`. -/
theorem bitfield_getLsbD (hr : immr < reg_width sf) (hmask : FieldMasks wmask tmask imms immr sf)
    {i : Nat} (hi : i < reg_width sf) :
    ((top &&& ~~~tmask) |||
        (((bot &&& ~~~wmask) ||| (ror_within src immr (reg_width sf) &&& wmask)) &&& tmask)).getLsbD i =
      if i ≤ (imms + reg_width sf - immr) % reg_width sf then
        if (i + immr) % reg_width sf ≤ imms then src.getLsbD ((i + immr) % reg_width sf) else bot.getLsbD i
      else top.getLsbD i := by
  obtain ⟨hw, ht⟩ := hmask i hi
  simp only [BitVec.getLsbD_or, BitVec.getLsbD_and, BitVec.getLsbD_not, hw, ht, lt_64_of_lt_width hi, decide_true,
    Bool.true_and, ror_within_getLsbD sf hr hi]
  by_cases h : i ≤ (imms + reg_width sf - immr) % reg_width sf <;>
    by_cases h' : (i + immr) % reg_width sf ≤ imms <;> simp [h, h']

theorem field_getLsbD (hr : immr < reg_width sf) (hmask : FieldMasks wmask tmask imms immr sf)
    {i : Nat} (hi : i < reg_width sf) :
    ((top &&& ~~~tmask) ||| ((ror_within src immr (reg_width sf) &&& wmask) &&& tmask)).getLsbD i =
      if i ≤ (imms + reg_width sf - immr) % reg_width sf then
        src.getLsbD ((i + immr) % reg_width sf) && decide ((i + immr) % reg_width sf ≤ imms)
      else top.getLsbD i := by
  have h := @bitfield_getLsbD src top 0#64 wmask tmask imms immr sf hr hmask i hi
  rw [BitVec.zero_and, BitVec.zero_or] at h
  rw [h]
  by_cases h' : (i + immr) % reg_width sf ≤ imms <;> simp [h']

theorem field_length (hs : imms < reg_width sf) (hr : immr < reg_width sf) :
    (imms + reg_width sf - immr) % reg_width sf =
      if immr ≤ imms then imms - immr else imms + reg_width sf - immr := by
  split
  · rw [Nat.mod_eq_sub_mod (by omega), Nat.mod_eq_of_lt (by omega)]
    omega
  · rw [Nat.mod_eq_of_lt (by omega)]

theorem ubfm_extract (hs : imms < reg_width sf) (hr : immr < reg_width sf) (hle : immr ≤ imms)
    (hmask : FieldMasks wmask tmask imms immr sf) :
    (if sf then (0#64 &&& ~~~tmask) ||| ((ror_within src immr (reg_width sf) &&& wmask) &&& tmask)
      else trunc32 ((0#64 &&& ~~~tmask) |||
        ((ror_within src immr (reg_width sf) &&& wmask) &&& tmask))) =
      (src >>> immr) &&& ones (imms - immr + 1) := by
  apply width_ext sf
  · intro i hi
    rw [field_getLsbD hr hmask hi, field_length hs hr, if_pos hle, BitVec.getLsbD_and,
      BitVec.getLsbD_ushiftRight, ones_getLsbD]
    simp only [Nat.lt_succ_iff]
    by_cases h : i ≤ imms - immr
    · have hmod : (i + immr) % reg_width sf = immr + i := by
        rw [Nat.mod_eq_of_lt (by omega)]
        omega
      have hi64 : i ≤ 63 := Nat.le_of_lt_succ (lt_64_of_lt_width hi)
      simp [h, hmod, hi64, show immr + i ≤ imms by omega]
    · simp [h]
  intro i hi
  rw [BitVec.getLsbD_and, ones_getLsbD]
  simp [show ¬ i < imms - immr + 1 by omega]

/-- Where the source of a bit is found once the rotation has wrapped. -/
theorem rotated_high {i : Nat} (hr : immr < reg_width sf) (hi : i < reg_width sf) (hcut : ¬ i < reg_width sf - immr) :
    (i + immr) % reg_width sf = i - (reg_width sf - immr) := by
  rw [Nat.mod_eq_sub_mod (by omega), Nat.mod_eq_of_lt (by omega)]
  omega

theorem bfi_getLsbD (hs : imms < reg_width sf) (hr : immr < reg_width sf) (hlt : imms < immr)
    (hmask : FieldMasks wmask tmask imms immr sf) {i : Nat} (hi : i < reg_width sf) :
    ((top &&& ~~~tmask) |||
        (((top &&& ~~~wmask) ||| (ror_within src immr (reg_width sf) &&& wmask)) &&& tmask)).getLsbD i =
      (((src &&& ones (imms + 1)) <<< (reg_width sf - immr)) |||
        (top &&& ~~~(ones (imms + 1) <<< (reg_width sf - immr)))).getLsbD i := by
  have hi64 := lt_64_of_lt_width hi
  rw [bitfield_getLsbD hr hmask hi, field_length hs hr, if_neg (show ¬ immr ≤ imms by omega)]
  simp only [BitVec.getLsbD_or, BitVec.getLsbD_and, BitVec.getLsbD_not, BitVec.getLsbD_shiftLeft, ones_getLsbD,
    hi64, decide_true, Bool.true_and]
  by_cases hcut : i < reg_width sf - immr
  · have hmod : (i + immr) % reg_width sf = i + immr := Nat.mod_eq_of_lt (by omega)
    rw [hmod, if_neg (show ¬ i + immr ≤ imms by omega)]
    simp [hcut]
  have hj : i - (reg_width sf - immr) < 64 := by omega
  rw [rotated_high hr hi hcut]
  by_cases hin : i - (reg_width sf - immr) < imms + 1
  · rw [if_pos (by omega), if_pos (by omega)]
    simp [hcut, hin, hj]
  · rw [if_neg (by omega)]
    simp [hcut, hin]

/-- UBFM as the insert into zeros it is when the field wraps. -/
theorem ubfm_insert (hs : imms < reg_width sf) (hr : immr < reg_width sf) (hlt : imms < immr)
    (hmask : FieldMasks wmask tmask imms immr sf) :
    (if sf then (0#64 &&& ~~~tmask) ||| ((ror_within src immr (reg_width sf) &&& wmask) &&& tmask)
      else trunc32 ((0#64 &&& ~~~tmask) |||
        ((ror_within src immr (reg_width sf) &&& wmask) &&& tmask))) =
      if sf then (src &&& ones (imms + 1)) <<< (reg_width sf - immr)
      else trunc32 ((src &&& ones (imms + 1)) <<< (reg_width sf - immr)) := by
  apply width_bits
  intro i hi
  have h := @bfi_getLsbD src 0#64 wmask tmask imms immr sf hs hr hlt hmask i hi
  simpa only [BitVec.zero_and, BitVec.zero_or, BitVec.or_zero] using h

theorem sbfm_extract (hs : imms < reg_width sf) (hr : immr < reg_width sf) (hle : immr ≤ imms)
    (hmask : FieldMasks wmask tmask imms immr sf) :
    (if sf then ((if src.getLsbD imms then BitVec.allOnes 64 else 0#64) &&& ~~~tmask) |||
        ((ror_within src immr (reg_width sf) &&& wmask) &&& tmask)
      else trunc32 (((if src.getLsbD imms then BitVec.allOnes 64 else 0#64) &&& ~~~tmask) |||
        ((ror_within src immr (reg_width sf) &&& wmask) &&& tmask))) =
      if sf then (src <<< (63 - imms)).sshiftRight (63 - imms + immr)
      else ((src.setWidth 32 <<< (31 - imms)).sshiftRight (31 - imms + immr)).setWidth 64 := by
  apply width_ext sf
  · intro i hi
    have hi64 := lt_64_of_lt_width hi
    rw [field_getLsbD hr hmask hi, field_length hs hr, if_pos hle, sign_mask_getLsbD _ hi64]
    cases sf with
    | true =>
      change imms < 64 at hs
      simp only [if_true, BitVec.getLsbD_sshiftRight, BitVec.getLsbD_shiftLeft,
        BitVec.msb_eq_getLsbD_last]
      by_cases h : i ≤ imms - immr
      · have hmod : (i + immr) % reg_width true = i + immr := Nat.mod_eq_of_lt (by
          change i + immr < 64
          omega)
        have hin : 63 - imms + immr + i < 64 := by omega
        have hsub : 63 - imms + immr + i - (63 - imms) = i + immr := by omega
        simp [h, hmod, hin, hsub, show ¬ 64 ≤ i by omega, show i + immr ≤ imms by omega,
          show ¬ 63 - imms + immr + i < 63 - imms by omega]
      · have hout : ¬ 63 - imms + immr + i < 64 := by omega
        simp [h, hout, show ¬ 64 ≤ i by omega, show 63 - (63 - imms) = imms by omega]
    | false =>
      change imms < 32 at hs
      change i < 32 at hi
      simp only [Bool.false_eq_true, if_false, BitVec.getLsbD_setWidth, BitVec.getLsbD_sshiftRight,
        BitVec.getLsbD_shiftLeft, BitVec.msb_eq_getLsbD_last]
      by_cases h : i ≤ imms - immr
      · have hmod : (i + immr) % reg_width false = i + immr := Nat.mod_eq_of_lt (by
          change i + immr < 32
          omega)
        have hin : 31 - imms + immr + i < 32 := by omega
        have hsub : 31 - imms + immr + i - (31 - imms) = i + immr := by omega
        simp [h, hmod, hin, hsub, hi64, show ¬ 32 ≤ i by omega, show i + immr ≤ imms by omega,
          show i + immr < 32 by omega, show ¬ 31 - imms + immr + i < 31 - imms by omega]
      · have hout : ¬ 31 - imms + immr + i < 32 := by omega
        simp [h, hout, hi64, hs, show ¬ 32 ≤ i by omega, show 31 - (31 - imms) = imms by omega]
  intro i hi
  cases sf with
  | true => exact BitVec.getLsbD_of_ge _ _ hi
  | false =>
    change 32 ≤ i at hi
    simp [BitVec.getLsbD_setWidth, hi]

theorem extract_top (hr : immr < reg_width sf) :
    (src >>> immr) &&& ones (reg_width sf - 1 - immr + 1) =
      if sf then src >>> immr else trunc32 src >>> immr := by
  apply BitVec.eq_of_getLsbD_eq
  intro i hi
  rw [BitVec.getLsbD_and, BitVec.getLsbD_ushiftRight, ones_getLsbD]
  cases sf with
  | true =>
    change immr < 64 at hr
    simp only [reg_width, if_true, BitVec.getLsbD_ushiftRight, hi, decide_true, Bool.and_true]
    by_cases h : immr + i < 64
    · simp [show i < 64 - 1 - immr + 1 by omega]
    · simp [BitVec.getLsbD_of_ge src (immr + i) (by omega)]
  | false =>
    change immr < 32 at hr
    simp only [reg_width, Bool.false_eq_true, if_false, BitVec.getLsbD_ushiftRight, trunc32_getLsbD,
      hi, decide_true, Bool.and_true]
    by_cases h : immr + i < 32
    · simp [h, show i < 32 - 1 - immr + 1 by omega]
    · simp [h, show ¬ i < 32 - 1 - immr + 1 by omega]

theorem insert_top (hs : imms < reg_width sf) :
    (if sf then (src &&& ones (imms + 1)) <<< (reg_width sf - (imms + 1))
      else trunc32 ((src &&& ones (imms + 1)) <<< (reg_width sf - (imms + 1)))) =
      if sf then src <<< (reg_width sf - 1 - imms) else trunc32 (src <<< (reg_width sf - 1 - imms)) := by
  have hshift : reg_width sf - (imms + 1) = reg_width sf - 1 - imms := by omega
  apply width_bits
  intro i hi
  have hwidth : reg_width sf ≤ 64 := by cases sf <;> decide
  rw [hshift, BitVec.getLsbD_shiftLeft, BitVec.getLsbD_shiftLeft, BitVec.getLsbD_and, ones_getLsbD]
  simp [show i - (reg_width sf - 1 - imms) < imms + 1 by omega,
    show i - (reg_width sf - 1 - imms) < 64 by omega]

end bitfield

/-- The handler of an entry does what the decoder does with the word. -/
def PDEnt.Runs (e : PDEnt) (env : Env) (c : CPU) (insn : u32) : Prop := pd_exec env c e insn = exec_a64 env c insn

section groups

variable {env : Env} {c : CPU} {insn : u32}

theorem pd_exec_generic {e : PDEnt} (he : e.op = .PD_GENERIC) : e.Runs env c insn := by
  unfold PDEnt.Runs pd_exec
  rw [he]

theorem PDEnt.Runs.guard {p : Prop} [Decidable p] {e : PDEnt} (h : ¬p → e.Runs env c insn) :
    (if p then pd_generic insn else e).Runs env c insn := by
  split
  case isTrue => exact pd_exec_generic rfl
  case isFalse hp => exact h hp

theorem PDEnt.Runs.ite {p : Prop} [Decidable p] {e e' : PDEnt} {x y : CPU}
    (hclass : exec_a64 env c insn = if p then x else y) (hpos : p → exec_a64 env c insn = x → e.Runs env c insn)
    (hneg : ¬p → exec_a64 env c insn = y → e'.Runs env c insn) : (if p then e else e').Runs env c insn := by
  split
  case isTrue hp => exact hpos hp (hclass.trans (if_pos hp))
  case isFalse hp => exact hneg hp (hclass.trans (if_neg hp))

theorem pd_adr (hgen : exec_a64 env c insn = dp_adr c insn) : (fill_adr (pd_generic insn) insn).Runs env c insn := by
  rw [PDEnt.Runs, hgen]
  unfold fill_adr dp_adr
  cases BIT insn 31 <;> rfl

theorem pd_addsub_imm (hgen : exec_a64 env c insn = dp_addsub_imm c insn) :
    (fill_addsub_imm (pd_generic insn) insn).Runs env c insn := by
  rw [PDEnt.Runs, hgen]
  unfold fill_addsub_imm dp_addsub_imm
  cases BIT insn 29 with
  | true => cases BIT insn 30 <;> cases BIT insn 31 <;> rfl
  | false =>
    have hvalue := add_with_carry_value (reg_xsp c (BITS insn 9 5)) (addsub_imm insn) (BIT insn 30) (BIT insn 31)
    revert hvalue
    cases BIT insn 30 <;> cases BIT insn 31 <;> exact congrArg (set_xsp c (BITS insn 4 0))

theorem pd_logical_imm (hgen : exec_a64 env c insn = dp_logical_imm c insn) :
    (fill_logical_imm (pd_generic insn) insn).Runs env c insn := by
  have hmask := pd_bitmasks_eq (BITS_lt insn 22 22) (BITS insn 15 10) (BITS insn 21 16) (BIT insn 31)
  unfold fill_logical_imm
  cases hdec : decode_bitmasks (BITS insn 22 22) (BITS insn 15 10) (BITS insn 21 16) (BIT insn 31) with
  | none =>
    simp only [hmask, hdec, Option.map_none]
    exact pd_exec_generic rfl
  | some masks =>
    have hopc : BITS insn 30 29 < 4 := BITS_lt insn 30 29
    rw [PDEnt.Runs, hgen, dp_logical_imm]
    simp only [hmask, hdec, Option.map_some]
    generalize BITS insn 30 29 = opc at hopc ⊢
    obtain rfl | rfl | rfl | rfl := lt_four hopc
    all_goals cases BIT insn 31 <;> rfl

theorem pd_move_wide (hgen : exec_a64 env c insn = dp_move_wide c insn) :
    (fill_move_wide (pd_generic insn) insn).Runs env c insn := by
  unfold fill_move_wide
  refine .guard fun hhw => ?_
  rcases lt_four (BITS_lt insn 30 29) with hcase | hcase | hcase | hcase
  case inr.inl =>
    simp only [hcase]
    exact pd_exec_generic rfl
  all_goals
    rw [PDEnt.Runs, hgen, dp_move_wide, if_neg hhw]
    simp only [hcase]
    cases BIT insn 31 <;> rfl

theorem pd_bitfield (hgen : exec_a64 env c insn = dp_bitfield c insn) :
    (fill_bitfield (pd_generic insn) insn).Runs env c insn := by
  unfold fill_bitfield
  refine .guard fun hbad => ?_
  have hr64 : BITS insn 21 16 < 64 := BITS_lt insn 21 16
  have hs64 : BITS insn 15 10 < 64 := BITS_lt insn 15 10
  have hfields : BITS insn 22 22 = (BIT insn 31).toNat ∧ BITS insn 21 16 < reg_width (BIT insn 31) ∧
      BITS insn 15 10 < reg_width (BIT insn 31) := by
    cases hsf : BIT insn 31 with
    | true =>
      simp only [hsf, if_true, ne_eq, Decidable.not_not] at hbad
      exact ⟨hbad, hr64, hs64⟩
    | false =>
      simp only [hsf, Bool.false_eq_true, if_false, not_or, ne_eq, Decidable.not_not, not_le] at hbad
      exact hbad
  obtain ⟨hN, hr, hs⟩ := hfields
  obtain ⟨wmask, tmask, hdec, hmask⟩ := decode_bitmasks_full (BIT insn 31) hs hr
  have hwidth : (if BIT insn 31 then 64 else 32) = reg_width (BIT insn 31) := rfl
  have hdp (hopc : BITS insn 30 29 ≠ 1 ∧ BITS insn 30 29 ≠ 3) : dp_bitfield c insn =
      set_x_sz c (BITS insn 4 0) (BIT insn 31)
        (((if BITS insn 30 29 = 0 then
            (if (reg_x c (BITS insn 9 5)).getLsbD (BITS insn 15 10) then BitVec.allOnes 64 else 0#64)
          else if BITS insn 30 29 = 2 then 0#64 else reg_x c (BITS insn 4 0)) &&& ~~~tmask) |||
        ((ror_within (reg_x c (BITS insn 9 5)) (BITS insn 21 16) (reg_width (BIT insn 31)) &&& wmask)
          &&& tmask)) := by
    unfold dp_bitfield
    rw [if_neg (by simp [hopc.2, hN])]
    simp only [hN, hdec, hwidth, hopc.1, if_false]
  have hgeneric : pd_exec env c (pd_generic insn) insn = dp_bitfield c insn := (pd_exec_generic rfl).trans hgen
  rw [PDEnt.Runs, hgen]
  simp only [hwidth]
  by_cases hu : BITS insn 30 29 = 2
  · rw [if_pos hu, hdp ⟨by omega, by omega⟩]
    simp only [hu, if_true, OfNat.ofNat_ne_zero, if_false, set_x_sz]
    by_cases hlsr : BITS insn 15 10 = reg_width (BIT insn 31) - 1
    · rw [if_pos hlsr, ubfm_extract hs hr (by omega) hmask, hlsr, extract_top hr]
      cases BIT insn 31 <;> rfl
    rw [if_neg hlsr]
    by_cases hlsl : BITS insn 21 16 = BITS insn 15 10 + 1
    · rw [if_pos hlsl, ubfm_insert hs hr (by omega) hmask, hlsl, insert_top hs]
      cases BIT insn 31 <;> rfl
    rw [if_neg hlsl]
    by_cases hle : BITS insn 21 16 ≤ BITS insn 15 10
    · rw [if_pos hle, ubfm_extract hs hr hle hmask]
      cases BIT insn 31 <;> rfl
    · rw [if_neg hle, ubfm_insert hs hr (by omega) hmask]
      cases BIT insn 31 <;> rfl
  rw [if_neg hu]
  by_cases hsgn : BITS insn 30 29 = 0
  · rw [if_pos hsgn, hdp ⟨by omega, by omega⟩]
    simp only [hsgn, if_true, set_x_sz]
    by_cases hasr : BITS insn 15 10 = reg_width (BIT insn 31) - 1
    · rw [if_pos hasr, sbfm_extract hs hr (by omega) hmask, hasr]
      cases BIT insn 31 <;> simp [pd_exec, by_sf, pd_generic, reg_width]
    rw [if_neg hasr]
    by_cases hle : BITS insn 21 16 ≤ BITS insn 15 10
    · have hshift : (BitVec.ofNat 64 (reg_width (BIT insn 31) - 1 - BITS insn 15 10 +
          BITS insn 21 16)).toNat = reg_width (BIT insn 31) - 1 - BITS insn 15 10 + BITS insn 21 16 := by
        have : reg_width (BIT insn 31) ≤ 64 := by cases BIT insn 31 <;> decide
        rw [BitVec.toNat_ofNat]
        omega
      rw [if_pos hle, sbfm_extract hs hr hle hmask]
      simp only [pd_exec, hshift]
      cases BIT insn 31 <;> rfl
    · rw [if_neg hle, hgeneric, hdp ⟨by omega, by omega⟩]
      simp only [hsgn, if_true, set_x_sz]
  · rw [if_neg hsgn, hgeneric]

theorem pd_extract (hgen : exec_a64 env c insn = dp_extract c insn) :
    (fill_extract (pd_generic insn) insn).Runs env c insn := by
  have himm : (BitVec.ofNat 64 (BITS insn 15 10)).toNat = BITS insn 15 10 := by
    have := BITS_lt insn 15 10
    exact toNat_ofNat64 (by omega)
  unfold fill_extract
  refine .guard fun hbad => ?_
  cases hsf : BIT insn 31 with
  | true =>
    rw [if_pos rfl, PDEnt.Runs, hgen, dp_extract, if_neg (by simpa [hsf] using hbad)]
    simp only [if_true, pd_exec, himm, hsf, set_x_sz_true, extr]
    rfl
  | false =>
    simp only [Bool.false_eq_true, if_false]
    by_cases h32 : BITS insn 15 10 < 32
    · rw [if_pos h32, PDEnt.Runs, hgen, dp_extract, if_neg (by simpa [hsf, h32] using hbad)]
      simp only [pd_exec, himm, hsf, set_x_sz_false, extr, Bool.false_eq_true, if_false, trunc32_setWidth]
      rfl
    · rw [if_neg h32]
      exact pd_exec_generic rfl

theorem pd_dp_imm (hclass : exec_a64 env c insn = dp_immediate c insn) :
    (fill_dp_imm (pd_generic insn) insn).Runs env c insn := by
  unfold fill_dp_imm
  split
  case h_8 => exact pd_exec_generic rfl
  all_goals
    rename_i ht
    simp only [dp_immediate, ht] at hclass
  · exact pd_adr hclass
  · exact pd_adr hclass
  · exact pd_addsub_imm hclass
  · exact pd_logical_imm hclass
  · exact pd_move_wide hclass
  · exact pd_bitfield hclass
  · exact pd_extract hclass

end groups

end arm64emu
