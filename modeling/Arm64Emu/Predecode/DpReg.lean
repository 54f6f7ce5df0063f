import Arm64Emu.Predecode.DpImm

namespace arm64emu

open BitVec

section groups

variable {env : Env} {c : CPU} {insn : u32}

theorem shift_reg_zero (v : u64) (sf : Bool) : shift_reg v 0 0 sf = if sf then v else trunc32 v := by
  cases sf <;> simp [shift_reg]

theorem pd_logical_reg_plain {opc : Nat} (hopc : opc < 4) (N sf : Bool) (n m : u64) :
    (if sf then logical_op opc n (if N then ~~~shift_reg m 0 0 sf else shift_reg m 0 0 sf)
      else trunc32 (logical_op opc n (if N then ~~~shift_reg m 0 0 sf else shift_reg m 0 0 sf))) =
    (if sf then logical_op opc n (if N then ~~~m else m)
      else trunc32 (logical_op opc n (if N then ~~~m else m))) := by
  rw [shift_reg_zero]
  cases sf with
  | true => rfl
  | false =>
    obtain rfl | rfl | rfl | rfl := lt_four hopc
    all_goals
      cases N <;> simp only [logical_op, if_true, if_false, Bool.false_eq_true]
    · exact trunc32_and n m
    · rw [← trunc32_and, trunc32_not, trunc32_and]
    · exact trunc32_or n m
    · rw [← trunc32_or, trunc32_not, trunc32_or]
    · exact trunc32_xor n m
    · rw [← trunc32_xor, trunc32_not, trunc32_xor]
    · exact trunc32_and n m
    · rw [← trunc32_and, trunc32_not, trunc32_and]

theorem pd_logical_reg (hgen : exec_a64 env c insn = dp_logical_reg c insn) :
    (fill_logical_reg (pd_generic insn) insn).Runs env c insn := by
  unfold fill_logical_reg
  refine .guard fun hbad => ?_
  have hopc : BITS insn 30 29 < 4 := BITS_lt insn 30 29
  rw [PDEnt.Runs, hgen, dp_logical_reg, if_neg hbad]
  by_cases hplain : BITS insn 23 22 = 0 ∧ BITS insn 15 10 = 0
  · rw [if_pos hplain]
    simp only [hplain.1, hplain.2]
    rw [pd_logical_reg_plain hopc (BIT insn 21) (BIT insn 31)]
    generalize BITS insn 30 29 = opc at hopc ⊢
    obtain rfl | rfl | rfl | rfl := lt_four hopc
    all_goals cases BIT insn 21 <;> cases BIT insn 31 <;> rfl
  rw [if_neg hplain]
  have hN : BITS insn 21 21 < 2 := BITS_lt insn 21 21
  have hsh : BITS insn 23 22 < 4 := BITS_lt insn 23 22
  have h6 : BITS insn 15 10 < 64 := BITS_lt insn 15 10
  have hlow : (BitVec.ofNat 64 (BITS insn 23 22 * 64 + BITS insn 15 10)).toNat =
      BITS insn 23 22 * 64 + BITS insn 15 10 := toNat_ofNat64 (by omega)
  have hNnat : (BitVec.ofNat 64 (BITS insn 21 21)).toNat = BITS insn 21 21 :=
    toNat_ofNat64 (by omega)
  have himm : (BitVec.ofNat 64 (BITS insn 21 21) <<< 8 |||
      BitVec.ofNat 64 (BITS insn 23 22 * 64 + BITS insn 15 10)).toNat =
      BITS insn 23 22 * 64 + BITS insn 15 10 + BITS insn 21 21 * 2 ^ 8 := by
    rw [BitVec.or_comm, or_shift_toNat (by omega) (by omega), hlow, hNnat]
  generalize BitVec.ofNat 64 (BITS insn 21 21) <<< 8 |||
    BitVec.ofNat 64 (BITS insn 23 22 * 64 + BITS insn 15 10) = imm at himm
  have htype : (imm >>> 6).toNat % 4 = BITS insn 23 22 := by
    rw [toNat_ushiftRight, himm, Nat.shiftRight_eq_div_pow]
    omega
  have hamt : imm.toNat % 64 = BITS insn 15 10 := by omega
  have hbit : imm.getLsbD 8 = BIT insn 21 := by
    rw [BIT_eq_decide, ← BitVec.testBit_toNat, Nat.testBit_eq_decide_div_mod_eq, himm]
    congr 1
    exact propext ⟨fun h => by omega, fun h => by omega⟩
  simp only [pd_exec, logical_shift_id]
  generalize BITS insn 30 29 = opc at hopc ⊢
  obtain rfl | rfl | rfl | rfl := lt_four hopc
  all_goals
    cases hsf : BIT insn 31 <;>
      simp only [by_sf, if_true, if_false, Bool.false_eq_true, L_AND64S, htype, hamt, hbit] <;> rfl

theorem add_with_carry_congr {y y' : u64} (x : u64) (cin : Bool) (h : trunc32 y = trunc32 y') :
    add_with_carry x y cin false = add_with_carry x y' cin false := by
  simp only [add_with_carry, Bool.false_eq_true, if_false, h]

theorem add_with_carry_shift_zero (n m : u64) (op sf : Bool) :
    (if op then add_with_carry n (~~~shift_reg m 0 0 sf) true sf
      else add_with_carry n (shift_reg m 0 0 sf) false sf) =
    if op then add_with_carry n (~~~m) true sf else add_with_carry n m false sf := by
  rw [shift_reg_zero]
  cases sf with
  | true => rfl
  | false =>
    cases op with
    | true => exact add_with_carry_congr n true (trunc32_not m)
    | false => exact add_with_carry_congr n false (trunc32_trunc32 m)

theorem pd_addsub_reg (hgen : exec_a64 env c insn = dp_addsub_reg c insn) :
    (fill_addsub_reg (pd_generic insn) insn).Runs env c insn := by
  unfold fill_addsub_reg
  cases hext : BIT insn 21 with
  | true =>
    simp only [if_true]
    refine .guard fun hbad => ?_
    have hopt : BITS insn 15 13 < 8 := BITS_lt insn 15 13
    have h3 : BITS insn 12 10 < 8 := BITS_lt insn 12 10
    have himm : (BitVec.ofNat 64 (BITS insn 15 13 * 8 + BITS insn 12 10)).toNat =
        BITS insn 15 13 * 8 + BITS insn 12 10 := toNat_ofNat64 (by omega)
    have hoption : (BitVec.ofNat 64 (BITS insn 15 13 * 8 + BITS insn 12 10) >>> 3).toNat % 8 =
        BITS insn 15 13 := by
      rw [toNat_ushiftRight, himm, Nat.shiftRight_eq_div_pow]
      omega
    have hshift : (BitVec.ofNat 64 (BITS insn 15 13 * 8 + BITS insn 12 10)).toNat % 8 =
        BITS insn 12 10 := by omega
    rw [PDEnt.Runs, hgen]
    unfold dp_addsub_reg addsub_operands
    simp only [hext, if_true, if_neg hbad, pd_exec]
    cases BIT insn 30 <;> cases BIT insn 29 <;> cases BIT insn 31 <;>
      simp only [addsub_ext_id, by_sf, if_true, if_false, Bool.false_eq_true, L_ADDX64, hoption,
        hshift] <;> rfl
  | false =>
    simp only [Bool.false_eq_true, if_false]
    refine .guard fun hror => ?_
    refine .guard fun hbig => ?_
    have hok : ¬ (BITS insn 23 22 = 3 ∨ (BIT insn 31 = false ∧ 32 ≤ BITS insn 15 10)) := by
      simpa [hror] using hbig
    rw [PDEnt.Runs, hgen]
    unfold dp_addsub_reg addsub_operands
    simp only [hext, Bool.false_eq_true, if_false, if_neg hok]
    by_cases hplain : BITS insn 23 22 = 0 ∧ BITS insn 15 10 = 0
    · rw [if_pos hplain]
      simp only [hplain.1, hplain.2, add_with_carry_shift_zero]
      cases BIT insn 29 with
      | true => cases BIT insn 30 <;> cases BIT insn 31 <;> rfl
      | false =>
        have hvalue := add_with_carry_value (reg_x c (BITS insn 9 5)) (reg_x c (BITS insn 20 16)) (BIT insn 30)
          (BIT insn 31)
        revert hvalue
        cases BIT insn 30 <;> cases BIT insn 31 <;> exact congrArg (set_x c (BITS insn 4 0))
    rw [if_neg hplain]
    have hsh : BITS insn 23 22 < 4 := BITS_lt insn 23 22
    have h6 : BITS insn 15 10 < 64 := BITS_lt insn 15 10
    have himm : (BitVec.ofNat 64 (BITS insn 23 22 * 64 + BITS insn 15 10)).toNat =
        BITS insn 23 22 * 64 + BITS insn 15 10 := toNat_ofNat64 (by omega)
    have htype : (BitVec.ofNat 64 (BITS insn 23 22 * 64 + BITS insn 15 10) >>> 6).toNat % 4 =
        BITS insn 23 22 := by
      rw [toNat_ushiftRight, himm, Nat.shiftRight_eq_div_pow]
      omega
    have hamt : (BitVec.ofNat 64 (BITS insn 23 22 * 64 + BITS insn 15 10)).toNat % 64 =
        BITS insn 15 10 := by omega
    simp only [pd_exec]
    cases BIT insn 30 <;> cases BIT insn 29 <;> cases BIT insn 31 <;>
      simp only [addsub_shift_id, by_sf, if_true, if_false, Bool.false_eq_true, L_ADD64RS, htype,
        hamt] <;> rfl

theorem pd_3source (hgen : exec_a64 env c insn = dp_3source c insn) :
    (fill_3source (pd_generic insn) insn).Runs env c insn := by
  unfold fill_3source
  refine .guard fun hbad => ?_
  have hra : (BitVec.ofNat 64 (BITS insn 14 10)).toNat = BITS insn 14 10 := by
    have := BITS_lt insn 14 10
    exact toNat_ofNat64 (by omega)
  have ho0 : BITS insn 15 15 < 2 := BITS_lt insn 15 15
  rw [dp_3source, if_neg hbad] at hgen
  generalize hkey : BITS insn 23 21 * 2 + BITS insn 15 15 = key at hgen ⊢
  unfold dp3_id
  split
  case h_9 => exact pd_exec_generic rfl
  all_goals cases hsf : BIT insn 31
  all_goals rw [hsf] at hgen
  case h_1.false | h_2.false =>
    rw [if_neg (by omega)] at hgen
    rw [PDEnt.Runs, hgen]
    simp only [pd_exec, by_sf, Bool.false_eq_true, if_false, reduceCtorEq, hra]
    rfl
  case h_1.true | h_2.true | h_3.true | h_4.true | h_5.true | h_6.true | h_7.true | h_8.true =>
    rw [PDEnt.Runs, hgen]
    simp only [pd_exec, by_sf, if_true, if_false, reduceCtorEq, hra, Bool.true_eq_false, false_and]
    rfl
  all_goals exact pd_exec_generic rfl

theorem pd_ccmp (hgen : exec_a64 env c insn = dp_ccmp c insn) :
    (fill_ccmp (pd_generic insn) insn).Runs env c insn := by
  unfold fill_ccmp
  refine .guard fun hbad => ?_
  have hcond : BITS insn 15 12 < 16 := BITS_lt insn 15 12
  have h5 : BITS insn 20 16 < 32 := BITS_lt insn 20 16
  have hcnat : (BitVec.ofNat 64 (BITS insn 15 12)).toNat = BITS insn 15 12 :=
    toNat_ofNat64 (by omega)
  have h5nat : (BitVec.ofNat 64 (BITS insn 20 16)).toNat = BITS insn 20 16 :=
    toNat_ofNat64 (by omega)
  have hfl : ((nzcv_of_imm (BITS insn 3 0)).setWidth 64).toNat = (nzcv_of_imm (BITS insn 3 0)).toNat := by
    have := (nzcv_of_imm (BITS insn 3 0)).isLt
    rw [toNat_setWidth]
    omega
  have hflt := (nzcv_of_imm (BITS insn 3 0)).isLt
  have hlow : (BitVec.ofNat 64 (BITS insn 15 12) ||| BitVec.ofNat 64 (BITS insn 20 16) <<< 8).toNat =
      BITS insn 15 12 + BITS insn 20 16 * 2 ^ 8 := by
    rw [or_shift_toNat (by omega) (by omega), hcnat, h5nat]
  have himm : (BitVec.ofNat 64 (BITS insn 15 12) ||| BitVec.ofNat 64 (BITS insn 20 16) <<< 8 |||
      (nzcv_of_imm (BITS insn 3 0)).setWidth 64 <<< 32).toNat =
      BITS insn 15 12 + BITS insn 20 16 * 2 ^ 8 + (nzcv_of_imm (BITS insn 3 0)).toNat * 2 ^ 32 := by
    rw [or_shift_toNat (by omega) (by omega), hlow, hfl]
  generalize BitVec.ofNat 64 (BITS insn 15 12) ||| BitVec.ofNat 64 (BITS insn 20 16) <<< 8 |||
    (nzcv_of_imm (BITS insn 3 0)).setWidth 64 <<< 32 = imm at himm
  have himmc : imm.toNat % 16 = BITS insn 15 12 := by omega
  have himm5 : (imm >>> 8) &&& 31#64 = BitVec.ofNat 64 (BITS insn 20 16) := by
    apply eq_of_toNat_eq
    rw [toNat_and, toNat_ushiftRight, himm, Nat.shiftRight_eq_div_pow, h5nat]
    change _ &&& (2 ^ 5 - 1) = _
    rw [Nat.and_two_pow_sub_one_eq_mod]
    omega
  have himmf : (imm >>> 32).setWidth 32 = nzcv_of_imm (BITS insn 3 0) := by
    apply eq_of_toNat_eq
    rw [toNat_setWidth, toNat_ushiftRight, himm, Nat.shiftRight_eq_div_pow]
    omega
  rw [PDEnt.Runs, hgen, dp_ccmp, if_neg hbad]
  simp only [pd_exec]
  cases BIT insn 30 <;> cases BIT insn 11 <;> cases BIT insn 31 <;>
    simp only [ccmp_id, by_sf, if_true, if_false, Bool.false_eq_true, L_CCMP64I, himmc, himm5, himmf] <;>
    rfl

theorem pd_csel (hgen : exec_a64 env c insn = dp_csel c insn) :
    (fill_csel (pd_generic insn) insn).Runs env c insn := by
  unfold fill_csel
  refine .guard fun hbad => ?_
  have hcond : (BitVec.ofNat 64 (BITS insn 15 12)).toNat = BITS insn 15 12 := by
    have := BITS_lt insn 15 12
    exact toNat_ofNat64 (by omega)
  rw [PDEnt.Runs, hgen, dp_csel, if_neg hbad]
  simp only [pd_exec]
  cases BIT insn 30 <;> cases BIT insn 10 <;> cases BIT insn 31 <;>
    simp only [csel_id, by_sf, if_true, if_false, Bool.false_eq_true, L_CSEL64, hcond] <;> rfl

theorem trunc32_clz (n : u64) :
    trunc32 (if trunc32 n = 0#64 then 32#64 else BitVec.ofNat 64 (clz 32 (trunc32 n).toNat)) =
      if trunc32 n = 0#64 then 32#64 else BitVec.ofNat 64 (clz 32 (trunc32 n).toNat) := by
  split
  · rfl
  apply eq_of_toNat_eq
  have hclz : clz 32 (trunc32 n).toNat < 32 := by
    unfold clz
    omega
  rw [trunc32_toNat, toNat_ofNat64 (by omega)]
  omega

theorem pd_1source (hgen : exec_a64 env c insn = set_or_undef c (BITS insn 4 0) (BIT insn 31)
      (dp1_value (BITS insn 15 10) (reg_x c (BITS insn 9 5)) (BIT insn 31))) :
    PDEnt.Runs { pd_generic insn with op := dp1_id (BITS insn 15 10) (BIT insn 31) } env c insn := by
  generalize BITS insn 15 10 = opcode at hgen ⊢
  unfold dp1_id
  split
  case h_4 => exact pd_exec_generic rfl
  all_goals
    cases hsf : BIT insn 31
    all_goals rw [hsf] at hgen
  case h_1.true | h_2.false => exact pd_exec_generic rfl
  all_goals rw [PDEnt.Runs, hgen]
  case h_1.false =>
    simp only [set_or_undef, dp1_value, Bool.false_eq_true, if_false, set_x_sz_false, trunc32_setWidth]
    rfl
  case h_3.false =>
    simp only [set_or_undef, dp1_value, Bool.false_eq_true, if_false, set_x_sz_false, trunc32_clz]
    rfl
  all_goals rfl

theorem trunc32_udiv (n m : u64) : trunc32 (udiv n m false) = udiv n m false := trunc32_setWidth _

theorem trunc32_sdiv (n m : u64) : trunc32 (sdiv n m false) = sdiv n m false := trunc32_setWidth _

theorem pd_2source (hgen : exec_a64 env c insn = set_or_undef c (BITS insn 4 0) (BIT insn 31)
      (dp2_value (BITS insn 15 10) (reg_x c (BITS insn 9 5)) (reg_x c (BITS insn 20 16))
        (BIT insn 31))) :
    PDEnt.Runs { pd_generic insn with op := dp2_id (BITS insn 15 10) (BIT insn 31) } env c insn := by
  generalize BITS insn 15 10 = opcode at hgen ⊢
  unfold dp2_id
  split
  case h_7 => exact pd_exec_generic rfl
  all_goals
    rw [PDEnt.Runs, hgen]
    cases BIT insn 31
  case h_1.false =>
    simp only [set_or_undef, dp2_value, set_x_sz_false, trunc32_udiv]
    rfl
  case h_2.false =>
    simp only [set_or_undef, dp2_value, set_x_sz_false, trunc32_sdiv]
    rfl
  all_goals rfl

theorem pd_12source (hgen : exec_a64 env c insn = dp_12source c insn) :
    (fill_12source (pd_generic insn) insn).Runs env c insn :=
  .ite hgen (fun _ => pd_1source) fun _ => pd_2source

theorem pd_dp_reg (hclass : exec_a64 env c insn = dp_register c insn) :
    (fill_dp_reg (pd_generic insn) insn).Runs env c insn := by
  unfold fill_dp_reg
  split
  case h_5 => exact pd_exec_generic rfl
  all_goals rename_i h24
  case h_4 =>
    split
    case h_4 => exact pd_exec_generic rfl
    all_goals
      rename_i h21
      simp only [dp_register, h24, h21] at hclass
    · exact pd_ccmp hclass
    · exact pd_csel hclass
    · exact pd_12source hclass
  all_goals simp only [dp_register, h24] at hclass
  · exact pd_logical_reg hclass
  · exact pd_addsub_reg hclass
  · exact pd_3source hclass

end groups

end arm64emu
