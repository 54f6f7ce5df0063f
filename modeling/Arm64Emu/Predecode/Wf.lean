import Arm64Emu.Predecode.Fill

namespace arm64emu

/-- What bounds the second register field and the immediate of an entry: a register number, a shift amount, a byte
count or a bit number. -/
def PDEnt.OperandsOk (e : PDEnt) : Prop :=
  match e.op with
  | .PD_LSL64I | .PD_LSR64I | .PD_ASR64I | .PD_UBFX64 | .PD_UBFX32 | .PD_UBFIZ64 => e.rm < 64
  | .PD_LSL32I | .PD_LSR32I | .PD_ASR32I | .PD_UBFIZ32 => e.rm < 32
  | .PD_SBFX64 => e.rm < 64 ∧ e.imm.toNat < 64
  | .PD_SBFX32 => e.rm < 32 ∧ e.imm.toNat < 32
  | .PD_EXTR64 => e.rm < 32 ∧ e.imm.toNat < 64
  | .PD_EXTR32 => e.rm < 32 ∧ e.imm.toNat < 32
  | .PD_MADD64 | .PD_MADD32 | .PD_MSUB64 | .PD_MSUB32
  | .PD_SMADDL | .PD_SMSUBL | .PD_UMADDL | .PD_UMSUBL => e.rm < 32 ∧ e.imm.toNat < 32
  | .PD_CSEL64 | .PD_CSEL32 | .PD_CSINC64 | .PD_CSINC32
  | .PD_CSINV64 | .PD_CSINV32 | .PD_CSNEG64 | .PD_CSNEG32 => e.rm < 32 ∧ e.imm.toNat < 16
  | .PD_AND32S | .PD_ORR32S | .PD_EOR32S | .PD_ANDS32S
  | .PD_ADD32RS | .PD_SUB32RS | .PD_ADDS32RS | .PD_SUBS32RS => e.rm < 32 ∧ e.imm.toNat % 64 < 32
  | .PD_LDRV | .PD_STRV => ∃ k < 4, e.rm = 2 ^ k
  | .PD_LDRLITV => ∃ k, 2 ≤ k ∧ k ≤ 4 ∧ e.rm = 2 ^ k
  | .PD_BCOND => e.rd < 16
  | .PD_MOVK64 | .PD_MOVK32 | .PD_TBZ | .PD_TBNZ => True
  | _ => e.rm < 32

/-- A well-formed entry: its fields are in the ranges its handler relies on. -/
structure PDEnt.WF (e : PDEnt) : Prop where
  rd : e.rd < 32
  rn : e.rn < 32
  operands : e.OperandsOk

section fill

variable (insn : u32)

theorem pd_generic_wf : (pd_generic insn).WF :=
  ⟨BITS_lt insn 4 0, BITS_lt insn 9 5, BITS_lt insn 20 16⟩

theorem wf_of_fields {e : PDEnt} (hrd : e.rd = BITS insn 4 0) (hrn : e.rn = BITS insn 9 5)
    (hops : e.OperandsOk) : e.WF :=
  ⟨hrd ▸ BITS_lt insn 4 0, hrn ▸ BITS_lt insn 9 5, hops⟩

theorem fill_bitfield_wf : (fill_bitfield (pd_generic insn) insn).WF := by
  have hr : BITS insn 21 16 < 64 := BITS_lt insn 21 16
  have hs : BITS insn 15 10 < 64 := BITS_lt insn 15 10
  have hgen := pd_generic_wf insn
  unfold fill_bitfield
  dsimp only
  cases BIT insn 31 with
  | true =>
    simp only [by_sf, if_true]
    split_ifs <;> first
      | exact hgen
      | refine wf_of_fields insn rfl rfl ?_
        simp only [PDEnt.OperandsOk, BitVec.toNat_ofNat]
        omega
  | false =>
    simp only [by_sf, Bool.false_eq_true, if_false]
    split_ifs <;> first
      | exact hgen
      | refine wf_of_fields insn rfl rfl ?_
        simp only [PDEnt.OperandsOk, BitVec.toNat_ofNat]
        omega

theorem fill_dp_imm_wf : (fill_dp_imm (pd_generic insn) insn).WF := by
  have hrm : BITS insn 20 16 < 32 := BITS_lt insn 20 16
  have hs : BITS insn 15 10 < 64 := BITS_lt insn 15 10
  have hgen := pd_generic_wf insn
  unfold fill_dp_imm
  split
  · unfold fill_adr
    split <;> exact wf_of_fields insn rfl rfl hrm
  · unfold fill_adr
    split <;> exact wf_of_fields insn rfl rfl hrm
  · unfold fill_addsub_imm
    cases BIT insn 31 <;> cases BIT insn 30 <;> cases BIT insn 29 <;>
      exact wf_of_fields insn rfl rfl hrm
  · unfold fill_logical_imm
    dsimp only
    split
    · exact hgen
    refine wf_of_fields insn rfl rfl ?_
    have hopc : BITS insn 30 29 < 4 := BITS_lt insn 30 29
    generalize BITS insn 30 29 = opc at hopc
    obtain rfl | rfl | rfl | rfl := lt_four hopc
    all_goals cases BIT insn 31 <;> exact hrm
  · unfold fill_move_wide
    dsimp only
    split
    · exact hgen
    split
    · exact wf_of_fields insn rfl rfl hrm
    · exact wf_of_fields insn rfl rfl hrm
    · refine wf_of_fields insn rfl rfl ?_
      cases BIT insn 31 <;> trivial
    · exact hgen
  · exact fill_bitfield_wf insn
  · unfold fill_extract
    dsimp only
    split_ifs
    · exact hgen
    · refine wf_of_fields insn rfl rfl ⟨hrm, ?_⟩
      rw [toNat_ofNat64 (by omega)]
      exact hs
    · refine wf_of_fields insn rfl rfl ⟨hrm, ?_⟩
      rw [toNat_ofNat64 (by omega)]
      assumption
    · exact hgen
  · exact hgen

theorem fill_branch_wf : (fill_branch (pd_generic insn) insn).WF := by
  have hrm : BITS insn 20 16 < 32 := BITS_lt insn 20 16
  have hgen := pd_generic_wf insn
  unfold fill_branch
  dsimp only
  split_ifs
  case pos => exact wf_of_fields insn rfl rfl hrm
  all_goals first
    | exact hgen
    | exact wf_of_fields insn rfl rfl hrm
    | exact wf_of_fields insn rfl rfl trivial
    | exact ⟨lt_trans (BITS_lt insn 3 0) (by decide), BITS_lt insn 9 5, BITS_lt insn 3 0⟩
    | cases BIT insn 31 <;> exact wf_of_fields insn rfl rfl hrm

theorem fill_pair_wf : (fill_pair (pd_generic insn) insn).WF := by
  have hrt2 : BITS insn 14 10 < 32 := BITS_lt insn 14 10
  have hgen := pd_generic_wf insn
  unfold fill_pair pair_base
  dsimp only
  split
  · exact hgen
  split
  · exact hgen
  rename_i scale base_id hbase
  refine wf_of_fields insn rfl rfl ?_
  generalize BIT insn 26 = V at hbase
  generalize BIT insn 22 = L at hbase
  cases V <;> cases L <;> simp only [Bool.false_eq_true, if_true, if_false] at hbase <;>
    split_ifs at hbase <;> cases hbase <;> split_ifs <;> exact hrt2

/-- An opcode whose second register field is a register. -/
def RmIsRegister (op : PDOp) : Prop := ∀ e : PDEnt, e.op = op → e.rm < 32 → e.OperandsOk

variable {size opc : Nat}

theorem ldst_int_id_rm {op : PDOp} (h : ldst_int_id size opc = some op) : RmIsRegister op := by
  intro e he hrm
  unfold ldst_int_id at h
  unfold PDEnt.OperandsOk
  split at h <;> first | cases h; rw [he]; exact hrm | cases h

theorem ldst_ro_id_rm {op : PDOp} (h : ldst_ro_id size opc = some op) : RmIsRegister op := by
  intro e he hrm
  unfold ldst_ro_id at h
  unfold PDEnt.OperandsOk
  split at h <;> first | cases h; rw [he]; exact hrm | cases h

theorem ldst_wb_id_rm {post : Bool} {op : PDOp}
    (h : ldst_wb_id size opc post = some op) : RmIsRegister op := by
  intro e he hrm
  unfold ldst_wb_id at h
  unfold PDEnt.OperandsOk
  cases post <;> simp only [Bool.false_eq_true, and_false, and_true, if_false, if_true] at h <;>
    split_ifs at h <;> cases h <;> rw [he] <;> exact hrm

theorem with_id_wf {id : Option PDOp} (imm : u64) (hid : ∀ op, id = some op → RmIsRegister op) :
    (with_id (pd_generic insn) id imm).WF := by
  cases id with
  | none => exact pd_generic_wf insn
  | some op => exact wf_of_fields insn rfl rfl (hid op rfl _ rfl (BITS_lt insn 20 16))

theorem fill_vreg_wf (imm : u64) : (with_imm (fill_vreg (pd_generic insn) insn) imm).WF := by
  have hsize : BITS insn 31 30 < 4 := BITS_lt insn 31 30
  have hrm : BITS insn 20 16 < 32 := BITS_lt insn 20 16
  unfold fill_vreg
  dsimp only
  split_ifs
  · exact pd_generic_wf insn
  · exact wf_of_fields insn rfl rfl hrm
  · exact wf_of_fields insn rfl rfl hrm
  · exact wf_of_fields insn rfl rfl ⟨BITS insn 31 30, hsize, rfl⟩
  · exact wf_of_fields insn rfl rfl ⟨BITS insn 31 30, hsize, rfl⟩

theorem fill_register_wf : (fill_register (pd_generic insn) insn).WF := by
  have hrm : BITS insn 20 16 < 32 := BITS_lt insn 20 16
  have hint (imm : u64) :
      (with_id (pd_generic insn) (ldst_int_id (BITS insn 31 30) (BITS insn 23 22)) imm).WF :=
    with_id_wf insn imm fun _ => ldst_int_id_rm
  unfold fill_register
  dsimp only
  split_ifs
  all_goals first
    | exact pd_generic_wf insn
    | exact fill_vreg_wf insn _
    | exact hint _
    | exact with_id_wf insn _ fun _ => ldst_ro_id_rm
    | exact with_id_wf insn _ fun _ => ldst_wb_id_rm
    | exact wf_of_fields insn rfl rfl hrm

theorem fill_ldst_wf : (fill_ldst (pd_generic insn) insn).WF := by
  have hopc : BITS insn 31 30 < 4 := BITS_lt insn 31 30
  have hrm : BITS insn 20 16 < 32 := BITS_lt insn 20 16
  unfold fill_ldst
  dsimp only
  split_ifs
  · unfold fill_literal
    dsimp only
    split_ifs with hV h3
    · exact pd_generic_wf insn
    · refine wf_of_fields insn rfl rfl ⟨BITS insn 31 30 + 2, by omega, by omega, ?_⟩
      rw [Nat.pow_add, Nat.mul_comm]
    · split <;> exact wf_of_fields insn rfl rfl hrm
  · exact fill_pair_wf insn
  · exact fill_register_wf insn
  · exact pd_generic_wf insn

theorem fill_3source_wf : (fill_3source (pd_generic insn) insn).WF := by
  have hrm : BITS insn 20 16 < 32 := BITS_lt insn 20 16
  have hra : BITS insn 14 10 < 32 := BITS_lt insn 14 10
  unfold fill_3source dp3_id
  split
  · exact pd_generic_wf insn
  refine wf_of_fields insn rfl rfl ?_
  have himm : (BitVec.ofNat 64 (BITS insn 14 10)).toNat < 32 := by
    rw [toNat_ofNat64 (by omega)]
    exact hra
  dsimp only
  split <;> cases BIT insn 31 <;> first | exact hrm | exact ⟨hrm, himm⟩

/-- The amount of a packed shift: the low six bits of the immediate. -/
theorem packed_amount {shift amt : Nat} (hshift : shift < 4) (hamt : amt < 64) (high : u64) :
    ((high <<< 8 ||| BitVec.ofNat 64 (shift * 64 + amt)).toNat) % 64 = amt := by
  have hhigh : (high <<< 8).toNat % 2 ^ 6 = 0 := by
    rw [BitVec.toNat_shiftLeft, Nat.shiftLeft_eq, Nat.mod_mod_of_dvd _ (by decide)]
    omega
  rw [BitVec.toNat_or, toNat_ofNat64 (by omega)]
  change _ % 2 ^ 6 = amt
  rw [Nat.or_mod_two_pow, hhigh, Nat.zero_or]
  omega

theorem fill_dp_reg_wf : (fill_dp_reg (pd_generic insn) insn).WF := by
  have hrm : BITS insn 20 16 < 32 := BITS_lt insn 20 16
  have hgen := pd_generic_wf insn
  have hopc : BITS insn 30 29 < 4 := BITS_lt insn 30 29
  have hshift : BITS insn 23 22 < 4 := BITS_lt insn 23 22
  have hamt : BITS insn 15 10 < 64 := BITS_lt insn 15 10
  unfold fill_dp_reg
  split
  · unfold fill_logical_reg
    dsimp only
    split
    · exact hgen
    rename_i hwide
    split
    · refine wf_of_fields insn rfl rfl ?_
      generalize BITS insn 30 29 = opc at hopc
      obtain rfl | rfl | rfl | rfl := lt_four hopc
      all_goals cases BIT insn 21 <;> cases BIT insn 31 <;> exact hrm
    refine wf_of_fields insn rfl rfl ?_
    have hlow := packed_amount hshift hamt (BitVec.ofNat 64 (BITS insn 21 21))
    generalize BITS insn 30 29 = opc at hopc
    generalize BIT insn 31 = sf at hwide
    obtain rfl | rfl | rfl | rfl := lt_four hopc
    all_goals
      cases sf with
      | true => exact hrm
      | false =>
        simp only [Bool.not_false, Bool.true_and, decide_eq_true_eq] at hwide
        exact ⟨hrm, by simp only [hlow]; omega⟩
  · unfold fill_addsub_reg
    dsimp only
    split
    · split
      · exact hgen
      · refine wf_of_fields insn rfl rfl ?_
        cases BIT insn 30 <;> cases BIT insn 29 <;> cases BIT insn 31 <;> exact hrm
    split
    · exact hgen
    split
    · exact hgen
    rename_i hwide
    split
    · refine wf_of_fields insn rfl rfl ?_
      cases BIT insn 30 <;> cases BIT insn 29 <;> cases BIT insn 31 <;> exact hrm
    refine wf_of_fields insn rfl rfl ?_
    have hlow : (BitVec.ofNat 64 (BITS insn 23 22 * 64 + BITS insn 15 10)).toNat % 64 = BITS insn 15 10 := by
      rw [toNat_ofNat64 (by omega)]
      omega
    generalize BIT insn 31 = sf at hwide
    cases sf with
    | true => cases BIT insn 30 <;> cases BIT insn 29 <;> exact hrm
    | false =>
      simp only [Bool.not_false, Bool.true_and, decide_eq_true_eq] at hwide
      have hsmall : (BitVec.ofNat 64 (BITS insn 23 22 * 64 + BITS insn 15 10)).toNat % 64 < 32 := by omega
      cases BIT insn 30 <;> cases BIT insn 29 <;> exact ⟨hrm, hsmall⟩
  · exact fill_3source_wf insn
  · split
    · unfold fill_ccmp
      split
      · exact hgen
      · refine wf_of_fields insn rfl rfl ?_
        cases BIT insn 30 <;> cases BIT insn 11 <;> cases BIT insn 31 <;> exact hrm
    · unfold fill_csel
      split
      · exact hgen
      refine wf_of_fields insn rfl rfl ?_
      have hcond : (BitVec.ofNat 64 (BITS insn 15 12)).toNat < 16 := by
        have : BITS insn 15 12 < 16 := BITS_lt insn 15 12
        rw [toNat_ofNat64 (by omega)]
        exact this
      cases BIT insn 30 <;> cases BIT insn 10 <;> cases BIT insn 31 <;> exact ⟨hrm, hcond⟩
    · unfold fill_12source dp1_id dp2_id
      split <;> refine wf_of_fields insn rfl rfl ?_ <;> split <;> cases BIT insn 31 <;> exact hrm
    · exact hgen
  · exact hgen

end fill

theorem pd_fill_wf (insn : u32) : (pd_fill insn).WF := by
  unfold pd_fill
  split
  case h_11 => exact pd_generic_wf insn
  all_goals first
    | exact fill_dp_imm_wf insn
    | exact fill_branch_wf insn
    | exact fill_ldst_wf insn
    | exact fill_dp_reg_wf insn

end arm64emu
