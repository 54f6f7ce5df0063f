import Arm64Emu.Jit.FeDp
import Arm64Emu.Jit.FeMem

namespace arm64emu

section memory

variable {env : IREnv} {k n : Nat} {s : IRState} (e : PDEnt) {pc : u64} (hpc : s.c.cur_insn_pc = pc)
  (hel : s.c.el = 0) (hwf : e.WF)

include hpc hel hwf

variable {f : u64 → u64} {szlog : Nat} {z : Nat} {va : u64}

theorem gives_ld_to (sign is64 : Bool) (hsz : szlog < 4)
    (hf : ∀ v, at_width is64 (if sign then sign_extend v (8 * 2 ^ szlog) else v) = f v) :
    (ir_run env k [put_ld n (rsp e.rn) e.imm e.rd szlog sign is64 pc] s).Gives
      (ld_to env.toPager s.c e.rd (reg_xsp s.c e.rn + e.imm) (2 ^ szlog) f) n := by
  rw [ld_to_eq, ← Access.writeback_none _ 0]
  exact gives_ld hpc _ _ sign is64 hwf.rd hsz (congrArg (· + e.imm) (vget_rsp s hel hwf.rn))
    (fun v _ _ => hf v) 0

theorem gives_ld_wb_pd (is64 pre : Bool) (hsz : szlog < 4)
    (hva : reg_xsp s.c e.rn + (if pre then e.imm else 0#64) = va) (hf : ∀ v, at_width is64 v = f v) :
    (ir_run env k (put_ld_wb n e.rn e.imm e.rd szlog false is64 pre pc) s).Gives
      (ld_wb env.toPager s.c e va (reg_xsp s.c e.rn + e.imm) (2 ^ szlog) f) n := by
  rw [ld_wb_eq, ← hva]
  exact gives_ld_wb hpc e.imm false is64 pre hwf.rd hwf.rn hsz hel (fun v _ _ => hf v)

theorem gives_st_cpu (szlog : Nat) :
    (ir_run env k [put_st n (rsp e.rn) e.imm (rx e.rd) szlog pc] s).Gives
      (mem_write env.toPager s.c (reg_xsp s.c e.rn + e.imm) (2 ^ szlog) (reg_x s.c e.rd)).cpu n := by
  rw [← Access.writeback_none _ e.rn]
  exact gives_st hpc _ _ szlog hwf.rd hel (congrArg (· + e.imm) (vget_rsp s hel hwf.rn)) hwf.rn 0#64 false

theorem gives_st_wb_pd (szlog : Nat) (pre : Bool)
    (hva : reg_xsp s.c e.rn + (if pre then e.imm else 0#64) = va) :
    (ir_run env k (put_st_wb n e.rn e.imm e.rd szlog pre pc) s).Gives
      (st_wb env.toPager s.c e va (reg_xsp s.c e.rn + e.imm) (2 ^ szlog)) n := by
  rw [st_wb_eq, ← hva]
  exact gives_st hpc _ _ szlog hwf.rd hel (congrArg (· + _) (vget_rsp s hel hwf.rn)) hwf.rn e.imm true

theorem gives_v_cpu (L : Bool) (hsz : z < 8) :
    (ir_run env k [put_v L n (rsp e.rn) e.imm e.rd z pc] s).Gives
      (vreg_access env.toPager s.c L e.rd (reg_xsp s.c e.rn + e.imm) (2 ^ z)).cpu n := by
  rw [← Access.writeback_none _ e.rn]
  exact gives_v hpc L _ _ hwf.rd hsz hel (congrArg (· + e.imm) (vget_rsp s hel hwf.rn)) hwf.rn 0#64 false

theorem gives_ldrq :
    (ir_run env k [put_ldv n (rsp e.rn) e.imm e.rd 4 pc] s).Gives
      (L_LDRQ env.toPager s.c e (reg_xsp s.c e.rn + e.imm)) n := by
  rw [L_LDRQ_eq]
  exact gives_v_cpu e hpc hel hwf true (by decide)

theorem gives_strq :
    (ir_run env k [put_stv n (rsp e.rn) e.imm e.rd 4 pc] s).Gives
      (mem_write128 env.toPager s.c (reg_xsp s.c e.rn + e.imm) (s.c.v e.rd)).cpu n :=
  gives_v_cpu e hpc hel hwf (z := 4) false (by decide)

theorem gives_ldrv (hrm : ∃ j < 4, e.rm = 2 ^ j) :
    (ir_run env k [put_ldv n (rsp e.rn) e.imm e.rd (ctz e.rm) pc] s).Gives
      (L_LDRV env.toPager s.c e (reg_xsp s.c e.rn + e.imm)) n := by
  obtain ⟨j, hj, hrm⟩ := hrm
  have hctz : ctz e.rm = j := by rw [hrm, ctz, Nat.log2_two_pow]
  have h16 : e.rm ≠ 16 := by
    rw [hrm]
    exact Nat.ne_of_lt (Nat.pow_lt_pow_right (by decide) hj)
  rw [L_LDRV_eq _ _ _ _ h16, hctz, hrm]
  exact gives_v_cpu e hpc hel hwf true (by omega)

theorem gives_strv (hrm : ∃ j < 4, e.rm = 2 ^ j) :
    (ir_run env k [put_stv n (rsp e.rn) e.imm e.rd (ctz e.rm) pc] s).Gives
      (mem_write env.toPager s.c (reg_xsp s.c e.rn + e.imm) e.rm (s.c.v e.rd).d0).cpu n := by
  obtain ⟨j, hj, hrm⟩ := hrm
  have hctz : ctz e.rm = j := by rw [hrm, ctz, Nat.log2_two_pow]
  have h16 : ¬ 2 ^ j = 16 := Nat.ne_of_lt (Nat.pow_lt_pow_right (by decide) hj)
  have h := @gives_v_cpu env k n s e pc hpc hel hwf j false (by omega)
  rw [vreg_access, if_neg Bool.false_ne_true, vreg_store, if_neg h16] at h
  rw [hctz, hrm]
  exact h

theorem gives_q_wb (L pre : Bool) (hva : reg_xsp s.c e.rn + (if pre then e.imm else 0#64) = va) :
    (ir_run env k [put_v L n (rsp e.rn) (if pre then e.imm else 0#64) e.rd 4 pc, put_wb n e.rn e.imm] s).Gives
      ((if L then L_LDRQ_wb else L_STRQ_wb) env.toPager s.c e va (reg_xsp s.c e.rn + e.imm)) n := by
  rw [← hva]
  cases L <;> simp only [if_true, Bool.false_eq_true, if_false, L_LDRQ_wb_eq, L_STRQ_wb_eq] <;>
    exact gives_v hpc _ _ _ hwf.rd (z := 4) (by decide) hel (congrArg (· + _) (vget_rsp s hel hwf.rn)) hwf.rn
      e.imm true

def pair_at (mode : PairMode) : PairAt :=
  match mode with
  | .off => ⟨false, false⟩
  | .pre => ⟨false, true⟩
  | .post => ⟨true, true⟩

omit hpc hel hwf in
theorem pair_at_addr (mode : PairMode) (base : u64) :
    base + (pair_at mode).first e = mode.addr base e.imm := by
  cases mode with
  | off => rfl
  | pre => rfl
  | post => exact BitVec.add_zero base

omit hpc hel hwf in
theorem pair_at_wb (mode : PairMode) (base : u64) :
    (if (pair_at mode).wb then some (base + e.imm) else none) = mode.wb base e.imm := by
  cases mode <;> rfl

theorem gives_vector_ldst (L : Bool) (mode : PairMode) (hsz : z < 8) (hrm : e.rm < 32) :
    (ir_run env k (if L then put_ldpv n e z (pair_at mode) pc else put_stpv n e z (pair_at mode) pc) s).Gives
      (pair_of env.toPager s.c e mode true L (2 ^ z)) n := by
  rw [pair_of, ← pair_at_wb]
  have h := @gives_vector_pair env k n s pc hpc e.rn L _ _ _ _ _ hwf.rd hrm hsz hel hwf.rn _
    (pair_at_addr e mode _) rfl false e.imm (pair_at mode).wb
  cases L <;> exact h

theorem gives_ldpq (mode : PairMode) (hrm : e.rm < 32) :
    (ir_run env k (put_ldpv n e 4 (pair_at mode) pc) s).Gives (L_LDPQ env.toPager s.c e mode) n := by
  rw [L_LDPQ_eq]
  exact gives_vector_ldst e hpc hel hwf true mode (z := 4) (by decide) hrm

theorem gives_stpq (mode : PairMode) (hrm : e.rm < 32) :
    (ir_run env k (put_stpv n e 4 (pair_at mode) pc) s).Gives (L_STPQ env.toPager s.c e mode) n := by
  rw [L_STPQ_eq]
  exact gives_vector_ldst e hpc hel hwf false mode (z := 4) (by decide) hrm

theorem gives_ldpd (mode : PairMode) (hrm : e.rm < 32) :
    (ir_run env k (put_ldpv n e 3 (pair_at mode) pc) s).Gives (L_LDPD env.toPager s.c e mode) n := by
  rw [L_LDPD_eq]
  exact gives_vector_ldst e hpc hel hwf true mode (z := 3) (by decide) hrm

theorem gives_stpd (mode : PairMode) (hrm : e.rm < 32) :
    (ir_run env k (put_stpv n e 3 (pair_at mode) pc) s).Gives (L_STPD env.toPager s.c e mode) n := by
  rw [L_STPD_eq]
  exact gives_vector_ldst e hpc hel hwf false mode (z := 3) (by decide) hrm

theorem gives_ldp (mode : PairMode) (is64 : Bool) (hrm : e.rm < 32) :
    (ir_run env k (put_ldp n e is64 (pair_at mode) pc) s).Gives (L_LDP64 env.toPager s.c e is64 mode) n := by
  have haddr := pair_at_addr e mode (reg_xsp s.c e.rn)
  have hwb : (if (pair_at mode).wb then
      some (reg_xsp s.c e.rn + (pair_at mode).first e + if (pair_at mode).post then e.imm else 0#64) else none) =
      mode.wb (reg_xsp s.c e.rn) e.imm := by
    cases mode with
    | off => rfl
    | pre => exact congrArg some (BitVec.add_zero _)
    | post => exact congrArg (fun v => some (v + e.imm)) (BitVec.add_zero _)
  have hvalue (v : u64) : at_width is64 v = pair_value false (if is64 then 3 else 2) v := by cases is64 <;> rfl
  rw [L_LDP64_eq, pair_of, pair_access_loads _ _ _ _ _ _ (by cases is64 <;> decide), ← haddr, ← hwb]
  refine gives_ld_pair_base hel hpc hwf.rd hrm hwf.rn (by cases is64 <;> decide) _ false is64 is64
    (fun _ v _ _ _ => (at_width_at_width v is64).trans (hvalue v)) ?_ _ _
  cases is64 <;> rfl

theorem gives_stp (mode : PairMode) (is64 : Bool) (hrm : e.rm < 32) :
    (ir_run env k (put_stp n e is64 (pair_at mode) pc) s).Gives (L_STP64 env.toPager s.c e is64 mode) n := by
  have haddr := pair_at_addr e mode (reg_xsp s.c e.rn)
  rw [L_STP64_eq, pair_of, pair_access_stores _ _ _ _ _ _ (by cases is64 <;> decide), ← pair_at_wb]
  refine gives_st_pair hpc _ _ _ hwf.rd hrm hel hwf.rn haddr ?_ e.imm _
  rw [← haddr, BitVec.add_assoc]
  cases is64 <;> rfl

omit hpc hwf in
theorem run_ro {rm rn option shift : Nat} (hrm : rm < 32) (hrn : rn < 32) (hopt : option < 8) (hshift : shift < 8)
    (access : IROp) :
    ∃ k' s', ir_run env k ((fe_extended n rm option shift).1 ++
        [ir_put n .IRO_ADD true VREG_TMP1 (rsp rn) (fe_extended n rm option shift).2 0 0#64 0#32, access]) s =
        ir_run env k' [access] s' ∧ s'.c = s.c ∧
      vget s' VREG_TMP1 = reg_xsp s.c rn + extend_reg (reg_x s.c rm) option shift := by
  obtain ⟨s₁, hrun, hc, hval⟩ := run_fe_extended hrm hopt hshift
  refine ⟨k + (fe_extended n rm option shift).1.length + 1,
    vset s₁ VREG_TMP1 (reg_xsp s.c rn + extend_reg (reg_x s.c rm) option shift), ?_, hc, rfl⟩
  rw [ir_run_append, hrun, IRResult.bind, ir_run_alu _ _ _ _ rfl, ir_alu_put, hval,
    vget_rsp s₁ (hc ▸ hel) hrn, hc]
  rfl

theorem gives_ld_ro (is64 : Bool) (hsz : szlog < 4) (hrm : e.rm < 32) (hf : ∀ v, at_width is64 v = f v) :
    (ir_run env k (put_ro n e (put_ld n VREG_TMP1 0#64 e.rd szlog false is64 pc)) s).Gives
      (ld_to env.toPager s.c e.rd (pd_ro_va s.c e) (2 ^ szlog) f) n := by
  obtain ⟨k', s', hrun, hc, hva⟩ := run_ro hel hrm hwf.rn
    (Nat.mod_lt (e.imm >>> 3).toNat (show 0 < 8 by decide)) (Nat.mod_lt e.imm.toNat (show 0 < 8 by decide))
    (put_ld n VREG_TMP1 0#64 e.rd szlog false is64 pc)
  rw [put_ro, hrun, ld_to_eq, ← Access.writeback_none _ 0, ← hc]
  rw [← hc] at hva hpc
  exact gives_ld hpc _ _ false is64 hwf.rd hsz ((BitVec.add_zero _).trans hva) (fun v _ _ => hf v) 0

theorem gives_st_ro (szlog : Nat) (hrm : e.rm < 32) :
    (ir_run env k (put_ro n e (put_st n VREG_TMP1 0#64 (rx e.rd) szlog pc)) s).Gives
      (mem_write env.toPager s.c (pd_ro_va s.c e) (2 ^ szlog) (reg_x s.c e.rd)).cpu n := by
  obtain ⟨k', s', hrun, hc, hva⟩ := run_ro hel hrm hwf.rn
    (Nat.mod_lt (e.imm >>> 3).toNat (show 0 < 8 by decide)) (Nat.mod_lt e.imm.toNat (show 0 < 8 by decide))
    (put_st n VREG_TMP1 0#64 (rx e.rd) szlog pc)
  rw [put_ro, hrun, ← Access.writeback_none _ e.rn, ← hc]
  rw [← hc] at hva hpc hel
  exact gives_st hpc _ _ szlog hwf.rd hel ((BitVec.add_zero _).trans hva) hwf.rn 0#64 false

omit hel in
theorem gives_lit (is64 : Bool) (hsz : szlog < 4) (hf : ∀ v, at_width is64 v = f v) :
    (ir_run env k (put_lit n e pc (put_ld n VREG_TMP0 0#64 e.rd szlog false is64 pc)) s).Gives
      (ld_to env.toPager s.c e.rd (s.c.cur_insn_pc + e.imm) (2 ^ szlog) f) n := by
  rw [ld_to_eq, ← Access.writeback_none _ 0, put_lit, ir_run_tmp0 _ rfl _ _ _ _ _ fun _ _ _ => rfl, hpc]
  exact gives_ld (s := vset s VREG_TMP0 (pc + e.imm)) hpc _ _ false is64 hwf.rd hsz (BitVec.add_zero _)
    (fun v _ _ => hf v) 0

theorem gives_litv (hsz : z < 8) :
    (ir_run env k (put_lit n e pc (put_ldv n VREG_TMP0 0#64 e.rd z pc)) s).Gives
      (vreg_load env.toPager s.c e.rd (s.c.cur_insn_pc + e.imm) (2 ^ z)).cpu n := by
  rw [← Access.writeback_none _ e.rn, put_lit, ir_run_tmp0 _ rfl _ _ _ _ _ fun _ _ _ => rfl, hpc]
  exact gives_v (s := vset s VREG_TMP0 (pc + e.imm)) hpc true _ _ hwf.rd hsz hel (BitVec.add_zero _) hwf.rn
    0#64 false

theorem gives_ldrlitv (hrm : ∃ j, 2 ≤ j ∧ j ≤ 4 ∧ e.rm = 2 ^ j) :
    (ir_run env k (put_lit n e pc (put_ldv n VREG_TMP0 0#64 e.rd (ctz e.rm) pc)) s).Gives
      (if e.rm = 16 then L_LDRQ env.toPager s.c e (s.c.cur_insn_pc + e.imm)
        else L_LDRV env.toPager s.c e (s.c.cur_insn_pc + e.imm)) n := by
  obtain ⟨j, _, hj, hrm⟩ := hrm
  have hctz : ctz e.rm = j := by rw [hrm, ctz, Nat.log2_two_pow]
  have h := @gives_litv env k n s e pc hpc hel hwf j (by omega)
  rw [← hrm] at h
  rw [hctz]
  split
  next h16 =>
    rw [L_LDRQ_eq, ← h16]
    exact h
  rename_i h16
  rw [L_LDRV_eq _ _ _ _ h16]
  exact h

end memory

section dispatch

variable {env : IREnv} {k n : Nat} {s : IRState} (e : PDEnt)

/-- The operations of every instruction that is no branch do what its handler
does. -/
theorem gives_ops {pc : u64} (insn : u32) (hwf : e.WF) (hel : s.c.el = 0) (hpc : s.c.cur_insn_pc = pc)
    {ops : List IROp} (hops : fe_ops n e pc = some ops) :
    (ir_run env k ops s).Gives (pd_exec env.toEnv s.c e insn) n := by
  have hxd := hwf.rd
  have hn := vget_rx s hwf.rn
  have hnsp := vget_rsp s hel hwf.rn
  have hok := hwf.operands
  subst pc
  obtain ⟨word, op, rd, rn, rm, imm⟩ := e
  cases op <;> cases hops
  case PD_NOP => rfl
  case PD_ADD64I | PD_ADD32I | PD_SUB64I | PD_SUB32I =>
    exact gives_alui_sp _ _ (by decide) rfl _ _ hel hxd hnsp
  case PD_ADDS64I | PD_ADDS32I => exact gives_addsi _ _ hel hwf
  case PD_SUBS64I | PD_SUBS32I => exact gives_subsi _ _ hel hwf
  case PD_AND64I | PD_AND32I | PD_ORR64I | PD_ORR32I | PD_EOR64I | PD_EOR32I =>
    exact gives_alui_sp _ _ (by decide) rfl _ _ hel hxd hn
  case PD_ANDS64I | PD_ANDS32I => exact gives_alui_x _ _ (by decide) _ _ hxd hn
  case PD_MOVI | PD_ADR | PD_ADRP => exact gives_movi _ _ hwf
  case PD_MOVK64 | PD_MOVK32 => exact gives_movk _ _ hwf
  case PD_UBFX64 | PD_UBFX32 => exact gives_ubfx _ hwf hok
  case PD_UBFIZ64 => exact gives_ubfiz _ _ hwf hok (shift_reg_lsl64 _ hok)
  case PD_UBFIZ32 => exact gives_ubfiz _ _ hwf (lt_trans hok (by decide)) (shift_reg_lsl32 _ hok)
  case PD_EXTR64 | PD_EXTR32 => exact gives_extr _ _ hwf hok.1
  case PD_AND64 | PD_AND32 | PD_BIC64 | PD_BIC32 | PD_ORR64 | PD_ORR32 | PD_ORN64 | PD_ORN32 | PD_EOR64
    | PD_EOR32 | PD_EON64 | PD_EON32 | PD_ANDS64 | PD_ANDS32 | PD_BICS64 | PD_BICS32
    | PD_ADD64R | PD_ADD32R | PD_SUB64R | PD_SUB32R => exact gives_rrr _ _ (by decide) hwf hok
  case PD_AND64S => exact gives_logical_shifted _ _ .and hwf hok
  case PD_ORR64S => exact gives_logical_shifted _ _ .orr hwf hok
  case PD_EOR64S => exact gives_logical_shifted _ _ .eor hwf hok
  case PD_ANDS64S => exact gives_logical_shifted _ _ .ands hwf hok
  case PD_AND32S => exact gives_logical_shifted _ _ .and hwf hok.1
  case PD_ORR32S => exact gives_logical_shifted _ _ .orr hwf hok.1
  case PD_EOR32S => exact gives_logical_shifted _ _ .eor hwf hok.1
  case PD_ANDS32S => exact gives_logical_shifted _ _ .ands hwf hok.1
  case PD_ADDS64R | PD_ADDS32R => exact gives_adds _ _ hwf hok
  case PD_SUBS64R | PD_SUBS32R => exact gives_subs _ _ hwf hok
  case PD_ADD64RS => exact gives_addsub_shifted _ _ false false hwf hok
  case PD_SUB64RS => exact gives_addsub_shifted _ _ true false hwf hok
  case PD_ADDS64RS => exact gives_addsub_shifted _ _ false true hwf hok
  case PD_SUBS64RS => exact gives_addsub_shifted _ _ true true hwf hok
  case PD_ADD32RS => exact gives_addsub_shifted _ _ false false hwf hok.1
  case PD_SUB32RS => exact gives_addsub_shifted _ _ true false hwf hok.1
  case PD_ADDS32RS => exact gives_addsub_shifted _ _ false true hwf hok.1
  case PD_SUBS32RS => exact gives_addsub_shifted _ _ true true hwf hok.1
  case PD_ADDX64 | PD_ADDX32 => exact gives_addsub_extended _ _ false false hel hwf hok
  case PD_SUBX64 | PD_SUBX32 => exact gives_addsub_extended _ _ true false hel hwf hok
  case PD_ADDSX64 | PD_ADDSX32 => exact gives_addsub_extended _ _ false true hel hwf hok
  case PD_SUBSX64 | PD_SUBSX32 => exact gives_addsub_extended _ _ true true hel hwf hok
  case PD_MADD64 | PD_MSUB64 | PD_SMADDL | PD_SMSUBL | PD_UMADDL | PD_UMSUBL =>
    exact gives_3source _ _ rfl (fun _ _ _ _ _ _ _ => rfl) hwf hok.1 hok.2 rfl
  case PD_MADD32 =>
    exact gives_3source _ _ rfl (fun _ _ _ _ _ _ _ => rfl) hwf hok.1 hok.2 (low_madd _ _ _)
  case PD_MSUB32 =>
    exact gives_3source _ _ rfl (fun _ _ _ _ _ _ _ => rfl) hwf hok.1 hok.2 (low_msub _ _ _)
  case PD_SMULH | PD_UMULH | PD_UDIV64 | PD_SDIV64 =>
    exact gives_2source _ _ rfl (fun _ _ _ _ _ _ _ => rfl) hwf hok fun _ => rfl
  case PD_UDIV32 =>
    exact gives_2source _ _ rfl (fun _ _ _ _ _ _ _ => rfl) hwf hok fun _ => trunc32_udiv _ _
  case PD_SDIV32 =>
    exact gives_2source _ _ rfl (fun _ _ _ _ _ _ _ => rfl) hwf hok fun _ => trunc32_sdiv _ _
  case PD_LSLV64 | PD_LSLV32 => exact gives_shiftv _ _ (t := 0) (by decide) hwf hok
  case PD_LSRV64 | PD_LSRV32 => exact gives_shiftv _ _ (t := 1) (by decide) hwf hok
  case PD_ASRV64 | PD_ASRV32 => exact gives_shiftv _ _ (t := 2) (by decide) hwf hok
  case PD_RORV64 | PD_RORV32 => exact gives_shiftv _ _ (t := 3) (by decide) hwf hok
  case PD_REV64 | PD_CLZ64 =>
    exact gives_1source _ _ rfl (fun _ _ _ _ _ _ _ => rfl) hwf fun _ _ => rfl
  case PD_REVW =>
    exact gives_1source _ _ rfl (fun _ _ _ _ _ _ _ => rfl) hwf fun _ _ => trunc32_setWidth _
  case PD_CLZ32 =>
    exact gives_1source _ _ rfl (fun _ _ _ _ _ _ _ => rfl) hwf fun _ _ => trunc32_clz _
  case PD_CSEL64 | PD_CSEL32 => exact gives_csel _ _ .csel hwf hok.1 hok.2
  case PD_CSINC64 | PD_CSINC32 => exact gives_csel _ _ .csinc hwf hok.1 hok.2
  case PD_CSINV64 | PD_CSINV32 => exact gives_csel _ _ .csinv hwf hok.1 hok.2
  case PD_CSNEG64 | PD_CSNEG32 => exact gives_csel _ _ .csneg hwf hok.1 hok.2
  case PD_CCMP64I | PD_CCMP32I => exact gives_ccmp _ _ true true hwf hok
  case PD_CCMP64R | PD_CCMP32R => exact gives_ccmp _ _ true false hwf hok
  case PD_CCMN64I | PD_CCMN32I => exact gives_ccmp _ _ false true hwf hok
  case PD_CCMN64R | PD_CCMN32R => exact gives_ccmp _ _ false false hwf hok
  case PD_LSL64I => exact gives_shifti _ _ (t := 0) (by decide) hwf hok (shift_reg_lsl64 _ hok)
  case PD_LSR64I => exact gives_shifti _ _ (t := 1) (by decide) hwf hok (shift_reg_lsr64 _ hok)
  case PD_ASR64I => exact gives_shifti _ _ (t := 2) (by decide) hwf hok (shift_reg_asr64 _ hok)
  case PD_LSL32I =>
    exact gives_shifti _ _ (t := 0) (by decide) hwf (lt_trans hok (by decide)) (shift_reg_lsl32 _ hok)
  case PD_LSR32I =>
    exact gives_shifti _ _ (t := 1) (by decide) hwf (lt_trans hok (by decide)) (shift_reg_lsr32 _ hok)
  case PD_ASR32I =>
    exact gives_shifti _ _ (t := 2) (by decide) hwf (lt_trans hok (by decide)) (trunc32_shift_reg_asr32 _ hok)
  case PD_SBFX64 =>
    refine gives_sbfx true _ hwf hok.1 hok.2 ?_
    rw [at_width_true, at_width_true, shift_reg_lsl64 _ hok.1, shift_reg_asr64 _ hok.2]
  case PD_SBFX32 =>
    refine gives_sbfx false _ hwf (lt_trans hok.1 (by decide)) (lt_trans hok.2 (by decide)) ?_
    rw [at_width_false, at_width_false, trunc32_shift_reg_asr32 _ hok.2, shift_reg_lsl32 _ hok.1, setWidth32_trunc32,
        low_shl]
  case PD_LDR64U | PD_LDR32U | PD_LDRB | PD_LDRH | PD_LDRSB64 | PD_LDRSB32 | PD_LDRSH64 | PD_LDRSH32
    | PD_LDRSW => exact gives_ld_to _ rfl hel hwf _ _ (by decide) fun _ => rfl
  case PD_STR64U | PD_STR32U | PD_STRB | PD_STRH => exact gives_st_cpu _ rfl hel hwf _
  case PD_LDR64PRE | PD_LDR32PRE => exact gives_ld_wb_pd _ rfl hel hwf _ true (by decide) rfl fun _ => rfl
  case PD_LDR64POST | PD_LDR32POST | PD_LDRBPOST =>
    exact gives_ld_wb_pd _ rfl hel hwf _ false (by decide) (BitVec.add_zero _) fun _ => rfl
  case PD_STR64PRE | PD_STR32PRE => exact gives_st_wb_pd _ rfl hel hwf _ true rfl
  case PD_STR64POST | PD_STR32POST | PD_STRBPOST =>
    exact gives_st_wb_pd _ rfl hel hwf _ false (BitVec.add_zero _)
  case PD_LDR64RO | PD_LDR32RO | PD_LDRBRO | PD_LDRHRO =>
    exact gives_ld_ro _ rfl hel hwf _ (by decide) hok fun _ => rfl
  case PD_STR64RO | PD_STR32RO | PD_STRBRO | PD_STRHRO => exact gives_st_ro _ rfl hel hwf _ hok
  case PD_LDRLIT64 | PD_LDRLIT32 => exact gives_lit _ rfl hwf _ (by decide) fun _ => rfl
  case PD_LDP64 | PD_LDP32 => exact gives_ldp _ rfl hel hwf .off _ hok
  case PD_LDP64PRE | PD_LDP32PRE => exact gives_ldp _ rfl hel hwf .pre _ hok
  case PD_LDP64POST | PD_LDP32POST => exact gives_ldp _ rfl hel hwf .post _ hok
  case PD_STP64 | PD_STP32 => exact gives_stp _ rfl hel hwf .off _ hok
  case PD_STP64PRE | PD_STP32PRE => exact gives_stp _ rfl hel hwf .pre _ hok
  case PD_STP64POST | PD_STP32POST => exact gives_stp _ rfl hel hwf .post _ hok
  case PD_LDRLITV => exact gives_ldrlitv _ rfl hel hwf hok
  case PD_LDRQ => exact gives_ldrq _ rfl hel hwf
  case PD_STRQ => exact gives_strq _ rfl hel hwf
  case PD_LDRV => exact gives_ldrv _ rfl hel hwf hok
  case PD_STRV => exact gives_strv _ rfl hel hwf hok
  case PD_LDRQPRE => exact gives_q_wb _ rfl hel hwf true true rfl
  case PD_LDRQPOST => exact gives_q_wb _ rfl hel hwf true false (BitVec.add_zero _)
  case PD_STRQPRE => exact gives_q_wb _ rfl hel hwf false true rfl
  case PD_STRQPOST => exact gives_q_wb _ rfl hel hwf false false (BitVec.add_zero _)
  case PD_LDPQ => exact gives_ldpq _ rfl hel hwf .off hok
  case PD_LDPQPRE => exact gives_ldpq _ rfl hel hwf .pre hok
  case PD_LDPQPOST => exact gives_ldpq _ rfl hel hwf .post hok
  case PD_STPQ => exact gives_stpq _ rfl hel hwf .off hok
  case PD_STPQPRE => exact gives_stpq _ rfl hel hwf .pre hok
  case PD_STPQPOST => exact gives_stpq _ rfl hel hwf .post hok
  case PD_LDPD => exact gives_ldpd _ rfl hel hwf .off hok
  case PD_LDPDPRE => exact gives_ldpd _ rfl hel hwf .pre hok
  case PD_LDPDPOST => exact gives_ldpd _ rfl hel hwf .post hok
  case PD_STPD => exact gives_stpd _ rfl hel hwf .off hok
  case PD_STPDPRE => exact gives_stpd _ rfl hel hwf .pre hok
  case PD_STPDPOST => exact gives_stpd _ rfl hel hwf .post hok

end dispatch

end arm64emu
