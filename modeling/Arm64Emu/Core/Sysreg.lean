import Arm64Emu.Core.Decode.Mops

namespace arm64emu

open Function

def KEY (op0 op1 crn crm op2 : Nat) : Nat :=
  op0 * 2 ^ 16 + op1 * 2 ^ 13 + crn * 2 ^ 9 + crm * 2 ^ 5 + op2

def SCTLR_UMA : Nat := 9
def SCTLR_DZE : Nat := 14
def SCTLR_UCT : Nat := 15
def SCTLR_UCI : Nat := 26
def CNTK_EL0PCTEN : Nat := 0
def CNTK_EL0VCTEN : Nat := 1
def CNTK_EL0VTEN : Nat := 8
def CNTK_EL0PTEN : Nat := 9

/-- The system registers EL0 may reach, under SCTLR_EL1 and CNTKCTL_EL1. -/
def el0_register (c : CPU) (L : Bool) (key : Nat) : Bool :=
  let sctlr := c.sctlr 1
  let kctl := c.cntkctl_el1
  if key = KEY 3 3 4 2 0 ∨ key = KEY 3 3 4 4 0 ∨ key = KEY 3 3 4 4 1 ∨ key = KEY 3 3 13 0 2 then true
  else if key = KEY 3 3 13 0 3 ∨ key = KEY 3 3 0 0 7 then L
  else if key = KEY 3 3 0 0 1 then L && sctlr.getLsbD SCTLR_UCT
  else if key = KEY 3 3 4 2 1 then sctlr.getLsbD SCTLR_UMA
  else if key = KEY 3 3 14 0 0 then L && (kctl.getLsbD CNTK_EL0PCTEN || kctl.getLsbD CNTK_EL0VCTEN)
  else if key = KEY 3 3 14 0 1 then L && kctl.getLsbD CNTK_EL0PCTEN
  else if key = KEY 3 3 14 0 2 then L && kctl.getLsbD CNTK_EL0VCTEN
  else if key = KEY 3 3 14 2 0 ∨ key = KEY 3 3 14 2 1 ∨ key = KEY 3 3 14 2 2 then
    kctl.getLsbD CNTK_EL0PTEN
  else if key = KEY 3 3 14 3 0 ∨ key = KEY 3 3 14 3 1 ∨ key = KEY 3 3 14 3 2 then
    kctl.getLsbD CNTK_EL0VTEN
  else false

/-- Whether EL0 may execute this system instruction; everything else is
UNDEFINED there. -/
def el0_allowed (c : CPU) (L : Bool) (op0 op1 CRn CRm op2 Rt : Nat) : Bool :=
  let sctlr := c.sctlr 1
  match op0 with
  | 0 =>
    if L ∨ CRn ≠ 4 ∨ Rt ≠ 31 then false
    else if op1 = 0 ∧ CRm = 0 ∧ op2 ≤ 2 then true
    else if op1 = 3 ∧ (op2 = 6 ∨ op2 = 7) then sctlr.getLsbD SCTLR_UMA
    else false
  | 1 =>
    if L ∨ op1 ≠ 3 ∨ CRn ≠ 7 ∨ op2 ≠ 1 then false
    else if CRm = 4 then sctlr.getLsbD SCTLR_DZE
    else if CRm = 5 ∨ CRm = 10 ∨ CRm = 11 ∨ CRm = 14 then sctlr.getLsbD SCTLR_UCI
    else false
  | 2 => false
  | _ => el0_register c L (KEY 3 op1 CRn CRm op2)

/-- `MSR` with an immediate: the flags of `PSTATE`. -/
def msr_immediate (c : CPU) (insn : u32) : CPU :=
  let op1 := BITS insn 18 16
  let op2 := BITS insn 7 5
  let crm := BITS insn 11 8
  let zf := flag c.nzcv PS_Z
  let cf := flag c.nzcv PS_C
  let vf := flag c.nzcv PS_V
  if op1 = 0 ∧ op2 = 5 then { c with sp_sel := crm % 2 = 1 }
  else if op1 = 0 ∧ crm = 0 ∧ op2 = 0 then { c with nzcv := c.nzcv ^^^ PS_C }
  else if op1 = 0 ∧ crm = 0 ∧ op2 = 1 then
    { c with nzcv := mk_nzcv (!cf && !zf) (zf && cf) (cf || zf) (!cf && zf) }
  else if op1 = 0 ∧ crm = 0 ∧ op2 = 2 then
    { c with nzcv := mk_nzcv false (zf || vf) (cf && !vf) false }
  else if op1 = 3 ∧ op2 = 6 then { c with daif := c.daif ||| (BitVec.ofNat 32 crm <<< 6) }
  else if op1 = 3 ∧ op2 = 7 then { c with daif := c.daif &&& ~~~(BitVec.ofNat 32 crm <<< 6) }
  else c

/-- The eight stores DC ZVA falls back to when no host pointer is available. -/
def dc_zva_loop (pg : Pager) : Nat → CPU → u64 → CPU
  | 0, c, _ => c
  | k + 1, c, va =>
    match mem_write pg c va 8 0#64 with
    | .ok _ c => dc_zva_loop pg k c (va + 8#64)
    | .fault c => c

/-- SYS: TLB and cache maintenance leave this state alone, DC ZVA zeroes a
64-byte line. -/
def sys_op (pg : Pager) (c : CPU) (CRn CRm op2 Rt : Nat) : CPU :=
  if CRn = 7 ∧ CRm = 4 ∧ op2 = 1 then
    let base := reg_x c Rt &&& ~~~63#64
    match mem_host_ptr pg c base 64 .w with
    | (c, some hp) => { c with mem := host_memset c.mem hp 64 0#8 }
    | (c, none) => dc_zva_loop pg 8 c base
  else c

/-- A timer's TVAL view: the distance to the compare value, 32 bits signed. -/
def tval_view (cval count : u64) : u64 := ((cval - count).setWidth 32).signExtend 64

/-- A timer's CTL view, with ISTATUS when an enabled timer has fired. -/
def ctl_view (ctl cval count : u64) : u64 :=
  let v := ctl &&& 3#64
  if ctl.getLsbD 0 ∧ cval ≤ count then v ||| 4#64 else v

/-- The value an MRS reads from a register that reading does not change. -/
def mrs_plain (env : Env) (c : CPU) (key : Nat) : u64 :=
  if key = KEY 3 0 0 0 0 then 0x411fd070#64
  else if key = KEY 3 0 0 0 5 then c.mpidr
  else if key = KEY 3 3 0 0 1 then 0x8444c004#64
  else if key = KEY 3 3 0 0 7 then 4#64
  else if key = KEY 3 0 0 4 0 then 0x110011#64
  else if key = KEY 3 0 0 5 0 then 0x10305106#64
  else if key = KEY 3 0 0 6 0 then 0x21100110212120#64
  else if key = KEY 3 0 0 6 1 then 0x211000#64
  else if key = KEY 3 0 0 6 2 then 0x10000#64
  else if key = KEY 3 0 0 7 0 then 0x0F001124#64
  else if key = KEY 3 0 1 0 0 then c.sctlr 1
  else if key = KEY 3 0 1 0 2 then c.cpacr_el1
  else if key = KEY 3 0 2 0 0 then c.ttbr0 1
  else if key = KEY 3 0 2 0 1 then c.ttbr1 1
  else if key = KEY 3 0 2 0 2 then c.tcr 1
  else if key = KEY 3 0 10 2 0 then c.mair 1
  else if key = KEY 3 0 10 3 0 then c.amair 1
  else if key = KEY 3 0 12 0 0 then c.vbar 1
  else if key = KEY 3 0 5 2 0 then c.esr 1
  else if key = KEY 3 0 6 0 0 then c.far 1
  else if key = KEY 3 0 7 4 0 then c.par_el1
  else if key = KEY 3 0 13 0 1 then c.contextidr_el1
  else if key = KEY 3 0 13 0 4 then c.tpidr 1
  else if key = KEY 3 3 13 0 2 then c.tpidr 0
  else if key = KEY 3 3 13 0 3 then c.tpidrro_el0
  else if key = KEY 2 0 0 2 2 then c.mdscr_el1
  else if key = KEY 3 0 4 2 2 then BitVec.ofNat 64 c.el <<< 2
  else if key = KEY 3 0 4 2 0 then (if c.sp_sel then 1#64 else 0#64)
  else if key = KEY 3 3 4 2 0 then (c.nzcv &&& 0xf0000000#32).setWidth 64
  else if key = KEY 3 3 4 2 1 then (c.daif &&& (PS_D ||| PS_A ||| PS_I ||| PS_F)).setWidth 64
  else if key = KEY 3 3 4 4 0 then c.fpcr.setWidth 64
  else if key = KEY 3 0 4 0 0 then c.spsr 1
  else if key = KEY 3 0 4 0 1 then c.elr 1
  else if key = KEY 3 0 4 1 0 then c.sp_el 0
  else if key = KEY 3 3 14 0 0 then c.cntfrq
  else if key = KEY 3 3 14 0 1 then env.gt_count c false
  else if key = KEY 3 3 14 0 2 then env.gt_count c true
  else if key = KEY 3 3 14 2 0 then tval_view c.cntp_cval (env.gt_count c false)
  else if key = KEY 3 3 14 2 1 then ctl_view c.cntp_ctl c.cntp_cval (env.gt_count c false)
  else if key = KEY 3 3 14 2 2 then c.cntp_cval
  else if key = KEY 3 3 14 3 0 then tval_view c.cntv_cval (env.gt_count c true)
  else if key = KEY 3 3 14 3 1 then ctl_view c.cntv_ctl c.cntv_cval (env.gt_count c true)
  else if key = KEY 3 3 14 3 2 then c.cntv_cval
  else if key = KEY 3 0 14 1 0 then c.cntkctl_el1
  else 0#64

/-- MRS: reading FPSR folds the pending flags in first. -/
def do_mrs (env : Env) (c : CPU) (key Rt : Nat) : CPU :=
  if key = KEY 3 3 4 4 1 then
    let c := env.fpsr_sync c
    set_x c Rt (c.fpsr.setWidth 64)
  else set_x c Rt (mrs_plain env c key)

/-- MSR: write Rt to a system register; an unknown one ignores the write. -/
def do_msr (env : Env) (c : CPU) (key Rt : Nat) : CPU :=
  let v := reg_x c Rt
  if key = KEY 3 0 1 0 0 then { c with sctlr := update c.sctlr 1 v }
  else if key = KEY 3 0 1 0 2 then { c with cpacr_el1 := v }
  else if key = KEY 3 0 2 0 0 then { c with ttbr0 := update c.ttbr0 1 v }
  else if key = KEY 3 0 2 0 1 then { c with ttbr1 := update c.ttbr1 1 v }
  else if key = KEY 3 0 2 0 2 then { c with tcr := update c.tcr 1 v }
  else if key = KEY 3 0 10 2 0 then { c with mair := update c.mair 1 v }
  else if key = KEY 3 0 10 3 0 then { c with amair := update c.amair 1 v }
  else if key = KEY 3 0 12 0 0 then { c with vbar := update c.vbar 1 v }
  else if key = KEY 3 0 5 2 0 then { c with esr := update c.esr 1 v }
  else if key = KEY 3 0 6 0 0 then { c with far := update c.far 1 v }
  else if key = KEY 3 0 7 4 0 then { c with par_el1 := v }
  else if key = KEY 3 0 13 0 1 then { c with contextidr_el1 := v }
  else if key = KEY 3 0 13 0 4 then { c with tpidr := update c.tpidr 1 v }
  else if key = KEY 3 3 13 0 2 then { c with tpidr := update c.tpidr 0 v }
  else if key = KEY 3 3 13 0 3 then { c with tpidrro_el0 := v }
  else if key = KEY 2 0 0 2 2 then { c with mdscr_el1 := v }
  else if key = KEY 3 0 4 2 0 then { c with sp_sel := v.getLsbD 0 }
  else if key = KEY 3 3 4 2 0 then { c with nzcv := v.setWidth 32 &&& 0xf0000000#32 }
  else if key = KEY 3 3 4 2 1 then
    { c with daif := v.setWidth 32 &&& (PS_D ||| PS_A ||| PS_I ||| PS_F) }
  else if key = KEY 3 3 4 4 0 then { c with fpcr := v.setWidth 32 }
  else if key = KEY 3 3 4 4 1 then { env.fpsr_sync c with fpsr := v.setWidth 32 }
  else if key = KEY 3 0 4 0 0 then { c with spsr := update c.spsr 1 v }
  else if key = KEY 3 0 4 0 1 then { c with elr := update c.elr 1 v }
  else if key = KEY 3 0 4 1 0 then { c with sp_el := update c.sp_el 0 v }
  else if key = KEY 3 3 14 0 0 then { c with cntfrq := v }
  else if key = KEY 3 3 14 2 0 then
    { c with cntp_cval := env.gt_count c false + (v.setWidth 32).signExtend 64 }
  else if key = KEY 3 3 14 2 1 then { c with cntp_ctl := v }
  else if key = KEY 3 3 14 2 2 then { c with cntp_cval := v }
  else if key = KEY 3 3 14 3 0 then
    { c with cntv_cval := env.gt_count c true + (v.setWidth 32).signExtend 64 }
  else if key = KEY 3 3 14 3 1 then { c with cntv_ctl := v }
  else if key = KEY 3 3 14 3 2 then { c with cntv_cval := v }
  else if key = KEY 3 0 14 1 0 then { c with cntkctl_el1 := v }
  else c

/-- A system-register access, trapped where EL0 may not make it. -/
def sysreg_exec (env : Env) (c : CPU) (insn : u32) : CPU :=
  let L := BIT insn 21
  let op0 := BITS insn 20 19
  let op1 := BITS insn 18 16
  let CRn := BITS insn 15 12
  let CRm := BITS insn 11 8
  let op2 := BITS insn 7 5
  let Rt := BITS insn 4 0
  if c.el = 0 ∧ el0_allowed c L op0 op1 CRn CRm op2 Rt = false then undefined c
  else if op0 = 0 then msr_immediate c insn
  else if op0 = 1 then
    if L then set_x c Rt 0#64 else sys_op env.toPager c CRn CRm op2 Rt
  else if L then do_mrs env c (KEY op0 op1 CRn CRm op2) Rt
  else do_msr env c (KEY op0 op1 CRn CRm op2) Rt

/-- SCTLR_EL1 and CNTKCTL_EL1 as the kernel role sets them up: DC ZVA, CTR_EL0,
cache maintenance and MOPS open to EL0, and the virtual counter. -/
def sysreg_init (env : Env) (c : CPU) : CPU :=
  let c := { c with
    sctlr := update c.sctlr 1
      (0x00C50838#64 ||| (1#64 <<< SCTLR_DZE) ||| (1#64 <<< SCTLR_UCT) ||| (1#64 <<< SCTLR_UCI) |||
        (1#64 <<< 33))
    cntkctl_el1 := 1#64 <<< CNTK_EL0VCTEN
    cpacr_el1 := 0#64
    mdscr_el1 := 0#64 }
  { env.fpsr_sync c with fpsr := 0#32 }

/-- The zeroed record of `calloc`. -/
def cpu_zero (m : Mem) : CPU where
  x _ := 0#64
  pc := 0#64
  nzcv := 0#32
  daif := 0#32
  el := 0
  sp_sel := false
  sp_el _ := 0#64
  v _ := 0#128
  fpcr := 0#32
  fpsr := 0#32
  sctlr _ := 0#64
  ttbr0 _ := 0#64
  ttbr1 _ := 0#64
  tcr _ := 0#64
  mair _ := 0#64
  amair _ := 0#64
  vbar _ := 0#64
  esr _ := 0#64
  far _ := 0#64
  elr _ := 0#64
  spsr _ := 0#64
  tpidr _ := 0#64
  tpidrro_el0 := 0#64
  contextidr_el1 := 0#64
  cpacr_el1 := 0#64
  mdscr_el1 := 0#64
  par_el1 := 0#64
  mpidr := 0#64
  cntfrq := 0#64
  cntp_ctl := 0#64
  cntp_cval := 0#64
  cntv_ctl := 0#64
  cntv_cval := 0#64
  cntkctl_el1 := 0#64
  excl_valid := false
  excl_addr := 0#64
  excl_size := 0
  excl_val := 0#64
  excl_val2 := 0#64
  halted := false
  stop := false
  icount := 0#64
  cur_insn_pc := 0#64
  pend_exc := ⟨false, 0#64, 0#64⟩
  mem := m

/-- The state a new program starts with. -/
def cpu_reset (env : Env) (m : Mem) (entry : u64) (reset_el : Nat) : CPU :=
  sysreg_init env
    { cpu_zero m with
      pc := entry
      el := reset_el
      sp_sel := true
      daif := PS_D ||| PS_A ||| PS_I ||| PS_F
      cntfrq := 24000000#64
      mpidr := 1#64 <<< 31 }

/-- The core on its own: no file grows, no stack grows, no write is healed, and
the FP/SIMD unit knows no instruction. -/
def core_env : Env where
  as_fault_fill m _ := m
  as_stack_grow m _ := m
  as_write_heal m _ := m
  fault_fill_failed _ _ _ := rfl
  stack_grow_failed _ _ _ := rfl
  write_heal_failed _ _ _ := rfl
  exec_fpsimd c _ := undefined c
  fpsr_sync c := c
  gt_count _ _ := 0#64

end arm64emu
