import Arm64Emu.Core.Sysreg
import Arm64Emu.Core.Decode.DataProc
import Arm64Emu.Core.Decode.LoadStore

namespace arm64emu

def branch_offset (bits field : Nat) : u64 := sign_extend (BitVec.ofNat 64 field) bits <<< 2

def branch_to (c : CPU) (off : u64) : CPU := { c with pc := c.cur_insn_pc + off }

def branch_if (c : CPU) (take : Bool) (off : u64) : CPU := if take then branch_to c off else c

/-- `SVC`, `HVC`, `SMC`, `BRK` and `HLT`. -/
def exception_generation (c : CPU) (insn : u32) : CPU :=
  let opc := BITS insn 23 21
  let ll := BITS insn 1 0
  let imm16 := BITS insn 20 5
  if opc = 0 ∧ ll = 1 then exception_take c (esr_make EC_SVC64 imm16) 0#64 c.pc
  -- HVC and SMC have no conduit in this build
  else if opc = 0 ∧ ll = 2 then undefined c
  else if opc = 0 ∧ ll = 3 then undefined c
  else if opc = 1 ∧ ll = 0 then cpu_raise_sync c (esr_make EC_BRK64 imm16) 0#64
  else if opc = 2 ∧ ll = 0 ∧ c.el ≠ 0 then { c with stop := true }
  else undefined c

/-- `BR`, `BLR` and `RET`. -/
def branch_register (c : CPU) (insn : u32) : CPU :=
  let tgt := reg_x c (BITS insn 9 5)
  match BITS insn 24 21 with
  | 0 => { c with pc := tgt }
  | 1 => { set_x c 30 (c.cur_insn_pc + 4#64) with pc := tgt }
  | 2 => { c with pc := tgt }
  | 4 =>
    if c.el = 0 then undefined c
    else { cpu_unpack_spsr c ((c.spsr c.el).setWidth 32) with pc := c.elr c.el }
  | _ => undefined c

/-- Hints and barriers, and the system register space behind them. A fence
orders this thread against others and changes none of its own state. -/
def system_insn (env : Env) (c : CPU) (insn : u32) : CPU :=
  let op2 := BITS insn 7 5
  if BIT insn 21 = false ∧ BITS insn 20 19 = 0 ∧ BITS insn 18 16 = 3 ∧ BITS insn 15 12 = 2 ∧
      BITS insn 4 0 = 31 then
    if BITS insn 11 8 = 0 ∧ op2 = 2 then { c with halted := true }
    else if BITS insn 11 8 = 0 ∧ op2 = 3 then { c with halted := true }
    else c
  else if BIT insn 21 = false ∧ BITS insn 20 19 = 0 ∧ BITS insn 18 16 = 3 ∧ BITS insn 15 12 = 3 ∧
      BITS insn 4 0 = 31 then
    if op2 = 2 then { c with excl_valid := false } else c
  else sysreg_exec env c insn

/-- The branch, exception and system class. -/
def branch_system (env : Env) (c : CPU) (insn : u32) : CPU :=
  if BITS insn 31 26 = 0x05 then branch_to c (branch_offset 26 (BITS insn 25 0))
  else if BITS insn 31 26 = 0x25 then
    branch_to (set_x c 30 (c.cur_insn_pc + 4#64)) (branch_offset 26 (BITS insn 25 0))
  else if BITS insn 31 24 = 0x54 ∧ BIT insn 4 = false then
    branch_if c (cond_holds c (BITS insn 3 0)) (branch_offset 19 (BITS insn 23 5))
  else if BITS insn 30 25 = 0x1a then
    let v := reg_x_sz c (BITS insn 4 0) (BIT insn 31)
    branch_if c (if BIT insn 24 then v != 0#64 else v == 0#64) (branch_offset 19 (BITS insn 23 5))
  else if BITS insn 30 25 = 0x1b then
    let bitpos := BITS insn 31 31 * 32 + BITS insn 23 19
    let set := (reg_x c (BITS insn 4 0)).getLsbD bitpos
    branch_if c (if BIT insn 24 then set else !set) (branch_offset 14 (BITS insn 18 5))
  else if BITS insn 31 24 = 0xd4 then exception_generation c insn
  else if BITS insn 31 25 = 0x6b then branch_register c insn
  else if BITS insn 31 24 = 0xd5 then system_insn env c insn
  else undefined c

/-- The reference interpreter: execute one already-fetched instruction word. -/
def exec_a64 (env : Env) (c : CPU) (insn : u32) : CPU :=
  match BITS insn 28 25 with
  | 0x8 | 0x9 => dp_immediate c insn
  | 0xa | 0xb => branch_system env c insn
  | 0x4 | 0x6 | 0xc | 0xe => loads_stores env.toPager c insn
  | 0x5 | 0xd => dp_register c insn
  | 0x7 | 0xf => env.exec_fpsimd c insn
  | _ => undefined c

end arm64emu
