import Arm64Emu.Core.Decode.Branch

namespace arm64emu

open Function

def VREG_SP : Nat := 31
def VREG_TMP0 : Nat := 32
def VREG_TMP1 : Nat := 33
def VREG_TMP2 : Nat := 34
def VREG_ZERO : Nat := 35

/-- The operations of the intermediate representation, as `ir.h` numbers them. -/
inductive IROpc where
  | IRO_NOP
  | IRO_MOVI | IRO_MOV | IRO_MOVK
  | IRO_ADD | IRO_ADDS | IRO_SUB | IRO_SUBS | IRO_ADC | IRO_ADCS | IRO_SBC | IRO_SBCS
  | IRO_AND | IRO_ANDS | IRO_BIC | IRO_BICS | IRO_ORR | IRO_ORN | IRO_EOR | IRO_EON
  | IRO_ADDI | IRO_ADDIS | IRO_SUBI | IRO_SUBIS | IRO_ANDI | IRO_ANDIS | IRO_ORRI | IRO_EORI
  | IRO_LSLI | IRO_LSRI | IRO_ASRI | IRO_RORI | IRO_LSLV | IRO_LSRV | IRO_ASRV | IRO_RORV
  | IRO_EXTR
  | IRO_MADD | IRO_MSUB | IRO_SMADDL | IRO_SMSUBL | IRO_UMADDL | IRO_UMSUBL
  | IRO_SMULH | IRO_UMULH | IRO_UDIV | IRO_SDIV
  | IRO_CLZ | IRO_REV64 | IRO_REV32 | IRO_RBIT
  | IRO_CSEL | IRO_CSINC | IRO_CSINV | IRO_CSNEG
  | IRO_CCMPR | IRO_CCMNR | IRO_CCMPI | IRO_CCMNI
  | IRO_LD | IRO_ST | IRO_LDV | IRO_STV
  | IRO_JMP | IRO_BCOND | IRO_CBZ | IRO_CBNZ | IRO_TBZ | IRO_TBNZ | IRO_JMPIND
  | IRO_CALL1
  | IRO_CPULD | IRO_CPUST | IRO_FENCE
  | IRO_VOP | IRO_ATOMIC
  deriving DecidableEq, Repr

/-- One operation of a block. -/
structure IROp where
  op : IROpc
  w : Bool
  dst : Nat
  a : Nat
  b : Nat
  cc : Nat
  imm : u64
  aux : u32
  imm2pc : u64
  flags_dead : Bool
  icnt : Nat
  deriving DecidableEq, Repr

def MDESC_MAKE (rt szlog : Nat) (sign is64 : Bool) : u32 :=
  BitVec.ofNat 32 (rt + szlog * 32 + sign.toNat * 128 + is64.toNat * 256)

def MDESC_MAKEV (rt vszlog : Nat) : u32 := BitVec.ofNat 32 (rt + vszlog * 512)

def MDESC_TMPBIT : u32 := 1#32 <<< 12

def MDESC_RT (d : u32) : Nat := d.toNat % 32

def MDESC_SIGN (d : u32) : Bool := d.getLsbD 7

/-- `VF_READF` and `VF_SETF`: a vector operation that consumes, or defines, the
guest flags. -/
def VF_READF : Nat := 6
def VF_SETF : Nat := 7

/-- Byte offsets into the CPU structure of the two fields generated code
reaches directly, on a 64-bit host. -/
def offsetof_tpidr : u64 := 1184#64
def offsetof_tpidrro_el0 : u64 := 1216#64

/-- Guest state in a block: the CPU structure, and the block-local temporaries
by number. -/
structure IRState where
  c : CPU
  tmp : Nat → u64

/-- Read a virtual register: a guest register, SP, a temporary, or zero. -/
def vget (s : IRState) (r : Nat) : u64 :=
  if r = VREG_ZERO then 0#64
  else if r = VREG_SP then s.c.sp_el 0
  else if VREG_TMP0 ≤ r then s.tmp (r - VREG_TMP0)
  else s.c.x r

/-- Writes a virtual register; the zero register takes nothing. -/
def vset (s : IRState) (r : Nat) (v : u64) : IRState :=
  if r = VREG_ZERO then s
  else if r = VREG_SP then { s with c := { s.c with sp_el := update s.c.sp_el 0 v } }
  else if VREG_TMP0 ≤ r then { s with tmp := update s.tmp (r - VREG_TMP0) v }
  else { s with c := { s.c with x := update s.c.x r v } }

/-- A value at the operation's width: operands are read truncated and results
zero-extended where `w` is 0. -/
def at_width (w : Bool) (v : u64) : u64 := if w then v else trunc32 v

/-- The value an ALU operation gives its destination, before `at_width`. The shifts, divisions and reversals read the
low word themselves. -/
def ir_value (o : IROp) (a b acc : u64) (nzcv : u32) : u64 :=
  let x := at_width o.w a
  let y := at_width o.w b
  let carry := carry_in (flag nzcv PS_C)
  match o.op with
  | .IRO_MOVI => o.imm
  | .IRO_MOV => x
  | .IRO_MOVK => (x &&& ~~~(0xffff#64 <<< o.cc)) ||| o.imm
  | .IRO_ADD | .IRO_ADDS => x + y
  | .IRO_SUB | .IRO_SUBS => x - y
  | .IRO_ADC | .IRO_ADCS => x + y + carry
  | .IRO_SBC | .IRO_SBCS => x + ~~~y + carry
  | .IRO_AND | .IRO_ANDS => x &&& y
  | .IRO_BIC | .IRO_BICS => x &&& ~~~y
  | .IRO_ORR => x ||| y
  | .IRO_ORN => x ||| ~~~y
  | .IRO_EOR => x ^^^ y
  | .IRO_EON => x ^^^ ~~~y
  | .IRO_ADDI | .IRO_ADDIS => x + o.imm
  | .IRO_SUBI | .IRO_SUBIS => x - o.imm
  | .IRO_ANDI | .IRO_ANDIS => x &&& o.imm
  | .IRO_ORRI => x ||| o.imm
  | .IRO_EORI => x ^^^ o.imm
  | .IRO_LSLI => shift_reg a 0 o.imm.toNat o.w
  | .IRO_LSRI => shift_reg a 1 o.imm.toNat o.w
  | .IRO_ASRI => shift_reg a 2 o.imm.toNat o.w
  | .IRO_RORI => shift_reg a 3 o.imm.toNat o.w
  | .IRO_LSLV => shift_reg a 0 b.toNat o.w
  | .IRO_LSRV => shift_reg a 1 b.toNat o.w
  | .IRO_ASRV => shift_reg a 2 b.toNat o.w
  | .IRO_RORV => shift_reg a 3 b.toNat o.w
  | .IRO_EXTR => extr a b o.imm.toNat o.w
  | .IRO_MADD => acc + x * y
  | .IRO_MSUB => acc - x * y
  | .IRO_SMADDL => acc + sext32 a * sext32 b
  | .IRO_SMSUBL => acc - sext32 a * sext32 b
  | .IRO_UMADDL => acc + trunc32 a * trunc32 b
  | .IRO_UMSUBL => acc - trunc32 a * trunc32 b
  | .IRO_SMULH => smulh64 a b
  | .IRO_UMULH => umulh64 a b
  | .IRO_UDIV => udiv a b o.w
  | .IRO_SDIV => sdiv a b o.w
  | .IRO_CLZ =>
    let width := if o.w then 64 else 32
    if x = 0#64 then BitVec.ofNat 64 width else BitVec.ofNat 64 (clz width x.toNat)
  | .IRO_REV64 => bswap64 a
  | .IRO_REV32 => (bswap32 (a.setWidth 32)).setWidth 64
  | .IRO_RBIT => rbit a o.w
  | .IRO_CSEL => if cond_of nzcv o.cc then x else y
  | .IRO_CSINC => if cond_of nzcv o.cc then x else y + 1#64
  | .IRO_CSINV => if cond_of nzcv o.cc then x else ~~~y
  | .IRO_CSNEG => if cond_of nzcv o.cc then x else 0#64 - y
  | _ => 0#64

/-- The flags an operation sets. -/
def ir_flags (o : IROp) (a b : u64) (nzcv : u32) : Option u32 :=
  let carry := flag nzcv PS_C
  match o.op with
  | .IRO_ADDS => some (add_with_carry a b false o.w).2
  | .IRO_ADDIS => some (add_with_carry a o.imm false o.w).2
  | .IRO_SUBS => some (add_with_carry a (~~~b) true o.w).2
  | .IRO_SUBIS => some (add_with_carry a (~~~o.imm) true o.w).2
  | .IRO_ADCS => some (add_with_carry a b carry o.w).2
  | .IRO_SBCS => some (add_with_carry a (~~~b) carry o.w).2
  | .IRO_ANDS => some (logical_flags (at_width o.w (a &&& b)) o.w)
  | .IRO_BICS => some (logical_flags (at_width o.w (a &&& ~~~b)) o.w)
  | .IRO_ANDIS => some (logical_flags (at_width o.w (a &&& o.imm)) o.w)
  | .IRO_CCMPR => some (if cond_of nzcv o.cc then (add_with_carry a (~~~b) true o.w).2 else o.aux)
  | .IRO_CCMNR => some (if cond_of nzcv o.cc then (add_with_carry a b false o.w).2 else o.aux)
  | .IRO_CCMPI => some (if cond_of nzcv o.cc then (add_with_carry a (~~~o.imm) true o.w).2 else o.aux)
  | .IRO_CCMNI => some (if cond_of nzcv o.cc then (add_with_carry a o.imm false o.w).2 else o.aux)
  | _ => none

/-- Write the flags an operation defines, unless they are marked dead. -/
def put_flags (s : IRState) (o : IROp) (nzcv : Option u32) : IRState :=
  match nzcv with
  | some f => if o.flags_dead then s else { s with c := { s.c with nzcv := f } }
  | none => s

def ir_alu (s : IRState) (o : IROp) : IRState :=
  let a := vget s o.a
  let b := vget s o.b
  vset (put_flags s o (ir_flags o a b s.c.nzcv)) o.dst
    (at_width o.w (ir_value o a b (vget s o.cc) s.c.nzcv))

def ir_ccmp (s : IRState) (o : IROp) : IRState :=
  put_flags s o (ir_flags o (vget s o.a) (vget s o.b) s.c.nzcv)

/-- What generated code calls and this development leaves open: the inline vector operations, the events `jit_exec1`
finds, and whether the thread has seen the guest set FZ or FZ16. -/
structure IREnv extends Env where
  vop : IROp → CPU → CPU
  event : Nat → Bool
  fpmode_seen : Bool

/-- The CPU as `jit_exec1` and the run loop hand it to `exec_a64`. -/
def at_insn (c : CPU) (pc : u64) : CPU := { c with cur_insn_pc := pc, pc := pc + 4#64 }

def CPU.retire (c : CPU) (n : Nat) : CPU := { c with icount := c.icount + BitVec.ofNat 64 n }

variable (v : u64) (env : IREnv) (k : Nat) (s : IRState)

@[simp] theorem CPU.retire_pend_exc (c : CPU) (n : Nat) : (c.retire n).pend_exc = c.pend_exc := rfl

theorem CPU.retire_retire (c : CPU) (a b : Nat) : (c.retire a).retire b = c.retire (a + b) := by
  simp only [CPU.retire, BitVec.ofNat_add, BitVec.add_assoc]

/-- FPCR.FZ or FPCR.FZ16. -/
def jit_fpmode (c : CPU) : Bool := c.fpcr.getLsbD 24 || c.fpcr.getLsbD 19

/-- One instruction in the interpreter, and whether the block must be left. -/
def jit_exec1 (env : IREnv) (event : Bool) (c : CPU) (pc : u64) (insn : u32) : CPU × Bool :=
  let c := (exec_a64 env.toEnv (at_insn c pc) insn).retire 1
  (c, c.pend_exc.valid || c.stop || c.halted || event || (jit_fpmode c && !env.fpmode_seen) ||
    c.pc != pc + 4#64)

/-- How an operation ends: control goes on to the next one, or leaves the block
with this many instructions retired natively. -/
inductive IRResult where
  | next (s : IRState)
  | leave (c : CPU) (retired : Nat)

def ir_access {α : Type} (s : IRState) (o : IROp) (r : CPU → Access α) (k : α → IRState → IRState) :
    IRResult :=
  match r { s.c with cur_insn_pc := o.imm2pc } with
  | .ok v c => .next (k v { s with c := c })
  | .fault c => .leave c (o.icnt + 1)

def ld_value (o : IROp) (v : u64) : u64 :=
  at_width o.w (if MDESC_SIGN o.aux then sign_extend v (8 * 2 ^ o.cc) else v)

/-- A vector operation reads the flags only with `VF_READF` and writes them only
with `VF_SETF`. -/
def ir_vop (env : IREnv) (s : IRState) (o : IROp) : IRState :=
  let c := env.vop { o with flags_dead := false }
    (if o.aux.getLsbD VF_READF then s.c else { s.c with nzcv := 0#32 })
  let nzcv := if o.aux.getLsbD VF_SETF && !o.flags_dead then c.nzcv else s.c.nzcv
  { s with c := { c with nzcv := nzcv } }

def cpu_ld64 (c : CPU) (off : u64) : u64 :=
  if off = offsetof_tpidr then c.tpidr 0
  else if off = offsetof_tpidrro_el0 then c.tpidrro_el0
  else 0#64

def cpu_st64 (c : CPU) (off v : u64) : CPU :=
  if off = offsetof_tpidr then { c with tpidr := update c.tpidr 0 v }
  else if off = offsetof_tpidrro_el0 then { c with tpidrro_el0 := v }
  else c

def ir_branch (s : IRState) (o : IROp) (taken : Bool) : IRResult :=
  if taken then .leave { s.c with pc := o.imm } o.icnt else .next s

/-- One operation on the state. -/
def ir_step (env : IREnv) (k : Nat) (s : IRState) (o : IROp) : IRResult :=
  let va := vget s o.a + o.imm
  match o.op with
  | .IRO_NOP | .IRO_FENCE => .next s
  | .IRO_CCMPR | .IRO_CCMNR | .IRO_CCMPI | .IRO_CCMNI => .next (ir_ccmp s o)
  | .IRO_LD => ir_access s o (mem_read env.toPager · va (2 ^ o.cc)) fun v s => vset s o.dst (ld_value o v)
  | .IRO_ST => ir_access s o (mem_write env.toPager · va (2 ^ o.cc) (vget s o.b)) fun _ s => s
  | .IRO_LDV => ir_access s o (vreg_load env.toPager · (MDESC_RT o.aux) va (2 ^ o.cc)) fun _ s => s
  | .IRO_STV => ir_access s o (vreg_store env.toPager · (MDESC_RT o.aux) va (2 ^ o.cc)) fun _ s => s
  | .IRO_JMP => ir_branch s o true
  | .IRO_BCOND => ir_branch s o (cond_of s.c.nzcv o.cc)
  | .IRO_CBZ => ir_branch s o (at_width o.w (vget s o.a) == 0#64)
  | .IRO_CBNZ => ir_branch s o (at_width o.w (vget s o.a) != 0#64)
  | .IRO_TBZ => ir_branch s o (!(vget s o.a).getLsbD o.cc)
  | .IRO_TBNZ => ir_branch s o ((vget s o.a).getLsbD o.cc)
  | .IRO_JMPIND => .leave { s.c with pc := vget s o.a } o.icnt
  | .IRO_CALL1 =>
    -- the IC IVAU variant always leaves
    let (c, out) := jit_exec1 env (env.event k) s.c o.imm o.aux
    if out || o.w then .leave c o.icnt else .next { s with c := c }
  | .IRO_CPULD => .next (vset s o.dst (cpu_ld64 s.c o.imm))
  | .IRO_CPUST => .next { s with c := cpu_st64 s.c o.imm (vget s o.a) }
  | .IRO_VOP =>
    -- re-run in the interpreter, it may find an event; the compares never are
    let out := env.event k && !o.aux.getLsbD VF_SETF
    let s := ir_vop env s o
    if out then .leave s.c o.icnt else .next s
  | .IRO_ATOMIC =>
    -- inline or through `jit_exec1`, which alone looks for events
    let c := (exec_a64 env.toEnv (at_insn s.c o.imm2pc) (o.imm.setWidth 32)).retire 1
    if c.pend_exc.valid || env.event k then .leave c o.icnt else .next { s with c := c }
  | _ => .next (ir_alu s o)

/-- Operations in order, the first of them the `k`-th of the block. -/
def ir_run (env : IREnv) : Nat → List IROp → IRState → IRResult
  | _, [], s => .next s
  | k, o :: os, s =>
    match ir_step env k s o with
    | .next s => ir_run env (k + 1) os s
    | .leave c n => .leave c n

@[simp] theorem at_width_true : at_width true v = v := rfl

@[simp] theorem at_width_false : at_width false v = trunc32 v := rfl

theorem vget_tmp {k : Nat} (hk : k < 3) : vget s (VREG_TMP0 + k) = s.tmp k := by
  have hne : VREG_TMP0 + k ≠ VREG_ZERO := by unfold VREG_TMP0 VREG_ZERO; omega
  have hsp : VREG_TMP0 + k ≠ VREG_SP := by unfold VREG_TMP0 VREG_SP; omega
  rw [vget, if_neg hne, if_neg hsp, if_pos (Nat.le_add_right _ _), Nat.add_sub_cancel_left]

theorem vset_tmp {k : Nat} (hk : k < 3) (v : u64) :
    vset s (VREG_TMP0 + k) v = { s with tmp := update s.tmp k v } := by
  have hne : VREG_TMP0 + k ≠ VREG_ZERO := by unfold VREG_TMP0 VREG_ZERO; omega
  have hsp : VREG_TMP0 + k ≠ VREG_SP := by unfold VREG_TMP0 VREG_SP; omega
  rw [vset, if_neg hne, if_neg hsp, if_pos (Nat.le_add_right _ _), Nat.add_sub_cancel_left]

def IRResult.bind (r : IRResult) (f : IRState → IRResult) : IRResult :=
  match r with
  | .next s => f s
  | .leave c n => .leave c n

theorem ir_run_cons (o : IROp) (os : List IROp) (s : IRState) :
    ir_run env k (o :: os) s = (ir_step env k s o).bind (ir_run env (k + 1) os) := by
  rw [ir_run]
  cases ir_step env k s o <;> rfl

theorem ir_run_append (a b : List IROp) (s : IRState) :
    ir_run env k (a ++ b) s = (ir_run env k a s).bind (ir_run env (k + a.length) b) := by
  induction a generalizing k s with
  | nil => rfl
  | cons o a ih =>
    rw [List.cons_append, ir_run, ir_run]
    cases ir_step env k s o with
    | next s =>
      simp only [ih, List.length_cons]
      rw [show k + 1 + a.length = k + (a.length + 1) by omega]
    | leave c n => rfl

def IROpc.is_alu (op : IROpc) : Bool :=
  !(op matches .IRO_NOP | .IRO_FENCE | .IRO_CCMPR | .IRO_CCMNR | .IRO_CCMPI | .IRO_CCMNI
    | .IRO_LD | .IRO_ST | .IRO_LDV | .IRO_STV
    | .IRO_JMP | .IRO_BCOND | .IRO_CBZ | .IRO_CBNZ | .IRO_TBZ | .IRO_TBNZ | .IRO_JMPIND
    | .IRO_CALL1 | .IRO_CPULD | .IRO_CPUST | .IRO_VOP | .IRO_ATOMIC)

theorem ir_step_alu {o : IROp} (hop : o.op.is_alu = true) : ir_step env k s o = .next (ir_alu s o) := by
  unfold ir_step
  cases h : o.op <;> simp only [h, IROpc.is_alu, Bool.not_true, Bool.false_eq_true] at hop ⊢

theorem ir_run_alu {o : IROp} (os : List IROp)
    (hop : o.op.is_alu = true) : ir_run env k (o :: os) s = ir_run env (k + 1) os (ir_alu s o) := by
  rw [ir_run, ir_step_alu env k s hop]

end arm64emu
