import Arm64Emu.Predecode.Fill

namespace arm64emu

def pd_awc (x y : u64) (cin is64 : Bool) : u64 × u32 :=
  if is64 then
    let t := x + y
    let res := t + carry_in cin
    let c := decide (t < x) || decide (res < t)
    let v := (~~~(x ^^^ y) &&& (x ^^^ res)).getLsbD 63
    (res, mk_nzcv (res.getLsbD 63) (res == 0#64) c v)
  else
    let xx := trunc32 x
    let yy := trunc32 y
    let u := xx + yy + carry_in cin
    let res := trunc32 u
    let c := u.getLsbD 32
    let s := sext32 xx + sext32 yy + carry_in cin
    let v := sext32 res != s
    (res, mk_nzcv (res.getLsbD 31) (res == 0#64) c v)

def pd_logical_flags (c : CPU) (res : u64) (is64 : Bool) : CPU :=
  { c with nzcv :=
      if is64 then mk_nzcv (res.getLsbD 63) (res == 0#64) false false
      else mk_nzcv (res.getLsbD 31) (trunc32 res == 0#64) false false }

def pd_shift_reg (v : u64) (type amount : Nat) (is64 : Bool) : u64 :=
  let w := if is64 then 64 else 32
  let amount := amount % w
  let v := if is64 then v else trunc32 v
  match type with
  | 0 => v <<< amount
  | 1 => v >>> amount
  | 2 => if is64 then v.sshiftRight amount else ((v.setWidth 32).sshiftRight amount).setWidth 64
  | _ => if is64 then ror64 v amount else (ror32 (v.setWidth 32) amount).setWidth 64

def pd_extend_reg (v : u64) (option shift : Nat) : u64 :=
  let out := match option % 4 with
    | 0 => (v.setWidth 8).setWidth 64
    | 1 => (v.setWidth 16).setWidth 64
    | 2 => trunc32 v
    | _ => v
  let out :=
    if option / 4 % 2 = 1 then
      let bits := match option % 4 with
        | 0 => 8
        | 1 => 16
        | 2 => 32
        | _ => 64
      sign_extend out bits
    else out
  out <<< shift

/-- ADDS and SUBS, which write the flags and the result. -/
def pd_adds (c : CPU) (e : PDEnt) (x y : u64) (cin is64 : Bool) : CPU :=
  let (r, fl) := pd_awc x y cin is64
  set_x { c with nzcv := fl } e.rd (if is64 then r else trunc32 r)

def pd_ands (c : CPU) (e : PDEnt) (r : u64) (is64 : Bool) : CPU :=
  let r := if is64 then r else trunc32 r
  set_x (pd_logical_flags c r is64) e.rd r

/-- The four bitwise operations of the shifted-register handler. -/
inductive LogicalOp where
  | and | orr | eor | ands
  deriving DecidableEq

def L_AND64S (c : CPU) (e : PDEnt) (op : LogicalOp) (is64 : Bool) : CPU :=
  let op2 := pd_shift_reg (reg_x c e.rm) ((e.imm >>> 6).toNat % 4) (e.imm.toNat % 64) is64
  let op2 := if e.imm.getLsbD 8 then ~~~op2 else op2
  let n := reg_x c e.rn
  let r := match op with
    | .and | .ands => n &&& op2
    | .orr => n ||| op2
    | .eor => n ^^^ op2
  let r := if is64 then r else trunc32 r
  set_x (if op = .ands then pd_logical_flags c r is64 else c) e.rd r

def L_ADD64RS (c : CPU) (e : PDEnt) (sub S is64 : Bool) : CPU :=
  let op2 := pd_shift_reg (reg_x c e.rm) ((e.imm >>> 6).toNat % 4) (e.imm.toNat % 64) is64
  let n := reg_x c e.rn
  let (r, fl) := if sub then pd_awc n (~~~op2) true is64 else pd_awc n op2 false is64
  set_x_sz (if S then { c with nzcv := fl } else c) e.rd is64 r

def L_ADDX64 (c : CPU) (e : PDEnt) (sub S is64 : Bool) : CPU :=
  let op2 := pd_extend_reg (reg_x c e.rm) ((e.imm >>> 3).toNat % 8) (e.imm.toNat % 8)
  let n := reg_xsp c e.rn
  let (r, fl) := if sub then pd_awc n (~~~op2) true is64 else pd_awc n op2 false is64
  if S then set_x_sz { c with nzcv := fl } e.rd is64 r
  else set_xsp c e.rd (if is64 then r else trunc32 r)

/-- What the unselected operand of a conditional select becomes. -/
inductive CselOp where
  | csel | csinc | csinv | csneg

def L_CSEL64 (c : CPU) (e : PDEnt) (op : CselOp) (is64 : Bool) : CPU :=
  let m := reg_x c e.rm
  let r :=
    if cond_holds c e.imm.toNat then reg_x c e.rn
    else match op with
      | .csel => m
      | .csinc => m + 1#64
      | .csinv => ~~~m
      | .csneg => 0#64 - m
  set_x_sz c e.rd is64 r

def L_CCMP64I (c : CPU) (e : PDEnt) (cmp is_imm is64 : Bool) : CPU :=
  if cond_holds c (e.imm.toNat % 16) then
    let n := reg_x c e.rn
    let m := if is_imm then (e.imm >>> 8) &&& 31#64 else reg_x c e.rm
    { c with nzcv := if cmp then (pd_awc n (~~~m) true is64).2 else (pd_awc n m false is64).2 }
  else { c with nzcv := (e.imm >>> 32).setWidth 32 }

/-- A load that writes `f` of the value to `rd` where the access succeeds. -/
def ld_to (pg : Pager) (c : CPU) (rd : Nat) (va : u64) (size : Nat) (f : u64 → u64) : CPU :=
  match mem_read pg c va size with
  | .ok v c => set_x c rd (f v)
  | .fault c => c

/-- A load with base writeback, which commits after the access. -/
def ld_wb (pg : Pager) (c : CPU) (e : PDEnt) (va wbval : u64) (size : Nat) (f : u64 → u64) : CPU :=
  match mem_read pg c va size with
  | .ok v c => set_xsp (set_x c e.rd (f v)) e.rn wbval
  | .fault c => c

def st_wb (pg : Pager) (c : CPU) (e : PDEnt) (va wbval : u64) (size : Nat) : CPU :=
  match mem_write pg c va size (reg_x c e.rd) with
  | .ok _ c => set_xsp c e.rn wbval
  | .fault c => c

inductive PairMode where
  | off | pre | post
  deriving DecidableEq

def PairMode.addr (m : PairMode) (base imm : u64) : u64 := if m = .post then base else base + imm

/-- The base a pair writes back once its accesses have all succeeded. -/
def PairMode.wb (m : PairMode) (base imm : u64) : Option u64 :=
  match m with
  | .off => none
  | .pre | .post => some (base + imm)

def L_LDP64 (pg : Pager) (c : CPU) (e : PDEnt) (is64 : Bool) (mode : PairMode) : CPU :=
  let esz := if is64 then 8 else 4
  let base := reg_xsp c e.rn
  let addr := mode.addr base e.imm
  match mem_read pg c addr esz with
  | .fault c => c
  | .ok a c =>
    match mem_read pg c (addr + BitVec.ofNat 64 esz) esz with
    | .fault c => c
    | .ok b c =>
      let c :=
        if is64 then set_x (set_x c e.rd a) e.rm b
        else set_x (set_x c e.rd (trunc32 a)) e.rm (trunc32 b)
      set_base c e.rn (mode.wb base e.imm)

def L_STP64 (pg : Pager) (c : CPU) (e : PDEnt) (is64 : Bool) (mode : PairMode) : CPU :=
  let esz := if is64 then 8 else 4
  let base := reg_xsp c e.rn
  let addr := mode.addr base e.imm
  match mem_write pg c addr esz (reg_x c e.rd) with
  | .fault c => c
  | .ok _ c =>
    match mem_write pg c (addr + BitVec.ofNat 64 esz) esz (reg_x c e.rm) with
    | .fault c => c
    | .ok _ c => set_base c e.rn (mode.wb base e.imm)

def L_LDRQ_wb (pg : Pager) (c : CPU) (e : PDEnt) (va wbval : u64) : CPU :=
  match mem_read128 pg c va with
  | .ok v c => set_xsp (set_v c e.rd v) e.rn wbval
  | .fault c => c

def L_STRQ_wb (pg : Pager) (c : CPU) (e : PDEnt) (va wbval : u64) : CPU :=
  match mem_write128 pg c va (c.v e.rd) with
  | .ok _ c => set_xsp c e.rn wbval
  | .fault c => c

/-- A vector pair load commits its first element even if the second faults. -/
def L_LDPQ (pg : Pager) (c : CPU) (e : PDEnt) (mode : PairMode) : CPU :=
  let base := reg_xsp c e.rn
  let addr := mode.addr base e.imm
  match mem_read128 pg c addr with
  | .fault c => c
  | .ok v c =>
    let c := set_v c e.rd v
    match mem_read128 pg c (addr + 16#64) with
    | .fault c => c
    | .ok v c => set_base (set_v c e.rm v) e.rn (mode.wb base e.imm)

def L_STPQ (pg : Pager) (c : CPU) (e : PDEnt) (mode : PairMode) : CPU :=
  let base := reg_xsp c e.rn
  let addr := mode.addr base e.imm
  match mem_write128 pg c addr (c.v e.rd) with
  | .fault c => c
  | .ok _ c =>
    match mem_write128 pg c (addr + 16#64) (c.v e.rm) with
    | .fault c => c
    | .ok _ c => set_base c e.rn (mode.wb base e.imm)

def L_LDPD (pg : Pager) (c : CPU) (e : PDEnt) (mode : PairMode) : CPU :=
  let base := reg_xsp c e.rn
  let addr := mode.addr base e.imm
  match mem_read pg c addr 8 with
  | .fault c => c
  | .ok t c =>
    let c := set_v c e.rd (V128.ofD t 0#64)
    match mem_read pg c (addr + 8#64) 8 with
    | .fault c => c
    | .ok t c => set_base (set_v c e.rm (V128.ofD t 0#64)) e.rn (mode.wb base e.imm)

def L_STPD (pg : Pager) (c : CPU) (e : PDEnt) (mode : PairMode) : CPU :=
  let base := reg_xsp c e.rn
  let addr := mode.addr base e.imm
  match mem_write pg c addr 8 (c.v e.rd).d0 with
  | .fault c => c
  | .ok _ c =>
    match mem_write pg c (addr + 8#64) 8 (c.v e.rm).d0 with
    | .fault c => c
    | .ok _ c => set_base c e.rn (mode.wb base e.imm)

/-- SIMD&FP load without writeback; `rm` holds the byte count. -/
def L_LDRV (pg : Pager) (c : CPU) (e : PDEnt) (va : u64) : CPU :=
  match mem_read pg c va e.rm with
  | .ok t c => set_v c e.rd (V128.ofD t 0#64)
  | .fault c => c

def L_LDRQ (pg : Pager) (c : CPU) (e : PDEnt) (va : u64) : CPU :=
  match mem_read128 pg c va with
  | .ok v c => set_v c e.rd v
  | .fault c => c

def pd_ro_va (c : CPU) (e : PDEnt) : u64 :=
  reg_xsp c e.rn + pd_extend_reg (reg_x c e.rm) ((e.imm >>> 3).toNat % 8) (e.imm.toNat % 8)

/-- The handler `pd_run` jumps to for an entry. On entry `cur_insn_pc` is the
instruction's address and `pc` the next one. -/
def pd_exec (env : Env) (c : CPU) (e : PDEnt) (insn : u32) : CPU :=
  match e.op with
  | .PD_GENERIC => exec_a64 env c insn
  | .PD_NOP => c
  | .PD_B => branch_to c e.imm
  | .PD_BL => branch_to (set_x c 30 (c.cur_insn_pc + 4#64)) e.imm
  | .PD_BCOND => branch_if c (cond_holds c e.rd) e.imm
  | .PD_CBZ64 => branch_if c (reg_x c e.rd == 0#64) e.imm
  | .PD_CBZ32 => branch_if c (trunc32 (reg_x c e.rd) == 0#64) e.imm
  | .PD_CBNZ64 => branch_if c (reg_x c e.rd != 0#64) e.imm
  | .PD_CBNZ32 => branch_if c (trunc32 (reg_x c e.rd) != 0#64) e.imm
  | .PD_TBZ => branch_if c (!(reg_x c e.rd).getLsbD e.rm) e.imm
  | .PD_TBNZ => branch_if c ((reg_x c e.rd).getLsbD e.rm) e.imm
  | .PD_BR => { c with pc := reg_x c e.rn }
  | .PD_BLR => { set_x c 30 (c.cur_insn_pc + 4#64) with pc := reg_x c e.rn }
  | .PD_ADD64I => set_xsp c e.rd (reg_xsp c e.rn + e.imm)
  | .PD_ADD32I => set_xsp c e.rd (trunc32 (reg_xsp c e.rn + e.imm))
  | .PD_SUB64I => set_xsp c e.rd (reg_xsp c e.rn - e.imm)
  | .PD_SUB32I => set_xsp c e.rd (trunc32 (reg_xsp c e.rn - e.imm))
  | .PD_ADDS64I => pd_adds c e (reg_xsp c e.rn) e.imm false true
  | .PD_ADDS32I => pd_adds c e (reg_xsp c e.rn) e.imm false false
  | .PD_SUBS64I => pd_adds c e (reg_xsp c e.rn) e.imm true true
  | .PD_SUBS32I => pd_adds c e (reg_xsp c e.rn) e.imm true false
  | .PD_AND64I => set_xsp c e.rd (reg_x c e.rn &&& e.imm)
  | .PD_AND32I => set_xsp c e.rd (trunc32 (reg_x c e.rn &&& e.imm))
  | .PD_ORR64I => set_xsp c e.rd (reg_x c e.rn ||| e.imm)
  | .PD_ORR32I => set_xsp c e.rd (trunc32 (reg_x c e.rn ||| e.imm))
  | .PD_EOR64I => set_xsp c e.rd (reg_x c e.rn ^^^ e.imm)
  | .PD_EOR32I => set_xsp c e.rd (trunc32 (reg_x c e.rn ^^^ e.imm))
  | .PD_ANDS64I => pd_ands c e (reg_x c e.rn &&& e.imm) true
  | .PD_ANDS32I => pd_ands c e (reg_x c e.rn &&& e.imm) false
  | .PD_MOVI => set_x c e.rd e.imm
  | .PD_MOVK64 => set_x c e.rd ((reg_x c e.rd &&& ~~~(0xffff#64 <<< e.rm)) ||| e.imm)
  | .PD_MOVK32 => set_x c e.rd (trunc32 ((reg_x c e.rd &&& ~~~(0xffff#64 <<< e.rm)) ||| e.imm))
  | .PD_ADR => set_x c e.rd (c.cur_insn_pc + e.imm)
  | .PD_ADRP => set_x c e.rd ((c.cur_insn_pc &&& ~~~0xfff#64) + e.imm)
  | .PD_LSL64I => set_x c e.rd (reg_x c e.rn <<< e.rm)
  | .PD_LSL32I => set_x c e.rd (trunc32 (reg_x c e.rn <<< e.rm))
  | .PD_LSR64I => set_x c e.rd (reg_x c e.rn >>> e.rm)
  | .PD_LSR32I => set_x c e.rd (trunc32 (reg_x c e.rn) >>> e.rm)
  | .PD_ASR64I => set_x c e.rd ((reg_x c e.rn).sshiftRight e.rm)
  | .PD_ASR32I => set_x c e.rd ((((reg_x c e.rn).setWidth 32).sshiftRight e.rm).setWidth 64)
  | .PD_UBFX64 => set_x c e.rd ((reg_x c e.rn >>> e.rm) &&& e.imm)
  | .PD_UBFX32 => set_x c e.rd ((reg_x c e.rn >>> e.rm) &&& e.imm)
  | .PD_UBFIZ64 => set_x c e.rd ((reg_x c e.rn &&& e.imm) <<< e.rm)
  | .PD_UBFIZ32 => set_x c e.rd (trunc32 ((reg_x c e.rn &&& e.imm) <<< e.rm))
  | .PD_SBFX64 => set_x c e.rd ((reg_x c e.rn <<< e.rm).sshiftRight e.imm.toNat)
  | .PD_SBFX32 => 
    set_x c e.rd ((((reg_x c e.rn).setWidth 32 <<< e.rm).sshiftRight e.imm.toNat).setWidth 64)
  | .PD_EXTR64 => 
    let hi := reg_x c e.rn
    let lo := reg_x c e.rm
    set_x c e.rd (if e.imm.toNat = 0 then lo else (hi <<< (64 - e.imm.toNat)) ||| (lo >>> e.imm.toNat))
  | .PD_EXTR32 => 
    let h := (reg_x c e.rn).setWidth 32
    let l := (reg_x c e.rm).setWidth 32
    let r := if e.imm.toNat = 0 then l else (h <<< (32 - e.imm.toNat)) ||| (l >>> e.imm.toNat)
    set_x c e.rd (r.setWidth 64)
  | .PD_AND64 => set_x c e.rd (reg_x c e.rn &&& reg_x c e.rm)
  | .PD_AND32 => set_x c e.rd (trunc32 (reg_x c e.rn &&& reg_x c e.rm))
  | .PD_BIC64 => set_x c e.rd (reg_x c e.rn &&& ~~~reg_x c e.rm)
  | .PD_BIC32 => set_x c e.rd (trunc32 (reg_x c e.rn &&& ~~~reg_x c e.rm))
  | .PD_ORR64 => set_x c e.rd (reg_x c e.rn ||| reg_x c e.rm)
  | .PD_ORR32 => set_x c e.rd (trunc32 (reg_x c e.rn ||| reg_x c e.rm))
  | .PD_ORN64 => set_x c e.rd (reg_x c e.rn ||| ~~~reg_x c e.rm)
  | .PD_ORN32 => set_x c e.rd (trunc32 (reg_x c e.rn ||| ~~~reg_x c e.rm))
  | .PD_EOR64 => set_x c e.rd (reg_x c e.rn ^^^ reg_x c e.rm)
  | .PD_EOR32 => set_x c e.rd (trunc32 (reg_x c e.rn ^^^ reg_x c e.rm))
  | .PD_EON64 => set_x c e.rd (reg_x c e.rn ^^^ ~~~reg_x c e.rm)
  | .PD_EON32 => set_x c e.rd (trunc32 (reg_x c e.rn ^^^ ~~~reg_x c e.rm))
  | .PD_ANDS64 => pd_ands c e (reg_x c e.rn &&& reg_x c e.rm) true
  | .PD_ANDS32 => pd_ands c e (reg_x c e.rn &&& reg_x c e.rm) false
  | .PD_BICS64 => pd_ands c e (reg_x c e.rn &&& ~~~reg_x c e.rm) true
  | .PD_BICS32 => pd_ands c e (reg_x c e.rn &&& ~~~reg_x c e.rm) false
  | .PD_AND64S => L_AND64S c e .and true
  | .PD_AND32S => L_AND64S c e .and false
  | .PD_ORR64S => L_AND64S c e .orr true
  | .PD_ORR32S => L_AND64S c e .orr false
  | .PD_EOR64S => L_AND64S c e .eor true
  | .PD_EOR32S => L_AND64S c e .eor false
  | .PD_ANDS64S => L_AND64S c e .ands true
  | .PD_ANDS32S => L_AND64S c e .ands false
  | .PD_ADD64R => set_x c e.rd (reg_x c e.rn + reg_x c e.rm)
  | .PD_ADD32R => set_x c e.rd (trunc32 (reg_x c e.rn + reg_x c e.rm))
  | .PD_SUB64R => set_x c e.rd (reg_x c e.rn - reg_x c e.rm)
  | .PD_SUB32R => set_x c e.rd (trunc32 (reg_x c e.rn - reg_x c e.rm))
  | .PD_ADDS64R => pd_adds c e (reg_x c e.rn) (reg_x c e.rm) false true
  | .PD_ADDS32R => pd_adds c e (reg_x c e.rn) (reg_x c e.rm) false false
  | .PD_SUBS64R => pd_adds c e (reg_x c e.rn) (~~~reg_x c e.rm) true true
  | .PD_SUBS32R => pd_adds c e (reg_x c e.rn) (~~~reg_x c e.rm) true false
  | .PD_ADD64RS => L_ADD64RS c e false false true
  | .PD_ADD32RS => L_ADD64RS c e false false false
  | .PD_SUB64RS => L_ADD64RS c e true false true
  | .PD_SUB32RS => L_ADD64RS c e true false false
  | .PD_ADDS64RS => L_ADD64RS c e false true true
  | .PD_ADDS32RS => L_ADD64RS c e false true false
  | .PD_SUBS64RS => L_ADD64RS c e true true true
  | .PD_SUBS32RS => L_ADD64RS c e true true false
  | .PD_ADDX64 => L_ADDX64 c e false false true
  | .PD_ADDX32 => L_ADDX64 c e false false false
  | .PD_SUBX64 => L_ADDX64 c e true false true
  | .PD_SUBX32 => L_ADDX64 c e true false false
  | .PD_ADDSX64 => L_ADDX64 c e false true true
  | .PD_ADDSX32 => L_ADDX64 c e false true false
  | .PD_SUBSX64 => L_ADDX64 c e true true true
  | .PD_SUBSX32 => L_ADDX64 c e true true false
  | .PD_MADD64 => set_x c e.rd (reg_x c e.imm.toNat + reg_x c e.rn * reg_x c e.rm)
  | .PD_MADD32 => set_x c e.rd (trunc32 (reg_x c e.imm.toNat + reg_x c e.rn * reg_x c e.rm))
  | .PD_MSUB64 => set_x c e.rd (reg_x c e.imm.toNat - reg_x c e.rn * reg_x c e.rm)
  | .PD_MSUB32 => set_x c e.rd (trunc32 (reg_x c e.imm.toNat - reg_x c e.rn * reg_x c e.rm))
  | .PD_SMADDL => 
    set_x c e.rd (reg_x c e.imm.toNat + sext32 (reg_x c e.rn) * sext32 (reg_x c e.rm))
  | .PD_SMSUBL => 
    set_x c e.rd (reg_x c e.imm.toNat - sext32 (reg_x c e.rn) * sext32 (reg_x c e.rm))
  | .PD_UMADDL => 
    set_x c e.rd (reg_x c e.imm.toNat + trunc32 (reg_x c e.rn) * trunc32 (reg_x c e.rm))
  | .PD_UMSUBL => 
    set_x c e.rd (reg_x c e.imm.toNat - trunc32 (reg_x c e.rn) * trunc32 (reg_x c e.rm))
  | .PD_SMULH => set_x c e.rd (smulh64 (reg_x c e.rn) (reg_x c e.rm))
  | .PD_UMULH => set_x c e.rd (umulh64 (reg_x c e.rn) (reg_x c e.rm))
  | .PD_CSEL64 => L_CSEL64 c e .csel true
  | .PD_CSEL32 => L_CSEL64 c e .csel false
  | .PD_CSINC64 => L_CSEL64 c e .csinc true
  | .PD_CSINC32 => L_CSEL64 c e .csinc false
  | .PD_CSINV64 => L_CSEL64 c e .csinv true
  | .PD_CSINV32 => L_CSEL64 c e .csinv false
  | .PD_CSNEG64 => L_CSEL64 c e .csneg true
  | .PD_CSNEG32 => L_CSEL64 c e .csneg false
  | .PD_CCMP64I => L_CCMP64I c e true true true
  | .PD_CCMP32I => L_CCMP64I c e true true false
  | .PD_CCMP64R => L_CCMP64I c e true false true
  | .PD_CCMP32R => L_CCMP64I c e true false false
  | .PD_CCMN64I => L_CCMP64I c e false true true
  | .PD_CCMN32I => L_CCMP64I c e false true false
  | .PD_CCMN64R => L_CCMP64I c e false false true
  | .PD_CCMN32R => L_CCMP64I c e false false false
  | .PD_REV64 => set_x c e.rd (bswap64 (reg_x c e.rn))
  | .PD_REVW => set_x c e.rd ((bswap32 ((reg_x c e.rn).setWidth 32)).setWidth 64)
  | .PD_CLZ64 => 
    let n := reg_x c e.rn
    set_x c e.rd (if n = 0#64 then 64#64 else BitVec.ofNat 64 (clz 64 n.toNat))
  | .PD_CLZ32 => 
    let n := trunc32 (reg_x c e.rn)
    set_x c e.rd (if n = 0#64 then 32#64 else BitVec.ofNat 64 (clz 32 n.toNat))
  | .PD_UDIV64 => set_x c e.rd (udiv (reg_x c e.rn) (reg_x c e.rm) true)
  | .PD_UDIV32 => set_x c e.rd (udiv (reg_x c e.rn) (reg_x c e.rm) false)
  | .PD_SDIV64 => set_x c e.rd (sdiv (reg_x c e.rn) (reg_x c e.rm) true)
  | .PD_SDIV32 => set_x c e.rd (sdiv (reg_x c e.rn) (reg_x c e.rm) false)
  | .PD_LSLV64 => set_x c e.rd (pd_shift_reg (reg_x c e.rn) 0 ((reg_x c e.rm).toNat % 2 ^ 32) true)
  | .PD_LSLV32 => 
    set_x c e.rd (trunc32 (pd_shift_reg (reg_x c e.rn) 0 ((reg_x c e.rm).toNat % 2 ^ 32) false))
  | .PD_LSRV64 => set_x c e.rd (pd_shift_reg (reg_x c e.rn) 1 ((reg_x c e.rm).toNat % 2 ^ 32) true)
  | .PD_LSRV32 => 
    set_x c e.rd (trunc32 (pd_shift_reg (reg_x c e.rn) 1 ((reg_x c e.rm).toNat % 2 ^ 32) false))
  | .PD_ASRV64 => set_x c e.rd (pd_shift_reg (reg_x c e.rn) 2 ((reg_x c e.rm).toNat % 2 ^ 32) true)
  | .PD_ASRV32 => 
    set_x c e.rd (trunc32 (pd_shift_reg (reg_x c e.rn) 2 ((reg_x c e.rm).toNat % 2 ^ 32) false))
  | .PD_RORV64 => set_x c e.rd (pd_shift_reg (reg_x c e.rn) 3 ((reg_x c e.rm).toNat % 2 ^ 32) true)
  | .PD_RORV32 => 
    set_x c e.rd (trunc32 (pd_shift_reg (reg_x c e.rn) 3 ((reg_x c e.rm).toNat % 2 ^ 32) false))
  | .PD_LDR64U => ld_to env.toPager c e.rd (reg_xsp c e.rn + e.imm) 8 id
  | .PD_LDR32U => ld_to env.toPager c e.rd (reg_xsp c e.rn + e.imm) 4 trunc32
  | .PD_LDRB => ld_to env.toPager c e.rd (reg_xsp c e.rn + e.imm) 1 id
  | .PD_LDRH => ld_to env.toPager c e.rd (reg_xsp c e.rn + e.imm) 2 id
  | .PD_LDRSB64 => ld_to env.toPager c e.rd (reg_xsp c e.rn + e.imm) 1 (sign_extend · 8)
  | .PD_LDRSB32 => ld_to env.toPager c e.rd (reg_xsp c e.rn + e.imm) 1 (fun v => trunc32 (sign_extend v 8))
  | .PD_LDRSH64 => ld_to env.toPager c e.rd (reg_xsp c e.rn + e.imm) 2 (sign_extend · 16)
  | .PD_LDRSH32 => ld_to env.toPager c e.rd (reg_xsp c e.rn + e.imm) 2 (fun v => trunc32 (sign_extend v 16))
  | .PD_LDRSW => ld_to env.toPager c e.rd (reg_xsp c e.rn + e.imm) 4 (sign_extend · 32)
  | .PD_STR64U => (mem_write env.toPager c (reg_xsp c e.rn + e.imm) 8 (reg_x c e.rd)).cpu
  | .PD_STR32U => (mem_write env.toPager c (reg_xsp c e.rn + e.imm) 4 (reg_x c e.rd)).cpu
  | .PD_STRB => (mem_write env.toPager c (reg_xsp c e.rn + e.imm) 1 (reg_x c e.rd)).cpu
  | .PD_STRH => (mem_write env.toPager c (reg_xsp c e.rn + e.imm) 2 (reg_x c e.rd)).cpu
  | .PD_LDR64PRE => ld_wb env.toPager c e (reg_xsp c e.rn + e.imm) (reg_xsp c e.rn + e.imm) 8 id
  | .PD_LDR64POST => ld_wb env.toPager c e (reg_xsp c e.rn) (reg_xsp c e.rn + e.imm) 8 id
  | .PD_LDR32PRE => ld_wb env.toPager c e (reg_xsp c e.rn + e.imm) (reg_xsp c e.rn + e.imm) 4 trunc32
  | .PD_LDR32POST => ld_wb env.toPager c e (reg_xsp c e.rn) (reg_xsp c e.rn + e.imm) 4 trunc32
  | .PD_STR64PRE => st_wb env.toPager c e (reg_xsp c e.rn + e.imm) (reg_xsp c e.rn + e.imm) 8
  | .PD_STR64POST => st_wb env.toPager c e (reg_xsp c e.rn) (reg_xsp c e.rn + e.imm) 8
  | .PD_STR32PRE => st_wb env.toPager c e (reg_xsp c e.rn + e.imm) (reg_xsp c e.rn + e.imm) 4
  | .PD_STR32POST => st_wb env.toPager c e (reg_xsp c e.rn) (reg_xsp c e.rn + e.imm) 4
  | .PD_LDRBPOST => ld_wb env.toPager c e (reg_xsp c e.rn) (reg_xsp c e.rn + e.imm) 1 id
  | .PD_STRBPOST => st_wb env.toPager c e (reg_xsp c e.rn) (reg_xsp c e.rn + e.imm) 1
  | .PD_LDR64RO => ld_to env.toPager c e.rd (pd_ro_va c e) 8 id
  | .PD_LDR32RO => ld_to env.toPager c e.rd (pd_ro_va c e) 4 trunc32
  | .PD_LDRBRO => ld_to env.toPager c e.rd (pd_ro_va c e) 1 id
  | .PD_LDRHRO => ld_to env.toPager c e.rd (pd_ro_va c e) 2 id
  | .PD_STR64RO => (mem_write env.toPager c (pd_ro_va c e) 8 (reg_x c e.rd)).cpu
  | .PD_STR32RO => (mem_write env.toPager c (pd_ro_va c e) 4 (reg_x c e.rd)).cpu
  | .PD_STRBRO => (mem_write env.toPager c (pd_ro_va c e) 1 (reg_x c e.rd)).cpu
  | .PD_STRHRO => (mem_write env.toPager c (pd_ro_va c e) 2 (reg_x c e.rd)).cpu
  | .PD_LDRLIT64 => ld_to env.toPager c e.rd (c.cur_insn_pc + e.imm) 8 id
  | .PD_LDRLIT32 => ld_to env.toPager c e.rd (c.cur_insn_pc + e.imm) 4 trunc32
  | .PD_LDRLITV => 
    let va := c.cur_insn_pc + e.imm
    if e.rm = 16 then L_LDRQ env.toPager c e va else L_LDRV env.toPager c e va
  | .PD_LDP64 => L_LDP64 env.toPager c e true .off
  | .PD_LDP64PRE => L_LDP64 env.toPager c e true .pre
  | .PD_LDP64POST => L_LDP64 env.toPager c e true .post
  | .PD_LDP32 => L_LDP64 env.toPager c e false .off
  | .PD_LDP32PRE => L_LDP64 env.toPager c e false .pre
  | .PD_LDP32POST => L_LDP64 env.toPager c e false .post
  | .PD_STP64 => L_STP64 env.toPager c e true .off
  | .PD_STP64PRE => L_STP64 env.toPager c e true .pre
  | .PD_STP64POST => L_STP64 env.toPager c e true .post
  | .PD_STP32 => L_STP64 env.toPager c e false .off
  | .PD_STP32PRE => L_STP64 env.toPager c e false .pre
  | .PD_STP32POST => L_STP64 env.toPager c e false .post
  | .PD_LDRQ => L_LDRQ env.toPager c e (reg_xsp c e.rn + e.imm)
  | .PD_STRQ => (mem_write128 env.toPager c (reg_xsp c e.rn + e.imm) (c.v e.rd)).cpu
  | .PD_LDRV => L_LDRV env.toPager c e (reg_xsp c e.rn + e.imm)
  | .PD_STRV => (mem_write env.toPager c (reg_xsp c e.rn + e.imm) e.rm (c.v e.rd).d0).cpu
  | .PD_LDRQPRE => L_LDRQ_wb env.toPager c e (reg_xsp c e.rn + e.imm) (reg_xsp c e.rn + e.imm)
  | .PD_LDRQPOST => L_LDRQ_wb env.toPager c e (reg_xsp c e.rn) (reg_xsp c e.rn + e.imm)
  | .PD_STRQPRE => L_STRQ_wb env.toPager c e (reg_xsp c e.rn + e.imm) (reg_xsp c e.rn + e.imm)
  | .PD_STRQPOST => L_STRQ_wb env.toPager c e (reg_xsp c e.rn) (reg_xsp c e.rn + e.imm)
  | .PD_LDPQ => L_LDPQ env.toPager c e .off
  | .PD_LDPQPRE => L_LDPQ env.toPager c e .pre
  | .PD_LDPQPOST => L_LDPQ env.toPager c e .post
  | .PD_STPQ => L_STPQ env.toPager c e .off
  | .PD_STPQPRE => L_STPQ env.toPager c e .pre
  | .PD_STPQPOST => L_STPQ env.toPager c e .post
  | .PD_LDPD => L_LDPD env.toPager c e .off
  | .PD_LDPDPRE => L_LDPD env.toPager c e .pre
  | .PD_LDPDPOST => L_LDPD env.toPager c e .post
  | .PD_STPD => L_STPD env.toPager c e .off
  | .PD_STPDPRE => L_STPD env.toPager c e .pre
  | .PD_STPDPOST => L_STPD env.toPager c e .post

abbrev PDCache := Nat → PDEnt

def PD_SIZE : Nat := 2 ^ 14

def pd_slot (pc : u64) : Nat := (pc >>> 2).toNat % PD_SIZE

/-- Validate the slot against the fetched word, refilling it on a mismatch. -/
def pd_validate (cache : PDCache) (pc : u64) (insn : u32) : PDCache :=
  if (cache (pd_slot pc)).insn = insn then cache
  else Function.update cache (pd_slot pc) (pd_fill insn)

/-- What makes `pd_run` return to the loop after an instruction. -/
def rare_event (c : CPU) (sig_npend : Bool) : Bool :=
  c.stop || c.halted || c.pend_exc.valid || sig_npend

/-- `pd_run`, cut off after `n` instructions: the cache, the CPU and whether it has returned. The fetches and signal
tests are arbitrary, as the code may be rewritten between visits. -/
def pd_run (env : Env) (fetch : Nat → CPU → Access u32) (sig : Nat → Bool) :
    Nat → Nat → PDCache → CPU → PDCache × CPU × Bool
  | 0, _, cache, c => (cache, c, false)
  | n + 1, k, cache, c =>
    match fetch k { c with cur_insn_pc := c.pc } with
    | .fault c => (cache, c, true)
    | .ok insn c =>
      let c := { c with pc := c.pc + 4#64 }
      let cache := pd_validate cache c.cur_insn_pc insn
      let c := pd_exec env c (cache (pd_slot c.cur_insn_pc)) insn
      let c := { c with icount := c.icount + 1#64 }
      if rare_event c (sig k) then (cache, c, true) else pd_run env fetch sig n (k + 1) cache c

/-- The loop without a decode cache: fetch and `exec_a64`, again and again. -/
def nopd_run (env : Env) (fetch : Nat → CPU → Access u32) (sig : Nat → Bool) :
    Nat → Nat → CPU → CPU × Bool
  | 0, _, c => (c, false)
  | n + 1, k, c =>
    match fetch k { c with cur_insn_pc := c.pc } with
    | .fault c => (c, true)
    | .ok insn c =>
      let c := exec_a64 env { c with pc := c.pc + 4#64 } insn
      let c := { c with icount := c.icount + 1#64 }
      if rare_event c (sig k) then (c, true) else nopd_run env fetch sig n (k + 1) c

end arm64emu
