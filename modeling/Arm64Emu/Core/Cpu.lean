import Arm64Emu.Mem.Translate

namespace arm64emu

open Function

def PS_N : u32 := 1#32 <<< 31
def PS_Z : u32 := 1#32 <<< 30
def PS_C : u32 := 1#32 <<< 29
def PS_V : u32 := 1#32 <<< 28

def PS_D : u32 := 1#32 <<< 9
def PS_A : u32 := 1#32 <<< 8
def PS_I : u32 := 1#32 <<< 7
def PS_F : u32 := 1#32 <<< 6

def EC_UNKNOWN : Nat := 0x00
def EC_SVC64 : Nat := 0x15
def EC_IABORT_LOWER : Nat := 0x20
def EC_PC_ALIGN : Nat := 0x22
def EC_DABORT_LOWER : Nat := 0x24
def EC_MOP : Nat := 0x27
def EC_BRK64 : Nat := 0x3c

def FSC_TRANS_L3 : Nat := 0x07
def FSC_PERM_L3 : Nat := 0x0f
def FSC_EXTERNAL : Nat := 0x10
def FSC_ALIGN : Nat := 0x21

/-- ESR syndrome word: exception class, the IL bit, and the low 25 bits of the
instruction-specific syndrome. -/
def esr_make (ec iss : Nat) : u64 :=
  (BitVec.ofNat 64 (ec % 64) <<< 26) ||| (1#64 <<< 25) ||| BitVec.ofNat 64 (iss % 2 ^ 25)

def iss_dabort (write : Bool) (dfsc : Nat) : Nat := dfsc % 64 + (if write then 64 else 0)

/-- The exception `exception_take` records for the run loop. -/
structure PendExc where
  valid : Bool
  esr : u64
  far : u64
  deriving DecidableEq, Repr

/-- The CPU structure, with the thread's pending exception and the guest memory. The register files are indexed by the
numbers the decoder passes, the banked ones by exception level. -/
structure CPU where
  x : Nat → u64
  pc : u64
  nzcv : u32
  daif : u32
  el : Nat
  sp_sel : Bool
  sp_el : Nat → u64
  v : Nat → V128
  fpcr : u32
  fpsr : u32
  sctlr : Nat → u64
  ttbr0 : Nat → u64
  ttbr1 : Nat → u64
  tcr : Nat → u64
  mair : Nat → u64
  amair : Nat → u64
  vbar : Nat → u64
  esr : Nat → u64
  far : Nat → u64
  elr : Nat → u64
  spsr : Nat → u64
  tpidr : Nat → u64
  tpidrro_el0 : u64
  contextidr_el1 : u64
  cpacr_el1 : u64
  mdscr_el1 : u64
  par_el1 : u64
  mpidr : u64
  cntfrq : u64
  cntp_ctl : u64
  cntp_cval : u64
  cntv_ctl : u64
  cntv_cval : u64
  cntkctl_el1 : u64
  excl_valid : Bool
  excl_addr : u64
  excl_size : Nat
  excl_val : u64
  excl_val2 : u64
  halted : Bool
  stop : Bool
  icount : u64
  cur_insn_pc : u64
  pend_exc : PendExc
  mem : Mem

/-- What the integer core calls and this development does not translate. Every result below holds for whatever these
do. -/
structure Env extends Pager where
  exec_fpsimd : CPU → u32 → CPU
  fpsr_sync : CPU → CPU
  gt_count : CPU → Bool → u64

def cpu_cur_sp (c : CPU) : Nat := if c.sp_sel then c.el else 0

def reg_x (c : CPU) (n : Nat) : u64 := if n = 31 then 0#64 else c.x n

def set_x (c : CPU) (n : Nat) (v : u64) : CPU :=
  if n = 31 then c else { c with x := update c.x n v }

def reg_xsp (c : CPU) (n : Nat) : u64 := if n = 31 then c.sp_el (cpu_cur_sp c) else c.x n

/-- Writes a register whose number 31 is the stack pointer. -/
def set_xsp (c : CPU) (n : Nat) (v : u64) : CPU :=
  if n = 31 then { c with sp_el := update c.sp_el (cpu_cur_sp c) v }
  else { c with x := update c.x n v }

def reg_x_sz (c : CPU) (n : Nat) (is64 : Bool) : u64 :=
  if is64 then reg_x c n else trunc32 (reg_x c n)

def set_x_sz (c : CPU) (n : Nat) (is64 : Bool) (v : u64) : CPU :=
  set_x c n (if is64 then v else trunc32 v)

def set_v (c : CPU) (n : Nat) (v : V128) : CPU := { c with v := update c.v n v }

def exception_take (c : CPU) (esr far ret_addr : u64) : CPU :=
  { c with pend_exc := ⟨true, esr, far⟩, pc := ret_addr, excl_valid := false }

def cpu_raise_sync (c : CPU) (esr far : u64) : CPU := exception_take c esr far c.cur_insn_pc

def undefined (c : CPU) : CPU := cpu_raise_sync c (esr_make EC_UNKNOWN 0) 0#64

/-- `PSTATE` back from a saved status. -/
def cpu_unpack_spsr (c : CPU) (spsr : u32) : CPU :=
  let m := spsr.toNat % 16
  { c with
    nzcv := spsr &&& (PS_N ||| PS_Z ||| PS_C ||| PS_V)
    daif := spsr &&& (PS_D ||| PS_A ||| PS_I ||| PS_F)
    el := m / 4 % 4
    sp_sel := m % 2 = 1 }

def flag (nzcv mask : u32) : Bool := nzcv &&& mask != 0#32

/-- Whether the flags meet a condition code. -/
def cond_of (nzcv : u32) (cond : Nat) : Bool :=
  let n := flag nzcv PS_N
  let z := flag nzcv PS_Z
  let c := flag nzcv PS_C
  let v := flag nzcv PS_V
  let r := match cond / 2 with
    | 0 => z
    | 1 => c
    | 2 => n
    | 3 => v
    | 4 => c && !z
    | 5 => n == v
    | 6 => (n == v) && !z
    | _ => true
  if cond % 2 = 1 ∧ cond ≠ 0xf then !r else r

def cond_holds (c : CPU) (cond : Nat) : Bool := cond_of c.nzcv cond

def mk_nzcv (n z c v : Bool) : u32 :=
  (if n then PS_N else 0#32) ||| (if z then PS_Z else 0#32) |||
    (if c then PS_C else 0#32) ||| (if v then PS_V else 0#32)

/-- Outcome of a guest access: the value and the CPU to go on with, or the CPU
with the abort recorded. -/
inductive Access (α : Type) where
  | ok (a : α) (c : CPU)
  | fault (c : CPU)

def Access.cpu {α : Type} : Access α → CPU
  | .ok _ c => c
  | .fault c => c

/-- Go on with an access that succeeded; a fault ends the instruction. -/
def Access.bind {α β : Type} (r : Access α) (f : α → CPU → Access β) : Access β :=
  match r with
  | .ok a c => f a c
  | .fault c => .fault c

variable (c : CPU) (n : Nat) (v : u64)

@[simp] theorem Access.ok_bind {α β : Type} (a : α) (c : CPU) (f : α → CPU → Access β) :
    (Access.ok a c).bind f = f a c := rfl

@[simp] theorem Access.fault_bind {α β : Type} (f : α → CPU → Access β) :
    (Access.fault c : Access α).bind f = .fault c := rfl

theorem Access.bind_assoc {α β γ : Type} (r : Access α) (f : α → CPU → Access β)
    (g : β → CPU → Access γ) : (r.bind f).bind g = r.bind fun a c => (f a c).bind g := by
  cases r <;> rfl

/-- The write-back of a base register, which may be the stack pointer. -/
def set_base (c : CPU) (rn : Nat) (wb : Option u64) : CPU :=
  match wb with
  | some v => set_xsp c rn v
  | none => c

/-- The end of a load or store: the base is written back after the access, and
not where it faulted. -/
def Access.writeback (r : Access Unit) (rn : Nat) (wb : Option u64) : CPU :=
  match r with
  | .fault c => c
  | .ok _ c => set_base c rn wb

theorem Access.writeback_none (r : Access Unit) (rn : Nat) : r.writeback rn none = r.cpu := by
  cases r <;> rfl

@[simp] theorem reg_x_31 : reg_x c 31 = 0#64 := rfl

@[simp] theorem set_x_31 : set_x c 31 v = c := rfl

@[simp] theorem reg_x_sz_true : reg_x_sz c n true = reg_x c n := rfl

@[simp] theorem reg_x_sz_false : reg_x_sz c n false = trunc32 (reg_x c n) := rfl

@[simp] theorem set_x_sz_true : set_x_sz c n true v = set_x c n v := rfl

@[simp] theorem set_x_sz_false :
    set_x_sz c n false v = set_x c n (trunc32 v) := rfl

end arm64emu
