import Arm64Emu.Core.Errno
import Arm64Emu.Core.Types

namespace arm64emu

/-- `struct sock_filter`: one classic-BPF instruction. -/
structure GSockFilter where
  code : u16
  jt : u8
  jf : u8
  k : u32
deriving DecidableEq, Repr

/-- `struct seccomp_data`: what a filter reads. -/
structure GSeccompData where
  nr : u32
  arch : u32
  instruction_pointer : u64
  args : Fin 6 → u64

def G_BPF_MAXINSNS : Nat := 4096
def SECCOMP_DATA_SIZE : Nat := 64
def BPF_MEMWORDS : Nat := 16

def BPF_CLASS (c : u16) : u16 := c &&& 0x07#16
def BPF_LD : u16 := 0x00#16
def BPF_LDX : u16 := 0x01#16
def BPF_ST : u16 := 0x02#16
def BPF_STX : u16 := 0x03#16
def BPF_ALU : u16 := 0x04#16
def BPF_JMP : u16 := 0x05#16
def BPF_RET : u16 := 0x06#16
def BPF_MISC : u16 := 0x07#16
def BPF_W : u16 := 0x00#16
def BPF_MODE (c : u16) : u16 := c &&& 0xe0#16
def BPF_IMM : u16 := 0x00#16
def BPF_ABS : u16 := 0x20#16
def BPF_MEM : u16 := 0x60#16
def BPF_LEN : u16 := 0x80#16
def BPF_OP (c : u16) : u16 := c &&& 0xf0#16
def BPF_ADD : u16 := 0x00#16
def BPF_SUB : u16 := 0x10#16
def BPF_MUL : u16 := 0x20#16
def BPF_DIV : u16 := 0x30#16
def BPF_OR : u16 := 0x40#16
def BPF_AND : u16 := 0x50#16
def BPF_LSH : u16 := 0x60#16
def BPF_RSH : u16 := 0x70#16
def BPF_NEG : u16 := 0x80#16
def BPF_XOR : u16 := 0xa0#16
def BPF_JA : u16 := 0x00#16
def BPF_JEQ : u16 := 0x10#16
def BPF_JGT : u16 := 0x20#16
def BPF_JGE : u16 := 0x30#16
def BPF_JSET : u16 := 0x40#16
def BPF_SRC (c : u16) : u16 := c &&& 0x08#16
def BPF_K : u16 := 0x00#16
def BPF_X : u16 := 0x08#16
def BPF_A : u16 := 0x10#16
def BPF_TAX : u16 := 0x00#16
def BPF_TXA : u16 := 0x80#16

/-- The codes of the `switch` in `bpf_validate` that carry no check. -/
def bpf_plain_codes : List u16 :=
  [BPF_LD ||| BPF_W ||| BPF_LEN, BPF_LDX ||| BPF_W ||| BPF_LEN, BPF_LD ||| BPF_IMM, BPF_LDX ||| BPF_IMM,
    BPF_MISC ||| BPF_TAX, BPF_MISC ||| BPF_TXA, BPF_RET ||| BPF_K, BPF_RET ||| BPF_A]

def bpf_mem_codes : List u16 := [BPF_LD ||| BPF_MEM, BPF_LDX ||| BPF_MEM, BPF_ST, BPF_STX]

def bpf_alu_codes : List u16 :=
  [BPF_ALU ||| BPF_ADD ||| BPF_K, BPF_ALU ||| BPF_ADD ||| BPF_X,
    BPF_ALU ||| BPF_SUB ||| BPF_K, BPF_ALU ||| BPF_SUB ||| BPF_X,
    BPF_ALU ||| BPF_MUL ||| BPF_K, BPF_ALU ||| BPF_MUL ||| BPF_X,
    BPF_ALU ||| BPF_DIV ||| BPF_K, BPF_ALU ||| BPF_DIV ||| BPF_X,
    BPF_ALU ||| BPF_AND ||| BPF_K, BPF_ALU ||| BPF_AND ||| BPF_X,
    BPF_ALU ||| BPF_OR ||| BPF_K, BPF_ALU ||| BPF_OR ||| BPF_X,
    BPF_ALU ||| BPF_XOR ||| BPF_K, BPF_ALU ||| BPF_XOR ||| BPF_X,
    BPF_ALU ||| BPF_LSH ||| BPF_K, BPF_ALU ||| BPF_LSH ||| BPF_X,
    BPF_ALU ||| BPF_RSH ||| BPF_K, BPF_ALU ||| BPF_RSH ||| BPF_X,
    BPF_ALU ||| BPF_NEG]

def bpf_jmp_codes : List u16 :=
  [BPF_JMP ||| BPF_JEQ ||| BPF_K, BPF_JMP ||| BPF_JEQ ||| BPF_X,
    BPF_JMP ||| BPF_JGT ||| BPF_K, BPF_JMP ||| BPF_JGT ||| BPF_X,
    BPF_JMP ||| BPF_JGE ||| BPF_K, BPF_JMP ||| BPF_JGE ||| BPF_X,
    BPF_JMP ||| BPF_JSET ||| BPF_K, BPF_JMP ||| BPF_JSET ||| BPF_X]

/-- What `bpf_validate` asks of one instruction. -/
def bpf_insn_ok (len pc : Nat) (f : GSockFilter) : Bool :=
  if f.code = BPF_LD ||| BPF_W ||| BPF_ABS then
    -- loads may only reach seccomp_data, 32-bit aligned
    !(decide (SECCOMP_DATA_SIZE ≤ f.k.toNat) || decide (f.k &&& 3#32 ≠ 0#32))
  else if f.code ∈ bpf_plain_codes then true
  else if f.code ∈ bpf_mem_codes then !decide (BPF_MEMWORDS ≤ f.k.toNat)
  else if f.code ∈ bpf_alu_codes then
    if (f.code = BPF_ALU ||| BPF_LSH ||| BPF_K ∨ f.code = BPF_ALU ||| BPF_RSH ||| BPF_K) ∧ 32 ≤ f.k.toNat then
      false
    else !(decide (f.code = BPF_ALU ||| BPF_DIV ||| BPF_K) && decide (f.k = 0#32))
  else if f.code = BPF_JMP ||| BPF_JA then !decide (len - pc - 1 ≤ f.k.toNat)
  else if f.code ∈ bpf_jmp_codes then
    !(decide (len - pc - 1 ≤ f.jt.toNat) || decide (len - pc - 1 ≤ f.jf.toNat))
  else false

instance decidableJmpCode (code : u16) : Decidable (code ∈ bpf_jmp_codes) := inferInstance

/-- The loop of `bpf_validate` over the instructions from `pc` on. -/
def bpf_insns_ok (len : Nat) : Nat → List GSockFilter → Bool
  | _, [] => true
  | pc, f :: fs => bpf_insn_ok len pc f && bpf_insns_ok len (pc + 1) fs

/-- The check a filter must pass before it is installed. -/
def bpf_validate (f : List GSockFilter) : Int :=
  if f.length = 0 ∨ G_BPF_MAXINSNS < f.length then -EINVAL
  else if bpf_insns_ok f.length 0 f then
    match f.getLast? with
    | some i => if BPF_CLASS i.code = BPF_RET then 0 else -EINVAL
    | none => -EINVAL
  else -EINVAL

def ebpf_insn_len (f : GSockFilter) : Nat :=
  let cls := BPF_CLASS f.code
  if cls = BPF_ALU then
    if f.code = BPF_ALU ||| BPF_DIV ||| BPF_X then 5 else 1
  else if cls = BPF_JMP then
    if BPF_OP f.code = BPF_JA then 1
    else
      (if BPF_SRC f.code = BPF_K ∧ f.k.msb then 1 else 0) +
        (if f.jf = 0#8 then 1 else if f.jt = 0#8 ∧ BPF_OP f.code ≠ BPF_JSET then 1 else 2)
  else if cls = BPF_RET then
    if f.code &&& 0x18#16 = BPF_K then 2 else 1
  else 1

/-- `ebpf_len`: the length of the kernel's conversion, which the chain budget
counts. -/
def ebpf_len (f : List GSockFilter) : Nat := (f.map ebpf_insn_len).foldl (· + ·) 3

/-- The bytes of `struct seccomp_data` on a little-endian host. -/
def GSeccompData.bytes (d : GSeccompData) (i : Nat) : u8 :=
  if i < 4 then d.nr.extractLsb' (8 * i) 8
  else if i < 8 then d.arch.extractLsb' (8 * (i - 4)) 8
  else if i < 16 then d.instruction_pointer.extractLsb' (8 * (i - 8)) 8
  else if h : (i - 16) / 8 < 6 then (d.args ⟨(i - 16) / 8, h⟩).extractLsb' (8 * ((i - 16) % 8)) 8
  else 0#8

/-- `memcpy(&A, data + k, 4)`; nothing when it would read past the structure. -/
def GSeccompData.load (d : GSeccompData) (k : Nat) : Option u32 :=
  if k + 4 ≤ SECCOMP_DATA_SIZE then
    some (d.bytes (k + 3) ++ d.bytes (k + 2) ++ d.bytes (k + 1) ++ d.bytes k)
  else none

/-- The registers and scratch words of a run. -/
structure BpfState where
  pc : Nat := 0
  A : u32 := 0#32
  X : u32 := 0#32
  mem : Vector u32 16 := Vector.replicate 16 0#32

/-- How one turn of the loop of `bpf_run` ends: with the locals of the next turn, with a value to return, or with an
access that C leaves undefined. -/
inductive BpfStep where
  | next (s : BpfState)
  | ret (v : u32)
  | divzero
  | fault

/-- The loop's `pc++` after a jump of `off`, in 32 bits. -/
def BpfState.goto (s : BpfState) (off : Nat) : BpfState := { s with pc := (s.pc + off + 1) % 2 ^ 32 }

def BpfState.advance (s : BpfState) : BpfState := s.goto 0

/-- The `switch` on the operation of a `BPF_ALU` instruction other than a
division, for the operand `v`. -/
def bpf_alu (code : u16) (A v : u32) : u32 :=
  let op := BPF_OP code
  if op = BPF_ADD then A + v
  else if op = BPF_SUB then A - v
  else if op = BPF_MUL then A * v
  else if op = BPF_AND then A &&& v
  else if op = BPF_OR then A ||| v
  else if op = BPF_XOR then A ^^^ v
  else if op = BPF_LSH then A <<< (v &&& 31#32).toNat
  else if op = BPF_RSH then A >>> (v &&& 31#32).toNat
  else if op = BPF_NEG then 0#32 - A
  else A

def bpf_test (code : u16) (A v : u32) : Bool :=
  let op := BPF_OP code
  if op = BPF_JEQ then decide (A = v)
  else if op = BPF_JGT then decide (v < A)
  else if op = BPF_JGE then decide (v ≤ A)
  else if op = BPF_JSET then decide (A &&& v ≠ 0#32)
  else false

def bpf_src (f : GSockFilter) (s : BpfState) : u32 := if BPF_SRC f.code = BPF_X then s.X else f.k

def bpf_ld (d : GSeccompData) (f : GSockFilter) (s : BpfState) : BpfStep :=
  if BPF_MODE f.code = BPF_ABS then
    match d.load f.k.toNat with
    | some v => .next { s.advance with A := v }
    | none => .fault
  else if BPF_MODE f.code = BPF_IMM then .next { s.advance with A := f.k }
  else if BPF_MODE f.code = BPF_MEM then
    match s.mem[f.k.toNat]? with
    | some v => .next { s.advance with A := v }
    | none => .fault
  else .next { s.advance with A := BitVec.ofNat 32 SECCOMP_DATA_SIZE }

def bpf_ldx (f : GSockFilter) (s : BpfState) : BpfStep :=
  if BPF_MODE f.code = BPF_IMM then .next { s.advance with X := f.k }
  else if BPF_MODE f.code = BPF_MEM then
    match s.mem[f.k.toNat]? with
    | some v => .next { s.advance with X := v }
    | none => .fault
  else .next { s.advance with X := BitVec.ofNat 32 SECCOMP_DATA_SIZE }

def bpf_st (f : GSockFilter) (s : BpfState) (v : u32) : BpfStep :=
  if h : f.k.toNat < 16 then .next { s.advance with mem := s.mem.set f.k.toNat v h } else .fault

/-- One instruction. -/
def bpf_step (d : GSeccompData) (f : GSockFilter) (s : BpfState) : BpfStep :=
  let cls := BPF_CLASS f.code
  if cls = BPF_LD then bpf_ld d f s
  else if cls = BPF_LDX then bpf_ldx f s
  else if cls = BPF_ST then bpf_st f s s.A
  else if cls = BPF_STX then bpf_st f s s.X
  else if cls = BPF_ALU then
    if BPF_OP f.code = BPF_DIV then
      if bpf_src f s = 0#32 then .divzero else .next { s.advance with A := s.A / bpf_src f s }
    else .next { s.advance with A := bpf_alu f.code s.A (bpf_src f s) }
  else if cls = BPF_JMP then
    if BPF_OP f.code = BPF_JA then .next (s.goto f.k.toNat)
    else .next (s.goto (if bpf_test f.code s.A (bpf_src f s) then f.jt.toNat else f.jf.toNat))
  else if cls = BPF_RET then .ret (if f.code &&& BPF_A ≠ 0#16 then s.A else f.k)
  else if f.code &&& 0xf8#16 = BPF_TAX then .next { s.advance with X := s.A }
  else .next { s.advance with A := s.X }

inductive BpfEnd where
  | ret (s : BpfState) (v : u32)
  | divzero (s : BpfState)
  | fault (s : BpfState)
  | left (s : BpfState)

/-- The run, over at most as many steps as given. -/
def bpf_loop (f : List GSockFilter) (d : GSeccompData) : Nat → BpfState → Option BpfEnd
  | n, s =>
    match f[s.pc]? with
    | none => some (.left s)
    | some i =>
      match n with
      | 0 => none
      | n + 1 =>
        match bpf_step d i s with
        | .next s => bpf_loop f d n s
        | .ret v => some (.ret s v)
        | .divzero => some (.divzero s)
        | .fault => some (.fault s)

/-- `bpf_run`, for the programs `bpf_validate` accepts: no such program takes
more turns than it has instructions. -/
def bpf_run (f : List GSockFilter) (d : GSeccompData) : u32 :=
  match bpf_loop f d f.length {} with
  | some (.ret _ v) => v
  | _ => 0#32

end arm64emu
