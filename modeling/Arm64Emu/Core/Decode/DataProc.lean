import Arm64Emu.Core.Decode.Helpers

namespace arm64emu

def adr_imm (insn : u32) : u64 :=
  sign_extend ((BitVec.ofNat 64 (BITS insn 23 5) <<< 2) ||| BitVec.ofNat 64 (BITS insn 30 29)) 21

def addsub_imm (insn : u32) : u64 :=
  let imm := BitVec.ofNat 64 (BITS insn 21 10)
  if BIT insn 22 then imm <<< 12 else imm

def logical_op (opc : Nat) (n op2 : u64) : u64 :=
  match opc with
  | 0 => n &&& op2
  | 1 => n ||| op2
  | 2 => n ^^^ op2
  | _ => n &&& op2

/-- `SBFM`, `BFM` and `UBFM`. -/
def dp_bitfield (c : CPU) (insn : u32) : CPU :=
  let sf := BIT insn 31
  let Rd := BITS insn 4 0
  let Rn := BITS insn 9 5
  let opc := BITS insn 30 29
  let N := BITS insn 22 22
  let immr := BITS insn 21 16
  let imms := BITS insn 15 10
  if opc = 3 ∨ N ≠ sf.toNat then undefined c
  else
    match decode_bitmasks N imms immr sf with
    | none => undefined c
    | some (wmask, tmask) =>
      let src := reg_x c Rn
      let ror := ror_within src immr (if sf then 64 else 32)
      let bot := if opc = 1 then (reg_x c Rd &&& ~~~wmask) ||| (ror &&& wmask) else ror &&& wmask
      let top :=
        if opc = 0 then (if src.getLsbD imms then BitVec.allOnes 64 else 0#64)
        else if opc = 2 then 0#64
        else reg_x c Rd
      set_x_sz c Rd sf ((top &&& ~~~tmask) ||| (bot &&& tmask))

/-- The extract from a pair of registers. -/
def extr (hi lo : u64) (lsb : Nat) (sf : Bool) : u64 :=
  if sf then (if lsb = 0 then lo else (hi <<< (64 - lsb)) ||| (lo >>> lsb))
  else
    let h := hi.setWidth 32
    let l := lo.setWidth 32
    (if lsb = 0 then l else (h <<< (32 - lsb)) ||| (l >>> lsb)).setWidth 64

def dp_adr (c : CPU) (insn : u32) : CPU :=
  if !BIT insn 31 then set_x c (BITS insn 4 0) (c.cur_insn_pc + adr_imm insn)
  else set_x c (BITS insn 4 0) ((c.cur_insn_pc &&& ~~~0xfff#64) + (adr_imm insn <<< 12))

def dp_addsub_imm (c : CPU) (insn : u32) : CPU :=
  let sf := BIT insn 31
  let Rd := BITS insn 4 0
  let op := BIT insn 30
  let S := BIT insn 29
  let imm := addsub_imm insn
  let n := reg_xsp c (BITS insn 9 5)
  let (r, fl) := if op then add_with_carry n (~~~imm) true sf else add_with_carry n imm false sf
  if S then set_x_sz { c with nzcv := fl } Rd sf r
  else set_xsp c Rd (if sf then r else trunc32 r)

def dp_logical_imm (c : CPU) (insn : u32) : CPU :=
  let sf := BIT insn 31
  let Rd := BITS insn 4 0
  let opc := BITS insn 30 29
  match decode_bitmasks (BITS insn 22 22) (BITS insn 15 10) (BITS insn 21 16) sf with
  | none => undefined c
  | some (wmask, _) =>
    let r := logical_op opc (reg_x c (BITS insn 9 5)) wmask
    let r := if sf then r else trunc32 r
    if opc = 3 then set_x (set_logical_flags c r sf) Rd r else set_xsp c Rd r

def dp_move_wide (c : CPU) (insn : u32) : CPU :=
  let sf := BIT insn 31
  let Rd := BITS insn 4 0
  let hw := BITS insn 22 21
  let imm16 := BitVec.ofNat 64 (BITS insn 20 5)
  if !sf && decide (2 ≤ hw) then undefined c
  else
    let shift := hw * 16
    match BITS insn 30 29 with
    | 0 => set_x_sz c Rd sf (~~~(imm16 <<< shift))
    | 2 => set_x_sz c Rd sf (imm16 <<< shift)
    | 3 => set_x_sz c Rd sf ((reg_x c Rd &&& ~~~(0xffff#64 <<< shift)) ||| (imm16 <<< shift))
    | _ => undefined c

def dp_extract (c : CPU) (insn : u32) : CPU :=
  let sf := BIT insn 31
  let imms := BITS insn 15 10
  if BITS insn 30 29 ≠ 0 ∨ BIT insn 22 ≠ sf ∨ BIT insn 21 = true ∨ (sf = false ∧ 32 ≤ imms) then
    undefined c
  else
    set_x_sz c (BITS insn 4 0) sf
      (extr (reg_x c (BITS insn 9 5)) (reg_x c (BITS insn 20 16)) imms sf)

/-- The data-processing class with an immediate. -/
def dp_immediate (c : CPU) (insn : u32) : CPU :=
  match BITS insn 28 23 with
  | 0x20 | 0x21 => dp_adr c insn
  | 0x22 => dp_addsub_imm c insn
  | 0x24 => dp_logical_imm c insn
  | 0x25 => dp_move_wide c insn
  | 0x26 => dp_bitfield c insn
  | 0x27 => dp_extract c insn
  | _ => undefined c

/-- 3-source arithmetic by `op31:o0`; `none` where the word is unallocated. -/
def dp3_value (key : Nat) (n m a : u64) : Option u64 :=
  match key with
  | 0x0 => some (a + n * m)
  | 0x1 => some (a - n * m)
  | 0x2 => some (a + sext32 n * sext32 m)
  | 0x3 => some (a - sext32 n * sext32 m)
  | 0x4 => some (smulh64 n m)
  | 0xa => some (a + trunc32 n * trunc32 m)
  | 0xb => some (a - trunc32 n * trunc32 m)
  | 0xc => some (umulh64 n m)
  | _ => none

def rbit (n : u64) (sf : Bool) : u64 :=
  let w := if sf then 64 else 32
  (List.range w).foldl (fun o i => if n.getLsbD i then o ||| (1#64 <<< (w - 1 - i)) else o) 0#64

def rev16 (n : u64) (sf : Bool) : u64 :=
  let w := if sf then 4 else 2
  (List.range w).foldl (fun o k =>
    let i := 2 * k
    let o := o ||| ((n >>> (i * 8)) &&& 0xff#64) <<< ((i + 1) * 8)
    o ||| ((n >>> ((i + 1) * 8)) &&& 0xff#64) <<< (i * 8)) 0#64

def rev32 (n : u64) : u64 :=
  (bswap32 (n.setWidth 32)).setWidth 64 |||
    ((bswap32 ((n >>> 32).setWidth 32)).setWidth 64 <<< 32)

/-- Leading bits below the sign bit that equal it, from bit `i` down. -/
def cls_from (v : u64) (sign : Bool) : Nat → Nat
  | 0 => 0
  | i + 1 => if v.getLsbD i = sign then cls_from v sign i + 1 else 0

/-- The operations of one source. -/
def dp1_value (opcode : Nat) (n : u64) (sf : Bool) : Option u64 :=
  match opcode with
  | 0x00 => some (rbit n sf)
  | 0x01 => some (rev16 n sf)
  | 0x02 => some (if sf then rev32 n else (bswap32 (n.setWidth 32)).setWidth 64)
  | 0x03 => some (bswap64 n)
  | 0x04 => some (
      if sf then (if n = 0#64 then 64#64 else BitVec.ofNat 64 (clz 64 n.toNat))
      else (if trunc32 n = 0#64 then 32#64 else BitVec.ofNat 64 (clz 32 (trunc32 n).toNat)))
  | 0x05 =>
      let w := if sf then 64 else 32
      some (BitVec.ofNat 64 (cls_from n (n.getLsbD (w - 1)) (w - 1)))
  | _ => none

/-- Division by zero gives zero. -/
def udiv (n m : u64) (sf : Bool) : u64 :=
  if sf then (if m = 0#64 then 0#64 else n / m)
  else
    let a := n.setWidth 32
    let b := m.setWidth 32
    (if b = 0#32 then 0#32 else a / b).setWidth 64

/-- Signed division, where the least value over -1 is itself. -/
def sdiv (n m : u64) (sf : Bool) : u64 :=
  if sf then
    if m = 0#64 then 0#64
    else if m = BitVec.allOnes 64 ∧ n = BitVec.intMin 64 then n else n.sdiv m
  else
    let a := n.setWidth 32
    let b := m.setWidth 32
    (if b = 0#32 then 0#32
      else if b = BitVec.allOnes 32 ∧ a = BitVec.intMin 32 then a else a.sdiv b).setWidth 64

def CRC32_POLY : u32 := 0xEDB88320#32
def CRC32C_POLY : u32 := 0x82F63B78#32

/-- The operations of two sources. -/
def dp2_value (opcode : Nat) (n m : u64) (sf : Bool) : Option u64 :=
  let crc (bytes : Nat) (poly : u32) : u64 :=
    (crc32_step (n.setWidth 32) m bytes poly).setWidth 64
  match opcode with
  | 0x02 => some (udiv n m sf)
  | 0x03 => some (sdiv n m sf)
  | 0x08 => some (shift_reg n 0 (m.toNat % 2 ^ 32) sf)
  | 0x09 => some (shift_reg n 1 (m.toNat % 2 ^ 32) sf)
  | 0x0a => some (shift_reg n 2 (m.toNat % 2 ^ 32) sf)
  | 0x0b => some (shift_reg n 3 (m.toNat % 2 ^ 32) sf)
  | 0x10 => some (crc 1 CRC32_POLY)
  | 0x11 => some (crc 2 CRC32_POLY)
  | 0x12 => some (crc 4 CRC32_POLY)
  | 0x13 => some (crc 8 CRC32_POLY)
  | 0x14 => some (crc 1 CRC32C_POLY)
  | 0x15 => some (crc 2 CRC32C_POLY)
  | 0x16 => some (crc 4 CRC32C_POLY)
  | 0x17 => some (crc 8 CRC32C_POLY)
  | _ => none

/-- Write a computed value, or raise UNDEFINED where there is none. -/
def set_or_undef (c : CPU) (Rd : Nat) (sf : Bool) (r : Option u64) : CPU :=
  match r with
  | some v => set_x_sz c Rd sf v
  | none => undefined c

/-- `ADC`, `SBC` and the flag operations beside them. -/
def dp_carry (c : CPU) (insn : u32) : CPU :=
  let sf := BIT insn 31
  let Rd := BITS insn 4 0
  let Rn := BITS insn 9 5
  let Rm := BITS insn 20 16
  if BITS insn 15 10 = 0 then
    let cin := flag c.nzcv PS_C
    let m := reg_x c Rm
    let n := reg_x c Rn
    let (r, fl) := if BIT insn 30 then add_with_carry n (~~~m) cin sf else add_with_carry n m cin sf
    set_x_sz (if BIT insn 29 then { c with nzcv := fl } else c) Rd sf r
  else if BIT insn 31 ∧ !BIT insn 30 ∧ BIT insn 29 ∧ BITS insn 14 10 = 1 ∧ !BIT insn 4 then
    let t := ror64 (reg_x c Rn) (BITS insn 20 15)
    let mask := BitVec.ofNat 32 (BITS insn 3 0)
    let nib := ((c.nzcv >>> 28) &&& ~~~mask) ||| (t.setWidth 32 &&& mask)
    { c with nzcv := nib <<< 28 }
  else if !BIT insn 31 ∧ !BIT insn 30 ∧ BIT insn 29 ∧ BITS insn 20 16 = 0 ∧
      (BITS insn 15 10 = 0x02 ∨ BITS insn 15 10 = 0x12) ∧ BITS insn 4 0 = 0x0d then
    let msb := if BIT insn 14 then 15 else 7
    let w := reg_x c Rn
    let v := w.getLsbD (msb + 1) ^^ w.getLsbD msb
    let f := mk_nzcv (w.getLsbD msb) (w &&& ones (msb + 1) == 0#64) false v
    { c with nzcv := (c.nzcv &&& PS_C) ||| f }
  else undefined c

def nzcv_of_imm (nzcv : Nat) : u32 :=
  mk_nzcv (nzcv.testBit 3) (nzcv.testBit 2) (nzcv.testBit 1) (nzcv.testBit 0)

def dp_logical_reg (c : CPU) (insn : u32) : CPU :=
  let sf := BIT insn 31
  let opc := BITS insn 30 29
  let imm6 := BITS insn 15 10
  if !sf && decide (32 ≤ imm6) then undefined c
  else
    let op2 := shift_reg (reg_x c (BITS insn 20 16)) (BITS insn 23 22) imm6 sf
    let op2 := if BIT insn 21 then ~~~op2 else op2
    let r := logical_op opc (reg_x c (BITS insn 9 5)) op2
    let r := if sf then r else trunc32 r
    set_x (if opc = 3 then set_logical_flags c r sf else c) (BITS insn 4 0) r

/-- Second and first operand of add/sub register, extended or shifted; `none`
where the word is unallocated. -/
def addsub_operands (c : CPU) (insn : u32) : Option (u64 × u64) :=
  let Rn := BITS insn 9 5
  let Rm := BITS insn 20 16
  if BIT insn 21 then
    let imm3 := BITS insn 12 10
    if 4 < imm3 ∨ BITS insn 23 22 ≠ 0 then none
    else some (extend_reg (reg_x c Rm) (BITS insn 15 13) imm3, reg_xsp c Rn)
  else
    let shift := BITS insn 23 22
    let imm6 := BITS insn 15 10
    if shift = 3 ∨ (BIT insn 31 = false ∧ 32 ≤ imm6) then none
    else some (shift_reg (reg_x c Rm) shift imm6 (BIT insn 31), reg_x c Rn)

def dp_addsub_reg (c : CPU) (insn : u32) : CPU :=
  let sf := BIT insn 31
  let Rd := BITS insn 4 0
  match addsub_operands c insn with
  | none => undefined c
  | some (op2, n) =>
    let (r, fl) :=
      if BIT insn 30 then add_with_carry n (~~~op2) true sf else add_with_carry n op2 false sf
    if BIT insn 29 then set_x_sz { c with nzcv := fl } Rd sf r
    else if BIT insn 21 then set_xsp c Rd (if sf then r else trunc32 r)
    else set_x_sz c Rd sf r

/-- The multiplications. -/
def dp_3source (c : CPU) (insn : u32) : CPU :=
  let sf := BIT insn 31
  let op31 := BITS insn 23 21
  if BITS insn 30 29 ≠ 0 then undefined c
  else if sf = false ∧ op31 ≠ 0 then undefined c
  else set_or_undef c (BITS insn 4 0) sf
    (dp3_value (op31 * 2 + BITS insn 15 15) (reg_x c (BITS insn 9 5)) (reg_x c (BITS insn 20 16))
      (reg_x c (BITS insn 14 10)))

/-- The conditional comparisons. -/
def dp_ccmp (c : CPU) (insn : u32) : CPU :=
  let sf := BIT insn 31
  if !BIT insn 29 ∨ BIT insn 10 ∨ BIT insn 4 then undefined c
  else
    let n := reg_x c (BITS insn 9 5)
    let m := if BIT insn 11 then BitVec.ofNat 64 (BITS insn 20 16) else reg_x c (BITS insn 20 16)
    if cond_holds c (BITS insn 15 12) then
      let fl :=
        if BIT insn 30 then (add_with_carry n (~~~m) true sf).2 else (add_with_carry n m false sf).2
      { c with nzcv := fl }
    else { c with nzcv := nzcv_of_imm (BITS insn 3 0) }

/-- The conditional selections. -/
def dp_csel (c : CPU) (insn : u32) : CPU :=
  if BIT insn 29 ∨ BIT insn 11 then undefined c
  else
    let m := reg_x c (BITS insn 20 16)
    let r :=
      if cond_holds c (BITS insn 15 12) then reg_x c (BITS insn 9 5)
      else match BIT insn 30, BIT insn 10 with
        | false, false => m
        | false, true => m + 1#64
        | true, false => ~~~m
        | true, true => 0#64 - m
    set_x_sz c (BITS insn 4 0) (BIT insn 31) r

def dp_12source (c : CPU) (insn : u32) : CPU :=
  let sf := BIT insn 31
  let opcode := BITS insn 15 10
  let n := reg_x c (BITS insn 9 5)
  if BIT insn 30 then set_or_undef c (BITS insn 4 0) sf (dp1_value opcode n sf)
  else set_or_undef c (BITS insn 4 0) sf (dp2_value opcode n (reg_x c (BITS insn 20 16)) sf)

/-- The data-processing class with registers. -/
def dp_register (c : CPU) (insn : u32) : CPU :=
  match BITS insn 28 24 with
  | 0x0a => dp_logical_reg c insn
  | 0x0b => dp_addsub_reg c insn
  | 0x1b => dp_3source c insn
  | 0x1a =>
    match BITS insn 28 21 with
    | 0xd0 => dp_carry c insn
    | 0xd2 => dp_ccmp c insn
    | 0xd4 => dp_csel c insn
    | 0xd6 => dp_12source c insn
    | _ => undefined c
  | _ => undefined c

end arm64emu
