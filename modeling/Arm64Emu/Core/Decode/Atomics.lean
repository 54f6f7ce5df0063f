import Arm64Emu.Mem.Access
import Arm64Emu.Core.Decode.Helpers

namespace arm64emu

/-- An unaligned or unmapped atomic, reported as a data abort. -/
def atomic_align_fault (c : CPU) (va : u64) (write : Bool) : CPU :=
  cpu_raise_sync c (esr_make EC_DABORT_LOWER (iss_dabort write FSC_ALIGN)) va

def atomic_trans_fault (c : CPU) (va : u64) (write : Bool) : CPU :=
  cpu_raise_sync c (esr_make EC_DABORT_LOWER (iss_dabort write FSC_TRANS_L3)) va

def put_host (c : CPU) (p bytes : Nat) (v : u64) : CPU := { c with mem := st_le c.mem p bytes v }

/-- What LD<op> and SWP store, given the old value of `bytes` bytes and the
operand; only the low bytes of the result are written. -/
def lse_rmw (o3 : Bool) (opc bytes : Nat) (old operand : u64) : u64 :=
  let w := 8 * bytes
  let opnd := operand &&& ones w
  if o3 && opc == 0 then opnd
  else match opc with
    | 0 => old + opnd
    | 1 => old &&& ~~~opnd
    | 2 => old ^^^ opnd
    | 3 => old ||| opnd
    | 4 => if (sign_extend opnd w).slt (sign_extend old w) then old else opnd
    | 5 => if (sign_extend old w).slt (sign_extend opnd w) then old else opnd
    | 6 => if opnd < old then old else opnd
    | _ => if old < opnd then old else opnd

/-- LSE atomic memory operations; each is one indivisible step. -/
def ldst_atomic (pg : Pager) (c : CPU) (insn : u32) : CPU :=
  let size := BITS insn 31 30
  let Rs := BITS insn 20 16
  let o3 := BIT insn 15
  let opc := BITS insn 14 12
  let Rn := BITS insn 9 5
  let Rt := BITS insn 4 0
  let bytes := 2 ^ size
  if o3 ∧ opc ≠ 0 then
    if opc = 4 then
      match mem_read pg c (reg_xsp c Rn) bytes with
      | .ok v c => set_x c Rt v
      | .fault c => c
    else undefined c
  else
    let va := reg_xsp c Rn
    let operand := reg_x c Rs
    if va.toNat % bytes ≠ 0 then atomic_align_fault c va true
    else
      match mem_host_ptr pg c va bytes .w with
      | (c, none) =>
        match mem_host_ptr pg c va bytes .r with
        | (c, some _) => atomic_align_fault c va true
        | (c, none) => atomic_trans_fault c va true
      | (c, some hp) =>
        let old := ld_le c.mem hp bytes
        set_x (put_host c hp bytes (lse_rmw o3 opc bytes old operand)) Rt old

/-- `CAS` and `CASP`: compare, and store if equal. -/
def ldst_cas (pg : Pager) (c : CPU) (insn : u32) : CPU :=
  let bytes := 2 ^ BITS insn 31 30
  let Rs := BITS insn 20 16
  let Rn := BITS insn 9 5
  let Rt := BITS insn 4 0
  let va := reg_xsp c Rn
  if va.toNat % bytes ≠ 0 then atomic_align_fault c va true
  else
    match mem_host_ptr pg c va bytes .w with
    | (c, none) => atomic_trans_fault c va true
    | (c, some hp) =>
      let old := ld_le c.mem hp bytes
      let c' := if old = reg_x c Rs &&& ones (8 * bytes) then put_host c hp bytes (reg_x c Rt) else c
      set_x c' Rs old

/-- CASP: two words or two doublewords, as a 64-bit host does it. The second
register of a pair is the next number, whatever the first is. -/
def ldst_casp (pg : Pager) (c : CPU) (insn : u32) : CPU :=
  let sz := BIT insn 30
  let Rs := BITS insn 20 16
  let Rn := BITS insn 9 5
  let Rt := BITS insn 4 0
  let esz := if sz then 8 else 4
  let va := reg_xsp c Rn
  if va.toNat % (2 * esz) ≠ 0 then atomic_align_fault c va true
  else
    match mem_host_ptr pg c va (2 * esz) .w with
    | (c, none) => atomic_trans_fault c va true
    | (c, some hp) =>
      let lo := ld_le c.mem hp esz
      let hi := ld_le c.mem (hp + esz) esz
      let mask := ones (8 * esz)
      let c' :=
        if lo = reg_x c Rs &&& mask ∧ hi = reg_x c (Rs + 1) &&& mask then
          put_host (put_host c hp esz (reg_x c Rt)) (hp + esz) esz (reg_x c (Rt + 1))
        else c
      set_x (set_x c' Rs lo) (Rs + 1) hi

/-- LDAR and STLR: a host atomic access where one page holds the bytes. -/
def ldst_ordered (pg : Pager) (c : CPU) (va : u64) (bytes Rt : Nat) (L : Bool) : CPU :=
  match mem_host_ptr pg c va bytes (if L then .r else .w) with
  | (c, some hp) =>
    if L then set_x c Rt (ld_le c.mem hp bytes) else put_host c hp bytes (reg_x c Rt)
  | (c, none) =>
    if L then
      match mem_read pg c va bytes with
      | .ok v c => set_x c Rt v
      | .fault c => c
    else (mem_write pg c va bytes (reg_x c Rt)).cpu

def ldxr (pg : Pager) (c : CPU) (va : u64) (bytes Rt : Nat) : CPU :=
  match mem_read pg c va bytes with
  | .fault c => c
  | .ok v c =>
    { set_x c Rt v with excl_valid := true, excl_addr := va, excl_size := bytes, excl_val := v }

def monitor_holds (c : CPU) (va : u64) (size : Nat) : Bool :=
  c.excl_valid && c.excl_addr == va && c.excl_size == size

def stx_done (c : CPU) (Rs : Nat) (res : u64) : CPU := { set_x c Rs res with excl_valid := false }

/-- A store exclusive, which fails unless the monitor covers its bytes. -/
def stxr (pg : Pager) (c : CPU) (va : u64) (bytes Rs Rt : Nat) : CPU :=
  if monitor_holds c va bytes then
    match mem_host_ptr pg c va bytes .w with
    | (c, some hp) =>
      if ld_le c.mem hp bytes = c.excl_val &&& ones (8 * bytes) then
        stx_done (put_host c hp bytes (reg_x c Rt)) Rs 0#64
      else stx_done c Rs 1#64
    | (c, none) =>
      match mem_write pg c va bytes (reg_x c Rt) with
      | .ok _ c => stx_done c Rs 0#64
      | .fault c => c
  else stx_done c Rs 1#64

/-- A load exclusive of a pair. -/
def ldxp (pg : Pager) (c : CPU) (va : u64) (bytes Rt Rt2 : Nat) : CPU :=
  match mem_read pg c va bytes with
  | .fault c => c
  | .ok a c =>
    match mem_read pg c (va + BitVec.ofNat 64 bytes) bytes with
    | .fault c => c
    | .ok b c =>
      { set_x (set_x c Rt a) Rt2 b with
        excl_valid := true, excl_addr := va, excl_size := bytes * 2, excl_val := a, excl_val2 := b }

/-- STXP: one compare-and-swap of the pair. Every size but 8 takes the path of
two 32-bit words. -/
def stxp (pg : Pager) (c : CPU) (va : u64) (bytes Rs Rt Rt2 : Nat) : CPU :=
  if monitor_holds c va (bytes * 2) then
    let esz := if bytes = 8 then 8 else 4
    match mem_host_ptr pg c va (2 * esz) .w with
    | (c, some hp) =>
      let mask := ones (8 * esz)
      if ld_le c.mem hp esz = c.excl_val &&& mask ∧
          ld_le c.mem (hp + esz) esz = c.excl_val2 &&& mask then
        stx_done (put_host (put_host c hp esz (reg_x c Rt)) (hp + esz) esz (reg_x c Rt2)) Rs 0#64
      else stx_done c Rs 1#64
    | (c, none) => stx_done c Rs 1#64
  else stx_done c Rs 1#64

/-- The exclusive and ordered accesses, by the fields of the word. -/
def ldst_exclusive (pg : Pager) (c : CPU) (insn : u32) : CPU :=
  let size := BITS insn 31 30
  let o2 := BIT insn 23
  let L := BIT insn 22
  let o1 := BIT insn 21
  let Rs := BITS insn 20 16
  let Rt2 := BITS insn 14 10
  let Rn := BITS insn 9 5
  let Rt := BITS insn 4 0
  let bytes := 2 ^ size
  let va := reg_xsp c Rn
  if o2 && o1 then ldst_cas pg c insn
  else if !o2 && o1 && !BIT insn 31 then ldst_casp pg c insn
  else if o2 then ldst_ordered pg c va bytes Rt L
  else if !o1 then (if L then ldxr pg c va bytes Rt else stxr pg c va bytes Rs Rt)
  else if L then ldxp pg c va bytes Rt Rt2
  else stxp pg c va bytes Rs Rt Rt2

end arm64emu
