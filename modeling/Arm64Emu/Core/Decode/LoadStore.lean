import Arm64Emu.Core.Decode.Atomics
import Arm64Emu.Core.Decode.Mops

namespace arm64emu

def ldst_extended_offset (c : CPU) (insn : u32) (size : Nat) : u64 :=
  extend_reg (reg_x c (BITS insn 20 16)) (BITS insn 15 13) (if BIT insn 12 then size else 0)

/-- `do_load`: the size and `opc` select zero or sign extension and the width
of the result; PRFM touches nothing. -/
def do_load (pg : Pager) (c : CPU) (Rt : Nat) (va : u64) (size opc : Nat) : Access Unit :=
  if opc = 2 ∧ size = 3 then .ok () c
  else
    (mem_read pg c va (2 ^ size)).bind fun raw c =>
      let val := if opc = 2 ∨ opc = 3 then sign_extend raw (2 ^ size * 8) else raw
      let ext64 := if opc = 2 then true else if opc = 3 then false else decide (size = 3)
      .ok () (set_x c Rt (if ext64 then val else trunc32 val))

def vreg_load (pg : Pager) (c : CPU) (Vt : Nat) (va : u64) (bytes : Nat) : Access Unit :=
  if bytes = 16 then (mem_read128 pg c va).bind fun val c => .ok () (set_v c Vt val)
  else (mem_read pg c va bytes).bind fun t c => .ok () (set_v c Vt (V128.ofD t 0#64))

def vreg_store (pg : Pager) (c : CPU) (Vt : Nat) (va : u64) (bytes : Nat) : Access Unit :=
  if bytes = 16 then mem_write128 pg c va (c.v Vt) else mem_write pg c va bytes (c.v Vt).d0

def ldst_rcpc_unscaled (pg : Pager) (c : CPU) (insn : u32) : CPU :=
  let size := BITS insn 31 30
  let opc := BITS insn 23 22
  let Rn := BITS insn 9 5
  let Rt := BITS insn 4 0
  if (opc = 2 ∧ size = 3) ∨ (opc = 3 ∧ 2 ≤ size) then undefined c
  else
    let va := reg_xsp c Rn + sign_extend (BitVec.ofNat 64 (BITS insn 20 12)) 9
    if opc = 0 then (mem_write pg c va (2 ^ size) (reg_x c Rt)).cpu
    else (do_load pg c Rt va size opc).cpu

def imm9 (insn : u32) : u64 := sign_extend (BitVec.ofNat 64 (BITS insn 20 12)) 9

/-- The access of `ldst_register` once its address is known, with the base
written back only after it succeeded. -/
def ldst_access (pg : Pager) (c : CPU) (insn : u32) (va : u64) (wb : Option u64) : CPU :=
  let size := BITS insn 31 30
  let opc := BITS insn 23 22
  let Rn := BITS insn 9 5
  let Rt := BITS insn 4 0
  if BIT insn 26 then
    let bytes := if 2 ≤ opc then 16 else 2 ^ size
    if opc % 2 = 1 then (vreg_load pg c Rt va bytes).writeback Rn wb
    else (vreg_store pg c Rt va bytes).writeback Rn wb
  else if opc = 3 ∧ 2 ≤ size then undefined c
  else if opc = 0 then (mem_write pg c va (2 ^ size) (reg_x c Rt)).writeback Rn wb
  else (do_load pg c Rt va size opc).writeback Rn wb

/-- The single-register accesses with an immediate or a register offset. -/
def ldst_register (pg : Pager) (c : CPU) (insn : u32) : CPU :=
  let size := BITS insn 31 30
  let opc := BITS insn 23 22
  let Rn := BITS insn 9 5
  let V := BIT insn 26
  let scale := if V then (if 2 ≤ opc then 4 else size) else size
  let base := reg_xsp c Rn
  if V ∧ 2 ≤ opc ∧ size ≠ 0 then undefined c
  else if BIT insn 24 then
    ldst_access pg c insn (base + (BitVec.ofNat 64 (BITS insn 21 10) <<< scale)) none
  else if BIT insn 21 then
    if BITS insn 11 10 = 0 ∧ V = false then ldst_atomic pg c insn
    else if BITS insn 11 10 ≠ 2 then undefined c
    else ldst_access pg c insn (base + ldst_extended_offset c insn scale) none
  else
    let mode := BITS insn 11 10
    if mode = 0 ∨ mode = 2 then
      if mode = 2 ∧ V then undefined c
      else ldst_access pg c insn (base + imm9 insn) none
    else if mode = 1 then ldst_access pg c insn base (some (base + imm9 insn))
    else ldst_access pg c insn (base + imm9 insn) (some (base + imm9 insn))

def imm7 (insn : u32) : u64 := sign_extend (BitVec.ofNat 64 (BITS insn 21 15)) 7

/-- The two accesses of a pair, with every register written only after both
loads have succeeded, except that a vector pair commits each element. -/
def ldst_pair_access (pg : Pager) (c : CPU) (V L signed_word : Bool) (Rt Rt2 : Nat) (addr : u64)
    (esz : Nat) : Access Unit :=
  let next := addr + BitVec.ofNat 64 esz
  if V then
    if L then (vreg_load pg c Rt addr esz).bind fun _ c => vreg_load pg c Rt2 next esz
    else (vreg_store pg c Rt addr esz).bind fun _ c => vreg_store pg c Rt2 next esz
  else if L then
    if esz = 8 then
      (mem_read128 pg c addr).bind fun v c => .ok () (set_x (set_x c Rt v.d0) Rt2 v.d1)
    else
      (mem_read pg c addr esz).bind fun a c => (mem_read pg c next esz).bind fun b c =>
        if signed_word then .ok () (set_x (set_x c Rt (sign_extend a 32)) Rt2 (sign_extend b 32))
        else .ok () (set_x (set_x c Rt (trunc32 a)) Rt2 (trunc32 b))
  else if esz = 8 then mem_write128 pg c addr (V128.ofD (reg_x c Rt) (reg_x c Rt2))
  else
    (mem_write pg c addr esz (reg_x c Rt)).bind fun _ c => mem_write pg c next esz (reg_x c Rt2)

/-- The pair accesses; a fault on the second element leaves the base as it was. -/
def ldst_pair (pg : Pager) (c : CPU) (insn : u32) : CPU :=
  let opc := BITS insn 31 30
  let V := BIT insn 26
  let mode := BITS insn 25 23
  let L := BIT insn 22
  let Rt2 := BITS insn 14 10
  let Rn := BITS insn 9 5
  let Rt := BITS insn 4 0
  if opc = 3 then undefined c
  else
    let scale := if V then opc + 2 else if opc = 2 then 3 else 2
    let signed_word := !V && opc == 1
    let offset := imm7 insn <<< scale
    let base := reg_xsp c Rn
    let access (addr : u64) (wb : Option u64) : CPU :=
      (ldst_pair_access pg c V L signed_word Rt Rt2 addr (2 ^ scale)).writeback Rn wb
    match mode with
    | 0 => access (base + offset) none
    | 1 => access base (some (base + offset))
    | 2 => access (base + offset) none
    | 3 => access (base + offset) (some (base + offset))
    | _ => undefined c

/-- Loads relative to the pc. -/
def ldst_literal (pg : Pager) (c : CPU) (insn : u32) : CPU :=
  let opc := BITS insn 31 30
  let Rt := BITS insn 4 0
  let va := c.cur_insn_pc + (sign_extend (BitVec.ofNat 64 (BITS insn 23 5)) 19 <<< 2)
  if BIT insn 26 then
    if opc = 3 then undefined c else (vreg_load pg c Rt va (4 * 2 ^ opc)).cpu
  else
    match opc with
    | 0 => ((mem_read pg c va 4).bind fun raw c => .ok () (set_x c Rt (trunc32 raw))).cpu
    | 1 => ((mem_read pg c va 8).bind fun raw c => .ok () (set_x c Rt raw)).cpu
    | 2 => ((mem_read pg c va 4).bind fun raw c => .ok () (set_x c Rt (sign_extend raw 32))).cpu
    | _ => c

def V128.set_bytes (v : V128) (off n : Nat) (t : u64) : V128 :=
  let mask : V128 := ((ones (8 * n)).setWidth 128) <<< (8 * off)
  (v &&& ~~~mask) ||| (((t &&& ones (8 * n)).setWidth 128) <<< (8 * off))

def V128.get_bytes (v : V128) (off n : Nat) : u64 := (v >>> (8 * off)).setWidth 64 &&& ones (8 * n)

/-- LD1/ST1 of whole registers: register `r` of `nregs` at `addr`, and on. -/
def ldst_contiguous (pg : Pager) (L : Bool) (Rt regbytes nregs : Nat) :
    Nat → CPU → u64 → Access Unit
  | 0, c, _ => .ok () c
  | k + 1, c, addr =>
    let vt := (Rt + (nregs - (k + 1))) % 32
    (if L then vreg_load pg c vt addr regbytes else vreg_store pg c vt addr regbytes).bind fun _ c =>
      ldst_contiguous pg L Rt regbytes nregs k c (addr + BitVec.ofNat 64 regbytes)

/-- LD2/3/4 and ST2/3/4, element by element and within it register by
register; `i` counts the elements transferred. -/
def ldst_interleaved (pg : Pager) (L : Bool) (Rt ebytes nregs : Nat) :
    Nat → Nat → CPU → u64 → Access Unit
  | 0, _, c, _ => .ok () c
  | k + 1, i, c, addr =>
    let vt := (Rt + i % nregs) % 32
    let off := i / nregs * ebytes
    let r :=
      if L then (mem_read pg c addr ebytes).bind fun t c =>
        .ok () (set_v c vt ((c.v vt).set_bytes off ebytes t))
      else mem_write pg c addr ebytes ((c.v vt).get_bytes off ebytes)
    r.bind fun _ c =>
      ldst_interleaved pg L Rt ebytes nregs k (i + 1) c (addr + BitVec.ofNat 64 ebytes)

def clear_regs (Rt : Nat) : Nat → CPU → CPU
  | 0, c => c
  | k + 1, c => set_v (clear_regs Rt k c) ((Rt + k) % 32) 0#128

/-- Register count and interleave factor of a multiple-structure opcode. -/
def vector_multi_shape (opcode : Nat) : Option (Nat × Nat) :=
  match opcode with
  | 0x0 => some (4, 4)
  | 0x2 => some (4, 1)
  | 0x4 => some (3, 3)
  | 0x6 => some (3, 1)
  | 0x7 => some (1, 1)
  | 0x8 => some (2, 2)
  | 0xa => some (2, 1)
  | _ => none

def vector_post (c : CPU) (insn : u32) (base : u64) (total : Nat) : CPU :=
  let Rm := BITS insn 20 16
  if BIT insn 23 then
    set_xsp c (BITS insn 9 5) (base + (if Rm = 31 then BitVec.ofNat 64 total else reg_x c Rm))
  else c

/-- `LD1`..`LD4` and `ST1`..`ST4` of whole registers. -/
def ldst_vector_multi (pg : Pager) (c : CPU) (insn : u32) : CPU :=
  let L := BIT insn 22
  let Rt := BITS insn 4 0
  match vector_multi_shape (BITS insn 15 12) with
  | none => undefined c
  | some (nregs, sel) =>
    let regbytes := if BIT insn 30 then 16 else 8
    let base := reg_xsp c (BITS insn 9 5)
    let r :=
      if sel = 1 then ldst_contiguous pg L Rt regbytes nregs nregs c base
      else
        let ebytes := 2 ^ BITS insn 11 10
        ldst_interleaved pg L Rt ebytes nregs (regbytes / ebytes * nregs) 0
          (if L then clear_regs Rt nregs c else c) base
    match r with
    | .fault c => c
    | .ok _ c => vector_post c insn base (nregs * regbytes)

/-- Element size and lane of a single-structure access; `none` for the
replicating loads. -/
inductive LaneSel where
  | lane (ebytes index : Nat)
  | replicate (ebytes : Nat)
  | undef

/-- The lane the word selects, or that it is replicated. -/
def vector_lane (insn : u32) : LaneSel :=
  let Q := BITS insn 30 30
  let S := BITS insn 12 12
  let size := BITS insn 11 10
  match BITS insn 15 13 / 2 with
  | 0 => .lane 1 (Q * 8 + S * 4 + size)
  | 1 => if size % 2 = 1 then .undef else .lane 2 (Q * 4 + S * 2 + size / 2)
  | 2 =>
    if 2 ≤ size then .undef
    else if size = 0 then .lane 4 (Q * 2 + S)
    else if S = 1 then .undef
    else .lane 8 Q
  | _ => if BIT insn 22 = false ∨ S = 1 then .undef else .replicate (2 ^ size)

def replicate_lane (elem : u64) (ebytes : Nat) : Nat → V128
  | 0 => 0#128
  | k + 1 => (replicate_lane elem ebytes k).set_bytes (k * ebytes) ebytes elem

/-- The lanes of a structure, in turn. -/
def ldst_lanes (pg : Pager) (L Q : Bool) (sel : LaneSel) (Rt ebytes selem : Nat) :
    Nat → CPU → u64 → Access Unit
  | 0, c, _ => .ok () c
  | k + 1, c, addr =>
    let vt := (Rt + (selem - (k + 1))) % 32
    let r :=
      match sel with
      | .lane _ index =>
        if L then (mem_read pg c addr ebytes).bind fun t c =>
          .ok () (set_v c vt ((c.v vt).set_bytes (index * ebytes) ebytes t))
        else mem_write pg c addr ebytes ((c.v vt).get_bytes (index * ebytes) ebytes)
      | _ => (mem_read pg c addr ebytes).bind fun t c =>
          .ok () (set_v c vt (replicate_lane t ebytes ((if Q then 16 else 8) / ebytes)))
    r.bind fun _ c => ldst_lanes pg L Q sel Rt ebytes selem k c (addr + BitVec.ofNat 64 ebytes)

/-- The accesses of one lane, and those that replicate it. -/
def ldst_vector_single (pg : Pager) (c : CPU) (insn : u32) : CPU :=
  let selem := BITS insn 13 13 * 2 + BITS insn 21 21 + 1
  let base := reg_xsp c (BITS insn 9 5)
  let sel := vector_lane insn
  let access (ebytes : Nat) : CPU :=
    match ldst_lanes pg (BIT insn 22) (BIT insn 30) sel (BITS insn 4 0) ebytes selem selem c base with
    | .fault c => c
    | .ok _ c => vector_post c insn base (selem * ebytes)
  match sel with
  | .undef => undefined c
  | .lane ebytes _ => access ebytes
  | .replicate ebytes => access ebytes

/-- The load and store class. -/
def loads_stores (pg : Pager) (c : CPU) (insn : u32) : CPU :=
  let b2927 := BITS insn 29 27
  if b2927 = 0x7 then ldst_register pg c insn
  else if b2927 = 0x5 then ldst_pair pg c insn
  else if b2927 = 0x3 ∧ BITS insn 25 24 = 0 then ldst_literal pg c insn
  else if b2927 = 0x1 ∧ BITS insn 26 24 = 0 then ldst_exclusive pg c insn
  else if b2927 = 0x1 ∧ BITS insn 26 24 = 4 then ldst_vector_multi pg c insn
  else if b2927 = 0x1 ∧ BITS insn 26 24 = 5 then ldst_vector_single pg c insn
  else if b2927 = 0x3 ∧ BIT insn 26 = false ∧ BITS insn 25 24 = 1 ∧ BIT insn 21 = false ∧
      BITS insn 11 10 = 0 then ldst_rcpc_unscaled pg c insn
  else if b2927 = 0x3 ∧ BITS insn 25 24 = 1 ∧ BIT insn 21 = false ∧ BITS insn 11 10 = 1 then
    mops pg c insn
  else undefined c

end arm64emu
