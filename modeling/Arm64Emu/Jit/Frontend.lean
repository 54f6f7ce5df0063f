import Arm64Emu.Jit.Ir
import Arm64Emu.Predecode.Fill

namespace arm64emu

/-- `ir_put`: one operation, counted as leaving after `n` retired instructions. -/
def ir_put (n : Nat) (op : IROpc) (w : Bool) (dst a b cc : Nat) (imm : u64) (aux : u32) : IROp :=
  ⟨op, w, dst, a, b, cc, imm, aux, 0#64, false, n⟩

/-- Register 31 read as the zero register. -/
def rx (r : Nat) : Nat := if r = 31 then VREG_ZERO else r

def rsp (r : Nat) : Nat := r

def sets_flags_rr (op : IROpc) : Bool :=
  op matches .IRO_ADDS | .IRO_SUBS | .IRO_ANDS | .IRO_BICS | .IRO_ADCS | .IRO_SBCS

def put_alu (n : Nat) (op : IROpc) (w : Bool) (dst a b : Nat) : List IROp :=
  if dst = VREG_ZERO ∧ sets_flags_rr op = false then [] else [ir_put n op w dst a b 0 0#64 0#32]

def sets_flags_ri (op : IROpc) : Bool := op matches .IRO_ADDIS | .IRO_SUBIS | .IRO_ANDIS

def put_alui (n : Nat) (op : IROpc) (w : Bool) (dst a : Nat) (imm : u64) : List IROp :=
  if dst = VREG_ZERO ∧ sets_flags_ri op = false then [] else [ir_put n op w dst a 0 0 imm 0#32]

/-- Operations written only where the destination is not the zero register. -/
def put_unless_zr (rd : Nat) (ops : List IROp) : List IROp := if rx rd = VREG_ZERO then [] else ops

def shift_opc (type : Nat) : IROpc :=
  match type with
  | 0 => .IRO_LSLI
  | 1 => .IRO_LSRI
  | 2 => .IRO_ASRI
  | _ => .IRO_RORI

/-- `fe_shifted`: the operations that leave the operand in the register
returned. -/
def fe_shifted (n rm type amt : Nat) (w : Bool) : List IROp × Nat :=
  if rx rm = VREG_ZERO then ([ir_put n .IRO_MOVI true VREG_TMP0 0 0 0 0#64 0#32], VREG_TMP0)
  else if amt = 0 then ([], rx rm)
  else
    ([ir_put n (shift_opc type) w VREG_TMP0 (rx rm) 0 0 (BitVec.ofNat 64 (amt % (if w then 64 else 32)))
      0#32], VREG_TMP0)

/-- An extended register operand, into a temporary. -/
def fe_extended (n rm option shift : Nat) : List IROp × Nat :=
  let m := rx rm
  let t := VREG_TMP0
  let bits := 8 * 2 ^ (option % 4)
  let shl := if shift = 0 then [] else [ir_put n .IRO_LSLI true t t 0 0 (BitVec.ofNat 64 shift) 0#32]
  if m = VREG_ZERO then ([ir_put n .IRO_MOVI true t 0 0 0 0#64 0#32], t)
  else if bits = 64 then
    if shift = 0 then ([], m) else (ir_put n .IRO_MOV true t m 0 0 0#64 0#32 :: shl, t)
  else if option / 4 % 2 = 1 then
    (ir_put n .IRO_LSLI true t m 0 0 (BitVec.ofNat 64 (64 - bits)) 0#32 ::
      ir_put n .IRO_ASRI true t t 0 0 (BitVec.ofNat 64 (64 - bits)) 0#32 :: shl, t)
  else if bits = 32 then (ir_put n .IRO_MOV false t m 0 0 0#64 0#32 :: shl, t)
  else (ir_put n .IRO_ANDI true t m 0 0 ((1#64 <<< bits) - 1#64) 0#32 :: shl, t)

def put_call1 (n : Nat) (pc : u64) (insn : u32) : IROp := ir_put n .IRO_CALL1 false 0 0 0 0 pc insn

def put_ld (n base : Nat) (off : u64) (rt szlog : Nat) (sign is64 : Bool) (pc : u64) : IROp :=
  { ir_put n .IRO_LD is64 (rx rt) base 0 szlog off (MDESC_MAKE (rt % 32) szlog sign is64) with
    imm2pc := pc }

def put_st (n base : Nat) (off : u64) (val szlog : Nat) (pc : u64) : IROp :=
  { ir_put n .IRO_ST false 0 base val szlog off (MDESC_MAKE 0 szlog false false) with imm2pc := pc }

def put_ldv (n base : Nat) (off : u64) (rt vszl : Nat) (pc : u64) : IROp :=
  { ir_put n .IRO_LDV false 0 base 0 vszl off (MDESC_MAKEV rt vszl) with imm2pc := pc }

def put_stv (n base : Nat) (off : u64) (rt vszl : Nat) (pc : u64) : IROp :=
  { ir_put n .IRO_STV false 0 base 0 vszl off (MDESC_MAKEV rt vszl) with imm2pc := pc }

def put_wb (n rn : Nat) (imm : u64) : IROp := ir_put n .IRO_ADDI true rn rn 0 0 imm 0#32

def put_ld_tmp (n base : Nat) (off : u64) (k szlog : Nat) (sign is64 : Bool) (pc : u64) : IROp :=
  { ir_put n .IRO_LD is64 (VREG_TMP0 + k) base 0 szlog off
      (MDESC_MAKE k szlog sign is64 ||| MDESC_TMPBIT) with
    imm2pc := pc }

/-- A load with writeback; where it overwrites its own base the old one is kept
in a temporary. -/
def put_ld_wb (n rn : Nat) (imm : u64) (rt szlog : Nat) (sign is64 pre : Bool) (pc : u64) : List IROp :=
  let off := if pre then imm else 0#64
  if rt = rn ∧ rt ≠ 31 then
    [ir_put n .IRO_MOV true VREG_TMP2 (rsp rn) 0 0 0#64 0#32,
      put_ld n VREG_TMP2 off rt szlog sign is64 pc,
      ir_put n .IRO_ADDI true rn VREG_TMP2 0 0 imm 0#32]
  else [put_ld n (rsp rn) off rt szlog sign is64 pc, put_wb n rn imm]

def put_st_wb (n rn : Nat) (imm : u64) (rt szlog : Nat) (pre : Bool) (pc : u64) : List IROp :=
  [put_st n (rsp rn) (if pre then imm else 0#64) (rx rt) szlog pc, put_wb n rn imm]

def put_pair_base (n rn : Nat) (a0 : u64) : IROp :=
  if a0 = 0#64 then ir_put n .IRO_MOV true VREG_TMP2 (rsp rn) 0 0 0#64 0#32
  else ir_put n .IRO_ADDI true VREG_TMP2 (rsp rn) 0 0 a0 0#32

def put_pair_commit (n rt rt2 : Nat) (w : Bool) : List IROp :=
  (if rt = 31 then [] else [ir_put n .IRO_MOV w rt VREG_TMP0 0 0 0#64 0#32]) ++
    (if rt2 = 31 then [] else [ir_put n .IRO_MOV w rt2 VREG_TMP1 0 0 0#64 0#32])

/-- The atomic operations that are inlined: kind, size and ordering packed as
`AT_MAKE` does. -/
def AT_MAKE (kind szlog : Nat) (acq rel : Bool) : u32 :=
  BitVec.ofNat 32 (kind + szlog * 256 + acq.toNat * 4096 + rel.toNat * 8192)

def AT_LDX : Nat := 0
def AT_STX : Nat := 1
def AT_LDAR : Nat := 2
def AT_STLR : Nat := 3
def AT_SWP : Nat := 4
def AT_LDADD : Nat := 5
def AT_CAS : Nat := 13

/-- The exclusive and atomic accesses, as calls of their helpers. -/
def fe_atomic (n : Nat) (insn : u32) (pc : u64) : Option IROp :=
  let rt := BITS insn 4 0
  let rn := BITS insn 9 5
  let rs := BITS insn 20 16
  let szl := BITS insn 31 30
  let put (dst b cc : Nat) (aux : u32) : Option IROp :=
    some { ir_put n .IRO_ATOMIC true dst (rsp rn) b cc (insn.setWidth 64) aux with imm2pc := pc }
  if insn &&& 0x3F000000#32 = 0x08000000#32 then
    let L := BIT insn 22
    let o0 := BIT insn 15
    match BIT insn 23, BIT insn 21 with
    | true, true => put (rx rs) (rx rt) (rx rs) (AT_MAKE AT_CAS szl L o0)
    | true, false =>
      if L then put (rx rt) VREG_ZERO VREG_ZERO (AT_MAKE AT_LDAR szl true false)
      else put VREG_ZERO (rx rt) VREG_ZERO (AT_MAKE AT_STLR szl false true)
    | false, false =>
      if L then put (rx rt) VREG_ZERO VREG_ZERO (AT_MAKE AT_LDX szl o0 false)
      else put (rx rs) (rx rt) VREG_ZERO (AT_MAKE AT_STX szl false o0)
    | false, true => none
  else if insn &&& 0x3F200C00#32 = 0x38200000#32 then
    let A := BIT insn 23
    let R := BIT insn 22
    let opc := BITS insn 14 12
    if BIT insn 15 then
      if opc = 0 then put (rx rt) (rx rs) VREG_ZERO (AT_MAKE AT_SWP szl A R)
      else if opc = 4 ∧ rs = 31 then put (rx rt) VREG_ZERO VREG_ZERO (AT_MAKE AT_LDAR szl true false)
      else none
    else put (rx rt) (rx rs) VREG_ZERO (AT_MAKE (AT_LDADD + opc) szl A R)
  else none

/-- `(s64)((s32)(insn << l) >> r)`: a signed field of the word. -/
def sfield (insn : u32) (l r : Nat) : u64 := ((insn <<< l).sshiftRight r).signExtend 64

/-- The pair accesses predecoding leaves out. -/
def fe_pair_extra (n : Nat) (insn : u32) (pc : u64) : Option (List IROp) :=
  let rt := BITS insn 4 0
  let rn := BITS insn 9 5
  let rt2 := BITS insn 14 10
  let mode := BITS insn 25 23
  let L := BIT insn 22
  let opc := BITS insn 31 30
  let wb := mode = 1 ∨ mode = 3
  if 3 < mode then none
  else if BIT insn 26 then
    if 2 < opc then none
    else
      let vszl := opc + 2
      let imm := sfield insn 10 25 <<< vszl
      let a0 := if mode = 1 then 0#64 else imm
      let a1 := a0 + BitVec.ofNat 64 (2 ^ vszl)
      let ops :=
        if L then [put_ldv n (rsp rn) a0 rt vszl pc, put_ldv n (rsp rn) a1 rt2 vszl pc]
        else [put_stv n (rsp rn) a0 rt vszl pc, put_stv n (rsp rn) a1 rt2 vszl pc]
      some (ops ++ if wb then [put_wb n rn imm] else [])
  else
    let szl := if opc = 2 then 3 else 2
    let esz := BitVec.ofNat 64 (2 ^ szl)
    let sign := decide (opc = 1)
    let imm := sfield insn 10 25 <<< szl
    if opc = 3 ∨ (sign ∧ (L = false ∨ mode = 0)) then none
    else if L then
      let a0 := if mode = 1 then 0#64 else imm
      let loads :=
        if wb then
          [put_pair_base n rn a0, put_ld_tmp n VREG_TMP2 0#64 0 szl sign true pc,
            put_ld_tmp n VREG_TMP2 esz 1 szl sign true pc]
        else
          [put_ld_tmp n (rsp rn) a0 0 szl sign true pc, put_ld_tmp n (rsp rn) (a0 + esz) 1 szl sign true pc]
      some (loads ++ put_pair_commit n rt rt2 (sign || decide (opc = 2)) ++
        if wb then
          [ir_put n .IRO_ADDI true (rsp rn) VREG_TMP2 0 0 (if mode = 1 then imm else 0#64) 0#32]
        else [])
    else if mode ≠ 0 then none
    else some [put_st n (rsp rn) imm (rx rt) szl pc, put_st n (rsp rn) (imm + esz) (rx rt2) szl pc]

/-- The register-offset accesses it leaves out. -/
def fe_ro_extra (n : Nat) (insn : u32) (pc : u64) : Option (List IROp) :=
  let rt := BITS insn 4 0
  let size := BITS insn 31 30
  let opc := BITS insn 23 22
  let V := BIT insn 26
  let scale := if V then (if 2 ≤ opc then 4 else size) else size
  if BITS insn 11 10 ≠ 2 then none
  else if V ∧ 2 ≤ opc ∧ size ≠ 0 then none
  else if V = false ∧ opc = 2 ∧ size = 3 then some []
  else if V = false ∧ opc = 3 ∧ 2 ≤ size then none
  else
    let (ops, idx) :=
      fe_extended n (BITS insn 20 16) (BITS insn 15 13) (if BIT insn 12 then scale else 0)
    let add := ir_put n .IRO_ADD true VREG_TMP1 (rsp (BITS insn 9 5)) idx 0 0#64 0#32
    let access :=
      if V then
        let vszl := if 2 ≤ opc then 4 else size
        if opc % 2 = 1 then put_ldv n VREG_TMP1 0#64 rt vszl pc else put_stv n VREG_TMP1 0#64 rt vszl pc
      else if opc = 0 then put_st n VREG_TMP1 0#64 (rx rt) size pc
      else put_ld n VREG_TMP1 0#64 rt size (decide (2 ≤ opc)) (decide (opc ≠ 3)) pc
    some (ops ++ [add, access])

/-- The indexed accesses it leaves out. -/
def fe_index_extra (n : Nat) (insn : u32) (pc : u64) : Option (List IROp) :=
  let rt := BITS insn 4 0
  let rn := BITS insn 9 5
  let size := BITS insn 31 30
  let opc := BITS insn 23 22
  let mode := BITS insn 11 10
  let pre := decide (mode = 3)
  let imm9 := sfield insn 11 23
  let off := if pre then imm9 else 0#64
  if mode ≠ 1 ∧ mode ≠ 3 then none
  else if BIT insn 26 then
    if 2 ≤ opc then none
    else if opc % 2 = 1 then some [put_ldv n (rsp rn) off rt size pc, put_wb n rn imm9]
    else some [put_stv n (rsp rn) off rt size pc, put_wb n rn imm9]
  else if opc = 0 then some (put_st_wb n rn imm9 rt size pre pc)
  else if opc = 2 ∧ size = 3 then none
  else if opc = 3 ∧ 2 ≤ size then none
  else some (put_ld_wb n rn imm9 rt size (decide (2 ≤ opc)) (decide (opc ≠ 3)) pre pc)

/-- The load/store forms predecode leaves to the decoder. -/
def fe_ldst_extra (n : Nat) (insn : u32) (pc : u64) : Option (List IROp) :=
  let b2927 := BITS insn 29 27
  let size := BITS insn 31 30
  let rt := BITS insn 4 0
  if ¬ (BIT insn 27 = true ∧ BIT insn 25 = false) then none
  else if b2927 = 3 ∧ BITS insn 25 24 = 0 then
    if BIT insn 26 then none
    else if size = 2 then
      some [ir_put n .IRO_MOVI true VREG_TMP0 0 0 0 (pc + (sfield insn 8 13 <<< 2)) 0#32,
        put_ld n VREG_TMP0 0#64 rt 2 true true pc]
    else if size = 3 then some []
    else none
  else if b2927 = 5 then fe_pair_extra n insn pc
  else if b2927 ≠ 7 ∨ BIT insn 24 = true then none
  else if BIT insn 21 then fe_ro_extra n insn pc
  else fe_index_extra n insn pc

def ld1_nregs (opcode : Nat) : Option Nat :=
  match opcode with
  | 0x2 => some 4
  | 0x6 => some 3
  | 0x7 => some 1
  | 0xa => some 2
  | _ => none

/-- `LD1` and `ST1` of whole registers. -/
def fe_ld1 (n : Nat) (insn : u32) (pc : u64) : Option (List IROp) :=
  let rm := BITS insn 20 16
  let rn := BITS insn 9 5
  let rt := BITS insn 4 0
  let vszl := if BIT insn 30 then 4 else 3
  let regbytes := if BIT insn 30 then 16 else 8
  let plain := decide (insn &&& 0xBFBF0000#32 = 0x0C000000#32)
  let post := decide (insn &&& 0xBFA00000#32 = 0x0C800000#32)
  if plain = false ∧ post = false then none
  else
    match ld1_nregs (BITS insn 15 12) with
    | none => none
    | some nregs =>
      let put (r : Nat) : IROp :=
        if BIT insn 22 then put_ldv n (rsp rn) (BitVec.ofNat 64 (r * regbytes)) ((rt + r) % 32) vszl pc
        else put_stv n (rsp rn) (BitVec.ofNat 64 (r * regbytes)) ((rt + r) % 32) vszl pc
      let wb :=
        if plain then []
        else if rm = 31 then [put_wb n rn (BitVec.ofNat 64 (nregs * regbytes))]
        else [ir_put n .IRO_ADD true (rsp rn) (rsp rn) rm 0 0#64 0#32]
      some ((List.range nregs).map put ++ wb)

/-- The bitfield moves predecoding leaves out. -/
def fe_bitfield (n : Nat) (insn : u32) : Option (List IROp) :=
  let w := BIT insn 31
  let opc := BITS insn 30 29
  let N := BIT insn 22
  let immr := BITS insn 21 16
  let imms := BITS insn 15 10
  let rd := BITS insn 4 0
  let rn := BITS insn 9 5
  let width := if w then 64 else 32
  let put (op : IROpc) (w : Bool) (dst a : Nat) (imm : u64) : IROp := ir_put n op w dst a 0 0 imm 0#32
  let merge := ir_put n .IRO_ORR w rd VREG_TMP0 VREG_TMP1 0 0#64 0#32
  if insn &&& 0x1F800000#32 ≠ 0x13000000#32 then none
  else if if w then N = false else N = true ∨ 32 ≤ immr ∨ 32 ≤ imms then none
  else if opc = 0 ∧ imms < immr then
    if rd = 31 then some []
    else
      some [put .IRO_LSLI w VREG_TMP0 (rx rn) (BitVec.ofNat 64 (width - 1 - imms)),
        put .IRO_ASRI w rd VREG_TMP0 (BitVec.ofNat 64 (immr - imms - 1))]
  else if opc = 1 then
    if rd = 31 then some []
    else if immr ≤ imms then
      let mask : u64 := if 64 ≤ imms - immr + 1 then ~~~0#64 else (1#64 <<< (imms - immr + 1)) - 1#64
      let src :=
        if immr ≠ 0 then put .IRO_LSRI w VREG_TMP0 (rx rn) (BitVec.ofNat 64 immr)
        else if rn = 31 then put .IRO_MOVI true VREG_TMP0 0 0#64
        else put .IRO_MOV true VREG_TMP0 rn 0#64
      some [src, put .IRO_ANDI true VREG_TMP0 VREG_TMP0 mask,
        put .IRO_ANDI true VREG_TMP1 (rx rd) (~~~mask), merge]
    else
      let lsb := width - immr
      let mask : u64 := (1#64 <<< (imms + 1)) - 1#64
      some [put .IRO_ANDI true VREG_TMP0 (rx rn) mask,
        put .IRO_LSLI true VREG_TMP0 VREG_TMP0 (BitVec.ofNat 64 lsb),
        put .IRO_ANDI true VREG_TMP1 (rx rd) (~~~(mask <<< lsb)), merge]
  else none

/-- An inlined vector operation: the guest registers involved, the fields of
its operation, and whether it is counted in the block. -/
structure VOp where
  dst : Nat
  a : Nat
  imm : u64
  imm2pc : u64
  aux : u32
  counted : Bool

/-- What the translator is configured with: the limit of `A64_JIT_PDMAX`, and the vector and floating-point words the
back end inlines. -/
structure FeCfg where
  pdmax : Option Nat
  fe_fpsimd : u32 → u64 → Option VOp

def PD_NOPS_ : Nat := PDOp.PD_STPDPOST.ctorIdx + 1

/-- Whether `A64_JIT_PDMAX` turns the operation off. -/
def fe_gated (cfg : FeCfg) (op : Nat) : Bool :=
  match cfg.pdmax with
  | none => false
  | some m => if PDOp.PD_B.ctorIdx ≤ op ∧ op ≤ PDOp.PD_BLR.ctorIdx then false else decide (m < op)

/-- What translating an instruction adds to a block: its operations, the number
of natively retired instructions so far, and whether the block ends. -/
structure FeOut where
  ops : List IROp
  ninsns : Nat
  fin : Bool

/-- The system instructions done natively; the rest are called. -/
def fe_system (n : Nat) (insn : u32) (pc : u64) : FeOut :=
  let rt := BITS insn 4 0
  let cont (ops : List IROp) : FeOut := ⟨ops, n + 1, false⟩
  if insn &&& 0xFFFFFFE0#32 = 0xD53BD040#32 then
    cont (if rt = 31 then [] else [ir_put n .IRO_CPULD true rt VREG_ZERO 0 0 offsetof_tpidr 0#32])
  else if insn &&& 0xFFFFFFE0#32 = 0xD53BD060#32 then
    cont (if rt = 31 then [] else [ir_put n .IRO_CPULD true rt VREG_ZERO 0 0 offsetof_tpidrro_el0 0#32])
  else if insn &&& 0xFFFFFFE0#32 = 0xD51BD040#32 then
    cont [ir_put n .IRO_CPUST true VREG_ZERO (rx rt) 0 0 offsetof_tpidr 0#32]
  else if insn &&& 0xFFFFF0FF#32 = 0xD50330BF#32 ∨ insn &&& 0xFFFFF0FF#32 = 0xD503309F#32 then
    cont [ir_put n .IRO_FENCE false VREG_ZERO VREG_ZERO 0 0 0#64 0#32]
  else if insn &&& 0xFFFFFFE0#32 = 0xD50B7420#32 then
    cont (ir_put n .IRO_ANDI true VREG_TMP2 (rx rt) 0 0 (~~~63#64) 0#32 ::
      (List.range 8).map fun zi => put_st n VREG_TMP2 (BitVec.ofNat 64 (8 * zi)) VREG_ZERO 3 pc)
  else if insn &&& 0xFFFFF0FF#32 = 0xD50330DF#32 then cont []
  else ⟨[put_call1 n pc insn], n, false⟩

def adc_opc (sbc S : Bool) : IROpc :=
  match sbc, S with
  | false, false => .IRO_ADC
  | false, true => .IRO_ADCS
  | true, false => .IRO_SBC
  | true, true => .IRO_SBCS

/-- A word without a predecoded entry. -/
def fe_generic (cfg : FeCfg) (n : Nat) (insn : u32) (pc : u64) : FeOut :=
  let unless_gated {α : Type} (k : Nat) (r : Option α) : Option α :=
    if fe_gated cfg (PD_NOPS_ + k) then none else r
  let cont (ops : List IROp) : FeOut := ⟨ops, n + 1, false⟩
  match unless_gated 0 (fe_atomic n insn pc) with
  | some o => ⟨[o], n, false⟩
  | none =>
  match unless_gated 1 (cfg.fe_fpsimd insn pc) with
  | some v =>
    ⟨[{ ir_put n .IRO_VOP false v.dst v.a VREG_ZERO 0 v.imm v.aux with imm2pc := v.imm2pc }],
      if v.counted then n + 1 else n, false⟩
  | none =>
  match unless_gated 2 (fe_ldst_extra n insn pc) with
  | some ops => cont ops
  | none =>
  match unless_gated 3 (fe_bitfield n insn) with
  | some ops => cont ops
  | none =>
  match unless_gated 4 (fe_ld1 n insn pc) with
  | some ops => cont ops
  | none =>
  if fe_gated cfg (PD_NOPS_ + 5) = false ∧ insn &&& 0x7FFFFC00#32 = 0x5AC00000#32 then
    cont (if BITS insn 4 0 = 31 then []
      else [ir_put n .IRO_RBIT (BIT insn 31) (BITS insn 4 0) (rx (BITS insn 9 5)) 0 0 0#64 0#32])
  else if fe_gated cfg (PD_NOPS_ + 6) = false ∧ insn &&& 0x1FE0FC00#32 = 0x1A000000#32 then
    cont (put_alu n (adc_opc (BIT insn 30) (BIT insn 29)) (BIT insn 31) (rx (BITS insn 4 0))
      (rx (BITS insn 9 5)) (rx (BITS insn 20 16)))
  else if BITS insn 31 24 = 0xD5 then fe_system n insn pc
  else if BITS insn 28 25 = 0xa ∨ BITS insn 28 25 = 0xb then
    ⟨[put_call1 n pc insn, ir_put n .IRO_JMP false 0 0 0 0 (pc + 4#64) 0#32], n, true⟩
  else ⟨[put_call1 n pc insn], n, false⟩

def put_branch (n : Nat) (op : IROpc) (w : Bool) (a cc : Nat) (taken next : u64) : List IROp :=
  [ir_put n op w 0 a 0 cc taken 0#32, ir_put n .IRO_JMP false 0 0 0 0 next 0#32]

/-- CBZ, CBNZ, TBZ and TBNZ, which are unconditional on the zero register. -/
def put_zbranch (n : Nat) (op : IROpc) (w nz : Bool) (rt cc : Nat) (taken next : u64) : List IROp :=
  if rx rt = VREG_ZERO then [ir_put n .IRO_JMP false 0 0 0 0 (if nz then next else taken) 0#32]
  else put_branch n op w (rx rt) cc taken next

def put_shifted (n : Nat) (op : IROpc) (w : Bool) (e : PDEnt) : List IROp :=
  let (ops, m) := fe_shifted n e.rm ((e.imm >>> 6).toNat % 4) (e.imm.toNat % 64) w
  ops ++ put_alu n op w (rx e.rd) (rx e.rn) m

/-- `AND` or, where the operand is inverted, `BIC`; and so on. -/
def inverted (e : PDEnt) (op inv : IROpc) : IROpc := if e.imm.getLsbD 8 then inv else op

def put_extended (n : Nat) (op : IROpc) (w S : Bool) (e : PDEnt) : List IROp :=
  let (ops, m) := fe_extended n e.rm ((e.imm >>> 3).toNat % 8) (e.imm.toNat % 8)
  ops ++ put_alu n op w (if S then rx e.rd else rsp e.rd) (rsp e.rn) m

def put_3source (n : Nat) (op : IROpc) (w : Bool) (e : PDEnt) : List IROp :=
  put_unless_zr e.rd [ir_put n op w e.rd (rx e.rn) (rx e.rm) (rx e.imm.toNat) 0#64 0#32]

def put_csel (n : Nat) (op : IROpc) (w : Bool) (e : PDEnt) : List IROp :=
  put_unless_zr e.rd [ir_put n op w e.rd (rx e.rn) (rx e.rm) (e.imm.toNat % 256) 0#64 0#32]

def put_ccmpi (n : Nat) (op : IROpc) (w : Bool) (e : PDEnt) : List IROp :=
  [ir_put n op w 0 (rx e.rn) 0 (e.imm.toNat % 16) ((e.imm >>> 8) &&& 31#64) ((e.imm >>> 32).setWidth 32)]

def put_ccmpr (n : Nat) (op : IROpc) (w : Bool) (e : PDEnt) : List IROp :=
  [ir_put n op w 0 (rx e.rn) (rx e.rm) (e.imm.toNat % 16) 0#64 ((e.imm >>> 32).setWidth 32)]

def put_1source (n : Nat) (op : IROpc) (w : Bool) (e : PDEnt) : List IROp :=
  put_unless_zr e.rd [ir_put n op w e.rd (rx e.rn) 0 0 0#64 0#32]

def put_2source (n : Nat) (op : IROpc) (w : Bool) (e : PDEnt) : List IROp :=
  put_unless_zr e.rd [ir_put n op w e.rd (rx e.rn) (rx e.rm) 0 0#64 0#32]

def put_shifti (n : Nat) (op : IROpc) (w : Bool) (e : PDEnt) : List IROp :=
  put_unless_zr e.rd [ir_put n op w e.rd (rx e.rn) 0 0 (BitVec.ofNat 64 e.rm) 0#32]

def put_movi (n : Nat) (e : PDEnt) (v : u64) : List IROp :=
  put_unless_zr e.rd [ir_put n .IRO_MOVI true e.rd 0 0 0 v 0#32]

def put_ubfx (n : Nat) (e : PDEnt) : List IROp :=
  put_unless_zr e.rd
    [ir_put n .IRO_LSRI true VREG_TMP0 (rx e.rn) 0 0 (BitVec.ofNat 64 e.rm) 0#32,
      ir_put n .IRO_ANDI true e.rd VREG_TMP0 0 0 e.imm 0#32]

def put_ubfiz (n : Nat) (w : Bool) (e : PDEnt) : List IROp :=
  put_unless_zr e.rd
    [ir_put n .IRO_ANDI true VREG_TMP0 (rx e.rn) 0 0 e.imm 0#32,
      ir_put n .IRO_LSLI w e.rd VREG_TMP0 0 0 (BitVec.ofNat 64 e.rm) 0#32]

def put_sbfx (n : Nat) (w : Bool) (e : PDEnt) : List IROp :=
  put_unless_zr e.rd
    [ir_put n .IRO_LSLI w VREG_TMP0 (rx e.rn) 0 0 (BitVec.ofNat 64 e.rm) 0#32,
      ir_put n .IRO_ASRI w e.rd VREG_TMP0 0 0 (trunc32 e.imm) 0#32]

def put_extr (n : Nat) (w : Bool) (e : PDEnt) : List IROp :=
  put_unless_zr e.rd
    (if e.imm = 0#64 then [ir_put n .IRO_MOV w e.rd (rx e.rm) 0 0 0#64 0#32]
      else [ir_put n .IRO_EXTR w e.rd (rx e.rn) (rx e.rm) 0 e.imm 0#32])

/-- The register-offset forms: the index, the address, then the access to it. -/
def put_ro (n : Nat) (e : PDEnt) (access : IROp) : List IROp :=
  let (ops, idx) := fe_extended n e.rm ((e.imm >>> 3).toNat % 8) (e.imm.toNat % 8)
  ops ++ [ir_put n .IRO_ADD true VREG_TMP1 (rsp e.rn) idx 0 0#64 0#32, access]

def put_lit (n : Nat) (e : PDEnt) (pc : u64) (access : IROp) : List IROp :=
  [ir_put n .IRO_MOVI true VREG_TMP0 0 0 0 (pc + e.imm) 0#32, access]

structure PairAt where
  post : Bool
  wb : Bool

def PairAt.first (m : PairAt) (e : PDEnt) : u64 := if m.post then 0#64 else e.imm

def put_pair_wb (n : Nat) (m : PairAt) (e : PDEnt) : List IROp := if m.wb then [put_wb n e.rn e.imm] else []

def put_stp (n : Nat) (e : PDEnt) (is64 : Bool) (m : PairAt) (pc : u64) : List IROp :=
  let szl := if is64 then 3 else 2
  let esz : u64 := if is64 then 8#64 else 4#64
  [put_st n (rsp e.rn) (m.first e) (rx e.rd) szl pc, put_st n (rsp e.rn) (m.first e + esz) (rx e.rm) szl pc] ++
    put_pair_wb n m e

def put_ldp (n : Nat) (e : PDEnt) (is64 : Bool) (m : PairAt) (pc : u64) : List IROp :=
  let szl := if is64 then 3 else 2
  let esz : u64 := if is64 then 8#64 else 4#64
  [put_pair_base n e.rn (m.first e), put_ld_tmp n VREG_TMP2 0#64 0 szl false is64 pc,
    put_ld_tmp n VREG_TMP2 esz 1 szl false is64 pc] ++
    put_pair_commit n e.rd e.rm is64 ++
    if m.wb then
      [ir_put n .IRO_ADDI true (rsp e.rn) VREG_TMP2 0 0 (if m.post then e.imm else 0#64) 0#32]
    else []

def put_ldpv (n : Nat) (e : PDEnt) (vszl : Nat) (m : PairAt) (pc : u64) : List IROp :=
  [put_ldv n (rsp e.rn) (m.first e) e.rd vszl pc,
    put_ldv n (rsp e.rn) (m.first e + BitVec.ofNat 64 (2 ^ vszl)) e.rm vszl pc] ++ put_pair_wb n m e

def put_stpv (n : Nat) (e : PDEnt) (vszl : Nat) (m : PairAt) (pc : u64) : List IROp :=
  [put_stv n (rsp e.rn) (m.first e) e.rd vszl pc,
    put_stv n (rsp e.rn) (m.first e + BitVec.ofNat 64 (2 ^ vszl)) e.rm vszl pc] ++ put_pair_wb n m e

def ctz (n : Nat) : Nat := Nat.log2 n

/-- The operations of an instruction that is no branch; `none` for the forms
`fe_insn` translates elsewhere. -/
def fe_ops (n : Nat) (e : PDEnt) (pc : u64) : Option (List IROp) :=
  match e.op with
  | .PD_NOP => some []
  | .PD_ADD64I => some (put_alui n .IRO_ADDI true (rsp e.rd) (rsp e.rn) e.imm)
  | .PD_ADD32I => some (put_alui n .IRO_ADDI false (rsp e.rd) (rsp e.rn) e.imm)
  | .PD_SUB64I => some (put_alui n .IRO_SUBI true (rsp e.rd) (rsp e.rn) e.imm)
  | .PD_SUB32I => some (put_alui n .IRO_SUBI false (rsp e.rd) (rsp e.rn) e.imm)
  | .PD_ADDS64I => some (put_alui n .IRO_ADDIS true (rx e.rd) (rsp e.rn) e.imm)
  | .PD_ADDS32I => some (put_alui n .IRO_ADDIS false (rx e.rd) (rsp e.rn) e.imm)
  | .PD_SUBS64I => some (put_alui n .IRO_SUBIS true (rx e.rd) (rsp e.rn) (~~~e.imm))
  | .PD_SUBS32I => some (put_alui n .IRO_SUBIS false (rx e.rd) (rsp e.rn) (~~~e.imm))
  | .PD_AND64I => some (put_alui n .IRO_ANDI true (rsp e.rd) (rx e.rn) e.imm)
  | .PD_AND32I => some (put_alui n .IRO_ANDI false (rsp e.rd) (rx e.rn) e.imm)
  | .PD_ORR64I => some (put_alui n .IRO_ORRI true (rsp e.rd) (rx e.rn) e.imm)
  | .PD_ORR32I => some (put_alui n .IRO_ORRI false (rsp e.rd) (rx e.rn) e.imm)
  | .PD_EOR64I => some (put_alui n .IRO_EORI true (rsp e.rd) (rx e.rn) e.imm)
  | .PD_EOR32I => some (put_alui n .IRO_EORI false (rsp e.rd) (rx e.rn) e.imm)
  | .PD_ANDS64I => some (put_alui n .IRO_ANDIS true (rx e.rd) (rx e.rn) e.imm)
  | .PD_ANDS32I => some (put_alui n .IRO_ANDIS false (rx e.rd) (rx e.rn) e.imm)
  | .PD_MOVI => some (put_movi n e e.imm)
  | .PD_MOVK64 => some (put_unless_zr e.rd [ir_put n .IRO_MOVK true e.rd e.rd 0 e.rm e.imm 0#32])
  | .PD_MOVK32 => some (put_unless_zr e.rd [ir_put n .IRO_MOVK false e.rd e.rd 0 e.rm e.imm 0#32])
  | .PD_ADR => some (put_movi n e (pc + e.imm))
  | .PD_ADRP => some (put_movi n e ((pc &&& ~~~0xfff#64) + e.imm))
  | .PD_LSL64I => some (put_shifti n .IRO_LSLI true e)
  | .PD_LSL32I => some (put_shifti n .IRO_LSLI false e)
  | .PD_LSR64I => some (put_shifti n .IRO_LSRI true e)
  | .PD_LSR32I => some (put_shifti n .IRO_LSRI false e)
  | .PD_ASR64I => some (put_shifti n .IRO_ASRI true e)
  | .PD_ASR32I => some (put_shifti n .IRO_ASRI false e)
  | .PD_UBFX64 => some (put_ubfx n e)
  | .PD_UBFX32 => some (put_ubfx n e)
  | .PD_UBFIZ64 => some (put_ubfiz n true e)
  | .PD_UBFIZ32 => some (put_ubfiz n false e)
  | .PD_SBFX64 => some (put_sbfx n true e)
  | .PD_SBFX32 => some (put_sbfx n false e)
  | .PD_EXTR64 => some (put_extr n true e)
  | .PD_EXTR32 => some (put_extr n false e)
  | .PD_AND64 => some (put_alu n .IRO_AND true (rx e.rd) (rx e.rn) (rx e.rm))
  | .PD_AND32 => some (put_alu n .IRO_AND false (rx e.rd) (rx e.rn) (rx e.rm))
  | .PD_BIC64 => some (put_alu n .IRO_BIC true (rx e.rd) (rx e.rn) (rx e.rm))
  | .PD_BIC32 => some (put_alu n .IRO_BIC false (rx e.rd) (rx e.rn) (rx e.rm))
  | .PD_ORR64 => some (put_alu n .IRO_ORR true (rx e.rd) (rx e.rn) (rx e.rm))
  | .PD_ORR32 => some (put_alu n .IRO_ORR false (rx e.rd) (rx e.rn) (rx e.rm))
  | .PD_ORN64 => some (put_alu n .IRO_ORN true (rx e.rd) (rx e.rn) (rx e.rm))
  | .PD_ORN32 => some (put_alu n .IRO_ORN false (rx e.rd) (rx e.rn) (rx e.rm))
  | .PD_EOR64 => some (put_alu n .IRO_EOR true (rx e.rd) (rx e.rn) (rx e.rm))
  | .PD_EOR32 => some (put_alu n .IRO_EOR false (rx e.rd) (rx e.rn) (rx e.rm))
  | .PD_EON64 => some (put_alu n .IRO_EON true (rx e.rd) (rx e.rn) (rx e.rm))
  | .PD_EON32 => some (put_alu n .IRO_EON false (rx e.rd) (rx e.rn) (rx e.rm))
  | .PD_ANDS64 => some (put_alu n .IRO_ANDS true (rx e.rd) (rx e.rn) (rx e.rm))
  | .PD_ANDS32 => some (put_alu n .IRO_ANDS false (rx e.rd) (rx e.rn) (rx e.rm))
  | .PD_BICS64 => some (put_alu n .IRO_BICS true (rx e.rd) (rx e.rn) (rx e.rm))
  | .PD_BICS32 => some (put_alu n .IRO_BICS false (rx e.rd) (rx e.rn) (rx e.rm))
  | .PD_AND64S => some (put_shifted n (inverted e .IRO_AND .IRO_BIC) true e)
  | .PD_AND32S => some (put_shifted n (inverted e .IRO_AND .IRO_BIC) false e)
  | .PD_ORR64S => some (put_shifted n (inverted e .IRO_ORR .IRO_ORN) true e)
  | .PD_ORR32S => some (put_shifted n (inverted e .IRO_ORR .IRO_ORN) false e)
  | .PD_EOR64S => some (put_shifted n (inverted e .IRO_EOR .IRO_EON) true e)
  | .PD_EOR32S => some (put_shifted n (inverted e .IRO_EOR .IRO_EON) false e)
  | .PD_ANDS64S => some (put_shifted n (inverted e .IRO_ANDS .IRO_BICS) true e)
  | .PD_ANDS32S => some (put_shifted n (inverted e .IRO_ANDS .IRO_BICS) false e)
  | .PD_ADD64R => some (put_alu n .IRO_ADD true (rx e.rd) (rx e.rn) (rx e.rm))
  | .PD_ADD32R => some (put_alu n .IRO_ADD false (rx e.rd) (rx e.rn) (rx e.rm))
  | .PD_SUB64R => some (put_alu n .IRO_SUB true (rx e.rd) (rx e.rn) (rx e.rm))
  | .PD_SUB32R => some (put_alu n .IRO_SUB false (rx e.rd) (rx e.rn) (rx e.rm))
  | .PD_ADDS64R => some (put_alu n .IRO_ADDS true (rx e.rd) (rx e.rn) (rx e.rm))
  | .PD_ADDS32R => some (put_alu n .IRO_ADDS false (rx e.rd) (rx e.rn) (rx e.rm))
  | .PD_SUBS64R => some (put_alu n .IRO_SUBS true (rx e.rd) (rx e.rn) (rx e.rm))
  | .PD_SUBS32R => some (put_alu n .IRO_SUBS false (rx e.rd) (rx e.rn) (rx e.rm))
  | .PD_ADD64RS => some (put_shifted n .IRO_ADD true e)
  | .PD_ADD32RS => some (put_shifted n .IRO_ADD false e)
  | .PD_SUB64RS => some (put_shifted n .IRO_SUB true e)
  | .PD_SUB32RS => some (put_shifted n .IRO_SUB false e)
  | .PD_ADDS64RS => some (put_shifted n .IRO_ADDS true e)
  | .PD_ADDS32RS => some (put_shifted n .IRO_ADDS false e)
  | .PD_SUBS64RS => some (put_shifted n .IRO_SUBS true e)
  | .PD_SUBS32RS => some (put_shifted n .IRO_SUBS false e)
  | .PD_ADDX64 => some (put_extended n .IRO_ADD true false e)
  | .PD_ADDX32 => some (put_extended n .IRO_ADD false false e)
  | .PD_SUBX64 => some (put_extended n .IRO_SUB true false e)
  | .PD_SUBX32 => some (put_extended n .IRO_SUB false false e)
  | .PD_ADDSX64 => some (put_extended n .IRO_ADDS true true e)
  | .PD_ADDSX32 => some (put_extended n .IRO_ADDS false true e)
  | .PD_SUBSX64 => some (put_extended n .IRO_SUBS true true e)
  | .PD_SUBSX32 => some (put_extended n .IRO_SUBS false true e)
  | .PD_MADD64 => some (put_3source n .IRO_MADD true e)
  | .PD_MADD32 => some (put_3source n .IRO_MADD false e)
  | .PD_MSUB64 => some (put_3source n .IRO_MSUB true e)
  | .PD_MSUB32 => some (put_3source n .IRO_MSUB false e)
  | .PD_SMADDL => some (put_3source n .IRO_SMADDL true e)
  | .PD_SMSUBL => some (put_3source n .IRO_SMSUBL true e)
  | .PD_UMADDL => some (put_3source n .IRO_UMADDL true e)
  | .PD_UMSUBL => some (put_3source n .IRO_UMSUBL true e)
  | .PD_SMULH => some (put_2source n .IRO_SMULH true e)
  | .PD_UMULH => some (put_2source n .IRO_UMULH true e)
  | .PD_CSEL64 => some (put_csel n .IRO_CSEL true e)
  | .PD_CSEL32 => some (put_csel n .IRO_CSEL false e)
  | .PD_CSINC64 => some (put_csel n .IRO_CSINC true e)
  | .PD_CSINC32 => some (put_csel n .IRO_CSINC false e)
  | .PD_CSINV64 => some (put_csel n .IRO_CSINV true e)
  | .PD_CSINV32 => some (put_csel n .IRO_CSINV false e)
  | .PD_CSNEG64 => some (put_csel n .IRO_CSNEG true e)
  | .PD_CSNEG32 => some (put_csel n .IRO_CSNEG false e)
  | .PD_CCMP64I => some (put_ccmpi n .IRO_CCMPI true e)
  | .PD_CCMP32I => some (put_ccmpi n .IRO_CCMPI false e)
  | .PD_CCMP64R => some (put_ccmpr n .IRO_CCMPR true e)
  | .PD_CCMP32R => some (put_ccmpr n .IRO_CCMPR false e)
  | .PD_CCMN64I => some (put_ccmpi n .IRO_CCMNI true e)
  | .PD_CCMN32I => some (put_ccmpi n .IRO_CCMNI false e)
  | .PD_CCMN64R => some (put_ccmpr n .IRO_CCMNR true e)
  | .PD_CCMN32R => some (put_ccmpr n .IRO_CCMNR false e)
  | .PD_REV64 => some (put_1source n .IRO_REV64 true e)
  | .PD_REVW => some (put_1source n .IRO_REV32 false e)
  | .PD_CLZ64 => some (put_1source n .IRO_CLZ true e)
  | .PD_CLZ32 => some (put_1source n .IRO_CLZ false e)
  | .PD_UDIV64 => some (put_2source n .IRO_UDIV true e)
  | .PD_UDIV32 => some (put_2source n .IRO_UDIV false e)
  | .PD_SDIV64 => some (put_2source n .IRO_SDIV true e)
  | .PD_SDIV32 => some (put_2source n .IRO_SDIV false e)
  | .PD_LSLV64 => some (put_2source n .IRO_LSLV true e)
  | .PD_LSLV32 => some (put_2source n .IRO_LSLV false e)
  | .PD_LSRV64 => some (put_2source n .IRO_LSRV true e)
  | .PD_LSRV32 => some (put_2source n .IRO_LSRV false e)
  | .PD_ASRV64 => some (put_2source n .IRO_ASRV true e)
  | .PD_ASRV32 => some (put_2source n .IRO_ASRV false e)
  | .PD_RORV64 => some (put_2source n .IRO_RORV true e)
  | .PD_RORV32 => some (put_2source n .IRO_RORV false e)
  | .PD_LDR64U => some [put_ld n (rsp e.rn) e.imm e.rd 3 false true pc]
  | .PD_LDR32U => some [put_ld n (rsp e.rn) e.imm e.rd 2 false false pc]
  | .PD_LDRB => some [put_ld n (rsp e.rn) e.imm e.rd 0 false true pc]
  | .PD_LDRH => some [put_ld n (rsp e.rn) e.imm e.rd 1 false true pc]
  | .PD_LDRSB64 => some [put_ld n (rsp e.rn) e.imm e.rd 0 true true pc]
  | .PD_LDRSB32 => some [put_ld n (rsp e.rn) e.imm e.rd 0 true false pc]
  | .PD_LDRSH64 => some [put_ld n (rsp e.rn) e.imm e.rd 1 true true pc]
  | .PD_LDRSH32 => some [put_ld n (rsp e.rn) e.imm e.rd 1 true false pc]
  | .PD_LDRSW => some [put_ld n (rsp e.rn) e.imm e.rd 2 true true pc]
  | .PD_STR64U => some [put_st n (rsp e.rn) e.imm (rx e.rd) 3 pc]
  | .PD_STR32U => some [put_st n (rsp e.rn) e.imm (rx e.rd) 2 pc]
  | .PD_STRB => some [put_st n (rsp e.rn) e.imm (rx e.rd) 0 pc]
  | .PD_STRH => some [put_st n (rsp e.rn) e.imm (rx e.rd) 1 pc]
  | .PD_LDR64PRE => some (put_ld_wb n e.rn e.imm e.rd 3 false true true pc)
  | .PD_LDR64POST => some (put_ld_wb n e.rn e.imm e.rd 3 false true false pc)
  | .PD_LDR32PRE => some (put_ld_wb n e.rn e.imm e.rd 2 false false true pc)
  | .PD_LDR32POST => some (put_ld_wb n e.rn e.imm e.rd 2 false false false pc)
  | .PD_LDRBPOST => some (put_ld_wb n e.rn e.imm e.rd 0 false true false pc)
  | .PD_STR64PRE => some (put_st_wb n e.rn e.imm e.rd 3 true pc)
  | .PD_STR64POST => some (put_st_wb n e.rn e.imm e.rd 3 false pc)
  | .PD_STR32PRE => some (put_st_wb n e.rn e.imm e.rd 2 true pc)
  | .PD_STR32POST => some (put_st_wb n e.rn e.imm e.rd 2 false pc)
  | .PD_STRBPOST => some (put_st_wb n e.rn e.imm e.rd 0 false pc)
  | .PD_LDR64RO => some (put_ro n e (put_ld n VREG_TMP1 0#64 e.rd 3 false true pc))
  | .PD_LDR32RO => some (put_ro n e (put_ld n VREG_TMP1 0#64 e.rd 2 false false pc))
  | .PD_LDRBRO => some (put_ro n e (put_ld n VREG_TMP1 0#64 e.rd 0 false true pc))
  | .PD_LDRHRO => some (put_ro n e (put_ld n VREG_TMP1 0#64 e.rd 1 false true pc))
  | .PD_STR64RO => some (put_ro n e (put_st n VREG_TMP1 0#64 (rx e.rd) 3 pc))
  | .PD_STR32RO => some (put_ro n e (put_st n VREG_TMP1 0#64 (rx e.rd) 2 pc))
  | .PD_STRBRO => some (put_ro n e (put_st n VREG_TMP1 0#64 (rx e.rd) 0 pc))
  | .PD_STRHRO => some (put_ro n e (put_st n VREG_TMP1 0#64 (rx e.rd) 1 pc))
  | .PD_LDRLIT64 => some (put_lit n e pc (put_ld n VREG_TMP0 0#64 e.rd 3 false true pc))
  | .PD_LDRLIT32 => some (put_lit n e pc (put_ld n VREG_TMP0 0#64 e.rd 2 false false pc))
  | .PD_LDRLITV => some (put_lit n e pc (put_ldv n VREG_TMP0 0#64 e.rd (ctz e.rm) pc))
  | .PD_LDP64 => some (put_ldp n e true ⟨false, false⟩ pc)
  | .PD_LDP32 => some (put_ldp n e false ⟨false, false⟩ pc)
  | .PD_LDP64PRE => some (put_ldp n e true ⟨false, true⟩ pc)
  | .PD_LDP32PRE => some (put_ldp n e false ⟨false, true⟩ pc)
  | .PD_LDP64POST => some (put_ldp n e true ⟨true, true⟩ pc)
  | .PD_LDP32POST => some (put_ldp n e false ⟨true, true⟩ pc)
  | .PD_STP64 => some (put_stp n e true ⟨false, false⟩ pc)
  | .PD_STP32 => some (put_stp n e false ⟨false, false⟩ pc)
  | .PD_STP64PRE => some (put_stp n e true ⟨false, true⟩ pc)
  | .PD_STP32PRE => some (put_stp n e false ⟨false, true⟩ pc)
  | .PD_STP64POST => some (put_stp n e true ⟨true, true⟩ pc)
  | .PD_STP32POST => some (put_stp n e false ⟨true, true⟩ pc)
  | .PD_LDRQ => some [put_ldv n (rsp e.rn) e.imm e.rd 4 pc]
  | .PD_STRQ => some [put_stv n (rsp e.rn) e.imm e.rd 4 pc]
  | .PD_LDRV => some [put_ldv n (rsp e.rn) e.imm e.rd (ctz e.rm) pc]
  | .PD_STRV => some [put_stv n (rsp e.rn) e.imm e.rd (ctz e.rm) pc]
  | .PD_LDRQPRE => some [put_ldv n (rsp e.rn) e.imm e.rd 4 pc, put_wb n e.rn e.imm]
  | .PD_LDRQPOST => some [put_ldv n (rsp e.rn) 0#64 e.rd 4 pc, put_wb n e.rn e.imm]
  | .PD_STRQPRE => some [put_stv n (rsp e.rn) e.imm e.rd 4 pc, put_wb n e.rn e.imm]
  | .PD_STRQPOST => some [put_stv n (rsp e.rn) 0#64 e.rd 4 pc, put_wb n e.rn e.imm]
  | .PD_LDPQ => some (put_ldpv n e 4 ⟨false, false⟩ pc)
  | .PD_LDPQPRE => some (put_ldpv n e 4 ⟨false, true⟩ pc)
  | .PD_LDPQPOST => some (put_ldpv n e 4 ⟨true, true⟩ pc)
  | .PD_STPQ => some (put_stpv n e 4 ⟨false, false⟩ pc)
  | .PD_STPQPRE => some (put_stpv n e 4 ⟨false, true⟩ pc)
  | .PD_STPQPOST => some (put_stpv n e 4 ⟨true, true⟩ pc)
  | .PD_LDPD => some (put_ldpv n e 3 ⟨false, false⟩ pc)
  | .PD_LDPDPRE => some (put_ldpv n e 3 ⟨false, true⟩ pc)
  | .PD_LDPDPOST => some (put_ldpv n e 3 ⟨true, true⟩ pc)
  | .PD_STPD => some (put_stpv n e 3 ⟨false, false⟩ pc)
  | .PD_STPDPRE => some (put_stpv n e 3 ⟨false, true⟩ pc)
  | .PD_STPDPOST => some (put_stpv n e 3 ⟨true, true⟩ pc)
  | _ => none

/-- One instruction, by its entry. -/
def fe_insn (cfg : FeCfg) (n : Nat) (e : PDEnt) (pc : u64) : FeOut :=
  let next := pc + 4#64
  let target := pc + e.imm
  -- branches are counted before their operations, which leave the block
  let last (ops : List IROp) : FeOut := ⟨ops, n + 1, true⟩
  let jmp (dest : u64) : List IROp := [ir_put (n + 1) .IRO_JMP false 0 0 0 0 dest 0#32]
  match e.op with
  | .PD_B => last (jmp target)
  | .PD_BL => last (ir_put (n + 1) .IRO_MOVI true 30 0 0 0 next 0#32 :: jmp target)
  | .PD_BCOND =>
    last (if e.rd / 2 % 8 = 7 then jmp target else put_branch (n + 1) .IRO_BCOND false 0 e.rd target next)
  | .PD_CBZ64 => last (put_zbranch (n + 1) .IRO_CBZ true false e.rd 0 target next)
  | .PD_CBZ32 => last (put_zbranch (n + 1) .IRO_CBZ false false e.rd 0 target next)
  | .PD_CBNZ64 => last (put_zbranch (n + 1) .IRO_CBNZ true true e.rd 0 target next)
  | .PD_CBNZ32 => last (put_zbranch (n + 1) .IRO_CBNZ false true e.rd 0 target next)
  | .PD_TBZ => last (put_zbranch (n + 1) .IRO_TBZ true false e.rd e.rm target next)
  | .PD_TBNZ => last (put_zbranch (n + 1) .IRO_TBNZ true true e.rd e.rm target next)
  | .PD_BR =>
    let zero := [ir_put (n + 1) .IRO_MOVI true VREG_TMP0 0 0 0 0#64 0#32]
    let jmpind (t : Nat) := [ir_put (n + 1) .IRO_JMPIND false 0 t 0 0 0#64 0#32]
    last (if rx e.rn = VREG_ZERO then zero ++ jmpind VREG_TMP0 else jmpind (rx e.rn))
  | .PD_BLR =>
    let target :=
      if rx e.rn = VREG_ZERO then ir_put (n + 1) .IRO_MOVI true VREG_TMP0 0 0 0 0#64 0#32
      else ir_put (n + 1) .IRO_MOV true VREG_TMP0 (rx e.rn) 0 0 0#64 0#32
    last [target, ir_put (n + 1) .IRO_MOVI true 30 0 0 0 next 0#32,
      ir_put (n + 1) .IRO_JMPIND false 0 VREG_TMP0 0 0 0#64 0#32]
  | _ =>
    match fe_ops n e pc with
    | some ops => ⟨ops, n + 1, false⟩
    | none => fe_generic cfg n e.insn pc

def JIT_MAX_BLOCK_INSNS : Nat := 128

def IR_MAX_OPS_PER_INSN : Nat := 9

def IR_MAX_OPS : Nat := JIT_MAX_BLOCK_INSNS * 4 + 8

/-- A translated block: its operations, the instructions it retires natively,
and how many it covers. -/
structure IRBlock where
  ops : List IROp
  ninsns : Nat
  guest_n : Nat

def is_ic_ivau (insn : u32) : Prop := insn &&& 0xffffffe0#32 = 0xd50b7520#32

instance (insn : u32) : Decidable (is_ic_ivau insn) := inferInstanceAs (Decidable (_ = _))

/-- The entry of a word, filled on the spot. -/
def fe_entry (cfg : FeCfg) (insn : u32) : PDEnt :=
  let e := pd_fill insn
  if fe_gated cfg e.op.ctorIdx then { e with op := .PD_GENERIC } else e

/-- The loop of `jit_fe_block`, with `fuel` instructions left before the limit. -/
def fe_block_loop (cfg : FeCfg) (fetch : u64 → Option u32) : Nat → u64 → IRBlock → IRBlock
  | 0, _, ir => ir
  | fuel + 1, p, ir =>
    let jmp (n : Nat) (dest : u64) : IROp := ir_put n .IRO_JMP false 0 0 0 0 dest 0#32
    match fetch p with
    | none => if ir.guest_n = 0 then ir else { ir with ops := ir.ops ++ [jmp ir.ninsns p] }
    | some insn =>
      if is_ic_ivau insn then
        { ir with
          ops := ir.ops ++ [ir_put ir.ninsns .IRO_CALL1 true 0 0 0 0 p insn, jmp ir.ninsns (p + 4#64)]
          guest_n := ir.guest_n + 1 }
      else
        let out := fe_insn cfg ir.ninsns (fe_entry cfg insn) p
        let ir : IRBlock := ⟨ir.ops ++ out.ops, out.ninsns, ir.guest_n + 1⟩
        let p := p + 4#64
        if out.fin then ir
        else if fuel = 0 ∨ page_off p = 0 ∨ IR_MAX_OPS < ir.ops.length + IR_MAX_OPS_PER_INSN + 1 then
          { ir with ops := ir.ops ++ [jmp ir.ninsns p] }
        else fe_block_loop cfg fetch fuel p ir

/-- The instruction limit of a translation: an absent or excessive one is the
largest. -/
def fe_max_insns (max_insns : Nat) : Nat :=
  if max_insns = 0 ∨ JIT_MAX_BLOCK_INSNS < max_insns then JIT_MAX_BLOCK_INSNS else max_insns

/-- `jit_fe_block` up to its liveness pass. -/
def fe_block (cfg : FeCfg) (fetch : u64 → Option u32) (pc : u64) (max_insns : Nat) : IRBlock :=
  fe_block_loop cfg fetch (fe_max_insns max_insns) pc ⟨[], 0, 0⟩

end arm64emu
