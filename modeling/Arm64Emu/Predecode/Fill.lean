import Arm64Emu.Core.Decode.Branch

namespace arm64emu

theorem lt_four {n : Nat} (h : n < 4) : n = 0 ∨ n = 1 ∨ n = 2 ∨ n = 3 := by omega

/-- The dense opcode ids of the decode cache. -/
inductive PDOp where
  | PD_GENERIC | PD_NOP | PD_B | PD_BL | PD_BCOND | PD_CBZ64 | PD_CBZ32 | PD_CBNZ64 | PD_CBNZ32
  | PD_TBZ | PD_TBNZ | PD_BR | PD_BLR | PD_ADD64I | PD_ADD32I | PD_SUB64I | PD_SUB32I | PD_ADDS64I
  | PD_ADDS32I | PD_SUBS64I | PD_SUBS32I | PD_AND64I | PD_AND32I | PD_ORR64I | PD_ORR32I
  | PD_EOR64I | PD_EOR32I | PD_ANDS64I | PD_ANDS32I | PD_MOVI | PD_MOVK64 | PD_MOVK32 | PD_ADR
  | PD_ADRP | PD_LSL64I | PD_LSL32I | PD_LSR64I | PD_LSR32I | PD_ASR64I | PD_ASR32I | PD_UBFX64
  | PD_UBFX32 | PD_UBFIZ64 | PD_UBFIZ32 | PD_SBFX64 | PD_SBFX32 | PD_EXTR64 | PD_EXTR32 | PD_AND64
  | PD_AND32 | PD_BIC64 | PD_BIC32 | PD_ORR64 | PD_ORR32 | PD_ORN64 | PD_ORN32 | PD_EOR64
  | PD_EOR32 | PD_EON64 | PD_EON32 | PD_ANDS64 | PD_ANDS32 | PD_BICS64 | PD_BICS32 | PD_AND64S
  | PD_AND32S | PD_ORR64S | PD_ORR32S | PD_EOR64S | PD_EOR32S | PD_ANDS64S | PD_ANDS32S | PD_ADD64R
  | PD_ADD32R | PD_SUB64R | PD_SUB32R | PD_ADDS64R | PD_ADDS32R | PD_SUBS64R | PD_SUBS32R
  | PD_ADD64RS | PD_ADD32RS | PD_SUB64RS | PD_SUB32RS | PD_ADDS64RS | PD_ADDS32RS | PD_SUBS64RS
  | PD_SUBS32RS | PD_ADDX64 | PD_ADDX32 | PD_SUBX64 | PD_SUBX32 | PD_ADDSX64 | PD_ADDSX32
  | PD_SUBSX64 | PD_SUBSX32 | PD_MADD64 | PD_MADD32 | PD_MSUB64 | PD_MSUB32 | PD_SMADDL | PD_SMSUBL
  | PD_UMADDL | PD_UMSUBL | PD_SMULH | PD_UMULH | PD_CSEL64 | PD_CSEL32 | PD_CSINC64 | PD_CSINC32
  | PD_CSINV64 | PD_CSINV32 | PD_CSNEG64 | PD_CSNEG32 | PD_CCMP64I | PD_CCMP32I | PD_CCMP64R
  | PD_CCMP32R | PD_CCMN64I | PD_CCMN32I | PD_CCMN64R | PD_CCMN32R | PD_REV64 | PD_REVW | PD_CLZ64
  | PD_CLZ32 | PD_UDIV64 | PD_UDIV32 | PD_SDIV64 | PD_SDIV32 | PD_LSLV64 | PD_LSLV32 | PD_LSRV64
  | PD_LSRV32 | PD_ASRV64 | PD_ASRV32 | PD_RORV64 | PD_RORV32 | PD_LDR64U | PD_LDR32U | PD_LDRB
  | PD_LDRH | PD_LDRSB64 | PD_LDRSB32 | PD_LDRSH64 | PD_LDRSH32 | PD_LDRSW | PD_STR64U | PD_STR32U
  | PD_STRB | PD_STRH | PD_LDR64PRE | PD_LDR64POST | PD_LDR32PRE | PD_LDR32POST | PD_STR64PRE
  | PD_STR64POST | PD_STR32PRE | PD_STR32POST | PD_LDRBPOST | PD_STRBPOST | PD_LDR64RO | PD_LDR32RO
  | PD_LDRBRO | PD_LDRHRO | PD_STR64RO | PD_STR32RO | PD_STRBRO | PD_STRHRO | PD_LDRLIT64
  | PD_LDRLIT32 | PD_LDRLITV | PD_LDP64 | PD_LDP64PRE | PD_LDP64POST | PD_LDP32 | PD_LDP32PRE
  | PD_LDP32POST | PD_STP64 | PD_STP64PRE | PD_STP64POST | PD_STP32 | PD_STP32PRE | PD_STP32POST
  | PD_LDRQ | PD_STRQ | PD_LDRV | PD_STRV | PD_LDRQPRE | PD_LDRQPOST | PD_STRQPRE | PD_STRQPOST
  | PD_LDPQ | PD_LDPQPRE | PD_LDPQPOST | PD_STPQ | PD_STPQPRE | PD_STPQPOST | PD_LDPD | PD_LDPDPRE
  | PD_LDPDPOST | PD_STPD | PD_STPDPRE | PD_STPDPOST
  deriving DecidableEq

/-- A decode-cache entry. The three register fields are raw 5-bit fields or
small precomputed numbers, so that they fit the byte the cache gives them. -/
structure PDEnt where
  insn : u32
  op : PDOp
  rd : Nat
  rn : Nat
  rm : Nat
  imm : u64
  deriving DecidableEq

/-- The C tables index by `[sf]`, the 32-bit id first. -/
def by_sf (sf : Bool) (id32 id64 : PDOp) : PDOp := if sf then id64 else id32

/-- The classifier's own copy of the bitmask decoder: it rejects an element
wider than the register and computes only the first mask. -/
def pd_bitmasks (immN imms immr : Nat) (is64 : Bool) : Option u64 :=
  match bitmask_len immN imms with
  | none => none
  | some len =>
    let esize := 2 ^ len
    if (if is64 then 64 else 32) < esize then none
    else
      let S := imms % esize
      let R := immr % esize
      let emask := ones esize
      let welem := ones (S + 1) &&& emask
      let w := rotate_elem welem (R % esize) esize emask
      let wm := replicate_elem w esize 32 0 0#64
      some (if is64 then wm else trunc32 wm)

def logical_imm_id (opc : Nat) (sf : Bool) : PDOp :=
  match opc with
  | 0 => by_sf sf .PD_AND32I .PD_AND64I
  | 1 => by_sf sf .PD_ORR32I .PD_ORR64I
  | 2 => by_sf sf .PD_EOR32I .PD_EOR64I
  | _ => by_sf sf .PD_ANDS32I .PD_ANDS64I

/-- The bitfield aliases; general UBFM, SBFM and BFM stay generic. -/
def fill_bitfield (e : PDEnt) (insn : u32) : PDEnt :=
  let sf := BIT insn 31
  let opc := BITS insn 30 29
  let N := BITS insn 22 22
  let immr := BITS insn 21 16
  let imms := BITS insn 15 10
  let width := if sf then 64 else 32
  if (if sf then N ≠ 1 else N ≠ 0 ∨ 32 ≤ immr ∨ 32 ≤ imms) then e
  else if opc = 2 then
    if imms = width - 1 then { e with op := by_sf sf .PD_LSR32I .PD_LSR64I, rm := immr }
    else if immr = imms + 1 then
      { e with op := by_sf sf .PD_LSL32I .PD_LSL64I, rm := width - 1 - imms }
    else if immr ≤ imms then
      { e with op := by_sf sf .PD_UBFX32 .PD_UBFX64, rm := immr, imm := ones (imms - immr + 1) }
    else
      { e with op := by_sf sf .PD_UBFIZ32 .PD_UBFIZ64, rm := width - immr, imm := ones (imms + 1) }
  else if opc = 0 then
    if imms = width - 1 then { e with op := by_sf sf .PD_ASR32I .PD_ASR64I, rm := immr }
    else if immr ≤ imms then
      { e with
        op := by_sf sf .PD_SBFX32 .PD_SBFX64
        rm := width - 1 - imms
        imm := BitVec.ofNat 64 (width - 1 - imms + immr) }
    else e
  else e

def fill_adr (e : PDEnt) (insn : u32) : PDEnt :=
  if !BIT insn 31 then { e with op := .PD_ADR, imm := adr_imm insn }
  else { e with op := .PD_ADRP, imm := adr_imm insn <<< 12 }

/-- SUBS stores its immediate inverted, ready for the carry adder. -/
def fill_addsub_imm (e : PDEnt) (insn : u32) : PDEnt :=
  let sf := BIT insn 31
  let op := BIT insn 30
  let imm := addsub_imm insn
  if BIT insn 29 then
    { e with
      op := if op then by_sf sf .PD_SUBS32I .PD_SUBS64I else by_sf sf .PD_ADDS32I .PD_ADDS64I
      imm := if op then ~~~imm else imm }
  else
    { e with
      op := if op then by_sf sf .PD_SUB32I .PD_SUB64I else by_sf sf .PD_ADD32I .PD_ADD64I
      imm := imm }

def fill_logical_imm (e : PDEnt) (insn : u32) : PDEnt :=
  let sf := BIT insn 31
  match pd_bitmasks (BITS insn 22 22) (BITS insn 15 10) (BITS insn 21 16) sf with
  | none => e
  | some wmask => { e with op := logical_imm_id (BITS insn 30 29) sf, imm := wmask }

def fill_move_wide (e : PDEnt) (insn : u32) : PDEnt :=
  let sf := BIT insn 31
  let hw := BITS insn 22 21
  let imm16 := BitVec.ofNat 64 (BITS insn 20 5)
  if !sf && decide (2 ≤ hw) then e
  else
    let shift := hw * 16
    match BITS insn 30 29 with
    | 0 =>
      let r := ~~~(imm16 <<< shift)
      { e with op := .PD_MOVI, imm := if sf then r else trunc32 r }
    | 2 =>
      let r := imm16 <<< shift
      { e with op := .PD_MOVI, imm := if sf then r else trunc32 r }
    | 3 => { e with op := by_sf sf .PD_MOVK32 .PD_MOVK64, rm := shift, imm := imm16 <<< shift }
    | _ => e

def fill_extract (e : PDEnt) (insn : u32) : PDEnt :=
  let sf := BIT insn 31
  let imms := BITS insn 15 10
  if BITS insn 30 29 ≠ 0 ∨ BIT insn 22 ≠ sf ∨ BIT insn 21 = true then e
  else if sf then { e with op := .PD_EXTR64, imm := BitVec.ofNat 64 imms }
  else if imms < 32 then { e with op := .PD_EXTR32, imm := BitVec.ofNat 64 imms }
  else e

def fill_dp_imm (e : PDEnt) (insn : u32) : PDEnt :=
  match BITS insn 28 23 with
  | 0x20 | 0x21 => fill_adr e insn
  | 0x22 => fill_addsub_imm e insn
  | 0x24 => fill_logical_imm e insn
  | 0x25 => fill_move_wide e insn
  | 0x26 => fill_bitfield e insn
  | 0x27 => fill_extract e insn
  | _ => e

/-- The entries of the branches. -/
def fill_branch (e : PDEnt) (insn : u32) : PDEnt :=
  if BITS insn 31 26 = 0x05 then
    { e with op := .PD_B, imm := branch_offset 26 (BITS insn 25 0) }
  else if BITS insn 31 26 = 0x25 then
    { e with op := .PD_BL, imm := branch_offset 26 (BITS insn 25 0) }
  else if BITS insn 31 24 = 0x54 ∧ BIT insn 4 = false then
    { e with op := .PD_BCOND, rd := BITS insn 3 0, imm := branch_offset 19 (BITS insn 23 5) }
  else if BITS insn 30 25 = 0x1a then
    let sf := BIT insn 31
    { e with
      op := if BIT insn 24 then by_sf sf .PD_CBNZ32 .PD_CBNZ64 else by_sf sf .PD_CBZ32 .PD_CBZ64
      imm := branch_offset 19 (BITS insn 23 5) }
  else if BITS insn 30 25 = 0x1b then
    { e with
      op := if BIT insn 24 then .PD_TBNZ else .PD_TBZ
      rm := BITS insn 31 31 * 32 + BITS insn 23 19
      imm := branch_offset 14 (BITS insn 18 5) }
  else if BITS insn 31 25 = 0x6b then
    let opc := BITS insn 24 21
    if opc = 0 ∨ opc = 2 then { e with op := .PD_BR }
    else if opc = 1 then { e with op := .PD_BLR }
    else e
  else if BITS insn 31 24 = 0xd5 then
    let op2 := BITS insn 7 5
    -- WFE and WFI halt and stay generic
    if BIT insn 21 = false ∧ BITS insn 20 19 = 0 ∧ BITS insn 18 16 = 3 ∧ BITS insn 15 12 = 2 ∧
        BITS insn 4 0 = 31 ∧ ¬ (BITS insn 11 8 = 0 ∧ (op2 = 2 ∨ op2 = 3)) then
      { e with op := .PD_NOP }
    else e
  else e

/-- The id of an integer single-register access, where one is covered. -/
def ldst_int_id (size opc : Nat) : Option PDOp :=
  match size * 4 + opc with
  | 0x0 => some .PD_STRB
  | 0x1 => some .PD_LDRB
  | 0x2 => some .PD_LDRSB64
  | 0x3 => some .PD_LDRSB32
  | 0x4 => some .PD_STRH
  | 0x5 => some .PD_LDRH
  | 0x6 => some .PD_LDRSH64
  | 0x7 => some .PD_LDRSH32
  | 0x8 => some .PD_STR32U
  | 0x9 => some .PD_LDR32U
  | 0xa => some .PD_LDRSW
  | 0xc => some .PD_STR64U
  | 0xd => some .PD_LDR64U
  | 0xe => some .PD_NOP
  | _ => none

def ldst_ro_id (size opc : Nat) : Option PDOp :=
  match size * 4 + opc with
  | 0x0 => some .PD_STRBRO
  | 0x1 => some .PD_LDRBRO
  | 0x4 => some .PD_STRHRO
  | 0x5 => some .PD_LDRHRO
  | 0x8 => some .PD_STR32RO
  | 0x9 => some .PD_LDR32RO
  | 0xc => some .PD_STR64RO
  | 0xd => some .PD_LDR64RO
  | _ => none

def ldst_wb_id (size opc : Nat) (post : Bool) : Option PDOp :=
  if size = 3 ∧ opc = 1 then some (if post then .PD_LDR64POST else .PD_LDR64PRE)
  else if size = 3 ∧ opc = 0 then some (if post then .PD_STR64POST else .PD_STR64PRE)
  else if size = 2 ∧ opc = 1 then some (if post then .PD_LDR32POST else .PD_LDR32PRE)
  else if size = 2 ∧ opc = 0 then some (if post then .PD_STR32POST else .PD_STR32PRE)
  else if size = 0 ∧ opc = 1 ∧ post then some .PD_LDRBPOST
  else if size = 0 ∧ opc = 0 ∧ post then some .PD_STRBPOST
  else none

/-- Scale and first id of a covered pair; the offset, pre and post forms are
three ids in a row. -/
def pair_base (V L : Bool) (opc : Nat) : Option (Nat × PDOp) :=
  if V then
    if opc = 2 then some (4, if L then .PD_LDPQ else .PD_STPQ)
    else if opc = 1 then some (3, if L then .PD_LDPD else .PD_STPD)
    else none
  else if opc = 2 then some (3, if L then .PD_LDP64 else .PD_STP64)
  else if opc = 0 then some (2, if L then .PD_LDP32 else .PD_STP32)
  else none

/-- The entries of the pair accesses. -/
def fill_pair (e : PDEnt) (insn : u32) : PDEnt :=
  let mode := BITS insn 25 23
  if 3 < mode then e
  else
    let kind := if mode = 1 then 2 else if mode = 3 then 1 else 0
    match pair_base (BIT insn 26) (BIT insn 22) (BITS insn 31 30) with
    | none => e
    | some (scale, base_id) =>
      { e with
        op := PDOp.ofNat (base_id.ctorIdx + kind)
        rm := BITS insn 14 10
        imm := imm7 insn <<< scale }

/-- SIMD&FP access without writeback: the Q form needs size 0, the others
carry their byte count in `rm`. -/
def fill_vreg (e : PDEnt) (insn : u32) : PDEnt :=
  let size := BITS insn 31 30
  let opc := BITS insn 23 22
  let load := opc % 2 = 1
  if 2 ≤ opc then
    if size ≠ 0 then e else { e with op := if load then .PD_LDRQ else .PD_STRQ }
  else { e with op := if load then .PD_LDRV else .PD_STRV, rm := 2 ^ size }

/-- The immediate of an access that was given an id; a generic entry keeps its
own. -/
def with_imm (e : PDEnt) (imm : u64) : PDEnt :=
  if e.op = .PD_GENERIC then e else { e with imm := imm }

def with_id (e : PDEnt) (id : Option PDOp) (imm : u64) : PDEnt :=
  match id with
  | some op => { e with op := op, imm := imm }
  | none => e

/-- The entries of the single-register accesses. -/
def fill_register (e : PDEnt) (insn : u32) : PDEnt :=
  let size := BITS insn 31 30
  let opc := BITS insn 23 22
  let V := BIT insn 26
  if BIT insn 24 then
    let imm12 := BitVec.ofNat 64 (BITS insn 21 10)
    if V then with_imm (fill_vreg e insn) (imm12 <<< (if 2 ≤ opc then 4 else size))
    else with_id e (ldst_int_id size opc) (imm12 <<< size)
  else if BIT insn 21 then
    if BITS insn 11 10 ≠ 2 ∨ V then e
    else
      with_id e (ldst_ro_id size opc)
        (BitVec.ofNat 64 (BITS insn 15 13) <<< 3 ||| BitVec.ofNat 64 (if BIT insn 12 then size else 0))
  else
    let mode := BITS insn 11 10
    if mode = 0 ∨ mode = 2 then
      if V then
        if mode = 2 then e else with_imm (fill_vreg e insn) (imm9 insn)
      else with_id e (ldst_int_id size opc) (imm9 insn)
    else
      let post : Bool := mode = 1
      if V then
        if 2 ≤ opc ∧ size = 0 then
          { e with
            op := if opc % 2 = 1 then (if post then .PD_LDRQPOST else .PD_LDRQPRE)
              else (if post then .PD_STRQPOST else .PD_STRQPRE)
            imm := imm9 insn }
        else e
      else with_id e (ldst_wb_id size opc post) (imm9 insn)

def fill_literal (e : PDEnt) (insn : u32) : PDEnt :=
  let opc := BITS insn 31 30
  let off := branch_offset 19 (BITS insn 23 5)
  if BIT insn 26 then
    if opc = 3 then e else { e with op := .PD_LDRLITV, rm := 4 * 2 ^ opc, imm := off }
  else
    match opc with
    | 0 => { e with op := .PD_LDRLIT32, imm := off }
    | 1 => { e with op := .PD_LDRLIT64, imm := off }
    | 3 => { e with op := .PD_NOP, imm := off }
    | _ => { e with imm := off }

def fill_ldst (e : PDEnt) (insn : u32) : PDEnt :=
  let b2927 := BITS insn 29 27
  if b2927 = 0x3 ∧ BITS insn 25 24 = 0 then fill_literal e insn
  else if b2927 = 0x5 then fill_pair e insn
  else if b2927 = 0x7 then fill_register e insn
  else e

def logical_reg_id (opc : Nat) (N sf : Bool) : PDOp :=
  match opc, N with
  | 0, false => by_sf sf .PD_AND32 .PD_AND64
  | 0, true => by_sf sf .PD_BIC32 .PD_BIC64
  | 1, false => by_sf sf .PD_ORR32 .PD_ORR64
  | 1, true => by_sf sf .PD_ORN32 .PD_ORN64
  | 2, false => by_sf sf .PD_EOR32 .PD_EOR64
  | 2, true => by_sf sf .PD_EON32 .PD_EON64
  | _, false => by_sf sf .PD_ANDS32 .PD_ANDS64
  | _, true => by_sf sf .PD_BICS32 .PD_BICS64

def logical_shift_id (opc : Nat) (sf : Bool) : PDOp :=
  match opc with
  | 0 => by_sf sf .PD_AND32S .PD_AND64S
  | 1 => by_sf sf .PD_ORR32S .PD_ORR64S
  | 2 => by_sf sf .PD_EOR32S .PD_EOR64S
  | _ => by_sf sf .PD_ANDS32S .PD_ANDS64S

def addsub_ext_id (op S sf : Bool) : PDOp :=
  match op, S with
  | false, false => by_sf sf .PD_ADDX32 .PD_ADDX64
  | false, true => by_sf sf .PD_ADDSX32 .PD_ADDSX64
  | true, false => by_sf sf .PD_SUBX32 .PD_SUBX64
  | true, true => by_sf sf .PD_SUBSX32 .PD_SUBSX64

def addsub_reg_id (op S sf : Bool) : PDOp :=
  match op, S with
  | false, false => by_sf sf .PD_ADD32R .PD_ADD64R
  | false, true => by_sf sf .PD_ADDS32R .PD_ADDS64R
  | true, false => by_sf sf .PD_SUB32R .PD_SUB64R
  | true, true => by_sf sf .PD_SUBS32R .PD_SUBS64R

def addsub_shift_id (op S sf : Bool) : PDOp :=
  match op, S with
  | false, false => by_sf sf .PD_ADD32RS .PD_ADD64RS
  | false, true => by_sf sf .PD_ADDS32RS .PD_ADDS64RS
  | true, false => by_sf sf .PD_SUB32RS .PD_SUB64RS
  | true, true => by_sf sf .PD_SUBS32RS .PD_SUBS64RS

def dp3_id (key : Nat) (sf : Bool) : PDOp :=
  match key with
  | 0x0 => by_sf sf .PD_MADD32 .PD_MADD64
  | 0x1 => by_sf sf .PD_MSUB32 .PD_MSUB64
  | 0x2 => by_sf sf .PD_GENERIC .PD_SMADDL
  | 0x3 => by_sf sf .PD_GENERIC .PD_SMSUBL
  | 0x4 => by_sf sf .PD_GENERIC .PD_SMULH
  | 0xa => by_sf sf .PD_GENERIC .PD_UMADDL
  | 0xb => by_sf sf .PD_GENERIC .PD_UMSUBL
  | 0xc => by_sf sf .PD_GENERIC .PD_UMULH
  | _ => .PD_GENERIC

def ccmp_id (op is_imm sf : Bool) : PDOp :=
  match op, is_imm with
  | false, false => by_sf sf .PD_CCMN32R .PD_CCMN64R
  | false, true => by_sf sf .PD_CCMN32I .PD_CCMN64I
  | true, false => by_sf sf .PD_CCMP32R .PD_CCMP64R
  | true, true => by_sf sf .PD_CCMP32I .PD_CCMP64I

def csel_id (op o2 sf : Bool) : PDOp :=
  match op, o2 with
  | false, false => by_sf sf .PD_CSEL32 .PD_CSEL64
  | false, true => by_sf sf .PD_CSINC32 .PD_CSINC64
  | true, false => by_sf sf .PD_CSINV32 .PD_CSINV64
  | true, true => by_sf sf .PD_CSNEG32 .PD_CSNEG64

def dp1_id (opcode : Nat) (sf : Bool) : PDOp :=
  match opcode with
  | 0x02 => by_sf sf .PD_REVW .PD_GENERIC
  | 0x03 => by_sf sf .PD_GENERIC .PD_REV64
  | 0x04 => by_sf sf .PD_CLZ32 .PD_CLZ64
  | _ => .PD_GENERIC

def dp2_id (opcode : Nat) (sf : Bool) : PDOp :=
  match opcode with
  | 0x02 => by_sf sf .PD_UDIV32 .PD_UDIV64
  | 0x03 => by_sf sf .PD_SDIV32 .PD_SDIV64
  | 0x08 => by_sf sf .PD_LSLV32 .PD_LSLV64
  | 0x09 => by_sf sf .PD_LSRV32 .PD_LSRV64
  | 0x0a => by_sf sf .PD_ASRV32 .PD_ASRV64
  | 0x0b => by_sf sf .PD_RORV32 .PD_RORV64
  | _ => .PD_GENERIC

def fill_logical_reg (e : PDEnt) (insn : u32) : PDEnt :=
  let sf := BIT insn 31
  let opc := BITS insn 30 29
  let shift := BITS insn 23 22
  let imm6 := BITS insn 15 10
  if !sf && decide (32 ≤ imm6) then e
  else if shift = 0 ∧ imm6 = 0 then { e with op := logical_reg_id opc (BIT insn 21) sf }
  else
    { e with
      op := logical_shift_id opc sf
      imm := BitVec.ofNat 64 (BITS insn 21 21) <<< 8 ||| BitVec.ofNat 64 (shift * 64 + imm6) }

def fill_addsub_reg (e : PDEnt) (insn : u32) : PDEnt :=
  let sf := BIT insn 31
  let op := BIT insn 30
  let S := BIT insn 29
  if BIT insn 21 then
    if 4 < BITS insn 12 10 ∨ BITS insn 23 22 ≠ 0 then e
    else
      { e with
        op := addsub_ext_id op S sf
        imm := BitVec.ofNat 64 (BITS insn 15 13 * 8 + BITS insn 12 10) }
  else
    let shift := BITS insn 23 22
    let imm6 := BITS insn 15 10
    if shift = 3 then e
    else if !sf && decide (32 ≤ imm6) then e
    else if shift = 0 ∧ imm6 = 0 then { e with op := addsub_reg_id op S sf }
    else { e with op := addsub_shift_id op S sf, imm := BitVec.ofNat 64 (shift * 64 + imm6) }

def fill_ccmp (e : PDEnt) (insn : u32) : PDEnt :=
  if !BIT insn 29 ∨ BIT insn 10 ∨ BIT insn 4 then e
  else
    { e with
      op := ccmp_id (BIT insn 30) (BIT insn 11) (BIT insn 31)
      imm := BitVec.ofNat 64 (BITS insn 15 12) ||| BitVec.ofNat 64 (BITS insn 20 16) <<< 8 |||
        (nzcv_of_imm (BITS insn 3 0)).setWidth 64 <<< 32 }

def fill_3source (e : PDEnt) (insn : u32) : PDEnt :=
  if BITS insn 30 29 ≠ 0 then e
  else
    let op := dp3_id (BITS insn 23 21 * 2 + BITS insn 15 15) (BIT insn 31)
    { e with op := op, imm := if op = .PD_GENERIC then 0#64 else BitVec.ofNat 64 (BITS insn 14 10) }

def fill_csel (e : PDEnt) (insn : u32) : PDEnt :=
  if BIT insn 29 ∨ BIT insn 11 then e
  else
    { e with
      op := csel_id (BIT insn 30) (BIT insn 10) (BIT insn 31)
      imm := BitVec.ofNat 64 (BITS insn 15 12) }

def fill_12source (e : PDEnt) (insn : u32) : PDEnt :=
  if BIT insn 30 then { e with op := dp1_id (BITS insn 15 10) (BIT insn 31) }
  else { e with op := dp2_id (BITS insn 15 10) (BIT insn 31) }

/-- The entries of the register operations. -/
def fill_dp_reg (e : PDEnt) (insn : u32) : PDEnt :=
  match BITS insn 28 24 with
  | 0x0a => fill_logical_reg e insn
  | 0x0b => fill_addsub_reg e insn
  | 0x1b => fill_3source e insn
  | 0x1a =>
    match BITS insn 28 21 with
    | 0xd2 => fill_ccmp e insn
    | 0xd4 => fill_csel e insn
    | 0xd6 => fill_12source e insn
    | _ => e
  | _ => e

/-- The entry `pd_fill` starts from: generic, with the three register fields
read from their usual places. -/
def pd_generic (insn : u32) : PDEnt :=
  ⟨insn, .PD_GENERIC, BITS insn 4 0, BITS insn 9 5, BITS insn 20 16, 0#64⟩

/-- The entry of a word; what has none is run by the decoder. -/
def pd_fill (insn : u32) : PDEnt :=
  let e := pd_generic insn
  match BITS insn 28 25 with
  | 0x8 | 0x9 => fill_dp_imm e insn
  | 0xa | 0xb => fill_branch e insn
  | 0x4 | 0x6 | 0xc | 0xe => fill_ldst e insn
  | 0x5 | 0xd => fill_dp_reg e insn
  | _ => e

end arm64emu
