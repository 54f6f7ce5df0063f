import Arm64Emu.Core.Cpu

namespace arm64emu

/-- `(s64)(s32)v`: the low word of a value, sign-extended. -/
def sext32 (v : u64) : u64 := (v.setWidth 32).signExtend 64

def carry_in (cin : Bool) : u64 := if cin then 1#64 else 0#64

/-- `add_with_carry`: the sum and its NZCV word. The caller that passes no
flags pointer ignores the second component. -/
def add_with_carry (x y : u64) (cin is64 : Bool) : u64 × u32 :=
  if is64 then
    let t := x + y
    let res := t + carry_in cin
    let c := decide (t < x) || decide (res < t)
    let v := (~~~(x ^^^ y) &&& (x ^^^ res)).getLsbD 63
    (res, mk_nzcv (res.getLsbD 63) (res == 0#64) c v)
  else
    let xx := trunc32 x
    let yy := trunc32 y
    let u := xx + yy + carry_in cin
    let res := trunc32 u
    let c := u.getLsbD 32
    let s := sext32 xx + sext32 yy + carry_in cin
    let v := sext32 res != s
    (res, mk_nzcv (res.getLsbD 31) (res == 0#64) c v)

theorem trunc32_add_with_carry (x y : u64) (cin : Bool) :
    trunc32 (add_with_carry x y cin false).1 = trunc32 (x + y + carry_in cin) := by
  simp only [add_with_carry, Bool.false_eq_true, if_false, trunc32_trunc32]
  apply BitVec.eq_of_toNat_eq
  simp only [trunc32_toNat, BitVec.toNat_add]
  omega

theorem add_with_carry_value (x y : u64) (op sf : Bool) :
    (if sf then if op then x - y else x + y else trunc32 (if op then x - y else x + y)) =
      if sf then (if op then add_with_carry x (~~~y) true sf else add_with_carry x y false sf).1
      else trunc32 (if op then add_with_carry x (~~~y) true sf else add_with_carry x y false sf).1 := by
  cases sf with
  | true =>
    cases op with
    | true => exact (add_not_add_one x y).symm
    | false => exact (BitVec.add_zero _).symm
  | false =>
    cases op with
    | true => exact (congrArg trunc32 (add_not_add_one x y)).symm.trans (trunc32_add_with_carry x (~~~y) true).symm
    | false => exact (congrArg trunc32 (BitVec.add_zero _)).symm.trans (trunc32_add_with_carry x y false).symm

/-- The NZCV word of a logical result: C and V are clear. -/
def logical_flags (res : u64) (is64 : Bool) : u32 :=
  if is64 then mk_nzcv (res.getLsbD 63) (res == 0#64) false false
  else mk_nzcv (res.getLsbD 31) (trunc32 res == 0#64) false false

def set_logical_flags (c : CPU) (res : u64) (is64 : Bool) : CPU :=
  { c with nzcv := logical_flags res is64 }

/-- Register shift by `amount` masked to the width; `type` is LSL, LSR, ASR or
ROR. A 32-bit LSL may leave bits above the word, which the callers truncate. -/
def shift_reg (v : u64) (type amount : Nat) (is64 : Bool) : u64 :=
  let w := if is64 then 64 else 32
  let amount := amount % w
  let v := if is64 then v else trunc32 v
  match type with
  | 0 => v <<< amount
  | 1 => v >>> amount
  | 2 => if is64 then v.sshiftRight amount else ((v.setWidth 32).sshiftRight amount).setWidth 64
  | _ => if is64 then ror64 v amount else (ror32 (v.setWidth 32) amount).setWidth 64

/-- An extended and shifted register operand. -/
def extend_reg (v : u64) (option shift : Nat) : u64 :=
  let out := match option % 4 with
    | 0 => (v.setWidth 8).setWidth 64
    | 1 => (v.setWidth 16).setWidth 64
    | 2 => trunc32 v
    | _ => v
  let out :=
    if option / 4 % 2 = 1 then
      let bits := match option % 4 with
        | 0 => 8
        | 1 => 16
        | 2 => 32
        | _ => 64
      sign_extend out bits
    else out
  out <<< shift

def crc32_bits (poly : u32) : Nat → u32 → u32
  | 0, c => c
  | k + 1, c => crc32_bits poly k ((c >>> 1) ^^^ (if c.getLsbD 0 then poly else 0#32))

/-- Entry `t[j][i]` of the slicing tables `crc32_tab_init` builds. -/
def crc32_tab (poly : u32) : Nat → Nat → u32
  | 0, i => crc32_bits poly 8 (BitVec.ofNat 32 i)
  | j + 1, i =>
    let prev := crc32_tab poly j i
    (prev >>> 8) ^^^ crc32_bits poly 8 (prev &&& 0xff#32)

def crc_byte (v : u32) (sh : Nat) : Nat := (v >>> sh).toNat % 256

/-- One CRC instruction, over 1, 2, 4 or 8 bytes. -/
def crc32_step (acc : u32) (data : u64) (bytes : Nat) (poly : u32) : u32 :=
  let t := crc32_tab poly
  if bytes = 8 then
    let acc := acc ^^^ data.setWidth 32
    let hi := (data >>> 32).setWidth 32
    t 7 (crc_byte acc 0) ^^^ t 6 (crc_byte acc 8) ^^^ t 5 (crc_byte acc 16) ^^^
      t 4 (crc_byte acc 24) ^^^ t 3 (crc_byte hi 0) ^^^ t 2 (crc_byte hi 8) ^^^
      t 1 (crc_byte hi 16) ^^^ t 0 (crc_byte hi 24)
  else
    (List.range bytes).foldl
      (fun acc i => (acc >>> 8) ^^^ t 0 (crc_byte (acc ^^^ (data >>> (8 * i)).setWidth 32) 0)) acc

def ror_within (v : u64) (r width : Nat) : u64 :=
  if width = 64 then ror64 v r
  else
    let v := trunc32 v
    let r := r % width
    if r = 0 then v else trunc32 ((v >>> r) ||| (v <<< (width - r)))

/-- `31 - __builtin_clz(n)` of a nonzero word. -/
def msb_index (n : Nat) : Nat := Nat.log2 n

/-- The element `elem` of `esize` bits repeated over 64 bits, from bit `i` on, in at most 32 rounds. -/
def replicate_elem (elem : u64) (esize : Nat) : Nat → Nat → u64 → u64
  | 0, _, acc => acc
  | fuel + 1, i, acc =>
    if i < 64 then replicate_elem elem esize fuel (i + esize) (acc ||| (elem <<< i)) else acc

/-- The immediate's element size exponent: the top bit of `immN:NOT(imms)`. -/
def bitmask_len (immN imms : Nat) : Option Nat :=
  let nimms := immN % 2 * 64 + (63 - imms % 64)
  if nimms = 0 then none
  else if msb_index nimms < 1 then none
  else some (msb_index nimms)

/-- `welem` rotated right by `R` within an element of `esize` bits. -/
def rotate_elem (welem : u64) (r esize : Nat) (emask : u64) : u64 :=
  if r = 0 then welem else ((welem >>> r) ||| (welem <<< (esize - r))) &&& emask

/-- The bitmask immediate by its definition, without the table. -/
def decode_bitmasks_slow (immN imms immr : Nat) : Option (u64 × u64) :=
  match bitmask_len immN imms with
  | none => none
  | some len =>
    let esize := 2 ^ len
    let S := imms % esize
    let R := immr % esize
    let diff := (S + esize - R) % esize
    let emask := ones esize
    let welem := ones (S + 1) &&& emask
    let telem := ones (diff + 1) &&& emask
    let w := rotate_elem welem (R % esize) esize emask
    some (replicate_elem w esize 32 0 0#64, replicate_elem telem esize 32 0 0#64)

/-- `decode_bitmasks`: the memo table holds `decode_bitmasks_slow` of its key,
so the front reads as the function it caches. -/
def decode_bitmasks (immN imms immr : Nat) (is64 : Bool) : Option (u64 × u64) :=
  match decode_bitmasks_slow immN imms immr with
  | none => none
  | some (wm, tm) =>
    if !is64 && immN != 0 then none
    else if is64 then some (wm, tm)
    else some (trunc32 wm, trunc32 tm)

def bswap32 (x : u32) : u32 :=
  x.extractLsb' 0 8 ++ x.extractLsb' 8 8 ++ x.extractLsb' 16 8 ++ x.extractLsb' 24 8

def bswap64 (x : u64) : u64 :=
  bswap32 (x.setWidth 32) ++ bswap32 ((x >>> 32).setWidth 32)

/-- `__builtin_clz` of a nonzero `w`-bit value. -/
def clz (w n : Nat) : Nat := w - 1 - msb_index n

end arm64emu
