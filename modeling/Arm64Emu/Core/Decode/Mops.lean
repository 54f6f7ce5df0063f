import Arm64Emu.Mem.Access
import Arm64Emu.Core.Decode.Helpers

namespace arm64emu

def mops_page_limit (addr : u64) : u64 := ((addr + 0x1000#64) &&& ~~~0xfff#64) - addr

def mops_page_limit_rev (addr : u64) : u64 := (addr &&& 0xfff#64) + 1#64

/-- The syndrome of a MOPS exception, which names the registers and the stage
for the run loop. -/
def mops_iss (insn : u32) (wrong_option : Bool) : Nat :=
  let is_set := BITS insn 23 22 = 3
  let options := if is_set then BITS insn 13 12 else BITS insn 15 12
  let epilogue := if is_set then BITS insn 15 14 = 2 else BITS insn 23 22 = 2
  (if is_set then 2 ^ 24 else 0) + options * 2 ^ 19 + (if epilogue then 2 ^ 18 else 0) +
    (if wrong_option then 2 ^ 17 else 0) + 2 ^ 16 +
    BITS insn 4 0 * 2 ^ 10 + BITS insn 20 16 * 2 ^ 5 + BITS insn 9 5

def mops_raise (c : CPU) (insn : u32) (wrong_option : Bool) : CPU :=
  cpu_raise_sync c (esr_make EC_MOP (mops_iss insn wrong_option)) 0#64

def host_memset (m : Mem) (p n : Nat) (data : u8) : Mem :=
  { m with byte := fun a => if p ≤ a ∧ a < p + n then data else m.byte a }

def host_memmove (m : Mem) (dst src n : Nat) : Mem :=
  { m with byte := fun a => if dst ≤ a ∧ a < dst + n then m.byte (src + (a - dst)) else m.byte a }

def umin (a b : u64) : u64 := if b < a then b else a

/-- One bounded memset step; 0 bytes done means a fault was raised. -/
def mops_set_step (pg : Pager) (c : CPU) (toaddr setsize : u64) (data : u8) : CPU × u64 :=
  let n := umin (mops_page_limit toaddr) setsize
  match mem_host_ptr pg c toaddr n.toNat .w with
  | (c, some hp) => ({ c with mem := host_memset c.mem hp n.toNat data }, n)
  | (c, none) =>
    match mem_write pg c toaddr 1 (data.setWidth 64) with
    | .ok _ c => (c, 1#64)
    | .fault c => (c, 0#64)

/-- One bounded copy step; with `rev` the addresses name the last byte and the
step works downwards. -/
def mops_copy_step (pg : Pager) (c : CPU) (toaddr fromaddr copysize : u64) (rev : Bool) : CPU × u64 :=
  let n := if rev then mops_page_limit_rev toaddr else mops_page_limit toaddr
  let m := if rev then mops_page_limit_rev fromaddr else mops_page_limit fromaddr
  let n := umin (umin n m) copysize
  let (c, w) := mem_host_ptr pg c (if rev then toaddr - (n - 1#64) else toaddr) n.toNat .w
  let (c, r) := mem_host_ptr pg c (if rev then fromaddr - (n - 1#64) else fromaddr) n.toNat .r
  match w, r with
  | some w, some r => ({ c with mem := host_memmove c.mem w r n.toNat }, n)
  | _, _ =>
    match mem_read pg c fromaddr 1 with
    | .fault c => (c, 0#64)
    | .ok byte c =>
      match mem_write pg c toaddr 1 byte with
      | .ok _ c => (c, 1#64)
      | .fault c => (c, 0#64)

/-- The loop of SETP. Each round does a byte or more of `stage`, which bounds the rounds. The result is the CPU with
the remaining size, or at a fault. -/
def setp_loop (pg : Pager) (Rd Rn : Nat) (data : u8) :
    Nat → CPU → (toaddr setsize stage : u64) → Access (u64 × u64)
  | 0, c, toaddr, setsize, _ => .ok (toaddr, setsize) c
  | fuel + 1, c, toaddr, setsize, stage =>
    if stage = 0#64 then .ok (toaddr, setsize) c
    else
      let c := set_x (set_x c Rd toaddr) Rn setsize
      let (c, step) := mops_set_step pg c toaddr stage data
      if step = 0#64 then .fault c
      else setp_loop pg Rd Rn data fuel c (toaddr + step) (setsize - step) (stage - step)

/-- The loop of SETM and SETE, which folds progress into Xn every round. -/
def setme_loop (pg : Pager) (Rn : Nat) (data : u8) :
    Nat → CPU → (toaddr setsize stage : u64) → CPU
  | 0, c, _, _, _ => c
  | fuel + 1, c, toaddr, setsize, stage =>
    if stage = 0#64 then c
    else
      let (c, step) := mops_set_step pg c toaddr setsize data
      if step = 0#64 then c
      else
        let setsize := setsize - step
        let stage := if stage ≤ step then 0#64 else stage - step
        setme_loop pg Rn data fuel (set_x c Rn (0#64 - setsize)) (toaddr + step) setsize stage

/-- `SETP`, `SETM` and `SETE`. -/
def mops_set (pg : Pager) (c : CPU) (insn : u32) (stage : Nat) : CPU :=
  let Rd := BITS insn 4 0
  let Rn := BITS insn 9 5
  let data := (reg_x c (BITS insn 20 16)).setWidth 8
  if stage = 0 then
    let toaddr := reg_x c Rd
    let setsize := umin (reg_x c Rn) 0x7fffffffffffffff#64
    let stagesetsize := umin (mops_page_limit toaddr) setsize
    match setp_loop pg Rd Rn data stagesetsize.toNat c toaddr setsize stagesetsize with
    | .fault c => c
    | .ok (toaddr, setsize) c =>
      { set_x (set_x c Rd (toaddr + setsize)) Rn (0#64 - setsize) with nzcv := 0#32 }
  else
    let xn := reg_x c Rn
    if xn = 0#64 then c
    else if flag c.nzcv PS_C then mops_raise c insn true
    else
      let toaddr := reg_x c Rd + xn
      let setsize := 0#64 - xn
      if stage = 2 ∧ 0x1000#64 ≤ setsize then mops_raise c insn false
      else
        let stagesetsize := if stage = 1 then setsize &&& ~~~0xfff#64 else setsize
        setme_loop pg Rn data stagesetsize.toNat c toaddr setsize stagesetsize

/-- The forward copy, a piece at a time. -/
def cpyp_fwd_loop (pg : Pager) (Rd Rs Rn : Nat) :
    Nat → CPU → (toaddr fromaddr copysize stage : u64) → Access (u64 × u64 × u64)
  | 0, c, toaddr, fromaddr, copysize, _ => .ok (toaddr, fromaddr, copysize) c
  | fuel + 1, c, toaddr, fromaddr, copysize, stage =>
    if stage = 0#64 then .ok (toaddr, fromaddr, copysize) c
    else
      let c := set_x (set_x (set_x c Rd toaddr) Rs fromaddr) Rn copysize
      let (c, step) := mops_copy_step pg c toaddr fromaddr stage false
      if step = 0#64 then .fault c
      else
        cpyp_fwd_loop pg Rd Rs Rn fuel c (toaddr + step) (fromaddr + step) (copysize - step) (stage - step)

/-- The backward loop of CPYP, which works from the last byte down. -/
def cpyp_rev_loop (pg : Pager) (Rn : Nat) :
    Nat → CPU → (t f copysize stage : u64) → Access u64
  | 0, c, _, _, copysize, _ => .ok copysize c
  | fuel + 1, c, t, f, copysize, stage =>
    if stage = 0#64 then .ok copysize c
    else
      let (c, step) := mops_copy_step pg (set_x c Rn copysize) t f stage true
      if step = 0#64 then .fault c
      else cpyp_rev_loop pg Rn fuel c (t - step) (f - step) (copysize - step) (stage - step)

/-- The loop of CPYM and CPYE: M runs while a full page remains, E to zero. -/
def cpyme_loop (pg : Pager) (Rn stage : Nat) (fwd : Bool) :
    Nat → CPU → (toaddr fromaddr copysize : u64) → CPU
  | 0, c, _, _, _ => c
  | fuel + 1, c, toaddr, fromaddr, copysize =>
    if (if stage = 1 then 0x1000#64 ≤ copysize else 0#64 < copysize) then
      let (c, step) := mops_copy_step pg c toaddr fromaddr copysize (!fwd)
      if step = 0#64 then c
      else
        let toaddr := if fwd then toaddr + step else toaddr - step
        let fromaddr := if fwd then fromaddr + step else fromaddr - step
        let copysize := copysize - step
        cpyme_loop pg Rn stage fwd fuel (set_x c Rn (if fwd then 0#64 - copysize else copysize))
          toaddr fromaddr copysize
    else c

/-- The first instruction of a copy, which picks its direction. -/
def mops_cpyp (pg : Pager) (c : CPU) (insn : u32) (move : Bool) : CPU :=
  let Rd := BITS insn 4 0
  let Rn := BITS insn 9 5
  let Rs := BITS insn 20 16
  let toaddr := reg_x c Rd
  let fromaddr := reg_x c Rs
  let copysize := umin (reg_x c Rn) (if move then 0x007fffffffffffff#64 else 0x7fffffffffffffff#64)
  let mask := 0xffffffffffffff#64
  let fs := fromaddr &&& mask
  let ts := toaddr &&& mask
  let fe := (fromaddr + copysize) &&& mask
  if move && decide (fs < ts) && decide (ts < fe) then
    let t := toaddr + copysize - 1#64
    let f := fromaddr + copysize - 1#64
    let stage := umin (umin (mops_page_limit_rev t) (mops_page_limit_rev f)) copysize
    match cpyp_rev_loop pg Rn stage.toNat c t f copysize stage with
    | .fault c => c
    | .ok copysize c => { set_x c Rn copysize with nzcv := 0#32 }
  else
    let stage := umin (umin (mops_page_limit toaddr) (mops_page_limit fromaddr)) copysize
    match cpyp_fwd_loop pg Rd Rs Rn stage.toNat c toaddr fromaddr copysize stage with
    | .fault c => c
    | .ok (toaddr, fromaddr, copysize) c =>
      let c := set_x (set_x c Rd (toaddr + copysize)) Rs (fromaddr + copysize)
      { set_x c Rn (0#64 - copysize) with nzcv := 0#32 }

/-- `CPYP`, `CPYM` and `CPYE`. -/
def mops_cpy (pg : Pager) (c : CPU) (insn : u32) (stage : Nat) (move : Bool) : CPU :=
  let Rd := BITS insn 4 0
  let Rn := BITS insn 9 5
  let Rs := BITS insn 20 16
  if stage = 0 then mops_cpyp pg c insn move
  else
    let xn := reg_x c Rn
    if xn = 0#64 then c
    else if flag c.nzcv PS_C then mops_raise c insn true
    else
      let fwd := !move || xn.getLsbD 63
      let copysize := if fwd then 0#64 - xn else xn
      let toaddr := if fwd then reg_x c Rd + xn else reg_x c Rd + copysize - 1#64
      let fromaddr := if fwd then reg_x c Rs + xn else reg_x c Rs + copysize - 1#64
      if stage = 2 ∧ 0x1000#64 ≤ copysize then mops_raise c insn false
      else cpyme_loop pg Rn stage fwd copysize.toNat c toaddr fromaddr copysize

/-- EL0 may use the family only where SCTLR_EL1.MSCEn lets it. -/
def mops_enabled (c : CPU) : Bool := c.el != 0 || (c.sctlr 1).getLsbD 33

/-- The memory copy and set instructions. -/
def mops (pg : Pager) (c : CPU) (insn : u32) : CPU :=
  let op1 := BITS insn 23 22
  let Rd := BITS insn 4 0
  let Rn := BITS insn 9 5
  let Rs := BITS insn 20 16
  if BITS insn 31 30 ≠ 0 then undefined c
  else if op1 = 3 then
    let stage := BITS insn 15 14
    if BIT insn 26 = true ∨ stage = 3 ∨ Rs = Rn ∨ Rs = Rd ∨ Rn = Rd ∨ Rd = 31 ∨ Rn = 31 then undefined c
    else if mops_enabled c then mops_set pg c insn stage
    else undefined c
  else if Rs = Rn ∨ Rs = Rd ∨ Rn = Rd ∨ Rd = 31 ∨ Rs = 31 ∨ Rn = 31 then undefined c
  else if mops_enabled c then mops_cpy pg c insn op1 (BIT insn 26)
  else undefined c

end arm64emu
