import Mathlib.Tactic.FinCases
import Arm64Emu.Jit.Frontend
import Arm64Emu.Predecode.DpReg
import Arm64Emu.Predecode.Wf

namespace arm64emu

open BitVec

section registers

variable (s : IRState) {r : Nat}

theorem rx_ne_zero (hr : r < 32) : rx r ≠ VREG_ZERO ↔ r ≠ 31 := by
  unfold rx
  split
  · simp [*]
  constructor
  · intro _
    assumption
  intro _
  unfold VREG_ZERO
  omega

theorem vget_low (hr : r < 31) : vget s r = s.c.x r := by
  have hne : r ≠ VREG_ZERO := by unfold VREG_ZERO; omega
  have hsp : r ≠ VREG_SP := by unfold VREG_SP; omega
  have htmp : ¬ VREG_TMP0 ≤ r := by unfold VREG_TMP0; omega
  rw [vget, if_neg hne, if_neg hsp, if_neg htmp]

theorem vset_low (hr : r < 31) (v : u64) :
    vset s r v = { s with c := { s.c with x := Function.update s.c.x r v } } := by
  have hne : r ≠ VREG_ZERO := by unfold VREG_ZERO; omega
  have hsp : r ≠ VREG_SP := by unfold VREG_SP; omega
  have htmp : ¬ VREG_TMP0 ≤ r := by unfold VREG_TMP0; omega
  rw [vset, if_neg hne, if_neg hsp, if_neg htmp]

theorem vget_rx (hr : r < 32) : vget s (rx r) = reg_x s.c r := by
  unfold rx reg_x
  by_cases h : r = 31
  · rw [if_pos h, if_pos h]
    rfl
  · rw [if_neg h, if_neg h]
    exact vget_low s (by omega)

theorem vset_rx (hr : r < 32) (v : u64) : vset s (rx r) v = { s with c := set_x s.c r v } := by
  unfold rx set_x
  by_cases h : r = 31
  · rw [if_pos h, if_pos h]
    rfl
  · rw [if_neg h, if_neg h]
    exact vset_low s (by omega) v

theorem cpu_cur_sp_el0 {c : CPU} (hel : c.el = 0) : cpu_cur_sp c = 0 := by
  unfold cpu_cur_sp
  rw [hel, ite_self]

theorem vget_rsp (hel : s.c.el = 0) (hr : r < 32) : vget s (rsp r) = reg_xsp s.c r := by
  unfold rsp reg_xsp
  by_cases h : r = 31
  · rw [if_pos h, h, cpu_cur_sp_el0 hel]
    rfl
  · rw [if_neg h]
    exact vget_low s (by omega)

theorem vset_rsp (hel : s.c.el = 0) (hr : r < 32) (v : u64) :
    vset s (rsp r) v = { s with c := set_xsp s.c r v } := by
  unfold rsp set_xsp
  by_cases h : r = 31
  · rw [if_pos h, h, cpu_cur_sp_el0 hel]
    rfl
  · rw [if_neg h]
    exact vset_low s (by omega) v

end registers

section arithmetic

variable (a b : u64)

theorem trunc32_eq_iff {a b : u64} : trunc32 a = trunc32 b ↔ a.setWidth 32 = b.setWidth 32 := by
  constructor
  · intro h
    rw [← setWidth32_trunc32 a, h, setWidth32_trunc32]
  · intro h
    rw [trunc32, h, ← trunc32]

theorem low_add : (a + b).setWidth 32 = a.setWidth 32 + b.setWidth 32 := setWidth_add a b (by decide)

theorem low_mul : (a * b).setWidth 32 = a.setWidth 32 * b.setWidth 32 := setWidth_mul a b (by decide)

theorem low_not : (~~~a).setWidth 32 = ~~~a.setWidth 32 := setWidth_not (by decide)

theorem low_sub : (a - b).setWidth 32 = a.setWidth 32 - b.setWidth 32 := by
  apply eq_of_toNat_eq
  simp only [toNat_setWidth, toNat_sub]
  omega

theorem at_width_ext {w : Bool} {a b : u64} (hwide : w = true → a = b)
    (hlow : w = false → a.setWidth 32 = b.setWidth 32) : at_width w a = at_width w b := by
  cases w with
  | true => exact hwide rfl
  | false => exact trunc32_eq_iff.mpr (hlow rfl)

@[simp] theorem at_width_at_width (w : Bool) : at_width w (at_width w a) = at_width w a := by
  cases w with
  | true => rfl
  | false => exact trunc32_trunc32 a

theorem at_width_awc (w cin : Bool) :
    at_width w (add_with_carry a b cin w).1 = at_width w (a + b + carry_in cin) := by
  cases w with
  | true => rfl
  | false => exact trunc32_add_with_carry a b cin

theorem at_width_awc_add (w : Bool) : at_width w (add_with_carry a b false w).1 = at_width w (a + b) := by
  rw [at_width_awc, show carry_in false = 0#64 from rfl, BitVec.add_zero]

theorem at_width_awc_sub (w : Bool) :
    at_width w (add_with_carry a (~~~b) true w).1 = at_width w (a - b) := by
  rw [at_width_awc, show carry_in true = 1#64 from rfl, add_not_add_one]

end arithmetic

/-- The operations between two registers, and those with an immediate. -/
def rr_ops : List IROpc :=
  [.IRO_ADD, .IRO_ADDS, .IRO_SUB, .IRO_SUBS, .IRO_ADC, .IRO_ADCS, .IRO_SBC, .IRO_SBCS, .IRO_AND, .IRO_ANDS,
    .IRO_BIC, .IRO_BICS, .IRO_ORR, .IRO_ORN, .IRO_EOR, .IRO_EON]

def ri_ops : List IROpc :=
  [.IRO_ADDI, .IRO_ADDIS, .IRO_SUBI, .IRO_SUBIS, .IRO_ANDI, .IRO_ANDIS, .IRO_ORRI, .IRO_EORI]

theorem rr_ops_alu {op : IROpc} (hop : op ∈ rr_ops) : op.is_alu = true := by
  have hall : ∀ op ∈ rr_ops, op.is_alu = true := by decide
  exact hall op hop

theorem ri_ops_alu {op : IROpc} (hop : op ∈ ri_ops) : op.is_alu = true := by
  have hall : ∀ op ∈ ri_ops, op.is_alu = true := by decide
  exact hall op hop

theorem ir_value_full {o : IROp} (hop : o.op ∈ rr_ops ++ ri_ops) {y y' : u64}
    (hy : at_width o.w y = at_width o.w y') (x acc acc' : u64) (nzcv : u32) :
    at_width o.w (ir_value o x y acc nzcv) = at_width o.w (ir_value { o with w := true } x y' acc' nzcv) := by
  simp only [rr_ops, ri_ops, List.mem_append, List.mem_cons, List.not_mem_nil, or_false] at hop
  apply at_width_ext
  · intro hw
    rw [hw] at hy
    rcases hop with (h | h | h | h | h | h | h | h | h | h | h | h | h | h | h | h) |
      (h | h | h | h | h | h | h | h) <;>
      simp only [ir_value, h, hw, at_width_true] at hy ⊢ <;> rw [hy]
  intro hw
  rw [hw] at hy
  have hlow := trunc32_eq_iff.mp hy
  rcases hop with (h | h | h | h | h | h | h | h | h | h | h | h | h | h | h | h) |
    (h | h | h | h | h | h | h | h) <;>
    simp only [ir_value, h, hw, at_width_true, at_width_false, low_add, low_sub, low_not,
      setWidth_and, setWidth_or, setWidth_xor, setWidth32_trunc32, hlow]

theorem awc_congr {w : Bool} {y y' : u64} (hy : at_width w y = at_width w y') (x : u64) (cin : Bool) :
    add_with_carry x y cin w = add_with_carry x y' cin w := by
  cases w with
  | true =>
    have hy : y = y' := hy
    rw [hy]
  | false => exact add_with_carry_congr x cin hy

theorem ir_flags_full {o : IROp} (hop : o.op ∈ rr_ops) {y y' : u64} (hy : at_width o.w y = at_width o.w y')
    (x : u64) (nzcv : u32) : ir_flags o x y nzcv = ir_flags o x y' nzcv := by
  have hnot : at_width o.w (~~~y) = at_width o.w (~~~y') := by
    apply at_width_ext
    · intro hw
      rw [hw] at hy
      exact congrArg _ (show y = y' from hy)
    intro hw
    rw [hw] at hy
    rw [low_not, low_not, trunc32_eq_iff.mp hy]
  have hand {v v' : u64} (hv : at_width o.w v = at_width o.w v') :
      at_width o.w (x &&& v) = at_width o.w (x &&& v') := by
    apply at_width_ext
    · intro hw
      rw [hw] at hv
      rw [show v = v' from hv]
    intro hw
    rw [hw] at hv
    rw [setWidth_and, setWidth_and, trunc32_eq_iff.mp hv]
  simp only [rr_ops, List.mem_cons, List.not_mem_nil, or_false] at hop
  rcases hop with h | h | h | h | h | h | h | h | h | h | h | h | h | h | h | h <;>
    simp only [ir_flags, h, awc_congr hy, awc_congr hnot, hand hy, hand hnot]

def with_flags (c : CPU) (nzcv : Option u32) : CPU :=
  match nzcv with
  | some f => { c with nzcv := f }
  | none => c

def set_flags (s : IRState) (nzcv : Option u32) : IRState := { s with c := with_flags s.c nzcv }

@[simp] theorem set_flags_none (s : IRState) : set_flags s none = s := rfl

section run

variable {env : IREnv} {k n : Nat} {s : IRState}

theorem ir_alu_put (op : IROpc) (w : Bool) (dst a b cc : Nat) (imm : u64) (aux : u32) :
    ir_alu s (ir_put n op w dst a b cc imm aux) =
      vset (set_flags s (ir_flags (ir_put n op w dst a b cc imm aux) (vget s a) (vget s b) s.c.nzcv)) dst
        (at_width w (ir_value (ir_put n op w dst a b cc imm aux) (vget s a) (vget s b) (vget s cc)
          s.c.nzcv)) := by
  unfold ir_alu put_flags set_flags with_flags
  simp only [ir_put, Bool.false_eq_true, if_false]
  split <;> simp only [*]

section flags

variable {op : IROpc} {w : Bool} {dst a b cc : Nat} {imm x y : u64} {aux nzcv : u32}

theorem rr_flags_none (hop : op ∈ rr_ops) (hf : sets_flags_rr op = false) :
    ir_flags (ir_put n op w dst a b cc imm aux) x y nzcv = none := by
  fin_cases hop <;> first | rfl | cases hf

theorem ri_flags_none (hop : op ∈ ri_ops) (hf : sets_flags_ri op = false) :
    ir_flags (ir_put n op w dst a b cc imm aux) x y nzcv = none := by
  fin_cases hop <;> first | rfl | cases hf

end flags

/-- `put_alu` runs its operation, also where it leaves it out. -/
theorem run_put_alu {op : IROpc} (hop : op ∈ rr_ops) (w : Bool) (dst a b : Nat) {y : u64}
    (hy : at_width w (vget s b) = at_width w y) :
    ir_run env k (put_alu n op w dst a b) s =
      .next (vset (set_flags s (ir_flags (ir_put n op w dst a b 0 0#64 0#32) (vget s a) y s.c.nzcv)) dst
        (at_width w (ir_value (ir_put n op true dst a b 0 0#64 0#32) (vget s a) y 0#64 s.c.nzcv))) := by
  have hval := ir_value_full (o := ir_put n op w dst a b 0 0#64 0#32) (List.mem_append_left _ hop) hy
    (vget s a) (vget s 0) 0#64 s.c.nzcv
  have hflags := ir_flags_full (o := ir_put n op w dst a b 0 0#64 0#32) hop hy (vget s a) s.c.nzcv
  unfold put_alu
  split
  next h =>
    obtain ⟨hz, hf⟩ := h
    rw [rr_flags_none hop hf, hz]
    rfl
  rw [ir_run_alu env k s [] (rr_ops_alu hop), ir_alu_put, hflags]
  rw [show at_width w _ = _ from hval]
  rfl

theorem run_put_alui {op : IROpc} (hop : op ∈ ri_ops) (w : Bool) (dst a : Nat) (imm : u64) :
    ir_run env k (put_alui n op w dst a imm) s =
      .next (vset (set_flags s (ir_flags (ir_put n op w dst a 0 0 imm 0#32) (vget s a) 0#64 s.c.nzcv)) dst
        (at_width w (ir_value (ir_put n op true dst a 0 0 imm 0#32) (vget s a) 0#64 0#64 s.c.nzcv))) := by
  have hval := ir_value_full (o := ir_put n op w dst a 0 0 imm 0#32) (List.mem_append_right _ hop) rfl
    (vget s a) (vget s 0) 0#64 s.c.nzcv (y := vget s 0)
  have hflags : ir_flags (ir_put n op w dst a 0 0 imm 0#32) (vget s a) (vget s 0) s.c.nzcv =
      ir_flags (ir_put n op w dst a 0 0 imm 0#32) (vget s a) 0#64 s.c.nzcv := by
    fin_cases hop <;> rfl
  have hzero : ir_value (ir_put n op true dst a 0 0 imm 0#32) (vget s a) (vget s 0) 0#64 s.c.nzcv =
      ir_value (ir_put n op true dst a 0 0 imm 0#32) (vget s a) 0#64 0#64 s.c.nzcv := by
    fin_cases hop <;> rfl
  unfold put_alui
  split
  next h =>
    obtain ⟨hz, hf⟩ := h
    rw [ri_flags_none hop hf, hz]
    rfl
  rw [ir_run_alu env k s [] (ri_ops_alu hop), ir_alu_put, hflags]
  rw [show at_width w _ = _ from hval]
  change _ = IRResult.next (vset _ _ (at_width w _))
  rw [← hzero]
  rfl

end run

/-- A run that ends in this CPU: it stays in the block, or leaves it with one
more instruction retired. -/
def IRResult.Gives (r : IRResult) (want : CPU) (n : Nat) : Prop :=
  match r with
  | .next s => s.c = want
  | .leave c retired => c = want ∧ retired = n + 1

section handlers

variable {env : IREnv} {k n : Nat} {s : IRState} (w : Bool) (e : PDEnt)

theorem pd_adds_add (c : CPU) (x y : u64) :
    pd_adds c e x y false w =
      set_x (with_flags c (some (add_with_carry x y false w).2)) e.rd (at_width w (x + y)) := by
  rw [← at_width_awc_add]
  rfl

theorem pd_adds_sub (c : CPU) (x y : u64) :
    pd_adds c e x (~~~y) true w =
      set_x (with_flags c (some (add_with_carry x (~~~y) true w).2)) e.rd (at_width w (x - y)) := by
  rw [← at_width_awc_sub]
  rfl

variable {op : IROpc}

theorem gives_alui_x (hop : op ∈ ri_ops) (a : Nat) (imm : u64) (hrd : e.rd < 32) {x : u64}
    (hx : vget s a = x) :
    (ir_run env k (put_alui n op w (rx e.rd) a imm) s).Gives
      (set_x (with_flags s.c (ir_flags (ir_put n op w 0 0 0 0 imm 0#32) x 0#64 s.c.nzcv)) e.rd
        (at_width w (ir_value (ir_put n op true 0 0 0 0 imm 0#32) x 0#64 0#64 s.c.nzcv))) n := by
  rw [run_put_alui hop, vset_rx _ hrd, hx]
  rfl

theorem gives_alui_sp (hop : op ∈ ri_ops) (hfl : sets_flags_ri op = false) (a : Nat) (imm : u64)
    (hel : s.c.el = 0) (hrd : e.rd < 32) {x : u64} (hx : vget s a = x) :
    (ir_run env k (put_alui n op w (rsp e.rd) a imm) s).Gives
      (set_xsp s.c e.rd
        (at_width w (ir_value (ir_put n op true 0 0 0 0 imm 0#32) x 0#64 0#64 s.c.nzcv))) n := by
  rw [run_put_alui hop, ri_flags_none hop hfl, set_flags_none, vset_rsp _ hel hrd, hx]
  rfl

theorem gives_alu_x (hop : op ∈ rr_ops) (a b : Nat) (hrd : e.rd < 32) {x y : u64}
    (hx : vget s a = x) (hy : at_width w (vget s b) = at_width w y) :
    (ir_run env k (put_alu n op w (rx e.rd) a b) s).Gives
      (set_x (with_flags s.c (ir_flags (ir_put n op w 0 0 0 0 0#64 0#32) x y s.c.nzcv)) e.rd
        (at_width w (ir_value (ir_put n op true 0 0 0 0 0#64 0#32) x y 0#64 s.c.nzcv))) n := by
  rw [run_put_alu hop w _ a b hy, vset_rx _ hrd, hx]
  rfl

theorem gives_alu_sp (hop : op ∈ rr_ops) (hfl : sets_flags_rr op = false) (a b : Nat) (hel : s.c.el = 0)
    (hrd : e.rd < 32) {x y : u64} (hx : vget s a = x) (hy : at_width w (vget s b) = at_width w y) :
    (ir_run env k (put_alu n op w (rsp e.rd) a b) s).Gives
      (set_xsp s.c e.rd
        (at_width w (ir_value (ir_put n op true 0 0 0 0 0#64 0#32) x y 0#64 s.c.nzcv))) n := by
  rw [run_put_alu hop w _ a b hy, rr_flags_none hop hfl, set_flags_none, vset_rsp _ hel hrd, hx]
  rfl

/-- The operations left out on the zero register have no other effect. -/
theorem run_unless_zr (hrd : e.rd < 32) {ops : List IROp} {v : u64}
    (hrun : e.rd ≠ 31 → ∃ tmp, ir_run env k ops s = .next (vset { s with tmp := tmp } (rx e.rd) v)) :
    (ir_run env k (put_unless_zr e.rd ops) s).Gives (set_x s.c e.rd v) n := by
  unfold put_unless_zr
  by_cases h : e.rd = 31
  · rw [if_pos (by rw [h]; rfl), h]
    rfl
  rw [if_neg ((rx_ne_zero hrd).mpr h)]
  obtain ⟨tmp, hrun⟩ := hrun h
  rw [hrun, vset_rx _ hrd]
  rfl

end handlers

section operands

variable {env : IREnv} {k n : Nat} {s : IRState} {rm : Nat} (v : u64)

@[simp] theorem vget_tmp0 : vget (vset s VREG_TMP0 v) VREG_TMP0 = v := rfl

@[simp] theorem vset_tmp0_c : (vset s VREG_TMP0 v).c = s.c := rfl

theorem ir_run_tmp0 (op : IROpc) (hop : op.is_alu = true) (w : Bool) (a b : Nat) (imm : u64) (os : List IROp)
    (hnone : ∀ x y f, ir_flags (ir_put n op w VREG_TMP0 a b 0 imm 0#32) x y f = none) :
    ir_run env k (ir_put n op w VREG_TMP0 a b 0 imm 0#32 :: os) s =
      ir_run env (k + 1) os (vset s VREG_TMP0 (at_width w
        (ir_value (ir_put n op w VREG_TMP0 a b 0 imm 0#32) (vget s a) (vget s b) (vget s 0) s.c.nzcv))) := by
  rw [ir_run_alu env k s os hop, ir_alu_put, hnone, set_flags_none]

theorem shift_reg_of_zero (type amt : Nat) (w : Bool) : shift_reg 0#64 type amt w = 0#64 := by
  unfold shift_reg
  cases w <;> simp [trunc32, ror64, ror32] <;> split <;> simp

theorem at_width_shift_zero {type : Nat} (htype : type < 4) (w : Bool) :
    at_width w (shift_reg v type 0 w) = at_width w v := by
  obtain rfl | rfl | rfl | rfl := lt_four htype
  all_goals cases w <;> simp [shift_reg, ror64, ror32, setWidth32_trunc32] <;> rfl

theorem run_fe_shifted (hrm : rm < 32) {type : Nat} (amt : Nat) (htype : type < 4) (w : Bool) :
    ∃ s', ir_run env k (fe_shifted n rm type amt w).1 s = .next s' ∧ s'.c = s.c ∧
      at_width w (vget s' (fe_shifted n rm type amt w).2) =
        at_width w (shift_reg (reg_x s.c rm) type amt w) := by
  unfold fe_shifted
  by_cases hz : rm = 31
  · subst hz
    refine ⟨vset s VREG_TMP0 0#64, rfl, rfl, ?_⟩
    rw [reg_x_31, shift_reg_of_zero]
    rfl
  rw [if_neg ((rx_ne_zero hrm).mpr hz)]
  by_cases hamt : amt = 0
  · subst hamt
    refine ⟨s, rfl, rfl, ?_⟩
    rw [at_width_shift_zero _ htype]
    exact congrArg _ (vget_rx s hrm)
  rw [if_neg hamt]
  refine ⟨vset s VREG_TMP0 (at_width w (shift_reg (reg_x s.c rm) type amt w)), ?_, rfl, ?_⟩
  · have hmod : (BitVec.ofNat 64 (amt % (if w then 64 else 32))).toNat % (if w then 64 else 32) =
        amt % (if w then 64 else 32) := by
      rw [toNat_ofNat64 (by cases w <;> simp only [Bool.false_eq_true, if_true, if_false] <;> omega),
        Nat.mod_mod]
    obtain rfl | rfl | rfl | rfl := lt_four htype
    all_goals
      unfold shift_opc
      rw [ir_run_tmp0 _ rfl _ _ _ _ _ fun _ _ _ => rfl, vget_rx s hrm]
      simp only [ir_value, ir_put, shift_reg, hmod, ir_run]
  · rw [vget_tmp0, at_width_at_width]

@[simp] theorem vset_vset_tmp0 (v v' : u64) : vset (vset s VREG_TMP0 v) VREG_TMP0 v' = vset s VREG_TMP0 v' :=
  congrArg (fun t => { s with tmp := t }) (Function.update_idem ..)

theorem shl_sshiftRight_eq_sign_extend (a : u64) {b : Nat} (h0 : 0 < b) (h64 : b < 64) :
    (a <<< (64 - b)).sshiftRight (64 - b) = sign_extend ((a.setWidth b).setWidth 64) b := by
  apply eq_of_getLsbD_eq
  intro i hi
  have hlt : ((a.setWidth b).setWidth 64).toNat < 2 ^ b := by
    rw [toNat_setWidth_of_le h64.le]
    exact (a.setWidth b).isLt
  rw [sign_extend_getLsbD h0 h64 hlt hi, getLsbD_sshiftRight, BitVec.msb_eq_getLsbD_last]
  simp only [getLsbD_shiftLeft, getLsbD_setWidth]
  by_cases hib : i < b
  · have h1 : 64 - b + i < 64 := by omega
    have h2 : ¬ (64 - b + i < 64 - b) := by omega
    have h3 : 64 - b + i - (64 - b) = i := by omega
    have h4 : ¬ 64 ≤ i := by omega
    simp [h1, h2, h3, hib, h4, hi]
  have h1 : ¬ 64 - b + i < 64 := by omega
  have h2 : ¬ (64 - 1 < 64 - b) := by omega
  have h3 : 64 - 1 - (64 - b) = b - 1 := by omega
  have h4 : ¬ 64 ≤ i := by omega
  have h5 : b - 1 < 64 := by omega
  have h6 : b - 1 < b := by omega
  simp [h1, h2, h3, hib, h4, h5, h6]

theorem and_ones_eq (a : u64) {b : Nat} (hb : b < 64) :
    a &&& ((1#64 <<< b) - 1#64) = (a.setWidth b).setWidth 64 := by
  have hones : (1#64 <<< b) - 1#64 = ones b := by rw [ones, if_neg (by omega)]
  apply eq_of_getLsbD_eq
  intro i hi
  rw [hones, getLsbD_and, ones_getLsbD, getLsbD_setWidth, getLsbD_setWidth]
  by_cases hib : i < b <;> simp [hib, hi]

theorem extend_reg_cases {option : Nat} (hopt : option < 8) :
    extend_reg v option 0 =
      if 8 * 2 ^ (option % 4) = 64 then v
      else if option / 4 % 2 = 1 then
        (v <<< (64 - 8 * 2 ^ (option % 4))).sshiftRight (64 - 8 * 2 ^ (option % 4))
      else if 8 * 2 ^ (option % 4) = 32 then trunc32 v
      else v &&& ((1#64 <<< (8 * 2 ^ (option % 4))) - 1#64) := by
  obtain rfl | rfl | rfl | rfl | rfl | rfl | rfl | rfl : option = 0 ∨ option = 1 ∨ option = 2 ∨ option = 3 ∨
    option = 4 ∨ option = 5 ∨ option = 6 ∨ option = 7 := by omega
  · exact (shiftLeft_zero _).trans (and_ones_eq v (b := 8) (by decide)).symm
  · exact (shiftLeft_zero _).trans (and_ones_eq v (b := 16) (by decide)).symm
  · exact shiftLeft_zero _
  · exact shiftLeft_zero _
  · exact (shiftLeft_zero _).trans
      (shl_sshiftRight_eq_sign_extend v (b := 8) (by decide) (by decide)).symm
  · exact (shiftLeft_zero _).trans
      (shl_sshiftRight_eq_sign_extend v (b := 16) (by decide) (by decide)).symm
  · exact (shiftLeft_zero _).trans
      (shl_sshiftRight_eq_sign_extend v (b := 32) (by decide) (by decide)).symm
  · exact shiftLeft_zero _

theorem run_fe_extended (hrm : rm < 32) {option shift : Nat} (hopt : option < 8) (hshift : shift < 8) :
    ∃ s', ir_run env k (fe_extended n rm option shift).1 s = .next s' ∧ s'.c = s.c ∧
      vget s' (fe_extended n rm option shift).2 = extend_reg (reg_x s.c rm) option shift := by
  have hsplit : extend_reg (reg_x s.c rm) option shift = extend_reg (reg_x s.c rm) option 0 <<< shift := by
    simp only [extend_reg, shiftLeft_zero]
  have hval := extend_reg_cases (reg_x s.c rm) hopt
  have hx := vget_rx s hrm
  unfold fe_extended
  dsimp only
  generalize hshl : (if shift = 0 then [] else
    [ir_put n .IRO_LSLI true VREG_TMP0 VREG_TMP0 0 0 (BitVec.ofNat 64 shift) 0#32]) = shl
  -- the operations before the shift leave the extended register in the temporary
  have hpre (ops : List IROp) (v : u64) (hops : ir_run env k ops s = .next (vset s VREG_TMP0 v))
      (hv : extend_reg (reg_x s.c rm) option 0 = v) :
      ∃ s', ir_run env k (ops ++ shl) s = .next s' ∧ s'.c = s.c ∧
        vget s' VREG_TMP0 = extend_reg (reg_x s.c rm) option shift := by
    refine ⟨vset s VREG_TMP0 (v <<< shift), ?_, rfl, by rw [vget_tmp0, hsplit, hv]⟩
    rw [ir_run_append, hops, IRResult.bind, ← hshl]
    split
    · subst_vars
      rw [shiftLeft_zero]
      rfl
    rw [ir_run_tmp0 _ rfl _ _ _ _ _ fun _ _ _ => rfl]
    simp only [ir_value, ir_put, shift_reg, vget_tmp0, vset_vset_tmp0, at_width_true, ir_run, if_true]
    rw [toNat_ofNat64 (by omega), Nat.mod_eq_of_lt (by omega)]
  by_cases hz : rm = 31
  · subst hz
    rw [if_pos (show rx 31 = VREG_ZERO from rfl)]
    refine ⟨vset s VREG_TMP0 0#64, rfl, rfl, ?_⟩
    rw [hsplit, hval, reg_x_31, vget_tmp0]
    split_ifs <;> simp [trunc32]
  rw [if_neg ((rx_ne_zero hrm).mpr hz)]
  split_ifs at hval ⊢ with hwide h0 hsigned hword
  · exact ⟨s, rfl, rfl, by rw [hsplit, hval, h0, shiftLeft_zero]; exact hx⟩
  · refine hpre [_] _ ?_ hval
    rw [ir_run_tmp0 _ rfl _ _ _ _ _ fun _ _ _ => rfl, hx]
    rfl
  · refine hpre [_, _] _ ?_ hval
    have hlt : 8 * 2 ^ (option % 4) < 64 ∧ 0 < 2 ^ (option % 4) := by
      have hle : 2 ^ (option % 4) ≤ 2 ^ 3 := Nat.pow_le_pow_right (by decide) (by omega)
      have hpos : 0 < 2 ^ (option % 4) := Nat.two_pow_pos _
      omega
    rw [ir_run_tmp0 _ rfl _ _ _ _ _ fun _ _ _ => rfl, hx,
      ir_run_tmp0 _ rfl _ _ _ _ _ fun _ _ _ => rfl]
    simp only [ir_value, ir_put, shift_reg, vget_tmp0, vset_vset_tmp0, at_width_true, ir_run, if_true]
    rw [toNat_ofNat64 (by omega), Nat.mod_eq_of_lt (by omega)]
  · refine hpre [_] _ ?_ hval
    rw [ir_run_tmp0 _ rfl _ _ _ _ _ fun _ _ _ => rfl, hx]
    exact congrArg (fun v => IRResult.next (vset s VREG_TMP0 v)) (trunc32_trunc32 _)
  refine hpre [_] _ ?_ hval
  rw [ir_run_tmp0 _ rfl _ _ _ _ _ fun _ _ _ => rfl, hx]
  rfl

end operands

end arm64emu
