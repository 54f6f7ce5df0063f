import Arm64Emu.Jit.FeAlu

namespace arm64emu

open BitVec

section handlers

variable {env : IREnv} {k n : Nat} {s : IRState} (w : Bool) (e : PDEnt) {v : u64} (sub S : Bool)

theorem gives_shifted {op : IROpc} (hop : op ∈ rr_ops) (hwf : e.WF) (hrm : e.rm < 32) :
    (ir_run env k (put_shifted n op w e) s).Gives
      (set_x (with_flags s.c (ir_flags (ir_put n op w 0 0 0 0 0#64 0#32) (reg_x s.c e.rn)
          (shift_reg (reg_x s.c e.rm) ((e.imm >>> 6).toNat % 4) (e.imm.toNat % 64) w) s.c.nzcv)) e.rd
        (at_width w (ir_value (ir_put n op true 0 0 0 0 0#64 0#32) (reg_x s.c e.rn)
          (shift_reg (reg_x s.c e.rm) ((e.imm >>> 6).toNat % 4) (e.imm.toNat % 64) w) 0#64
            s.c.nzcv))) n := by
  obtain ⟨s', hrun, hc, hval⟩ := run_fe_shifted hrm (e.imm.toNat % 64)
    (Nat.mod_lt (e.imm >>> 6).toNat (show 0 < 4 by decide)) w
  unfold put_shifted
  rw [ir_run_append, hrun, IRResult.bind, ← hc]
  rw [← hc] at hval
  exact gives_alu_x w e hop (rx e.rn) _ hwf.rd (vget_rx s' hwf.rn) hval

def logical_opc (op : LogicalOp) (e : PDEnt) : IROpc :=
  match op with
  | .and => inverted e .IRO_AND .IRO_BIC
  | .orr => inverted e .IRO_ORR .IRO_ORN
  | .eor => inverted e .IRO_EOR .IRO_EON
  | .ands => inverted e .IRO_ANDS .IRO_BICS

theorem gives_logical_shifted (op : LogicalOp) (hwf : e.WF) (hrm : e.rm < 32) :
    (ir_run env k (put_shifted n (logical_opc op e) w e) s).Gives (L_AND64S s.c e op w) n := by
  have hop : logical_opc op e ∈ rr_ops := by
    unfold logical_opc inverted
    cases op <;> dsimp only <;> split <;> decide
  have h := @gives_shifted env k n s w e _ hop hwf hrm
  unfold logical_opc inverted at h ⊢
  unfold L_AND64S
  generalize e.imm.getLsbD 8 = inv at h ⊢
  cases inv <;> cases op <;> exact h

def addsub_opc (sub S : Bool) : IROpc :=
  match sub, S with
  | false, false => .IRO_ADD
  | false, true => .IRO_ADDS
  | true, false => .IRO_SUB
  | true, true => .IRO_SUBS

theorem addsub_value (x y : u64) (nzcv : u32) :
    at_width w (ir_value (ir_put n (addsub_opc sub S) true 0 0 0 0 0#64 0#32) x y 0#64 nzcv) =
      at_width w (if sub then add_with_carry x (~~~y) true w else add_with_carry x y false w).1 := by
  cases sub with
  | false => cases S <;> exact (at_width_awc_add x y w).symm
  | true => cases S <;> exact (at_width_awc_sub x y w).symm

theorem gives_addsub_shifted (hwf : e.WF) (hrm : e.rm < 32) :
    (ir_run env k (put_shifted n (addsub_opc sub S) w e) s).Gives (L_ADD64RS s.c e sub S w) n := by
  have hop : addsub_opc sub S ∈ rr_ops := by cases sub <;> cases S <;> decide
  have h := @gives_shifted env k n s w e _ hop hwf hrm
  rw [addsub_value] at h
  cases sub <;> cases S <;> exact h

theorem gives_addsub_extended (hel : s.c.el = 0) (hwf : e.WF) (hrm : e.rm < 32) :
    (ir_run env k (put_extended n (addsub_opc sub S) w S e) s).Gives (L_ADDX64 s.c e sub S w) n := by
  have hop : addsub_opc sub S ∈ rr_ops := by cases sub <;> cases S <;> decide
  obtain ⟨s', hrun, hc, hval⟩ := run_fe_extended hrm
    (Nat.mod_lt (e.imm >>> 3).toNat (show 0 < 8 by decide)) (Nat.mod_lt e.imm.toNat (show 0 < 8 by decide))
  unfold put_extended
  rw [ir_run_append, hrun, IRResult.bind, ← hc]
  rw [← hc] at hel hval
  have hx := vget_rsp s' hel hwf.rn
  generalize k + _ = k'
  cases S with
  | true =>
    have h := @gives_alu_x env k' n s' w e _ hop (rsp e.rn) _ hwf.rd _ _ hx (congrArg (at_width w) hval)
    rw [addsub_value] at h
    cases sub <;> exact h
  | false =>
    have h := @gives_alu_sp env k' n s' w e _ hop (by cases sub <;> rfl) (rsp e.rn) _ hel hwf.rd _ _ hx
      (congrArg (at_width w) hval)
    rw [addsub_value] at h
    cases sub <;> exact h

theorem gives_one {op : IROpc} (a b cc : Nat) (imm : u64) (hop : op.is_alu = true) (hrd : e.rd < 32)
    (hnone : ∀ x y f, ir_flags (ir_put n op w e.rd a b cc imm 0#32) x y f = none)
    (hv : e.rd ≠ 31 → at_width w (ir_value (ir_put n op w e.rd a b cc imm 0#32) (vget s a) (vget s b)
      (vget s cc) s.c.nzcv) = v) :
    (ir_run env k (put_unless_zr e.rd [ir_put n op w e.rd a b cc imm 0#32]) s).Gives (set_x s.c e.rd v) n := by
  apply run_unless_zr e hrd
  intro h31
  refine ⟨s.tmp, ?_⟩
  rw [ir_run_alu env k s [] hop, ir_alu_put, hnone, set_flags_none, hv h31, rx, if_neg h31]
  rfl

theorem gives_two {op₁ op₂ : IROpc} (w₁ : Bool) (a : Nat) (imm₁ imm₂ : u64) (hop₁ : op₁.is_alu = true)
    (hop₂ : op₂.is_alu = true) (hrd : e.rd < 32)
    (hnone₁ : ∀ x y f, ir_flags (ir_put n op₁ w₁ VREG_TMP0 a 0 0 imm₁ 0#32) x y f = none)
    (hnone₂ : ∀ x y f, ir_flags (ir_put n op₂ w e.rd VREG_TMP0 0 0 imm₂ 0#32) x y f = none) {x v : u64}
    (hx : ∀ y acc f, at_width w₁ (ir_value (ir_put n op₁ w₁ VREG_TMP0 a 0 0 imm₁ 0#32) (vget s a) y acc f) = x)
    (hv : ∀ y acc f, at_width w (ir_value (ir_put n op₂ w e.rd VREG_TMP0 0 0 imm₂ 0#32) x y acc f) = v) :
    (ir_run env k (put_unless_zr e.rd [ir_put n op₁ w₁ VREG_TMP0 a 0 0 imm₁ 0#32,
      ir_put n op₂ w e.rd VREG_TMP0 0 0 imm₂ 0#32]) s).Gives (set_x s.c e.rd v) n := by
  apply run_unless_zr e hrd
  intro h31
  refine ⟨(vset s VREG_TMP0 x).tmp, ?_⟩
  rw [ir_run_tmp0 op₁ hop₁ _ _ _ _ _ hnone₁, hx, ir_run_alu _ _ _ [] hop₂, ir_alu_put, hnone₂,
    set_flags_none, vget_tmp0, hv, rx, if_neg h31]
  rfl

section values

variable (x y acc : u64)

theorem low_madd : trunc32 (acc + trunc32 x * trunc32 y) = trunc32 (acc + x * y) := by
  rw [trunc32_eq_iff]
  simp only [low_add, low_mul, setWidth32_trunc32]

theorem low_msub : trunc32 (acc - trunc32 x * trunc32 y) = trunc32 (acc - x * y) := by
  rw [trunc32_eq_iff]
  simp only [low_sub, low_mul, setWidth32_trunc32]

theorem low_movk (m imm : u64) : trunc32 ((trunc32 x &&& m) ||| imm) = trunc32 ((x &&& m) ||| imm) := by
  rw [trunc32_eq_iff]
  simp only [setWidth_or, setWidth_and, setWidth32_trunc32]

variable {amt : Nat}

theorem shift_reg_lsl64 (h : amt < 64) : shift_reg x 0 amt true = x <<< amt := by
  simp only [shift_reg, if_true, Nat.mod_eq_of_lt h]

theorem shift_reg_lsr64 (h : amt < 64) : shift_reg x 1 amt true = x >>> amt := by
  simp only [shift_reg, if_true, Nat.mod_eq_of_lt h]

theorem shift_reg_asr64 (h : amt < 64) : shift_reg x 2 amt true = x.sshiftRight amt := by
  simp only [shift_reg, if_true, Nat.mod_eq_of_lt h]

theorem low_shl (amt : Nat) : (x <<< amt).setWidth 32 = x.setWidth 32 <<< amt := by
  apply eq_of_getLsbD_eq
  intro i hi
  rw [getLsbD_setWidth, getLsbD_shiftLeft, getLsbD_shiftLeft, getLsbD_setWidth]
  simp [hi, show i < 64 by omega, show i - amt < 32 by omega]

theorem shift_reg_lsl32 (h : amt < 32) : trunc32 (shift_reg x 0 amt false) = trunc32 (x <<< amt) := by
  simp only [shift_reg, Bool.false_eq_true, if_false, Nat.mod_eq_of_lt h]
  rw [trunc32_eq_iff, low_shl, low_shl, setWidth32_trunc32]

theorem shift_reg_lsr32 (h : amt < 32) : trunc32 (shift_reg x 1 amt false) = trunc32 x >>> amt := by
  simp only [shift_reg, Bool.false_eq_true, if_false, Nat.mod_eq_of_lt h]
  apply eq_of_getLsbD_eq
  intro i _
  rw [trunc32_getLsbD, getLsbD_ushiftRight, trunc32_getLsbD]
  by_cases hi : amt + i < 32
  · simp [hi, show i < 32 by omega]
  · simp [hi]

theorem shift_reg_asr32 (h : amt < 32) :
    shift_reg x 2 amt false = ((x.setWidth 32).sshiftRight amt).setWidth 64 := by
  simp only [shift_reg, Bool.false_eq_true, if_false, Nat.mod_eq_of_lt h, setWidth32_trunc32]

theorem trunc32_shift_reg_asr32 (h : amt < 32) :
    trunc32 (shift_reg x 2 amt false) = ((x.setWidth 32).sshiftRight amt).setWidth 64 := by
  rw [shift_reg_asr32 x h, trunc32_setWidth]

theorem shift_reg_amount (type : Nat) : shift_reg x type (y.toNat % 2 ^ 32) w = shift_reg x type y.toNat w := by
  have hmod (m : Nat) (h : m ∣ 2 ^ 32) : y.toNat % 2 ^ 32 % m = y.toNat % m := Nat.mod_mod_of_dvd _ h
  cases w with
  | true => simp only [shift_reg, if_true, hmod 64 (by decide)]
  | false => simp only [shift_reg, Bool.false_eq_true, if_false, hmod 32 (by decide)]

end values

def csel_opc (op : CselOp) : IROpc :=
  match op with
  | .csel => .IRO_CSEL
  | .csinc => .IRO_CSINC
  | .csinv => .IRO_CSINV
  | .csneg => .IRO_CSNEG

theorem gives_csel (op : CselOp) (hwf : e.WF) (hrm : e.rm < 32) (hcond : e.imm.toNat < 16) :
    (ir_run env k (put_csel n (csel_opc op) w e) s).Gives (L_CSEL64 s.c e op w) n := by
  have hmod : e.imm.toNat % 256 = e.imm.toNat := Nat.mod_eq_of_lt (by omega)
  unfold put_csel L_CSEL64 set_x_sz cond_holds
  rw [hmod]
  apply gives_one w e _ _ _ _ (by cases op <;> rfl) hwf.rd (by cases op <;> exact fun _ _ _ => rfl)
  intro _
  rw [vget_rx s hwf.rn, vget_rx s hrm]
  apply at_width_ext
  · rintro rfl
    cases op <;> rfl
  rintro rfl
  cases hc : cond_of s.c.nzcv e.imm.toNat <;> cases op <;>
    simp only [csel_opc, ir_value, ir_put, hc, at_width_false, Bool.false_eq_true, if_true, if_false, low_add,
      low_sub, low_not, setWidth32_trunc32]

def ccmp_opc (cmp is_imm : Bool) : IROpc :=
  match cmp, is_imm with
  | true, true => .IRO_CCMPI
  | true, false => .IRO_CCMPR
  | false, true => .IRO_CCMNI
  | false, false => .IRO_CCMNR

theorem gives_ccmp (cmp is_imm : Bool) (hwf : e.WF) (hrm : e.rm < 32) :
    (ir_run env k (if is_imm then put_ccmpi n (ccmp_opc cmp true) w e else put_ccmpr n (ccmp_opc cmp false) w e)
      s).Gives (L_CCMP64I s.c e cmp is_imm w) n := by
  have hn := vget_rx s hwf.rn
  have hm := vget_rx s hrm
  unfold L_CCMP64I put_ccmpi put_ccmpr cond_holds
  cases is_imm <;> cases cmp <;>
    simp only [Bool.false_eq_true, if_true, if_false, ccmp_opc, ir_run, ir_step, ir_put, ir_ccmp, ir_flags,
      put_flags, hn, hm, IRResult.Gives, pd_awc_eq] <;>
    split <;> rfl

section families

variable {op : IROpc} (hop : op.is_alu = true)
  (hnone : ∀ a b cc imm x y f, ir_flags (ir_put n op w e.rd a b cc imm 0#32) x y f = none) {v : u64}

include hop hnone

theorem gives_3source (hwf : e.WF) (hrm : e.rm < 32) (hra : e.imm.toNat < 32)
    (hv : at_width w (ir_value (ir_put n op w 0 0 0 (rx e.imm.toNat) 0#64 0#32) (reg_x s.c e.rn)
      (reg_x s.c e.rm) (reg_x s.c e.imm.toNat) s.c.nzcv) = v) :
    (ir_run env k (put_3source n op w e) s).Gives (set_x s.c e.rd v) n := by
  apply gives_one w e _ _ _ _ hop hwf.rd (hnone _ _ _ _)
  intro _
  rw [vget_rx s hwf.rn, vget_rx s hrm, vget_rx s hra, ← hv]
  rfl

theorem gives_2source (hwf : e.WF) (hrm : e.rm < 32)
    (hv : ∀ acc, at_width w (ir_value (ir_put n op w 0 0 0 0 0#64 0#32) (reg_x s.c e.rn) (reg_x s.c e.rm)
      acc s.c.nzcv) = v) :
    (ir_run env k (put_2source n op w e) s).Gives (set_x s.c e.rd v) n := by
  apply gives_one w e _ _ _ _ hop hwf.rd (hnone _ _ _ _)
  intro _
  rw [vget_rx s hwf.rn, vget_rx s hrm, ← hv (vget s 0)]
  rfl

theorem gives_1source (hwf : e.WF)
    (hv : ∀ y acc, at_width w (ir_value (ir_put n op w 0 0 0 0 0#64 0#32) (reg_x s.c e.rn) y acc s.c.nzcv) = v) :
    (ir_run env k (put_1source n op w e) s).Gives (set_x s.c e.rd v) n := by
  apply gives_one w e _ _ _ _ hop hwf.rd (hnone _ _ _ _)
  intro _
  rw [vget_rx s hwf.rn, ← hv (vget s 0) (vget s 0)]
  rfl

end families

theorem gives_shifti {t : Nat} (ht : t < 4) (hwf : e.WF) (hrm : e.rm < 64)
    (hv : at_width w (shift_reg (reg_x s.c e.rn) t e.rm w) = v) :
    (ir_run env k (put_shifti n (shift_opc t) w e) s).Gives (set_x s.c e.rd v) n := by
  have himm : (BitVec.ofNat 64 e.rm).toNat = e.rm := toNat_ofNat64 (by omega)
  obtain rfl | rfl | rfl | rfl := lt_four ht
  all_goals
    apply gives_one w e _ _ _ _ rfl hwf.rd fun _ _ _ => rfl
    intro _
    rw [vget_rx s hwf.rn, ← hv]
    simp only [ir_value, ir_put, shift_opc, himm]

def shiftv_opc (type : Nat) : IROpc :=
  match type with
  | 0 => .IRO_LSLV
  | 1 => .IRO_LSRV
  | 2 => .IRO_ASRV
  | _ => .IRO_RORV

theorem gives_shiftv {t : Nat} (ht : t < 4) (hwf : e.WF) (hrm : e.rm < 32) :
    (ir_run env k (put_2source n (shiftv_opc t) w e) s).Gives
      (set_x s.c e.rd (at_width w (shift_reg (reg_x s.c e.rn) t ((reg_x s.c e.rm).toNat % 2 ^ 32) w))) n := by
  rw [shift_reg_amount]
  obtain rfl | rfl | rfl | rfl := lt_four ht
  all_goals exact gives_2source w e rfl (fun _ _ _ _ _ _ _ => rfl) hwf hrm fun _ => rfl

theorem gives_addsi (hel : s.c.el = 0) (hwf : e.WF) :
    (ir_run env k (put_alui n .IRO_ADDIS w (rx e.rd) (rsp e.rn) e.imm) s).Gives
      (pd_adds s.c e (reg_xsp s.c e.rn) e.imm false w) n := by
  rw [pd_adds_add]
  exact gives_alui_x w e (by decide) _ _ hwf.rd (vget_rsp s hel hwf.rn)

theorem gives_subsi (hel : s.c.el = 0) (hwf : e.WF) :
    (ir_run env k (put_alui n .IRO_SUBIS w (rx e.rd) (rsp e.rn) (~~~e.imm)) s).Gives
      (pd_adds s.c e (reg_xsp s.c e.rn) e.imm true w) n := by
  have heq := pd_adds_sub w e s.c (reg_xsp s.c e.rn) (~~~e.imm)
  rw [BitVec.not_not] at heq
  rw [heq]
  have h := @gives_alui_x env k n s w e _ (show .IRO_SUBIS ∈ ri_ops by decide) _ (~~~e.imm) hwf.rd _
    (vget_rsp s hel hwf.rn)
  simp only [ir_flags, ir_put, BitVec.not_not] at h
  exact h

theorem gives_adds (hwf : e.WF) (hrm : e.rm < 32) :
    (ir_run env k (put_alu n .IRO_ADDS w (rx e.rd) (rx e.rn) (rx e.rm)) s).Gives
      (pd_adds s.c e (reg_x s.c e.rn) (reg_x s.c e.rm) false w) n := by
  rw [pd_adds_add]
  exact gives_alu_x w e (by decide) _ _ hwf.rd (vget_rx s hwf.rn) (congrArg _ (vget_rx s hrm))

theorem gives_subs (hwf : e.WF) (hrm : e.rm < 32) :
    (ir_run env k (put_alu n .IRO_SUBS w (rx e.rd) (rx e.rn) (rx e.rm)) s).Gives
      (pd_adds s.c e (reg_x s.c e.rn) (~~~reg_x s.c e.rm) true w) n := by
  rw [pd_adds_sub]
  exact gives_alu_x w e (by decide) _ _ hwf.rd (vget_rx s hwf.rn) (congrArg _ (vget_rx s hrm))

theorem gives_rrr {op : IROpc} (hop : op ∈ rr_ops) (hwf : e.WF) (hrm : e.rm < 32) :
    (ir_run env k (put_alu n op w (rx e.rd) (rx e.rn) (rx e.rm)) s).Gives
      (set_x (with_flags s.c (ir_flags (ir_put n op w 0 0 0 0 0#64 0#32) (reg_x s.c e.rn) (reg_x s.c e.rm)
          s.c.nzcv)) e.rd
        (at_width w (ir_value (ir_put n op true 0 0 0 0 0#64 0#32) (reg_x s.c e.rn) (reg_x s.c e.rm) 0#64
          s.c.nzcv))) n :=
  gives_alu_x w e hop _ _ hwf.rd (vget_rx s hwf.rn) (congrArg _ (vget_rx s hrm))

theorem gives_movi (v : u64) (hwf : e.WF) : (ir_run env k (put_movi n e v) s).Gives (set_x s.c e.rd v) n :=
  gives_one true e 0 0 0 v rfl hwf.rd (fun _ _ _ => rfl) fun _ => rfl

theorem gives_movk (hwf : e.WF) :
    (ir_run env k (put_unless_zr e.rd [ir_put n .IRO_MOVK w e.rd e.rd 0 e.rm e.imm 0#32]) s).Gives
      (set_x s.c e.rd (at_width w ((reg_x s.c e.rd &&& ~~~(0xffff#64 <<< e.rm)) ||| e.imm))) n := by
  apply gives_one w e _ _ _ _ rfl hwf.rd fun _ _ _ => rfl
  intro h31
  have hx := vget_rx s hwf.rd
  rw [rx, if_neg h31] at hx
  rw [hx]
  cases w with
  | true => rfl
  | false => exact low_movk _ _ _

theorem gives_ubfx (hwf : e.WF) (hrm : e.rm < 64) :
    (ir_run env k (put_ubfx n e) s).Gives (set_x s.c e.rd ((reg_x s.c e.rn >>> e.rm) &&& e.imm)) n := by
  refine gives_two true e true _ _ _ rfl rfl hwf.rd (fun _ _ _ => rfl) (fun _ _ _ => rfl)
    (x := reg_x s.c e.rn >>> e.rm) ?_ (fun _ _ _ => rfl)
  intro _ _ _
  rw [vget_rx s hwf.rn, ← shift_reg_lsr64 _ hrm]
  simp only [ir_value, ir_put, toNat_ofNat64 (show e.rm < 2 ^ 64 by omega), at_width_true]

theorem gives_ubfiz (hwf : e.WF) (hrm : e.rm < 64)
    (hv : at_width w (shift_reg (reg_x s.c e.rn &&& e.imm) 0 e.rm w) = v) :
    (ir_run env k (put_ubfiz n w e) s).Gives (set_x s.c e.rd v) n := by
  refine gives_two w e true _ _ _ rfl rfl hwf.rd (fun _ _ _ => rfl) (fun _ _ _ => rfl)
    (x := reg_x s.c e.rn &&& e.imm) ?_ ?_
  · intro _ _ _
    rw [vget_rx s hwf.rn]
    rfl
  intro _ _ _
  rw [← hv]
  simp only [ir_value, ir_put, toNat_ofNat64 (show e.rm < 2 ^ 64 by omega)]

theorem gives_sbfx (hwf : e.WF) (hrm : e.rm < 64) (himm : e.imm.toNat < 64)
    (hv : at_width w (shift_reg (at_width w (shift_reg (reg_x s.c e.rn) 0 e.rm w)) 2 e.imm.toNat w) = v) :
    (ir_run env k (put_sbfx n w e) s).Gives (set_x s.c e.rd v) n := by
  have hlow : (trunc32 e.imm).toNat = e.imm.toNat := by
    rw [trunc32_toNat, Nat.mod_eq_of_lt (by omega)]
  refine gives_two w e w _ _ _ rfl rfl hwf.rd (fun _ _ _ => rfl) (fun _ _ _ => rfl)
    (x := at_width w (shift_reg (reg_x s.c e.rn) 0 e.rm w)) ?_ ?_
  · intro _ _ _
    rw [vget_rx s hwf.rn]
    simp only [ir_value, ir_put, toNat_ofNat64 (show e.rm < 2 ^ 64 by omega)]
  intro _ _ _
  rw [← hv]
  simp only [ir_value, ir_put, hlow]

theorem gives_extr (hwf : e.WF) (hrm : e.rm < 32) :
    (ir_run env k (put_extr n w e) s).Gives
      (set_x s.c e.rd (extr (reg_x s.c e.rn) (reg_x s.c e.rm) e.imm.toNat w)) n := by
  unfold put_extr
  by_cases h0 : e.imm = 0#64
  · rw [if_pos h0]
    apply gives_one w e _ _ _ _ rfl hwf.rd fun _ _ _ => rfl
    intro _
    rw [vget_rx s hrm, h0]
    cases w with
    | true => rfl
    | false => exact trunc32_trunc32 _
  rw [if_neg h0]
  apply gives_one w e _ _ _ _ rfl hwf.rd fun _ _ _ => rfl
  intro _
  rw [vget_rx s hrm, vget_rx s hwf.rn]
  cases w with
  | true => rfl
  | false => exact trunc32_setWidth _

end handlers

end arm64emu
