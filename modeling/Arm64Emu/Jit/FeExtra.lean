import Arm64Emu.Jit.FeBits
import Arm64Emu.Jit.FeOps

namespace arm64emu

theorem gives_op (env : IREnv) (k n : Nat) (s : IRState) {op : IROpc} (hop : op.is_alu = true) (w : Bool)
    {rd : Nat} (hrd : rd < 31) (a b cc : Nat) (imm : u64)
    (hnone : ∀ x y f, ir_flags (ir_put n op w rd a b cc imm 0#32) x y f = none) {v : u64}
    (hv : at_width w (ir_value (ir_put n op w rd a b cc imm 0#32) (vget s a) (vget s b) (vget s cc) s.c.nzcv) = v) :
    (ir_run env k [ir_put n op w rd a b cc imm 0#32] s).Gives (set_x s.c rd v) n := by
  rw [ir_run_alu env k s [] hop, ir_alu_put, hnone, set_flags_none, hv, vset_low s hrd, set_x, if_neg (by omega)]
  rfl

theorem run_tmp0 (env : IREnv) (k n : Nat) (s : IRState) {op : IROpc} (hop : op.is_alu = true) (w : Bool) (a : Nat)
    (imm : u64) (os : List IROp)
    (hnone : ∀ x y f, ir_flags (ir_put n op w VREG_TMP0 a 0 0 imm 0#32) x y f = none) {x v : u64}
    (hx : vget s a = x)
    (hv : ∀ y acc f, at_width w (ir_value (ir_put n op w VREG_TMP0 a 0 0 imm 0#32) x y acc f) = v) :
    ir_run env k (ir_put n op w VREG_TMP0 a 0 0 imm 0#32 :: os) s =
      ir_run env (k + 1) os (vset s VREG_TMP0 v) := by
  rw [ir_run_tmp0 op hop w a 0 imm os hnone, hx, hv]

section bitfield

variable (env : IREnv) (k n : Nat) (s : IRState) (insn : u32)

theorem gives_merge (w : Bool) {rd : Nat} (hrd : rd < 31) (m : u64) :
    (ir_run env k [ir_put n .IRO_ANDI true VREG_TMP1 (rx rd) 0 0 m 0#32,
      ir_put n .IRO_ORR w rd VREG_TMP0 VREG_TMP1 0 0#64 0#32] s).Gives
      (set_x s.c rd (at_width w (vget s VREG_TMP0 ||| (reg_x s.c rd &&& m)))) n := by
  rw [ir_run_alu env k s _ rfl, ir_alu_put, vget_rx s (by omega)]
  refine gives_op env (k + 1) n (vset s VREG_TMP1 (reg_x s.c rd &&& m)) rfl w hrd _ _ _ _ (fun _ _ _ => rfl) ?_
  cases w with
  | true => rfl
  | false =>
    rw [at_width_false, at_width_false, trunc32_eq_iff]
    simp only [ir_value, ir_put, at_width_false, BitVec.setWidth_or, setWidth32_trunc32]
    rfl

theorem dp_bitfield_masks
    (hfields : ¬ if BIT insn 31 then BIT insn 22 = false
      else BIT insn 22 = true ∨ 32 ≤ BITS insn 21 16 ∨ 32 ≤ BITS insn 15 10) :
    BITS insn 22 22 = (BIT insn 31).toNat ∧ BITS insn 21 16 < reg_width (BIT insn 31) ∧
      BITS insn 15 10 < reg_width (BIT insn 31) := by
  have hr64 : BITS insn 21 16 < 64 := BITS_lt insn 21 16
  have hs64 : BITS insn 15 10 < 64 := BITS_lt insn 15 10
  have hN : BITS insn 22 22 = (BIT insn 22).toNat := by
    have hlt : BITS insn 22 22 < 2 := BITS_lt insn 22 22
    rw [BIT_eq_decide]
    by_cases h : BITS insn 22 22 = 1
    · simp [h]
    · simp [h]
      omega
  rw [hN]
  cases hsf : BIT insn 31 with
  | true =>
    simp only [hsf, if_true, Bool.not_eq_false] at hfields
    exact ⟨by rw [hfields], hr64, hs64⟩
  | false =>
    simp only [hsf, Bool.false_eq_true, if_false, not_or, Bool.not_eq_true, not_le] at hfields
    exact ⟨by rw [hfields.1], hfields.2.1, hfields.2.2⟩

theorem ones_eq {j : Nat} (hj : j < 64) : (1#64 <<< j) - 1#64 = ones j := by
  rw [ones, if_neg (by omega)]

theorem field_mask (j : Nat) : (if 64 ≤ j then ~~~0#64 else (1#64 <<< j) - 1#64) = ones j := by
  unfold ones
  split <;> rfl

theorem run_bfxil_src {immr : Nat} {w : Bool} {rn : Nat} (hrn : rn < 32) (hr : immr < reg_width w) :
    ∃ v, (∀ i, i + immr < reg_width w → v.getLsbD i = (reg_x s.c rn).getLsbD (i + immr)) ∧
      ∀ os, ir_run env k ((if immr ≠ 0 then ir_put n .IRO_LSRI w VREG_TMP0 (rx rn) 0 0 (BitVec.ofNat 64 immr) 0#32
        else if rn = 31 then ir_put n .IRO_MOVI true VREG_TMP0 0 0 0 0#64 0#32
        else ir_put n .IRO_MOV true VREG_TMP0 rn 0 0 0#64 0#32) :: os) s =
        ir_run env (k + 1) os (vset s VREG_TMP0 v) := by
  have hw : reg_width w ≤ 64 := by cases w <;> decide
  by_cases h0 : immr ≠ 0
  · rw [if_pos h0]
    refine ⟨at_width w (shift_reg (reg_x s.c rn) 1 immr w), ?_, ?_⟩
    · intro i hi
      cases w with
      | true =>
        rw [at_width_true, shift_reg_lsr64 _ hr, BitVec.getLsbD_ushiftRight, Nat.add_comm]
      | false =>
        rw [at_width_false, shift_reg_lsr32 _ hr, BitVec.getLsbD_ushiftRight, trunc32_getLsbD, Nat.add_comm,
          decide_eq_true (show i + immr < 32 from hi), Bool.true_and]
    intro os
    refine run_tmp0 env k n s rfl w _ _ os (fun _ _ _ => rfl) (vget_rx s hrn) ?_
    intro y acc f
    simp only [ir_value, ir_put, toNat_ofNat64 (show immr < 2 ^ 64 by omega)]
  rw [if_neg h0]
  have h0 : immr = 0 := not_not.mp h0
  refine ⟨reg_x s.c rn, fun i _ => by rw [h0, Nat.add_zero], ?_⟩
  intro os
  by_cases h31 : rn = 31
  · subst h31
    rfl
  rw [if_neg h31]
  exact run_tmp0 env k n s rfl true _ _ os (fun _ _ _ => rfl)
    ((vget_low s (by omega)).trans (if_neg h31).symm) fun _ _ _ => rfl

theorem gives_bfm {imms immr : Nat} {w : Bool} {rd rn : Nat} (hrd : rd < 31) (hrn : rn < 32)
    (hs : imms < reg_width w) (hr : immr < reg_width w) {wmask tmask : u64}
    (hmask : FieldMasks wmask tmask imms immr w) :
    (ir_run env k
      (if immr ≤ imms then
        [if immr ≠ 0 then ir_put n .IRO_LSRI w VREG_TMP0 (rx rn) 0 0 (BitVec.ofNat 64 immr) 0#32
          else if rn = 31 then ir_put n .IRO_MOVI true VREG_TMP0 0 0 0 0#64 0#32
          else ir_put n .IRO_MOV true VREG_TMP0 rn 0 0 0#64 0#32,
          ir_put n .IRO_ANDI true VREG_TMP0 VREG_TMP0 0 0 (ones (imms - immr + 1)) 0#32,
          ir_put n .IRO_ANDI true VREG_TMP1 (rx rd) 0 0 (~~~ones (imms - immr + 1)) 0#32,
          ir_put n .IRO_ORR w rd VREG_TMP0 VREG_TMP1 0 0#64 0#32]
      else
        [ir_put n .IRO_ANDI true VREG_TMP0 (rx rn) 0 0 (ones (imms + 1)) 0#32,
          ir_put n .IRO_LSLI true VREG_TMP0 VREG_TMP0 0 0 (BitVec.ofNat 64 (reg_width w - immr)) 0#32,
          ir_put n .IRO_ANDI true VREG_TMP1 (rx rd) 0 0 (~~~(ones (imms + 1) <<< (reg_width w - immr))) 0#32,
          ir_put n .IRO_ORR w rd VREG_TMP0 VREG_TMP1 0 0#64 0#32]) s).Gives
      (set_x s.c rd (at_width w ((reg_x s.c rd &&& ~~~tmask) |||
        (((reg_x s.c rd &&& ~~~wmask) ||| (ror_within (reg_x s.c rn) immr (reg_width w) &&& wmask)) &&&
          tmask)))) n := by
  have hw : reg_width w ≤ 64 := by cases w <;> decide
  by_cases hle : immr ≤ imms
  · rw [if_pos hle]
    obtain ⟨v, hv, hrun⟩ := run_bfxil_src env k n s hrn hr
    rw [hrun, run_tmp0 env (k + 1) n (vset s VREG_TMP0 v) rfl true _ _ _ (fun _ _ _ => rfl) (vget_tmp0 v)
      fun _ _ _ => rfl, vset_vset_tmp0, bfxil_value hs hr hle hmask hv]
    exact gives_merge env (k + 1 + 1) n (vset s VREG_TMP0 (v &&& ones (imms - immr + 1))) w hrd
      (~~~ones (imms - immr + 1))
  rw [if_neg hle]
  have hlsl (x y acc : u64) (f : u32) :
      at_width true (ir_value (ir_put n .IRO_LSLI true VREG_TMP0 VREG_TMP0 0 0
        (BitVec.ofNat 64 (reg_width w - immr)) 0#32) x y acc f) = x <<< (reg_width w - immr) := by
    rw [← shift_reg_lsl64 x (show reg_width w - immr < 64 by omega)]
    simp only [ir_value, ir_put, at_width_true, toNat_ofNat64 (show reg_width w - immr < 2 ^ 64 by omega)]
  rw [run_tmp0 env k n s rfl true _ _ _ (fun _ _ _ => rfl) (vget_rx s hrn) fun _ _ _ => rfl,
    run_tmp0 env (k + 1) n _ rfl true _ _ _ (fun _ _ _ => rfl) (vget_tmp0 _) (hlsl _), vset_vset_tmp0,
    bfi_value hs hr (by omega) hmask]
  exact gives_merge env (k + 1 + 1) n
    (vset s VREG_TMP0 ((reg_x s.c rn &&& ones (imms + 1)) <<< (reg_width w - immr))) w hrd
    (~~~(ones (imms + 1) <<< (reg_width w - immr)))

theorem gives_sbfiz {imms immr : Nat} {w : Bool} {rd rn : Nat} (hrd : rd < 31) (hrn : rn < 32)
    (hs : imms < reg_width w) (hr : immr < reg_width w) (hlt : imms < immr) {v : u64}
    (hv : at_width w (shift_reg (at_width w (shift_reg (reg_x s.c rn) 0 (reg_width w - 1 - imms) w)) 2
      (immr - imms - 1) w) = v) :
    (ir_run env k [ir_put n .IRO_LSLI w VREG_TMP0 (rx rn) 0 0 (BitVec.ofNat 64 (reg_width w - 1 - imms)) 0#32,
      ir_put n .IRO_ASRI w rd VREG_TMP0 0 0 (BitVec.ofNat 64 (immr - imms - 1)) 0#32] s).Gives
      (set_x s.c rd v) n := by
  have hw : reg_width w ≤ 64 := by cases w <;> decide
  have hlsl : (BitVec.ofNat 64 (reg_width w - 1 - imms)).toNat = reg_width w - 1 - imms := toNat_ofNat64 (by omega)
  have hasr : (BitVec.ofNat 64 (immr - imms - 1)).toNat = immr - imms - 1 := toNat_ofNat64 (by omega)
  rw [run_tmp0 env k n s rfl w _ _ _ (fun _ _ _ => rfl) (vget_rx s hrn)
    (v := at_width w (shift_reg (reg_x s.c rn) 0 (reg_width w - 1 - imms) w))
    (fun _ _ _ => by simp only [ir_value, ir_put, hlsl])]
  refine gives_op env (k + 1) n _ rfl w hrd _ _ _ _ (fun _ _ _ => rfl) ?_
  rw [vget_tmp0, ← hv]
  simp only [ir_value, ir_put, hasr]

theorem gives_bitfield {ops : List IROp} (hops : fe_bitfield n insn = some ops) :
    (ir_run env k ops s).Gives (exec_a64 env.toEnv s.c insn) n := by
  have hrd : BITS insn 4 0 < 32 := BITS_lt insn 4 0
  have hrn : BITS insn 9 5 < 32 := BITS_lt insn 9 5
  unfold fe_bitfield at hops
  obtain ⟨hclass, hops⟩ := Option.ite_none_left_eq_some.1 hops
  rw [not_not] at hclass
  obtain ⟨hfields, hops⟩ := Option.ite_none_left_eq_some.1 hops
  have hgroup : BITS insn 28 25 = 9 := BITS_of_mask hclass (by decide) (by decide)
  have hbf : BITS insn 28 23 = 0x26 := BITS_of_mask hclass (by decide) (by decide)
  have hexec : exec_a64 env.toEnv s.c insn = dp_bitfield s.c insn := by
    simp only [exec_a64, hgroup, dp_immediate, hbf]
  obtain ⟨hN, hr, hs⟩ := dp_bitfield_masks insn hfields
  obtain ⟨wmask, tmask, hdec, hmask⟩ := decode_bitmasks_full (BIT insn 31) hs hr
  have hwidth : (if BIT insn 31 then 64 else 32) = reg_width (BIT insn 31) := rfl
  rw [hexec]
  unfold dp_bitfield
  simp only [hN, hdec, hwidth, ne_eq, not_true_eq_false, or_false] at hops ⊢
  by_cases hsbfiz : BITS insn 30 29 = 0 ∧ BITS insn 15 10 < BITS insn 21 16
  · rw [if_pos hsbfiz] at hops
    rw [hsbfiz.1]
    simp only [OfNat.zero_ne_ofNat, if_false, if_true, set_x_sz]
    by_cases h31 : BITS insn 4 0 = 31
    · rw [if_pos h31] at hops
      cases hops
      rw [h31]
      rfl
    rw [if_neg h31] at hops
    cases hops
    refine gives_sbfiz env k n s (by omega) hrn hs hr hsbfiz.2 ?_
    exact (sbfiz_value hs hr hsbfiz.2 hmask).symm
  rw [if_neg hsbfiz] at hops
  obtain ⟨hbfm, hops⟩ := Option.ite_none_right_eq_some.1 hops
  simp only [hbfm, if_true, OfNat.one_ne_ofNat, one_ne_zero, if_false, set_x_sz]
  by_cases h31 : BITS insn 4 0 = 31
  · rw [if_pos h31] at hops
    cases hops
    rw [h31]
    rfl
  rw [if_neg h31] at hops
  have h := gives_bfm env k n s (show BITS insn 4 0 < 31 by omega) hrn hs hr hmask
  simp only [field_mask] at hops
  by_cases hle : BITS insn 21 16 ≤ BITS insn 15 10
  · rw [if_pos hle] at hops h
    cases hops
    exact h
  have hw : reg_width (BIT insn 31) ≤ 64 := by cases BIT insn 31 <;> decide
  rw [if_neg hle] at hops h
  rw [ones_eq (show BITS insn 15 10 + 1 < 64 by omega)] at hops
  cases hops
  exact h

end bitfield

theorem imm7_eq (insn : u32) : sfield insn 10 25 = imm7 insn := sfield_eq insn (by decide) (by decide)

theorem imm9_eq (insn : u32) : sfield insn 11 23 = imm9 insn := sfield_eq insn (by decide) (by decide)

section pairs

variable (pg : Pager) (c : CPU)

theorem pair_mode_addr (mode : Nat) (base imm : u64) :
    base + (if mode = 1 then 0#64 else imm) = (pair_mode mode).addr base imm := by
  unfold pair_mode PairMode.addr
  by_cases h1 : mode = 1
  · rw [if_pos h1, if_pos h1, if_pos rfl, BitVec.add_zero]
  · rw [if_neg h1, if_neg h1]
    split <;> rfl

theorem pair_mode_wb {mode : Nat} (base imm : u64) :
    (if mode = 1 ∨ mode = 3 then some (base + imm) else none) = (pair_mode mode).wb base imm := by
  unfold pair_mode
  by_cases h1 : mode = 1
  · rw [if_pos (Or.inl h1), if_pos h1]
    rfl
  by_cases h3 : mode = 3
  · rw [if_pos (Or.inr h3), if_neg h1, if_pos h3]
    rfl
  · rw [if_neg (by omega), if_neg h1, if_neg h3]
    rfl

end pairs

theorem do_load_eq (pg : Pager) (c : CPU) (rt : Nat) (va : u64) {size opc : Nat} (hsize : size < 4) (hopc : opc < 4)
    (h0 : opc ≠ 0) (hprfm : ¬ (opc = 2 ∧ size = 3)) :
    do_load pg c rt va size opc = load_x pg c va (2 ^ size)
      (fun v => at_width (decide (opc ≠ 3)) (if decide (2 ≤ opc) then sign_extend v (8 * 2 ^ size) else v)) rt := by
  unfold do_load load_x
  rw [if_neg hprfm]
  cases hread : mem_read pg c va (2 ^ size) with
  | fault d => rfl
  | ok v d =>
    rw [Access.ok_bind, Access.ok_bind]
    obtain rfl | rfl | rfl : opc = 1 ∨ opc = 2 ∨ opc = 3 := by omega
    · -- the decoder truncates what a narrower load has no bits above
      have hval : (if decide (size = 3) = true then v else trunc32 v) = v := by
        by_cases h3 : size = 3
        · simp [h3]
        · have hle : 2 ^ size ≤ 4 := Nat.pow_le_pow_right (show 0 < 2 by decide) (show size ≤ 2 by omega)
          simp [h3, mem_read_trunc32 hle hread]
      simp only [OfNat.one_ne_ofNat, or_self, if_false, hval]
      rfl
    · simp only [true_or, if_true, Nat.mul_comm (2 ^ size) 8]
      rfl
    · simp only [or_true, if_true, Nat.mul_comm (2 ^ size) 8]
      rfl

section loads

variable (env : IREnv) (k n : Nat) (s : IRState) (insn : u32) {pc : u64} (hpc : s.c.cur_insn_pc = pc)
  (hel : s.c.el = 0)

include hpc hel

theorem gives_ldp_extra {rt rt2 rn z : Nat} (hrt : rt < 32) (hrt2 : rt2 < 32) (hrn : rn < 32) (hz : z = 2 ∨ z = 3)
    (sw : Bool) (hsw : sw = true → z = 2) (mode : Nat) (imm : u64) :
    (ir_run env k
      ((if mode = 1 ∨ mode = 3 then
          [put_pair_base n rn (if mode = 1 then 0#64 else imm), put_ld_tmp n VREG_TMP2 0#64 0 z sw true pc,
            put_ld_tmp n VREG_TMP2 (BitVec.ofNat 64 (2 ^ z)) 1 z sw true pc]
        else
          [put_ld_tmp n (rsp rn) (if mode = 1 then 0#64 else imm) 0 z sw true pc,
            put_ld_tmp n (rsp rn) ((if mode = 1 then 0#64 else imm) + BitVec.ofNat 64 (2 ^ z)) 1 z sw true pc]) ++
        put_pair_commit n rt rt2 (sw || decide (z = 3)) ++
        if mode = 1 ∨ mode = 3 then
          [ir_put n .IRO_ADDI true (rsp rn) VREG_TMP2 0 0 (if mode = 1 then imm else 0#64) 0#32]
        else []) s).Gives
      ((ldst_pair_access env.toPager s.c false true sw rt rt2 ((pair_mode mode).addr (reg_xsp s.c rn) imm)
        (2 ^ z)).writeback rn ((pair_mode mode).wb (reg_xsp s.c rn) imm)) n := by
  have hf (c : CPU) (v : u64) (c' : CPU) (a : u64) (_ : mem_read env.toPager c a (2 ^ z) = .ok v c') :
      at_width (sw || decide (z = 3)) (at_width true (if sw then sign_extend v (8 * 2 ^ z) else v)) =
        pair_value sw z v := by
    rcases hz with rfl | rfl
    · cases sw <;> rfl
    cases sw with
    | true => exact absurd (hsw rfl) (by decide)
    | false => rfl
  rw [pair_access_loads _ _ _ _ _ _ hz, ← pair_mode_addr, ← pair_mode_wb]
  by_cases hwb : mode = 1 ∨ mode = 3
  · rw [if_pos hwb, if_pos hwb, if_pos hwb]
    have h := gives_ld_pair_base (k := k) (n := n) hel hpc hrt hrt2 hrn (by omega : z < 4)
        (if mode = 1 then 0#64 else imm) sw true
      (sw || decide (z = 3)) hf rfl (if mode = 1 then imm else 0#64) true
    have hbase : reg_xsp s.c rn + (if mode = 1 then 0#64 else imm) + (if mode = 1 then imm else 0#64) =
        reg_xsp s.c rn + imm := by
      split
      · rw [BitVec.add_zero]
      · rw [BitVec.add_zero]
    simp only [if_true, hbase] at h
    exact h
  rw [if_neg hwb, if_neg hwb, if_neg hwb]
  refine gives_ld_pair hpc (rsp rn) _ _ sw true _ (by omega) ?_ ?_ hf [] hrt hrt2 ?_
  · rw [vget_rsp s hel hrn]
  · intro c' t hc
    rw [vget_rsp ⟨c', _⟩ (hc.el.trans hel) hrn, hc.reg_xsp, BitVec.add_assoc]
  · intro k' c' t₀ t₁ _
    rfl

variable {ops : List IROp}

theorem gives_pair_extra (hops : fe_pair_extra n insn pc = some ops) :
    (ir_run env k ops s).Gives (ldst_pair env.toPager s.c insn) n := by
  have hrt : BITS insn 4 0 < 32 := BITS_lt insn 4 0
  have hrn : BITS insn 9 5 < 32 := BITS_lt insn 9 5
  have hrt2 : BITS insn 14 10 < 32 := BITS_lt insn 14 10
  have hopc : BITS insn 31 30 < 4 := BITS_lt insn 31 30
  unfold fe_pair_extra at hops
  simp only [imm7_eq] at hops
  obtain ⟨hmode, hops⟩ := Option.ite_none_left_eq_some.1 hops
  cases hV : BIT insn 26 with
  | true =>
    rw [hV, if_pos rfl] at hops
    obtain ⟨h3, hops⟩ := Option.ite_none_left_eq_some.1 hops
    cases hops
    have hpair := ldst_pair_eq env.toPager s.c insn (by omega) (by omega)
    simp only [hV, if_true] at hpair
    rw [hpair, ← pair_mode_addr, ← pair_mode_wb]
    have h := @gives_vector_pair env k n s _ hpc _ (BIT insn 22) (if BITS insn 25 23 = 1 then 0#64 else
      imm7 insn <<< (BITS insn 31 30 + 2)) _ _ _ _ hrt hrt2 (by omega : BITS insn 31 30 + 2 < 8) hel hrn _ rfl rfl
      (!true && BITS insn 31 30 == 1) (imm7 insn <<< (BITS insn 31 30 + 2))
      (decide (BITS insn 25 23 = 1 ∨ BITS insn 25 23 = 3))
    simp only [decide_eq_true_eq] at h
    generalize BIT insn 22 = L at h ⊢
    cases L <;> exact h
  | false =>
    simp only [hV, Bool.false_eq_true, if_false] at hops
    obtain ⟨hbad, hops⟩ := Option.ite_none_left_eq_some.1 hops
    have h3 : BITS insn 31 30 ≠ 3 := fun h => hbad (Or.inl h)
    have hpair := ldst_pair_eq env.toPager s.c insn h3 (by omega)
    simp only [hV, Bool.false_eq_true, if_false, Bool.not_false, Bool.true_and] at hpair
    rw [hpair]
    have hz : (if BITS insn 31 30 = 2 then 3 else 2) = 2 ∨ (if BITS insn 31 30 = 2 then 3 else 2) = 3 := by
      split
      · exact Or.inr rfl
      · exact Or.inl rfl
    cases hL : BIT insn 22 with
    | true =>
      rw [hL, if_pos rfl] at hops
      cases hops
      have h := gives_ldp_extra env k n s hpc hel hrt hrt2 hrn hz (BITS insn 31 30 == 1)
        (fun h => if_neg (by have := eq_of_beq h; omega)) (BITS insn 25 23)
        (imm7 insn <<< (if BITS insn 31 30 = 2 then 3 else 2))
      have hw : (decide (BITS insn 31 30 = 1) || decide (BITS insn 31 30 = 2)) =
          (BITS insn 31 30 == 1 || decide ((if BITS insn 31 30 = 2 then 3 else 2) = 3)) := by
        by_cases h2 : BITS insn 31 30 = 2 <;> simp [h2, beq_eq_decide]
      rw [hw]
      exact h
    | false =>
      rw [hL, if_neg (by decide)] at hops
      obtain ⟨h0, hops⟩ := Option.ite_none_left_eq_some.1 hops
      rw [not_not] at h0
      cases hops
      rw [pair_access_stores _ _ _ _ _ _ hz, ← pair_mode_addr, ← pair_mode_wb, h0]
      exact gives_st_pair hpc _ _ _ hrt hrt2 hel hrn rfl (BitVec.add_assoc _ _ _).symm 0#64 false

theorem gives_ro_extra (h24 : BIT insn 24 = false) (h21 : BIT insn 21 = true)
    (hops : fe_ro_extra n insn pc = some ops) :
    (ir_run env k ops s).Gives (ldst_register env.toPager s.c insn) n := by
  have hrt : BITS insn 4 0 < 32 := BITS_lt insn 4 0
  have hrn : BITS insn 9 5 < 32 := BITS_lt insn 9 5
  have hrm : BITS insn 20 16 < 32 := BITS_lt insn 20 16
  have hopt : BITS insn 15 13 < 8 := BITS_lt insn 15 13
  have hopc : BITS insn 23 22 < 4 := BITS_lt insn 23 22
  have hsize : BITS insn 31 30 < 4 := BITS_lt insn 31 30
  unfold fe_ro_extra at hops
  unfold ldst_register
  obtain ⟨hmode, hops⟩ := Option.ite_none_left_eq_some.1 hops
  rw [not_not] at hmode
  obtain ⟨hv, hops⟩ := Option.ite_none_left_eq_some.1 hops
  rw [if_neg hv]
  simp only [h24, h21, hmode, Bool.false_eq_true, if_false, if_true, OfNat.ofNat_ne_zero, false_and, ne_eq,
    not_true_eq_false]
  unfold ldst_access ldst_extended_offset
  cases hV : BIT insn 26 with
  | true =>
    simp only [hV, if_true, Bool.true_eq_false, false_and, if_false] at hops ⊢
    cases hops
    have hz : (if 2 ≤ BITS insn 23 22 then 4 else BITS insn 31 30) < 8 := by split <;> omega
    have hbytes : (if 2 ≤ BITS insn 23 22 then 16 else 2 ^ BITS insn 31 30) =
        2 ^ (if 2 ≤ BITS insn 23 22 then 4 else BITS insn 31 30) := by split <;> rfl
    rw [hbytes]
    generalize (if 2 ≤ BITS insn 23 22 then 4 else BITS insn 31 30) = z at hz ⊢
    obtain ⟨k', s', hrun, hc, hva⟩ := run_ro hel hrm hrn hopt
      (show (if BIT insn 12 = true then z else 0) < 8 by split <;> omega)
      (put_v (decide (BITS insn 23 22 % 2 = 1)) n VREG_TMP1 0#64 (BITS insn 4 0) z pc)
    rw [← hc] at hva hpc hel
    have h := @gives_v env k' n s' pc hpc _ _ (decide (BITS insn 23 22 % 2 = 1)) _ _ _ _ hrt hz hel
      ((BitVec.add_zero _).trans hva) hrn 0#64 false
    simp only [put_v, vreg_access, decide_eq_true_eq] at hrun h
    rw [hrun, ← hc]
    by_cases hL : BITS insn 23 22 % 2 = 1 <;> simp only [hL, if_true, if_false] at h ⊢ <;> exact h
  | false =>
    simp only [hV, Bool.false_eq_true, if_false, true_and] at hops ⊢
    by_cases hprfm : BITS insn 23 22 = 2 ∧ BITS insn 31 30 = 3
    · rw [if_pos hprfm] at hops
      cases hops
      simp only [hprfm.1, hprfm.2]
      rfl
    rw [if_neg hprfm] at hops
    obtain ⟨hbad, hops⟩ := Option.ite_none_left_eq_some.1 hops
    rw [if_neg hbad]
    cases hops
    have hshift : (if BIT insn 12 = true then BITS insn 31 30 else 0) < 8 := by split <;> omega
    by_cases h0 : BITS insn 23 22 = 0
    · rw [if_pos h0, if_pos h0]
      obtain ⟨k', s', hrun, hc, hva⟩ := run_ro hel hrm hrn hopt hshift
        (put_st n VREG_TMP1 0#64 (rx (BITS insn 4 0)) (BITS insn 31 30) pc)
      rw [hrun, ← hc]
      rw [← hc] at hva hpc hel
      exact gives_st hpc _ _ _ hrt hel ((BitVec.add_zero _).trans hva) hrn 0#64 false
    rw [if_neg h0, if_neg h0, do_load_eq _ _ _ _ hsize hopc h0 hprfm]
    obtain ⟨k', s', hrun, hc, hva⟩ := run_ro hel hrm hrn hopt hshift
      (put_ld n VREG_TMP1 0#64 (BITS insn 4 0) (BITS insn 31 30) (decide (2 ≤ BITS insn 23 22))
        (decide (BITS insn 23 22 ≠ 3)) pc)
    rw [hrun, ← hc]
    rw [← hc] at hva hpc
    exact gives_ld hpc _ _ _ _ hrt hsize ((BitVec.add_zero _).trans hva) (fun _ _ _ => rfl) _

theorem gives_index_extra (h24 : BIT insn 24 = false) (h21 : BIT insn 21 = false)
    (hops : fe_index_extra n insn pc = some ops) :
    (ir_run env k ops s).Gives (ldst_register env.toPager s.c insn) n := by
  have hrt : BITS insn 4 0 < 32 := BITS_lt insn 4 0
  have hrn : BITS insn 9 5 < 32 := BITS_lt insn 9 5
  have hopc : BITS insn 23 22 < 4 := BITS_lt insn 23 22
  have hsize : BITS insn 31 30 < 4 := BITS_lt insn 31 30
  unfold fe_index_extra at hops
  simp only [imm9_eq] at hops
  by_cases hmode : BITS insn 11 10 = 1 ∨ BITS insn 11 10 = 3
  swap
  · rw [if_pos (by omega)] at hops
    cases hops
  rw [if_neg (by omega)] at hops
  -- pre-indexed or post-indexed, the access comes before the writeback
  have hdec (hv : ¬ (BIT insn 26 = true ∧ 2 ≤ BITS insn 23 22 ∧ BITS insn 31 30 ≠ 0)) :
      ldst_register env.toPager s.c insn = ldst_access env.toPager s.c insn
        (reg_xsp s.c (BITS insn 9 5) + if decide (BITS insn 11 10 = 3) = true then imm9 insn else 0#64)
        (some (reg_xsp s.c (BITS insn 9 5) + imm9 insn)) := by
    unfold ldst_register
    rw [if_neg hv]
    simp only [h24, h21, Bool.false_eq_true, if_false]
    rcases hmode with h | h <;> simp [h]
  have hbase := vget_rsp s hel hrn
  cases hV : BIT insn 26 with
  | true =>
    rw [hV, if_pos rfl] at hops
    obtain ⟨hq, hops⟩ := Option.ite_none_left_eq_some.1 hops
    rw [hdec (by omega)]
    unfold ldst_access
    simp only [hV, if_true, if_neg hq]
    by_cases hL : BITS insn 23 22 % 2 = 1
    · rw [if_pos hL] at hops ⊢
      cases hops
      exact gives_v hpc true _ _ hrt (by omega) hel (congrArg (· + _) hbase) hrn (imm9 insn) true
    rw [if_neg hL] at hops ⊢
    cases hops
    exact gives_v hpc false _ _ hrt (by omega) hel (congrArg (· + _) hbase) hrn (imm9 insn) true
  | false =>
    simp only [hV, Bool.false_eq_true, if_false] at hops
    rw [hdec (by simp [hV])]
    unfold ldst_access
    simp only [hV, Bool.false_eq_true, if_false]
    by_cases h0 : BITS insn 23 22 = 0
    · rw [if_pos h0] at hops
      cases hops
      rw [if_neg (by omega), if_pos h0]
      exact gives_st hpc _ _ _ hrt hel (congrArg (· + _) hbase) hrn (imm9 insn) true
    rw [if_neg h0] at hops
    obtain ⟨hprfm, hops⟩ := Option.ite_none_left_eq_some.1 hops
    obtain ⟨hbad, hops⟩ := Option.ite_none_left_eq_some.1 hops
    cases hops
    rw [if_neg hbad, if_neg h0, do_load_eq _ _ _ _ hsize hopc h0 hprfm]
    exact gives_ld_wb hpc _ _ _ _ hrt hrn hsize hel (fun _ _ _ => rfl)

end loads

end arm64emu
