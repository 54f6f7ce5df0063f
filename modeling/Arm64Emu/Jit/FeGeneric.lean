import Arm64Emu.Jit.FeSystem

namespace arm64emu

def Access.after {α : Type} (r : Access α) (want : α → CPU → CPU) : CPU :=
  match r with
  | .fault c => c
  | .ok a c => want a c

theorem Access.gives_after {α : Type} {c : CPU} {r : Access α} (hr : r.Keeps c) {f : α → CPU → IRState} {n : Nat}
    {g : IRState → IRResult} {want : α → CPU → CPU}
    (h : ∀ a c', r = .ok a c' → c.Frame c' → (g (f a c')).Gives (want a c') n) :
    ((r.toIR f n).bind g).Gives (r.after want) n := by
  cases hcase : r with
  | fault d => exact ⟨rfl, rfl⟩
  | ok a d => exact h a d hcase (hr a d hcase)

theorem Access.bind_after {α β : Type} (r : Access α) (f : α → CPU → Access β) (want : β → CPU → CPU) :
    (r.bind f).after want = r.after fun a c => (f a c).after want := by
  cases r <;> rfl

theorem exec_a64_ldst (env : Env) (c : CPU) {insn : u32} (h27 : BIT insn 27 = true) (h25 : BIT insn 25 = false) :
    exec_a64 env c insn = loads_stores env.toPager c insn := by
  have hclass : BITS insn 28 25 = 4 ∨ BITS insn 28 25 = 6 ∨ BITS insn 28 25 = 12 ∨ BITS insn 28 25 = 14 := by
    have hlt : BITS insn 28 25 < 16 := BITS_lt insn 28 25
    have hlow : (BITS insn 28 25).testBit 0 = false := (BITS_testBit insn 28 25 0).trans h25
    have hmid : (BITS insn 28 25).testBit 2 = true := (BITS_testBit insn 28 25 2).trans h27
    rw [Nat.testBit_eq_decide_div_mod_eq, decide_eq_false_iff_not] at hlow
    rw [Nat.testBit_eq_decide_div_mod_eq, decide_eq_true_eq] at hmid
    omega
  unfold exec_a64
  rcases hclass with h | h | h | h <;> simp only [h]

section ldst

variable (env : IREnv) (k n : Nat) (s : IRState) {pc : u64} (insn : u32) (hpc : s.c.cur_insn_pc = pc)
  (hel : s.c.el = 0)

include hpc hel

omit hel in
theorem gives_ldrsw_literal :
    (ir_run env k [ir_put n .IRO_MOVI true VREG_TMP0 0 0 0 (pc + (sfield insn 8 13 <<< 2)) 0#32,
      put_ld n VREG_TMP0 0#64 (BITS insn 4 0) 2 true true pc] s).Gives
      (load_x env.toPager s.c (s.c.cur_insn_pc + (sign_extend (BitVec.ofNat 64 (BITS insn 23 5)) 19 <<< 2)) 4
        (sign_extend · 32) (BITS insn 4 0)).cpu n := by
  have hoff : sfield insn 8 13 = sign_extend (BitVec.ofNat 64 (BITS insn 23 5)) 19 :=
    sfield_eq insn (show 8 ≤ 13 by decide) (by decide)
  rw [← Access.writeback_none _ 0, ir_run_tmp0 _ rfl _ _ _ _ _ fun _ _ _ => rfl, hoff, hpc]
  exact gives_ld
    (s := vset s VREG_TMP0 (pc + (sign_extend (BitVec.ofNat 64 (BITS insn 23 5)) 19 <<< 2))) hpc _ _ true true
    (BITS_lt insn 4 0) (show 2 < 4 by decide) (BitVec.add_zero _) (fun _ _ _ => rfl) 0

theorem gives_ldst_extra {ops : List IROp} (hops : fe_ldst_extra n insn pc = some ops) :
    (ir_run env k ops s).Gives (exec_a64 env.toEnv s.c insn) n := by
  unfold fe_ldst_extra at hops
  obtain ⟨hclass, hops⟩ := Option.ite_none_left_eq_some.1 hops
  rw [not_not] at hclass
  rw [exec_a64_ldst _ _ hclass.1 hclass.2, loads_stores]
  by_cases hlit : BITS insn 29 27 = 3 ∧ BITS insn 25 24 = 0
  · rw [if_pos hlit] at hops
    rw [if_neg (by omega), if_neg (by omega), if_pos hlit, ldst_literal]
    cases hV : BIT insn 26 with
    | true =>
      rw [hV, if_pos rfl] at hops
      cases hops
    | false =>
      rw [hV, if_neg (by decide)] at hops
      rw [if_neg (by decide)]
      by_cases h2 : BITS insn 31 30 = 2
      · rw [if_pos h2] at hops
        cases hops
        rw [h2]
        exact gives_ldrsw_literal env k n s insn hpc
      rw [if_neg h2] at hops
      by_cases h3 : BITS insn 31 30 = 3
      · rw [if_pos h3] at hops
        cases hops
        rw [h3]
        rfl
      · rw [if_neg h3] at hops
        cases hops
  rw [if_neg hlit] at hops
  by_cases h5 : BITS insn 29 27 = 5
  · rw [if_pos h5] at hops
    rw [if_neg (by omega), if_pos h5]
    exact gives_pair_extra env k n s insn hpc hel hops
  rw [if_neg h5] at hops
  obtain ⟨h7, hops⟩ := Option.ite_none_left_eq_some.1 hops
  obtain ⟨h7, h24⟩ := not_or.mp h7
  rw [if_pos (not_not.mp h7)]
  cases h21 : BIT insn 21 with
  | true =>
    rw [h21, if_pos rfl] at hops
    exact gives_ro_extra env k n s insn hpc hel (Bool.not_eq_true _ ▸ h24) h21 hops
  | false =>
    rw [h21, if_neg (by decide)] at hops
    exact gives_index_extra env k n s insn hpc hel (Bool.not_eq_true _ ▸ h24) h21 hops

theorem gives_contiguous (L : Bool) (rt : Nat) {rn z nregs : Nat} (hrn : rn < 32) (hz : z < 8) (wb : List IROp)
    (post : CPU → CPU)
    (hwb : ∀ k (s' : IRState), s.c.Frame s'.c → (ir_run env k wb s').Gives (post s'.c) n) (cnt : Nat) :
    ∀ k r (s' : IRState), r + cnt = nregs → s.c.Frame s'.c →
      (ir_run env k ((List.range' r cnt).map (fun r =>
          put_v L n (rsp rn) (BitVec.ofNat 64 (r * 2 ^ z)) ((rt + r) % 32) z pc) ++ wb) s').Gives
        ((ldst_contiguous env.toPager L rt (2 ^ z) nregs cnt s'.c
          (reg_xsp s.c rn + BitVec.ofNat 64 (r * 2 ^ z))).after fun _ c => post c) n := by
  induction cnt with
  | zero => exact fun k r s' _ hs' => hwb k s' hs'
  | succ cnt ih =>
    intro k r s' hr hs'
    have hnext : reg_xsp s.c rn + BitVec.ofNat 64 (r * 2 ^ z) + BitVec.ofNat 64 (2 ^ z) =
        reg_xsp s.c rn + BitVec.ofNat 64 ((r + 1) * 2 ^ z) := by
      rw [BitVec.add_assoc, ← BitVec.ofNat_add, Nat.succ_mul]
    have hbase : vget s' (rsp rn) = reg_xsp s.c rn := by
      rw [vget_rsp s' (hs'.el.trans hel) hrn, hs'.reg_xsp]
    have hpc' : s'.c.cur_insn_pc = pc := hs'.cur_insn_pc.trans hpc
    have hvt : (rt + r) % 32 < 32 := Nat.mod_lt _ (by decide)
    rw [ldst_contiguous, show nregs - (cnt + 1) = r by omega, Access.bind_after, List.range'_succ, List.map_cons,
      List.cons_append, hnext]
    change IRResult.Gives _ ((vreg_access env.toPager s'.c L _ _ _).after _) n
    rw [run_v hpc' _ _ _ _ hvt hz, hbase]
    exact Access.gives_after (vreg_access_keeps _ _ _ _ _ _) fun _ c' _ hc' =>
      ih (k + 1) (r + 1) ⟨c', s'.tmp⟩ (by omega) (hs'.trans hc')

omit hpc hel in
theorem ld1_shape {opcode nregs : Nat} (h : ld1_nregs opcode = some nregs) :
    vector_multi_shape opcode = some (nregs, 1) := by
  unfold ld1_nregs at h
  split at h <;> cases h <;> rfl

omit hpc hel in
theorem exec_a64_ld1 {m v : u32} (hmask : insn &&& m = v) (hm : m &&& 0x3f000000#32 = 0x3f000000#32)
    (hv : v &&& 0x3f000000#32 = 0x0c000000#32) :
    exec_a64 env.toEnv s.c insn = ldst_vector_multi env.toPager s.c insn := by
  have htop : insn &&& 0x3f000000#32 = 0x0c000000#32 := (mask_le hmask hm).trans hv
  have h2927 : BITS insn 29 27 = 1 := BITS_of_mask htop (by decide) (by decide)
  have h2624 : BITS insn 26 24 = 4 := BITS_of_mask htop (by decide) (by decide)
  rw [exec_a64_ldst _ _ (BIT_of_mask htop (by decide)) (BIT_of_mask htop (by decide)), loads_stores, h2927, h2624,
    if_neg (by decide), if_neg (by decide), if_neg (by omega), if_neg (by decide), if_pos ⟨rfl, rfl⟩]

omit hpc in
theorem gives_vector_post {s' : IRState} (hs' : s.c.Frame s'.c) {plain : Bool} (hplain : BIT insn 23 = !plain)
    (total : Nat) :
    (ir_run env k (if plain then []
      else if BITS insn 20 16 = 31 then [put_wb n (BITS insn 9 5) (BitVec.ofNat 64 total)]
      else [ir_put n .IRO_ADD true (rsp (BITS insn 9 5)) (rsp (BITS insn 9 5)) (BITS insn 20 16) 0 0#64 0#32])
      s').Gives (vector_post s'.c insn (reg_xsp s.c (BITS insn 9 5)) total) n := by
  have hrn : BITS insn 9 5 < 32 := BITS_lt insn 9 5
  have hrm : BITS insn 20 16 < 32 := BITS_lt insn 20 16
  have hel' : s'.c.el = 0 := hs'.el.trans hel
  simp only [vector_post, hplain]
  cases plain with
  | true => rfl
  | false =>
    simp only [Bool.not_false, Bool.false_eq_true, if_true, if_false]
    by_cases h31 : BITS insn 20 16 = 31
    · rw [if_pos h31, if_pos h31, run_wb hel' hrn, hs'.reg_xsp]
      rfl
    have hrx := vget_rx s' hrm
    rw [rx, if_neg h31] at hrx
    rw [if_neg h31, if_neg h31, ir_run_alu env k s' [] rfl, ir_alu_put, vget_rsp s' hel' hrn, hrx, hs'.reg_xsp]
    exact congrArg IRState.c (vset_rsp s' hel' hrn _)

theorem gives_ld1 {ops : List IROp} (hops : fe_ld1 n insn pc = some ops) :
    (ir_run env k ops s).Gives (exec_a64 env.toEnv s.c insn) n := by
  unfold fe_ld1 at hops
  by_cases hform : insn &&& 0xBFBF0000#32 = 0x0C000000#32 ∨ insn &&& 0xBFA00000#32 = 0x0C800000#32
  swap
  · rw [if_pos (by simp [not_or.mp hform])] at hops
    cases hops
  rw [if_neg (by simpa [or_iff_not_imp_left] using hform)] at hops
  cases hn : ld1_nregs (BITS insn 15 12) with
  | none =>
    simp only [hn] at hops
    cases hops
  | some nregs =>
    simp only [hn, Option.some.injEq] at hops
    subst hops
    have hplain : BIT insn 23 = !decide (insn &&& 0xBFBF0000#32 = 0x0C000000#32) := by
      by_cases hp : insn &&& 0xBFBF0000#32 = 0x0C000000#32
      · rw [decide_eq_true hp]
        exact BIT_of_mask hp (by decide)
      · rw [decide_eq_false hp]
        exact BIT_of_mask (hform.resolve_left hp) (by decide)
    have hdec : exec_a64 env.toEnv s.c insn = ldst_vector_multi env.toPager s.c insn := by
      rcases hform with h | h
      · exact exec_a64_ld1 env s insn h (by decide) (by decide)
      · exact exec_a64_ld1 env s insn h (by decide) (by decide)
    have hbytes : (if BIT insn 30 = true then 16 else 8) = 2 ^ (if BIT insn 30 = true then 4 else 3) := by
      split <;> rfl
    have hz : (if BIT insn 30 = true then 4 else 3) < 8 := by split <;> decide
    rw [hdec, ldst_vector_multi, ld1_shape hn]
    simp only [if_true, hbytes]
    generalize (if BIT insn 30 = true then 4 else 3) = z at hz ⊢
    have h := gives_contiguous env n s hpc hel (BIT insn 22) (BITS insn 4 0) (BITS_lt insn 9 5) hz
      (if decide (insn &&& 0xBFBF0000#32 = 0x0C000000#32) then []
        else if BITS insn 20 16 = 31 then [put_wb n (BITS insn 9 5) (BitVec.ofNat 64 (nregs * 2 ^ z))]
        else [ir_put n .IRO_ADD true (rsp (BITS insn 9 5)) (rsp (BITS insn 9 5)) (BITS insn 20 16) 0 0#64 0#32])
      (fun c => vector_post c insn (reg_xsp s.c (BITS insn 9 5)) (nregs * 2 ^ z))
      (fun k s' hs' => gives_vector_post env k n s insn hel hs' hplain _) nregs k 0 s (Nat.zero_add _)
      ⟨_, _, rfl⟩
    rw [Nat.zero_mul, BitVec.add_zero] at h
    rw [List.range_eq_range']
    generalize ldst_contiguous env.toPager _ _ _ _ _ _ _ = r at h ⊢
    cases r <;> exact h

end ldst

section generic

variable (env : IREnv) (k n : Nat) (s : IRState) {insn : u32}

theorem gives_rbit (hmask : insn &&& 0x7FFFFC00#32 = 0x5AC00000#32) :
    (ir_run env k (if BITS insn 4 0 = 31 then []
      else [ir_put n .IRO_RBIT (BIT insn 31) (BITS insn 4 0) (rx (BITS insn 9 5)) 0 0 0#64 0#32]) s).Gives
      (exec_a64 env.toEnv s.c insn) n := by
  have hclass : BITS insn 28 25 = 0xd := BITS_of_mask hmask (by decide) (by decide)
  have h2824 : BITS insn 28 24 = 0x1a := BITS_of_mask hmask (by decide) (by decide)
  have h2821 : BITS insn 28 21 = 0xd6 := BITS_of_mask hmask (by decide) (by decide)
  have h30 : BIT insn 30 = true := BIT_of_mask hmask (by decide)
  have hop : BITS insn 15 10 = 0 := BITS_of_mask hmask (by decide) (by decide)
  have hrd : BITS insn 4 0 < 32 := BITS_lt insn 4 0
  have hdec : exec_a64 env.toEnv s.c insn =
      set_x s.c (BITS insn 4 0) (at_width (BIT insn 31) (rbit (reg_x s.c (BITS insn 9 5)) (BIT insn 31))) := by
    simp only [exec_a64, hclass, dp_register, h2824, h2821, dp_12source, h30, hop, if_true]
    rfl
  rw [hdec]
  by_cases h31 : BITS insn 4 0 = 31
  · rw [if_pos h31, set_x, if_pos h31]
    rfl
  rw [if_neg h31]
  refine gives_op env k n s rfl _ (by omega) _ _ _ _ (fun _ _ _ => rfl) ?_
  rw [vget_rx s (BITS_lt insn 9 5)]
  rfl

theorem gives_adc (hmask : insn &&& 0x1FE0FC00#32 = 0x1A000000#32) :
    (ir_run env k (put_alu n (adc_opc (BIT insn 30) (BIT insn 29)) (BIT insn 31) (rx (BITS insn 4 0))
      (rx (BITS insn 9 5)) (rx (BITS insn 20 16))) s).Gives (exec_a64 env.toEnv s.c insn) n := by
  have hclass : BITS insn 28 25 = 0xd := BITS_of_mask hmask (by decide) (by decide)
  have h2824 : BITS insn 28 24 = 0x1a := BITS_of_mask hmask (by decide) (by decide)
  have h2821 : BITS insn 28 21 = 0xd0 := BITS_of_mask hmask (by decide) (by decide)
  have hop : BITS insn 15 10 = 0 := BITS_of_mask hmask (by decide) (by decide)
  have hopc : adc_opc (BIT insn 30) (BIT insn 29) ∈ rr_ops := by
    cases BIT insn 30 <;> cases BIT insn 29 <;> decide
  have h := @gives_alu_x env k n s (BIT insn 31) { pd_fill insn with rd := BITS insn 4 0 } _ hopc
    (rx (BITS insn 9 5)) (rx (BITS insn 20 16)) (BITS_lt insn 4 0) _ _ (vget_rx s (BITS_lt insn 9 5))
    (congrArg _ (vget_rx s (BITS_lt insn 20 16)))
  have hdec : exec_a64 env.toEnv s.c insn = dp_carry s.c insn := by
    simp only [exec_a64, hclass, dp_register, h2824, h2821]
  rw [hdec, dp_carry, if_pos hop]
  refine (congrArg (fun c => IRResult.Gives _ c n) ?_).mpr h
  cases BIT insn 30 <;> cases BIT insn 29 <;> exact congrArg (set_x _ _) (at_width_awc _ _ _ _)

end generic

end arm64emu
