import Arm64Emu.Jit.FeExtra

namespace arm64emu

theorem host_memset_append (m : Mem) (p a b : Nat) (d : u8) :
    host_memset (host_memset m p a d) (p + a) b d = host_memset m p (a + b) d := by
  unfold host_memset
  congr 1
  funext i
  simp only
  by_cases hi : p + a ≤ i ∧ i < p + a + b
  · rw [if_pos hi, if_pos (by omega)]
  rw [if_neg hi]
  by_cases hlow : p ≤ i ∧ i < p + a
  · rw [if_pos hlow, if_pos (by omega)]
  · rw [if_neg hlow, if_neg (by omega)]

theorem st_le_zero (m : Mem) (p n : Nat) : st_le m p n 0#64 = host_memset m p n 0#8 := by
  induction n generalizing m p with
  | zero =>
    have hnone (i : Nat) : ¬ (p ≤ i ∧ i < p + 0) := by omega
    simp only [st_le, host_memset, hnone, if_false]
  | succ n ih =>
    have hbyte : ({ m with byte := Function.update m.byte p ((0#64).setWidth 8) } : Mem) =
        host_memset m p 1 0#8 := by
      unfold host_memset
      congr 1
      funext i
      by_cases hi : i = p
      · rw [hi, Function.update_self, if_pos (by omega)]
        rfl
      · rw [Function.update_of_ne hi, if_neg (by omega)]
    rw [st_le, hbyte, show (0#64 >>> 8 : u64) = 0#64 from rfl, ih, host_memset_append, Nat.add_comm 1 n]

theorem zva_line_in_page (x : u64) : page_off (x &&& ~~~63#64) + 64 ≤ GUEST_PAGE_SIZE := by
  have hlow : (x &&& ~~~63#64) &&& 63#64 = 0#64 := by
    rw [BitVec.and_assoc, show ~~~63#64 &&& 63#64 = 0#64 by decide, BitVec.and_zero]
  have hmod : (x &&& ~~~63#64).toNat % 2 ^ 6 = 0 := by
    rw [← Nat.and_two_pow_sub_one_eq_mod]
    exact congrArg BitVec.toNat hlow
  unfold page_off GUEST_PAGE_SIZE
  omega

theorem not_crosses_page {va : u64} {size : Nat} (h : page_off va + size ≤ GUEST_PAGE_SIZE) :
    crosses_page va size = false := by
  simp only [crosses_page, decide_eq_false_iff_not]
  omega

section zva

variable (pg : Pager) (c : CPU) {base : u64} (hline : page_off base + 64 ≤ GUEST_PAGE_SIZE)

include hline

theorem dc_zva_loop_hit {m m' : Mem} {p : Nat} (htr : translate pg m base .w = (m', .ok p)) (cnt : Nat) :
    ∀ j m'', j + cnt ≤ 8 → m''.pte = m'.pte →
      dc_zva_loop pg cnt { c with mem := m'' } (base + BitVec.ofNat 64 (8 * j)) =
        { c with mem := host_memset m'' (p + 8 * j) (8 * cnt) 0#8 } := by
  induction cnt with
  | zero =>
    intro j m'' _ _
    rw [dc_zva_loop, ← st_le_zero, st_le]
  | succ cnt ih =>
    intro j m'' hj hpte
    have hin : page_off base + 8 * j < GUEST_PAGE_SIZE := by omega
    have hoff := (page_add hin).2
    have hnext : base + BitVec.ofNat 64 (8 * j) + 8#64 = base + BitVec.ofNat 64 (8 * (j + 1)) := by
      rw [BitVec.add_assoc, ← BitVec.ofNat_add]
      rfl
    rw [dc_zva_loop, mem_write, not_crosses_page (by omega), if_neg (by decide), mem_write_page,
      translate_again pg (by decide) htr hin hpte]
    simp only
    have hrest := ih (j + 1) (host_memset m'' (p + 8 * j) 8 0#8) (by omega) hpte
    rw [show p + 8 * (j + 1) = p + 8 * j + 8 by omega, host_memset_append,
      show 8 + 8 * cnt = 8 * (cnt + 1) by omega] at hrest
    rw [st_le_zero, hnext]
    exact hrest

theorem dc_zva_loop_eq :
    dc_zva_loop pg 8 c base =
      match mem_host_ptr pg c base 64 .w with
      | (c, some hp) => { c with mem := host_memset c.mem hp 64 0#8 }
      | (c, none) => dc_zva_loop pg 8 c base := by
  have hpage : crosses_page base 64 = false := not_crosses_page hline
  have hfirst : crosses_page base 8 = false := not_crosses_page (by omega)
  simp only [mem_host_ptr, hpage, Bool.false_eq_true, if_false]
  cases htr : translate pg c.mem base .w with
  | mk m r =>
    cases r with
    | error perm =>
      have hagain := translate_fails_again pg htr
      simp only [dc_zva_loop, mem_write, hfirst, Bool.false_eq_true, if_false, mem_write_page, htr, hagain]
    | ok p =>
      have hrest := dc_zva_loop_hit pg c hline htr 7 1 (st_le m p 8 0#64) (by omega) (st_le_pte m p 8 0#64)
      rw [dc_zva_loop, mem_write, hfirst, if_neg (by decide), mem_write_page, htr]
      simp only
      refine hrest.trans ?_
      rw [st_le_zero, host_memset_append]

end zva

/-- What the guest's code finds at EL0: `cpu_reset` has opened DC ZVA to it. -/
structure El0 (c : CPU) : Prop where
  el : c.el = 0
  dze : (c.sctlr 1).getLsbD SCTLR_DZE = true

section system

variable (env : IREnv) (k n : Nat) (s : IRState) {insn : u32} {pc : u64} (c : CPU)

theorem mask_le {m v m' : u32} (h : insn &&& m = v) (hm : m &&& m' = m') : insn &&& m' = v &&& m' := by
  rw [← h, BitVec.and_assoc, hm]

theorem exec_a64_system (h : insn &&& 0xff000000#32 = 0xd5000000#32) :
    exec_a64 env.toEnv c insn = system_insn env.toEnv c insn := by
  have hclass : BITS insn 28 25 = 0xa := BITS_of_mask h (by decide) (by decide)
  have h3126 : BITS insn 31 26 = 0x35 := BITS_of_mask h (by decide) (by decide)
  have h3124 : BITS insn 31 24 = 0xd5 := BITS_of_mask h (by decide) (by decide)
  have h3025 : BITS insn 30 25 = 0x2a := BITS_of_mask h (by decide) (by decide)
  have h3125 : BITS insn 31 25 = 0x6a := BITS_of_mask h (by decide) (by decide)
  unfold exec_a64 branch_system
  simp only [hclass, h3126, h3124, h3025, h3125, Nat.reduceEqDiff, false_and, if_false, if_true]

theorem gives_cpuld {rt : Nat} (hrt : rt < 32) (off : u64) :
    (ir_run env k (if rt = 31 then [] else [ir_put n .IRO_CPULD true rt VREG_ZERO 0 0 off 0#32]) s).Gives
      (set_x s.c rt (cpu_ld64 s.c off)) n := by
  by_cases h31 : rt = 31
  · rw [if_pos h31, set_x, if_pos h31]
    rfl
  have hset := vset_rx s hrt (cpu_ld64 s.c off)
  rw [rx, if_neg h31] at hset
  rw [if_neg h31]
  exact congrArg IRState.c hset

theorem gives_zva_stores (cnt : Nat) :
    ∀ k j (s : IRState), s.c.cur_insn_pc = pc →
      (ir_run env k ((List.range' j cnt).map fun zi =>
        put_st n VREG_TMP2 (BitVec.ofNat 64 (8 * zi)) VREG_ZERO 3 pc) s).Gives
        (dc_zva_loop env.toPager cnt s.c (s.tmp 2 + BitVec.ofNat 64 (8 * j))) n := by
  induction cnt with
  | zero => exact fun _ _ _ _ => rfl
  | succ cnt ih =>
    intro k j s hpc
    have hnext : s.tmp 2 + BitVec.ofNat 64 (8 * j) + 8#64 = s.tmp 2 + BitVec.ofNat 64 (8 * (j + 1)) := by
      rw [BitVec.add_assoc, ← BitVec.ofNat_add]
      rfl
    rw [List.range'_succ, List.map_cons, run_st hpc]
    have hplain := mem_write_plain env.toPager s.c (s.tmp 2 + BitVec.ofNat 64 (8 * j)) 8 0#64
    change ((Access.toIR (mem_write env.toPager s.c (s.tmp 2 + BitVec.ofNat 64 (8 * j)) 8 0#64) _ n).bind _).Gives
      _ n
    rw [dc_zva_loop]
    cases hw : mem_write env.toPager s.c (s.tmp 2 + BitVec.ofNat 64 (8 * j)) 8 0#64 with
    | fault d => exact ⟨rfl, rfl⟩
    | ok u d =>
      rw [hw] at hplain
      obtain ⟨m, rfl⟩ := hplain
      simp only [hnext]
      exact ih (k + 1) (j + 1) ⟨{ s.c with mem := m }, s.tmp⟩ hpc

theorem system_insn_sysreg (h : BITS insn 20 19 ≠ 0) :
    system_insn env.toEnv c insn = sysreg_exec env.toEnv c insn := by
  unfold system_insn
  rw [if_neg (fun hh => h hh.2.1), if_neg (fun hh => h hh.2.1)]

theorem sysreg_exec_move (L : Bool) (op1 CRn CRm op2 : Nat) (hL : BIT insn 21 = L)
    (hop0 : BITS insn 20 19 = 3) (hop1 : BITS insn 18 16 = op1) (hCRn : BITS insn 15 12 = CRn)
    (hCRm : BITS insn 11 8 = CRm) (hop2 : BITS insn 7 5 = op2)
    (hallowed : el0_register c L (KEY 3 op1 CRn CRm op2) = true) :
    sysreg_exec env.toEnv c insn =
      if L then do_mrs env.toEnv c (KEY 3 op1 CRn CRm op2) (BITS insn 4 0)
      else do_msr env.toEnv c (KEY 3 op1 CRn CRm op2) (BITS insn 4 0) := by
  unfold sysreg_exec
  simp only [hL, hop0, hop1, hCRn, hCRm, hop2]
  have hel0 : el0_allowed c L 3 op1 CRn CRm op2 (BITS insn 4 0) = true := hallowed
  rw [if_neg (by rw [hel0]; simp), if_neg (by decide), if_neg (by decide)]

theorem exec_thread_reg {bits : u32} {L : Bool} {op2 : Nat} (hmask : insn &&& 0xFFFFFFE0#32 = bits)
    (hbits : (bits, L, op2) = (0xD53BD040#32, true, 2) ∨ (bits, L, op2) = (0xD53BD060#32, true, 3) ∨
      (bits, L, op2) = (0xD51BD040#32, false, 2)) :
    exec_a64 env.toEnv c insn =
      if L then do_mrs env.toEnv c (KEY 3 3 13 0 op2) (BITS insn 4 0)
      else do_msr env.toEnv c (KEY 3 3 13 0 op2) (BITS insn 4 0) := by
  rcases hbits with h | h | h
  all_goals
    cases h
    have hop0 : BITS insn 20 19 = 3 := BITS_of_mask hmask (by decide) (by decide)
    rw [exec_a64_system env c (mask_le hmask (by decide)), system_insn_sysreg env c (by omega)]
    exact sysreg_exec_move env c _ 3 13 0 _ (BIT_of_mask hmask (by decide)) hop0
      (BITS_of_mask hmask (by decide) (by decide)) (BITS_of_mask hmask (by decide) (by decide))
      (BITS_of_mask hmask (by decide) (by decide)) (BITS_of_mask hmask (by decide) (by decide)) rfl

theorem gives_thread_read {v : u32} {off : u64} (hmask : insn &&& 0xFFFFFFE0#32 = v)
    (hv : v = 0xD53BD040#32 ∧ off = offsetof_tpidr ∨ v = 0xD53BD060#32 ∧ off = offsetof_tpidrro_el0) :
    (ir_run env k (if BITS insn 4 0 = 31 then []
      else [ir_put n .IRO_CPULD true (BITS insn 4 0) VREG_ZERO 0 0 off 0#32]) s).Gives
      (exec_a64 env.toEnv s.c insn) n := by
  rcases hv with ⟨rfl, rfl⟩ | ⟨rfl, rfl⟩
  · rw [exec_thread_reg env s.c hmask (.inl rfl)]
    exact gives_cpuld env k n s (BITS_lt insn 4 0) _
  · rw [exec_thread_reg env s.c hmask (.inr (.inl rfl))]
    exact gives_cpuld env k n s (BITS_lt insn 4 0) _

theorem gives_tpidr_write (hmask : insn &&& 0xFFFFFFE0#32 = 0xD51BD040#32) :
    (ir_run env k [ir_put n .IRO_CPUST true VREG_ZERO (rx (BITS insn 4 0)) 0 0 offsetof_tpidr 0#32] s).Gives
      (exec_a64 env.toEnv s.c insn) n := by
  rw [exec_thread_reg env s.c hmask (.inr (.inr rfl))]
  exact congrArg (cpu_st64 s.c offsetof_tpidr) (vget_rx s (BITS_lt insn 4 0))

/-- The barriers order this thread against the others and change nothing of
its own. -/
theorem exec_a64_barrier {v : u32} (hmask : insn &&& 0xFFFFF0FF#32 = v)
    (hv : v = 0xD50330BF#32 ∨ v = 0xD503309F#32 ∨ v = 0xD50330DF#32) : exec_a64 env.toEnv c insn = c := by
  have htop : insn &&& 0xff000000#32 = 0xd5000000#32 := by
    rw [mask_le hmask (show 0xFFFFF0FF#32 &&& 0xff000000#32 = 0xff000000#32 by decide)]
    rcases hv with rfl | rfl | rfl <;> decide
  have hfields : BIT insn 21 = false ∧ BITS insn 20 19 = 0 ∧ BITS insn 18 16 = 3 ∧ BITS insn 15 12 = 3 ∧
      BITS insn 4 0 = 31 := by
    rw [BIT_of_mask hmask (by decide), BITS_of_mask hmask (by decide) (by decide),
      BITS_of_mask hmask (by decide) (by decide), BITS_of_mask hmask (by decide) (by decide),
      BITS_of_mask hmask (by decide) (by decide)]
    rcases hv with rfl | rfl | rfl <;> decide
  have hop2 : BITS insn 7 5 ≠ 2 := by
    rw [BITS_of_mask hmask (by decide) (by decide)]
    rcases hv with rfl | rfl | rfl <;> decide
  rw [exec_a64_system env c htop, system_insn, if_neg (by rw [hfields.2.2.2.1]; omega), if_pos hfields,
    if_neg hop2]

theorem gives_zva (hc : El0 s.c) (hpc : s.c.cur_insn_pc = pc)
    (hmask : insn &&& 0xFFFFFFE0#32 = 0xD50B7420#32) :
    (ir_run env k (ir_put n .IRO_ANDI true VREG_TMP2 (rx (BITS insn 4 0)) 0 0 (~~~63#64) 0#32 ::
      (List.range 8).map fun zi => put_st n VREG_TMP2 (BitVec.ofNat 64 (8 * zi)) VREG_ZERO 3 pc) s).Gives
      (exec_a64 env.toEnv s.c insn) n := by
  have hop0 : BITS insn 20 19 = 1 := BITS_of_mask hmask (by decide) (by decide)
  have hL : BIT insn 21 = false := BIT_of_mask hmask (by decide)
  have hop1 : BITS insn 18 16 = 3 := BITS_of_mask hmask (by decide) (by decide)
  have hCRn : BITS insn 15 12 = 7 := BITS_of_mask hmask (by decide) (by decide)
  have hCRm : BITS insn 11 8 = 4 := BITS_of_mask hmask (by decide) (by decide)
  have hop2 : BITS insn 7 5 = 1 := BITS_of_mask hmask (by decide) (by decide)
  have hallowed : el0_allowed s.c false 1 3 7 4 1 (BITS insn 4 0) = true := hc.dze
  have hdec : exec_a64 env.toEnv s.c insn =
      dc_zva_loop env.toPager 8 s.c (reg_x s.c (BITS insn 4 0) &&& ~~~63#64) := by
    rw [exec_a64_system env s.c (mask_le hmask (by decide)), system_insn_sysreg env s.c (by omega), sysreg_exec,
      hL, hop0, hop1, hCRn, hCRm, hop2, if_neg (by rw [hallowed]; simp), if_neg (by decide), if_pos rfl,
      if_neg (by decide), sys_op, if_pos ⟨rfl, rfl, rfl⟩]
    exact (dc_zva_loop_eq env.toPager s.c (zva_line_in_page _)).symm
  rw [hdec, ir_run_alu env k s _ rfl, ir_alu_put, vget_rx s (BITS_lt insn 4 0), List.range_eq_range']
  have h := gives_zva_stores env n 8 (k + 1) 0
    (vset s VREG_TMP2 (reg_x s.c (BITS insn 4 0) &&& ~~~63#64)) hpc
  rw [show BitVec.ofNat 64 (8 * 0) = 0#64 from rfl, BitVec.add_zero] at h
  exact h

theorem gives_system (hc : El0 s.c) (hpc : s.c.cur_insn_pc = pc)
    (hops : put_call1 n pc insn ∉ (fe_system n insn pc).ops) :
    (fe_system n insn pc).ninsns = n + 1 ∧ (fe_system n insn pc).fin = false ∧
      (ir_run env k (fe_system n insn pc).ops s).Gives (exec_a64 env.toEnv s.c insn) n := by
  unfold fe_system at hops ⊢
  by_cases h1 : insn &&& 0xFFFFFFE0#32 = 0xD53BD040#32
  · rw [if_pos h1]
    exact ⟨rfl, rfl, gives_thread_read env k n s h1 (.inl ⟨rfl, rfl⟩)⟩
  rw [if_neg h1] at hops ⊢
  by_cases h2 : insn &&& 0xFFFFFFE0#32 = 0xD53BD060#32
  · rw [if_pos h2]
    exact ⟨rfl, rfl, gives_thread_read env k n s h2 (.inr ⟨rfl, rfl⟩)⟩
  rw [if_neg h2] at hops ⊢
  by_cases h3 : insn &&& 0xFFFFFFE0#32 = 0xD51BD040#32
  · rw [if_pos h3]
    exact ⟨rfl, rfl, gives_tpidr_write env k n s h3⟩
  rw [if_neg h3] at hops ⊢
  by_cases h4 : insn &&& 0xFFFFF0FF#32 = 0xD50330BF#32 ∨ insn &&& 0xFFFFF0FF#32 = 0xD503309F#32
  · rw [if_pos h4, exec_a64_barrier env s.c rfl (by tauto)]
    exact ⟨rfl, rfl, rfl⟩
  rw [if_neg h4] at hops ⊢
  by_cases h5 : insn &&& 0xFFFFFFE0#32 = 0xD50B7420#32
  · rw [if_pos h5]
    exact ⟨rfl, rfl, gives_zva env k n s hc hpc h5⟩
  rw [if_neg h5] at hops ⊢
  by_cases h6 : insn &&& 0xFFFFF0FF#32 = 0xD50330DF#32
  · rw [if_pos h6, exec_a64_barrier env s.c rfl (by tauto)]
    exact ⟨rfl, rfl, rfl⟩
  rw [if_neg h6] at hops
  exact absurd (List.mem_singleton.mpr rfl) hops

end system

end arm64emu
