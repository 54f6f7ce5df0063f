import Arm64Emu.Jit.FeAtomic
import Arm64Emu.Jit.FeBranch
import Arm64Emu.Predecode.Equiv

namespace arm64emu

/-- The access goes on at the same pc with nothing raised, or records an abort. -/
def Access.Straight {α : Type} (c : CPU) : Access α → Prop
  | .ok _ c' => c'.pc = c.pc ∧ c'.pend_exc = c.pend_exc
  | .fault c' => c'.pend_exc.valid = true

section straight

variable (pg : Pager) (c : CPU)

theorem Access.Plain.straight {α : Type} {c : CPU} {r : Access α} (h : r.Plain c) : r.Straight c := by
  cases r with
  | ok a d =>
    obtain ⟨m, rfl⟩ := h
    exact ⟨rfl, rfl⟩
  | fault d =>
    obtain ⟨m, esr, far, rfl⟩ := h
    exact rfl

theorem vreg_load_straight (vt : Nat) (va : u64) (bytes : Nat) : (vreg_load pg c vt va bytes).Straight c := by
  unfold vreg_load
  split
  · have h := (mem_read128_plain pg c va).straight
    cases hread : mem_read128 pg c va with
    | ok v d | fault d =>
      rw [hread] at h
      exact h
  have h := (mem_read_plain pg c va bytes).straight
  cases hread : mem_read pg c va bytes with
  | ok v d | fault d =>
    rw [hread] at h
    exact h

theorem vreg_store_straight (vt : Nat) (va : u64) (bytes : Nat) : (vreg_store pg c vt va bytes).Straight c := by
  unfold vreg_store
  split
  · exact (mem_write128_plain pg c va _).straight
  · exact (mem_write_plain pg c va bytes _).straight

end straight

/-- What operations that neither branch nor call do to control: they go on in
the block, or leave it with an abort recorded. -/
def IRResult.Straight (s : IRState) : IRResult → Prop
  | .next s' => s'.c.pc = s.c.pc ∧ s'.c.pend_exc = s.c.pend_exc
  | .leave c _ => c.pend_exc.valid = true

section native

variable (env : IREnv) (k : Nat) (s : IRState)

theorem vset_straight (r : Nat) (v : u64) :
    (vset s r v).c.pc = s.c.pc ∧ (vset s r v).c.pend_exc = s.c.pend_exc := by
  unfold vset
  split_ifs <;> exact ⟨rfl, rfl⟩

theorem put_flags_straight (o : IROp) (f : Option u32) :
    (put_flags s o f).c.pc = s.c.pc ∧ (put_flags s o f).c.pend_exc = s.c.pend_exc := by
  unfold put_flags
  split
  · split <;> exact ⟨rfl, rfl⟩
  · exact ⟨rfl, rfl⟩

theorem ir_alu_straight (o : IROp) : (IRResult.next (ir_alu s o)).Straight s := by
  have hset := vset_straight (put_flags s o (ir_flags o (vget s o.a) (vget s o.b) s.c.nzcv)) o.dst
    (at_width o.w (ir_value o (vget s o.a) (vget s o.b) (vget s o.cc) s.c.nzcv))
  have hput := put_flags_straight s o (ir_flags o (vget s o.a) (vget s o.b) s.c.nzcv)
  exact ⟨hset.1.trans hput.1, hset.2.trans hput.2⟩

theorem ir_access_straight {α : Type} {o : IROp} {r : CPU → Access α} {f : α → IRState → IRState}
    (hr : ∀ c, (r c).Straight c) (hf : ∀ a s, (f a s).c.pc = s.c.pc ∧ (f a s).c.pend_exc = s.c.pend_exc) :
    (ir_access s o r f).Straight s := by
  have h := hr { s.c with cur_insn_pc := o.imm2pc }
  unfold ir_access
  cases hcase : r { s.c with cur_insn_pc := o.imm2pc } with
  | ok v d =>
    rw [hcase] at h
    have hnext := hf v { s with c := d }
    exact ⟨hnext.1.trans h.1, hnext.2.trans h.2⟩
  | fault d =>
    rw [hcase] at h
    exact h

theorem ir_step_native {o : IROp} (hop : o.op.is_native = true) : (ir_step env k s o).Straight s := by
  unfold ir_step
  cases h : o.op <;> simp only [h] at hop ⊢
  case IRO_LD => exact ir_access_straight s (fun c => (mem_read_plain _ c _ _).straight) fun _ s => vset_straight s _ _
  case IRO_ST => exact ir_access_straight s (fun c => (mem_write_plain _ c _ _ _).straight) fun _ _ => ⟨rfl, rfl⟩
  case IRO_LDV => exact ir_access_straight s (fun c => vreg_load_straight _ c _ _ _) fun _ _ => ⟨rfl, rfl⟩
  case IRO_STV => exact ir_access_straight s (fun c => vreg_store_straight _ c _ _ _) fun _ _ => ⟨rfl, rfl⟩
  case IRO_CPULD => exact vset_straight s _ _
  case IRO_CPUST =>
    unfold cpu_st64
    split_ifs <;> exact ⟨rfl, rfl⟩
  case IRO_NOP | IRO_FENCE => exact ⟨rfl, rfl⟩
  case IRO_CCMPR | IRO_CCMNR | IRO_CCMPI | IRO_CCMNI => exact put_flags_straight s o _
  case IRO_JMP | IRO_BCOND | IRO_CBZ | IRO_CBNZ | IRO_TBZ | IRO_TBNZ | IRO_JMPIND | IRO_CALL1 | IRO_VOP
    | IRO_ATOMIC => cases hop
  all_goals exact ir_alu_straight s o

/-- Native operations run to the end of the list. -/
theorem ir_run_native {ops : List IROp} (hops : Native ops) : (ir_run env k ops s).Straight s := by
  rw [native_iff] at hops
  induction ops generalizing k s with
  | nil => exact ⟨rfl, rfl⟩
  | cons o ops ih =>
    have hstep := ir_step_native env k s (hops o (.head _)).1
    rw [ir_run]
    cases hres : ir_step env k s o with
    | leave c n =>
      rw [hres] at hstep
      exact hstep
    | next s' =>
      rw [hres] at hstep
      have hrest := ih (k + 1) s' fun o ho => hops o (.tail _ ho)
      dsimp only
      cases hrun : ir_run env (k + 1) ops s' with
      | leave c n =>
        rw [hrun] at hrest
        exact hrest
      | next s'' =>
        rw [hrun] at hrest
        exact ⟨hrest.1.trans hstep.1, hrest.2.trans hstep.2⟩

end native

/-- The operations of an instruction do what the interpreter does, with the instructions counted natively added. They
stay in the block with nothing raised, or leave it where the block ends, the instruction faults, or its helper finds
an event. -/
def FeOut.Correct (out : FeOut) (env : IREnv) (k n : Nat) (s : IRState) (want : CPU) : Prop :=
  match ir_run env k out.ops s with
  | .next s' => out.fin = false ∧ s'.c.retire out.ninsns = want.retire (n + 1) ∧ want.pc = s.c.pc ∧
      want.pend_exc = s.c.pend_exc
  | .leave c retired => c.retire retired = want.retire (n + 1) ∧
      (out.fin = true ∨ want.pend_exc.valid = true ∨ env.event k = true)

section correct

variable (env : IREnv) (k n : Nat) (s : IRState)

theorem correct_of_gives {ops : List IROp} {want : CPU} (hops : Native ops)
    (h : (ir_run env k ops s).Gives want n) : FeOut.Correct ⟨ops, n + 1, false⟩ env k n s want := by
  have hstraight := ir_run_native env k s hops
  unfold FeOut.Correct
  dsimp only
  cases hrun : ir_run env k ops s with
  | next s' =>
    rw [hrun] at h hstraight
    obtain rfl : s'.c = want := h
    exact ⟨rfl, rfl, hstraight⟩
  | leave c r =>
    rw [hrun] at h hstraight
    obtain ⟨rfl, rfl⟩ := h
    exact ⟨rfl, .inr (.inl hstraight)⟩

variable {insn : u32}

theorem fe_atomic_op {pc : u64} {o : IROp} (h : fe_atomic n insn pc = some o) :
    o.op = .IRO_ATOMIC ∧ o.imm = insn.setWidth 64 ∧ o.imm2pc = pc ∧ o.icnt = n ∧ o.flags_dead = false := by
  unfold fe_atomic at h
  dsimp only at h
  split at h
  · split at h
    · cases h
      exact ⟨rfl, rfl, rfl, rfl, rfl⟩
    · split at h <;> cases h <;> exact ⟨rfl, rfl, rfl, rfl, rfl⟩
    · split at h <;> cases h <;> exact ⟨rfl, rfl, rfl, rfl, rfl⟩
    · cases h
  · split_ifs at h <;> cases h <;> exact ⟨rfl, rfl, rfl, rfl, rfl⟩

theorem some_of_ite {α : Type} {b : Bool} {r : Option α} {a : α} (h : (if b = true then none else r) = some a) :
    r = some a := by
  cases b with
  | true => cases h
  | false => exact h

theorem at_insn_self {c : CPU} {pc : u64} (hpc : c.cur_insn_pc = pc) (hnext : c.pc = pc + 4#64) :
    at_insn c pc = c := by
  unfold at_insn
  rw [← hnext, ← hpc]

variable {pc : u64} (hpc : s.c.cur_insn_pc = pc) (hnext : s.c.pc = pc + 4#64)

include hpc hnext

theorem correct_atomic {o : IROp} (h : fe_atomic n insn pc = some o) :
    FeOut.Correct ⟨[o], n, false⟩ env k n s (exec_a64 env.toEnv s.c insn) := by
  obtain ⟨hop, himm, himm2, hicnt, -⟩ := fe_atomic_op n h
  have hthrough := atomic_through (fe_atomic_form env.toEnv h) s.c
  have hword : (insn.setWidth 64).setWidth 32 = insn := by simp
  have hrun : ir_run env k [o] s =
      if ((exec_a64 env.toEnv s.c insn).pend_exc.valid || env.event k) = true then
        .leave ((exec_a64 env.toEnv s.c insn).retire 1) n
      else .next { s with c := (exec_a64 env.toEnv s.c insn).retire 1 } := by
    rw [ir_run_cons, ir_step, hop]
    dsimp only
    rw [himm2, himm, hword, at_insn_self hpc hnext, hicnt, CPU.retire_pend_exc]
    split <;> rfl
  generalize exec_a64 env.toEnv s.c insn = want at hthrough hrun ⊢
  have hcount : (want.retire 1).retire n = want.retire (n + 1) := by
    rw [CPU.retire_retire, Nat.add_comm]
  unfold FeOut.Correct
  dsimp only
  rw [hrun]
  by_cases hout : (want.pend_exc.valid || env.event k) = true
  · rw [if_pos hout]
    exact ⟨hcount, .inr (by simpa using hout)⟩
  rw [if_neg hout]
  have hvalid : ¬ want.pend_exc.valid = true := fun hv => hout (by rw [hv]; rfl)
  exact ⟨rfl, hcount, hthrough.resolve_left hvalid⟩

omit hpc hnext in
theorem native_system (hops : put_call1 n pc insn ∉ (fe_system n insn pc).ops) :
    Native (fe_system n insn pc).ops := by
  unfold fe_system at hops ⊢
  dsimp only at hops ⊢
  split_ifs at hops ⊢ <;> first
    | exact rfl
    | exact absurd (List.mem_singleton.mpr rfl) hops

theorem correct_generic (cfg : FeCfg) (hc : El0 s.c)
    (hfree : ∀ o ∈ (fe_generic cfg n insn pc).ops, o.op ≠ .IRO_CALL1 ∧ o.op ≠ .IRO_VOP) :
    (fe_generic cfg n insn pc).Correct env k n s (exec_a64 env.toEnv s.c insn) := by
  have hcall (ops : List IROp) : put_call1 n pc insn ∈ put_call1 n pc insn :: ops := .head _
  unfold fe_generic at hfree ⊢
  dsimp only at hfree ⊢
  -- each group of forms may be switched off; what is switched off falls through
  cases hat : (if fe_gated cfg (PD_NOPS_ + 0) = true then none else fe_atomic n insn pc) with
  | some o =>
    rw [hat] at hfree
    exact correct_atomic env k n s hpc hnext (some_of_ite hat)
  | none =>
  rw [hat] at hfree
  dsimp only at hfree ⊢
  cases hv : (if fe_gated cfg (PD_NOPS_ + 1) = true then none else cfg.fe_fpsimd insn pc) with
  | some v =>
    rw [hv] at hfree
    exact absurd rfl (hfree _ (.head _)).2
  | none =>
  rw [hv] at hfree
  dsimp only at hfree ⊢
  cases hld : (if fe_gated cfg (PD_NOPS_ + 2) = true then none else fe_ldst_extra n insn pc) with
  | some ops =>
    have hops := some_of_ite hld
    exact correct_of_gives env k n s (puts_ldst_extra n pc hops).native (gives_ldst_extra env k n s insn hpc hc.el hops)
  | none =>
  rw [hld] at hfree
  dsimp only at hfree ⊢
  cases hbf : (if fe_gated cfg (PD_NOPS_ + 3) = true then none else fe_bitfield n insn) with
  | some ops =>
    have hops := some_of_ite hbf
    exact correct_of_gives env k n s (puts_bitfield n hops).native (gives_bitfield env k n s insn hops)
  | none =>
  rw [hbf] at hfree
  dsimp only at hfree ⊢
  cases hl1 : (if fe_gated cfg (PD_NOPS_ + 4) = true then none else fe_ld1 n insn pc) with
  | some ops =>
    have hops := some_of_ite hl1
    exact correct_of_gives env k n s (puts_ld1 n pc hops).native (gives_ld1 env k n s insn hpc hc.el hops)
  | none =>
  rw [hl1] at hfree
  dsimp only at hfree ⊢
  by_cases hrbit : fe_gated cfg (PD_NOPS_ + 5) = false ∧ insn &&& 0x7FFFFC00#32 = 0x5AC00000#32
  · rw [if_pos hrbit]
    exact correct_of_gives env k n s (Puts.native (n := n) (k := 1) (puts_ite rfl rfl)) (gives_rbit env k n s hrbit.2)
  rw [if_neg hrbit] at hfree ⊢
  by_cases hadc : fe_gated cfg (PD_NOPS_ + 6) = false ∧ insn &&& 0x1FE0FC00#32 = 0x1A000000#32
  · have hop : (adc_opc (BIT insn 30) (BIT insn 29)).is_native = true := by
      cases BIT insn 30 <;> cases BIT insn 29 <;> rfl
    rw [if_pos hadc]
    exact correct_of_gives env k n s (puts_put_alu n _ hop _ _ _).native (gives_adc env k n s hadc.2)
  rw [if_neg hadc] at hfree ⊢
  by_cases hsys : BITS insn 31 24 = 0xD5
  · rw [if_pos hsys] at hfree ⊢
    have hnone : put_call1 n pc insn ∉ (fe_system n insn pc).ops := fun h => (hfree _ h).1 rfl
    obtain ⟨hn, hfin, hgives⟩ := gives_system env k n s hc hpc hnone
    have h := correct_of_gives env k n s (native_system n hnone) hgives
    rw [← hn, ← hfin] at h
    exact h
  rw [if_neg hsys] at hfree
  by_cases hbr : BITS insn 28 25 = 0xa ∨ BITS insn 28 25 = 0xb
  · rw [if_pos hbr] at hfree
    exact absurd rfl (hfree _ (hcall _)).1
  · rw [if_neg hbr] at hfree
    exact absurd rfl (hfree _ (hcall _)).1

omit hpc hnext in
theorem fe_insn_branch (cfg : FeCfg) {e : PDEnt} (hop : e.op.is_branch = true) : (fe_insn cfg n e pc).fin = true := by
  obtain ⟨word, op, rd, rn, rm, imm⟩ := e
  cases op <;> cases hop <;> rfl

omit hpc hnext in
theorem fe_insn_other (cfg : FeCfg) {e : PDEnt} (hop : ¬ e.op.is_branch = true) :
    fe_insn cfg n e pc =
      match fe_ops n e pc with
      | some ops => ⟨ops, n + 1, false⟩
      | none => fe_generic cfg n e.insn pc := by
  obtain ⟨word, op, rd, rn, rm, imm⟩ := e
  cases op <;> first | rfl | exact absurd rfl hop

theorem correct_entry (cfg : FeCfg) {e : PDEnt} (hwf : e.WF) (hinsn : e.insn = insn)
    (hexec : pd_exec env.toEnv s.c e insn = exec_a64 env.toEnv s.c insn) (hc : El0 s.c)
    (hfree : ∀ o ∈ (fe_insn cfg n e pc).ops, o.op ≠ .IRO_CALL1 ∧ o.op ≠ .IRO_VOP) :
    (fe_insn cfg n e pc).Correct env k n s (exec_a64 env.toEnv s.c insn) := by
  by_cases hbr : e.op.is_branch = true
  · obtain ⟨-, hrun⟩ := run_branch env k n s hpc hnext cfg insn hwf hbr
    unfold FeOut.Correct
    rw [hrun, hexec]
    exact ⟨rfl, .inl (fe_insn_branch n cfg hbr)⟩
  have hother : fe_insn cfg n e pc = _ := fe_insn_other n cfg hbr
  cases hops : fe_ops n e pc with
  | some ops =>
    rw [hother, hops, ← hexec]
    exact correct_of_gives env k n s (puts_ops n pc e hops).native (gives_ops e insn hwf hc.el hpc hops)
  | none =>
    rw [hops] at hother
    rw [hother] at hfree ⊢
    subst hinsn
    exact correct_generic env k n s hpc hnext cfg hc hfree

end correct

/-- On every word the front end translates without a helper call and not left to the vector back end, running the
operations from an EL0 state is executing the word. -/
theorem fe_insn_correct (env : IREnv) (cfg : FeCfg) (k n : Nat) (insn : u32) (pc : u64) (c : CPU)
    (tmp : Nat → u64) (hc : El0 c)
    (hfree : ∀ o ∈ (fe_insn cfg n (fe_entry cfg insn) pc).ops, o.op ≠ .IRO_CALL1 ∧ o.op ≠ .IRO_VOP) :
    (fe_insn cfg n (fe_entry cfg insn) pc).Correct env k n ⟨at_insn c pc, tmp⟩
      (exec_a64 env.toEnv (at_insn c pc) insn) := by
  have hc' : El0 (at_insn c pc) := ⟨hc.el, hc.dze⟩
  unfold fe_entry at hfree ⊢
  dsimp only at hfree ⊢
  split at hfree
  next hgated =>
    have hgen : fe_insn cfg n { pd_fill insn with op := .PD_GENERIC } pc = fe_generic cfg n insn pc :=
      congrArg (fe_generic cfg n · pc) (pd_fill_insn insn)
    rw [hgen] at hfree
    rw [if_pos hgated, hgen]
    exact correct_generic env k n ⟨at_insn c pc, tmp⟩ rfl rfl cfg hc' hfree
  rename_i hgated
  rw [if_neg hgated]
  exact correct_entry env k n ⟨at_insn c pc, tmp⟩ rfl rfl cfg (pd_fill_wf insn) (pd_fill_insn insn)
    (pd_exec_fill env.toEnv (at_insn c pc) insn) hc' hfree

/-- The core on its own, with no vector operation and no event. -/
def core_ir_env : IREnv where
  toEnv := core_env
  vop _ c := c
  event _ := false
  fpmode_seen := false

/-- LDR X0, [X0], #8 where nothing is mapped: its own base is its destination,
and the load faults. -/
theorem fe_insn_correct_ldr_post :
    El0 (cpu_reset core_env Mem.empty 0x1000#64 0) ∧
      (fe_insn ⟨none, fun _ _ => none⟩ 0 (fe_entry ⟨none, fun _ _ => none⟩ 0xf8408400#32) 0x1000#64).Correct
        core_ir_env 0 0 ⟨at_insn (cpu_reset core_env Mem.empty 0x1000#64 0) 0x1000#64, fun _ => 0#64⟩
        (exec_a64 core_env (at_insn (cpu_reset core_env Mem.empty 0x1000#64 0) 0x1000#64) 0xf8408400#32) := by
  have hc : El0 (cpu_reset core_env Mem.empty 0x1000#64 0) := ⟨rfl, by decide⟩
  exact ⟨hc, fe_insn_correct core_ir_env _ 0 0 _ _ _ _ hc (by decide)⟩

end arm64emu
