import Arm64Emu.Jit.FeNative
import Arm64Emu.Jit.FeGeneric

namespace arm64emu

def PDOp.is_branch (op : PDOp) : Bool :=
  op matches .PD_B | .PD_BL | .PD_BCOND | .PD_CBZ64 | .PD_CBZ32 | .PD_CBNZ64 | .PD_CBNZ32 | .PD_TBZ | .PD_TBNZ
    | .PD_BR | .PD_BLR

theorem set_x_cur_insn_pc (c : CPU) (n : Nat) (v : u64) : (set_x c n v).cur_insn_pc = c.cur_insn_pc := by
  unfold set_x
  split <;> rfl

section branch

variable (env : IREnv) (k n : Nat) (s : IRState)

theorem run_jmp (dest : u64) (os : List IROp) :
    ir_run env k (ir_put n .IRO_JMP false 0 0 0 0 dest 0#32 :: os) s = .leave { s.c with pc := dest } n := rfl

theorem run_put_branch {op : IROpc} {w : Bool} {a cc : Nat} {target next : u64} (taken : Bool)
    (hstep : ir_step env k s (ir_put n op w 0 a 0 cc target 0#32) =
      ir_branch s (ir_put n op w 0 a 0 cc target 0#32) taken) :
    ir_run env k (put_branch n op w a cc target next) s =
      .leave { s.c with pc := if taken then target else next } n := by
  rw [put_branch, ir_run_cons, hstep, ir_branch]
  cases taken <;> rfl

variable {pc : u64} (hpc : s.c.cur_insn_pc = pc) (hnext : s.c.pc = pc + 4#64)

include hpc hnext

theorem branch_if_eq (taken : Bool) (off : u64) :
    { s.c with pc := if taken then pc + off else pc + 4#64 } = branch_if s.c taken off := by
  cases taken with
  | true => simp only [branch_if, branch_to, hpc, if_true]
  | false => simp only [branch_if, ← hnext, Bool.false_eq_true, if_false]

theorem run_zbranch {op : IROpc} {w nz : Bool} {rt cc : Nat} (off : u64) (hrt : rt < 32) (test : u64 → Bool)
    (hstep : ∀ a, ir_step env k s (ir_put n op w 0 a 0 cc (pc + off) 0#32) =
      ir_branch s (ir_put n op w 0 a 0 cc (pc + off) 0#32) (test (vget s a)))
    (hzero : test 0#64 = !nz) :
    ir_run env k (put_zbranch n op w nz rt cc (pc + off) (pc + 4#64)) s =
      .leave (branch_if s.c (test (reg_x s.c rt)) off) n := by
  unfold put_zbranch
  by_cases hz : rx rt = VREG_ZERO
  · have hval : reg_x s.c rt = 0#64 := by
      rw [← vget_rx s hrt, hz]
      rfl
    rw [if_pos hz, run_jmp, hval, hzero, ← branch_if_eq s hpc hnext]
    cases nz <;> rfl
  · rw [if_neg hz, run_put_branch env k n s _ (hstep (rx rt)), vget_rx s hrt, branch_if_eq s hpc hnext]

omit hpc hnext in
/-- AL, and NV, which is the same. -/
theorem cond_of_always (nzcv : u32) {cond : Nat} (hlt : cond < 16) (h : cond / 2 % 8 = 7) :
    cond_of nzcv cond = true := by
  obtain rfl | rfl : cond = 14 ∨ cond = 15 := by omega
  · rfl
  · rfl

theorem run_bcond {cond : Nat} (off : u64) (hlt : cond < 16) :
    ir_run env k (if cond / 2 % 8 = 7 then [ir_put n .IRO_JMP false 0 0 0 0 (pc + off) 0#32]
      else put_branch n .IRO_BCOND false 0 cond (pc + off) (pc + 4#64)) s =
      .leave (branch_if s.c (cond_holds s.c cond) off) n := by
  by_cases h : cond / 2 % 8 = 7
  · rw [if_pos h, run_jmp, cond_holds, cond_of_always _ hlt h, ← branch_if_eq s hpc hnext]
    rfl
  · rw [if_neg h, run_put_branch env k n s (cond_of s.c.nzcv cond) rfl, branch_if_eq s hpc hnext]
    rfl

omit hnext in
theorem run_link (os : List IROp) :
    ir_run env k (ir_put n .IRO_MOVI true 30 0 0 0 (pc + 4#64) 0#32 :: os) s =
      ir_run env (k + 1) os { s with c := set_x s.c 30 (s.c.cur_insn_pc + 4#64) } := by
  rw [ir_run_alu env k s os rfl, ir_alu_put, hpc]
  exact congrArg (ir_run env (k + 1) os) (vset_rx s (show 30 < 32 by decide) _)

omit hpc hnext in
theorem run_br {rn : Nat} (hrn : rn < 32) :
    ir_run env k (if rx rn = VREG_ZERO then
        [ir_put n .IRO_MOVI true VREG_TMP0 0 0 0 0#64 0#32] ++ [ir_put n .IRO_JMPIND false 0 VREG_TMP0 0 0 0#64 0#32]
      else [ir_put n .IRO_JMPIND false 0 (rx rn) 0 0 0#64 0#32]) s =
      .leave { s.c with pc := reg_x s.c rn } n := by
  rw [← vget_rx s hrn]
  by_cases hz : rx rn = VREG_ZERO
  · rw [if_pos hz, hz]
    rfl
  · rw [if_neg hz]
    rfl

omit hnext in
/-- The target of BLR is read before the link register is written. -/
theorem run_blr {rn : Nat} (hrn : rn < 32) :
    ir_run env k [if rx rn = VREG_ZERO then ir_put n .IRO_MOVI true VREG_TMP0 0 0 0 0#64 0#32
        else ir_put n .IRO_MOV true VREG_TMP0 (rx rn) 0 0 0#64 0#32,
      ir_put n .IRO_MOVI true 30 0 0 0 (pc + 4#64) 0#32, ir_put n .IRO_JMPIND false 0 VREG_TMP0 0 0 0#64 0#32] s =
      .leave { set_x s.c 30 (s.c.cur_insn_pc + 4#64) with pc := reg_x s.c rn } n := by
  have htarget : ir_run env k [if rx rn = VREG_ZERO then ir_put n .IRO_MOVI true VREG_TMP0 0 0 0 0#64 0#32
      else ir_put n .IRO_MOV true VREG_TMP0 (rx rn) 0 0 0#64 0#32] s =
      .next (vset s VREG_TMP0 (reg_x s.c rn)) := by
    rw [← vget_rx s hrn]
    by_cases hz : rx rn = VREG_ZERO
    · rw [if_pos hz, hz]
      rfl
    · rw [if_neg hz]
      rfl
  rw [← List.singleton_append, ir_run_append, htarget]
  refine (run_link env _ n (vset s VREG_TMP0 (reg_x s.c rn)) hpc _).trans ?_
  rfl

theorem run_branch (cfg : FeCfg) {e : PDEnt} (insn : u32) (hwf : e.WF) (hop : e.op.is_branch = true) :
    (fe_insn cfg n e pc).ninsns = n + 1 ∧
      ir_run env k (fe_insn cfg n e pc).ops s = .leave (pd_exec env.toEnv s.c e insn) (n + 1) := by
  obtain ⟨word, op, rd, rn, rm, imm⟩ := e
  cases op <;> cases hop <;> refine ⟨rfl, ?_⟩
  case PD_B => exact congrArg (IRResult.leave · (n + 1)) (branch_if_eq s hpc hnext true imm)
  case PD_BL =>
    refine (run_link env k (n + 1) s hpc _).trans ?_
    simp only [run_jmp, pd_exec, branch_to, ← hpc, set_x_cur_insn_pc]
  case PD_BCOND => exact run_bcond env k (n + 1) s hpc hnext imm hwf.operands
  case PD_CBZ64 =>
    exact run_zbranch env k (n + 1) s hpc hnext imm hwf.rd ((· == 0#64)) (fun _ => rfl) rfl
  case PD_CBZ32 =>
    exact run_zbranch env k (n + 1) s hpc hnext imm hwf.rd ((trunc32 · == 0#64)) (fun _ => rfl) rfl
  case PD_CBNZ64 =>
    exact run_zbranch env k (n + 1) s hpc hnext imm hwf.rd ((· != 0#64)) (fun _ => rfl) rfl
  case PD_CBNZ32 =>
    exact run_zbranch env k (n + 1) s hpc hnext imm hwf.rd ((trunc32 · != 0#64)) (fun _ => rfl) rfl
  case PD_TBZ =>
    exact run_zbranch env k (n + 1) s hpc hnext imm hwf.rd ((!·.getLsbD rm)) (fun _ => rfl) (by simp)
  case PD_TBNZ =>
    exact run_zbranch env k (n + 1) s hpc hnext imm hwf.rd ((·.getLsbD rm)) (fun _ => rfl) (by simp)
  case PD_BR => exact run_br env k (n + 1) s hwf.rn
  case PD_BLR => exact run_blr env k (n + 1) s hpc hwf.rn

end branch

end arm64emu
