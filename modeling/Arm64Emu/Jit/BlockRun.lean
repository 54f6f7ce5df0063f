import Arm64Emu.Jit.DeadFlags

namespace arm64emu

/-- The CPU with another pc, and `m` more instructions counted. -/
def CPU.shifted (c : CPU) (pc : u64) (m : Nat) : CPU := { c.retire m with pc := pc }

def CPU.moved (c : CPU) (cur pc : u64) (m : Nat) : CPU := { c.shifted pc m with cur_insn_pc := cur }

def IRState.moved (s : IRState) (cur pc : u64) (m : Nat) : IRState := ⟨s.c.moved cur pc m, s.tmp⟩

/-- A fault sets the pc itself. -/
def Access.shifted {α : Type} (pc : u64) (m : Nat) : Access α → Access α
  | .ok a c => .ok a (c.shifted pc m)
  | .fault c => .fault (c.shifted c.pc m)

/-- An access that neither reads the pc nor counts. -/
def Shifts {α : Type} (pc : u64) (m : Nat) (r : CPU → Access α) : Prop := ∀ c, r (c.shifted pc m) = (r c).shifted pc m

section shifts

variable {α β : Type} {pc : u64} {m : Nat} (pg : Pager) (va : u64) (n : Nat)

theorem Shifts.bind {r : CPU → Access α} {f : α → CPU → Access β} (hr : Shifts pc m r) (hf : ∀ a, Shifts pc m (f a)) :
    Shifts pc m fun c => (r c).bind f := by
  intro c
  dsimp only
  rw [hr c]
  cases r c with
  | ok a d => exact hf a d
  | fault d => rfl

theorem shifts_read_page : Shifts pc m (mem_read_page pg · va n) := by
  intro c
  simp only [mem_read_page, show (c.shifted pc m).mem = c.mem from rfl]
  rcases translate pg c.mem va .r with ⟨_, _ | _⟩ <;> rfl

theorem shifts_write_page (v : u64) : Shifts pc m (mem_write_page pg · va n v) := by
  intro c
  simp only [mem_write_page, show (c.shifted pc m).mem = c.mem from rfl]
  rcases translate pg c.mem va .w with ⟨_, _ | _⟩ <;> rfl

theorem shifts_read : Shifts pc m (mem_read pg · va n) := by
  unfold mem_read
  split
  · exact (shifts_read_page pg _ _).bind fun _ => (shifts_read_page pg _ _).bind fun _ _ => rfl
  · exact shifts_read_page pg va n

theorem shifts_write (v : u64) : Shifts pc m (mem_write pg · va n v) := by
  unfold mem_write
  split
  · exact (shifts_write_page pg _ _ _).bind fun _ => shifts_write_page pg _ _ _
  · exact shifts_write_page pg va n v

theorem shifts_vreg_load (vt : Nat) : Shifts pc m (vreg_load pg · vt va n) := by
  unfold vreg_load
  split
  · simp only [mem_read128_eq]
    exact ((shifts_read pg _ _).bind fun _ => (shifts_read pg _ _).bind fun _ _ => rfl).bind fun _ _ => rfl
  · exact (shifts_read pg va n).bind fun _ _ => rfl

theorem shifts_vreg_store (vt : Nat) : Shifts pc m (vreg_store pg · vt va n) := by
  intro c
  simp only [vreg_store, mem_write128_eq, show (c.shifted pc m).v = c.v from rfl]
  split
  · exact ((shifts_write pg _ _ _).bind fun _ => shifts_write pg _ _ _) c
  · exact shifts_write pg va n _ c

end shifts

/-- The same result from a CPU that stands elsewhere and has counted `m` more. -/
def IRResult.Like (m : Nat) : IRResult → IRResult → Prop
  | .next s, .next t => ∃ cur pc, t = s.moved cur pc m
  | .leave c r, .leave d q => (∃ cur, d = c.moved cur c.pc m) ∧ q = r
  | _, _ => False

/-- The operations that run without the interpreter and the vector back end. -/
def IROp.Plain (o : IROp) : Prop := o.op ≠ .IRO_CALL1 ∧ o.op ≠ .IRO_VOP ∧ o.op ≠ .IRO_ATOMIC

section like

variable (env : IREnv) (k : Nat) (s : IRState) (cur pc : u64) (m : Nat) {o : IROp}

theorem vset_moved (r : Nat) (v : u64) : vset (s.moved cur pc m) r v = (vset s r v).moved cur pc m := by
  unfold vset
  split_ifs <;> rfl

theorem put_flags_moved (f : Option u32) : put_flags (s.moved cur pc m) o f = (put_flags s o f).moved cur pc m := by
  unfold put_flags
  split
  · split <;> rfl
  · rfl

theorem ir_access_like {α : Type} {r : CPU → Access α} {f : α → IRState → IRState} (hr : Shifts pc m r)
    (hf : ∀ a s cur, f a (s.moved cur pc m) = (f a s).moved cur pc m) :
    (ir_access s o r f).Like m (ir_access (s.moved cur pc m) o r f) := by
  unfold ir_access
  rw [show r { (s.moved cur pc m).c with cur_insn_pc := o.imm2pc } = _ from hr { s.c with cur_insn_pc := o.imm2pc }]
  cases r { s.c with cur_insn_pc := o.imm2pc } with
  | ok a c => exact ⟨c.cur_insn_pc, pc, hf a ⟨c, s.tmp⟩ _⟩
  | fault c => exact ⟨⟨c.cur_insn_pc, rfl⟩, rfl⟩

theorem ir_branch_like (taken : Bool) : (ir_branch s o taken).Like m (ir_branch (s.moved cur pc m) o taken) := by
  cases taken with
  | false => exact ⟨cur, pc, rfl⟩
  | true => exact ⟨⟨cur, rfl⟩, rfl⟩

theorem ir_step_like (ho : o.Plain) : (ir_step env k s o).Like m (ir_step env k (s.moved cur pc m) o) := by
  obtain ⟨hcall, hvop, hatomic⟩ := ho
  unfold ir_step
  cases h : o.op <;> simp only [h] at hcall hvop hatomic ⊢
  case IRO_LD => exact ir_access_like s cur pc m (shifts_read _ _ _) fun _ s cur => vset_moved s cur pc m _ _
  case IRO_ST => exact ir_access_like s cur pc m (shifts_write _ _ _ _) fun _ _ _ => rfl
  case IRO_LDV => exact ir_access_like s cur pc m (shifts_vreg_load _ _ _ _) fun _ _ _ => rfl
  case IRO_STV => exact ir_access_like s cur pc m (shifts_vreg_store _ _ _ _) fun _ _ _ => rfl
  case IRO_JMP | IRO_BCOND | IRO_CBZ | IRO_CBNZ | IRO_TBZ | IRO_TBNZ => exact ir_branch_like s cur pc m _
  case IRO_JMPIND => exact ⟨⟨cur, rfl⟩, rfl⟩
  case IRO_CALL1 | IRO_VOP | IRO_ATOMIC => contradiction
  case IRO_CPULD => exact ⟨cur, pc, vset_moved s cur pc m _ _⟩
  case IRO_CPUST =>
    refine ⟨cur, pc, ?_⟩
    unfold cpu_st64
    split_ifs <;> rfl
  case IRO_NOP | IRO_FENCE => exact ⟨cur, pc, rfl⟩
  case IRO_CCMPR | IRO_CCMNR | IRO_CCMPI | IRO_CCMNI => exact ⟨cur, pc, put_flags_moved s cur pc m _⟩
  all_goals
    refine ⟨cur, pc, (congrArg (vset · _ _) ?_).trans (vset_moved _ cur pc m _ _)⟩
    exact put_flags_moved s cur pc m _

theorem ir_run_like {ops : List IROp} (hops : ∀ o ∈ ops, o.Plain) :
    (ir_run env k ops s).Like m (ir_run env k ops (s.moved cur pc m)) := by
  induction ops generalizing k s cur pc with
  | nil => exact ⟨cur, pc, rfl⟩
  | cons o ops ih =>
    have hstep := ir_step_like env k s cur pc m (hops o (.head _))
    rw [ir_run, ir_run]
    cases h : ir_step env k s o <;> cases h' : ir_step env k (s.moved cur pc m) o <;> rw [h, h'] at hstep
    case next.next s' t =>
      obtain ⟨cur', pc', rfl⟩ := hstep
      exact ih (k + 1) s' cur' pc' fun o ho => hops o (.tail _ ho)
    case leave.leave => exact hstep
    all_goals exact hstep.elim

end like

/-- Instructions fetched and executed one after another. -/
def interp_run (env : Env) (fetch : u64 → Option u32) : Nat → CPU → CPU
  | 0, c => c
  | n + 1, c =>
    let d := interp_run env fetch n c
    match fetch d.pc with
    | none => d
    | some insn => (exec_a64 env (at_insn d d.pc) insn).retire 1

section block

variable {env : IREnv} {cfg : FeCfg} {fetch : u64 → Option u32} {c d : CPU} {s : IRState} {n : Nat} {p cur : u64}
  {insn : u32} {ir : IRBlock} {out : FeOut} {tmp : Nat → u64}

/-- The counts of an instruction, with those before it taken off. -/
theorem retire_cancel {r : Nat} (h : (d.moved cur p n).retire r = c.retire (n + 1)) : c.retire 1 = d.moved cur p r := by
  have hless := congrArg (fun c : CPU => { c with icount := c.icount - BitVec.ofNat 64 n }) h
  have hsub (x y z : u64) : x + (y + z) - y = x + z := by bv_omega
  simp only [CPU.retire, CPU.moved, CPU.shifted, BitVec.ofNat_add, BitVec.add_assoc, hsub] at hless ⊢
  exact hless.symm

theorem correct_word {k : Nat} (hc : El0 c) (hout : fe_insn cfg n (fe_entry cfg insn) p = out)
    (hplain : ∀ o ∈ out.ops, o.Plain) :
    out.Correct env k n ⟨at_insn c p, tmp⟩ (exec_a64 env.toEnv (at_insn c p) insn) := by
  subst hout
  have hc' : El0 (at_insn c p) := ⟨hc.el, hc.dze⟩
  have hfree := fun o ho => And.intro (hplain o ho).1 (hplain o ho).2.1
  unfold fe_entry at hfree ⊢
  dsimp only at hfree ⊢
  split at hfree
  next hgated =>
    have hgen : fe_insn cfg n { pd_fill insn with op := .PD_GENERIC } p = fe_generic cfg n insn p :=
      congrArg (fe_generic cfg n · p) (pd_fill_insn insn)
    rw [hgen] at hfree
    rw [if_pos hgated, hgen]
    exact correct_generic env k n ⟨at_insn c p, tmp⟩ rfl rfl cfg hc' hfree
  next hgated =>
    rw [if_neg hgated]
    exact correct_entry env k n ⟨at_insn c p, tmp⟩ rfl rfl cfg (pd_fill_wf insn) (pd_fill_insn insn)
      (pd_exec_fill _ _ insn) hc' hfree

variable (env) in
/-- One instruction in the middle of a block: the CPU there has the count and the
pc of the block's start, and the interpreter's have moved on. -/
theorem word_run (k : Nat) (hel : El0 d) (hd : d = s.c.moved cur p n)
    (hout : fe_insn cfg n (fe_entry cfg insn) p = out) (hops : ∀ o ∈ out.ops, o.Plain) :
    match ir_run env k out.ops s with
    | .next s' => out.fin = false ∧
        ∃ cur, (exec_a64 env.toEnv (at_insn d p) insn).retire 1 = s'.c.moved cur (p + 4#64) out.ninsns
    | .leave e r => ∃ cur, (exec_a64 env.toEnv (at_insn d p) insn).retire 1 = e.moved cur e.pc r := by
  have hcorrect : out.Correct env k n ⟨at_insn d p, s.tmp⟩ _ := correct_word hel hout hops
  have hsame := ir_run_like env k s p (p + 4#64) n hops
  have hstate : s.moved p (p + 4#64) n = ⟨at_insn d p, s.tmp⟩ := by
    rw [hd]
    rfl
  unfold FeOut.Correct at hcorrect
  rw [hstate] at hsame
  cases h : ir_run env k out.ops s <;> cases h' : ir_run env k out.ops ⟨at_insn d p, s.tmp⟩ <;>
    rw [h, h'] at hsame <;> rw [h'] at hcorrect
  case next.next s' t =>
    obtain ⟨cur', pc', rfl⟩ := hsame
    obtain ⟨hfin, hcount, hpc, -⟩ := hcorrect
    have hwant := retire_cancel hcount
    obtain rfl : p + 4#64 = pc' := hpc.symm.trans (congrArg CPU.pc hwant)
    exact ⟨hfin, cur', hwant⟩
  case leave.leave e r e' r' =>
    obtain ⟨⟨cur', rfl⟩, rfl⟩ := hsame
    exact ⟨cur', retire_cancel hcorrect.1⟩
  all_goals exact hsame.elim

/-- The operations of a block so far end where the interpreter is after some of its
instructions, and after all of them at `p` where control stays in the block. -/
def Follows (env : IREnv) (fetch : u64 → Option u32) (c : CPU) (tmp : Nat → u64) (ir : IRBlock) (p : u64) : Prop :=
  match ir_run env 0 ir.ops ⟨c, tmp⟩ with
  | .next s => ∃ cur, interp_run env.toEnv fetch ir.guest_n c = s.c.moved cur p ir.ninsns
  | .leave d r => ∃ j, 0 < j ∧ j ≤ ir.guest_n ∧ ∃ cur, interp_run env.toEnv fetch j c = d.moved cur d.pc r

/-- Control leaves the block, where the interpreter is after some of its instructions. -/
def Leaves (env : IREnv) (fetch : u64 → Option u32) (c : CPU) (tmp : Nat → u64) (ir : IRBlock) : Prop :=
  ∃ d r, ir_run env 0 ir.ops ⟨c, tmp⟩ = .leave d r ∧
    ∃ j, 0 < j ∧ j ≤ ir.guest_n ∧ ∃ cur, interp_run env.toEnv fetch j c = d.moved cur d.pc r

theorem Follows.jump (h : Follows env fetch c tmp ir p) (hn : 0 < ir.guest_n) :
    Leaves env fetch c tmp { ir with ops := ir.ops ++ [ir_put ir.ninsns .IRO_JMP false 0 0 0 0 p 0#32] } := by
  unfold Follows at h
  unfold Leaves
  rw [ir_run_append]
  cases hr : ir_run env 0 ir.ops ⟨c, tmp⟩ <;> rw [hr] at h
  case next s => exact ⟨_, _, rfl, _, hn, le_rfl, h⟩
  case leave d r => exact ⟨d, r, rfl, h⟩

theorem Follows.word (h : Follows env fetch c tmp ir p) (hfetch : fetch p = some insn)
    (hel : El0 (interp_run env.toEnv fetch ir.guest_n c)) (hout : fe_insn cfg ir.ninsns (fe_entry cfg insn) p = out)
    (hops : ∀ o ∈ out.ops, o.Plain) :
    Follows env fetch c tmp ⟨ir.ops ++ out.ops, out.ninsns, ir.guest_n + 1⟩ (p + 4#64) ∧
      (out.fin = true → Leaves env fetch c tmp ⟨ir.ops ++ out.ops, out.ninsns, ir.guest_n + 1⟩) := by
  unfold Follows at h
  unfold Follows Leaves
  rw [ir_run_append]
  cases hr : ir_run env 0 ir.ops ⟨c, tmp⟩ <;> rw [hr] at h
  case leave d r =>
    obtain ⟨j, hpos, hj, hsame⟩ := h
    have hj' : j ≤ ir.guest_n + 1 := hj.trans (Nat.le_succ _)
    exact ⟨⟨j, hpos, hj', hsame⟩, fun _ => ⟨d, r, rfl, j, hpos, hj', hsame⟩⟩
  case next s =>
    obtain ⟨cur, hsame⟩ := h
    have hnext : interp_run env.toEnv fetch (ir.guest_n + 1) c =
        (exec_a64 env.toEnv (at_insn (interp_run env.toEnv fetch ir.guest_n c) p) insn).retire 1 := by
      rw [interp_run, hsame]
      simp only [CPU.moved, CPU.shifted, hfetch]
    have hword := word_run env (0 + ir.ops.length) hel hsame hout hops
    rw [← hnext] at hword
    dsimp only [IRResult.bind]
    cases hr' : ir_run env (0 + ir.ops.length) out.ops s <;> rw [hr'] at hword
    case next t => exact ⟨hword.2, fun hfin => absurd (hword.1.symm.trans hfin) Bool.false_ne_true⟩
    case leave d r => exact ⟨⟨_, Nat.succ_pos _, le_rfl, hword⟩, fun _ => ⟨d, r, rfl, _, Nat.succ_pos _, le_rfl, hword⟩⟩

theorem fe_block_loop_extends (fuel : Nat) : ir.ops ⊆ (fe_block_loop cfg fetch fuel p ir).ops := by
  induction fuel generalizing p ir with
  | zero => exact List.Subset.refl _
  | succ fuel ih =>
    intro o ho
    rw [fe_block_loop]
    dsimp only
    split
    · split <;> simp [ho]
    · split_ifs
      · simp [ho]
      · simp [ho]
      · simp [ho]
      · exact ih (List.mem_append_left _ ho)

/-- The loop from anywhere in it. -/
theorem fe_block_loop_leaves (fuel : Nat) (hplain : ∀ o ∈ (fe_block_loop cfg fetch fuel p ir).ops, o.Plain)
    (hel : ∀ j < ir.guest_n + fuel, El0 (interp_run env.toEnv fetch j c)) (h : Follows env fetch c tmp ir p)
    (hfuel : 0 < fuel) (hfirst : ir.guest_n = 0 → fetch p ≠ none) :
    Leaves env fetch c tmp (fe_block_loop cfg fetch fuel p ir) := by
  induction fuel generalizing p ir with
  | zero => exact absurd hfuel (lt_irrefl 0)
  | succ fuel ih =>
    rw [fe_block_loop] at hplain ⊢
    cases hfetch : fetch p with
    | none =>
      have hn : ir.guest_n ≠ 0 := fun h => hfirst h hfetch
      simp only [hn, if_false]
      exact h.jump (Nat.pos_of_ne_zero hn)
    | some insn =>
    rw [hfetch] at hplain
    dsimp only at hplain ⊢
    split at hplain
    next => exact absurd rfl (hplain _ (List.mem_append_right _ (.head _))).1
    next hic =>
    rw [if_neg hic]
    have hword := h.word hfetch (hel _ (by omega)) (rfl : fe_insn cfg _ _ p = _)
    split at hplain
    next hfin =>
      rw [if_pos hfin]
      exact (hword fun o ho => hplain o (List.mem_append_right _ ho)).2 hfin
    next hfin =>
    rw [if_neg hfin]
    split at hplain
    next hlimit =>
      rw [if_pos hlimit]
      exact (hword fun o ho => hplain o (List.mem_append_left _ (List.mem_append_right _ ho))).1.jump (Nat.succ_pos _)
    next hlimit =>
      rw [if_neg hlimit]
      have hnext := hword fun o ho => hplain o (fe_block_loop_extends fuel (List.mem_append_right _ ho))
      exact ih hplain (fun j hj => hel j (by dsimp only at hj; omega)) hnext.1 (by omega) fun h => absurd h (by simp)

/-- A block of plain operations, up to a branch, a fault or its end. -/
theorem fe_block_leaves (max_insns : Nat) (hfetch : fetch c.pc ≠ none)
    (hplain : ∀ o ∈ (fe_block cfg fetch c.pc max_insns).ops, o.Plain)
    (hel : ∀ j < fe_max_insns max_insns, El0 (interp_run env.toEnv fetch j c)) :
    Leaves env fetch c tmp (fe_block cfg fetch c.pc max_insns) := by
  have hstart : c = c.moved c.cur_insn_pc c.pc 0 := by simp [CPU.moved, CPU.shifted, CPU.retire]
  exact fe_block_loop_leaves _ hplain (by simpa using hel) ⟨_, hstart⟩ (fe_max_insns_pos _) fun _ => hfetch

/-- Plain operations leave part way only with an abort. -/
theorem ir_exit_midway {ops rest : List IROp} {o : IROp} {r k : Nat} (hops : ∀ o ∈ ops, o.Plain)
    (hrun : ir_run env k ops s = .leave d r) (hexit : ir_exit env k ops s = o :: rest)
    (hmid : o.op.is_midway = true) : d.pend_exc.valid = true := by
  induction ops generalizing k s with
  | nil => cases hrun
  | cons q ops ih =>
    rw [ir_run] at hrun
    rw [ir_exit] at hexit
    cases hstep : ir_step env k s q <;> rw [hstep] at hrun hexit
    case next t => exact ih (fun o ho => hops o (.tail _ ho)) hrun hexit
    case leave =>
      cases hrun
      cases hexit
      obtain ⟨hcall, hvop, hatomic⟩ := hops o (.head _)
      have hnative : o.op.is_native = true := by cases hop : o.op <;> simp_all [IROpc.is_midway, IROpc.is_native]
      have hstraight := ir_step_native env k s hnative
      rwa [hstep] at hstraight

/-- The liveness pass keeps where a block leaves, and the flags there without an abort. -/
theorem fe_liveness_leaves {max_insns r : Nat} (hplain : ∀ o ∈ (fe_block cfg fetch p max_insns).ops, o.Plain)
    (hrun : ir_run env 0 (fe_block cfg fetch p max_insns).ops s = .leave d r) :
    ∃ f, ir_run env 0 (fe_liveness (fe_block cfg fetch p max_insns).ops) s = .leave (d.with_nzcv f) r ∧
      (d.pend_exc.valid = false → f = d.nzcv) := by
  have hdone := fe_block_done cfg fetch p max_insns
  have hops := fun o ho => (hdone.ops o ho).1
  have hlive := ir_run_marked env 0 s (f := s.c.nzcv) hops fun _ => rfl
  rw [hrun] at hlive
  refine ⟨_, hlive, fun hok => ?_⟩
  have hlast := last_marked_live env 0 s (b := false) hops (fun _ => rfl)
    (ir_exit_live env hdone.ended 0 s fun o rest hexit hmid => ?_)
  · rw [kept_flags_eq env 0 s hops (fun _ => rfl) hlast, hrun]
    rfl
  · rw [ir_exit_midway hplain hrun hexit hmid] at hok
    cases hok

theorem interp_run_cur (n : Nat) : ∃ cur', interp_run env.toEnv fetch n { c with cur_insn_pc := cur } =
    { interp_run env.toEnv fetch n c with cur_insn_pc := cur' } := by
  induction n with
  | zero => exact ⟨cur, rfl⟩
  | succ n ih =>
    obtain ⟨cur', h⟩ := ih
    rw [interp_run, interp_run, h]
    dsimp only [at_insn]
    cases fetch (interp_run env.toEnv fetch n c).pc with
    | none => exact ⟨cur', rfl⟩
    | some insn => exact ⟨_, rfl⟩

theorem interp_run_add (a b : Nat) :
    interp_run env.toEnv fetch (a + b) c = interp_run env.toEnv fetch b (interp_run env.toEnv fetch a c) := by
  induction b with
  | zero => rfl
  | succ b ih => rw [← Nat.add_assoc, interp_run, interp_run, ih]

end block

/-- `mem_ifetch` of a word that cannot be fetched, with the status of the fault. -/
def mem_ifetch_fault (c : CPU) (va : u64) (fsc : Nat) : CPU :=
  cpu_raise_sync c (if va.toNat % 4 = 0 then esr_make EC_IABORT_LOWER fsc else esr_make EC_PC_ALIGN 0) va

/-- `n` rounds of the loop of `jit_run`. Signals and pages of self-modifying code are left out; `fsc` is the status of
a failing fetch. -/
def jit_run (env : IREnv) (cfg : FeCfg) (fetch : u64 → Option u32) (fsc : u64 → Nat) (max_insns : Nat) :
    Nat → CPU → CPU
  | 0, c => c
  | n + 1, c =>
    if c.pend_exc.valid || c.stop then c
    else
      match ir_run env 0 (fe_liveness (fe_block cfg fetch c.pc max_insns).ops) ⟨c, fun _ => 0#64⟩ with
      | .leave d r => if d.halted then d.retire r else jit_run env cfg fetch fsc max_insns n (d.retire r)
      -- no block: the abort of the entry fetch goes to the `cur_insn_pc` of the code run before it
      | .next s => mem_ifetch_fault s.c s.c.pc (fsc s.c.pc)

variable {env : IREnv} {cfg : FeCfg} {fetch : u64 → Option u32} {fsc : u64 → Nat} {max_insns n : Nat}

theorem jit_run_stopped (c : CPU) (h : c.pend_exc.valid = true) : jit_run env cfg fetch fsc max_insns n c = c := by
  cases n <;> simp [jit_run, h]

/-- At EL0, where an instruction can be fetched and begins a block of plain operations. -/
structure AtPlain (cfg : FeCfg) (fetch : u64 → Option u32) (max_insns : Nat) (c : CPU) : Prop where
  el0 : El0 c
  fetched : fetch c.pc ≠ none
  plain : ∀ o ∈ (fe_block cfg fetch c.pc max_insns).ops, o.Plain

/-- The interpreter's CPU `d` is the generated code's `e`, but for the flags of an abort. -/
def Interprets (d e : CPU) : Prop :=
  ∃ cur f, d = { e.with_nzcv f with cur_insn_pc := cur } ∧ (e.pend_exc.valid = false → f = e.nzcv)

/-- Blocks run one after another do what the interpreter does with their instructions,
at least one for each block, and count each once. -/
theorem jit_run_interprets (env : IREnv) (cfg : FeCfg) (fetch : u64 → Option u32) (fsc : u64 → Nat)
    (max_insns n : Nat) (c : CPU)
    (hplain : ∀ j < n * fe_max_insns max_insns, AtPlain cfg fetch max_insns (interp_run env.toEnv fetch j c)) :
    ∃ j ≤ n * fe_max_insns max_insns, (n ≤ j ∨ rare_event (jit_run env cfg fetch fsc max_insns n c) false = true) ∧
      Interprets (interp_run env.toEnv fetch j c) (jit_run env cfg fetch fsc max_insns n c) := by
  induction n generalizing c with
  | zero => exact ⟨0, Nat.zero_le _, .inl le_rfl, c.cur_insn_pc, c.nzcv, rfl, fun _ => rfl⟩
  | succ n ih =>
    rw [Nat.succ_mul] at hplain ⊢
    have hmax := fe_max_insns_pos max_insns
    have hfirst : AtPlain cfg fetch max_insns c := hplain 0 (by omega)
    rw [jit_run]
    split_ifs with hstop
    · refine ⟨0, Nat.zero_le _, .inr ?_, c.cur_insn_pc, c.nzcv, rfl, fun _ => rfl⟩
      simp only [rare_event, Bool.or_eq_true] at hstop ⊢
      grind
    obtain ⟨d, r, hrun, j, hpos, hj, cur, hsame⟩ := fe_block_leaves max_insns hfirst.fetched hfirst.plain
      fun j hj => (hplain j (by omega)).el0
    obtain ⟨f, hlive, hf⟩ := fe_liveness_leaves hfirst.plain hrun
    have hcount : j ≤ fe_max_insns max_insns := hj.trans (fe_block_done cfg fetch c.pc max_insns).counts
    rw [hlive]
    dsimp only
    have hhere : Interprets (interp_run env.toEnv fetch j c) ((d.with_nzcv f).retire r) :=
      ⟨cur, d.nzcv, hsame, fun h => (hf h).symm⟩
    split_ifs with hhalt
    · exact ⟨j, by omega, .inr (by simp_all [rare_event, CPU.retire]), hhere⟩
    cases hexc : d.pend_exc.valid with
    | true =>
      rw [jit_run_stopped ((d.with_nzcv f).retire r) hexc]
      exact ⟨j, by omega, .inr (by simp [rare_event, CPU.retire, CPU.with_nzcv, hexc]), hhere⟩
    | false =>
      obtain rfl := hf hexc
      have hrest (i : Nat) : ∃ cur', interp_run env.toEnv fetch (j + i) c =
          { interp_run env.toEnv fetch i (d.retire r) with cur_insn_pc := cur' } := by
        rw [interp_run_add, hsame]
        exact interp_run_cur i
      obtain ⟨i, hi, hn, cur', f, hsame', hf⟩ := ih (d.retire r) fun i hi => by
        have hat := hplain (j + i) (by omega)
        obtain ⟨cur', h⟩ := hrest i
        rw [h] at hat
        exact ⟨⟨hat.el0.el, hat.el0.dze⟩, hat.fetched, hat.plain⟩
      obtain ⟨cur'', h⟩ := hrest i
      refine ⟨j + i, by omega, hn.imp_left (by omega), cur'', f, ?_, hf⟩
      rw [h, hsame']
      rfl

/-- A countdown: SUBS X1, X1, #1 and B.NE back to it. -/
def countdown_code (pc : u64) : Option u32 :=
  if pc = 0x1000#64 then some 0xf1000421#32
  else if pc = 0x1004#64 then some 0x54ffffe1#32
  else none

/-- A loop that counts down in one block. -/
theorem jit_run_interprets_countdown :
    let cfg : FeCfg := ⟨none, fun _ _ => none⟩
    let c := cpu_reset core_env Mem.empty 0x1000#64 0
    ∃ j ≤ 2, (1 ≤ j ∨ rare_event (jit_run core_ir_env cfg countdown_code (fun _ => 0) 2 1 c) false = true) ∧
      Interprets (interp_run core_env countdown_code j c)
        (jit_run core_ir_env cfg countdown_code (fun _ => 0) 2 1 c) := by
  refine jit_run_interprets core_ir_env _ countdown_code _ 2 1 (cpu_reset core_env Mem.empty 0x1000#64 0)
    fun j hj => ?_
  match j, hj with
  | 0, _ | 1, _ => exact ⟨⟨rfl, rfl⟩, by decide, by unfold IROp.Plain; decide⟩

end arm64emu
