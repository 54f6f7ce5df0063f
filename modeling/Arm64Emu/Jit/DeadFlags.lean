import Arm64Emu.Jit.Liveness

namespace arm64emu

open List

/-- What every operation of a block satisfies before the pass: its flags are
kept, and an atomic one carries a word `fe_atomic` accepts. -/
structure IROp.Emitted (o : IROp) : Prop where
  kept : o.flags_dead = false
  atomic : o.op = .IRO_ATOMIC → ∃ n pc, fe_atomic n (o.imm.setWidth 32) pc = some o

/-- Whether the last definition of the flags up to an operation is marked dead; `b` says it of those before it. -/
def marked_after (o : IROp) (b : Bool) : Bool := if o.defines then o.flags_dead else b

/-- The flags a marked run has at its exit, from `f` at its start. -/
def kept_flags (env : IREnv) : Nat → List IROp → IRState → u32 → u32
  | _, [], _, f => f
  | k, o :: ops, s, f =>
    let g := flags_after (mark_dead o (flags_live ops)) f (ir_step env k s o)
    match ir_step env k s o with
    | .next t => kept_flags env (k + 1) ops t g
    | .leave _ _ => g

/-- Whether the last definition of the flags before the exit of a run is marked dead. -/
def last_marked (env : IREnv) : Nat → List IROp → IRState → Bool → Bool
  | _, [], _, b => b
  | k, o :: ops, s, b =>
    match ir_step env k s o with
    | .next t => last_marked env (k + 1) ops t (marked_after (mark_dead o (flags_live ops)) b)
    | .leave _ _ => b

section run

variable (env : IREnv) (k : Nat) (s : IRState) {o : IROp} {ops : List IROp} {f : u32} {b live : Bool}

theorem mark_dead_defines : (mark_dead o live).defines = o.defines := by
  unfold mark_dead
  split <;> rfl

theorem mark_dead_dead (h : (mark_dead o live).flags_dead = true) (hkept : o.flags_dead = false) :
    o.op ≠ .IRO_CALL1 ∧ op_writes_flags o = true ∧ live = false ∧ o.op.is_ccmp = false := by
  unfold mark_dead at h
  split at h
  · assumption
  · cases hkept.symm.trans h

/-- A marked operation, from flags that are right where they are live before it. -/
theorem ir_step_emitted (ho : o.Emitted) (hf : live_before o live = true → f = s.c.nzcv) :
    ir_step env k (s.with_nzcv f) (mark_dead o live) =
      (ir_step env k s o).with_nzcv (flags_after (mark_dead o live) f (ir_step env k s o)) := by
  have hmark : mark_dead o live = { o with flags_dead := (mark_dead o live).flags_dead } := by
    unfold mark_dead
    split <;> rfl
  have hdead (h : (mark_dead o live).flags_dead = true) := mark_dead_dead h ho.kept
  rw [hmark]
  refine ir_step_marked env k s ho.kept (fun hr => hf ?_) (fun h => ⟨(hdead h).1, (hdead h).2.2.2⟩) (fun hop => hf ?_)
    fun hop c f => ?_
  · rw [live_before, hr]
    split <;> rfl
  · rw [live_before, if_pos hop]
  · obtain ⟨n, pc, hword⟩ := ho.atomic hop
    exact atomic_with_nzcv (fe_atomic_form env.toEnv hword) c f

theorem ir_step_nzcv (ho : o.Emitted) (hdef : o.defines = false) : (ir_step env k s o).nzcv = s.c.nzcv := by
  have hmark : mark_dead o true = o := if_neg fun h => Bool.noConfusion h.2.2.1
  have hstep := ir_step_emitted env k s ho fun _ : live_before o true = true => rfl
  rw [hmark, flags_after, hdef] at hstep
  refine (congrArg IRResult.nzcv hstep).trans ?_
  cases ir_step env k s o <;> rfl

theorem ir_step_writes (h : op_writes_flags o = true) : ∃ t, ir_step env k s o = .next t := by
  unfold op_writes_flags at h
  unfold ir_step
  cases hop : o.op <;> simp only [hop] at h ⊢
  case IRO_VOP =>
    rw [h, Bool.not_true, Bool.and_false]
    exact ⟨_, rfl⟩
  all_goals first
    | exact ⟨_, rfl⟩
    | cases h

/-- Flags that are right where the last definition is not marked stay so. -/
theorem flags_after_eq (ho : o.Emitted) (hb : b = false → f = s.c.nzcv)
    (h : marked_after (mark_dead o live) b = false) :
    flags_after (mark_dead o live) f (ir_step env k s o) = (ir_step env k s o).nzcv := by
  unfold marked_after at h
  rw [flags_after]
  rw [mark_dead_defines] at h ⊢
  cases hdef : o.defines with
  | true =>
    rw [hdef, if_pos rfl] at h
    rw [h]
    rfl
  | false =>
    rw [hdef, if_neg Bool.false_ne_true] at h
    rw [ir_step_nzcv env k s ho hdef, hb h]
    rfl

theorem marked_after_live (hkept : o.flags_dead = false) (hl : live_before o live = true → b = false)
    (h : live = true) : marked_after (mark_dead o live) b = false := by
  rw [marked_after, mark_dead_defines, h]
  cases hdef : o.defines with
  | true => exact (congrArg IROp.flags_dead (if_neg fun h => Bool.noConfusion h.2.2.1)).trans hkept
  | false =>
    refine hl ?_
    have hw : op_writes_flags o = false := by
      unfold IROp.defines at hdef
      split at hdef
      · cases hdef
      · exact hdef
    rw [live_before, hw, h]
    split_ifs <;> trivial

/-- A run with dead definitions unmarked and marked: the same outcome but for the flags. -/
theorem ir_run_marked (hops : ∀ o ∈ ops, o.Emitted) (hf : flags_live ops = true → f = s.c.nzcv) :
    ir_run env k (fe_liveness ops) (s.with_nzcv f) =
      (ir_run env k ops s).with_nzcv (kept_flags env k ops s f) := by
  induction ops generalizing k s f with
  | nil => rfl
  | cons o ops ih =>
    obtain ⟨ho, hops⟩ := forall_mem_cons.1 hops
    rw [fe_liveness, ir_run_cons, ir_run_cons, ir_step_emitted env k s ho hf, kept_flags]
    cases hstep : ir_step env k s o with
    | leave c n => rfl
    | next t =>
      refine ih (k + 1) t hops fun hlive => ?_
      have hafter := flags_after_eq env k s (b := !flags_live (o :: ops)) ho (by simpa using hf)
        (marked_after_live ho.kept (by simp [flags_live]) hlive)
      rwa [hstep] at hafter

theorem kept_flags_eq (hops : ∀ o ∈ ops, o.Emitted) (hb : b = false → f = s.c.nzcv)
    (h : last_marked env k ops s b = false) : kept_flags env k ops s f = (ir_run env k ops s).nzcv := by
  induction ops generalizing k s f b with
  | nil => exact hb h
  | cons o ops ih =>
    obtain ⟨ho, hops⟩ := forall_mem_cons.1 hops
    have hafter (h : marked_after (mark_dead o (flags_live ops)) b = false) := flags_after_eq env k s ho hb h
    rw [last_marked] at h
    rw [kept_flags, ir_run]
    cases hstep : ir_step env k s o <;> rw [hstep] at h hafter
    case next t => exact ih (k + 1) t hops hafter h
    case leave c n =>
      refine hafter ?_
      rw [marked_after]
      split
      · -- an operation that leaves is not marked
        rw [← Bool.not_eq_true]
        intro hdead
        obtain ⟨t, ht⟩ := ir_step_writes env k s (mark_dead_dead hdead ho.kept).2.1
        cases hstep.symm.trans ht
      · exact h

theorem last_marked_live (hops : ∀ o ∈ ops, o.Emitted) (hl : flags_live ops = true → b = false)
    (h : flags_live (ir_exit env k ops s) = true) : last_marked env k ops s b = false := by
  induction ops generalizing k s b with
  | nil => exact hl rfl
  | cons o ops ih =>
    obtain ⟨ho, hops⟩ := forall_mem_cons.1 hops
    rw [ir_exit] at h
    rw [last_marked]
    cases hstep : ir_step env k s o <;> rw [hstep] at h
    case next t => exact ih (k + 1) t hops (marked_after_live ho.kept hl) h
    case leave => exact hl h

end run

def IROpc.is_exit (op : IROpc) : Bool :=
  op matches .IRO_JMP | .IRO_BCOND | .IRO_CBZ | .IRO_CBNZ | .IRO_TBZ | .IRO_TBNZ | .IRO_JMPIND

/-- The operations that may leave a block part way: where the access faults, or
the interpreter they are re-run in finds an event. -/
def IROpc.is_midway (op : IROpc) : Bool :=
  op matches .IRO_LD | .IRO_ST | .IRO_LDV | .IRO_STV | .IRO_ATOMIC | .IRO_VOP

/-- Every operation that ends the block has the flags live before it. -/
def Ended : List IROp → Bool
  | [] => true
  | o :: ops => (!o.op.is_exit || flags_live (o :: ops)) && Ended ops

def NoExit (ops : List IROp) : Prop := ∀ o ∈ ops, o.op.is_exit = false

theorem ended_append {a b : List IROp} (ha : NoExit a) (hb : Ended b = true) : Ended (a ++ b) = true := by
  induction a with
  | nil => exact hb
  | cons o a ih =>
    rw [cons_append, Ended, ha o mem_cons_self, ih fun o ho => ha o (.tail _ ho)]
    rfl

section exit

variable (env : IREnv)

theorem ir_step_leaves {k : Nat} {s : IRState} {o : IROp} {c : CPU} {n : Nat}
    (h : ir_step env k s o = .leave c n) :
    o.op.is_exit = true ∨ o.op = .IRO_CALL1 ∨ o.op.is_midway = true := by
  unfold ir_step at h
  cases hop : o.op <;> simp only [hop] at h <;> first
    | exact .inl rfl
    | exact .inr (.inl rfl)
    | exact .inr (.inr rfl)
    | cases h

/-- A run that leaves at the end of the block, or at a helper call, leaves with
the flags live. -/
theorem ir_exit_live {ops : List IROp} (hend : Ended ops = true) (k : Nat) (s : IRState)
    (hmid : ∀ o rest, ir_exit env k ops s = o :: rest → o.op.is_midway = true → flags_live (o :: rest) = true) :
    flags_live (ir_exit env k ops s) = true := by
  induction ops generalizing k s with
  | nil => rfl
  | cons o ops ih =>
    rw [Ended, Bool.and_eq_true, Bool.or_eq_true, Bool.not_eq_true'] at hend
    rw [ir_exit] at hmid ⊢
    cases hres : ir_step env k s o with
    | next t =>
      rw [hres] at hmid
      exact ih hend.2 (k + 1) t hmid
    | leave c n =>
      rw [hres] at hmid
      rcases ir_step_leaves env hres with hexit | hcall | hmidway
      · exact hend.1.resolve_left (by rw [hexit]; decide)
      · simp only [flags_live, live_before, hcall, if_true]
      · exact hmid o ops rfl hmidway

end exit

section emitted

variable {n : Nat} {pc : u64}

variable {ops : List IROp} (cfg : FeCfg) (insn : u32)

theorem native_emitted (h : Native ops) : (∀ o ∈ ops, o.Emitted) ∧ NoExit ops := by
  rw [native_iff] at h
  refine ⟨fun o ho => ⟨(h o ho).2, fun hop => ?_⟩, fun o ho => ?_⟩
  · have hn := (h o ho).1
    rw [hop] at hn
    cases hn
  · have hn := (h o ho).1
    cases hop : o.op <;> rw [hop] at hn <;> first | rfl | cases hn

theorem put_emitted {op : IROpc} (hop : op ≠ .IRO_ATOMIC) (w : Bool) (dst a b cc : Nat) (imm : u64) (aux : u32) :
    (ir_put n op w dst a b cc imm aux).Emitted :=
  ⟨rfl, fun h => absurd h hop⟩

/-- The operations of one instruction: emitted, and ending the block where the
instruction does and only there. -/
def FeOut.Shaped (out : FeOut) : Prop :=
  (∀ o ∈ out.ops, o.Emitted) ∧ if out.fin then Ended out.ops = true else NoExit out.ops

def IROpc.is_terminal (op : IROpc) : Bool := op matches .IRO_JMP | .IRO_JMPIND

/-- The block ends in an operation that leaves it. -/
def Terminated : List IROp → Bool
  | [] => false
  | [o] => o.op.is_terminal
  | o :: ops => !o.op.is_terminal && Terminated ops

theorem terminated_append {a b : List IROp} (ha : NoExit a) (hb : Terminated b = true) :
    Terminated (a ++ b) = true := by
  induction a with
  | nil => exact hb
  | cons o a ih =>
    have hrest := ih fun o ho => ha o (.tail _ ho)
    have hop : o.op.is_terminal = false := by
      have hexit := ha o (.head _)
      cases hop : o.op <;> rw [hop] at hexit <;> first | rfl | cases hexit
    cases hab : a ++ b with
    | nil =>
      rw [hab] at hrest
      cases hrest
    | cons p ps =>
      rw [cons_append, hab, Terminated, hop, ← hab, hrest]
      · rfl
      · nofun

/-- What translating one instruction may add. -/
structure FeOut.Formed (n : Nat) (out : FeOut) : Prop where
  shaped : out.Shaped
  size : out.ops.length ≤ IR_MAX_OPS_PER_INSN
  icnt : ∀ o ∈ out.ops, o.icnt ≤ out.ninsns
  counts : n ≤ out.ninsns ∧ out.ninsns ≤ n + 1
  ends : out.fin = true → Terminated out.ops = true

theorem formed_puts {k : Nat} (h : Puts n k ops) (hk : k ≤ 9) : FeOut.Formed n ⟨ops, n + 1, false⟩ := by
  obtain ⟨hnative, hicnt, hlen⟩ := puts_iff.1 h
  exact ⟨native_emitted hnative, hlen.trans hk, fun o ho => (hicnt o ho).trans_le (Nat.le_succ n),
    ⟨Nat.le_succ n, le_rfl⟩, nofun⟩

theorem formed_single {o : IROp} {m : Nat} (ho : o.Emitted) (hop : o.op.is_exit = false) (hicnt : o.icnt = n)
    (hm : m = n ∨ m = n + 1) : FeOut.Formed n ⟨[o], m, false⟩ :=
  ⟨⟨forall_mem_singleton.2 ho, forall_mem_singleton.2 hop⟩, Nat.le_of_ble_eq_true rfl,
    forall_mem_singleton.2 (by dsimp only; omega), by dsimp only; omega, nofun⟩

theorem formed_call1 : FeOut.Formed n ⟨[put_call1 n pc insn], n, false⟩ :=
  formed_single (put_emitted (by decide) _ _ _ _ _ _ _) rfl rfl (.inl rfl)

theorem formed_system : (fe_system n insn pc).Formed n := by
  unfold fe_system
  dsimp only
  split_ifs <;> first
    | exact formed_call1 insn
    | exact formed_puts (k := 9) rfl le_rfl

theorem formed_generic : (fe_generic cfg n insn pc).Formed n := by
  unfold fe_generic
  dsimp only
  split
  next o hat =>
    have hat := some_of_ite hat
    obtain ⟨hop, himm, -, hicnt, hkept⟩ := fe_atomic_op n hat
    have hword : o.imm.setWidth 32 = insn := by
      rw [himm]
      simp
    exact formed_single ⟨hkept, fun _ => ⟨n, pc, hword ▸ hat⟩⟩ (by rw [hop]; rfl) hicnt (.inl rfl)
  split
  next => exact formed_single ⟨rfl, nofun⟩ rfl rfl (by split <;> simp)
  split
  next ops hld => exact formed_puts (puts_ldst_extra n pc (some_of_ite hld)) (by decide)
  split
  next ops hbf => exact formed_puts (puts_bitfield n (some_of_ite hbf)) (by decide)
  split
  next ops hl1 => exact formed_puts (puts_ld1 n pc (some_of_ite hl1)) (by decide)
  split
  · exact formed_puts (k := 1) (puts_ite rfl rfl) (by decide)
  split
  · refine formed_puts (puts_put_alu n _ ?_ _ _ _) (by decide)
    cases BIT insn 30 <;> cases BIT insn 29 <;> rfl
  split
  · exact formed_system insn
  split
  · exact ⟨⟨forall_mem_cons.2 ⟨put_emitted (by decide) _ _ _ _ _ _ _,
      forall_mem_singleton.2 (put_emitted (by decide) _ _ _ _ _ _ _)⟩, rfl⟩, Nat.le_of_ble_eq_true rfl,
      forall_mem_cons.2 ⟨le_rfl, forall_mem_singleton.2 le_rfl⟩, ⟨le_rfl, Nat.le_succ n⟩, fun _ => rfl⟩
  · exact formed_call1 insn

/-- Operations that end a block: written out, they do so by computation. -/
theorem formed_last (h : (ops.all fun o => o.op != .IRO_ATOMIC && !o.flags_dead, Ended ops, ops.map IROp.icnt,
      Nat.ble ops.length 9, Terminated ops) = (true, true, List.replicate ops.length (n + 1), true, true)) :
    FeOut.Formed n ⟨ops, n + 1, true⟩ := by
  simp only [Prod.mk.injEq, map_eq_replicate_iff, Nat.ble_eq, all_eq_true, Bool.and_eq_true,
    Bool.not_eq_true', bne_iff_ne] at h
  obtain ⟨hops, hend, hicnt, hlen, hterm⟩ := h
  exact ⟨⟨fun o ho => ⟨(hops o ho).2, fun hop => absurd hop (hops o ho).1⟩, hend⟩, hlen, fun o ho => (hicnt o ho).le,
    ⟨Nat.le_succ n, le_rfl⟩, fun _ => hterm⟩

theorem formed_branch {e : PDEnt} (hop : e.op.is_branch = true) : (fe_insn cfg n e pc).Formed n := by
  obtain ⟨word, op, rd, rn, rm, imm⟩ := e
  cases op <;> cases hop
  case PD_B | PD_BL => exact formed_last rfl
  all_goals
    refine formed_last ?_
    dsimp only [put_zbranch]
    split <;> rfl

theorem formed_insn (e : PDEnt) : (fe_insn cfg n e pc).Formed n := by
  by_cases hbr : e.op.is_branch = true
  · exact formed_branch cfg hbr
  rw [fe_insn_other n cfg hbr]
  cases hops : fe_ops n e pc with
  | some ops => exact formed_puts (puts_ops n pc e hops) (by decide)
  | none => exact formed_generic cfg e.insn

end emitted

section block

variable (cfg : FeCfg) (fetch : u64 → Option u32) {max : Nat}

/-- A block under construction, with `fuel` of `max` instructions left: it has
no way out yet. -/
structure IRBlock.Open (max fuel : Nat) (ir : IRBlock) : Prop where
  ops : ∀ o ∈ ir.ops, o.Emitted ∧ o.icnt ≤ ir.ninsns
  noExit : NoExit ir.ops
  room : ir.ops.length + IR_MAX_OPS_PER_INSN + 1 ≤ IR_MAX_OPS
  counts : ir.ninsns ≤ ir.guest_n ∧ ir.guest_n + fuel = max ∧ fuel ≠ 0
  first : ir.guest_n = 0 → ir.ops = []

/-- A finished block: it has its terminal operation if an instruction was `fetched`. -/
structure IRBlock.Done (max : Nat) (fetched : Prop) (ir : IRBlock) : Prop where
  ops : ∀ o ∈ ir.ops, o.Emitted ∧ o.icnt ≤ max
  ended : Ended ir.ops = true
  size : ir.ops.length ≤ IR_MAX_OPS
  counts : ir.guest_n ≤ max
  ends : fetched → Terminated ir.ops = true

theorem done_append {ops tail : List IROp} {m g : Nat} {fetched : Prop} (hops : ∀ o ∈ ops, o.Emitted ∧ o.icnt ≤ max)
    (hno : NoExit ops) (htail : ∀ o ∈ tail, o.Emitted ∧ o.icnt ≤ max) (hend : Ended tail = true)
    (hterm : Terminated tail = true) (hsize : ops.length + tail.length ≤ IR_MAX_OPS) (hg : g ≤ max) :
    IRBlock.Done max fetched ⟨ops ++ tail, m, g⟩ :=
  ⟨forall_mem_append.2 ⟨hops, htail⟩, ended_append hno hend, length_append.trans_le hsize, hg,
    fun _ => terminated_append hno hterm⟩

theorem fe_block_loop_done {fuel : Nat} (p : u64) (ir : IRBlock) (h : ir.Open max fuel) :
    (fe_block_loop cfg fetch fuel p ir).Done max (ir.guest_n ≠ 0 ∨ fetch p ≠ none) := by
  induction fuel generalizing p ir with
  | zero => exact absurd rfl h.counts.2.2
  | succ fuel ih =>
    obtain ⟨hops, hno, hroom, hcounts, hfirst⟩ := h
    have hper : IR_MAX_OPS_PER_INSN = 9 := rfl
    have hold : ∀ o ∈ ir.ops, o.Emitted ∧ o.icnt ≤ max := fun o ho => ⟨(hops o ho).1, (hops o ho).2.trans (by omega)⟩
    have hjmp (n : Nat) (hn : n ≤ max) (dest : u64) :
        ∀ o ∈ [ir_put n .IRO_JMP false 0 0 0 0 dest 0#32], o.Emitted ∧ o.icnt ≤ max :=
      forall_mem_singleton.2 ⟨put_emitted (by decide) _ _ _ _ _ _ _, hn⟩
    rw [fe_block_loop]
    dsimp only
    split
    next hnone =>
      split
      next hzero =>
        exact ⟨hold, by rw [hfirst hzero]; rfl, by omega, by omega, fun h => absurd h (by simp [hzero, hnone])⟩
      · exact done_append hold hno (hjmp _ (by omega) _) rfl rfl (by rw [length_singleton]; omega) (by omega)
    next insn _ =>
    split
    · exact done_append hold hno (forall_mem_cons.2 ⟨⟨put_emitted (by decide) _ _ _ _ _ _ _,
        show ir.ninsns ≤ max by omega⟩, hjmp _ (by omega) _⟩) rfl rfl
        (by rw [length_cons, length_singleton]; omega) (by omega)
    have hinsn : (fe_insn cfg ir.ninsns (fe_entry cfg insn) p).Formed ir.ninsns := formed_insn cfg _
    obtain ⟨⟨hout, hfin⟩, hsize, hicnt, hn, hends⟩ := hinsn
    generalize fe_insn cfg ir.ninsns (fe_entry cfg insn) p = out at *
    split
    next hlast =>
      rw [if_pos hlast] at hfin
      exact done_append hold hno (fun o ho => ⟨hout o ho, (hicnt o ho).trans (by omega)⟩) hfin (hends hlast)
        (by omega) (by omega)
    next hlast =>
    rw [if_neg hlast] at hfin
    have hnew : ∀ o ∈ ir.ops ++ out.ops, o.Emitted ∧ o.icnt ≤ out.ninsns := forall_mem_append.2
      ⟨fun o ho => ⟨(hops o ho).1, (hops o ho).2.trans hn.1⟩, fun o ho => ⟨hout o ho, hicnt o ho⟩⟩
    have hnone : NoExit (ir.ops ++ out.ops) := forall_mem_append.2 ⟨hno, hfin⟩
    split
    · exact done_append (fun o ho => ⟨(hnew o ho).1, (hnew o ho).2.trans (by omega)⟩) hnone
        (hjmp _ (by omega) _) rfl rfl
        (by rw [length_append, length_singleton]; omega) (by omega)
    next hgo =>
      simp only [not_or, Nat.not_lt] at hgo
      have hrest := ih (p + 4#64) ⟨ir.ops ++ out.ops, out.ninsns, ir.guest_n + 1⟩
        ⟨hnew, hnone, hgo.2.2, by dsimp only; omega, nofun⟩
      exact { hrest with ends := fun _ => hrest.ends (.inl (Nat.succ_ne_zero _)) }

theorem fe_max_insns_pos (max_insns : Nat) : 0 < fe_max_insns max_insns := by
  unfold fe_max_insns JIT_MAX_BLOCK_INSNS
  split <;> omega

theorem fe_block_done (pc : u64) (max_insns : Nat) :
    (fe_block cfg fetch pc max_insns).Done (fe_max_insns max_insns) (fetch pc ≠ none) := by
  have hmax := (fe_max_insns_pos max_insns).ne'
  have hdone := fe_block_loop_done cfg fetch pc ⟨[], 0, 0⟩
    ⟨forall_mem_nil _, forall_mem_nil _, by decide, ⟨le_rfl, Nat.zero_add _, hmax⟩, fun _ => rfl⟩
  exact { hdone with ends := fun hfetch => hdone.ends (.inr hfetch) }

end block

/-- Dead-flag elimination over whole blocks: a marked block runs as the unmarked one in everything but NZCV, which is
that of the last definition the marked run keeps. It is the same where the last definition before the exit is not
marked, and so wherever a run leaves at a terminal operation or a helper call. -/
theorem fe_liveness_nzcv (env : IREnv) (cfg : FeCfg) (fetch : u64 → Option u32) (pc : u64) (max_insns : Nat)
    (s : IRState) :
    let ops := (fe_block cfg fetch pc max_insns).ops
    ir_run env 0 (fe_liveness ops) s = (ir_run env 0 ops s).with_nzcv (kept_flags env 0 ops s s.c.nzcv) ∧
      (last_marked env 0 ops s false = false → ir_run env 0 (fe_liveness ops) s = ir_run env 0 ops s) ∧
      ((∀ o rest, ir_exit env 0 ops s = o :: rest → o.op.is_midway = false) →
        last_marked env 0 ops s false = false) := by
  intro ops
  have hdone := fe_block_done cfg fetch pc max_insns
  have hops : ∀ o ∈ ops, o.Emitted := fun o ho => (hdone.ops o ho).1
  have hrun := ir_run_marked env 0 s (f := s.c.nzcv) hops fun _ => rfl
  refine ⟨hrun, fun hlast => hrun.trans ?_, fun hmid => ?_⟩
  · rw [kept_flags_eq env 0 s hops (fun _ => rfl) hlast, IRResult.with_nzcv_self]
  · refine last_marked_live env 0 s hops (fun _ => rfl) (ir_exit_live env hdone.ended 0 s fun o rest hexit h => ?_)
    cases (hmid o rest hexit).symm.trans h

/-- SUBS X1, X0, #0; ADDS X4, X0, #0; LDR X2, [X3]. -/
def defined_twice_code (pc : u64) : Option u32 :=
  if pc = 0x1000#64 then some 0xf1000001#32
  else if pc = 0x1004#64 then some 0xb1000004#32
  else if pc = 0x1008#64 then some 0xf9400062#32
  else none

/-- The first of two definitions is dropped and the load faults after the second. -/
theorem fe_liveness_nzcv_defined_twice :
    let ops := (fe_block ⟨none, fun _ _ => none⟩ defined_twice_code 0x1000#64 0).ops
    let s : IRState := ⟨cpu_reset core_env Mem.empty 0x1000#64 0, fun _ => 0#64⟩
    (fe_liveness ops).map IROp.flags_dead = [true, false, false, false] ∧
      (ir_exit core_ir_env 0 ops s).map IROp.op = [.IRO_LD, .IRO_JMP] ∧
      ir_run core_ir_env 0 (fe_liveness ops) s = ir_run core_ir_env 0 ops s := by
  refine ⟨by decide, by decide, ?_⟩
  exact (fe_liveness_nzcv core_ir_env ⟨none, fun _ _ => none⟩ defined_twice_code 0x1000#64 0 _).2.1 (by decide)

/-- SUBS X1, X0, #0; LDR X2, [X3]; ADDS X4, X0, #0. -/
def redefined_code (pc : u64) : Option u32 :=
  if pc = 0x1000#64 then some 0xf1000001#32
  else if pc = 0x1004#64 then some 0xf9400062#32
  else if pc = 0x1008#64 then some 0xb1000004#32
  else none

/-- The load faults between two definitions of the flags. The first is marked dead, and the abort is recorded with the
flags from before it. -/
theorem dead_flags_lost_at_fault :
    (ir_run core_ir_env 0 (fe_liveness (fe_block ⟨none, fun _ _ => none⟩ redefined_code 0x1000#64 0).ops)
        ⟨cpu_reset core_env Mem.empty 0x1000#64 0, fun _ => 0#64⟩).nzcv = 0#32 ∧
      (ir_run core_ir_env 0 (fe_block ⟨none, fun _ _ => none⟩ redefined_code 0x1000#64 0).ops
        ⟨cpu_reset core_env Mem.empty 0x1000#64 0, fun _ => 0#64⟩).nzcv = 0x60000000#32 := by
  decide

end arm64emu
