import Arm64Emu.Jit.FeCorrect

namespace arm64emu

/-- The operations that look at the flags. -/
def op_reads_flags (o : IROp) : Bool :=
  match o.op with
  | .IRO_CSEL | .IRO_CSINC | .IRO_CSINV | .IRO_CSNEG
  | .IRO_CCMPR | .IRO_CCMNR | .IRO_CCMPI | .IRO_CCMNI
  | .IRO_BCOND
  | .IRO_ADC | .IRO_ADCS | .IRO_SBC | .IRO_SBCS => true
  | .IRO_VOP => o.aux.getLsbD VF_READF
  | _ => false

/-- The operations that set all flags. -/
def op_writes_flags (o : IROp) : Bool :=
  match o.op with
  | .IRO_ADDS | .IRO_SUBS | .IRO_ADDIS | .IRO_SUBIS
  | .IRO_ANDS | .IRO_BICS | .IRO_ANDIS
  | .IRO_ADCS | .IRO_SBCS
  | .IRO_CCMPR | .IRO_CCMNR | .IRO_CCMPI | .IRO_CCMNI => true
  | .IRO_VOP => o.aux.getLsbD VF_SETF
  | _ => false

/-- The conditional compares, which are never marked: they define the flags
either way. -/
def IROpc.is_ccmp (op : IROpc) : Bool :=
  op matches .IRO_CCMPR | .IRO_CCMNR | .IRO_CCMPI | .IRO_CCMNI

/-- Whether the flags are live before an operation: always before the helper
call and before a reader, never before another definition. -/
def live_before (o : IROp) (live : Bool) : Bool :=
  if o.op = .IRO_CALL1 then true
  else if op_reads_flags o then true
  else if op_writes_flags o then false
  else live

/-- A definition of flags that are not live after it is marked dead. -/
def mark_dead (o : IROp) (live : Bool) : IROp :=
  if o.op ≠ .IRO_CALL1 ∧ op_writes_flags o = true ∧ live = false ∧ o.op.is_ccmp = false then
    { o with flags_dead := true }
  else o

/-- Liveness of the flags before the first of these operations, by the backward
walk of `fe_liveness`: they are live out of the block. -/
def flags_live : List IROp → Bool
  | [] => true
  | o :: ops => live_before o (flags_live ops)

/-- `fe_liveness`, as far as it marks the operations. -/
def fe_liveness : List IROp → List IROp
  | [] => []
  | o :: ops => mark_dead o (flags_live ops) :: fe_liveness ops

/-- The operations from the one on at which a run leaves the block. -/
def ir_exit (env : IREnv) : Nat → List IROp → IRState → List IROp
  | _, [], _ => []
  | k, o :: ops, s =>
    match ir_step env k s o with
    | .next s => ir_exit env (k + 1) ops s
    | .leave _ _ => o :: ops

def CPU.with_nzcv (c : CPU) (f : u32) : CPU := { c with nzcv := f }

def IRState.with_nzcv (s : IRState) (f : u32) : IRState := { s with c := s.c.with_nzcv f }

def IRResult.with_nzcv (r : IRResult) (f : u32) : IRResult :=
  match r with
  | .next s => .next (s.with_nzcv f)
  | .leave c n => .leave (c.with_nzcv f) n

def Access.with_nzcv {α : Type} (r : Access α) (f : u32) : Access α :=
  match r with
  | .ok a c => .ok a (c.with_nzcv f)
  | .fault c => .fault (c.with_nzcv f)

def IRResult.nzcv : IRResult → u32
  | .next s => s.c.nzcv
  | .leave c _ => c.nzcv

section accesses

variable (pg : Pager) (c : CPU) (f : u32) (n : Nat) (va : u64) (size : Nat)

theorem Access.bind_with_nzcv {α β : Type} {r r' : Access α} {g : α → CPU → Access β}
    (hr : r' = r.with_nzcv f) (hg : ∀ a c, g a (c.with_nzcv f) = (g a c).with_nzcv f) :
    r'.bind g = (r.bind g).with_nzcv f := by
  subst hr
  cases r with
  | ok a c => exact hg a c
  | fault c => rfl

theorem mem_read_page_with_nzcv :
    mem_read_page pg (c.with_nzcv f) va size = (mem_read_page pg c va size).with_nzcv f := by
  unfold mem_read_page CPU.with_nzcv
  dsimp only
  split <;> rfl

theorem mem_read_with_nzcv :
    mem_read pg (c.with_nzcv f) va size = (mem_read pg c va size).with_nzcv f := by
  unfold mem_read
  split
  · exact Access.bind_with_nzcv f (mem_read_page_with_nzcv pg c f _ _) fun lo c =>
      Access.bind_with_nzcv f (mem_read_page_with_nzcv pg c f _ _) fun hi c => rfl
  · exact mem_read_page_with_nzcv pg c f va size

theorem mem_write_page_with_nzcv (val : u64) :
    mem_write_page pg (c.with_nzcv f) va size val = (mem_write_page pg c va size val).with_nzcv f := by
  unfold mem_write_page CPU.with_nzcv
  dsimp only
  split <;> rfl

theorem mem_write_with_nzcv (val : u64) :
    mem_write pg (c.with_nzcv f) va size val = (mem_write pg c va size val).with_nzcv f := by
  unfold mem_write
  split
  · exact Access.bind_with_nzcv f (mem_write_page_with_nzcv pg c f _ _ _) fun _ c =>
      mem_write_page_with_nzcv pg c f _ _ _
  · exact mem_write_page_with_nzcv pg c f va size val

theorem vreg_load_with_nzcv (vt : Nat) (va : u64) (bytes : Nat) :
    vreg_load pg (c.with_nzcv f) vt va bytes = (vreg_load pg c vt va bytes).with_nzcv f := by
  have hread (va : u64) := mem_read_with_nzcv pg c f va
  unfold vreg_load
  split
  · rw [mem_read128_eq, mem_read128_eq]
    refine Access.bind_with_nzcv f ?_ fun _ _ => rfl
    exact Access.bind_with_nzcv f (hread va 8) fun lo c =>
      Access.bind_with_nzcv f (mem_read_with_nzcv pg c f _ _) fun hi c => rfl
  · exact Access.bind_with_nzcv f (hread va bytes) fun _ _ => rfl

theorem vreg_store_with_nzcv (vt : Nat) (va : u64) (bytes : Nat) :
    vreg_store pg (c.with_nzcv f) vt va bytes = (vreg_store pg c vt va bytes).with_nzcv f := by
  unfold vreg_store
  split
  · rw [mem_write128_eq, mem_write128_eq]
    exact Access.bind_with_nzcv f (mem_write_with_nzcv pg c f _ _ _) fun _ c =>
      mem_write_with_nzcv pg c f _ _ _
  · exact mem_write_with_nzcv pg c f _ _ _

theorem mem_host_ptr_with_nzcv (need : Need) :
    mem_host_ptr pg (c.with_nzcv f) va size need =
      ((mem_host_ptr pg c va size need).1.with_nzcv f, (mem_host_ptr pg c va size need).2) := by
  unfold mem_host_ptr CPU.with_nzcv
  dsimp only
  split
  · rfl
  · split <;> rfl

@[simp] theorem reg_x_with_nzcv : reg_x (c.with_nzcv f) n = reg_x c n := rfl

@[simp] theorem reg_xsp_with_nzcv : reg_xsp (c.with_nzcv f) n = reg_xsp c n := rfl

theorem set_x_with_nzcv (v : u64) : set_x (c.with_nzcv f) n v = (set_x c n v).with_nzcv f := by
  unfold set_x
  split <;> rfl

theorem mem_read_x_with_nzcv (size Rt : Nat) :
    (match mem_read pg (c.with_nzcv f) va size with
      | .ok v c => set_x c Rt v
      | .fault c => c) =
      (match mem_read pg c va size with
      | .ok v c => set_x c Rt v
      | .fault c => c : CPU).with_nzcv f := by
  rw [mem_read_with_nzcv]
  cases mem_read pg c va size with
  | ok v c => exact set_x_with_nzcv c f Rt v
  | fault c => rfl

theorem ldst_atomic_with_nzcv (insn : u32) :
    ldst_atomic pg (c.with_nzcv f) insn = (ldst_atomic pg c insn).with_nzcv f := by
  unfold ldst_atomic
  dsimp only
  split
  · split
    · exact mem_read_x_with_nzcv pg c f _ _ _
    · rfl
  rw [reg_xsp_with_nzcv, reg_x_with_nzcv, mem_host_ptr_with_nzcv]
  split
  · rfl
  generalize mem_host_ptr pg c (reg_xsp c (BITS insn 9 5)) (2 ^ BITS insn 31 30) .w = r
  obtain ⟨d, p⟩ := r
  cases p with
  | some hp => exact set_x_with_nzcv (put_host d hp _ _) f _ _
  | none =>
    dsimp only
    rw [mem_host_ptr_with_nzcv]
    generalize mem_host_ptr pg d (reg_xsp c (BITS insn 9 5)) (2 ^ BITS insn 31 30) .r = r
    obtain ⟨d, p⟩ := r
    cases p <;> rfl

theorem ldst_cas_with_nzcv (insn : u32) :
    ldst_cas pg (c.with_nzcv f) insn = (ldst_cas pg c insn).with_nzcv f := by
  unfold ldst_cas
  dsimp only
  rw [reg_xsp_with_nzcv, mem_host_ptr_with_nzcv]
  split
  · rfl
  generalize mem_host_ptr pg c (reg_xsp c (BITS insn 9 5)) (2 ^ BITS insn 31 30) .w = r
  obtain ⟨d, p⟩ := r
  cases p with
  | none => rfl
  | some hp =>
    dsimp only
    rw [← set_x_with_nzcv, reg_x_with_nzcv, reg_x_with_nzcv, apply_ite (CPU.with_nzcv · f)]
    rfl

theorem ldst_ordered_with_nzcv (bytes Rt : Nat) (L : Bool) :
    ldst_ordered pg (c.with_nzcv f) va bytes Rt L = (ldst_ordered pg c va bytes Rt L).with_nzcv f := by
  unfold ldst_ordered
  rw [mem_host_ptr_with_nzcv]
  generalize mem_host_ptr pg c va bytes (if L then .r else .w) = r
  obtain ⟨d, p⟩ := r
  cases p with
  | some hp => cases L with
    | true => exact set_x_with_nzcv d f _ _
    | false => rfl
  | none => cases L with
    | true => exact mem_read_x_with_nzcv pg d f va bytes Rt
    | false =>
      refine (congrArg Access.cpu (mem_write_with_nzcv pg d f va bytes (reg_x d Rt))).trans ?_
      dsimp only
      cases mem_write pg d va bytes (reg_x d Rt) <;> rfl

theorem ldxr_with_nzcv (bytes Rt : Nat) :
    ldxr pg (c.with_nzcv f) va bytes Rt = (ldxr pg c va bytes Rt).with_nzcv f := by
  unfold ldxr
  rw [mem_read_with_nzcv]
  cases mem_read pg c va bytes with
  | fault c => rfl
  | ok v c =>
    dsimp only [Access.with_nzcv]
    rw [set_x_with_nzcv]
    rfl

theorem stx_done_with_nzcv (Rs : Nat) (res : u64) :
    stx_done (c.with_nzcv f) Rs res = (stx_done c Rs res).with_nzcv f := by
  unfold stx_done
  rw [set_x_with_nzcv]
  rfl

theorem mem_write_done_with_nzcv (va v : u64) (size Rs : Nat) :
    (match mem_write pg (c.with_nzcv f) va size v with
      | .ok _ c => stx_done c Rs 0#64
      | .fault c => c) =
      (match mem_write pg c va size v with
      | .ok _ c => stx_done c Rs 0#64
      | .fault c => c : CPU).with_nzcv f := by
  rw [mem_write_with_nzcv]
  cases mem_write pg c va size v with
  | ok u c => exact stx_done_with_nzcv c f Rs _
  | fault c => rfl

theorem stxr_with_nzcv (bytes Rs Rt : Nat) :
    stxr pg (c.with_nzcv f) va bytes Rs Rt = (stxr pg c va bytes Rs Rt).with_nzcv f := by
  have hmon : monitor_holds (c.with_nzcv f) va bytes = monitor_holds c va bytes := rfl
  unfold stxr
  rw [hmon, mem_host_ptr_with_nzcv]
  split
  · generalize mem_host_ptr pg c va bytes .w = r
    obtain ⟨d, p⟩ := r
    cases p with
    | some hp =>
      dsimp only
      rw [apply_ite (CPU.with_nzcv · f), ← stx_done_with_nzcv, ← stx_done_with_nzcv]
      rfl
    | none => exact mem_write_done_with_nzcv pg d f va _ bytes Rs
  · exact stx_done_with_nzcv c f Rs _

end accesses

theorem atomic_with_nzcv {pg : Pager} {insn : u32} {g : CPU → CPU} (h : AtomicForm pg insn g) (c : CPU) (f : u32) :
    g (c.with_nzcv f) = (g c).with_nzcv f := by
  cases h with
  | cas => exact ldst_cas_with_nzcv pg c f insn
  | ordered bytes Rn Rt L => exact ldst_ordered_with_nzcv pg c f _ bytes Rt L
  | ldxr bytes Rn Rt => exact ldxr_with_nzcv pg c f _ bytes Rt
  | stxr bytes Rn Rs Rt => exact stxr_with_nzcv pg c f _ bytes Rs Rt
  | lse => exact ldst_atomic_with_nzcv pg c f insn

/-- Whether an operation defines the flags: the helper call runs a whole instruction. -/
def IROp.defines (o : IROp) : Bool :=
  match o.op with
  | .IRO_CALL1 => true
  | _ => op_writes_flags o

/-- The flags after an operation that ends in `r`: `f` from before it where it defines none or is marked dead. -/
def flags_after (o : IROp) (f : u32) (r : IRResult) : u32 := if o.defines && !o.flags_dead then r.nzcv else f

theorem IRResult.with_nzcv_self (r : IRResult) : r.with_nzcv r.nzcv = r := by
  cases r <;> rfl

section step

variable (env : IREnv) (k : Nat) (s : IRState) (o : IROp) (live : Bool) (f : u32)

theorem vset_with_nzcv (r : Nat) (v : u64) : vset (s.with_nzcv f) r v = (vset s r v).with_nzcv f := by
  unfold vset
  split_ifs <;> rfl

theorem vset_nzcv (r : Nat) (v : u64) : (vset s r v).c.nzcv = s.c.nzcv := by
  unfold vset
  split_ifs <;> rfl

theorem cpu_st64_with_nzcv (c : CPU) (off v : u64) :
    cpu_st64 (c.with_nzcv f) off v = (cpu_st64 c off v).with_nzcv f := by
  unfold cpu_st64
  split_ifs <;> rfl

theorem ir_branch_with_nzcv (taken : Bool) {d : Bool} :
    ir_branch (s.with_nzcv f) { o with flags_dead := d } taken = (ir_branch s o taken).with_nzcv f := by
  cases taken <;> rfl

theorem ir_access_with_nzcv {α : Type} (r : CPU → Access α) (g : α → IRState → IRState) {d : Bool}
    (hr : ∀ c, r (c.with_nzcv f) = (r c).with_nzcv f) (hg : ∀ a s, g a (s.with_nzcv f) = (g a s).with_nzcv f) :
    ir_access (s.with_nzcv f) { o with flags_dead := d } r g = (ir_access s o r g).with_nzcv f := by
  unfold ir_access
  rw [show ({ (s.with_nzcv f).c with cur_insn_pc := o.imm2pc } : CPU) =
    CPU.with_nzcv { s.c with cur_insn_pc := o.imm2pc } f from rfl, hr]
  cases r { s.c with cur_insn_pc := o.imm2pc } with
  | ok a c => exact congrArg IRResult.next (hg a { s with c := c })
  | fault c => rfl

def ir_atomic_end (c : CPU) (icnt : Nat) : IRResult :=
  if c.pend_exc.valid || env.event k then .leave (c.retire 1) icnt else .next { s with c := c.retire 1 }

theorem ir_atomic_end_with_nzcv (c : CPU) (icnt : Nat) :
    ir_atomic_end env k (s.with_nzcv f) (c.with_nzcv f) icnt = (ir_atomic_end env k s c icnt).with_nzcv f := by
  have hsame : (c.with_nzcv f).pend_exc = c.pend_exc := rfl
  unfold ir_atomic_end
  rw [hsame]
  split <;> rfl

theorem ir_value_nzcv (h : op_reads_flags o = false) (a b acc : u64) (n n' : u32) :
    ir_value o a b acc n = ir_value o a b acc n' := by
  unfold op_reads_flags at h
  unfold ir_value
  cases hop : o.op <;> simp only [hop] at h ⊢ <;> cases h

theorem ir_flags_nzcv (h : op_reads_flags o = false) (a b : u64) (n n' : u32) :
    ir_flags o a b n = ir_flags o a b n' := by
  unfold op_reads_flags at h
  unfold ir_flags
  cases hop : o.op <;> simp only [hop] at h ⊢ <;> cases h

theorem ir_flags_isSome (h : o.op.is_alu = true) (a b : u64) (n : u32) : (ir_flags o a b n).isSome = o.defines := by
  unfold IROp.defines op_writes_flags ir_flags
  cases hop : o.op <;> rw [hop] at h <;> first | rfl | cases h

variable {o f} {d : Bool}

theorem put_flags_with_nzcv (hkept : o.flags_dead = false) (fl : Option u32) :
    put_flags (s.with_nzcv f) { o with flags_dead := d } fl =
      (put_flags s o fl).with_nzcv (if fl.isSome && !d then (put_flags s o fl).c.nzcv else f) := by
  cases fl with
  | none => rfl
  | some n =>
    simp only [put_flags, hkept]
    cases d <;> rfl

variable (hkept : o.flags_dead = false) (hf : op_reads_flags o = true → f = s.c.nzcv)

include hkept hf

theorem ir_alu_marked (hop : o.op.is_alu = true) :
    IRResult.next (ir_alu (s.with_nzcv f) { o with flags_dead := d }) =
      (IRResult.next (ir_alu s o)).with_nzcv (flags_after { o with flags_dead := d } f (.next (ir_alu s o))) := by
  have hvalue (a b acc : u64) : ir_value { o with flags_dead := d } a b acc f = ir_value o a b acc s.c.nzcv := by
    cases hr : op_reads_flags o with
    | true => rw [hf hr]; rfl
    | false => exact ir_value_nzcv o hr a b acc f s.c.nzcv
  have hflags (a b : u64) : ir_flags { o with flags_dead := d } a b f = ir_flags o a b s.c.nzcv := by
    cases hr : op_reads_flags o with
    | true => rw [hf hr]; rfl
    | false => exact ir_flags_nzcv o hr a b f s.c.nzcv
  have hput := put_flags_with_nzcv s (f := f) (d := d) hkept (ir_flags o (vget s o.a) (vget s o.b) s.c.nzcv)
  rw [ir_flags_isSome o hop] at hput
  have hnzcv : (ir_alu s o).c.nzcv = (put_flags s o (ir_flags o (vget s o.a) (vget s o.b) s.c.nzcv)).c.nzcv :=
    vset_nzcv _ _ _
  refine congrArg IRResult.next ?_
  unfold flags_after
  rw [show (IRResult.next (ir_alu s o)).nzcv = _ from hnzcv]
  unfold ir_alu
  rw [← vset_with_nzcv]
  exact congrArg₂ (fun s v => vset s o.dst (at_width o.w v)) ((congrArg _ (hflags _ _)).trans hput) (hvalue _ _ _)

theorem ir_vop_marked (hop : o.op = .IRO_VOP) :
    ir_step env k (s.with_nzcv f) { o with flags_dead := d } =
      (ir_step env k s o).with_nzcv (flags_after { o with flags_dead := d } f (ir_step env k s o)) := by
  have hdefines : ({ o with flags_dead := d } : IROp).defines = o.aux.getLsbD VF_SETF := by
    unfold IROp.defines op_writes_flags
    simp only [hop]
  have hin : (if o.aux.getLsbD VF_READF = true then (s.with_nzcv f).c
      else { (s.with_nzcv f).c with nzcv := 0#32 }) =
      if o.aux.getLsbD VF_READF = true then s.c else { s.c with nzcv := 0#32 } := by
    cases hr : o.aux.getLsbD VF_READF with
    | true =>
      rw [if_pos rfl, if_pos rfl, hf (by rw [op_reads_flags, hop]; exact hr)]
      rfl
    | false => rfl
  rw [flags_after, hdefines]
  unfold ir_step ir_vop
  simp only [hop, hin, hkept]
  cases o.aux.getLsbD VF_SETF with
  | true => cases d <;> simp [IRResult.with_nzcv, IRResult.nzcv, CPU.with_nzcv, IRState.with_nzcv]
  | false => cases env.event k <;> rfl

/-- A step with the operation marked or not, from flags that may be stale unless it needs them: only the flags
after it may differ. -/
theorem ir_step_marked (hd : d = true → o.op ≠ .IRO_CALL1 ∧ o.op.is_ccmp = false)
    (hcall : o.op = .IRO_CALL1 → f = s.c.nzcv)
    (hat : o.op = .IRO_ATOMIC → ∀ (c : CPU) (f : u32), exec_a64 env.toEnv (c.with_nzcv f) (o.imm.setWidth 32) =
      (exec_a64 env.toEnv c (o.imm.setWidth 32)).with_nzcv f) :
    ir_step env k (s.with_nzcv f) { o with flags_dead := d } =
      (ir_step env k s o).with_nzcv (flags_after { o with flags_dead := d } f (ir_step env k s o)) := by
  -- an operation that is not marked runs the same from the flags it needs
  have hsame (hnd : d = false) (hnzcv : f = s.c.nzcv) : ir_step env k (s.with_nzcv f) { o with flags_dead := d } =
      ir_step env k s o := by
    rw [hnzcv, hnd, ← hkept]
    rfl
  obtain ⟨op, w, dst, a, b, cc, imm, aux, imm2pc, dead, icnt⟩ := o
  cases op
  case IRO_NOP | IRO_FENCE | IRO_JMP | IRO_JMPIND => rfl
  case IRO_CBZ | IRO_CBNZ | IRO_TBZ | IRO_TBNZ => exact ir_branch_with_nzcv s _ f _
  case IRO_CPULD => exact congrArg IRResult.next (vset_with_nzcv s f _ _)
  case IRO_CPUST => exact congrArg (fun c => IRResult.next { s with c := c }) (cpu_st64_with_nzcv f s.c _ _)
  case IRO_LD =>
    exact ir_access_with_nzcv s _ f (mem_read env.toPager · (vget s a + imm) (2 ^ cc))
      (fun v s => vset s dst (at_width w (if MDESC_SIGN aux then sign_extend v (8 * 2 ^ cc) else v)))
      (fun c => mem_read_with_nzcv _ c f _ _) fun _ s => vset_with_nzcv s f _ _
  case IRO_ST =>
    exact ir_access_with_nzcv s _ f (mem_write env.toPager · (vget s a + imm) (2 ^ cc) (vget s b)) (fun _ s => s)
      (fun c => mem_write_with_nzcv _ c f _ _ _) fun _ _ => rfl
  case IRO_LDV =>
    exact ir_access_with_nzcv s _ f (vreg_load env.toPager · (MDESC_RT aux) (vget s a + imm) (2 ^ cc)) (fun _ s => s)
      (fun c => vreg_load_with_nzcv _ c f _ _ _) fun _ _ => rfl
  case IRO_STV =>
    exact ir_access_with_nzcv s _ f (vreg_store env.toPager · (MDESC_RT aux) (vget s a + imm) (2 ^ cc)) (fun _ s => s)
      (fun c => vreg_store_with_nzcv _ c f _ _ _) fun _ _ => rfl
  case IRO_BCOND =>
    obtain rfl := hf rfl
    exact ir_branch_with_nzcv s _ _ _
  case IRO_ATOMIC =>
    have hexec := congrArg (ir_atomic_end env k (s.with_nzcv f) · icnt) (hat rfl (at_insn s.c imm2pc) f)
    exact hexec.trans (ir_atomic_end_with_nzcv env k s f _ icnt)
  case IRO_VOP => exact ir_vop_marked env k s hkept hf rfl
  case IRO_CALL1 =>
    cases d with
    | true => exact absurd rfl (hd rfl).1
    | false => exact (hsame rfl (hcall rfl)).trans (IRResult.with_nzcv_self _).symm
  case IRO_CCMPR | IRO_CCMNR | IRO_CCMPI | IRO_CCMNI =>
    cases d with
    | true => cases (hd rfl).2
    | false => exact (hsame rfl (hf rfl)).trans (IRResult.with_nzcv_self _).symm
  all_goals exact ir_alu_marked s hkept hf rfl

end step

end arm64emu
