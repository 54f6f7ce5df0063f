import Arm64Emu.Jit.FeGeneric

namespace arm64emu

/-- The instruction raised an exception, or control goes on to the next one. -/
def CPU.Through (c c' : CPU) : Prop :=
  c'.pend_exc.valid = true ∨ (c'.pc = c.pc ∧ c'.pend_exc = c.pend_exc)

section through

variable (pg : Pager) (c : CPU) (va : u64)

theorem CPU.Through.raise {c' : CPU} (esr far : u64) : c.Through (cpu_raise_sync c' esr far) := .inl rfl

theorem CPU.Through.set_x {c c' : CPU} (h : c.Through c') (n : Nat) (v : u64) :
    c.Through (set_x c' n v) := by
  unfold arm64emu.set_x
  split <;> exact h

theorem Access.Plain.through {α : Type} {c : CPU} {r : Access α} (h : r.Plain c) : c.Through r.cpu := by
  cases r with
  | ok a d =>
    obtain ⟨m, rfl⟩ := h
    exact .inr ⟨rfl, rfl⟩
  | fault d =>
    obtain ⟨m, esr, far, rfl⟩ := h
    exact .raise _ esr far

theorem mem_host_ptr_mem (size : Nat) (need : Need) :
    ∃ m p, mem_host_ptr pg c va size need = ({ c with mem := m }, p) := by
  unfold mem_host_ptr
  split
  · exact ⟨c.mem, none, rfl⟩
  cases translate pg c.mem va need with
  | mk m r =>
    cases r with
    | error perm => exact ⟨m, none, rfl⟩
    | ok p => exact ⟨m, some p, rfl⟩

theorem mem_read_through (size Rt : Nat) :
    c.Through (match mem_read pg c va size with
      | .ok v c => set_x c Rt v
      | .fault c => c) := by
  have hplain := (mem_read_plain pg c va size).through
  cases hread : mem_read pg c va size with
  | ok v d =>
    rw [hread] at hplain
    exact CPU.Through.set_x hplain Rt v
  | fault d =>
    rw [hread] at hplain
    exact hplain

theorem ldst_atomic_through (insn : u32) : c.Through (ldst_atomic pg c insn) := by
  unfold ldst_atomic
  dsimp only
  split
  · split
    · exact mem_read_through pg c _ _ _
    · exact .raise c _ _
  split
  · exact .raise c _ _
  obtain ⟨m, p, hptr⟩ := mem_host_ptr_mem pg c (reg_xsp c (BITS insn 9 5)) (2 ^ BITS insn 31 30) .w
  rw [hptr]
  cases p with
  | some hp => exact CPU.Through.set_x (.inr ⟨rfl, rfl⟩) _ _
  | none =>
    dsimp only
    split <;> exact .raise c _ _

theorem ldst_cas_through (insn : u32) : c.Through (ldst_cas pg c insn) := by
  unfold ldst_cas
  dsimp only
  split
  · exact .raise c _ _
  obtain ⟨m, p, hptr⟩ := mem_host_ptr_mem pg c (reg_xsp c (BITS insn 9 5)) (2 ^ BITS insn 31 30) .w
  rw [hptr]
  cases p with
  | none => exact .raise c _ _
  | some hp =>
    dsimp only
    refine CPU.Through.set_x ?_ _ _
    split <;> exact .inr ⟨rfl, rfl⟩

theorem ldst_ordered_through (bytes Rt : Nat) (L : Bool) : c.Through (ldst_ordered pg c va bytes Rt L) := by
  unfold ldst_ordered
  obtain ⟨m, p, hptr⟩ := mem_host_ptr_mem pg c va bytes (if L then .r else .w)
  rw [hptr]
  cases p with
  | some hp => cases L with
    | true => exact CPU.Through.set_x (.inr ⟨rfl, rfl⟩) _ _
    | false => exact .inr ⟨rfl, rfl⟩
  | none => cases L with
    | true => exact mem_read_through pg { c with mem := m } va bytes Rt
    | false => exact (mem_write_plain pg { c with mem := m } va bytes _).through

theorem ldxr_through (bytes Rt : Nat) : c.Through (ldxr pg c va bytes Rt) := by
  have h := mem_read_through pg c va bytes Rt
  unfold ldxr
  cases hread : mem_read pg c va bytes with
  | fault d | ok v d =>
    rw [hread] at h
    exact h

theorem stx_done_through {c c' : CPU} (h : c.Through c') (Rs : Nat) (res : u64) :
    c.Through (stx_done c' Rs res) := CPU.Through.set_x h Rs res

theorem mem_write_done_through (va v : u64) (size Rs : Nat) :
    c.Through (match mem_write pg c va size v with
      | .ok _ c => stx_done c Rs 0#64
      | .fault c => c) := by
  have hplain := (mem_write_plain pg c va size v).through
  cases hw : mem_write pg c va size v with
  | ok u d =>
    rw [hw] at hplain
    exact stx_done_through hplain _ _
  | fault d =>
    rw [hw] at hplain
    exact hplain

theorem stxr_through (bytes Rs Rt : Nat) : c.Through (stxr pg c va bytes Rs Rt) := by
  have hself : c.Through c := .inr ⟨rfl, rfl⟩
  unfold stxr
  split
  · obtain ⟨m, p, hptr⟩ := mem_host_ptr_mem pg c va bytes .w
    rw [hptr]
    cases p with
    | some hp =>
      dsimp only
      split <;> exact stx_done_through (.inr ⟨rfl, rfl⟩) _ _
    | none => exact mem_write_done_through pg { c with mem := m } va _ bytes Rs
  · exact stx_done_through hself _ _

end through

/-- The instructions inlined as atomics, by the decoder's own functions. -/
inductive AtomicForm (pg : Pager) (insn : u32) : (CPU → CPU) → Prop where
  | cas : AtomicForm pg insn (ldst_cas pg · insn)
  | ordered (bytes Rn Rt : Nat) (L : Bool) :
    AtomicForm pg insn fun c => ldst_ordered pg c (reg_xsp c Rn) bytes Rt L
  | ldxr (bytes Rn Rt : Nat) : AtomicForm pg insn fun c => ldxr pg c (reg_xsp c Rn) bytes Rt
  | stxr (bytes Rn Rs Rt : Nat) : AtomicForm pg insn fun c => stxr pg c (reg_xsp c Rn) bytes Rs Rt
  | lse : AtomicForm pg insn (ldst_atomic pg · insn)

theorem fe_atomic_form (env : Env) {n : Nat} {insn : u32} {pc : u64} {o : IROp}
    (h : fe_atomic n insn pc = some o) : AtomicForm env.toPager insn (exec_a64 env · insn) := by
  unfold fe_atomic at h
  dsimp only at h
  by_cases h1 : insn &&& 0x3F000000#32 = 0x08000000#32
  · rw [if_pos h1] at h
    have h2927 : BITS insn 29 27 = 1 := BITS_of_mask h1 (by decide) (by decide)
    have h2624 : BITS insn 26 24 = 0 := BITS_of_mask h1 (by decide) (by decide)
    have hdec (c : CPU) : exec_a64 env c insn = ldst_exclusive env.toPager c insn := by
      rw [exec_a64_ldst _ _ (BIT_of_mask h1 (by decide)) (BIT_of_mask h1 (by decide)), loads_stores, h2927, h2624,
        if_neg (by decide), if_neg (by decide), if_neg (by omega), if_pos ⟨rfl, rfl⟩]
    simp only [hdec, ldst_exclusive]
    cases h23 : BIT insn 23 <;> cases h21 : BIT insn 21 <;> simp only [h23, h21] at h ⊢
    · cases h22 : BIT insn 22
      · exact .stxr _ _ _ _
      · exact .ldxr _ _ _
    · cases h
    · exact .ordered _ _ _ _
    · exact .cas
  rw [if_neg h1] at h
  by_cases h2 : insn &&& 0x3F200C00#32 = 0x38200000#32
  swap
  · rw [if_neg h2] at h
    cases h
  have h2927 : BITS insn 29 27 = 7 := BITS_of_mask h2 (by decide) (by decide)
  have h24 : BIT insn 24 = false := BIT_of_mask h2 (by decide)
  have h21 : BIT insn 21 = true := BIT_of_mask h2 (by decide)
  have h26 : BIT insn 26 = false := BIT_of_mask h2 (by decide)
  have h1110 : BITS insn 11 10 = 0 := BITS_of_mask h2 (by decide) (by decide)
  have hdec (c : CPU) : exec_a64 env c insn = ldst_atomic env.toPager c insn := by
    rw [exec_a64_ldst _ _ (BIT_of_mask h2 (by decide)) (BIT_of_mask h2 (by decide)), loads_stores, h2927,
      if_pos rfl, ldst_register, h24, h21, h26, h1110]
    simp
  simp only [hdec]
  exact .lse

theorem atomic_through {pg : Pager} {insn : u32} {f : CPU → CPU} (h : AtomicForm pg insn f) (c : CPU) :
    c.Through (f c) := by
  cases h with
  | cas => exact ldst_cas_through pg c insn
  | ordered bytes Rn Rt L => exact ldst_ordered_through pg c _ bytes Rt L
  | ldxr bytes Rn Rt => exact ldxr_through pg c _ bytes Rt
  | stxr bytes Rn Rs Rt => exact stxr_through pg c _ bytes Rs Rt
  | lse => exact ldst_atomic_through pg c insn

end arm64emu
