import Arm64Emu.Predecode.Equiv

namespace arm64emu

/-- What an abandoned instruction has left: the general registers and the stack pointers as they were, and the vector
registers `v`. -/
structure Uncommitted (c c' : CPU) (v : Nat → V128) : Prop where
  x : c'.x = c.x
  sp_el : c'.sp_el = c.sp_el
  v : c'.v = v

/-- A faulting instruction that leaves the vector registers `v`, and a completed one that records no exception. -/
def Access.Abandons (c : CPU) (v : Nat → V128) : Access Unit → Prop
  | .ok _ c' => c'.pend_exc = c.pend_exc
  | .fault c' => Uncommitted c c' v

/-- The instruction recorded nothing, or it was abandoned. -/
def CommitsOnSuccess (c c' : CPU) (v : Nat → V128) : Prop := c'.pend_exc = c.pend_exc ∨ Uncommitted c c' v

theorem set_x_pend_exc (c : CPU) (n : Nat) (v : u64) : (set_x c n v).pend_exc = c.pend_exc := by
  unfold set_x
  split <;> rfl

theorem set_xsp_pend_exc (c : CPU) (n : Nat) (v : u64) : (set_xsp c n v).pend_exc = c.pend_exc := by
  unfold set_xsp
  split <;> rfl

section frame

variable {c : CPU} {v : Nat → V128} {r : Access Unit}

theorem undefined_commits : CommitsOnSuccess c (undefined c) c.v := .inr ⟨rfl, rfl, rfl⟩

theorem Access.Abandons.writeback (hr : r.Abandons c v) (rn : Nat) (wb : Option u64) :
    CommitsOnSuccess c (r.writeback rn wb) v := by
  cases r with
  | fault d => exact .inr hr
  | ok a d =>
    refine .inl (Eq.trans ?_ hr)
    cases wb with
    | none => rfl
    | some v => exact set_xsp_pend_exc d rn v

theorem Access.Abandons.cpu (hr : r.Abandons c v) : CommitsOnSuccess c r.cpu v := by
  rw [← Access.writeback_none r 0]
  exact hr.writeback 0 none

theorem Access.Plain.abandons {α : Type} {r : Access α} (hr : r.Plain c) {f : α → CPU → Access Unit}
    (hf : ∀ a m, (f a { c with mem := m }).Abandons c c.v) : (r.bind f).Abandons c c.v := by
  cases r with
  | fault d =>
    obtain ⟨m, esr, far, rfl⟩ := hr
    exact ⟨rfl, rfl, rfl⟩
  | ok a d =>
    obtain ⟨m, rfl⟩ := hr
    exact hf a m

theorem Access.Plain.abandons_self (hr : r.Plain c) : r.Abandons c c.v := by
  cases r with
  | fault d =>
    obtain ⟨m, esr, far, rfl⟩ := hr
    exact ⟨rfl, rfl, rfl⟩
  | ok a d =>
    obtain ⟨m, rfl⟩ := hr
    rfl

/-- Memory apart, `c` is the state to compare with. -/
theorem Access.Abandons.of_mem {m : Mem} (hr : r.Abandons { c with mem := m } v) : r.Abandons c v := by
  cases r with
  | ok a d => exact hr
  | fault d => exact ⟨hr.x, hr.sp_el, hr.v⟩

end frame

section accesses

variable (pg : Pager) (c : CPU)

theorem do_load_abandons (Rt : Nat) (va : u64) (size opc : Nat) :
    (do_load pg c Rt va size opc).Abandons c c.v := by
  unfold do_load
  split
  · rfl
  · exact (mem_read_plain pg c va _).abandons fun v m => set_x_pend_exc _ _ _

/-- A vector load writes its register and nothing else, and not even that when it faults. -/
theorem vreg_load_frame (Vt : Nat) (va : u64) (bytes : Nat) :
    match vreg_load pg c Vt va bytes with
    | .ok _ d => d.x = c.x ∧ d.sp_el = c.sp_el ∧ d.pend_exc = c.pend_exc
    | .fault d => Uncommitted c d c.v := by
  have hbind {α : Type} {r : Access α} (hr : r.Plain c) (f : α → V128) :
      match r.bind fun a c => .ok () (set_v c Vt (f a)) with
      | .ok _ d => d.x = c.x ∧ d.sp_el = c.sp_el ∧ d.pend_exc = c.pend_exc
      | .fault d => Uncommitted c d c.v := by
    cases r with
    | ok a d =>
      obtain ⟨m, rfl⟩ := hr
      exact ⟨rfl, rfl, rfl⟩
    | fault d =>
      obtain ⟨m, esr, far, rfl⟩ := hr
      exact ⟨rfl, rfl, rfl⟩
  unfold vreg_load
  by_cases h16 : bytes = 16
  · rw [if_pos h16]
    exact hbind (mem_read128_plain pg c va) id
  · rw [if_neg h16]
    exact hbind (mem_read_plain pg c va bytes) (V128.ofD · 0#64)

theorem vreg_load_abandons (Vt : Nat) (va : u64) (bytes : Nat) :
    (vreg_load pg c Vt va bytes).Abandons c c.v := by
  have hload := vreg_load_frame pg c Vt va bytes
  cases h : vreg_load pg c Vt va bytes <;> rw [h] at hload
  case ok => exact hload.2.2
  case fault => exact hload

theorem vreg_store_plain (Vt : Nat) (va : u64) (bytes : Nat) : (vreg_store pg c Vt va bytes).Plain c := by
  unfold vreg_store
  split
  · exact mem_write128_plain pg c va _
  · exact mem_write_plain pg c va bytes _

/-- The vector registers after a load of one of them. -/
def loaded_v (c : CPU) : Access Unit → Nat → V128
  | .ok _ d => d.v
  | .fault _ => c.v

/-- A pair of loads into general registers commits neither when one faults; of a pair of vector loads the first is in
place where it did not fault itself. -/
theorem ldst_pair_access_abandons (V L word : Bool) (Rt Rt2 : Nat) (addr : u64) (esz : Nat) :
    (ldst_pair_access pg c V L word Rt Rt2 addr esz).Abandons c
      (if V && L then loaded_v c (vreg_load pg c Rt addr esz) else c.v) := by
  unfold ldst_pair_access
  cases V with
  | true =>
    cases L with
    | true =>
      have hfirst := vreg_load_frame pg c Rt addr esz
      simp only [Bool.and_self, if_true]
      cases h : vreg_load pg c Rt addr esz <;> rw [h] at hfirst
      case fault d => exact hfirst
      case ok u d =>
      obtain ⟨hx, hsp, hexc⟩ := hfirst
      have hsecond := vreg_load_frame pg d Rt2 (addr + BitVec.ofNat 64 esz) esz
      dsimp only [Access.bind]
      cases h' : vreg_load pg d Rt2 (addr + BitVec.ofNat 64 esz) esz <;> rw [h'] at hsecond
      case ok => exact hsecond.2.2.trans hexc
      case fault => exact ⟨hsecond.x.trans hx, hsecond.sp_el.trans hsp, hsecond.v⟩
    | false =>
      simp only [Bool.and_false, if_true, Bool.false_eq_true, if_false]
      exact ((vreg_store_plain pg c Rt addr esz).bind fun _ c =>
        vreg_store_plain pg c Rt2 _ esz).abandons_self
  | false =>
    cases L with
    | true =>
      simp only [Bool.false_and, Bool.false_eq_true, if_false, if_true]
      split
      · refine (mem_read128_plain pg c addr).abandons fun v m => ?_
        exact (set_x_pend_exc _ _ _).trans (set_x_pend_exc _ _ _)
      refine (mem_read_plain pg c addr esz).abandons fun a m => ?_
      refine Access.Abandons.of_mem (m := m) ((mem_read_plain pg _ _ esz).abandons fun b m' => ?_)
      split
      · exact (set_x_pend_exc _ _ _).trans (set_x_pend_exc _ _ _)
      · exact (set_x_pend_exc _ _ _).trans (set_x_pend_exc _ _ _)
    | false =>
      simp only [Bool.and_self, Bool.false_eq_true, if_false]
      split
      · exact (mem_write128_plain pg c addr _).abandons_self
      · exact ((mem_write_plain pg c addr esz _).bind fun _ c => mem_write_plain pg c _ esz _).abandons_self

end accesses

section instructions

variable (pg : Pager) (c : CPU) (insn : u32)

theorem ldst_access_commits (va : u64) (wb : Option u64) :
    CommitsOnSuccess c (ldst_access pg c insn va wb) c.v := by
  unfold ldst_access
  dsimp only
  split
  · split
    · exact (vreg_load_abandons pg c _ _ _).writeback _ wb
    · exact (vreg_store_plain pg c _ _ _).abandons_self.writeback _ wb
  split
  · exact undefined_commits
  split
  · exact (mem_write_plain pg c _ _ _).abandons_self.writeback _ wb
  · exact (do_load_abandons pg c _ _ _ _).writeback _ wb

/-- The atomics, which `fill_ldst` leaves to the decoder. -/
def IsAtomic (insn : u32) : Prop :=
  BIT insn 24 = false ∧ BIT insn 21 = true ∧ BITS insn 11 10 = 0 ∧ BIT insn 26 = false

theorem ldst_register_commits (hatomic : ¬ IsAtomic insn) :
    CommitsOnSuccess c (ldst_register pg c insn) c.v := by
  unfold ldst_register
  dsimp only
  split
  · exact undefined_commits
  split
  · exact ldst_access_commits pg c insn _ _
  rename_i h24
  split
  next h21 =>
    rw [if_neg (fun h => hatomic ⟨by simpa using h24, h21, h.1, h.2⟩)]
    split
    · exact undefined_commits
    · exact ldst_access_commits pg c insn _ _
  split
  · split
    · exact undefined_commits
    · exact ldst_access_commits pg c insn _ _
  split
  · exact ldst_access_commits pg c insn _ _
  · exact ldst_access_commits pg c insn _ _

/-- The vector registers an abandoned word leaves: of a pair of vector loads the first is in place, unless it is the
one that faulted. -/
def abandoned_v (pg : Pager) (c : CPU) (insn : u32) : Nat → V128 :=
  let scale := BITS insn 31 30 + 2
  let base := reg_xsp c (BITS insn 9 5)
  let addr := if BITS insn 25 23 = 1 then base else base + imm7 insn <<< scale
  if BITS insn 29 27 = 5 ∧ BITS insn 31 30 ≠ 3 ∧ BITS insn 25 23 ≤ 3 ∧ (BIT insn 26 && BIT insn 22) = true then
    loaded_v c (vreg_load pg c (BITS insn 4 0) addr (2 ^ scale))
  else c.v

theorem ldst_pair_commits (hpair : BITS insn 29 27 = 5) :
    CommitsOnSuccess c (ldst_pair pg c insn) (abandoned_v pg c insn) := by
  unfold ldst_pair abandoned_v
  dsimp only
  split
  next hopc =>
    rw [if_neg fun h => h.2.1 hopc]
    exact undefined_commits
  next hopc =>
  have haccess (addr : u64) (wb : Option u64) := (ldst_pair_access_abandons pg c (BIT insn 26) (BIT insn 22)
    (!BIT insn 26 && BITS insn 31 30 == 1) (BITS insn 4 0) (BITS insn 14 10) addr
    (2 ^ if BIT insn 26 = true then BITS insn 31 30 + 2 else if BITS insn 31 30 = 2 then 3 else 2)).writeback
      (BITS insn 9 5) wb
  cases hVL : BIT insn 26 && BIT insn 22 with
  | false =>
    simp only [hVL, Bool.false_eq_true, if_false, and_false] at haccess ⊢
    split <;> first | exact haccess _ _ | exact undefined_commits
  | true =>
    obtain ⟨hV, hL⟩ := Bool.and_eq_true_iff.1 hVL
    simp only [hV, hL, Bool.and_self, if_true] at haccess ⊢
    split
    next h => simpa [hpair, hopc, h] using haccess _ _
    next h => simpa [hpair, hopc, h] using haccess _ _
    next h => simpa [hpair, hopc, h] using haccess _ _
    next h => simpa [hpair, hopc, h] using haccess _ _
    next h0 h1 h2 h3 =>
      rw [if_neg]
      · exact undefined_commits
      rintro ⟨-, -, hmode, -⟩
      obtain h | h | h | h := lt_four (Nat.lt_succ_of_le hmode)
      exacts [h0 h, h1 h, h2 h, h3 h]

theorem ldst_literal_commits : CommitsOnSuccess c (ldst_literal pg c insn) c.v := by
  unfold ldst_literal
  dsimp only
  split
  · split
    · exact undefined_commits
    · exact (vreg_load_abandons pg c _ _ _).cpu
  have hload (size : Nat) (va : u64) (f : u64 → u64) :
      ((mem_read pg c va size).bind fun raw c => .ok () (set_x c (BITS insn 4 0) (f raw))).Abandons c c.v :=
    (mem_read_plain pg c va size).abandons fun raw m => set_x_pend_exc _ _ _
  split
  · exact (hload 4 _ trunc32).cpu
  · exact (hload 8 _ id).cpu
  · exact (hload 4 _ fun raw => sign_extend raw 32).cpu
  · exact .inl rfl

end instructions

theorem fill_ldst_covered {insn : u32} (hcov : (fill_ldst (pd_generic insn) insn).op ≠ .PD_GENERIC) :
    (BITS insn 29 27 = 3 ∧ BITS insn 25 24 = 0) ∨ BITS insn 29 27 = 5 ∨
      (BITS insn 29 27 = 7 ∧ ¬ IsAtomic insn) := by
  unfold fill_ldst at hcov
  by_cases hlit : BITS insn 29 27 = 0x3 ∧ BITS insn 25 24 = 0
  · exact .inl hlit
  rw [if_neg hlit] at hcov
  by_cases hpair : BITS insn 29 27 = 0x5
  · exact .inr (.inl hpair)
  rw [if_neg hpair] at hcov
  by_cases hreg : BITS insn 29 27 = 0x7
  · rw [if_pos hreg] at hcov
    refine .inr (.inr ⟨hreg, fun ⟨h24, h21, h0, hV⟩ => hcov ?_⟩)
    simp [fill_register, h24, h21, h0, hV, pd_generic]
  · rw [if_neg hreg] at hcov
    exact absurd rfl hcov

def IsLdSt (insn : u32) : Prop := BITS insn 28 25 ∈ [0x4, 0x6, 0xc, 0xe]

instance (insn : u32) : Decidable (IsLdSt insn) := inferInstanceAs (Decidable (_ ∈ _))

theorem ldst_class {insn : u32} (hclass : IsLdSt insn) (env : Env) (c : CPU) :
    pd_fill insn = fill_ldst (pd_generic insn) insn ∧ exec_a64 env c insn = loads_stores env.toPager c insn := by
  simp only [IsLdSt, List.mem_cons, List.not_mem_nil, or_false] at hclass
  obtain h | h | h | h := hclass <;> simp only [pd_fill, exec_a64, h, and_self]

theorem exec_ldst_commits (env : Env) (c : CPU) {insn : u32} (hclass : IsLdSt insn)
    (hcov : (pd_fill insn).op ≠ .PD_GENERIC) :
    CommitsOnSuccess c (exec_a64 env c insn) (abandoned_v env.toPager c insn) := by
  obtain ⟨hfill, hexec⟩ := ldst_class hclass env c
  rw [hfill] at hcov
  rw [hexec]
  unfold loads_stores
  obtain ⟨hlit, hlit'⟩ | hpair | ⟨hreg, hatomic⟩ := fill_ldst_covered hcov
  · simp only [hlit, hlit', abandoned_v, Nat.reduceEqDiff, if_false, and_self, false_and, if_true]
    exact ldst_literal_commits env.toPager c insn
  · simp only [hpair, Nat.reduceEqDiff, if_false, if_true]
    exact ldst_pair_commits env.toPager c insn hpair
  · simp only [hreg, abandoned_v, Nat.reduceEqDiff, false_and, if_false, if_true]
    exact ldst_register_commits env.toPager c insn hatomic

/-- For every word `fill_ldst` recognises the handlers are `exec_a64`. An access that records a fault writes back no
base and no general register; of the vector registers it leaves the first of a pair of loads in place exactly if the
second is the one that faulted. -/
theorem predecode_ldst (env : Env) (c : CPU) (insn : u32) (hclass : IsLdSt insn)
    (hcov : (pd_fill insn).op ≠ .PD_GENERIC) :
    pd_exec env c (pd_fill insn) insn = exec_a64 env c insn ∧
      ((exec_a64 env c insn).pend_exc ≠ c.pend_exc →
        Uncommitted c (exec_a64 env c insn) (abandoned_v env.toPager c insn)) :=
  ⟨pd_exec_fill env c insn, (exec_ldst_commits env c hclass hcov).resolve_left⟩

/-- A memory whose first page is mapped and full of ones, with nothing after it. -/
def one_page : Mem :=
  ⟨fun p => if p = 0 then some ⟨0, true, true, false⟩ else none, fun _ => 0xff#8, fun _ => false⟩

/-- A CPU whose X0 points at the last `n` bytes of that page. -/
def at_page_end (n : Nat) : CPU :=
  set_x (cpu_reset core_env one_page 0x1000#64 0) 0 (BitVec.ofNat 64 (4096 - n))

/-- LDP X1, X2, [X0], #16 with its second element in the missing page. -/
theorem predecode_ldst_post_pair :
    IsLdSt 0xa8c10801#32 ∧ (pd_fill 0xa8c10801#32).op ≠ .PD_GENERIC ∧
      (exec_a64 core_env (at_page_end 8) 0xa8c10801#32).pend_exc ≠ (at_page_end 8).pend_exc ∧
      Uncommitted (at_page_end 8) (exec_a64 core_env (at_page_end 8) 0xa8c10801#32)
        (abandoned_v core_env.toPager (at_page_end 8) 0xa8c10801#32) := by
  have hclass : IsLdSt 0xa8c10801#32 := by decide
  have hcov : (pd_fill 0xa8c10801#32).op ≠ .PD_GENERIC := by decide
  have hfault : (exec_a64 core_env (at_page_end 8) 0xa8c10801#32).pend_exc ≠ (at_page_end 8).pend_exc := by
    decide
  exact ⟨hclass, hcov, hfault, (predecode_ldst core_env (at_page_end 8) _ hclass hcov).2 hfault⟩

/-- LDP Q0, Q1, [X0] with its second element in the missing page: the access
faults, and V0 holds the element that was read before it did. -/
theorem vector_pair_commits_first :
    IsLdSt 0xad400400#32 ∧ (pd_fill 0xad400400#32).op ≠ .PD_GENERIC ∧
      (at_page_end 16).pend_exc.valid = false ∧
      (exec_a64 core_env (at_page_end 16) 0xad400400#32).pend_exc.valid = true ∧
      (exec_a64 core_env (at_page_end 16) 0xad400400#32).v 0 ≠ (at_page_end 16).v 0 := by
  decide

end arm64emu
