import Arm64Emu.Predecode.Faults

namespace arm64emu

/-- The words that write memory by a host atomic: LD<op> and SWP, CAS, CASP, and the
store-exclusives of one register and of two. -/
inductive AtomicOp where
  | rmw
  | cas
  | casp
  | stxr
  | stxp
  deriving DecidableEq

/-- The word is one of this kind of atomic access. -/
def AtomicOp.Encodes (insn : u32) : AtomicOp → Prop
  | .rmw => BITS insn 29 27 = 7 ∧ BIT insn 26 = false ∧ BIT insn 24 = false ∧ BIT insn 21 = true ∧
      BITS insn 11 10 = 0 ∧ ¬ (BIT insn 15 = true ∧ BITS insn 14 12 ≠ 0)
  | .cas => BITS insn 29 27 = 1 ∧ BITS insn 26 24 = 0 ∧ BIT insn 23 = true ∧ BIT insn 21 = true
  | .casp => BITS insn 29 27 = 1 ∧ BITS insn 26 24 = 0 ∧ BIT insn 23 = false ∧ BIT insn 21 = true ∧
      BIT insn 31 = false
  | .stxr => BITS insn 29 27 = 1 ∧ BITS insn 26 24 = 0 ∧ BIT insn 23 = false ∧ BIT insn 21 = false ∧
      BIT insn 22 = false
  | .stxp => BITS insn 29 27 = 1 ∧ BITS insn 26 24 = 0 ∧ BIT insn 23 = false ∧ BIT insn 21 = true ∧
      BIT insn 31 = true ∧ BIT insn 22 = false

/-- How many bytes the access covers. -/
def AtomicOp.bytes (insn : u32) : AtomicOp → Nat
  | .rmw | .cas | .stxr => 2 ^ BITS insn 31 30
  | .casp => 2 * if BIT insn 30 then 8 else 4
  | .stxp => 2 ^ BITS insn 31 30 * 2

/-- The address a load or store takes from its base register. -/
def base_va (c : CPU) (insn : u32) : u64 := reg_xsp c (BITS insn 9 5)

def plain_store (pg : Pager) (c : CPU) (va : u64) (bytes : Nat) (val : V128) : CPU :=
  if bytes = 16 then (mem_write128 pg c va val).cpu else (mem_write pg c va bytes val.d0).cpu

def write_abort (va : u64) (fsc : Nat) : PendExc := ⟨true, esr_make EC_DABORT_LOWER (iss_dabort true fsc), va⟩

def store_fsc (m : Mem) (va : u64) (perm : Bool) : Nat :=
  if perm then FSC_PERM_L3 else if m.file_hole va then FSC_EXTERNAL else FSC_TRANS_L3

/-- An abort for a missing page is a plain store's where the page is missing and no file
mapping's. -/
theorem trans_abort_iff (m : Mem) (va : u64) (perm : Bool) :
    write_abort va FSC_TRANS_L3 = write_abort va (store_fsc m va perm) ↔ perm = false ∧ m.file_hole va = false := by
  unfold write_abort store_fsc
  cases perm <;> cases m.file_hole va <;> simp only [PendExc.mk.injEq, true_and, and_true] <;> decide

theorem align_abort_ne (m : Mem) (va : u64) (perm : Bool) :
    write_abort va FSC_ALIGN ≠ write_abort va (store_fsc m va perm) := by
  unfold write_abort store_fsc
  cases perm <;> cases m.file_hole va <;> simp only [ne_eq, PendExc.mk.injEq, true_and, and_true] <;> decide

theorem aligned_in_page {va : u64} {n : Nat} (hn : n ∣ GUEST_PAGE_SIZE) (h : va.toNat % n = 0) :
    crosses_page va n = false := by
  have hoff : n ∣ page_off va := (Nat.dvd_mod_iff hn).2 (Nat.dvd_of_mod_eq_zero h)
  have hle := Nat.le_of_dvd (Nat.sub_pos_of_lt (page_off_lt va)) (Nat.dvd_sub hn hoff)
  have := page_off_lt va
  simp only [crosses_page, decide_eq_false_iff_not]
  omega

theorem AtomicOp.bytes_dvd (insn : u32) (op : AtomicOp) : op.bytes insn ∣ GUEST_PAGE_SIZE := by
  unfold AtomicOp.bytes
  obtain h | h | h | h := lt_four (BITS_lt insn 31 30) <;> cases op <;> cases BIT insn 30 <;> simp only [h] <;> decide

section refused

variable {pg : Pager} {c : CPU} {m : Mem} {va : u64} {perm : Bool} {n : Nat}

/-- A page that is missing for a write is missing for a read. -/
theorem translate_missing (h : translate pg c.mem va .w = (m, .error false)) :
    translate pg m va .r = (m, .error false) := by
  have hagain := translate_fails_again pg h
  unfold translate at hagain ⊢
  rw [show strip_tag va .r = strip_tag va .w from rfl]
  by_cases hsize : GUEST_TASK_SIZE ≤ (strip_tag va .w).toNat
  · simp only [hsize, if_true]
  simp only [hsize, if_false] at hagain ⊢
  cases hget : (fill_missing pg m (strip_tag va .w)).pte_get (strip_tag va .w) with
  | none => simpa only [hget] using hagain
  | some pte =>
    simp only [hget] at hagain
    split at hagain
    · simp at hagain
    simp only [if_true] at hagain
    split at hagain
    · simp at hagain
    · split at hagain <;> simp at hagain

variable (h : translate pg c.mem va .w = (m, .error perm)) (hin : crosses_page va n = false)

include h hin

theorem host_ptr_refused : mem_host_ptr pg c va n .w = ({ c with mem := m }, none) := by
  simp only [mem_host_ptr, hin, Bool.false_eq_true, if_false, h]

theorem mem_write_refused (val : u64) :
    mem_write pg c va n val = .fault (raise_dabort { c with mem := m } va true perm) := by
  simp only [mem_write, hin, Bool.false_eq_true, if_false, mem_write_page, h]

theorem plain_store_refused (val : V128) :
    (plain_store pg c va n val).pend_exc = write_abort va (store_fsc m va perm) := by
  unfold plain_store
  by_cases h16 : n = 16
  · subst h16
    simp only [mem_write128, hin, Bool.false_eq_true, if_false, if_true, h]
    rfl
  · rw [if_neg h16, mem_write_refused h hin]
    rfl

end refused

section instructions

variable {pg : Pager} {c : CPU} {insn : u32} {m : Mem} {perm : Bool}
  (h : translate pg c.mem (base_va c insn) .w = (m, .error perm))

include h

/-- LD<op> and SWP report a page that may be read as misaligned, and any other as
missing. -/
theorem ldst_atomic_refused (hrmw : ¬ (BIT insn 15 = true ∧ BITS insn 14 12 ≠ 0))
    (halign : (base_va c insn).toNat % 2 ^ BITS insn 31 30 = 0)
    (hin : crosses_page (base_va c insn) (2 ^ BITS insn 31 30) = false) :
    (ldst_atomic pg c insn).pend_exc = write_abort (base_va c insn) (store_fsc m (base_va c insn) perm) ↔
      perm = false ∧ m.file_hole (base_va c insn) = false := by
  unfold ldst_atomic
  dsimp only
  rw [if_neg hrmw, ← base_va, if_neg (not_not.2 halign), host_ptr_refused h hin]
  dsimp only
  rw [mem_host_ptr, hin]
  simp only [Bool.false_eq_true, if_false]
  cases hread : translate pg m (base_va c insn) .r with
  | mk m' r =>
    cases r with
    | error e => exact trans_abort_iff m _ perm
    | ok p =>
      refine iff_of_false (align_abort_ne m _ perm) fun hmiss => ?_
      rw [hmiss.1] at h
      rw [translate_missing h] at hread
      cases hread

theorem ldst_cas_refused (halign : (base_va c insn).toNat % 2 ^ BITS insn 31 30 = 0)
    (hin : crosses_page (base_va c insn) (2 ^ BITS insn 31 30) = false) :
    (ldst_cas pg c insn).pend_exc = write_abort (base_va c insn) FSC_TRANS_L3 := by
  unfold ldst_cas
  dsimp only
  rw [← base_va, if_neg (not_not.2 halign), host_ptr_refused h hin]
  rfl

theorem ldst_casp_refused (halign : (base_va c insn).toNat % (2 * if BIT insn 30 then 8 else 4) = 0)
    (hin : crosses_page (base_va c insn) (2 * if BIT insn 30 then 8 else 4) = false) :
    (ldst_casp pg c insn).pend_exc = write_abort (base_va c insn) FSC_TRANS_L3 := by
  unfold ldst_casp
  dsimp only
  rw [← base_va, if_neg (not_not.2 halign), host_ptr_refused h hin]
  rfl

theorem stxr_refused {Rs Rt n : Nat} (hin : crosses_page (base_va c insn) n = false)
    (hmon : monitor_holds c (base_va c insn) n = true) :
    (stxr pg c (base_va c insn) n Rs Rt).pend_exc =
        write_abort (base_va c insn) (store_fsc m (base_va c insn) perm) := by
  unfold stxr
  rw [if_pos hmon, host_ptr_refused h hin]
  dsimp only
  rw [mem_write_refused (c := { c with mem := m }) (translate_fails_again pg h) hin]
  rfl

/-- STXP reports a store it cannot make as one that lost the monitor. -/
theorem stxp_refused {Rs Rt Rt2 n : Nat} (hn : n = 4 ∨ n = 8) (hin : crosses_page (base_va c insn) (n * 2) = false)
    (hmon : monitor_holds c (base_va c insn) (n * 2) = true) :
    (stxp pg c (base_va c insn) n Rs Rt Rt2).pend_exc = c.pend_exc := by
  unfold stxp
  rw [if_pos hmon]
  obtain rfl | rfl := hn <;> simp only [Nat.reduceEqDiff, if_true, if_false]
  · rw [host_ptr_refused h hin]
    exact set_x_pend_exc _ _ _
  · rw [host_ptr_refused h hin]
    exact set_x_pend_exc _ _ _

end instructions

theorem exec_atomic {env : Env} {c : CPU} {insn : u32} {op : AtomicOp} (hclass : IsLdSt insn)
    (hop : op.Encodes insn) : exec_a64 env c insn = match op with
      | .rmw => ldst_atomic env.toPager c insn
      | .cas => ldst_cas env.toPager c insn
      | .casp => ldst_casp env.toPager c insn
      | .stxr => stxr env.toPager c (base_va c insn) (2 ^ BITS insn 31 30) (BITS insn 20 16) (BITS insn 4 0)
      | .stxp => stxp env.toPager c (base_va c insn) (2 ^ BITS insn 31 30) (BITS insn 20 16) (BITS insn 4 0)
          (BITS insn 14 10) := by
  rw [(ldst_class hclass env c).2]
  cases op with
  | rmw =>
    obtain ⟨hreg, hV, h24, h21, h10, -⟩ := hop
    simp [loads_stores, ldst_register, hreg, hV, h24, h21, h10]
  | cas =>
    obtain ⟨hreg, hexcl, h23, h21⟩ := hop
    simp [loads_stores, ldst_exclusive, hreg, hexcl, h23, h21]
  | casp =>
    obtain ⟨hreg, hexcl, h23, h21, h31⟩ := hop
    simp [loads_stores, ldst_exclusive, hreg, hexcl, h23, h21, h31]
  | stxr =>
    obtain ⟨hreg, hexcl, h23, h21, h22⟩ := hop
    simp [loads_stores, ldst_exclusive, hreg, hexcl, h23, h21, h22, base_va]
  | stxp =>
    obtain ⟨hreg, hexcl, h23, h21, h31, h22⟩ := hop
    simp [loads_stores, ldst_exclusive, hreg, hexcl, h23, h21, h31, h22, base_va]

/-- An aligned atomic at an address that cannot be written records what a plain store would exactly when it is a
store-exclusive of one register, or a read, modify and write, CAS or CASP whose page is missing and in no file
mapping. -/
theorem atomic_fault_iff (env : Env) (c : CPU) (insn : u32) (op : AtomicOp) (val : V128) (m : Mem) (perm : Bool)
    (hclass : IsLdSt insn) (hop : op.Encodes insn) (hclear : c.pend_exc.valid = false)
    (halign : (base_va c insn).toNat % op.bytes insn = 0)
    (hmon : op = .stxr ∨ op = .stxp → monitor_holds c (base_va c insn) (op.bytes insn) = true)
    (hrefused : translate env.toPager c.mem (base_va c insn) .w = (m, .error perm)) :
    (exec_a64 env c insn).pend_exc = (plain_store env.toPager c (base_va c insn) (op.bytes insn) val).pend_exc ↔
      op = .stxr ∨ op ≠ .stxp ∧ perm = false ∧ m.file_hole (base_va c insn) = false := by
  have hin := aligned_in_page (op.bytes_dvd insn) halign
  rw [plain_store_refused hrefused hin, exec_atomic hclass hop]
  cases op with
  | rmw => simpa using ldst_atomic_refused hrefused hop.2.2.2.2.2 halign hin
  | cas => simpa [ldst_cas_refused hrefused halign hin] using trans_abort_iff m _ perm
  | casp => simpa [ldst_casp_refused hrefused halign hin] using trans_abort_iff m _ perm
  | stxr => exact iff_of_true (stxr_refused hrefused hin (hmon (.inl rfl))) (.inl rfl)
  | stxp =>
    have hsize : BITS insn 31 30 = 2 ∨ BITS insn 31 30 = 3 := by
      have h31 := hop.2.2.2.2.1
      have hlt : BITS insn 31 30 < 4 := BITS_lt insn 31 30
      rw [BIT_eq_decide, BITS_tail insn (by decide), decide_eq_true_eq] at h31
      omega
    have hn : 2 ^ BITS insn 31 30 = 4 ∨ 2 ^ BITS insn 31 30 = 8 := by
      obtain h | h := hsize <;> simp [h]
    dsimp only
    rw [stxp_refused hrefused hn hin (hmon (.inr rfl))]
    refine iff_of_false (fun hexc => ?_) (by simp)
    rw [hexc] at hclear
    cases hclear

/-- A CPU whose X0 is the start of a page that may only be read. -/
def read_only_page : CPU :=
  cpu_reset core_env ⟨fun p => if p = 0 then some ⟨0, true, false, false⟩ else none, fun _ => 0#8, fun _ => false⟩
    0x1000#64 0

/-- STXR to that page with the monitor held. -/
theorem atomic_fault_iff_stxr :
    AtomicOp.stxr.Encodes 0xc8017c02#32 ∧
      (exec_a64 core_env { read_only_page with excl_valid := true, excl_size := 8 } 0xc8017c02#32).pend_exc =
        (plain_store core_env.toPager { read_only_page with excl_valid := true, excl_size := 8 } 0#64 8
          0#128).pend_exc := by
  have hop : AtomicOp.stxr.Encodes 0xc8017c02#32 := by
    unfold AtomicOp.Encodes
    decide
  exact ⟨hop, (atomic_fault_iff core_env
    { read_only_page with excl_valid := true, excl_size := 8 } 0xc8017c02#32 .stxr 0#128
    read_only_page.mem true (by decide) hop rfl (by decide) (fun _ => by decide) rfl).2 (.inl rfl)⟩

/-- CAS X1, X2, [X0] to that page records a missing page, and a store a permission fault. -/
theorem read_only_cas_missing :
    (exec_a64 core_env read_only_page 0xc8a17c02#32).pend_exc = write_abort 0#64 FSC_TRANS_L3 ∧
      (plain_store core_env.toPager read_only_page 0#64 8 0#128).pend_exc = write_abort 0#64 FSC_PERM_L3 ∧
      write_abort 0#64 FSC_TRANS_L3 ≠ write_abort 0#64 FSC_PERM_L3 := by
  decide

end arm64emu
