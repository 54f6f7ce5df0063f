import Arm64Emu.Predecode.DpReg
import Arm64Emu.Predecode.LdSt

namespace arm64emu

section words

variable {env : Env} {c : CPU} {insn : u32}

/-- The hint space: the words `fill_branch` treats as no-ops change nothing, and
WFE and WFI stay with the decoder. -/
theorem pd_hint (hgen : exec_a64 env c insn = system_insn env c insn) :
    (if BIT insn 21 = false ∧ BITS insn 20 19 = 0 ∧ BITS insn 18 16 = 3 ∧ BITS insn 15 12 = 2 ∧
        BITS insn 4 0 = 31 ∧ ¬ (BITS insn 11 8 = 0 ∧ (BITS insn 7 5 = 2 ∨ BITS insn 7 5 = 3)) then
      { pd_generic insn with op := .PD_NOP } else pd_generic insn).Runs env c insn := by
  split
  case isTrue h =>
    obtain ⟨hL, h0, h1, hn, ht, hwait⟩ := h
    rw [PDEnt.Runs, hgen, system_insn, if_pos ⟨hL, h0, h1, hn, ht⟩, if_neg (fun h => hwait ⟨h.1, .inl h.2⟩),
      if_neg (fun h => hwait ⟨h.1, .inr h.2⟩)]
    rfl
  case isFalse => exact pd_exec_generic rfl

theorem pd_branch_register (hgen : exec_a64 env c insn = branch_register c insn) :
    (if BITS insn 24 21 = 0 ∨ BITS insn 24 21 = 2 then { pd_generic insn with op := .PD_BR }
      else if BITS insn 24 21 = 1 then { pd_generic insn with op := .PD_BLR }
      else pd_generic insn).Runs env c insn := by
  unfold branch_register at hgen
  split
  case isTrue hbr =>
    rw [PDEnt.Runs, hgen]
    obtain h | h := hbr <;> simp only [h] <;> rfl
  split
  case isTrue hblr =>
    rw [PDEnt.Runs, hgen]
    simp only [hblr]
    rfl
  case isFalse => exact pd_exec_generic rfl

theorem pd_branch (hclass : exec_a64 env c insn = branch_system env c insn) :
    (fill_branch (pd_generic insn) insn).Runs env c insn := by
  unfold fill_branch
  unfold branch_system at hclass
  refine .ite hclass (fun _ => Eq.symm) fun _ hclass => ?_
  refine .ite hclass (fun _ => Eq.symm) fun _ hclass => ?_
  refine .ite hclass (fun _ => Eq.symm) fun _ hclass => ?_
  refine .ite hclass (fun _ hcb => ?_) fun _ hclass => ?_
  · rw [PDEnt.Runs, hcb]
    cases BIT insn 24 <;> cases BIT insn 31 <;> rfl
  refine .ite hclass (fun _ htb => ?_) fun _ hclass => ?_
  · rw [PDEnt.Runs, htb]
    cases BIT insn 24 <;> rfl
  have htail : BITS insn 31 25 = BITS insn 31 24 / 2 := BITS_tail insn (by decide)
  by_cases hexc : BITS insn 31 24 = 0xd4
  · rw [if_neg (by omega), if_neg (by omega)]
    exact pd_exec_generic rfl
  rw [if_neg hexc] at hclass
  refine .ite hclass (fun _ => pd_branch_register) fun _ hclass => ?_
  split
  case isTrue hsys => exact pd_hint (hclass.trans (if_pos hsys))
  case isFalse => exact pd_exec_generic rfl

variable (env c insn) in
/-- Filling an entry and running its handler is `exec_a64`, for every word and every state. -/
theorem pd_exec_fill : pd_exec env c (pd_fill insn) insn = exec_a64 env c insn := by
  change (pd_fill insn).Runs env c insn
  unfold pd_fill
  split
  case h_11 => exact pd_exec_generic rfl
  all_goals rename_i hcls
  · exact pd_dp_imm (by simp only [exec_a64, hcls])
  · exact pd_dp_imm (by simp only [exec_a64, hcls])
  · exact pd_branch (by simp only [exec_a64, hcls])
  · exact pd_branch (by simp only [exec_a64, hcls])
  · exact pd_ldst (by simp only [exec_a64, hcls])
  · exact pd_ldst (by simp only [exec_a64, hcls])
  · exact pd_ldst (by simp only [exec_a64, hcls])
  · exact pd_ldst (by simp only [exec_a64, hcls])
  · exact pd_dp_reg (by simp only [exec_a64, hcls])
  · exact pd_dp_reg (by simp only [exec_a64, hcls])

end words

def pd_empty : PDEnt := ⟨0#32, .PD_GENERIC, 0, 0, 0, 0#64⟩

/-- Each entry is all zero, or what `pd_fill` makes of its own tag. -/
def PDCache.Valid (cache : PDCache) : Prop :=
  ∀ i, cache i = pd_empty ∨ cache i = pd_fill (cache i).insn

variable (e : PDEnt) (insn : u32)

theorem fill_dp_imm_insn : (fill_dp_imm e insn).insn = e.insn := by
  have hlogical : (fill_logical_imm e insn).insn = e.insn := by
    unfold fill_logical_imm
    dsimp only
    split <;> rfl
  have hmove : (fill_move_wide e insn).insn = e.insn := by
    unfold fill_move_wide
    dsimp only
    split
    · rfl
    · split <;> rfl
  unfold fill_dp_imm
  split
  case h_4 => exact hlogical
  case h_5 => exact hmove
  all_goals simp only [fill_adr, fill_addsub_imm, fill_bitfield, fill_extract, apply_ite PDEnt.insn, ite_self]

theorem fill_branch_insn : (fill_branch e insn).insn = e.insn := by
  simp only [fill_branch, apply_ite PDEnt.insn, ite_self]

theorem fill_ldst_insn : (fill_ldst e insn).insn = e.insn := by
  have hid (id : Option PDOp) (imm : u64) : (with_id e id imm).insn = e.insn := by cases id <;> rfl
  have hvec (imm : u64) : (with_imm (fill_vreg e insn) imm).insn = e.insn := by
    simp only [with_imm, fill_vreg, apply_ite PDEnt.insn, ite_self]
  have hlit : (fill_literal e insn).insn = e.insn := by
    unfold fill_literal
    dsimp only
    split
    · simp only [apply_ite PDEnt.insn, ite_self]
    · split <;> rfl
  have hpair : (fill_pair e insn).insn = e.insn := by
    unfold fill_pair
    dsimp only
    split
    · rfl
    · split <;> rfl
  simp only [fill_ldst, fill_register, apply_ite PDEnt.insn, hlit, hpair, hid, hvec, ite_self]

theorem fill_dp_reg_insn : (fill_dp_reg e insn).insn = e.insn := by
  unfold fill_dp_reg
  split
  case h_4 =>
    split <;> simp only [fill_ccmp, fill_csel, fill_12source, apply_ite PDEnt.insn, ite_self]
  all_goals simp only [fill_logical_reg, fill_addsub_reg, fill_3source, apply_ite PDEnt.insn, ite_self]

theorem pd_fill_insn : (pd_fill insn).insn = insn := by
  unfold pd_fill
  split
  case h_11 => rfl
  all_goals first
    | exact fill_dp_imm_insn _ insn
    | exact fill_branch_insn _ insn
    | exact fill_ldst_insn _ insn
    | exact fill_dp_reg_insn _ insn

variable {cache : PDCache}

/-- A validated slot runs the fetched word, whatever the slot held before. -/
theorem pd_exec_validate (env : Env) (c : CPU) (pc : u64) (insn : u32) (hcache : cache.Valid) :
    pd_exec env c (pd_validate cache pc insn (pd_slot pc)) insn = exec_a64 env c insn := by
  unfold pd_validate
  by_cases htag : (cache (pd_slot pc)).insn = insn
  · rw [if_pos htag]
    obtain hempty | hfill := hcache (pd_slot pc)
    · rw [hempty]
      exact pd_exec_generic rfl
    · rw [hfill, htag]
      exact pd_exec_fill env c insn
  · rw [if_neg htag, Function.update_self]
    exact pd_exec_fill env c insn

theorem pd_validate_valid (pc : u64) (insn : u32) (hcache : cache.Valid) :
    (pd_validate cache pc insn).Valid := by
  unfold pd_validate
  by_cases htag : (cache (pd_slot pc)).insn = insn
  · rw [if_pos htag]
    exact hcache
  rw [if_neg htag]
  intro i
  by_cases hi : i = pd_slot pc
  · rw [hi, Function.update_self, pd_fill_insn]
    exact .inr rfl
  · rw [Function.update_of_ne hi]
    exact hcache i

/-- `pd_run` is the loop without a cache, from any valid cache, for any
instructions fetched, and it leaves the cache valid. -/
theorem pd_run_eq (env : Env) (fetch : Nat → CPU → Access u32) (sig : Nat → Bool) (n : Nat) {k : Nat} {c : CPU}
    (hcache : cache.Valid) :
    (pd_run env fetch sig n k cache c).1.Valid ∧
      (pd_run env fetch sig n k cache c).2 = nopd_run env fetch sig n k c := by
  induction n generalizing k cache c with
  | zero => exact ⟨hcache, rfl⟩
  | succ n ih =>
    unfold pd_run nopd_run
    cases fetch k { c with cur_insn_pc := c.pc } with
    | fault d => exact ⟨hcache, rfl⟩
    | ok insn d =>
      have hvalid := pd_validate_valid d.cur_insn_pc insn hcache
      simp only [pd_exec_validate env _ _ insn hcache]
      split
      · exact ⟨hvalid, rfl⟩
      · exact ih hvalid

/-- The decode cache is invisible: filling an entry and running its handler is `exec_a64`, and from any cache whose
entries are empty or filled from their own tags, `pd_run` is the run of fetch and `exec_a64`. -/
theorem predecode_transparent (env : Env) :
    (∀ c insn, pd_exec env c (pd_fill insn) insn = exec_a64 env c insn) ∧
      ∀ fetch sig n k (cache : PDCache) c, cache.Valid →
        (pd_run env fetch sig n k cache c).2 = nopd_run env fetch sig n k c :=
  ⟨pd_exec_fill env, fun fetch sig n _ _ _ hcache => (pd_run_eq env fetch sig n hcache).2⟩

/-- From a cold cache, twice around the loop ADD X1, X1, #1; B back to it: the second time the entries are hit. -/
theorem predecode_transparent_cold_cache :
    let fetch (_ : Nat) (c : CPU) : Access u32 := .ok (if c.pc = 0x1000#64 then 0x91000421#32 else 0x17ffffff#32) c
    let c := cpu_reset core_env Mem.empty 0x1000#64 0
    PDCache.Valid (fun _ => pd_empty) ∧
      (nopd_run core_env fetch (fun _ => false) 2 0 c).1.pc = 0x1000#64 ∧
      (pd_run core_env fetch (fun _ => false) 4 0 (fun _ => pd_empty) c).2 =
        nopd_run core_env fetch (fun _ => false) 4 0 c :=
  have hcold : PDCache.Valid (fun _ => pd_empty) := fun _ => .inl rfl
  ⟨hcold, by decide, (predecode_transparent core_env).2 _ _ 4 0 _ _ hcold⟩

end arm64emu
