import Arm64Emu.Predecode.DpImm

namespace arm64emu

open Option

section handlers

variable (pg : Pager) (c : CPU) (e : PDEnt) (va wbval : u64) (size : Nat) (f : u64 → u64)

def load_x (rd : Nat) : Access Unit :=
  (mem_read pg c va size).bind fun v c => .ok () (set_x c rd (f v))

theorem ld_to_eq (rd : Nat) : ld_to pg c rd va size f = (load_x pg c va size f rd).cpu := by
  unfold ld_to load_x
  cases mem_read pg c va size <;> rfl

theorem ld_wb_eq :
    ld_wb pg c e va wbval size f = (load_x pg c va size f e.rd).writeback e.rn (some wbval) := by
  unfold ld_wb load_x
  cases mem_read pg c va size <;> rfl

theorem st_wb_eq : st_wb pg c e va wbval size =
    (mem_write pg c va size (reg_x c e.rd)).writeback e.rn (some wbval) := by
  unfold st_wb
  cases mem_write pg c va size (reg_x c e.rd) <;> rfl

theorem L_LDRQ_eq : L_LDRQ pg c e va = (vreg_load pg c e.rd va 16).cpu := by
  unfold L_LDRQ vreg_load
  rw [if_pos rfl]
  cases mem_read128 pg c va <;> rfl

theorem L_LDRV_eq (hrm : e.rm ≠ 16) : L_LDRV pg c e va = (vreg_load pg c e.rd va e.rm).cpu := by
  unfold L_LDRV vreg_load
  rw [if_neg hrm]
  cases mem_read pg c va e.rm <;> rfl

theorem L_LDRQ_wb_eq :
    L_LDRQ_wb pg c e va wbval = (vreg_load pg c e.rd va 16).writeback e.rn (some wbval) := by
  unfold L_LDRQ_wb vreg_load
  rw [if_pos rfl]
  cases mem_read128 pg c va <;> rfl

theorem L_STRQ_wb_eq :
    L_STRQ_wb pg c e va wbval = (vreg_store pg c e.rd va 16).writeback e.rn (some wbval) := by
  unfold L_STRQ_wb vreg_store
  rw [if_pos rfl]
  cases mem_write128 pg c va (c.v e.rd) <;> rfl

def int_access (rt : Nat) (opc : Nat) : Access Unit :=
  if opc = 0 then mem_write pg c va (2 ^ size) (reg_x c rt) else do_load pg c rt va size opc

/-- An unsigned load: only the word form has anything to truncate. -/
theorem int_access_unsigned (rt : Nat) (hsize : size < 4) : int_access pg c va size rt 1 =
    load_x pg c va (2 ^ size) (if size = 2 then trunc32 else id) rt := by
  unfold int_access do_load load_x
  rw [if_neg (by decide), if_neg (by omega)]
  cases hread : mem_read pg c va (2 ^ size) with
  | fault d => rfl
  | ok v d =>
    obtain rfl | rfl | rfl | rfl := lt_four hsize
    · exact congrArg (fun w => Access.ok () (set_x d rt w)) (mem_read_trunc32 (by decide) hread)
    · exact congrArg (fun w => Access.ok () (set_x d rt w)) (mem_read_trunc32 (by decide) hread)
    · rfl
    · rfl

theorem int_access_signed64 (rt : Nat) (hsize : size ≠ 3) : int_access pg c va size rt 2 =
    load_x pg c va (2 ^ size) (sign_extend · (2 ^ size * 8)) rt := by
  unfold int_access do_load load_x
  rw [if_neg (by decide), if_neg (by omega)]
  cases mem_read pg c va (2 ^ size) <;> rfl

theorem int_access_signed32 (rt : Nat) : int_access pg c va size rt 3 =
    load_x pg c va (2 ^ size) (fun v => trunc32 (sign_extend v (2 ^ size * 8))) rt := by
  unfold int_access do_load load_x
  rw [if_neg (by decide), if_neg (by omega)]
  cases mem_read pg c va (2 ^ size) <;> rfl

end handlers

section pairs

variable (pg : Pager) (c : CPU) (e : PDEnt) (mode : PairMode)

/-- The decoder's pair access and writeback, at an entry's operands. -/
def pair_of (V L : Bool) (bytes : Nat) : CPU :=
  (ldst_pair_access pg c V L false e.rd e.rm (mode.addr (reg_xsp c e.rn) e.imm) bytes).writeback
    e.rn (mode.wb (reg_xsp c e.rn) e.imm)

def pair_value (sw : Bool) (z : Nat) (v : u64) : u64 :=
  if z = 3 then v else if sw then sign_extend v 32 else trunc32 v

theorem pair_access_loads (sw : Bool) (rt rt2 : Nat) (addr : u64) {z : Nat} (hz : z = 2 ∨ z = 3) :
    ldst_pair_access pg c false true sw rt rt2 addr (2 ^ z) =
      (mem_read pg c addr (2 ^ z)).bind fun x c => (mem_read pg c (addr + BitVec.ofNat 64 (2 ^ z)) (2 ^ z)).bind
        fun y c => .ok () (set_x (set_x c rt (pair_value sw z x)) rt2 (pair_value sw z y)) := by
  unfold ldst_pair_access pair_value
  simp only [Bool.false_eq_true, if_false, if_true]
  rcases hz with rfl | rfl
  · cases sw <;> rfl
  rw [if_pos (by decide), mem_read128_eq]
  simp only [Access.bind_assoc, Access.ok_bind, V128.d0_ofD, V128.d1_ofD]
  rfl

theorem pair_access_stores (sw : Bool) (rt rt2 : Nat) (addr : u64) {z : Nat} (hz : z = 2 ∨ z = 3) :
    ldst_pair_access pg c false false sw rt rt2 addr (2 ^ z) =
      (mem_write pg c addr (2 ^ z) (reg_x c rt)).bind fun _ c =>
        mem_write pg c (addr + BitVec.ofNat 64 (2 ^ z)) (2 ^ z) (reg_x c rt2) := by
  unfold ldst_pair_access
  simp only [Bool.false_eq_true, if_false]
  rcases hz with rfl | rfl
  · rfl
  rw [if_pos (by decide), mem_write128_eq, V128.d0_ofD, V128.d1_ofD]
  cases h : mem_write pg c addr 8 (reg_x c rt) with
  | fault d => simp only [Nat.reducePow, Access.fault_bind]
  | ok u d =>
    simp only [Nat.reducePow, Access.ok_bind, mem_write_reg_x h]

theorem L_LDP64_eq (is64 : Bool) :
    L_LDP64 pg c e is64 mode = pair_of pg c e mode false true (2 ^ if is64 then 3 else 2) := by
  unfold L_LDP64 pair_of
  rw [pair_access_loads _ _ _ _ _ _ (by cases is64 <;> decide)]
  dsimp only
  generalize mode.addr (reg_xsp c e.rn) e.imm = va
  cases is64 <;> simp only [Bool.false_eq_true, if_true, if_false, Nat.reducePow] <;>
    cases mem_read pg c va _ with
    | fault d => rfl
    | ok x d =>
      simp only [Access.ok_bind]
      cases mem_read pg d _ _ <;> rfl

theorem L_STP64_eq (is64 : Bool) :
    L_STP64 pg c e is64 mode = pair_of pg c e mode false false (2 ^ if is64 then 3 else 2) := by
  unfold L_STP64 pair_of
  rw [pair_access_stores _ _ _ _ _ _ (by cases is64 <;> decide)]
  dsimp only
  generalize mode.addr (reg_xsp c e.rn) e.imm = va
  cases is64 <;> simp only [Bool.false_eq_true, if_true, if_false, Nat.reducePow] <;>
    cases mem_write pg c va _ (reg_x c e.rd) with
    | fault d => rfl
    | ok x d =>
      simp only [Access.ok_bind]
      cases mem_write pg d _ _ _ <;> rfl

theorem L_LDPQ_eq : L_LDPQ pg c e mode = pair_of pg c e mode true true 16 := by
  unfold L_LDPQ pair_of ldst_pair_access vreg_load
  dsimp only
  generalize mode.addr (reg_xsp c e.rn) e.imm = va
  simp only [if_true]
  cases mem_read128 pg c va with
  | fault d => rfl
  | ok a d =>
    simp only [Access.ok_bind]
    cases mem_read128 pg (set_v d e.rd a) (va + 16#64) <;> rfl

theorem L_STPQ_eq : L_STPQ pg c e mode = pair_of pg c e mode true false 16 := by
  unfold L_STPQ pair_of ldst_pair_access vreg_store
  dsimp only
  generalize mode.addr (reg_xsp c e.rn) e.imm = va
  simp only [if_true, Bool.false_eq_true, if_false]
  cases mem_write128 pg c va (c.v e.rd) with
  | fault d => rfl
  | ok a d =>
    simp only [Access.ok_bind]
    cases mem_write128 pg d (va + 16#64) (d.v e.rm) <;> rfl

theorem L_LDPD_eq : L_LDPD pg c e mode = pair_of pg c e mode true true 8 := by
  unfold L_LDPD pair_of ldst_pair_access vreg_load
  dsimp only
  generalize mode.addr (reg_xsp c e.rn) e.imm = va
  simp only [if_true, Nat.reduceEqDiff, if_false]
  cases mem_read pg c va 8 with
  | fault d => rfl
  | ok a d =>
    simp only [Access.ok_bind]
    cases mem_read pg (set_v d e.rd (V128.ofD a 0#64)) (va + 8#64) 8 <;> rfl

theorem L_STPD_eq : L_STPD pg c e mode = pair_of pg c e mode true false 8 := by
  unfold L_STPD pair_of ldst_pair_access vreg_store
  dsimp only
  generalize mode.addr (reg_xsp c e.rn) e.imm = va
  simp only [if_true, Bool.false_eq_true, if_false, Nat.reduceEqDiff]
  cases mem_write pg c va 8 (c.v e.rd).d0 with
  | fault d => rfl
  | ok a d =>
    simp only [Access.ok_bind]
    cases mem_write pg d (va + 8#64) 8 (d.v e.rm).d0 <;> rfl

end pairs

/-- The addressing an instruction's mode field selects: 0 and 2 are plain
offsets, 1 is post-indexed, 3 pre-indexed. -/
def pair_mode (mode : Nat) : PairMode :=
  if mode = 1 then .post else if mode = 3 then .pre else .off

theorem ldst_pair_eq (pg : Pager) (c : CPU) (insn : u32) (hopc : BITS insn 31 30 ≠ 3)
    (hmode : BITS insn 25 23 ≤ 3) :
    let scale := if BIT insn 26 then BITS insn 31 30 + 2 else if BITS insn 31 30 = 2 then 3 else 2
    let base := reg_xsp c (BITS insn 9 5)
    let offset := imm7 insn <<< scale
    ldst_pair pg c insn =
      (ldst_pair_access pg c (BIT insn 26) (BIT insn 22) (!BIT insn 26 && BITS insn 31 30 == 1)
        (BITS insn 4 0) (BITS insn 14 10) ((pair_mode (BITS insn 25 23)).addr base offset)
        (2 ^ scale)).writeback (BITS insn 9 5) ((pair_mode (BITS insn 25 23)).wb base offset) := by
  intro scale base offset
  unfold ldst_pair
  rw [if_neg hopc]
  generalize BITS insn 25 23 = mode at hmode ⊢
  obtain rfl | rfl | rfl | rfl := lt_four (Nat.lt_succ_of_le hmode)
  all_goals rfl

section groups

variable {env : Env} {c : CPU} {insn : u32}

theorem pd_literal (hgen : exec_a64 env c insn = ldst_literal env.toPager c insn) :
    (fill_literal (pd_generic insn) insn).Runs env c insn := by
  have hopc : BITS insn 31 30 < 4 := BITS_lt insn 31 30
  unfold fill_literal
  unfold ldst_literal at hgen
  cases hV : BIT insn 26 with
  | true =>
    simp only [hV, if_true] at hgen ⊢
    refine .guard fun h3 => ?_
    rw [PDEnt.Runs, hgen, if_neg h3]
    generalize BITS insn 31 30 = opc at hopc h3 ⊢
    obtain rfl | rfl | rfl : opc = 0 ∨ opc = 1 ∨ opc = 2 := by omega
    · exact L_LDRV_eq env.toPager c _ _ (Nat.ne_of_lt (show 4 < 16 by decide))
    · exact L_LDRV_eq env.toPager c _ _ (Nat.ne_of_lt (show 8 < 16 by decide))
    · exact L_LDRQ_eq env.toPager c _ _
  | false =>
    simp only [hV, Bool.false_eq_true, if_false] at hgen ⊢
    generalize BITS insn 31 30 = opc at hopc hgen ⊢
    obtain rfl | rfl | rfl | rfl := lt_four hopc
    case inr.inr.inl => exact pd_exec_generic rfl
    all_goals rw [PDEnt.Runs, hgen]
    · exact ld_to_eq env.toPager c _ 4 trunc32 _
    · exact ld_to_eq env.toPager c _ 8 id _
    · rfl

variable {size opc : Nat} {e : PDEnt} {op : PDOp} {base_id : PDOp}

theorem pair_base_cases {V L : Bool} {opc scale : Nat} (hbase : pair_base V L opc = some (scale, base_id)) :
    (V = true ∧ opc = 2 ∨ V = true ∧ opc = 1) ∨ V = false ∧ opc = 2 ∨ V = false ∧ opc = 0 := by
  unfold pair_base at hbase
  split at hbase
  all_goals
    split at hbase
    · simp [*]
    split at hbase
    · simp [*]
    · cases hbase

/-- The three ids from a pair's first one on are its offset, pre- and
post-indexed forms, and each handler makes the decoder's two accesses. -/
theorem pd_exec_pair {V L : Bool} {opc scale mode : Nat}
    (hbase : pair_base V L opc = some (scale, base_id)) (hmode : mode ≤ 3)
    (he : e.op = PDOp.ofNat (base_id.ctorIdx + if mode = 1 then 2 else if mode = 3 then 1 else 0)) :
    pd_exec env c e insn = pair_of env.toPager c e (pair_mode mode) V L (2 ^ scale) := by
  have hm : mode = 0 ∨ mode = 1 ∨ mode = 2 ∨ mode = 3 := by omega
  obtain (⟨rfl, rfl⟩ | ⟨rfl, rfl⟩) | ⟨rfl, rfl⟩ | ⟨rfl, rfl⟩ := pair_base_cases hbase
  all_goals
    cases hbase
    cases L
    all_goals
      obtain rfl | rfl | rfl | rfl := hm
      all_goals
        unfold pd_exec
        rw [he]
  iterate 4 exact L_STPQ_eq _ c e _
  iterate 4 exact L_LDPQ_eq _ c e _
  iterate 4 exact L_STPD_eq _ c e _
  iterate 4 exact L_LDPD_eq _ c e _
  iterate 4 exact L_STP64_eq _ c e _ true
  iterate 4 exact L_LDP64_eq _ c e _ true
  iterate 4 exact L_STP64_eq _ c e _ false
  iterate 4 exact L_LDP64_eq _ c e _ false

theorem pair_base_some {V L : Bool} {opc scale : Nat} (hbase : pair_base V L opc = some (scale, base_id)) :
    opc ≠ 3 ∧ (!V && opc == 1) = false ∧
      scale = if V then opc + 2 else if opc = 2 then 3 else 2 := by
  obtain (⟨rfl, rfl⟩ | ⟨rfl, rfl⟩) | ⟨rfl, rfl⟩ | ⟨rfl, rfl⟩ := pair_base_cases hbase
  all_goals
    cases hbase
    exact ⟨by decide, rfl, rfl⟩

theorem pd_pair (hgen : exec_a64 env c insn = ldst_pair env.toPager c insn) :
    (fill_pair (pd_generic insn) insn).Runs env c insn := by
  unfold fill_pair
  refine .guard fun hmode => ?_
  cases hbase : pair_base (BIT insn 26) (BIT insn 22) (BITS insn 31 30) with
  | none => exact pd_exec_generic rfl
  | some p =>
    obtain ⟨scale, base_id⟩ := p
    obtain ⟨hopc, hword, hscale⟩ := pair_base_some hbase
    rw [PDEnt.Runs, hgen, ldst_pair_eq env.toPager c insn hopc (by omega), hword, ← hscale]
    exact pd_exec_pair hbase (by omega) rfl

theorem pd_exec_int (hsize : size < 4) (hopc : opc < 4) (hid : ldst_int_id size opc = some e.op) :
    pd_exec env c e insn =
      (int_access env.toPager c (reg_xsp c e.rn + e.imm) size e.rd opc).cpu := by
  obtain rfl | rfl | rfl | rfl := lt_four hopc
  case inl =>
    obtain rfl | rfl | rfl | rfl := lt_four hsize
    all_goals
      unfold pd_exec
      rw [← some.inj hid]
      rfl
  case inr.inl =>
    rw [int_access_unsigned _ _ _ _ _ hsize]
    obtain rfl | rfl | rfl | rfl := lt_four hsize
    all_goals
      unfold pd_exec
      rw [← some.inj hid]
      exact ld_to_eq _ c _ _ _ _
  case inr.inr.inl =>
    by_cases h3 : size = 3
    · subst h3
      unfold pd_exec
      rw [← some.inj hid]
      rfl
    rw [int_access_signed64 _ _ _ _ _ h3]
    obtain rfl | rfl | rfl : size = 0 ∨ size = 1 ∨ size = 2 := by omega
    all_goals
      unfold pd_exec
      rw [← some.inj hid]
      exact ld_to_eq _ c _ _ _ _
  case inr.inr.inr =>
    rw [int_access_signed32]
    obtain rfl | rfl | rfl | rfl := lt_four hsize
    case inr.inr.inl | inr.inr.inr => cases hid
    all_goals
      unfold pd_exec
      rw [← some.inj hid]
      exact ld_to_eq _ c _ _ _ _

theorem pd_exec_ro (hsize : size < 4) (hopc : opc < 4) (hid : ldst_ro_id size opc = some e.op) :
    opc ≤ 1 ∧ pd_exec env c e insn =
      (int_access env.toPager c (pd_ro_va c e) size e.rd opc).cpu := by
  obtain rfl | rfl | h2 : opc = 0 ∨ opc = 1 ∨ 2 ≤ opc := by omega
  case inl =>
    refine ⟨by decide, ?_⟩
    obtain rfl | rfl | rfl | rfl := lt_four hsize
    all_goals
      unfold pd_exec
      rw [← some.inj hid]
      rfl
  case inr.inl =>
    refine ⟨by decide, ?_⟩
    rw [int_access_unsigned _ _ _ _ _ hsize]
    obtain rfl | rfl | rfl | rfl := lt_four hsize
    all_goals
      unfold pd_exec
      rw [← some.inj hid]
      exact ld_to_eq _ c _ _ _ _
  case inr.inr =>
    obtain rfl | rfl : opc = 2 ∨ opc = 3 := by omega
    all_goals
      obtain rfl | rfl | rfl | rfl := lt_four hsize
      all_goals cases hid

theorem pd_exec_wb {post : Bool} (hid : ldst_wb_id size opc post = some e.op) :
    opc ≤ 1 ∧ pd_exec env c e insn =
      (int_access env.toPager c (if post then reg_xsp c e.rn else reg_xsp c e.rn + e.imm) size e.rd
        opc).writeback e.rn (some (reg_xsp c e.rn + e.imm)) := by
  have hform : (opc = 1 ∨ opc = 0) ∧ (size = 3 ∨ size = 2 ∨ size = 0 ∧ post = true) := by
    unfold ldst_wb_id at hid
    grind
  obtain ⟨rfl | rfl, hsize⟩ := hform
  case inl =>
    rw [int_access_unsigned _ _ _ _ _ (by omega)]
    refine ⟨le_rfl, ?_⟩
    obtain rfl | rfl | ⟨rfl, rfl⟩ := hsize
    case' inl | inr.inl => cases post
    all_goals
      unfold pd_exec
      rw [← some.inj hid]
      exact ld_wb_eq _ c e _ _ _ _
  case inr =>
    refine ⟨by decide, ?_⟩
    obtain rfl | rfl | ⟨rfl, rfl⟩ := hsize
    case' inl | inr.inl => cases post
    all_goals
      unfold pd_exec
      rw [← some.inj hid]
      exact st_wb_eq _ c e _ _ _

theorem ldst_access_int (pg : Pager) (va : u64) (wb : Option u64) (hV : BIT insn 26 = false)
    (hok : ¬ (BITS insn 23 22 = 3 ∧ 2 ≤ BITS insn 31 30)) :
    ldst_access pg c insn va wb =
      (int_access pg c va (BITS insn 31 30) (BITS insn 4 0) (BITS insn 23 22)).writeback (BITS insn 9 5)
        wb := by
  unfold ldst_access int_access
  simp only [hV, Bool.false_eq_true, if_false, if_neg hok]
  split <;> rfl

theorem ldst_int_id_ok (hopc : opc < 4)
    (hid : ldst_int_id size opc = some op) : ¬ (opc = 3 ∧ 2 ≤ size) := by
  rintro ⟨rfl, hsize⟩
  unfold ldst_int_id at hid
  split at hid <;> first | omega | cases hid

theorem pd_plain_int {imm : u64} (hV : BIT insn 26 = false)
    (hgen : exec_a64 env c insn = ldst_access env.toPager c insn (reg_xsp c (BITS insn 9 5) + imm) none) :
    (with_id (pd_generic insn) (ldst_int_id (BITS insn 31 30) (BITS insn 23 22)) imm).Runs env c insn := by
  cases hid : ldst_int_id (BITS insn 31 30) (BITS insn 23 22) with
  | none => exact pd_exec_generic rfl
  | some op =>
    have hopc : BITS insn 23 22 < 4 := BITS_lt insn 23 22
    rw [PDEnt.Runs, hgen, ldst_access_int env.toPager _ none hV (ldst_int_id_ok hopc hid), Access.writeback_none]
    exact pd_exec_int (BITS_lt insn 31 30) hopc hid

theorem pd_plain_vec {imm : u64} (hV : BIT insn 26 = true) (hsize : ¬ (2 ≤ BITS insn 23 22 ∧ BITS insn 31 30 ≠ 0))
    (hgen : exec_a64 env c insn = ldst_access env.toPager c insn (reg_xsp c (BITS insn 9 5) + imm) none) :
    (with_imm (fill_vreg (pd_generic insn) insn) imm).Runs env c insn := by
  have hs : BITS insn 31 30 < 4 := BITS_lt insn 31 30
  rw [PDEnt.Runs, hgen]
  unfold fill_vreg ldst_access
  simp only [hV, if_true, Access.writeback_none]
  by_cases hq : 2 ≤ BITS insn 23 22
  · have h0 : ¬ BITS insn 31 30 ≠ 0 := fun h => hsize ⟨hq, h⟩
    simp only [if_pos hq, if_neg h0]
    by_cases hl : BITS insn 23 22 % 2 = 1
    · simp only [if_pos hl]
      exact L_LDRQ_eq env.toPager c _ _
    · simp only [if_neg hl]
      rfl
  simp only [if_neg hq]
  have hpow : 2 ^ BITS insn 31 30 ≠ 16 := by
    have hle : 2 ^ BITS insn 31 30 ≤ 2 ^ 3 := Nat.pow_le_pow_right (by decide) (by omega)
    omega
  by_cases hl : BITS insn 23 22 % 2 = 1
  · simp only [if_pos hl]
    exact L_LDRV_eq env.toPager c _ _ hpow
  · simp only [if_neg hl, vreg_store, if_neg hpow]
    rfl

theorem pd_reg_offset (hV : BIT insn 26 = false)
    (hgen : exec_a64 env c insn = ldst_access env.toPager c insn
      (reg_xsp c (BITS insn 9 5) + ldst_extended_offset c insn (BITS insn 31 30)) none) :
    (with_id (pd_generic insn) (ldst_ro_id (BITS insn 31 30) (BITS insn 23 22))
      (BitVec.ofNat 64 (BITS insn 15 13) <<< 3 |||
        BitVec.ofNat 64 (if BIT insn 12 then BITS insn 31 30 else 0))).Runs env c insn := by
  cases hid : ldst_ro_id (BITS insn 31 30) (BITS insn 23 22) with
  | none => exact pd_exec_generic rfl
  | some op =>
    have hs : BITS insn 31 30 < 4 := BITS_lt insn 31 30
    have hopt : BITS insn 15 13 < 8 := BITS_lt insn 15 13
    have hlt : (if BIT insn 12 then BITS insn 31 30 else 0) < 4 := by split <;> omega
    have hlow := toNat_ofNat64 (show (if BIT insn 12 then BITS insn 31 30 else 0) < 2 ^ 64 by omega)
    have hhigh := toNat_ofNat64 (show BITS insn 15 13 < 2 ^ 64 by omega)
    have himm : (BitVec.ofNat 64 (BITS insn 15 13) <<< 3 |||
        BitVec.ofNat 64 (if BIT insn 12 then BITS insn 31 30 else 0)).toNat =
        (if BIT insn 12 then BITS insn 31 30 else 0) + BITS insn 15 13 * 2 ^ 3 := by
      rw [BitVec.or_comm, or_shift_toNat (by omega) (by omega), hlow, hhigh]
    generalize BitVec.ofNat 64 (BITS insn 15 13) <<< 3 |||
      BitVec.ofNat 64 (if BIT insn 12 then BITS insn 31 30 else 0) = imm at himm
    obtain ⟨hopc, hexec⟩ := @pd_exec_ro env c insn _ _
      { pd_generic insn with op := op, imm := imm } hs (BITS_lt insn 23 22) hid
    have hva : pd_ro_va c { pd_generic insn with op := op, imm := imm } =
        reg_xsp c (BITS insn 9 5) + ldst_extended_offset c insn (BITS insn 31 30) := by
      have hoption : (imm >>> 3).toNat % 8 = BITS insn 15 13 := by
        rw [BitVec.toNat_ushiftRight, himm, Nat.shiftRight_eq_div_pow]
        omega
      have hshift : imm.toNat % 8 = if BIT insn 12 then BITS insn 31 30 else 0 := by omega
      simp only [pd_ro_va, pd_extend_reg_eq, hoption, hshift]
      rfl
    rw [PDEnt.Runs, hgen, ldst_access_int env.toPager _ none hV (by omega), Access.writeback_none, ← hva]
    exact hexec

theorem pd_indexed_int (post : Bool) (hV : BIT insn 26 = false)
    (hgen : exec_a64 env c insn = ldst_access env.toPager c insn
      (if post then reg_xsp c (BITS insn 9 5) else reg_xsp c (BITS insn 9 5) + imm9 insn)
      (some (reg_xsp c (BITS insn 9 5) + imm9 insn))) :
    (with_id (pd_generic insn) (ldst_wb_id (BITS insn 31 30) (BITS insn 23 22) post) (imm9 insn)).Runs env c insn := by
  cases hid : ldst_wb_id (BITS insn 31 30) (BITS insn 23 22) post with
  | none => exact pd_exec_generic rfl
  | some op =>
    obtain ⟨hopc, hexec⟩ := @pd_exec_wb env c insn _ _
      { pd_generic insn with op := op, imm := imm9 insn } _ hid
    rw [PDEnt.Runs, hgen, ldst_access_int env.toPager _ _ hV (by omega)]
    exact hexec

theorem pd_indexed_vec (post : Bool) (hV : BIT insn 26 = true) (hq : 2 ≤ BITS insn 23 22)
    (hgen : exec_a64 env c insn = ldst_access env.toPager c insn
      (if post then reg_xsp c (BITS insn 9 5) else reg_xsp c (BITS insn 9 5) + imm9 insn)
      (some (reg_xsp c (BITS insn 9 5) + imm9 insn))) :
    PDEnt.Runs { pd_generic insn with
        op := if BITS insn 23 22 % 2 = 1 then (if post then .PD_LDRQPOST else .PD_LDRQPRE)
          else (if post then .PD_STRQPOST else .PD_STRQPRE)
        imm := imm9 insn } env c insn := by
  rw [PDEnt.Runs, hgen, ldst_access]
  simp only [hV, if_true, if_pos hq]
  by_cases hl : BITS insn 23 22 % 2 = 1
  · simp only [if_pos hl]
    cases post <;> exact L_LDRQ_wb_eq env.toPager c _ _ _
  · simp only [if_neg hl]
    cases post <;> exact L_STRQ_wb_eq env.toPager c _ _ _

theorem pd_register (hgen : exec_a64 env c insn = ldst_register env.toPager c insn) :
    (fill_register (pd_generic insn) insn).Runs env c insn := by
  unfold fill_register
  unfold ldst_register at hgen
  cases hV : BIT insn 26 with
  | true =>
    simp only [hV, if_true, true_and, Bool.true_eq_false, and_false, if_false, and_true] at hgen ⊢
    by_cases hbad : 2 ≤ BITS insn 23 22 ∧ BITS insn 31 30 ≠ 0
    · have hvreg : with_imm (fill_vreg (pd_generic insn) insn) = fun _ => pd_generic insn := by
        funext imm
        simp only [fill_vreg, if_pos hbad.1, if_pos hbad.2]
        rfl
      simp only [hvreg, or_true, if_true, hbad.2, and_false, if_false, ite_self]
      exact pd_exec_generic rfl
    simp only [if_neg hbad] at hgen
    cases h24 : BIT insn 24 with
    | true =>
      simp only [h24, if_true] at hgen ⊢
      exact pd_plain_vec hV hbad hgen
    | false =>
    cases h21 : BIT insn 21 with
    | true =>
      simp only [Bool.false_eq_true, if_false, or_true, if_true]
      exact pd_exec_generic rfl
    | false =>
      simp only [h24, h21, Bool.false_eq_true, if_false] at hgen ⊢
      rcases lt_four (BITS_lt insn 11 10) with hm | hm | hm | hm
      all_goals simp only [hm, Nat.reduceEqDiff, or_false, or_true, if_true, if_false] at hgen ⊢
      case inl => exact pd_plain_vec hV hbad hgen
      case inr.inr.inl => exact pd_exec_generic rfl
      all_goals split
      case inr.inl.isTrue hq => exact pd_indexed_vec true hV hq.1 hgen
      case inr.inr.inr.isTrue hq => exact pd_indexed_vec false hV hq.1 hgen
      all_goals exact pd_exec_generic rfl
  | false =>
    simp only [hV, Bool.false_eq_true, if_false, false_and, and_true, and_false] at hgen ⊢
    cases h24 : BIT insn 24 with
    | true =>
      simp only [h24, if_true] at hgen ⊢
      exact pd_plain_int hV hgen
    | false =>
    cases h21 : BIT insn 21 with
    | true =>
      simp only [h24, h21, Bool.false_eq_true, if_false, if_true, or_false] at hgen ⊢
      refine .guard fun h2 => ?_
      rw [if_neg h2, if_neg (by omega)] at hgen
      exact pd_reg_offset hV hgen
    | false =>
      simp only [h24, h21, Bool.false_eq_true, if_false] at hgen ⊢
      rcases lt_four (BITS_lt insn 11 10) with hm | hm | hm | hm
      all_goals simp only [hm, Nat.reduceEqDiff, or_false, or_true, if_true, if_false] at hgen ⊢
      · exact pd_plain_int hV hgen
      · exact pd_indexed_int true hV hgen
      · exact pd_plain_int hV hgen
      · exact pd_indexed_int false hV hgen

theorem pd_ldst (hclass : exec_a64 env c insn = loads_stores env.toPager c insn) :
    (fill_ldst (pd_generic insn) insn).Runs env c insn := by
  unfold fill_ldst
  dsimp only
  split
  case isTrue hlit =>
    refine pd_literal (hclass.trans ?_)
    simp [loads_stores, hlit.1, hlit.2]
  split
  case isTrue hpair =>
    refine pd_pair (hclass.trans ?_)
    simp [loads_stores, hpair]
  split
  case isTrue hreg => exact pd_register (hclass.trans (if_pos hreg))
  case isFalse => exact pd_exec_generic rfl

end groups

end arm64emu
