import Arm64Emu.Jit.Frontend

namespace arm64emu

open List

/-- The operations that neither branch nor call out of generated code. -/
def IROpc.is_native (op : IROpc) : Bool :=
  !(op matches .IRO_JMP | .IRO_BCOND | .IRO_CBZ | .IRO_CBNZ | .IRO_TBZ | .IRO_TBNZ | .IRO_JMPIND
    | .IRO_CALL1 | .IRO_VOP | .IRO_ATOMIC)

/-- Operations of that kind, as `ir_put` writes them: with their flags kept. -/
def Native (ops : List IROp) : Prop := ops.all (fun o => o.op.is_native && !o.flags_dead) = true

theorem native_iff {ops : List IROp} :
    Native ops ↔ ∀ o ∈ ops, o.op.is_native = true ∧ o.flags_dead = false := by
  simp only [Native, all_eq_true, Bool.and_eq_true, Bool.not_eq_true']

/-- At most `k` of them, for an instruction that `n` others come before. One
equation, so that it holds by computation of a list that is written out. -/
def Puts (n k : Nat) (ops : List IROp) : Prop :=
  (ops.all fun o => o.op.is_native && !o.flags_dead, ops.map IROp.icnt, Nat.ble ops.length k) =
    (true, List.replicate ops.length n, true)

section native

variable {n i j k : Nat} {ops a b : List IROp}

theorem puts_iff : Puts n k ops ↔ Native ops ∧ (∀ o ∈ ops, o.icnt = n) ∧ ops.length ≤ k := by
  simp only [Puts, Prod.mk.injEq, map_eq_replicate_iff, Nat.ble_eq, Native]

theorem Puts.native (h : Puts n k ops) : Native ops := (puts_iff.1 h).1

theorem Puts.mono (h : Puts n i ops) (hi : i ≤ k) : Puts n k ops := by
  obtain ⟨hnative, hicnt, hlen⟩ := puts_iff.1 h
  exact puts_iff.2 ⟨hnative, hicnt, hlen.trans hi⟩

theorem Puts.append (ha : Puts n i a) (hb : Puts n j b) : Puts n (i + j) (a ++ b) := by
  rw [puts_iff, native_iff] at *
  refine ⟨forall_mem_append.2 ⟨ha.1, hb.1⟩, forall_mem_append.2 ⟨ha.2.1, hb.2.1⟩, ?_⟩
  rw [length_append]
  exact Nat.add_le_add ha.2.2 hb.2.2

theorem puts_ite {p : Prop} [Decidable p] (ha : Puts n k a) (hb : Puts n k b) : Puts n k (if p then a else b) := by
  split <;> assumption

variable (n) (w : Bool) (pc : u64) (e : PDEnt) {insn : u32} {op : IROpc}

theorem puts_unless_zr (rd : Nat) (h : Puts n k ops) : Puts n k (put_unless_zr rd ops) :=
  puts_ite rfl h

theorem puts_put (hop : op.is_native = true) (dst a b cc : Nat) (imm : u64) (aux : u32) :
    Puts n 1 [ir_put n op w dst a b cc imm aux] := by
  refine puts_iff.2 ⟨?_, forall_mem_singleton.2 rfl, le_rfl⟩
  exact native_iff.2 (forall_mem_singleton.2 ⟨hop, rfl⟩)

theorem puts_put_alu (hop : op.is_native = true) (dst a b : Nat) : Puts n 1 (put_alu n op w dst a b) :=
  puts_ite rfl (puts_put n w hop _ _ _ _ _ _)

theorem puts_put_alui (hop : op.is_native = true) (dst a : Nat) (imm : u64) :
    Puts n 1 (put_alui n op w dst a imm) :=
  puts_ite rfl (puts_put n w hop _ _ _ _ _ _)

theorem puts_fe_shifted (rm type amt : Nat) : Puts n 1 (fe_shifted n rm type amt w).1 := by
  unfold fe_shifted
  split
  · exact rfl
  split
  · exact rfl
  refine puts_put n _ ?_ _ _ _ _ _ _
  unfold shift_opc
  split <;> rfl

theorem puts_fe_extended (rm option shift : Nat) : Puts n 3 (fe_extended n rm option shift).1 := by
  dsimp only [fe_extended]
  split_ifs <;> exact rfl

theorem puts_put_shifted (hop : op.is_native = true) : Puts n 2 (put_shifted n op w e) :=
  (puts_fe_shifted n w _ _ _).append (puts_put_alu n w hop _ _ _)

theorem native_inverted {op inv : IROpc} (hop : op.is_native = true) (hinv : inv.is_native = true) :
    (inverted e op inv).is_native = true := by
  unfold inverted
  split <;> assumption

theorem puts_put_extended (hop : op.is_native = true) (S : Bool) : Puts n 4 (put_extended n op w S e) :=
  (puts_fe_extended n _ _ _).append (puts_put_alu n w hop _ _ _)

theorem puts_put_ro {access : IROp} (h : Puts n 1 [access]) : Puts n 5 (put_ro n e access) :=
  (puts_fe_extended n _ _ _).append (j := 2) (Puts.append (i := 1) (j := 1) (a := [_]) rfl h)

theorem puts_put_ld_wb (rn : Nat) (imm : u64) (rt szlog : Nat) (sign is64 pre : Bool) :
    Puts n 3 (put_ld_wb n rn imm rt szlog sign is64 pre pc) :=
  puts_ite rfl rfl

theorem puts_put_pair_base (rn : Nat) (a0 : u64) : Puts n 1 [put_pair_base n rn a0] := by
  unfold put_pair_base
  split <;> exact rfl

theorem puts_put_pair_commit (rt rt2 : Nat) : Puts n 2 (put_pair_commit n rt rt2 w) :=
  Puts.append (i := 1) (j := 1) (puts_ite rfl rfl) (puts_ite rfl rfl)

theorem puts_put_ldp (is64 : Bool) (m : PairAt) : Puts n 6 (put_ldp n e is64 m pc) :=
  Puts.append (i := 5) (j := 1) (Puts.append (i := 3) (j := 2)
    (Puts.append (i := 1) (j := 2) (puts_put_pair_base n _ _) (b := [_, _]) rfl)
    (puts_put_pair_commit n _ _ _)) (puts_ite rfl rfl)

theorem puts_ops (hops : fe_ops n e pc = some ops) : Puts n 6 ops := by
  obtain ⟨word, op, rd, rn, rm, imm⟩ := e
  cases op <;> cases hops
  all_goals first
    | with_reducible refine (puts_put_alu _ _ ?_ _ _ _).mono (by decide)
    | with_reducible refine (puts_put_alui _ _ ?_ _ _ _).mono (by decide)
    | with_reducible refine (puts_put_shifted _ _ _ ?_).mono (by decide)
    | with_reducible refine (puts_put_extended _ _ _ ?_ _).mono (by decide)
    | with_reducible refine (puts_put_ro _ _ ?_).mono (by decide)
    | with_reducible exact (puts_put_ld_wb _ _ _ _ _ _ _ _ _).mono (by decide)
    | with_reducible exact puts_put_ldp _ _ _ _ _
    | exact rfl
    | exact puts_unless_zr _ _ rfl
    | exact Puts.append (i := 5) (j := 1) rfl (puts_put_pair_wb _ _ _)
    | exact puts_unless_zr _ _ (puts_ite rfl rfl)
  all_goals first
    | rfl
    | exact native_inverted _ rfl rfl

theorem puts_bitfield (hops : fe_bitfield n insn = some ops) : Puts n 4 ops := by
  unfold fe_bitfield at hops
  dsimp only at hops
  split_ifs at hops <;> cases hops <;> exact rfl

theorem puts_pair_extra (hops : fe_pair_extra n insn pc = some ops) : Puts n 6 ops := by
  have hbase (rn : Nat) (a0 : u64) (sign : Bool) (szl : Nat) (esz : u64) :
      Puts n 3 [put_pair_base n rn a0, put_ld_tmp n VREG_TMP2 0#64 0 szl sign true pc,
        put_ld_tmp n VREG_TMP2 esz 1 szl sign true pc] :=
    (puts_put_pair_base n rn a0).append (j := 2) (b := [_, _]) rfl
  unfold fe_pair_extra at hops
  dsimp only at hops
  split at hops
  · cases hops
  split at hops
  · split at hops
    · cases hops
    · cases hops
      exact Puts.append (i := 5) (j := 1) (puts_ite rfl rfl) (puts_ite rfl rfl)
  split at hops
  · cases hops
  split at hops
  · cases hops
    exact Puts.append (i := 5) (j := 1) (Puts.append (i := 3) (j := 2) (puts_ite (hbase _ _ _ _ _) rfl)
      (puts_put_pair_commit n _ _ _)) (puts_ite rfl rfl)
  split at hops
  · cases hops
  · cases hops
    exact rfl

theorem puts_ro_extra (hops : fe_ro_extra n insn pc = some ops) : Puts n 6 ops := by
  unfold fe_ro_extra at hops
  dsimp only at hops
  split_ifs at hops <;> cases hops
  all_goals first
    | exact rfl
    | exact Puts.append (i := 3) (j := 3) (puts_fe_extended n _ _ _) rfl

theorem puts_index_extra (hops : fe_index_extra n insn pc = some ops) : Puts n 6 ops := by
  unfold fe_index_extra at hops
  dsimp only at hops
  split_ifs at hops <;> cases hops
  all_goals first
    | exact rfl
    | exact (puts_put_ld_wb n pc _ _ _ _ _ _ _).mono (by decide)

theorem puts_ldst_extra (hops : fe_ldst_extra n insn pc = some ops) : Puts n 6 ops := by
  unfold fe_ldst_extra at hops
  dsimp only at hops
  split_ifs at hops
  all_goals first
    | exact puts_pair_extra n pc hops
    | exact puts_ro_extra n pc hops
    | exact puts_index_extra n pc hops
    | cases hops; exact rfl

theorem puts_ld1 (hops : fe_ld1 n insn pc = some ops) : Puts n 5 ops := by
  unfold fe_ld1 at hops
  dsimp only at hops
  split at hops
  · cases hops
  split at hops
  · cases hops
  next nregs hregs =>
  cases hops
  refine Puts.append (i := 4) (j := 1) (puts_iff.2 ?_) (puts_ite rfl (puts_ite rfl rfl))
  have hle : nregs ≤ 4 := by
    unfold ld1_nregs at hregs
    split at hregs <;> cases hregs <;> decide
  refine ⟨native_iff.2 fun o ho => ?_, fun o ho => ?_, by rwa [length_map, length_range]⟩
  all_goals
    obtain ⟨r, _, rfl⟩ := mem_map.mp ho
    split
  iterate 2 exact ⟨rfl, rfl⟩
  all_goals rfl

end native

end arm64emu
