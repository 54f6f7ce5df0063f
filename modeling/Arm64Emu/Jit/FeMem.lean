import Arm64Emu.Jit.FeAlu
import Arm64Emu.Predecode.LdSt

namespace arm64emu

open List

open Function

/-- An access as the outcome of an operation: it goes on in the state `f` makes
of the value, or leaves with the abort recorded. -/
def Access.toIR {α : Type} (r : Access α) (f : α → CPU → IRState) (n : Nat) : IRResult :=
  match r with
  | .ok v c => .next (f v c)
  | .fault c => .leave c (n + 1)

/-- Memory and vector registers aside, the CPU is the same. -/
def CPU.Frame (c c' : CPU) : Prop := ∃ m v, c' = { c with mem := m, v := v }

section frame

variable {c c' : CPU} (h : c.Frame c')

include h

theorem CPU.Frame.el : c'.el = c.el := by
  obtain ⟨m, v, rfl⟩ := h
  rfl

theorem CPU.Frame.cur_insn_pc : c'.cur_insn_pc = c.cur_insn_pc := by
  obtain ⟨m, v, rfl⟩ := h
  rfl

theorem CPU.Frame.trans {d : CPU} (hd : c'.Frame d) : c.Frame d := by
  obtain ⟨m, v, rfl⟩ := h
  obtain ⟨m', v', rfl⟩ := hd
  exact ⟨m', v', rfl⟩

theorem CPU.Frame.reg_xsp (r : Nat) : reg_xsp c' r = reg_xsp c r := by
  obtain ⟨m, v, rfl⟩ := h
  rfl

end frame

/-- Where it succeeds, the access changes memory and vector registers alone. -/
def Access.Keeps {α : Type} (c : CPU) (r : Access α) : Prop := ∀ a c', r = .ok a c' → c.Frame c'

section frames

variable (pg : Pager) (c : CPU)

theorem Access.Plain.keeps {α : Type} {c : CPU} {r : Access α} (hr : r.Plain c) : r.Keeps c := by
  rintro a c' rfl
  obtain ⟨m, rfl⟩ := hr
  exact ⟨m, c.v, rfl⟩

theorem Access.Plain.load_keeps {α : Type} {c : CPU} {r : Access α} (hr : r.Plain c) (f : α → V128) (vt : Nat) :
    (r.bind fun a d => .ok () (set_v d vt (f a))).Keeps c := by
  intro a c' h
  cases r with
  | fault d => cases h
  | ok val d =>
    obtain ⟨m, rfl⟩ := hr
    cases h
    exact ⟨m, _, rfl⟩

def vreg_access (L : Bool) (vt : Nat) (va : u64) (bytes : Nat) : Access Unit :=
  if L then vreg_load pg c vt va bytes else vreg_store pg c vt va bytes

theorem vreg_access_keeps (L : Bool) (vt : Nat) (va : u64) (bytes : Nat) :
    (vreg_access pg c L vt va bytes).Keeps c := by
  cases L with
  | true =>
    change (vreg_load pg c vt va bytes).Keeps c
    unfold vreg_load
    split
    · exact (mem_read128_plain pg c va).load_keeps id vt
    · exact (mem_read_plain pg c va bytes).load_keeps _ vt
  | false =>
    change (vreg_store pg c vt va bytes).Keeps c
    unfold vreg_store
    split
    · exact (mem_write128_plain pg c va _).keeps
    · exact (mem_write_plain pg c va bytes _).keeps

end frames

theorem Access.gives {α : Type} {c : CPU} {r : Access α} (hr : r.Keeps c) {f : α → CPU → IRState} {n : Nat}
    {g : IRState → IRResult} {want : α → CPU → Access Unit} {rn : Nat} {wb : Option u64}
    (h : ∀ a c', r = .ok a c' → c.Frame c' → (g (f a c')).Gives ((want a c').writeback rn wb) n) :
    ((r.toIR f n).bind g).Gives ((r.bind want).writeback rn wb) n := by
  cases hcase : r with
  | fault d => exact ⟨rfl, rfl⟩
  | ok a d => exact h a d hcase (hr a d hcase)

theorem Access.gives_last {c : CPU} {r : Access Unit} (hr : r.Keeps c) {f : Unit → CPU → IRState} {n : Nat}
    {g : IRState → IRResult} {rn : Nat} {wb : Option u64}
    (h : ∀ c', c.Frame c' → (g (f () c')).Gives (set_base c' rn wb) n) :
    ((r.toIR f n).bind g).Gives (r.writeback rn wb) n := by
  cases hcase : r with
  | fault d => exact ⟨rfl, rfl⟩
  | ok a d => exact h d (hr a d hcase)

section descriptors

variable {rt szlog : Nat} (hrt : rt < 32)

include hrt

theorem MDESC_SIGN_MAKE (hsz : szlog < 4) (sign is64 : Bool) :
    MDESC_SIGN (MDESC_MAKE rt szlog sign is64) = sign := by
  unfold MDESC_SIGN MDESC_MAKE
  rw [BitVec.getLsbD_ofNat, Nat.testBit_eq_decide_div_mod_eq]
  cases sign <;> cases is64 <;> simp only [Bool.toNat_true, Bool.toNat_false] <;>
    simp only [Nat.reduceLT, decide_true, Bool.true_and, decide_eq_true_eq, decide_eq_false_iff_not] <;> omega

theorem MDESC_SIGN_TMP (hsz : szlog < 4) (sign is64 : Bool) :
    MDESC_SIGN (MDESC_MAKE rt szlog sign is64 ||| MDESC_TMPBIT) = sign := by
  have hbit : MDESC_SIGN (MDESC_MAKE rt szlog sign is64 ||| MDESC_TMPBIT) =
      (MDESC_SIGN (MDESC_MAKE rt szlog sign is64) || MDESC_SIGN MDESC_TMPBIT) := BitVec.getLsbD_or
  rw [hbit, MDESC_SIGN_MAKE hrt hsz, show MDESC_SIGN MDESC_TMPBIT = false by decide, Bool.or_false]

theorem MDESC_RT_MAKEV (hsz : szlog < 8) : MDESC_RT (MDESC_MAKEV rt szlog) = rt := by
  unfold MDESC_RT MDESC_MAKEV
  have hlt : rt + szlog * 512 < 2 ^ 32 := by omega
  rw [BitVec.toNat_ofNat, Nat.mod_eq_of_lt hlt]
  omega

end descriptors

section steps

variable {env : IREnv} {k n : Nat} {s : IRState} {pc : u64}

theorem ir_access_toIR {α : Type} {o : IROp} (hpc : s.c.cur_insn_pc = o.imm2pc) (r : CPU → Access α)
    (f : α → IRState → IRState) :
    ir_access s o r f = (r s.c).toIR (fun v c => f v { s with c := c }) o.icnt := by
  unfold ir_access
  rw [← hpc]
  cases r s.c <;> rfl

variable (hpc : s.c.cur_insn_pc = pc)

include hpc

theorem run_ld (base : Nat) (off : u64) {rt szlog : Nat} (sign is64 : Bool) (os : List IROp) (hrt : rt < 32)
    (hsz : szlog < 4) :
    ir_run env k (put_ld n base off rt szlog sign is64 pc :: os) s =
      ((mem_read env.toPager s.c (vget s base + off) (2 ^ szlog)).toIR (fun v c => ⟨set_x c rt
        (at_width is64 (if sign then sign_extend v (8 * 2 ^ szlog) else v)), s.tmp⟩) n).bind
        (ir_run env (k + 1) os) := by
  have hsign : MDESC_SIGN (put_ld n base off rt szlog sign is64 pc).aux = sign := by
    exact Nat.mod_eq_of_lt hrt ▸ MDESC_SIGN_MAKE (Nat.mod_lt _ (by decide)) hsz sign is64
  rw [ir_run_cons]
  congr 1
  refine (ir_access_toIR (s := s) (o := put_ld n base off rt szlog sign is64 pc) hpc
    (mem_read env.toPager · (vget s base + off) (2 ^ szlog)) fun v s =>
      vset s (rx rt) (ld_value (put_ld n base off rt szlog sign is64 pc) v)).trans ?_
  congr 1
  funext v c
  refine (vset_rx { s with c := c } hrt _).trans ?_
  rw [ld_value, hsign]
  rfl

theorem run_ld_tmp (base : Nat) (off : u64) {j szlog : Nat} (sign is64 : Bool) (os : List IROp) (hj : j < 3)
    (hsz : szlog < 4) :
    ir_run env k (put_ld_tmp n base off j szlog sign is64 pc :: os) s =
      ((mem_read env.toPager s.c (vget s base + off) (2 ^ szlog)).toIR (fun v c => ⟨c,
        update s.tmp j (at_width is64 (if sign then sign_extend v (8 * 2 ^ szlog) else v))⟩)
          n).bind (ir_run env (k + 1) os) := by
  have hsign : MDESC_SIGN (put_ld_tmp n base off j szlog sign is64 pc).aux = sign :=
    MDESC_SIGN_TMP (by omega) hsz sign is64
  rw [ir_run_cons]
  congr 1
  refine (ir_access_toIR (s := s) (o := put_ld_tmp n base off j szlog sign is64 pc) hpc
    (mem_read env.toPager · (vget s base + off) (2 ^ szlog)) fun v s =>
      vset s (VREG_TMP0 + j) (ld_value (put_ld_tmp n base off j szlog sign is64 pc) v)).trans ?_
  congr 1
  funext v c
  refine (vset_tmp { s with c := c } hj _).trans ?_
  rw [ld_value, hsign]
  rfl

theorem run_st (base : Nat) (off : u64) (val szlog : Nat) (os : List IROp) :
    ir_run env k (put_st n base off val szlog pc :: os) s =
      ((mem_write env.toPager s.c (vget s base + off) (2 ^ szlog) (vget s val)).toIR
        (fun _ c => ⟨c, s.tmp⟩) n).bind (ir_run env (k + 1) os) := by
  rw [ir_run_cons]
  congr 1
  exact ir_access_toIR (s := s) (o := put_st n base off val szlog pc) hpc
    (mem_write env.toPager · (vget s base + off) (2 ^ szlog) (vget s val)) fun _ s => s

def put_v (L : Bool) (n base : Nat) (off : u64) (rt z : Nat) (pc : u64) : IROp :=
  if L then put_ldv n base off rt z pc else put_stv n base off rt z pc

theorem run_v (L : Bool) (base : Nat) (off : u64) {rt z : Nat} (os : List IROp) (hrt : rt < 32) (hsz : z < 8) :
    ir_run env k (put_v L n base off rt z pc :: os) s =
      ((vreg_access env.toPager s.c L rt (vget s base + off) (2 ^ z)).toIR (fun _ c => ⟨c, s.tmp⟩) n).bind
        (ir_run env (k + 1) os) := by
  rw [ir_run_cons]
  congr 1
  have haccess (hpc : s.c.cur_insn_pc = (put_v L n base off rt z pc).imm2pc) := ir_access_toIR hpc
    (vreg_access env.toPager · L (MDESC_RT (MDESC_MAKEV rt z)) (vget s base + off) (2 ^ z)) fun _ s => s
  cases L <;> exact (haccess hpc).trans (by rw [MDESC_RT_MAKEV hrt hsz]; rfl)

end steps

section writeback

variable {env : IREnv} {k n : Nat} {s : IRState} (hel : s.c.el = 0) {rn : Nat} (hrn : rn < 32)

include hel hrn

/-- The base is moved on by a 64-bit addition, of SP too. -/
theorem run_wb (imm : u64) : ir_run env k [put_wb n rn imm] s =
    .next { s with c := set_xsp s.c rn (reg_xsp s.c rn + imm) } := by
  rw [put_wb, ir_run_alu env k s [] rfl, ir_alu_put, show vget s rn = _ from vget_rsp s hel hrn]
  exact congrArg IRResult.next (vset_rsp s hel hrn _)

theorem gives_tail {c : CPU} (hc : c.Frame s.c) (imm : u64) (wb : Bool) :
    (ir_run env k (if wb then [put_wb n rn imm] else []) s).Gives
      (set_base s.c rn (if wb then some (reg_xsp c rn + imm) else none)) n := by
  cases wb with
  | false => rfl
  | true =>
    rw [if_pos rfl, run_wb hel hrn, hc.reg_xsp]
    rfl

theorem run_wb_tmp2 (imm : u64) : ir_run env k [ir_put n .IRO_ADDI true (rsp rn) VREG_TMP2 0 0 imm 0#32] s =
    .next { s with c := set_xsp s.c rn (s.tmp 2 + imm) } := by
  rw [ir_run_alu env k s [] rfl, ir_alu_put]
  exact congrArg IRResult.next (vset_rsp s hel hrn _)

end writeback

/-- A loaded register other than the base leaves the base alone. -/
theorem reg_xsp_set_x (c : CPU) {rt rn : Nat} (v : u64) (h : ¬ (rt = rn ∧ rt ≠ 31)) :
    reg_xsp (set_x c rt v) rn = reg_xsp c rn := by
  unfold reg_xsp set_x
  by_cases h31 : rt = 31
  · rw [if_pos h31]
  have hne : rn ≠ rt := fun heq => h ⟨heq.symm, h31⟩
  rw [if_neg h31]
  split
  · rfl
  · exact update_of_ne hne _ _

theorem set_x_el (c : CPU) (n : Nat) (v : u64) : (set_x c n v).el = c.el := by
  unfold set_x
  split <;> rfl

theorem run_commit (env : IREnv) (k n : Nat) (s : IRState) {rt j : Nat} (hrt : rt < 32) (hj : j < 3) (w : Bool)
    (os : List IROp) :
    ir_run env k ((if rt = 31 then [] else [ir_put n .IRO_MOV w rt (VREG_TMP0 + j) 0 0 0#64 0#32]) ++ os) s =
      ir_run env (if rt = 31 then k else k + 1) os { s with c := set_x s.c rt (at_width w (s.tmp j)) } := by
  by_cases h31 : rt = 31
  · rw [if_pos h31, if_pos h31, h31]
    rfl
  have hset := vset_rx s hrt (at_width w (s.tmp j))
  rw [rx, if_neg h31] at hset
  rw [if_neg h31, if_neg h31, singleton_append, ir_run_alu env k s os rfl, ir_alu_put, vget_tmp s hj,
    ← hset]
  exact congrArg (fun v => ir_run env (k + 1) os (vset s rt v)) (at_width_at_width _ w)

section accesses

variable {env : IREnv} {k n : Nat} {s : IRState} {pc : u64} (hpc : s.c.cur_insn_pc = pc)

include hpc

variable {rn : Nat} {va : u64} {f : u64 → u64}

theorem gives_ld (base : Nat) (off : u64) {rt szlog : Nat} (sign is64 : Bool) (hrt : rt < 32) (hsz : szlog < 4)
    (hva : vget s base + off = va)
    (hf : ∀ v c', mem_read env.toPager s.c va (2 ^ szlog) = .ok v c' →
      at_width is64 (if sign then sign_extend v (8 * 2 ^ szlog) else v) = f v) (rn : Nat) :
    (ir_run env k [put_ld n base off rt szlog sign is64 pc] s).Gives
      ((load_x env.toPager s.c va (2 ^ szlog) f rt).writeback rn none) n := by
  rw [run_ld hpc base off sign is64 [] hrt hsz, hva]
  refine Access.gives (mem_read_plain _ _ _ _).keeps ?_
  intro v c' hread _
  rw [hf v c' hread]
  rfl

theorem gives_st (base : Nat) (off : u64) {rt : Nat} (szlog : Nat) (hrt : rt < 32) (hel : s.c.el = 0)
    (hva : vget s base + off = va) (hrn : rn < 32) (imm : u64) (wb : Bool) :
    (ir_run env k (put_st n base off (rx rt) szlog pc :: if wb then [put_wb n rn imm] else []) s).Gives
      ((mem_write env.toPager s.c va (2 ^ szlog) (reg_x s.c rt)).writeback rn
        (if wb then some (reg_xsp s.c rn + imm) else none)) n := by
  rw [run_st hpc, hva, vget_rx s hrt]
  exact Access.gives_last (mem_write_plain _ _ _ _ _).keeps fun c' hc =>
    gives_tail (s := ⟨c', s.tmp⟩) (hc.el.trans hel) hrn hc imm wb

theorem gives_v (L : Bool) (base : Nat) (off : u64) {rt z : Nat} (hrt : rt < 32) (hsz : z < 8) (hel : s.c.el = 0)
    (hva : vget s base + off = va) (hrn : rn < 32) (imm : u64) (wb : Bool) :
    (ir_run env k (put_v L n base off rt z pc :: if wb then [put_wb n rn imm] else []) s).Gives
      ((vreg_access env.toPager s.c L rt va (2 ^ z)).writeback rn
        (if wb then some (reg_xsp s.c rn + imm) else none)) n := by
  rw [run_v hpc L base off _ hrt hsz, hva]
  exact Access.gives_last (vreg_access_keeps _ _ _ _ _ _) fun c' hc =>
    gives_tail (s := ⟨c', s.tmp⟩) (hc.el.trans hel) hrn hc imm wb

/-- A load with writeback: where it loads its own base, the writeback still
takes the old one. -/
theorem gives_ld_wb (imm : u64) {rt szlog : Nat} (sign is64 pre : Bool) (hrt : rt < 32)
    (hrn : rn < 32) (hsz : szlog < 4) (hel : s.c.el = 0)
    (hf : ∀ v c', mem_read env.toPager s.c (reg_xsp s.c rn + if pre then imm else 0#64) (2 ^ szlog) = .ok v c' →
      at_width is64 (if sign then sign_extend v (8 * 2 ^ szlog) else v) = f v) :
    (ir_run env k (put_ld_wb n rn imm rt szlog sign is64 pre pc) s).Gives
      ((load_x env.toPager s.c (reg_xsp s.c rn + if pre then imm else 0#64) (2 ^ szlog) f rt).writeback rn
        (some (reg_xsp s.c rn + imm))) n := by
  have hbase := vget_rsp s hel hrn
  unfold put_ld_wb
  dsimp only
  split
  next h =>
    obtain ⟨rfl, h31⟩ := h
    rw [ir_run_alu env k s _ rfl, ir_alu_put, hbase]
    change (ir_run env (k + 1) _ (vset s VREG_TMP2 (reg_xsp s.c rt))).Gives _ n
    rw [run_ld (s := vset s VREG_TMP2 (reg_xsp s.c rt)) hpc _ _ sign is64 _ hrt hsz]
    refine Access.gives (mem_read_plain _ _ _ _).keeps ?_
    intro v c' hread hc
    have hwb := @run_wb_tmp2 env (k + 1 + 1) n ⟨set_x c' rt (f v), (vset s VREG_TMP2 (reg_xsp s.c rt)).tmp⟩
      ((set_x_el _ _ _).trans (hc.el.trans hel)) _ hrn imm
    rw [rsp] at hwb
    rw [hf v c' hread, hwb]
    rfl
  rename_i h
  rw [run_ld hpc _ _ sign is64 _ hrt hsz, hbase]
  refine Access.gives (mem_read_plain _ _ _ _).keeps ?_
  intro v c' hread hc
  rw [hf v c' hread, run_wb ((set_x_el _ _ _).trans (hc.el.trans hel)) hrn imm, reg_xsp_set_x _ _ h,
    hc.reg_xsp]
  rfl

/-- Both halves of a pair are loaded before either register is written; the
base operand `b` is none of those. -/
theorem gives_ld_pair (b : Nat) (o₀ o₁ : u64) {szl rt rt2 : Nat} (sign is64 w : Bool) (hsz : szl < 4)
    {a₀ a₁ : u64} (h₀ : vget s b + o₀ = a₀)
    (h₁ : ∀ c' t, s.c.Frame c' → vget ⟨c', update s.tmp 0 t⟩ b + o₁ = a₁)
    (hf : ∀ c v c' a, mem_read env.toPager c a (2 ^ szl) = .ok v c' →
      at_width w (at_width is64 (if sign then sign_extend v (8 * 2 ^ szl) else v)) = f v)
    (tail : List IROp) {wb : Option u64} (hrt : rt < 32) (hrt2 : rt2 < 32)
    (htail : ∀ k c' t₀ t₁, s.c.Frame c' →
      (ir_run env k tail ⟨set_x (set_x c' rt (at_width w t₀)) rt2 (at_width w t₁),
        update (update s.tmp 0 t₀) 1 t₁⟩).Gives
        (set_base (set_x (set_x c' rt (at_width w t₀)) rt2 (at_width w t₁)) rn wb) n) :
    (ir_run env k ([put_ld_tmp n b o₀ 0 szl sign is64 pc, put_ld_tmp n b o₁ 1 szl sign is64 pc] ++
      put_pair_commit n rt rt2 w ++ tail) s).Gives
      (((mem_read env.toPager s.c a₀ (2 ^ szl)).bind fun x c => (mem_read env.toPager c a₁ (2 ^ szl)).bind fun y c =>
        .ok () (set_x (set_x c rt (f x)) rt2 (f y))).writeback rn wb) n := by
  rw [append_assoc, cons_append, cons_append, nil_append,
    run_ld_tmp hpc b o₀ sign is64 _ (by decide) hsz, h₀]
  refine Access.gives (mem_read_plain _ _ _ _).keeps ?_
  intro x c hx hc
  rw [run_ld_tmp (hc.cur_insn_pc.trans hpc) b o₁ sign is64 _ (by decide) hsz, h₁ c _ hc]
  refine Access.gives (mem_read_plain _ _ _ _).keeps ?_
  intro y c' hy hc'
  rw [put_pair_commit, append_assoc]
  refine (congrArg (IRResult.Gives · _ n) (run_commit env _ n _ hrt (j := 0) (by decide) w _)).mpr ?_
  refine (congrArg (IRResult.Gives · _ n) (run_commit env _ n _ hrt2 (j := 1) (by decide) w _)).mpr ?_
  rw [← hf _ x _ _ hx, ← hf _ y _ _ hy]
  exact htail _ c' _ _ (hc.trans hc')

theorem gives_vector_pair (L : Bool) (o₀ o₁ : u64) {rt rt2 z : Nat} (hrt : rt < 32) (hrt2 : rt2 < 32)
    (hsz : z < 8) (hel : s.c.el = 0) (hrn : rn < 32) {a₀ : u64} (h₀ : reg_xsp s.c rn + o₀ = a₀)
    (h₁ : o₁ = o₀ + BitVec.ofNat 64 (2 ^ z)) (sw : Bool) (imm : u64) (wb : Bool) :
    (ir_run env k ([put_v L n (rsp rn) o₀ rt z pc, put_v L n (rsp rn) o₁ rt2 z pc] ++
        if wb then [put_wb n rn imm] else []) s).Gives
      ((ldst_pair_access env.toPager s.c true L sw rt rt2 a₀ (2 ^ z)).writeback rn
        (if wb then some (reg_xsp s.c rn + imm) else none)) n := by
  have hbase (c' : CPU) (hc : s.c.Frame c') : vget ⟨c', s.tmp⟩ (rsp rn) = reg_xsp s.c rn :=
    (vget_rsp ⟨c', s.tmp⟩ (hc.el.trans hel) hrn).trans (hc.reg_xsp rn)
  have hnext : reg_xsp s.c rn + o₁ = a₀ + BitVec.ofNat 64 (2 ^ z) := by
    rw [h₁, ← h₀, BitVec.add_assoc]
  have hpair : ldst_pair_access env.toPager s.c true L sw rt rt2 a₀ (2 ^ z) =
      (vreg_access env.toPager s.c L rt a₀ (2 ^ z)).bind fun _ c =>
        vreg_access env.toPager c L rt2 (a₀ + BitVec.ofNat 64 (2 ^ z)) (2 ^ z) := by cases L <;> rfl
  rw [hpair, cons_append, cons_append, nil_append, run_v hpc _ _ _ _ hrt hsz, vget_rsp s hel hrn, h₀]
  refine Access.gives (vreg_access_keeps _ _ _ _ _ _) ?_
  intro _ c' _ hc
  rw [run_v (s := ⟨c', s.tmp⟩) (hc.cur_insn_pc.trans hpc) _ _ _ _ hrt2 hsz, hbase c' hc, hnext]
  exact Access.gives_last (vreg_access_keeps _ _ _ _ _ _) fun d hd =>
    gives_tail (s := ⟨d, s.tmp⟩) (hd.el.trans (hc.el.trans hel)) hrn (hc.trans hd) imm wb

theorem gives_st_pair (o₀ o₁ : u64) {rt rt2 : Nat} (szl : Nat) (hrt : rt < 32) (hrt2 : rt2 < 32)
    (hel : s.c.el = 0) (hrn : rn < 32) {a₀ a₁ : u64} (h₀ : reg_xsp s.c rn + o₀ = a₀)
    (h₁ : reg_xsp s.c rn + o₁ = a₁) (imm : u64) (wb : Bool) :
    (ir_run env k ([put_st n (rsp rn) o₀ (rx rt) szl pc, put_st n (rsp rn) o₁ (rx rt2) szl pc] ++
        if wb then [put_wb n rn imm] else []) s).Gives
      (((mem_write env.toPager s.c a₀ (2 ^ szl) (reg_x s.c rt)).bind fun _ c =>
        mem_write env.toPager c a₁ (2 ^ szl) (reg_x c rt2)).writeback rn
        (if wb then some (reg_xsp s.c rn + imm) else none)) n := by
  rw [cons_append, cons_append, nil_append, run_st hpc, vget_rsp s hel hrn, h₀,
    vget_rx s hrt]
  refine Access.gives (mem_write_plain _ _ _ _ _).keeps ?_
  intro _ c' _ hc
  rw [run_st (s := ⟨c', s.tmp⟩) (hc.cur_insn_pc.trans hpc), vget_rsp ⟨c', s.tmp⟩ (hc.el.trans hel) hrn,
    hc.reg_xsp, h₁, vget_rx ⟨c', s.tmp⟩ hrt2]
  exact Access.gives_last (mem_write_plain _ _ _ _ _).keeps fun d hd =>
    gives_tail (s := ⟨d, s.tmp⟩) (hd.el.trans (hc.el.trans hel)) hrn (hc.trans hd) imm wb

end accesses

section pairs

variable {env : IREnv} {k n : Nat} {s : IRState} (hel : s.c.el = 0)

include hel

theorem run_pair_base {rn : Nat} (hrn : rn < 32) (a₀ : u64) (os : List IROp) :
    ir_run env k (put_pair_base n rn a₀ :: os) s =
      ir_run env (k + 1) os (vset s VREG_TMP2 (reg_xsp s.c rn + a₀)) := by
  unfold put_pair_base
  by_cases h0 : a₀ = 0#64
  · rw [if_pos h0, ir_run_alu env k s os rfl, ir_alu_put, vget_rsp s hel hrn, h0, BitVec.add_zero]
    rfl
  · rw [if_neg h0, ir_run_alu env k s os rfl, ir_alu_put, vget_rsp s hel hrn]
    rfl

theorem gives_ld_pair_base {pc : u64} (hpc : s.c.cur_insn_pc = pc) {rt rt2 rn szl : Nat} (hrt : rt < 32)
    (hrt2 : rt2 < 32) (hrn : rn < 32) (hsz : szl < 4) (a₀ : u64) (sign is64 w : Bool) {f : u64 → u64}
    (hf : ∀ c v c' a, mem_read env.toPager c a (2 ^ szl) = .ok v c' →
      at_width w (at_width is64 (if sign then sign_extend v (8 * 2 ^ szl) else v)) = f v)
    {esz : u64} (hesz : BitVec.ofNat 64 (2 ^ szl) = esz) (imm : u64) (wb : Bool) :
    (ir_run env k (put_pair_base n rn a₀ :: [put_ld_tmp n VREG_TMP2 0#64 0 szl sign is64 pc,
        put_ld_tmp n VREG_TMP2 esz 1 szl sign is64 pc] ++ put_pair_commit n rt rt2 w ++
        if wb then [ir_put n .IRO_ADDI true (rsp rn) VREG_TMP2 0 0 imm 0#32] else []) s).Gives
      (((mem_read env.toPager s.c (reg_xsp s.c rn + a₀) (2 ^ szl)).bind fun x c =>
        (mem_read env.toPager c (reg_xsp s.c rn + a₀ + BitVec.ofNat 64 (2 ^ szl)) (2 ^ szl)).bind fun y c =>
          .ok () (set_x (set_x c rt (f x)) rt2 (f y))).writeback rn
        (if wb then some (reg_xsp s.c rn + a₀ + imm) else none)) n := by
  rw [cons_append, cons_append, run_pair_base hel hrn]
  refine gives_ld_pair (s := vset s VREG_TMP2 (reg_xsp s.c rn + a₀)) hpc VREG_TMP2 0#64 esz sign is64 w
    hsz ?_ ?_ hf _ hrt hrt2 ?_
  · exact BitVec.add_zero _
  · intro c' t _
    rw [hesz]
    rfl
  intro k' c' t₀ t₁ hc
  cases wb with
  | false => rfl
  | true =>
    rw [if_pos rfl, run_wb_tmp2 ((set_x_el _ _ _).trans ((set_x_el _ _ _).trans (hc.el.trans hel))) hrn]
    rfl

end pairs

end arm64emu
