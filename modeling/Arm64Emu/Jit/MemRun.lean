import Arm64Emu.Jit.Ir

namespace arm64emu

open List

def IROp.data_reg (o : IROp) : Nat := if o.op = .IRO_ST then o.b else o.dst

/-- The loop of `jit_mem_run_len` from its `k`-th operation on: `lo` and `hi` bound the bytes so far as displacements
from the base. The source's `s64` sums must not overflow, and are integers here. -/
def mem_run_loop (o : IROp) : Nat → IROp → Int → Int → List Nat → List IROp → Nat
  | k, _, _, _, _, [] => k
  | k, prev, lo, hi, seen, p :: rest =>
    if k < 8 then
      if p.op ≠ o.op ∨ p.a ≠ o.a then k
      else if o.op = .IRO_LD ∧ prev.dst = o.a then k
      else
        let nlo := min p.imm.toInt lo
        let nhi := max (p.imm.toInt + 2 ^ p.cc) hi
        if 4096 < nhi - nlo then k
        else if p.data_reg ∈ seen then mem_run_loop o (k + 1) p nlo nhi seen rest
        else if 6 ≤ seen.length then k
        else mem_run_loop o (k + 1) p nlo nhi (seen ++ [p.data_reg]) rest
    else k

def jit_mem_run_len (ir : List IROp) (i : Fin ir.length) : Nat :=
  let o := ir.get i
  if o.op ≠ .IRO_LD ∧ o.op ≠ .IRO_ST then 1
  else mem_run_loop o 1 o o.imm.toInt (o.imm.toInt + 2 ^ o.cc) [o.data_reg] (ir.drop (i + 1))

/-- What the loop keeps of the members `ms` of a run that starts with `o`. -/
structure MemRun (o : IROp) (ms : List IROp) (lo hi : Int) (seen : List Nat) : Prop where
  same : ∀ p ∈ ms, p.op = o.op ∧ p.a = o.a
  inside : ∀ p ∈ ms, lo ≤ p.imm.toInt ∧ p.imm.toInt + 2 ^ p.cc ≤ hi
  span : 2 ^ o.cc ≤ 4096 → hi - lo ≤ 4096
  regs : ∀ p ∈ ms, p.data_reg ∈ seen
  few : seen.length ≤ 6
  base : o.op = .IRO_LD → ∀ p ∈ ms.dropLast, p.dst ≠ o.a

section scan

variable {o prev p : IROp} {ms : List IROp} {lo hi : Int} {seen seen' : List Nat}

theorem MemRun.single (o : IROp) : MemRun o [o] o.imm.toInt (o.imm.toInt + 2 ^ o.cc) [o.data_reg] where
  same := by simp
  inside := by simp
  span h := by
    have hcast : (2 : Int) ^ o.cc ≤ 4096 := by exact_mod_cast h
    omega
  regs := by simp
  few := by simp
  base := by simp

/-- One turn: what the scan checks of the next operation makes it a member. -/
theorem MemRun.snoc (h : MemRun o (ms ++ [prev]) lo hi seen) (hsame : p.op = o.op ∧ p.a = o.a)
    (hprev : ¬(o.op = .IRO_LD ∧ prev.dst = o.a))
    (hspan : max (p.imm.toInt + 2 ^ p.cc) hi - min p.imm.toInt lo ≤ 4096) (hreg : p.data_reg ∈ seen')
    (hseen : seen ⊆ seen') (hfew : seen'.length ≤ 6) :
    MemRun o (ms ++ [prev] ++ [p]) (min p.imm.toInt lo) (max (p.imm.toInt + 2 ^ p.cc) hi) seen' where
  same := forall_mem_append.2 ⟨h.same, forall_mem_singleton.2 hsame⟩
  inside := by
    refine forall_mem_append.2 ⟨fun q hq => ?_, forall_mem_singleton.2 (by omega)⟩
    have hold := h.inside q hq
    omega
  span _ := hspan
  regs := forall_mem_append.2 ⟨fun q hq => hseen (h.regs q hq), forall_mem_singleton.2 hreg⟩
  few := hfew
  base hld := by
    have hold := h.base hld
    rw [dropLast_concat] at hold ⊢
    exact forall_mem_append.2 ⟨hold, forall_mem_singleton.2 fun heq => hprev ⟨hld, heq⟩⟩

theorem mem_run_loop_spec (rest : List IROp) {k : Nat} (h : MemRun o (ms ++ [prev]) lo hi seen) (hk : k ≤ 8) :
    ∃ j ≤ rest.length, mem_run_loop o k prev lo hi seen rest = k + j ∧ k + j ≤ 8 ∧
      ∃ lo hi seen, MemRun o (ms ++ [prev] ++ rest.take j) lo hi seen := by
  induction rest generalizing ms prev lo hi seen k with
  | nil => exact ⟨0, le_rfl, rfl, hk, lo, hi, seen, by simpa using h⟩
  | cons p rest ih =>
    have hgo {lo' hi' seen'} (hlt : k + 1 ≤ 8) (hnext : MemRun o (ms ++ [prev] ++ [p]) lo' hi' seen') :
        ∃ j ≤ (p :: rest).length, mem_run_loop o (k + 1) p lo' hi' seen' rest = k + j ∧ k + j ≤ 8 ∧
          ∃ lo hi seen, MemRun o (ms ++ [prev] ++ (p :: rest).take j) lo hi seen := by
      obtain ⟨j, hj, heq, hle, lo, hi, seen, hrun⟩ := ih hnext hlt
      refine ⟨j + 1, Nat.succ_le_succ hj, by omega, by omega, lo, hi, seen, ?_⟩
      rwa [take_succ_cons, append_cons]
    rw [mem_run_loop]
    dsimp only
    split_ifs with hlt hother hprev hspan hin hfull
    iterate 3 exact ⟨0, Nat.zero_le _, rfl, hk, lo, hi, seen, by simpa using h⟩
    · exact hgo hlt (h.snoc (by tauto) hprev (by omega) hin (List.Subset.refl _) h.few)
    · exact ⟨0, Nat.zero_le _, rfl, hk, lo, hi, seen, by simpa using h⟩
    · refine hgo hlt (h.snoc (by tauto) hprev (by omega) (by simp) (subset_append_left _ _) ?_)
      rw [length_append, length_singleton]
      omega
    · exact ⟨0, Nat.zero_le _, rfl, hk, lo, hi, seen, by simpa using h⟩

end scan

section sequential

variable {env : IREnv} {r : Nat}

theorem vget_vset_ne (s : IRState) {d : Nat} (v : u64) (h : d ≠ r) : vget (vset s d v) r = vget s r := by
  unfold vget vset
  split_ifs <;> simp_all [Function.update_apply] <;> omega

theorem ir_step_keeps {k : Nat} {s s' : IRState} {q : IROp} (hop : q.op = .IRO_LD ∨ q.op = .IRO_ST)
    (hdst : q.op = .IRO_LD → q.dst ≠ r) (h : ir_step env k s q = .next s') : vget s' r = vget s r := by
  unfold ir_step ir_access at h
  rcases hop with hop | hop
  · have hplain := mem_read_plain env.toPager { s.c with cur_insn_pc := q.imm2pc } (vget s q.a + q.imm) (2 ^ q.cc)
    simp only [hop] at h
    split at h
    next v c hread =>
      rw [hread] at hplain
      obtain ⟨m, rfl⟩ := hplain
      cases h
      exact vget_vset_ne _ _ (hdst hop)
    next => cases h
  have hplain := mem_write_plain env.toPager { s.c with cur_insn_pc := q.imm2pc } (vget s q.a + q.imm) (2 ^ q.cc)
    (vget s q.b)
  simp only [hop] at h
  split at h
  next v c hwrite =>
    rw [hwrite] at hplain
    obtain ⟨m, rfl⟩ := hplain
    cases h
    rfl
  next => cases h

theorem ir_run_keeps {s s' : IRState} (pre : List IROp) {k : Nat}
    (hop : ∀ q ∈ pre, (q.op = .IRO_LD ∨ q.op = .IRO_ST) ∧ (q.op = .IRO_LD → q.dst ≠ r))
    (h : ir_run env k pre s = .next s') : vget s' r = vget s r := by
  induction pre generalizing s k with
  | nil =>
    cases h
    rfl
  | cons q pre ih =>
    obtain ⟨hq, hrest⟩ := forall_mem_cons.1 hop
    rw [ir_run_cons] at h
    cases hstep : ir_step env k s q with
    | leave c n =>
      rw [hstep] at h
      cases h
    | next t =>
      rw [hstep] at h
      rw [ih hrest h, ir_step_keeps hq.1 hq.2 hstep]

end sequential

/-- The members of a run are consecutive, of one kind and on one base that none of them writes before the last, so
each goes to the address the base had at the start plus its displacement; their bytes are within a page and their
registers at most six. -/
theorem mem_run_sequential (ir : List IROp) (i : Fin ir.length) :
    let o := ir.get i
    let ms := (ir.drop i).take (jit_mem_run_len ir i)
    ms.length = jit_mem_run_len ir i ∧ jit_mem_run_len ir i ≤ 8 ∧ (o.op = .IRO_LD ∨ o.op = .IRO_ST →
      (∀ p ∈ ms, p.op = o.op ∧ p.a = o.a) ∧
      (∃ lo hi, (2 ^ o.cc ≤ 4096 → hi - lo ≤ 4096) ∧
        ∀ p ∈ ms, lo ≤ p.imm.toInt ∧ p.imm.toInt + 2 ^ p.cc ≤ hi) ∧
      (∃ seen : List Nat, seen.length ≤ 6 ∧ ∀ p ∈ ms, p.data_reg ∈ seen) ∧
      ∀ pre p post, ms = pre ++ p :: post → (∀ q ∈ pre, q.op = .IRO_LD → q.dst ≠ p.a) ∧
        ∀ env k s s', ir_run env k pre s = .next s' → vget s' p.a + p.imm = vget s o.a + p.imm) := by
  intro o ms
  have hdrop : ir.drop i = o :: ir.drop (i + 1) := drop_eq_getElem_cons i.2
  by_cases hop : o.op ≠ .IRO_LD ∧ o.op ≠ .IRO_ST
  · have hlen : jit_mem_run_len ir i = 1 := if_pos hop
    refine ⟨?_, hlen ▸ by decide, fun h => by tauto⟩
    simp only [ms, hlen, hdrop, take_succ_cons, take_zero, length_singleton]
  have hone : MemRun o ([] ++ [o]) _ _ _ := MemRun.single o
  obtain ⟨j, hj, heq, hle, lo, hi, seen, hrun⟩ := mem_run_loop_spec (ir.drop (i + 1)) hone (k := 1) (by decide)
  have hlen : jit_mem_run_len ir i = 1 + j := (if_neg hop).trans heq
  have hms : ms = [] ++ [o] ++ (ir.drop (i + 1)).take j := by
    simp only [ms, hlen, hdrop, Nat.add_comm 1, take_succ_cons]
    rfl
  rw [← hms] at hrun
  refine ⟨?_, hlen ▸ hle, fun hmem => ⟨hrun.same, ⟨lo, hi, hrun.span, hrun.inside⟩, ⟨seen, hrun.few, hrun.regs⟩, ?_⟩⟩
  · rw [hms, hlen, length_append, length_take, min_eq_left hj]
    rfl
  intro pre p post hsplit
  have hkeeps : ∀ q ∈ pre, (q.op = .IRO_LD ∨ q.op = .IRO_ST) ∧ (q.op = .IRO_LD → q.dst ≠ o.a) := by
    intro q hq
    have hop := (hrun.same q (by rw [hsplit]; exact mem_append_left _ hq)).1
    refine ⟨hop ▸ hmem, fun hld => hrun.base (hop ▸ hld) q ?_⟩
    rw [hsplit, dropLast_append_of_ne_nil (cons_ne_nil p post)]
    exact mem_append_left _ hq
  have hbase : p.a = o.a := (hrun.same p (by rw [hsplit]; simp)).2
  rw [hbase]
  exact ⟨fun q hq => (hkeeps q hq).2, fun env k s s' h => by rw [ir_run_keeps pre hkeeps h]⟩

end arm64emu
