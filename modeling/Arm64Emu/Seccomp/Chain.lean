import Mathlib.Tactic.IntervalCases
import Arm64Emu.Core.Sysreg
import Arm64Emu.Seccomp.Safe

namespace arm64emu

open List

/-- One installed program: what `seccomp_install` pushes has passed
`bpf_validate`, and carries the length the chain budget counts. -/
structure SeccompProg where
  insns : List GSockFilter
  elen : Nat
  valid : bpf_validate insns = 0
  elen_eq : elen = ebpf_len insns

/-- The mode of a task. -/
inductive SeccompMode where
  | G_SECCOMP_MODE_DISABLED
  | G_SECCOMP_MODE_STRICT
  | G_SECCOMP_MODE_FILTER
deriving DecidableEq, Repr

/-- The seccomp fields of the machine; the chain is newest first. -/
structure Seccomp where
  seccomp_mode : SeccompMode := .G_SECCOMP_MODE_DISABLED
  seccomp_filters : List SeccompProg := []

def G_SECCOMP_RET_KILL_PROCESS : u32 := 0x80000000#32
def G_SECCOMP_RET_KILL_THREAD : u32 := 0x00000000#32
def G_SECCOMP_RET_TRAP : u32 := 0x00030000#32
def G_SECCOMP_RET_ERRNO : u32 := 0x00050000#32
def G_SECCOMP_RET_TRACE : u32 := 0x7ff00000#32
def G_SECCOMP_RET_LOG : u32 := 0x7ffc0000#32
def G_SECCOMP_RET_ALLOW : u32 := 0x7fff0000#32
def G_SECCOMP_RET_ACTION_FULL : u32 := 0xffff0000#32
def G_SECCOMP_RET_ACTION : u32 := 0x7fff0000#32
def G_SECCOMP_RET_DATA : u32 := 0x0000ffff#32

def G_AUDIT_ARCH_AARCH64 : u32 := 0xc00000b7#32

/-- One turn of the loop of `seccomp_run_chain`, for a filter that returned
`cur`. -/
def seccomp_keep (ret cur : u32) : u32 :=
  if cur &&& G_SECCOMP_RET_ACTION < ret &&& G_SECCOMP_RET_ACTION then cur else ret

/-- What every filter of the chain returns, newest first. -/
def seccomp_rets (chain : List SeccompProg) (d : GSeccompData) : List u32 :=
  chain.map fun p => bpf_run p.insns d

def seccomp_run_chain (chain : List SeccompProg) (d : GSeccompData) : u32 :=
  (seccomp_rets chain d).foldl seccomp_keep G_SECCOMP_RET_ALLOW

def strict_allows (nr : u64) : Bool :=
  decide (nr = 63#64) || decide (nr = 64#64) || decide (nr = 93#64) || decide (nr = 139#64)

structure PtraceSelf where
  active : Bool
  options : u32

def G_PTRACE_O_TRACESECCOMP : u32 := 0x00000080#32
def G_PTRACE_O_SUSPEND_SECCOMP : u32 := 0x00200000#32

def PtraceSelf.has (p : PtraceSelf) (option : u32) : Bool := p.active && decide (p.options &&& option ≠ 0#32)

def SIGKILL : Nat := 9
def SIGSYS : Nat := 31

/-- How `seccomp_gate` ends: its return value 0, 1, 2 or 3, or the end of the
process. -/
inductive GateResult where
  | proceed
  | skip (ret : Int)
  | trap (ret : Int) (trap_data : u16)
  | rewritten
  | guest_terminate_by_signal (sig : Nat)
deriving DecidableEq, Repr

/-- The `switch` of `seccomp_gate` on the winning action; `on_trace` is its
`SECCOMP_RET_TRACE` branch. -/
def seccomp_act (c : CPU) (action : u32) (on_trace : CPU × GateResult) : CPU × GateResult :=
  let full := action &&& G_SECCOMP_RET_ACTION_FULL
  if full = G_SECCOMP_RET_ALLOW ∨ full = G_SECCOMP_RET_LOG then (c, .proceed)
  else if full = G_SECCOMP_RET_ERRNO then
    let e := (action &&& G_SECCOMP_RET_DATA).toNat
    (c, .skip (-((if 4095 < e then 4095 else e : Nat) : Int)))
  else if full = G_SECCOMP_RET_TRAP then
    (c, .trap (-ENOSYS) ((action &&& G_SECCOMP_RET_DATA).setWidth 16))
  else if full = G_SECCOMP_RET_TRACE then on_trace
  else (c, .guest_terminate_by_signal SIGSYS)

def seccomp_data (c : CPU) (nr : u64) (args : Fin 6 → u64) : GSeccompData :=
  ⟨nr.setWidth 32, G_AUDIT_ARCH_AARCH64, c.pc, args⟩

/-- The part of `seccomp_gate` that does not depend on `recheck`. -/
def seccomp_judge (m : Seccomp) (self : PtraceSelf) (c : CPU) (nr : u64) (args : Fin 6 → u64)
    (on_trace : u32 → CPU × GateResult) : CPU × GateResult :=
  if self.has G_PTRACE_O_SUSPEND_SECCOMP then (c, .proceed)
  else if m.seccomp_mode = .G_SECCOMP_MODE_STRICT then
    if strict_allows nr then (c, .proceed) else (c, .guest_terminate_by_signal SIGKILL)
  else
    let action := seccomp_run_chain m.seccomp_filters (seccomp_data c nr args)
    seccomp_act c action (on_trace action)

def seccomp_gate_recheck (m : Seccomp) (self : PtraceSelf) (c : CPU) (nr : u64) (args : Fin 6 → u64) :
    CPU × GateResult :=
  seccomp_judge m self c nr args fun _ => (c, .proceed)

/-- The `SECCOMP_RET_TRACE` branch of `seccomp_gate`. `ptrace_report_event` leaves the registers and the ptrace state
as the tracer wants them. -/
def seccomp_trace (ptrace_report_event : CPU → u32 → CPU × PtraceSelf) (m : Seccomp) (self : PtraceSelf) (c : CPU)
    (action : u32) : CPU × GateResult :=
  if self.has G_PTRACE_O_TRACESECCOMP then
    let (c, self) := ptrace_report_event c (action &&& G_SECCOMP_RET_DATA)
    if (c.x 8).msb then (c, .skip (c.x 0).toInt)
    else
      match seccomp_gate_recheck m self c (c.x 8) fun i => c.x i with
      | (c, .proceed) => (c, .rewritten)
      | r => r
  else (c, .skip (-ENOSYS))

def seccomp_gate (ptrace_report_event : CPU → u32 → CPU × PtraceSelf) (m : Seccomp) (self : PtraceSelf)
    (c : CPU) (nr : u64) (args : Fin 6 → u64) : CPU × GateResult :=
  seccomp_judge m self c nr args (seccomp_trace ptrace_report_event m self c)

/-- The action of a return value as `seccomp_run_chain` compares it, without its top bit. -/
abbrev masked (ret : u32) : u32 := ret &&& G_SECCOMP_RET_ACTION

def ret_action (ret : u32) : BitVec 16 := ret.extractLsb' 16 16

def seccomp_actions : List (BitVec 16) :=
  [G_SECCOMP_RET_KILL_PROCESS, G_SECCOMP_RET_KILL_THREAD, G_SECCOMP_RET_TRAP, G_SECCOMP_RET_ERRNO,
    G_SECCOMP_RET_TRACE, G_SECCOMP_RET_LOG, G_SECCOMP_RET_ALLOW].map ret_action

/-- The kernel's rule: `ret` has the most severe action, the least as a signed number, and unless that allows the call
it is the newest of the return values with that action. -/
structure MostSevere (rets : List u32) (ret : u32) : Prop where
  least : ∀ cur ∈ rets, (ret_action ret).toInt ≤ (ret_action cur).toInt
  newest : ret_action ret ≠ ret_action G_SECCOMP_RET_ALLOW →
    ∃ newer older, rets = newer ++ ret :: older ∧ ∀ cur ∈ newer, ret_action cur ≠ ret_action ret

/-- The mask does not change which value is most severe: no value has its top bit set, or the newest of those least
under the mask has it set and does not look like one that allows the call. -/
def OrderKept (rets : List u32) : Prop :=
  (∀ cur ∈ rets, cur.msb = false) ∨ ∃ newer ret older, rets = newer ++ ret :: older ∧ ret.msb = true ∧
    masked ret < masked G_SECCOMP_RET_ALLOW ∧ (∀ cur ∈ newer, masked ret < masked cur) ∧
    ∀ cur ∈ older, masked ret ≤ masked cur

section order

variable (r : u32)

theorem ret_action_toNat : (ret_action r).toNat = r.toNat / 65536 := by
  have h : r.toNat < 2 ^ 32 := r.isLt
  rw [ret_action, BitVec.extractLsb'_toNat, Nat.shiftRight_eq_div_pow]
  omega

theorem masked_toNat : (masked r).toNat = r.toNat / 65536 % 32768 * 65536 := by
  have h : masked r = (r.extractLsb' 16 15).setWidth 32 <<< 16 := by
    refine BitVec.eq_of_getLsbD_eq fun i hi => ?_
    unfold masked G_SECCOMP_RET_ACTION
    interval_cases i <;> simp
  have hr : r.toNat < 2 ^ 32 := r.isLt
  rw [h, BitVec.toNat_shiftLeft, BitVec.toNat_setWidth, BitVec.extractLsb'_toNat, Nat.shiftRight_eq_div_pow,
    Nat.shiftLeft_eq]
  omega

theorem msb_iff : r.msb = true ↔ 2147483648 ≤ r.toNat := by
  rw [BitVec.msb_eq_decide]
  simp

theorem ret_action_toInt :
    (ret_action r).toInt = (r.toNat / 65536 % 32768 : Nat) - if r.msb then 32768 else 0 := by
  have hr : r.toNat < 2 ^ 32 := r.isLt
  have hmsb := msb_iff r
  rw [BitVec.toInt_eq_toNat_cond, ret_action_toNat]
  split_ifs <;> simp_all <;> omega

end order

/-- What the loop keeps: the value it started with when no return value is
below it, otherwise the newest of those whose masked value is least. -/
theorem foldl_seccomp_keep (rets : List u32) (ret : u32) : let r := rets.foldl seccomp_keep ret
    (r = ret ∧ ∀ cur ∈ rets, masked ret ≤ masked cur) ∨
    (masked r < masked ret ∧ ∃ newer older, rets = newer ++ r :: older ∧
      (∀ cur ∈ newer, masked r < masked cur) ∧ ∀ cur ∈ older, masked r ≤ masked cur) := by
  induction rets generalizing ret with
  | nil => exact .inl ⟨rfl, by simp⟩
  | cons cur rets ih =>
    simp only [foldl_cons]
    by_cases hlt : masked cur < masked ret
    · have hkeep : seccomp_keep ret cur = cur := if_pos hlt
      rw [hkeep]
      right
      rcases ih cur with ⟨hr, hle⟩ | ⟨hr, newer, older, heq, hnew, hold⟩
      · rw [hr]
        exact ⟨hlt, [], rets, rfl, by simp, hle⟩
      refine ⟨BitVec.lt_trans hr hlt, cur :: newer, older, by rw [cons_append, ← heq], ?_, hold⟩
      intro x hx
      rcases mem_cons.1 hx with rfl | hx
      · exact hr
      · exact hnew x hx
    have hkeep : seccomp_keep ret cur = ret := if_neg hlt
    rw [hkeep]
    have hge : masked ret ≤ masked cur := BitVec.not_lt.1 hlt
    rcases ih ret with ⟨hr, hle⟩ | ⟨hr, newer, older, heq, hnew, hold⟩
    · exact .inl ⟨hr, forall_mem_cons.2 ⟨hge, hle⟩⟩
    refine .inr ⟨hr, cur :: newer, older, by rw [cons_append, ← heq], ?_, hold⟩
    refine forall_mem_cons.2 ⟨?_, hnew⟩
    rw [BitVec.lt_def] at hr ⊢
    exact Nat.lt_of_lt_of_le hr (BitVec.le_def.1 hge)

theorem mem_of_split {rets newer older : List u32} {r : u32} (h : rets = newer ++ r :: older) : r ∈ rets := by
  rw [h]
  exact mem_append_right _ mem_cons_self

/-- The winning value has its top bit set exactly where the return values say so. -/
theorem kept_msb_iff {rets : List u32} : (rets.foldl seccomp_keep G_SECCOMP_RET_ALLOW).msb = true ↔
    ∃ newer ret older, rets = newer ++ ret :: older ∧ ret.msb = true ∧ masked ret < masked G_SECCOMP_RET_ALLOW ∧
      (∀ cur ∈ newer, masked ret < masked cur) ∧ ∀ cur ∈ older, masked ret ≤ masked cur := by
  constructor
  · intro hmsb
    rcases foldl_seccomp_keep rets G_SECCOMP_RET_ALLOW with ⟨hr, -⟩ | ⟨hlt, newer, older, heq, hnew, hold⟩
    · rw [hr] at hmsb
      cases hmsb
    · exact ⟨newer, _, older, heq, hmsb, hlt, hnew, hold⟩
  rintro ⟨newer, ret, older, rfl, hmsb, hallow, hnew, hold⟩
  have hnewer : masked ret < masked (newer.foldl seccomp_keep G_SECCOMP_RET_ALLOW) := by
    rcases foldl_seccomp_keep newer G_SECCOMP_RET_ALLOW with ⟨hr, -⟩ | ⟨-, _, _, heq, -⟩
    · rwa [hr]
    · exact hnew _ (mem_of_split heq)
  rw [foldl_append, foldl_cons, seccomp_keep, if_pos hnewer]
  rcases foldl_seccomp_keep older ret with ⟨hr, -⟩ | ⟨hlt, _, _, heq, -⟩
  · rwa [hr]
  · exact absurd hlt (BitVec.not_lt.2 (hold _ (mem_of_split heq)))

theorem most_severe_iff (rets : List u32) :
    MostSevere rets (rets.foldl seccomp_keep G_SECCOMP_RET_ALLOW) ↔ OrderKept rets := by
  unfold OrderKept
  rw [← kept_msb_iff]
  have hfold := foldl_seccomp_keep rets G_SECCOMP_RET_ALLOW
  generalize rets.foldl seccomp_keep G_SECCOMP_RET_ALLOW = r at hfold ⊢
  have hallow : G_SECCOMP_RET_ALLOW.toNat = 2147418112 := rfl
  have hmallow : G_SECCOMP_RET_ALLOW.msb = false := rfl
  simp only [BitVec.lt_def, BitVec.le_def, masked_toNat, hallow] at hfold
  constructor
  · intro h
    by_contra hcon
    rw [not_or] at hcon
    obtain ⟨hset, hr⟩ := hcon
    simp only [not_forall] at hset
    obtain ⟨cur, hcur, hmsb⟩ := hset
    have hle := h.least cur hcur
    rw [ret_action_toInt, ret_action_toInt, if_neg hr, if_pos (by simpa using hmsb)] at hle
    omega
  intro h
  -- the sign of a kept value is the sign of every value it has to beat
  have hle (cur : u32) (hcur : cur ∈ rets) (hlow : r.toNat / 65536 % 32768 ≤ cur.toNat / 65536 % 32768) :
      (ret_action r).toInt ≤ (ret_action cur).toInt := by
    rw [ret_action_toInt, ret_action_toInt]
    rcases h with h | h
    · rw [h cur hcur, if_neg Bool.false_ne_true]
      split_ifs <;> omega
    · rw [if_pos h]
      split_ifs <;> omega
  rcases hfold with ⟨rfl, hlow⟩ | ⟨hlt, newer, older, heq, hnew, hold⟩
  · refine ⟨fun cur hcur => hle cur hcur ?_, fun hne => absurd rfl hne⟩
    have := hlow cur hcur
    omega
  refine ⟨fun cur hcur => hle cur hcur ?_, fun _ => ⟨newer, older, heq, fun cur hcur hsame => ?_⟩⟩
  · rw [heq, mem_append, mem_cons] at hcur
    rcases hcur with hcur | rfl | hcur
    · have := hnew cur hcur
      omega
    · exact le_rfl
    · have := hold cur hcur
      omega
  have hlow := hnew cur hcur
  have := congrArg BitVec.toNat hsame
  rw [ret_action_toNat, ret_action_toNat] at this
  omega

theorem full_eq_iff (r act : u32) (hact : act &&& G_SECCOMP_RET_ACTION_FULL = act) :
    r &&& G_SECCOMP_RET_ACTION_FULL = act ↔ ret_action r = ret_action act := by
  have hbits (x : u32) (i : Nat) (hi : i < 32) : (x &&& G_SECCOMP_RET_ACTION_FULL).getLsbD i =
      (decide (16 ≤ i) && (ret_action x).getLsbD (i - 16)) := by
    unfold G_SECCOMP_RET_ACTION_FULL ret_action
    interval_cases i <;> simp
  constructor
  · intro h
    rw [← h] at hact ⊢
    refine BitVec.eq_of_getLsbD_eq fun i hi => ?_
    have h1 := hbits r (i + 16) (by omega)
    have h2 := hbits (r &&& G_SECCOMP_RET_ACTION_FULL) (i + 16) (by omega)
    rw [hact, h1] at h2
    simpa using h2
  intro h
  rw [← hact]
  refine BitVec.eq_of_getLsbD_eq fun i hi => ?_
  rw [hbits r i hi, hbits act i hi, h]

theorem seccomp_act_unknown (c : CPU) {action : u32} (h : ret_action action ∉ seccomp_actions)
    (on_trace : CPU × GateResult) :
    seccomp_act c action on_trace = (c, .guest_terminate_by_signal SIGSYS) := by
  simp only [seccomp_actions, map_cons, map_nil, mem_cons, not_mem_nil, or_false,
    not_or] at h
  obtain ⟨-, -, htrap, herrno, htrace, hlog, hallow⟩ := h
  unfold seccomp_act
  rw [if_neg, if_neg, if_neg, if_neg]
  · exact fun hc => htrace ((full_eq_iff action _ rfl).1 hc)
  · exact fun hc => htrap ((full_eq_iff action _ rfl).1 hc)
  · exact fun hc => herrno ((full_eq_iff action _ rfl).1 hc)
  rintro (hc | hc)
  · exact hallow ((full_eq_iff action _ rfl).1 hc)
  · exact hlog ((full_eq_iff action _ rfl).1 hc)

/-- In filter mode, not suspended by a tracer: the gate applies the value the chain keeps, which is the kernel's
exactly when the return values are in the same order under the mask; an unknown action ends the process. -/
theorem seccomp_gate_severity (report : CPU → u32 → CPU × PtraceSelf) (m : Seccomp) (self : PtraceSelf) (c : CPU)
    (nr : u64) (args : Fin 6 → u64) (hmode : m.seccomp_mode ≠ .G_SECCOMP_MODE_STRICT)
    (hself : self.has G_PTRACE_O_SUSPEND_SECCOMP = false) :
    let rets := seccomp_rets m.seccomp_filters (seccomp_data c nr args)
    let ret := seccomp_run_chain m.seccomp_filters (seccomp_data c nr args)
    seccomp_gate report m self c nr args = seccomp_act c ret (seccomp_trace report m self c ret) ∧
    (ret_action ret ∉ seccomp_actions →
      seccomp_gate report m self c nr args = (c, .guest_terminate_by_signal SIGSYS)) ∧
    (MostSevere rets ret ↔ OrderKept rets) := by
  intro rets ret
  have hgate : seccomp_gate report m self c nr args = seccomp_act c ret (seccomp_trace report m self c ret) := by
    unfold seccomp_gate seccomp_judge
    rw [hself, if_neg Bool.false_ne_true, if_neg hmode]
  refine ⟨hgate, fun hunknown => ?_, most_severe_iff rets⟩
  rw [hgate, seccomp_act_unknown c hunknown]

theorem bpf_validate_return (k : u32) : bpf_validate [⟨BPF_RET ||| BPF_K, 0#8, 0#8, k⟩] = 0 := by
  have hplain : BPF_RET ||| BPF_K ∈ bpf_plain_codes := by decide
  have hret : BPF_CLASS (BPF_RET ||| BPF_K) = BPF_RET := by decide
  refine bpf_validate_eq_zero_iff.2 ⟨⟨Nat.one_pos, by simp [G_BPF_MAXINSNS]⟩, fun pc i hi => ?_,
    ⟨BPF_RET ||| BPF_K, 0#8, 0#8, k⟩, rfl, hret⟩
  have hmem := mem_of_getElem? hi
  rw [mem_singleton] at hmem
  exact bpf_insn_ok_plain (hmem ▸ hplain)

theorem bpf_run_return (k : u32) (d : GSeccompData) : bpf_run [⟨BPF_RET ||| BPF_K, 0#8, 0#8, k⟩] d = k := by
  have hstep : bpf_step d ⟨BPF_RET ||| BPF_K, 0#8, 0#8, k⟩ {} = .ret k := by
    simp [bpf_step, BPF_CLASS, BPF_RET, BPF_K, BPF_A, BPF_LD, BPF_LDX, BPF_ST, BPF_STX, BPF_ALU, BPF_JMP]
  simp [bpf_run, bpf_loop, hstep]

def return_filter (k : u32) : SeccompProg where
  insns := [⟨BPF_RET ||| BPF_K, 0#8, 0#8, k⟩]
  elen := ebpf_len [⟨BPF_RET ||| BPF_K, 0#8, 0#8, k⟩]
  valid := bpf_validate_return k
  elen_eq := rfl

def filtered (chain : List SeccompProg) : Seccomp := ⟨.G_SECCOMP_MODE_FILTER, chain⟩

theorem seccomp_rets_return (ks : List u32) (d : GSeccompData) : seccomp_rets (ks.map return_filter) d = ks := by
  simp [seccomp_rets, Function.comp_def, return_filter, bpf_run_return]

/-- A single filter that returns the undefined action 0xffff lets every call
through. -/
theorem seccomp_gate_undefined_action :
    ret_action 0xffff0000#32 ∉ seccomp_actions ∧
    (∀ d, seccomp_rets ([0xffff0000#32].map return_filter) d = [0xffff0000#32]) ∧
    (∀ report c nr args, seccomp_gate report (filtered ([0xffff0000#32].map return_filter)) ⟨false, 0#32⟩ c nr args =
      (c, .proceed)) ∧
    ∀ d, ¬MostSevere (seccomp_rets ([0xffff0000#32].map return_filter) d)
      (seccomp_run_chain ([0xffff0000#32].map return_filter) d) := by
  have hrun (d : GSeccompData) : seccomp_run_chain ([0xffff0000#32].map return_filter) d = G_SECCOMP_RET_ALLOW := by
    rw [seccomp_run_chain, seccomp_rets_return [0xffff0000#32]]
    rfl
  refine ⟨by decide, fun d => seccomp_rets_return [0xffff0000#32] d, fun report c nr args => ?_, fun d h => ?_⟩
  · show seccomp_act c (seccomp_run_chain ([0xffff0000#32].map return_filter) (seccomp_data c nr args)) _ = _
    rw [hrun]
    rfl
  rw [hrun, seccomp_rets_return [0xffff0000#32]] at h
  have hle := h.least 0xffff0000#32 (.head _)
  exact absurd hle (by decide)

/-- Two filters, the older one asking for `EPERM` and the newer one allowing:
the call fails with it. -/
theorem seccomp_gate_severity_errno :
    seccomp_gate (fun c _ => (c, ⟨false, 0#32⟩)) (filtered ([0x7fff0000#32, 0x00050001#32].map return_filter))
        ⟨false, 0#32⟩ (cpu_zero Mem.empty) 0#64 (fun _ => 0#64) = (cpu_zero Mem.empty, .skip (-1)) ∧
      MostSevere [0x7fff0000#32, 0x00050001#32] 0x00050001#32 := by
  have h := seccomp_gate_severity (fun c _ => (c, ⟨false, 0#32⟩))
    (filtered ([0x7fff0000#32, 0x00050001#32].map return_filter)) ⟨false, 0#32⟩ (cpu_zero Mem.empty) 0#64
    (fun _ => 0#64) (by decide) rfl
  have hrets := seccomp_rets_return [0x7fff0000#32, 0x00050001#32]
    (seccomp_data (cpu_zero Mem.empty) 0#64 fun _ => 0#64)
  have hrun : seccomp_run_chain ([0x7fff0000#32, 0x00050001#32].map return_filter)
      (seccomp_data (cpu_zero Mem.empty) 0#64 fun _ => 0#64) = 0x00050001#32 := by
    rw [seccomp_run_chain, hrets]
    rfl
  simp only [filtered, hrets, hrun] at h
  obtain ⟨hgate, -, hsevere⟩ := h
  exact ⟨hgate, hsevere.2 (.inl (forall_mem_cons.2 ⟨rfl, forall_mem_singleton.2 rfl⟩))⟩

end arm64emu
