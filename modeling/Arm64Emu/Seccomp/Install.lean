import Arm64Emu.Lib.Steps
import Arm64Emu.Seccomp.Chain

namespace arm64emu

open transition

structure GSockFprog where
  len : u16
  filter : u64

/-- What a request reads besides the seccomp state: guest memory, the
privileges of the caller, and whether the allocation succeeds. -/
structure SeccompCall where
  copy_fprog : u64 → Option GSockFprog
  copy_insns : u64 → (len : Nat) → Option { insns : List GSockFilter // insns.length = len }
  copy_action : u64 → Option u32
  no_new_privs : Bool
  fake_root : Bool
  malloc_ok : Bool

def G_SECCOMP_FILTER_FLAG_TSYNC : u64 := 1#64 <<< 0
def G_SECCOMP_FILTER_FLAG_LOG : u64 := 1#64 <<< 1
def G_SECCOMP_FILTER_FLAG_SPEC_ALLOW : u64 := 1#64 <<< 2
def G_SECCOMP_FILTER_FLAG_TSYNC_ESRCH : u64 := 1#64 <<< 4

def MAX_INSNS_PER_PATH : Nat := 32768

/-- The loop of `chain_has_room` over the filters already installed. -/
def chain_total (chain : List SeccompProg) : Nat := (chain.map fun w => w.elen + 4).sum

def chain_has_room (m : Seccomp) (elen : Nat) : Bool :=
  decide (elen + chain_total m.seccomp_filters ≤ MAX_INSNS_PER_PATH)

def may_assign_mode (m : Seccomp) (mode : SeccompMode) : Bool :=
  decide (m.seccomp_mode = .G_SECCOMP_MODE_DISABLED) || decide (m.seccomp_mode = mode)

/-- The part of `seccomp_install` under the task lock: the mode, the budget,
and the push. -/
def seccomp_push (p : SeccompProg) (m : Seccomp) : Int × Seccomp :=
  if !may_assign_mode m .G_SECCOMP_MODE_FILTER then (-EINVAL, m)
  else if !chain_has_room m p.elen then (-ENOMEM, m)
  else (0, ⟨.G_SECCOMP_MODE_FILTER, p :: m.seccomp_filters⟩)

/-- The part of `seccomp_install` before the lock, which looks at nothing of
the seccomp state: the program to push, or the refusal. -/
def seccomp_prepare (e : SeccompCall) (flags prog_va : u64) : Except Int SeccompProg :=
  if flags &&& ~~~(G_SECCOMP_FILTER_FLAG_TSYNC ||| G_SECCOMP_FILTER_FLAG_LOG |||
      G_SECCOMP_FILTER_FLAG_SPEC_ALLOW ||| G_SECCOMP_FILTER_FLAG_TSYNC_ESRCH) ≠ 0#64 then .error (-EINVAL)
  else
    match e.copy_fprog prog_va with
    | none => .error (-EFAULT)
    | some fprog =>
      let len := fprog.len.toNat
      if len = 0 ∨ G_BPF_MAXINSNS < len then .error (-EINVAL)
      else if !e.no_new_privs && !e.fake_root then .error (-EACCES)
      else if !e.malloc_ok then .error (-ENOMEM)
      else
        match e.copy_insns fprog.filter len with
        | none => .error (-EFAULT)
        | some insns =>
          if h : bpf_validate insns.1 = 0 then .ok ⟨insns.1, ebpf_len insns.1, h, rfl⟩
          else .error (bpf_validate insns.1)

/-- Prepares a filter and puts it at the head of the chain. -/
def seccomp_install (e : SeccompCall) (flags prog_va : u64) (m : Seccomp) : Int × Seccomp :=
  match seccomp_prepare e flags prog_va with
  | .error r => (r, m)
  | .ok p => seccomp_push p m

def seccomp_set_strict (m : Seccomp) : Int × Seccomp :=
  if !may_assign_mode m .G_SECCOMP_MODE_STRICT then (-EINVAL, m)
  else (0, { m with seccomp_mode := .G_SECCOMP_MODE_STRICT })

def seccomp_prctl_set (e : SeccompCall) (mode prog_va : u64) (m : Seccomp) : Int × Seccomp :=
  if mode = 1#64 then seccomp_set_strict m
  else if mode = 2#64 then seccomp_install e 0#64 prog_va m
  else (-EINVAL, m)

/-- `seccomp`, by its operation. -/
def sys_seccomp (e : SeccompCall) (a0 a1 a2 : u64) (m : Seccomp) : Int × Seccomp :=
  let op : u32 := a0.setWidth 32
  let flags : u32 := a1.setWidth 32
  if op = 0#32 then
    if flags ≠ 0#32 ∨ a2 ≠ 0#64 then (-EINVAL, m) else seccomp_set_strict m
  else if op = 1#32 then seccomp_install e (flags.setWidth 64) a2 m
  else if op = 2#32 then
    if flags ≠ 0#32 then (-EINVAL, m)
    else
      match e.copy_action a2 with
      | none => (-EFAULT, m)
      | some act =>
        if act ∈ [G_SECCOMP_RET_KILL_PROCESS, G_SECCOMP_RET_KILL_THREAD, G_SECCOMP_RET_TRAP,
            G_SECCOMP_RET_ERRNO, G_SECCOMP_RET_TRACE, G_SECCOMP_RET_LOG, G_SECCOMP_RET_ALLOW] then (0, m)
        else (-EOPNOTSUPP, m)
  else (-EINVAL, m)

/-- A call that changes the mode or the chain. -/
inductive SeccompRequest where
  | seccomp (e : SeccompCall) (a0 a1 a2 : u64)
  | prctl (e : SeccompCall) (mode prog_va : u64)

def SeccompRequest.serve : SeccompRequest → Seccomp → Int × Seccomp
  | .seccomp e a0 a1 a2 => sys_seccomp e a0 a1 a2
  | .prctl e mode prog_va => seccomp_prctl_set e mode prog_va

def seccomp_step (m : Seccomp) (a : SeccompRequest × Int) (m' : Seccomp) : Prop := a.1.serve m = (a.2, m')

/-- The instructions the chain charges a system call with, as the budget
counts them. -/
def chain_charge : List SeccompProg → Nat
  | [] => 0
  | p :: chain => p.elen + chain_total chain

/-- What a request can do to the state: nothing, enter strict mode, or push one
filter that fits in the budget. -/
inductive SeccompChange (m : Seccomp) : Int → Seccomp → Prop where
  | same {r : Int} : SeccompChange m r m
  | strict (hmode : m.seccomp_mode = .G_SECCOMP_MODE_DISABLED ∨ m.seccomp_mode = .G_SECCOMP_MODE_STRICT) :
      SeccompChange m 0 { m with seccomp_mode := .G_SECCOMP_MODE_STRICT }
  | push (p : SeccompProg)
      (hmode : m.seccomp_mode = .G_SECCOMP_MODE_DISABLED ∨ m.seccomp_mode = .G_SECCOMP_MODE_FILTER)
      (hroom : p.elen + chain_total m.seccomp_filters ≤ MAX_INSNS_PER_PATH) :
      SeccompChange m 0 ⟨.G_SECCOMP_MODE_FILTER, p :: m.seccomp_filters⟩

section change

variable (m : Seccomp) (e : SeccompCall)

theorem seccomp_set_strict_change :
    SeccompChange m (seccomp_set_strict m).1 (seccomp_set_strict m).2 := by
  unfold seccomp_set_strict
  cases hmay : may_assign_mode m .G_SECCOMP_MODE_STRICT with
  | false => exact .same
  | true => exact .strict (by simpa [may_assign_mode] using hmay)

theorem seccomp_push_change (p : SeccompProg) :
    SeccompChange m (seccomp_push p m).1 (seccomp_push p m).2 := by
  unfold seccomp_push
  cases hmay : may_assign_mode m .G_SECCOMP_MODE_FILTER with
  | false => exact .same
  | true =>
    cases hroom : chain_has_room m p.elen with
    | false => exact .same
    | true => exact .push p (by simpa [may_assign_mode] using hmay) (by simpa [chain_has_room] using hroom)

theorem seccomp_install_change (flags prog_va : u64) :
    SeccompChange m (seccomp_install e flags prog_va m).1 (seccomp_install e flags prog_va m).2 := by
  unfold seccomp_install
  cases seccomp_prepare e flags prog_va with
  | error r => exact .same
  | ok p => exact seccomp_push_change m p

theorem sys_seccomp_change (a0 a1 a2 : u64) :
    SeccompChange m (sys_seccomp e a0 a1 a2 m).1 (sys_seccomp e a0 a1 a2 m).2 := by
  unfold sys_seccomp
  simp only
  split
  · split
    · exact .same
    · exact seccomp_set_strict_change m
  split
  · exact seccomp_install_change m e _ _
  split
  · split
    · exact .same
    cases e.copy_action a2 with
    | none => exact .same
    | some act =>
      simp only
      split
      · exact .same
      · exact .same
  · exact .same

theorem seccomp_prctl_set_change (mode prog_va : u64) :
    SeccompChange m (seccomp_prctl_set e mode prog_va m).1 (seccomp_prctl_set e mode prog_va m).2 := by
  unfold seccomp_prctl_set
  split
  · exact seccomp_set_strict_change m
  split
  · exact seccomp_install_change m e _ _
  · exact .same

theorem seccomp_step_change {m m' : Seccomp} {a : SeccompRequest × Int} (h : seccomp_step m a m') :
    SeccompChange m a.2 m' := by
  obtain ⟨req, r⟩ := a
  have hserve : SeccompChange m (req.serve m).1 (req.serve m).2 := by
    cases req with
    | seccomp e a0 a1 a2 => exact sys_seccomp_change m e a0 a1 a2
    | prctl e mode prog_va => exact seccomp_prctl_set_change m e mode prog_va
  rwa [show req.serve m = (r, m') from h] at hserve

end change

/-- Filter mode is the mode with a chain, and the chain is within budget. -/
structure Seccomp.Ok (m : Seccomp) : Prop where
  filter_iff : m.seccomp_mode = .G_SECCOMP_MODE_FILTER ↔ m.seccomp_filters ≠ []
  charge : chain_charge m.seccomp_filters ≤ MAX_INSNS_PER_PATH

/-- How a later state relates to an earlier one: a mode once entered stays,
and the earlier chain is the tail of the later one. -/
structure Seccomp.Extends (m m' : Seccomp) : Prop where
  mode : m.seccomp_mode ≠ .G_SECCOMP_MODE_DISABLED → m'.seccomp_mode = m.seccomp_mode
  chain : m.seccomp_filters <:+ m'.seccomp_filters

theorem Seccomp.Extends.refl (m : Seccomp) : m.Extends m := ⟨fun _ => rfl, List.suffix_rfl⟩

theorem Seccomp.Extends.trans (m m' m'' : Seccomp) (h : m.Extends m') (h' : m'.Extends m'') : m.Extends m'' := by
  refine ⟨fun hmode => ?_, h.chain.trans h'.chain⟩
  have hm := h.mode hmode
  rw [← hm] at hmode
  rw [h'.mode hmode, hm]

section history

variable {m m' : Seccomp} {a : SeccompRequest × Int}

theorem seccomp_step_ok (hm : m.Ok) (h : seccomp_step m a m') : m'.Ok := by
  obtain ⟨req, r⟩ := a
  cases seccomp_step_change h with
  | same => exact hm
  | strict hmode =>
    have hempty : m.seccomp_filters = [] := by
      by_contra hne
      rw [hm.filter_iff.2 hne] at hmode
      rcases hmode with hmode | hmode <;> cases hmode
    refine ⟨?_, hm.charge⟩
    simp [hempty]
  | push p hmode hroom => exact ⟨by simp, hroom⟩

theorem seccomp_step_extends (h : seccomp_step m a m') : m.Extends m' := by
  obtain ⟨req, r⟩ := a
  cases seccomp_step_change h with
  | same => exact Seccomp.Extends.refl m
  | strict hmode => exact ⟨fun hne => (hmode.resolve_left hne).symm, List.suffix_rfl⟩
  | push p hmode hroom => exact ⟨fun hne => (hmode.resolve_left hne).symm, List.suffix_cons p _⟩

theorem seccomp_step_grows (h : seccomp_step m a m') :
    m'.seccomp_filters = m.seccomp_filters ∨ ∃ p, m'.seccomp_filters = p :: m.seccomp_filters := by
  obtain ⟨req, r⟩ := a
  cases seccomp_step_change h with
  | same | strict hmode => exact .inl rfl
  | push p hmode hroom => exact .inr ⟨p, rfl⟩

theorem seccomp_step_refused (h : seccomp_step m a m') (hr : a.2 ≠ 0) : m' = m := by
  obtain ⟨req, r⟩ := a
  cases seccomp_step_change h with
  | same => rfl
  | strict | push => exact absurd rfl hr

end history

/-- Of a process that starts without seccomp: filter mode holds exactly when the chain is non-empty, the charge is
within the limit, a mode once entered stays, each request adds at most one filter in front, and a refused one changes
nothing. -/
theorem seccomp_requests {reqs : List (SeccompRequest × Int)} {m : Seccomp} (hrun : Steps seccomp_step {} reqs m) :
    m.Ok ∧
    (∀ reqs' m', Steps seccomp_step m reqs' m' → m.Extends m') ∧
    ∀ req r m', seccomp_step m (req, r) m' →
      (m'.seccomp_filters = m.seccomp_filters ∨ ∃ p, m'.seccomp_filters = p :: m.seccomp_filters) ∧
      (r ≠ 0 → m' = m) := by
  have hok : m.Ok := hrun.invariant (fun _ _ _ hm h => seccomp_step_ok hm h) ⟨by simp, by decide⟩
  refine ⟨hok, fun reqs' m' hrun' => ?_, fun req r m' h => ⟨seccomp_step_grows h, seccomp_step_refused h⟩⟩
  exact hrun'.related (fun _ _ _ hm h => seccomp_step_ok hm h) Seccomp.Extends.refl Seccomp.Extends.trans
    (fun _ _ _ _ h => seccomp_step_extends h) hok

/-- A caller without privileges and with nothing mapped. -/
def SeccompCall.unprivileged : SeccompCall := ⟨fun _ => none, fun _ _ => none, fun _ => none, false, false, false⟩

/-- A privileged caller with a filter in memory that returns `k`. -/
def SeccompCall.installing (k : u32) : SeccompCall :=
  ⟨fun _ => some ⟨1#16, 0#64⟩, fun _ len => if h : 1 = len then some ⟨(return_filter k).insns, h⟩ else none,
    fun _ => none, true, true, true⟩

/-- A filter is installed through `prctl`, then one is refused for its program pointer: the chain has grown by one. -/
theorem seccomp_requests_filter : ∃ m, Steps seccomp_step {}
      [(.prctl (.installing 0x00050001#32) 2#64 0#64, 0), (.seccomp .unprivileged 1#64 0#64 0#64, -EFAULT)] m ∧
    m.Ok ∧ m.seccomp_filters = [return_filter 0x00050001#32] := by
  have hrun : Steps seccomp_step {}
      [(.prctl (.installing 0x00050001#32) 2#64 0#64, 0), (.seccomp .unprivileged 1#64 0#64 0#64, -EFAULT)]
      (filtered [return_filter 0x00050001#32]) := .cons rfl (.cons rfl (.nil _))
  exact ⟨_, hrun, (seccomp_requests hrun).1, rfl⟩

section tighten

variable {c d : CPU} {action : u32} {data : GSeccompData} {chain : List SeccompProg}

theorem foldl_keep_mono (rets : List u32) {a b : u32} (h : masked a ≤ masked b) :
    masked (rets.foldl seccomp_keep a) ≤ masked (rets.foldl seccomp_keep b) := by
  induction rets generalizing a b with
  | nil => exact h
  | cons cur rets ih =>
    refine ih ?_
    unfold seccomp_keep
    unfold masked at h ⊢
    rw [BitVec.le_def] at h
    split_ifs with ha hb hb <;> rw [BitVec.lt_def] at ha hb <;> rw [BitVec.le_def] <;> omega

/-- With filters added, the kept value only falls in the masked order. -/
theorem seccomp_run_chain_mono {old new : List SeccompProg} (h : old <:+ new) (data : GSeccompData) :
    masked (seccomp_run_chain new data) ≤ masked (seccomp_run_chain old data) := by
  obtain ⟨newer, rfl⟩ := h
  rw [seccomp_run_chain, seccomp_rets, List.map_append, List.foldl_append]
  refine foldl_keep_mono _ ?_
  -- the newer filters start from ALLOW, as the older ones did alone
  rcases foldl_seccomp_keep (seccomp_rets newer data) G_SECCOMP_RET_ALLOW with h | h
  · exact BitVec.le_of_eq (congrArg masked h.1)
  · exact BitVec.le_of_lt h.1

theorem seccomp_run_chain_known (h : ∀ ret ∈ seccomp_rets chain data, ret_action ret ∈ seccomp_actions) :
    ret_action (seccomp_run_chain chain data) ∈ seccomp_actions := by
  rcases foldl_seccomp_keep (seccomp_rets chain data) G_SECCOMP_RET_ALLOW with ⟨hr, -⟩ | ⟨-, _, _, hr, -⟩
  · rw [seccomp_run_chain, hr]
    decide
  · exact h _ (mem_of_split hr)

/-- The actions that let a call through. -/
def LetsThrough (action : u32) : Prop :=
  ret_action action = ret_action G_SECCOMP_RET_ALLOW ∨ ret_action action = ret_action G_SECCOMP_RET_LOG

theorem seccomp_act_proceed {on_trace : CPU × GateResult} (h : on_trace.2 ≠ .proceed) :
    seccomp_act c action on_trace = (d, .proceed) ↔ c = d ∧ LetsThrough action := by
  rw [LetsThrough, ← full_eq_iff _ _ rfl, ← full_eq_iff _ _ rfl]
  unfold seccomp_act
  dsimp only
  split_ifs with hthrough
  all_goals first
    | exact ⟨fun he => absurd (congrArg Prod.snd he) h, fun he => absurd he.2 hthrough⟩
    | simp [hthrough]

theorem seccomp_gate_proceed {report : CPU → u32 → CPU × PtraceSelf} {m : Seccomp} {self : PtraceSelf} {nr : u64}
    {args : Fin 6 → u64} (hself : self.has G_PTRACE_O_SUSPEND_SECCOMP = false)
    (hmode : m.seccomp_mode ≠ .G_SECCOMP_MODE_STRICT) :
    seccomp_gate report m self c nr args = (d, .proceed) ↔
      c = d ∧ LetsThrough (seccomp_run_chain m.seccomp_filters (seccomp_data c nr args)) := by
  unfold seccomp_gate seccomp_judge
  rw [hself, if_neg Bool.false_ne_true, if_neg hmode]
  refine seccomp_act_proceed ?_
  unfold seccomp_trace
  dsimp only
  split_ifs
  · exact nofun
  · split
    · exact nofun
    next hne => exact fun hp => hne _ (Prod.ext rfl hp)
  · exact nofun

/-- Of two known actions in the order of the mask, the greater lets a call through if the smaller does. -/
theorem LetsThrough.mono {r r' : u32} (hnow : LetsThrough r') (hle : masked r' ≤ masked r)
    (hknown : ret_action r ∈ seccomp_actions) : LetsThrough r := by
  unfold LetsThrough at hnow ⊢
  simp only [BitVec.le_def, masked_toNat, ← ret_action_toNat] at hle
  simp only [seccomp_actions, List.map_cons, List.map_nil, List.mem_cons, List.not_mem_nil, or_false] at hknown
  generalize ret_action r = a at hknown hle ⊢
  generalize ret_action r' = a' at hnow hle
  rcases hnow with rfl | rfl <;> rcases hknown with rfl | rfl | rfl | rfl | rfl | rfl | rfl <;> revert hle <;> decide

end tighten

end arm64emu
