import Mathlib.Tactic.Ring
import Arm64Emu.Syscall.Restart

open transition

namespace arm64emu

open Option

section services

/-- Two threads with the same restart flag, charge and stopwatch. -/
structure SameCharge (t r : ScThread) : Prop where
  restarted : r.sc_restarted = t.sc_restarted
  waited_ns : r.sc_waited_ns = t.sc_waited_ns
  wait_t0 : r.sc_wait_t0 = t.sc_wait_t0

/-- The call at `svc_pc` was taken back to its SVC and charged. -/
structure Rewound (t r : ScThread) : Prop where
  from_pc : t.pc = t.sc_svc_pc + 4 ∨ (t.sc_restarted = true ∧ t.pc = t.sc_svc_pc)
  pc : r.pc = t.sc_svc_pc
  restarted : r.sc_restarted = true
  waited_ns : r.sc_waited_ns = t.sc_waited_ns + t.elapsed
  wait_t0 : r.sc_wait_t0 = 0

variable {b : Boundary} {t r : ScThread} {f : SigFrame}

theorem foldl_quiet_apply (sock : SockTimeos) (qs : List Quiet) (t : ScThread) :
    ∃ v, qs.foldl (Quiet.apply sock) t = { t with g_sig_selfintr := v } := by
  induction qs generalizing t with
  | nil => exact ⟨t.g_sig_selfintr, rfl⟩
  | cons q qs ih =>
    have hq : ∃ v, Quiet.apply sock t q = { t with g_sig_selfintr := v } := by
      cases q <;> exact ⟨_, rfl⟩
    obtain ⟨v, hv⟩ := hq
    obtain ⟨w, hw⟩ := ih (Quiet.apply sock t q)
    refine ⟨w, ?_⟩
    rw [List.foldl_cons, hw, hv]

theorem boundary_quiet (b : Boundary) (t : ScThread) :
    ∃ v, b.quiet t = { b.unrewound t with g_sig_selfintr := v } := by
  obtain ⟨v, hv⟩ := foldl_quiet_apply b.sock_timeo_set b.kicks (b.unrewound t)
  unfold Boundary.quiet
  split
  · obtain ⟨w, hw⟩ := foldl_quiet_apply b.sock_timeo_set b.taken { b.unrewound t with g_sig_selfintr := v }
    exact ⟨w, by rw [hv, hw]⟩
  · exact ⟨v, hv⟩

/-- A boundary takes a rewound call back to the moment it was interrupted, or
leaves the thread where it is. -/
theorem boundary_unrewound (b : Boundary) (t : ScThread) : b.unrewound t = t ∨
    (t.sc_restarted = true ∧ t.pc = t.sc_svc_pc ∧ (b.unrewound t).pc = t.sc_svc_pc + 4 ∧
      (b.unrewound t).sc_svc_pc = t.sc_svc_pc ∧ SameCharge t (b.unrewound t)) := by
  unfold Boundary.unrewound syscall_unrewind
  split
  · split
    · exact .inl rfl
    rename_i h
    obtain ⟨hrestarted, hpc⟩ := not_or.1 h
    exact .inr ⟨by simpa using hrestarted, not_not.1 hpc, rfl, rfl, rfl, rfl, rfl⟩
  · exact .inl rfl

theorem restart_internal_cases (t : ScThread) :
    ((syscall_restart_internal t).pc = t.pc ∧ SameCharge t (syscall_restart_internal t)) ∨
      (t.pc = t.sc_svc_pc + 4 ∧ (syscall_restart_internal t).pc = t.sc_svc_pc ∧
        (syscall_restart_internal t).sc_restarted = true ∧
        (syscall_restart_internal t).sc_waited_ns = t.sc_waited_ns + t.elapsed ∧
        (syscall_restart_internal t).sc_wait_t0 = 0) := by
  unfold syscall_restart_internal
  split
  · exact .inl ⟨rfl, rfl, rfl, rfl⟩
  next h => exact .inr ⟨not_not.1 (not_or.1 h).2, rfl, rfl, rfl, rfl⟩

/-- A boundary that runs no handler leaves the thread where it is, answers a
rewound call, or takes a call back to its SVC. -/
theorem emu_boundary_none (h : emu_boundary b t = (r, none)) :
    (r.pc = t.pc ∧ SameCharge t r) ∨
      (t.sc_restarted = true ∧ t.pc = t.sc_svc_pc ∧ r.pc = t.sc_svc_pc + 4 ∧ SameCharge t r) ∨ Rewound t r := by
  obtain ⟨v, hv⟩ := boundary_quiet b t
  unfold emu_boundary at h
  cases hd : b.delivers with
  | some d => simp [hd] at h
  | none =>
    simp only [hd, hv, Prod.mk.injEq, and_true] at h
    generalize hu : b.unrewound t = u at h
    have hcases := boundary_unrewound b t
    rw [hu] at hcases
    -- what the rewind leaves, from the thread as it is when the signals are dealt with
    have hr : (r.pc = u.pc ∧ SameCharge u r) ∨ (u.pc = u.sc_svc_pc + 4 ∧ r.pc = u.sc_svc_pc ∧
        r.sc_restarted = true ∧ r.sc_waited_ns = u.sc_waited_ns + u.elapsed ∧ r.sc_wait_t0 = 0) := by
      split at h
      · rw [← h]
        refine (restart_internal_cases { u with g_sig_selfintr := v }).imp_left ?_
        rintro ⟨hpc, hsame⟩
        exact ⟨hpc, hsame.restarted, hsame.waited_ns, hsame.wait_t0⟩
      · exact .inl ⟨h ▸ rfl, h ▸ rfl, h ▸ rfl, h ▸ rfl⟩
    rcases hcases with rfl | ⟨hrestarted, hpc, hupc, husvc, hsame⟩
    · rcases hr with hkeep | ⟨hpc, hrest⟩
      · exact .inl hkeep
      · exact .inr (.inr ⟨.inl hpc, hrest.1, hrest.2.1, hrest.2.2.1, hrest.2.2.2⟩)
    right
    rcases hr with ⟨hrpc, hkeep⟩ | ⟨_, hrpc, hflag, hns, ht0⟩
    · left
      exact ⟨hrestarted, hpc, hrpc.trans hupc, hkeep.restarted.trans hsame.restarted,
        hkeep.waited_ns.trans hsame.waited_ns, hkeep.wait_t0.trans hsame.wait_t0⟩
    right
    refine ⟨.inr ⟨hrestarted, hpc⟩, hrpc.trans husvc, hflag, ?_, ht0⟩
    have hmono : u.mono_ns = t.mono_ns := by
      rw [← hu]
      unfold Boundary.unrewound syscall_unrewind
      split <;> [split; skip] <;> rfl
    rw [hns, hsame.waited_ns, ScThread.elapsed, ScThread.elapsed, hsame.wait_t0, hmono]

theorem emu_boundary_some (h : emu_boundary b t = (r, some f)) : SameCharge t r := by
  obtain ⟨v, hv⟩ := boundary_quiet b t
  unfold emu_boundary at h
  cases hd : b.delivers with
  | none => simp [hd] at h
  | some d =>
    simp only [hd, hv, Prod.mk.injEq] at h
    obtain ⟨hr, -⟩ := h
    have hu : SameCharge t (b.unrewound t) := by
      rcases boundary_unrewound b t with hu | ⟨_, _, _, _, hsame⟩
      · rw [hu]
        exact ⟨rfl, rfl, rfl⟩
      · exact hsame
    rw [← hr]
    -- the handler's frame took the interruption with it: nothing is left to rewind
    split
    · simp only [enter_handler, syscall_restart_internal, true_or, if_true]
      exact ⟨hu.restarted, hu.waited_ns, hu.wait_t0⟩
    · exact ⟨hu.restarted, hu.waited_ns, hu.wait_t0⟩

end services

section invariant

def ScThread.charge (t : ScThread) : Nat := if t.sc_restarted then t.sc_waited_ns else 0

/-- Nothing is being dispatched: the guest is at the SVC of a call it is in the
middle of, or makes its next call for the first time. -/
def ScState.Resting (s : ScState) : Prop :=
  (s.call = none ∧ s.thr.charge = 0) ∨
    ∃ c, s.call = some c ∧ c.svc_pc = s.thr.pc ∧ s.thr.sc_wait_t0 = 0 ∧ s.thr.charge + c.carried = c.waited

/-- An attempt of the call runs, or has just been cut short. -/
def ScState.Attempting (s : ScState) : Prop :=
  s.thr.sc_restarted = false ∧ ∃ c, s.call = some c ∧ c.svc_pc = s.thr.sc_svc_pc ∧
    s.thr.pc = s.thr.sc_svc_pc + 4 ∧ s.thr.sc_waited_ns + c.carried = c.waited

def ScState.Here (s : ScState) : Prop :=
  match s.phase with
  | .guest => s.Resting
  | .syscall => s.Attempting
  | .boundary => s.Resting ∨ s.Attempting

/-- The charge of every call that is not over is the wait its timespec does not
carry, and a call a frame resumes has none. -/
structure ScState.Ok (s : ScState) : Prop where
  frames : ∀ f c, (f, some c) ∈ s.frames → c.svc_pc = f.pc ∧ c.carried = c.waited
  wait_t0 : s.thr.sc_restarted = true → s.thr.sc_wait_t0 = 0
  here : s.Here

/-- The boundary leaves no charge on the flag of a call it settles, resumes by a
frame only a call with no time on it, and rewinds only the call in progress. -/
def ScState.Settles (s : ScState) (b : Boundary) : Prop :=
  match emu_boundary b s.thr with
  | (_, some f) => (s.thr.sc_restarted = true → s.thr.sc_waited_ns = 0) ∧
      ∀ c, s.call = some c → c.svc_pc = f.pc → s.thr.sc_waited_ns = 0 ∧ s.thr.sc_wait_t0 = 0
  | (r, none) => (s.thr.sc_restarted = true → r.pc ≠ s.thr.sc_svc_pc → s.thr.sc_waited_ns = 0) ∧
      (s.thr.pc = s.thr.sc_svc_pc + 4 → r.pc = s.thr.sc_svc_pc → ∃ c, s.call = some c ∧ c.svc_pc = s.thr.sc_svc_pc)

/-- The steps after which no charge outlives the call it was made for. -/
def ScState.Charges (s : ScState) : ScAct → Prop
  | .run _ _ => s.thr.sc_restarted = true → s.thr.sc_waited_ns = 0
  | .fault _ => s.thr.sc_restarted = true → s.thr.sc_waited_ns = 0
  | .finish _ written => pwait_writes_back s.thr written = true → s.thr.sc_waited_ns = 0
  | .boundary b => s.Settles b
  | _ => True

/-- The steps of a thread that keeps its charges with their calls. -/
def ChargedStep (s : ScState) (a : ScAct) (s' : ScState) : Prop := ScStep s a s' ∧ s.Charges a

variable {s s' : ScState} {a : ScAct}

theorem charge_eq_zero {t : ScThread} (h : t.sc_restarted = true → t.sc_waited_ns = 0) : t.charge = 0 := by
  unfold ScThread.charge
  split
  · exact h ‹_›
  · rfl

theorem SameCharge.charge {t r : ScThread} (h : SameCharge t r) : r.charge = t.charge := by
  rw [ScThread.charge, ScThread.charge, h.restarted, h.waited_ns]

theorem elapsed_of_stopped {t : ScThread} (h : t.sc_wait_t0 = 0) : t.elapsed = 0 := if_pos h

theorem call_at_none {pc : BitVec 64} (h : ∀ c, s.call = some c → c.svc_pc ≠ pc) : s.call_at pc = none := by
  unfold ScState.call_at
  cases hc : s.call with
  | none => rfl
  | some c => simp [h c hc]

theorem call_at_some {c : GuestCall} (h : s.call = some c) : s.call_at c.svc_pc = some (c.ended s.thr) := by
  simp [ScState.call_at, h]

theorem call_at_eq {pc : BitVec 64} {c : GuestCall} (h : s.call_at pc = some c) :
    ∃ c₀, s.call = some c₀ ∧ c₀.svc_pc = pc ∧ c = c₀.ended s.thr := by
  unfold ScState.call_at at h
  cases hc : s.call with
  | none => simp [hc] at h
  | some c₀ =>
    rw [hc] at h
    obtain ⟨hpc, hend⟩ := ite_none_right_eq_some.1 h
    exact ⟨c₀, rfl, hpc, (some.inj hend).symm⟩

/-- A handler that is entered with no charge on the flag leaves every call where
it belongs. -/
theorem ScState.Ok.interrupted (h : s.Ok) {r : ScThread} {f : SigFrame}
    (hsame : SameCharge s.thr r) (hflag : s.thr.sc_restarted = true → s.thr.sc_waited_ns = 0)
    (hframe : ∀ c, s.call = some c → c.svc_pc = f.pc → s.thr.sc_wait_t0 = 0 ∧ c.carried = c.waited) :
    (s.interrupted r f).Ok := by
  refine ⟨fun g c hmem => ?_, fun hr => ?_, .inl ⟨rfl, ?_⟩⟩
  · rcases List.mem_cons.1 hmem with hnew | hold
    · obtain ⟨rfl, hcall⟩ := Prod.mk.inj hnew
      obtain ⟨c₀, hc₀, hpc, rfl⟩ := call_at_eq hcall.symm
      obtain ⟨ht0, hwaited⟩ := hframe c₀ hc₀ hpc
      refine ⟨hpc, ?_⟩
      show c₀.carried = c₀.waited + s.thr.elapsed
      rw [elapsed_of_stopped ht0, hwaited, Nat.add_zero]
    · exact h.frames g c hold
  · exact hsame.wait_t0.trans (h.wait_t0 (hsame.restarted.symm.trans hr))
  show r.charge = 0
  rw [hsame.charge]
  exact charge_eq_zero hflag

theorem svc_ne_next (pc : BitVec 64) : pc ≠ pc + 4 := by bv_omega

/-- A boundary without a handler that settles what it finds leaves the thread
resting. -/
theorem ScState.Ok.settled (h : s.Ok) (hphase : s.phase = .boundary) {b : Boundary} {r : ScThread}
    (hr : emu_boundary b s.thr = (r, none))
    (hflag : s.thr.sc_restarted = true → r.pc ≠ s.thr.sc_svc_pc → s.thr.sc_waited_ns = 0)
    (hcall : s.thr.pc = s.thr.sc_svc_pc + 4 → r.pc = s.thr.sc_svc_pc →
      ∃ c, s.call = some c ∧ c.svc_pc = s.thr.sc_svc_pc) :
    ({ s with thr := r, phase := .guest, call := s.call_at r.pc } : ScState).Ok := by
  have hhere : s.Resting ∨ s.Attempting := by
    have := h.here
    rwa [ScState.Here, hphase] at this
  -- the call is dropped with no charge, or kept with the one it has
  have hdrop (hno : ∀ c, s.call = some c → c.svc_pc ≠ r.pc) (hcharge : r.charge = 0) :
      ({ s with thr := r, phase := .guest, call := s.call_at r.pc } : ScState).Resting :=
    .inl ⟨call_at_none hno, hcharge⟩
  have hkeep (c : GuestCall) (hc : s.call = some c) (hpc : c.svc_pc = r.pc) (ht0 : r.sc_wait_t0 = 0)
      (hcharge : r.charge + c.carried = c.waited + s.thr.elapsed) :
      ({ s with thr := r, phase := .guest, call := s.call_at r.pc } : ScState).Resting :=
    .inr ⟨c.ended s.thr, hpc ▸ call_at_some hc, hpc, ht0, hcharge⟩
  rcases emu_boundary_none hr with ⟨hpc, hsame⟩ | ⟨hrestarted, hpc, hrpc, hsame⟩ | hrew
  · refine ⟨h.frames, fun hf => hsame.wait_t0.trans (h.wait_t0 (hsame.restarted.symm.trans hf)), ?_⟩
    rcases hhere with (⟨hnone, hzero⟩ | ⟨c, hc, hcpc, ht0, hcharge⟩) | ⟨hfalse, c, hc, hcpc, hnext, -⟩
    · exact hdrop (fun c hc => by simp [hnone] at hc) (hsame.charge.trans hzero)
    · refine hkeep c hc (hcpc.trans hpc.symm) (hsame.wait_t0.trans ht0) ?_
      rw [hsame.charge, elapsed_of_stopped ht0, hcharge, Nat.add_zero]
    refine hdrop (fun c' hc' heq => ?_) (hsame.charge.trans (if_neg (by simp [hfalse])))
    rw [some.inj (hc'.symm.trans hc), hcpc, hpc, hnext] at heq
    exact svc_ne_next _ heq
  · refine ⟨h.frames, fun _ => hsame.wait_t0.trans (h.wait_t0 hrestarted), ?_⟩
    have hne : r.pc ≠ s.thr.sc_svc_pc := hrpc ▸ (svc_ne_next _).symm
    have hzero : r.charge = 0 := hsame.charge.trans (charge_eq_zero fun hf => hflag hf hne)
    rcases hhere with (⟨hnone, -⟩ | ⟨c, hc, hcpc, -⟩) | ⟨hfalse, -⟩
    · exact hdrop (fun c hc => by simp [hnone] at hc) hzero
    · refine hdrop (fun c' hc' heq => hne ?_) hzero
      rw [← heq, some.inj (hc'.symm.trans hc), hcpc, hpc]
    · simp [hrestarted] at hfalse
  refine ⟨h.frames, fun _ => hrew.wait_t0, ?_⟩
  have hcharge : r.charge = s.thr.sc_waited_ns + s.thr.elapsed := by
    rw [ScThread.charge, hrew.restarted, if_pos rfl, hrew.waited_ns]
  rcases hhere with (⟨hnone, hzero⟩ | ⟨c, hc, hcpc, ht0, hdue⟩) | ⟨hfalse, c, hc, hcpc, hnext, hdue⟩
  · -- only a call in progress is taken back from past its SVC
    rcases hrew.from_pc with hpast | ⟨hflagged, -⟩
    · obtain ⟨c, hc, -⟩ := hcall hpast hrew.pc
      simp [hnone] at hc
    refine hdrop (fun c hc => by simp [hnone] at hc) ?_
    rw [ScThread.charge, hflagged, if_pos rfl] at hzero
    rw [hcharge, hzero, elapsed_of_stopped (h.wait_t0 hflagged)]
  · rcases hrew.from_pc with hpast | ⟨hflagged, hat⟩
    · obtain ⟨c', hc', hcpc'⟩ := hcall hpast hrew.pc
      rw [some.inj (hc.symm.trans hc'), hcpc', hpast] at hcpc
      exact absurd hcpc (svc_ne_next _)
    refine hkeep c hc (hcpc.trans (hat.trans hrew.pc.symm)) hrew.wait_t0 ?_
    rw [ScThread.charge, hflagged, if_pos rfl] at hdue
    rw [hcharge, ← hdue, elapsed_of_stopped ht0]
    omega
  refine hkeep c hc (hcpc.trans hrew.pc.symm) hrew.wait_t0 ?_
  rw [hcharge, ← hdue]
  omega

theorem ScState.Ok.boundary (h : s.Ok) (hphase : s.phase = .boundary) {b : Boundary} (hset : s.Settles b) :
    (s.boundary b).Ok := by
  unfold ScState.Settles at hset
  unfold ScState.boundary
  rcases hr : emu_boundary b s.thr with ⟨r, _ | f⟩
  · simp only [hr] at hset ⊢
    exact h.settled hphase hr hset.1 hset.2
  simp only [hr] at hset ⊢
  refine h.interrupted (emu_boundary_some hr) hset.1 fun c hc hpc => ?_
  obtain ⟨hns, ht0⟩ := hset.2 c hc hpc
  refine ⟨ht0, ?_⟩
  have hhere := h.here
  rw [ScState.Here, hphase] at hhere
  rcases hhere with (⟨hnone, -⟩ | ⟨c', hc', -, -, hdue⟩) | ⟨-, c', hc', -, -, hdue⟩
  · simp [hnone] at hc
  · rw [charge_eq_zero fun _ => hns, Nat.zero_add, some.inj (hc'.symm.trans hc)] at hdue
    exact hdue
  · rw [hns, Nat.zero_add, some.inj (hc'.symm.trans hc)] at hdue
    exact hdue

theorem dispatch_attempting (hrest : s.Resting) : s.dispatch.Attempting := by
  have hpc : s.thr.pc + 4 - 4 = s.thr.pc := BitVec.add_sub_cancel _ _
  refine ⟨rfl, s.dispatched, rfl, ?_, (congrArg (· + 4) hpc).symm, ?_⟩
  · show s.dispatched.svc_pc = s.thr.pc + 4 - 4
    rw [hpc]
    rcases hrest with ⟨hnone, -⟩ | ⟨c, hc, hcpc, -⟩
    · rw [ScState.dispatched, hnone]
      rfl
    · rw [ScState.dispatched, hc]
      exact hcpc
  show s.thr.charge + s.dispatched.carried = s.dispatched.waited
  rcases hrest with ⟨hnone, hzero⟩ | ⟨c, hc, -, -, hdue⟩
  · rw [ScState.dispatched, hnone, hzero]
    rfl
  · rw [ScState.dispatched, hc]
    exact hdue

theorem ScState.Ok.finish (h : s.Ok) (hphase : s.phase = .syscall) (ret : BitVec 64) {written : Bool}
    (hns : pwait_writes_back s.thr written = true → s.thr.sc_waited_ns = 0) : (s.finish ret written).Ok := by
  have hhere := h.here
  rw [ScState.Here, hphase] at hhere
  obtain ⟨hfalse, c, hc, hcpc, hpc, hdue⟩ := hhere
  have ht : ∃ t0, pwait_tmo_finish s.thr written = { s.thr with sc_wait_t0 := t0 } := by
    unfold pwait_tmo_finish
    split
    · exact ⟨0, rfl⟩
    · exact ⟨_, rfl⟩
  obtain ⟨t0, ht⟩ := ht
  refine ⟨h.frames, fun hf => ?_, ?_⟩
  · simp [ScState.finish, ht, syscall_return, hfalse] at hf
  by_cases hret : ret = EINTR_ret
  · refine .inr ⟨?_, if pwait_writes_back s.thr written then c.written s.thr else c, ?_, ?_, ?_, ?_⟩
    · simp [ScState.finish, ht, syscall_return, hfalse]
    · simp [ScState.finish, hret, hc]
    · simp only [ScState.finish, ht, syscall_return, GuestCall.written]
      split <;> exact hcpc
    · simp [ScState.finish, ht, syscall_return, hpc]
    simp only [ScState.finish, pwait_tmo_finish, syscall_return, GuestCall.written]
    split
    next hw =>
      have hzero := hns hw
      dsimp only
      omega
    · exact hdue
  · refine .inl (.inl ⟨if_neg hret, charge_eq_zero fun hf => ?_⟩)
    simp [ScState.finish, ht, syscall_return, hfalse] at hf

/-- One step of a thread whose waits are charged. -/
theorem charged_step_ok (h : s.Ok) (hstep : ChargedStep s a s') : s'.Ok := by
  obtain ⟨hstep, hcharges⟩ := hstep
  have hhere := h.here
  cases hstep with
  | tick ns | selfintr hphase =>
    refine ⟨h.frames, h.wait_t0, ?_⟩
    unfold ScState.Here at hhere ⊢
    exact hhere
  | run pc x hphase =>
    refine ⟨h.frames, h.wait_t0, ?_⟩
    rw [ScState.Here, hphase]
    exact .inl ⟨rfl, charge_eq_zero hcharges⟩
  | exit hphase =>
    rw [ScState.Here, hphase] at hhere
    exact ⟨h.frames, h.wait_t0, .inl hhere⟩
  | fault d hphase =>
    rw [ScState.Here, hphase] at hhere
    refine h.interrupted ⟨rfl, rfl, rfl⟩ hcharges fun c hc _ => ?_
    rcases hhere with ⟨hnone, -⟩ | ⟨c', hc', -, ht0, hdue⟩
    · simp [hnone] at hc
    · rw [charge_eq_zero hcharges, Nat.zero_add, some.inj (hc'.symm.trans hc)] at hdue
      exact ⟨ht0, hdue⟩
  | dispatch hphase =>
    rw [ScState.Here, hphase] at hhere
    exact ⟨h.frames, fun _ => rfl, dispatch_attempting hhere⟩
  | wait hphase hfirst =>
    rw [ScState.Here, hphase] at hhere
    refine ⟨h.frames, fun hf => ?_, ?_⟩
    · exact absurd (hf.symm.trans hhere.1) (by simp)
    · rw [ScState.Here, hphase]
      exact hhere
  | finish ret written hphase => exact h.finish hphase ret hcharges
  | seccomp_trap ret d hphase hwait =>
    rw [ScState.Here, hphase] at hhere
    obtain ⟨hfalse, c, hc, hcpc, hpc, -⟩ := hhere
    refine h.interrupted ⟨rfl, rfl, rfl⟩ (fun hf => absurd (hf.symm.trans hfalse) (by simp)) fun c' hc' heq => ?_
    -- the trap's frame resumes past the SVC
    rw [some.inj (hc'.symm.trans hc), hcpc] at heq
    exact absurd (heq.trans hpc) (svc_ne_next _)
  | sigreturn f call hphase hnr hwait hframe =>
    rw [ScState.Here, hphase] at hhere
    refine ⟨h.frames, fun _ => hwait, .inl ?_⟩
    have hzero : (syscall_return (sig_return s.thr f) (f.x 0)).charge = 0 := if_neg (by
      show ¬s.thr.sc_restarted = true
      simp [hhere.1])
    cases call with
    | none => exact .inl ⟨rfl, hzero⟩
    | some c =>
      obtain ⟨hpc, hwaited⟩ := h.frames f c (hframe.resolve_right (by simp))
      refine .inr ⟨c, rfl, hpc, hwait, ?_⟩
      rw [hzero, Nat.zero_add, hwaited]
  | boundary b hphase => exact h.boundary hphase hcharges

end invariant

theorem span_of_ns {ns : Nat} (h : ns < UINT64_MAX) : span_ns_sat (ns / NSEC_PER_SEC) (ns % NSEC_PER_SEC) = ns := by
  unfold span_ns_sat UINT64_MAX NSEC_PER_SEC at *
  split <;> omega

theorem syscall_wait_begin_span (t : ScThread) {ts : Timespec} (h : ts.span < UINT64_MAX) :
    (syscall_wait_begin t ts).span = ts.span - t.sc_waited_ns := by
  unfold syscall_wait_begin
  split
  · simp [*]
  rw [if_neg (Nat.ne_of_lt h)]
  split
  · exact span_of_ns (by omega)
  · rw [Timespec.span, span_of_ns (Nat.lt_of_le_of_lt (Nat.zero_le _) h)]
    omega

/-- A dispatch is charged with what the earlier attempts of its call waited, less what the call's timespec carries,
and a call made for the first time with nothing. -/
theorem restarted_waits_charged {t : ScThread} {as : List ScAct} {s s' : ScState}
    (hclean : t.sc_restarted = false) (h : Steps ChargedStep { thr := t } as s) (hdispatch : ScStep s .dispatch s') :
    s'.call = some s.dispatched ∧
      s'.thr.sc_waited_ns + s.dispatched.carried = s.dispatched.waited ∧
      (s.call = none → s'.thr.sc_waited_ns = 0) ∧
      ∀ ts : Timespec, ts.span < UINT64_MAX →
        (syscall_wait_begin s'.thr ts).span = ts.span - (s.dispatched.waited - s.dispatched.carried) := by
  have hinit : ScState.Ok { thr := t } :=
    ⟨fun _ _ hmem => absurd hmem List.not_mem_nil, fun hf => absurd (hf.symm.trans hclean) (by simp),
      .inl ⟨rfl, if_neg (by simp [hclean])⟩⟩
  have hok : s.Ok := h.invariant (fun _ _ _ => charged_step_ok) hinit
  cases hdispatch with
  | dispatch hphase =>
    have hhere := hok.here
    rw [ScState.Here, hphase] at hhere
    obtain ⟨-, c, hc, -, -, hdue⟩ := dispatch_attempting hhere
    cases hc
    refine ⟨rfl, hdue, fun hnone => ?_, fun ts hts => ?_⟩
    · rw [ScState.dispatched, hnone] at hdue
      exact (Nat.add_eq_zero_iff.1 hdue).1
    · rw [syscall_wait_begin_span _ hts, ← hdue, Nat.add_sub_cancel]

/-- A thread about to call `nanosleep`. -/
def sleeper : ScThread := { pc := 0x1000, x := fun i => if i = 8 then 101 else 0, mono_ns := 1 }

/-- Four seconds into its sleep the thread is interrupted by the emulator, and
the call is taken back to its SVC. -/
def cut_short : List ScAct :=
  [.dispatch, .wait, .tick 4000000000, .selfintr, .finish EINTR_ret false, .boundary { g_sig_npend := true }]

/-- The same call, made again, sleeps for the rest of its time. -/
theorem restarted_waits_charged_again : ∃ s s', Steps ChargedStep { thr := sleeper } cut_short s ∧
    ScStep s .dispatch s' ∧ s.dispatched.waited = 4000000000 ∧
    (syscall_wait_begin s'.thr ⟨10, 0⟩).span = 6000000000 := by
  have hrun : ∃ s, Steps ChargedStep { thr := sleeper } cut_short s ∧ s.phase = .guest ∧
      s.dispatched.waited = 4000000000 ∧ s.dispatched.carried = 0 := by
    refine ⟨_, .cons ⟨.dispatch rfl, trivial⟩ <| .cons ⟨.wait rfl rfl, trivial⟩ <| .cons ⟨.tick _, trivial⟩ <|
      .cons ⟨.selfintr rfl, trivial⟩ <| .cons ⟨.finish _ _ rfl, fun h => ?_⟩ <|
      .cons ⟨.boundary _ rfl, ?_⟩ <| .nil _, rfl, rfl, rfl⟩
    · cases h
    · exact ⟨fun h => (by cases h), fun _ _ => ⟨_, rfl, rfl⟩⟩
  obtain ⟨s, hsteps, hphase, hwaited, hcarried⟩ := hrun
  have hdispatch : ScStep s .dispatch s.dispatch := .dispatch hphase
  obtain ⟨-, -, -, hspan⟩ := restarted_waits_charged rfl hsteps hdispatch
  refine ⟨s, _, hsteps, hdispatch, hwaited, ?_⟩
  rw [hspan ⟨10, 0⟩ (by decide), hwaited, hcarried]
  rfl

/-- A handler at the other end of the address space, without `SA_RESTART`. -/
def handler_due : Delivery :=
  { sig := 10, handler := 0x2000, sa_restart := false, frame := 0x8000, sigtramp_va := 0x3000 }

/-- A signal with a handler arrives before the SVC is reached again, and the
handler comes to a call of its own: a first call, made four seconds short. -/
theorem handler_call_charged : ∃ s s',
    Steps ScStep { thr := sleeper }
        (cut_short ++ [.exit, .boundary { g_sig_npend := true, handler := some handler_due },
      .run 0x2004 fun i => if i = 8 then 101 else 0]) s ∧
    ScStep s .dispatch s' ∧ s.call = none ∧ s'.thr.sc_waited_ns = 4000000000 ∧
    syscall_wait_begin s'.thr ⟨10, 0⟩ = ⟨6, 0⟩ := by
  refine ⟨_, _, .cons (.dispatch rfl) <| .cons (.wait rfl rfl) <| .cons (.tick _) <|
    .cons (.selfintr rfl) <| .cons (.finish _ _ rfl) <| .cons (.boundary _ rfl) <| .cons (.exit rfl) <|
    .cons (.boundary _ rfl) <| .cons (.run _ _ rfl) <| .nil _, .dispatch rfl, rfl, rfl, rfl⟩

end arm64emu
