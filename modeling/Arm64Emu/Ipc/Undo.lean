import Mathlib
import Arm64Emu.Ipc.Tables
import Arm64Emu.Lib.Steps

open slots transition

namespace arm64emu

open Option

/-- A process: its pid and its start time. -/
structure Proc where
  pid : Int
  start : Nat
  deriving DecidableEq

/-- What a run does to values and adjustments. -/
inductive SemEvent where
  | commit (p : Proc) (semid : Int) (sops : List Sembuf)
  | setval (semid : Int) (semnum : Nat)
  | setall (semid : Int) (nsems : Nat)
  | removed (semid : Int)
  | exited (gone : Proc → Bool)

/-- Minus the sum of a process's committed `SEM_UNDO` operations on a semaphore since it was last set, or its set
removed; the newest event is first. -/
def undo_owed (p : Proc) (semid : Int) (n : Nat) : List SemEvent → Int
  | [] => 0
  | .commit p' id sops :: log =>
    if p' = p ∧ id = semid then undo_owed p semid n log - sem_undo_total sops n else undo_owed p semid n log
  | .setval id k :: log => if id = semid ∧ k = n then 0 else undo_owed p semid n log
  | .setall id nsems :: log => if id = semid ∧ n < nsems then 0 else undo_owed p semid n log
  | .removed id :: log => if id = semid then 0 else undo_owed p semid n log
  | .exited gone :: log => if gone p then 0 else undo_owed p semid n log

/-- The tables and the log of a run. -/
structure SemRun where
  tab : SemTab
  log : List SemEvent

/-- A request about semaphores. -/
inductive SemReq where
  | get (q : Caller) (key : Int) (nsems : Nat) (flg : GetFlags)
  | semop (p : Proc) (uid gid : Nat) (semid : Int) (sops : List Sembuf)
  | retry (p : Proc) (semid : Int) (sops : List Sembuf)
  | setval (q : Caller) (semid semnum val : Int)
  | setall (q : Caller) (semid : Int) (vals : List Int)
  | rmid (q : Caller) (semid : Int)
  | exit (p : Proc)
  | reclaim

def commit_events (p : Proc) (semid : Int) (sops : List Sembuf) (res : TryResult) : List SemEvent :=
  if res = .applied then [.commit p semid sops] else []

/-- One request, logged. -/
def sem_step (h : Host) (r : SemRun) : SemReq → SemRun
  | .get q key nsems flg => { r with tab := (sem_do_get h r.tab q key nsems flg).1 }
  | .semop p uid gid semid sops =>
    let res := sem_serve_op h r.tab ⟨p.pid, uid, gid⟩ semid sops
    ⟨res.1, commit_events p semid sops res.2 ++ r.log⟩
  | .retry p semid sops =>
    match sem_find r.tab semid with
    | none => r
    | some (i, s) =>
      let res := sem_try_op h r.tab i s sops p.pid
      ⟨res.1, commit_events p semid sops res.2 ++ r.log⟩
  | .setval q semid semnum val =>
    let res := sem_setval h r.tab q semid semnum val
    ⟨res.1, if res.2 = 0 then .setval semid semnum.toNat :: r.log else r.log⟩
  | .setall q semid vals =>
    let res := sem_setall h r.tab q semid vals
    ⟨res.1, if res.2 = 0 then .setall semid vals.length :: r.log else r.log⟩
  | .rmid q semid =>
    let res := sem_rmid r.tab q semid
    ⟨res.1, if res.2 = 0 then .removed semid :: r.log else r.log⟩
  | .exit p => ⟨sem_exit_pid h r.tab p.pid, .exited (fun p' => p'.pid = p.pid) :: r.log⟩
  | .reclaim => ⟨sem_reclaim h r.tab, .exited (fun p' => h.starttime p'.pid ≠ p'.start) :: r.log⟩

/-- A vector of `p` with `SEM_UNDO` is tried while `p` is there and no row of an
earlier process with its pid is left. -/
def NoLeftover (h : Host) (t : SemTab) (p : Proc) (sops : List Sembuf) : Prop :=
  (∃ op ∈ sops, op.undo = true) →
    h.starttime p.pid = p.start ∧ ∀ i u, t.undo i = some u → u.pid = p.pid → u.start = p.start

/-- No vector with `SEM_UNDO` meets a row of an earlier process with its pid. -/
def SemReq.Good (h : Host) (t : SemTab) : SemReq → Prop
  | .semop p _ _ _ sops => NoLeftover h t p sops
  | .retry p _ sops => NoLeftover h t p sops
  | _ => True

def SemStep (r : SemRun) (a : Host × SemReq) (r' : SemRun) : Prop := r' = sem_step a.1 r a.2

/-- A request handled with no row of an earlier process in its way. -/
def GoodStep (r : SemRun) (a : Host × SemReq) (r' : SemRun) : Prop := a.2.Good a.1 r.tab ∧ SemStep r a r'

def SemRun.init : SemRun := ⟨.empty, []⟩

theorem sem_step_ok (h : Host) {r : SemRun} (hok : r.tab.Ok) (req : SemReq) : (sem_step h r req).tab.Ok := by
  cases req with
  | get q key nsems flg => exact sem_do_get_ok hok q key nsems flg
  | semop p uid gid semid sops => exact sem_serve_op_ok hok ⟨p.pid, uid, gid⟩ semid sops
  | retry p semid sops =>
    rw [sem_step]
    split
    next => exact hok
    next i s hfind => exact sem_try_op_ok hok (sem_find_some hfind).1 sops p.pid
  | setval q semid semnum val => exact sem_setval_ok hok q semid semnum val
  | setall q semid vals => exact sem_setall_ok hok q semid vals
  | rmid q semid => exact sem_rmid_ok hok q semid
  | exit p =>
    dsimp only [sem_step, sem_exit_pid]
    exact sem_apply_rows_ok hok _
  | reclaim =>
    dsimp only [sem_step, sem_reclaim]
    exact sem_apply_rows_ok hok _

/-- The adjustments of the table are what the log says is owed; a process without
a row for a set owes it nothing. -/
structure Tracks (undo : Table SemUndo) (log : List SemEvent) : Prop where
  row : ∀ i u, undo i = some u → ∀ n, u.adj n = undo_owed ⟨u.pid, u.start⟩ u.semid n log
  none : ∀ p semid, (∀ i u, undo i = some u → ¬(u.pid = p.pid ∧ u.start = p.start ∧ u.semid = semid)) →
    ∀ n, undo_owed p semid n log = 0

section tracks

variable {undo undo' : Table SemUndo} {log : List SemEvent} {h : Host} {p : Proc} {pid semid : Int}
  {sops : List Sembuf}

theorem Tracks.extend (ht : Tracks undo log) (hext : UndoExtends h pid semid undo undo') : Tracks undo' log := by
  rcases hext with rfl | ⟨i, -, hnone, hfresh, rfl⟩
  · exact ht
  refine ⟨forall_update_some (fun n => ?_) ht.row, fun p sid hno n => ?_⟩
  · exact (ht.none ⟨pid, h.starttime pid⟩ semid (fun k v hv hmatch =>
      hfresh k v hv ⟨hmatch.1, hmatch.2.2⟩) n).symm
  refine ht.none p sid (fun k v hv => ?_) n
  have hk : k ≠ i := ne_of_free hnone hv
  exact hno k v (by rw [Function.update_of_ne hk, hv])

theorem undo_owed_commit (p p' : Proc) (semid sid : Int) (sops : List Sembuf) (n : Nat) (log : List SemEvent) :
    undo_owed p' sid n (.commit p semid sops :: log) =
      undo_owed p' sid n log - if p = p' ∧ semid = sid then sem_undo_total sops n else 0 := by
  rw [undo_owed]
  split
  · rfl
  · rw [sub_zero]

theorem sem_undo_total_none (hno : ∀ op ∈ sops, op.undo = false) (n : Nat) : sem_undo_total sops n = 0 := by
  have hfilter : sops.filter (fun op => op.undo ∧ op.sem_num = n) = [] := by
    rw [List.filter_eq_nil_iff]
    intro op hop
    simp [hno op hop]
  rw [sem_undo_total, hfilter, List.map_nil, List.sum_nil]

theorem Tracks.commit (ht : Tracks undo log)
    (hready : UndoReady h p.pid semid sops undo undo')
    (hgood : (∃ op ∈ sops, op.undo = true) → h.starttime p.pid = p.start ∧
      ∀ i u, undo i = some u → u.pid = p.pid → u.start = p.start) :
    Tracks (undo_moved p.pid semid (sem_undo_total sops) undo') (.commit p semid sops :: log) := by
  obtain ⟨hext, hrow⟩ := hready
  have ht' := ht.extend hext
  by_cases hundo : ∃ op ∈ sops, op.undo = true
  case neg =>
    have htotal : sem_undo_total sops = fun _ => 0 := by
      funext n
      refine sem_undo_total_none (fun op hop => Bool.eq_false_iff.2 fun hflag => hundo ⟨op, hop, hflag⟩) n
    have howed : ∀ p' sid n, undo_owed p' sid n (.commit p semid sops :: log) = undo_owed p' sid n log := by
      intro p' sid n
      rw [undo_owed_commit, htotal, ite_self, sub_zero]
    rw [htotal, undo_moved_zero]
    exact ⟨fun i u hu n => by rw [howed]; exact ht'.row i u hu n, fun p' sid hno n => by
      rw [howed]; exact ht'.none p' sid hno n⟩
  case pos =>
    obtain ⟨hstart, hrows⟩ := hgood hundo
    -- the row of the pid for the set is the row of this very process
    have hproc : ∀ i u, undo' i = some u → u.pid = p.pid → u.start = p.start := by
      rcases hext with rfl | ⟨k, -, -, -, rfl⟩
      · exact hrows
      · exact forall_update_some (fun _ => hstart) hrows
    obtain ⟨k, v, hv, hvpid, hvsem⟩ : ∃ i u, undo' i = some u ∧ u.pid = p.pid ∧ u.semid = semid := by
      rcases hrow with hrow | ⟨-, hno⟩
      · exact hrow
      obtain ⟨op, hop, hflag⟩ := hundo
      rw [hno op hop] at hflag
      cases hflag
    refine ⟨fun i u' hu' n => ?_, fun p' sid hno n => ?_⟩
    · obtain ⟨u, hu, heq⟩ := map_eq_some_iff.1 hu'
      by_cases hmatch : undo_of p.pid semid u = true
      · rw [if_pos hmatch] at heq
        subst heq
        obtain ⟨hpid, hsem⟩ := undo_of_iff.1 hmatch
        have hp : p = ⟨u.pid, u.start⟩ := by
          rw [hproc i u hu hpid, hpid]
        rw [undo_owed_commit, if_pos ⟨hp, hsem.symm⟩, ← ht'.row i u hu n]
      rw [if_neg hmatch] at heq
      subst heq
      have hother : ¬(p = ⟨u.pid, u.start⟩ ∧ semid = u.semid) := by
        rintro ⟨hp, hsem⟩
        exact hmatch (undo_of_iff.2 ⟨by rw [hp], hsem.symm⟩)
      rw [undo_owed_commit, if_neg hother, sub_zero, ← ht'.row i u hu n]
    have hother : ¬(p = p' ∧ semid = sid) := by
      rintro ⟨rfl, rfl⟩
      refine hno k { v with adj := fun n => v.adj n - sem_undo_total sops n } ?_ ⟨hvpid, hproc k v hv hvpid, hvsem⟩
      rw [undo_moved, hv, map_some, if_pos (undo_of_iff.2 ⟨hvpid, hvsem⟩)]
    rw [undo_owed_commit, if_neg hother, sub_zero]
    refine ht'.none p' sid (fun i u hu hmatch => ?_) n
    by_cases hkey : undo_of p.pid semid u = true
    · exact hno i { u with adj := fun n => u.adj n - sem_undo_total sops n }
        (by rw [undo_moved, hu, map_some, if_pos hkey]) hmatch
    · exact hno i u (by rw [undo_moved, hu, map_some, if_neg hkey]) hmatch

/-- Adjustments cleared, and rows dropped, where the log says that nothing is owed
any more. -/
structure Cleared (gone : Proc → Int → Nat → Prop) (undo undo' : Table SemUndo) (log log' : List SemEvent) :
    Prop where
  owed_gone : ∀ p sid n, gone p sid n → undo_owed p sid n log' = 0
  owed_kept : ∀ p sid n, ¬gone p sid n → undo_owed p sid n log' = undo_owed p sid n log
  kept : ∀ i u', undo' i = some u' → ∃ u, undo i = some u ∧ u'.pid = u.pid ∧ u'.start = u.start ∧
    u'.semid = u.semid ∧ ∀ n, (gone ⟨u.pid, u.start⟩ u.semid n → u'.adj n = 0) ∧
      (¬gone ⟨u.pid, u.start⟩ u.semid n → u'.adj n = u.adj n)
  dropped : ∀ i u, undo i = some u → undo' i = none → ∀ n, gone ⟨u.pid, u.start⟩ u.semid n

theorem Tracks.clear {gone : Proc → Int → Nat → Prop} {log' : List SemEvent} (ht : Tracks undo log)
    (hc : Cleared gone undo undo' log log') : Tracks undo' log' := by
  refine ⟨fun i u' hu' n => ?_, fun p sid hno n => ?_⟩
  · obtain ⟨u, hu, hpid, hstart, hsem, hadj⟩ := hc.kept i u' hu'
    rw [hpid, hstart, hsem]
    by_cases hgone : gone ⟨u.pid, u.start⟩ u.semid n
    · rw [(hadj n).1 hgone, hc.owed_gone _ _ _ hgone]
    · rw [(hadj n).2 hgone, hc.owed_kept _ _ _ hgone, ht.row i u hu n]
  by_cases hgone : gone p sid n
  · exact hc.owed_gone p sid n hgone
  rw [hc.owed_kept p sid n hgone]
  refine ht.none p sid (fun i u hu hmatch => ?_) n
  have hp : (⟨u.pid, u.start⟩ : Proc) = p := by rw [hmatch.1, hmatch.2.1]
  cases hu' : undo' i with
  | none =>
    have hrow := hc.dropped i u hu hu' n
    rw [hp, hmatch.2.2] at hrow
    exact hgone hrow
  | some u' =>
    obtain ⟨v, hv, hpid, hstart, hsem, -⟩ := hc.kept i u' hu'
    rw [hu, some.injEq] at hv
    subst hv
    exact hno i u' hu' (by rw [hpid, hstart, hsem]; exact hmatch)

end tracks

section requests

variable {t : SemTab} {log : List SemEvent} {i : Nat} {s : SemSet} {semid : Int}

theorem cleared_set {semnum : Option Nat} {e : SemEvent} (hfind : sem_find t semid = some (i, s))
    (howed : ∀ p sid n, undo_owed p sid n (e :: log) =
      if semid = sid ∧ n < s.nsems ∧ (semnum = none ∨ semnum = some n) then 0 else undo_owed p sid n log) :
    Cleared (fun _ sid n => semid = sid ∧ n < s.nsems ∧ (semnum = none ∨ semnum = some n)) t.undo
      (sem_undo_clear t semid semnum) log (e :: log) := by
  refine ⟨fun p sid n hgone => ?_, fun p sid n hgone => ?_, fun k u' hu' => ?_, fun k u hu hnone => ?_⟩
  · rw [howed, if_pos hgone]
  · rw [howed, if_neg hgone]
  · obtain ⟨u, hu, hpid, hstart, hsem, hadj⟩ := sem_undo_clear_row hfind hu'
    refine ⟨u, hu, hpid, hstart, hsem, fun n => ⟨fun hgone => ?_, fun hgone => ?_⟩⟩
    · rw [hadj, if_pos ⟨hgone.1.symm, hgone.2⟩]
    · rw [hadj, if_neg fun h => hgone ⟨h.1.symm, h.2⟩]
  · rw [sem_undo_clear, hu] at hnone
    cases hnone

theorem cleared_removed : Cleared (fun _ sid _ => s.semid = sid) t.undo (sem_free_set t i s).undo log
    (.removed s.semid :: log) := by
  refine ⟨fun p sid n hgone => ?_, fun p sid n hgone => ?_, fun k u hu => ?_, fun k u hu hnone n => ?_⟩
  · rw [undo_owed, if_pos hgone]
  · rw [undo_owed, if_neg hgone]
  · obtain ⟨hu, hkeep⟩ := filter_eq_some_iff.1 hu
    refine ⟨u, hu, rfl, rfl, rfl, fun n => ⟨fun hgone => ?_, fun _ => rfl⟩⟩
    exact absurd hgone.symm (of_decide_eq_true hkeep)
  by_contra hsem
  have hkeep : (sem_free_set t i s).undo k = some u :=
    filter_eq_some_iff.2 ⟨hu, decide_eq_true fun h => hsem h.symm⟩
  rw [hkeep] at hnone
  cases hnone

theorem cleared_exited {h : Host} {f : SemUndo → Bool} {g : Proc → Bool} (hok : UndoOk t.undo)
    (hf : ∀ u, f u = g ⟨u.pid, u.start⟩) :
    Cleared (fun p _ _ => g p = true) t.undo (sem_apply_rows h f t).undo log (.exited g :: log) := by
  refine ⟨fun p sid n hgone => ?_, fun p sid n hgone => ?_, fun k u hu => ?_, fun k u hu hnone n => ?_⟩
  · rw [undo_owed, if_pos hgone]
  · rw [undo_owed, if_neg hgone]
  · rw [sem_apply_rows_undo hok] at hu
    obtain ⟨hu, hkeep⟩ := filter_eq_some_iff.1 hu
    rw [Bool.not_eq_true', hf] at hkeep
    refine ⟨u, hu, rfl, rfl, rfl, fun n => ⟨fun hgone => ?_, fun _ => rfl⟩⟩
    rw [hgone] at hkeep
    cases hkeep
  by_contra hgone
  rw [sem_apply_rows_undo hok, hu, filter_some, if_pos (by simp [hf, hgone])] at hnone
  cases hnone

end requests

section runs

variable {t : SemTab} {r r' : SemRun} {h : Host} {i : Nat} {s : SemSet} {as : List (Host × SemReq)}

theorem Tracks.attempt {log : List SemEvent} {p : Proc} {sops : List Sembuf} (ht : Tracks t.undo log) (hok : t.Ok)
    (hs : t.sem i = some s) (hgood : NoLeftover h t p sops) :
    Tracks (sem_try_op h t i s sops p.pid).1.undo
      (commit_events p s.semid sops (sem_try_op h t i s sops p.pid).2 ++ log) := by
  unfold commit_events
  by_cases hres : (sem_try_op h t i s sops p.pid).2 = .applied
  · obtain ⟨s', undo, heq, hready, -⟩ := sem_try_op_applied hok hs hres
    rw [if_pos hres, heq]
    exact ht.commit hready hgood
  · rw [if_neg hres]
    exact ht.extend (sem_try_op_refused hok hs hres).2.1

/-- A request with no leftover row in its way keeps the adjustments at what is
owed. -/
theorem sem_step_tracks (hok : r.tab.Ok) (ht : Tracks r.tab.undo r.log) {req : SemReq} (hgood : req.Good h r.tab) :
    Tracks (sem_step h r req).tab.undo (sem_step h r req).log := by
  cases req with
  | get q key nsems flg =>
    dsimp only [sem_step]
    rcases sem_do_get_cases h r.tab q key nsems flg with ⟨next, heq⟩ | ⟨i, s, s', heq, -⟩ | ⟨i, s, next, heq, -⟩ <;>
      rw [heq] <;> exact ht
  | semop p uid gid semid sops =>
    dsimp only [sem_step]
    rcases sem_serve_op_cases h r.tab ⟨p.pid, uid, gid⟩ semid sops with ⟨e, heq⟩ | ⟨i, s, hs, rfl, heq⟩
    · rw [heq]
      exact ht
    · rw [heq]
      exact ht.attempt hok hs hgood
  | retry p semid sops =>
    rw [sem_step]
    split
    · exact ht
    rename_i i s hfind
    obtain ⟨hs, rfl⟩ := sem_find_some hfind
    exact ht.attempt hok hs hgood
  | setval q semid semnum val =>
    dsimp only [sem_step]
    rcases sem_setval_cases h r.tab q semid semnum val with ⟨e, hne, heq⟩ | ⟨i, s, s', hfind, hlt, -, -, heq, -⟩
    · rw [heq, if_neg hne]
      exact ht
    rw [heq, if_pos rfl]
    refine ht.clear (cleared_set hfind fun p sid n => ?_)
    have hiff : (semid = sid ∧ semnum.toNat = n) ↔
        (semid = sid ∧ n < s.nsems ∧ (some semnum.toNat = none ∨ some semnum.toNat = some n)) := by
      grind
    simp only [undo_owed, hiff]
  | setall q semid vals =>
    dsimp only [sem_step]
    rcases sem_setall_cases h r.tab q semid vals with ⟨e, hne, heq⟩ | ⟨i, s, s', hfind, hlen, -, heq, -⟩
    · rw [heq, if_neg hne]
      exact ht
    rw [heq, if_pos rfl]
    refine ht.clear (cleared_set hfind fun p sid n => ?_)
    simp only [undo_owed, hlen, true_or, and_true]
  | rmid q semid =>
    dsimp only [sem_step]
    rcases sem_rmid_cases r.tab q semid with ⟨e, hne, heq⟩ | ⟨i, s, -, rfl, heq⟩
    · rw [heq, if_neg hne]
      exact ht
    · rw [heq, if_pos rfl]
      exact ht.clear cleared_removed
  | exit p =>
    dsimp only [sem_step, sem_exit_pid]
    exact ht.clear (cleared_exited hok.undo fun u => rfl)
  | reclaim =>
    dsimp only [sem_step, sem_reclaim]
    exact ht.clear (cleared_exited hok.undo fun u => rfl)

structure SemRun.Tracked (r : SemRun) : Prop where
  ok : r.tab.Ok
  tracks : Tracks r.tab.undo r.log

/-- Every run keeps the tables in order. -/
theorem sem_run_ok (hrun : Steps SemStep SemRun.init as r) : r.tab.Ok := by
  have hkept : ∀ r a r', SemTab.Ok r.tab → SemStep r a r' → SemTab.Ok r'.tab := by
    rintro r a r' hok rfl
    exact sem_step_ok a.1 hok a.2
  have hok := hrun.invariant hkept SemTab.empty_ok
  exact hok

/-- On every good run a row holds what its process is owed. -/
theorem sem_run_tracks (hrun : Steps GoodStep SemRun.init as r) : r.Tracked := by
  refine hrun.invariant ?_ ⟨SemTab.empty_ok, fun i u hu => (by cases hu), fun p semid _ n => rfl⟩
  rintro r a r' ⟨hok, ht⟩ ⟨hgood, rfl⟩
  exact ⟨sem_step_ok a.1 hok a.2, sem_step_tracks hok ht hgood⟩

end runs

end arm64emu
