import Mathlib
import Arm64Emu.Ipc.Undo

open slots transition

namespace arm64emu

open List Option

/-- The first row with `f`, read at a semaphore; no row is an adjustment of zero. -/
def adj_where (undo : Table SemUndo) (f : SemUndo → Bool) (n : Nat) : Int :=
  ((find SEM_UNDO_MAX undo f).map fun i => row_adj undo i n).getD 0

def pid_adj (undo : Table SemUndo) (pid semid : Int) (n : Nat) : Int := adj_where undo (undo_of pid semid) n

def proc_undo (p : Proc) (semid : Int) (u : SemUndo) : Bool := u.pid = p.pid ∧ u.start = p.start ∧ u.semid = semid

def proc_adj (undo : Table SemUndo) (p : Proc) (semid : Int) (n : Nat) : Int := adj_where undo (proc_undo p semid) n

section adjustments

variable {undo undo' : Table SemUndo} {f : SemUndo → Bool} {i n : Nat} {u : SemUndo} {p : Proc} {semid pid : Int}
  {h : Host} {log : List SemEvent}

theorem adj_where_row (hok : UndoOk undo) (hkey : ∀ u v, f u = true → f v = true → u.pid = v.pid ∧ u.semid = v.semid)
    (hu : undo i = some u) (hf : f u = true) : adj_where undo f n = u.adj n := by
  have hfind : find SEM_UNDO_MAX undo f = some i := by
    refine find_unique (fun j k a b ha hb hfa hfb => ?_) (hok.bound i u hu) hu hf
    obtain ⟨hpid, hsem⟩ := hkey a b hfa hfb
    exact hok.unique j k a b ha hb hpid hsem
  rw [adj_where, hfind, map_some, getD_some, row_adj, hu, map_some, getD_some]

theorem adj_where_none (hnone : ∀ i u, undo i = some u → f u = false) : adj_where undo f n = 0 := by
  have hfind : find SEM_UNDO_MAX undo f = none := by
    cases hfind : find SEM_UNDO_MAX undo f with
    | none => rfl
    | some i =>
      obtain ⟨-, u, hu, hf⟩ := find_some hfind
      rw [hnone i u hu] at hf
      cases hf
  rw [adj_where, hfind, map_none, getD_none]

theorem proc_undo_iff : proc_undo p semid u = true ↔ u.pid = p.pid ∧ u.start = p.start ∧ u.semid = semid := by
  rw [proc_undo, decide_eq_true_iff]

theorem pid_adj_row (hok : UndoOk undo) (hu : undo i = some u) (hpid : u.pid = pid) (hsem : u.semid = semid) :
    pid_adj undo pid semid n = u.adj n := by
  refine adj_where_row hok (fun a b ha hb => ?_) hu (undo_of_iff.2 ⟨hpid, hsem⟩)
  rw [undo_of_iff] at ha hb
  exact ⟨ha.1.trans hb.1.symm, ha.2.trans hb.2.symm⟩

theorem pid_adj_none (hnone : ∀ i u, undo i = some u → ¬(u.pid = pid ∧ u.semid = semid)) :
    pid_adj undo pid semid n = 0 := by
  refine adj_where_none fun i u hu => Bool.eq_false_iff.2 fun hf => ?_
  exact hnone i u hu (undo_of_iff.1 hf)

theorem pid_adj_cases (hok : UndoOk undo) (pid semid : Int) :
    (∃ i u, undo i = some u ∧ u.pid = pid ∧ u.semid = semid ∧ ∀ n, pid_adj undo pid semid n = u.adj n) ∨
      ((∀ i u, undo i = some u → ¬(u.pid = pid ∧ u.semid = semid)) ∧ ∀ n, pid_adj undo pid semid n = 0) := by
  by_cases hrow : ∃ i u, undo i = some u ∧ u.pid = pid ∧ u.semid = semid
  · obtain ⟨i, u, hu, hpid, hsem⟩ := hrow
    exact .inl ⟨i, u, hu, hpid, hsem, fun n => pid_adj_row hok hu hpid hsem⟩
  have hnone : ∀ i u, undo i = some u → ¬(u.pid = pid ∧ u.semid = semid) := fun i u hu hmatch =>
    hrow ⟨i, u, hu, hmatch⟩
  exact .inr ⟨hnone, fun n => pid_adj_none hnone⟩

theorem pid_adj_extend (hok : UndoOk undo) (hext : UndoExtends h pid semid undo undo') (pid' sid : Int) (n : Nat) :
    pid_adj undo' pid' sid n = pid_adj undo pid' sid n := by
  have hok' := hext.ok hok
  rcases hext with rfl | ⟨k, -, hfree, hfresh, rfl⟩
  · rfl
  rcases pid_adj_cases hok pid' sid with ⟨i, u, hu, hpid, hsem, hadj⟩ | ⟨hnone, hadj⟩
  · have hik : i ≠ k := ne_of_free hfree hu
    rw [hadj, pid_adj_row hok' (i := i) (u := u) (by rw [Function.update_of_ne hik, hu]) hpid hsem]
  rw [hadj]
  by_cases hnew : pid = pid' ∧ semid = sid
  · rw [pid_adj_row hok' (i := k) (Function.update_self ..) hnew.1 hnew.2]
  refine pid_adj_none fun i u hu hmatch => ?_
  rcases update_some hu with ⟨-, hself⟩ | ⟨-, hu⟩
  · cases hself
    exact hnew hmatch
  · exact hnone i u hu hmatch

theorem pid_adj_moved {sops : List Sembuf} (hok : UndoOk undo) (hready : UndoReady h pid semid sops undo undo')
    (hmoved : UndoOk (undo_moved pid semid (sem_undo_total sops) undo')) (pid' sid : Int) (n : Nat) :
    pid_adj (undo_moved pid semid (sem_undo_total sops) undo') pid' sid n =
      pid_adj undo pid' sid n - if pid' = pid ∧ sid = semid then sem_undo_total sops n else 0 := by
  obtain ⟨hext, hrow⟩ := hready
  have hok' := hext.ok hok
  rw [← pid_adj_extend hok hext]
  rcases pid_adj_cases hok' pid' sid with ⟨i, u, hu, hpid, hsem, hadj⟩ | ⟨hnone, hadj⟩
  · rw [hadj]
    by_cases hkey : undo_of pid semid u = true
    · have hmatch := undo_of_iff.1 hkey
      rw [if_pos ⟨hpid ▸ hmatch.1, hsem ▸ hmatch.2⟩]
      refine pid_adj_row hmoved (i := i) (u := { u with adj := fun n => u.adj n - sem_undo_total sops n }) ?_ hpid hsem
      rw [undo_moved, hu, map_some, if_pos hkey]
    rw [if_neg fun heq => hkey (undo_of_iff.2 ⟨hpid.trans heq.1, hsem.trans heq.2⟩), sub_zero]
    refine pid_adj_row hmoved (i := i) ?_ hpid hsem
    rw [undo_moved, hu, map_some, if_neg hkey]
  rw [hadj]
  have htotal : (if pid' = pid ∧ sid = semid then sem_undo_total sops n else 0) = 0 := by
    split
    next heq =>
      rcases hrow with ⟨i, u, hu, hpid, hsem⟩ | ⟨-, hno⟩
      · exact absurd ⟨hpid.trans heq.1.symm, hsem.trans heq.2.symm⟩ (hnone i u hu)
      · exact sem_undo_total_none hno n
    next => rfl
  rw [htotal, sub_zero]
  refine pid_adj_none fun i u' hu' hmatch => ?_
  obtain ⟨u, hu, heq⟩ := map_eq_some_iff.1 hu'
  refine hnone i u hu ?_
  split at heq <;> (subst heq; exact hmatch)

theorem Tracks.adj_eq (ht : Tracks undo log) (hok : UndoOk undo) (p : Proc) (semid : Int) (n : Nat) :
    proc_adj undo p semid n = undo_owed p semid n log := by
  by_cases hrow : ∃ i u, undo i = some u ∧ u.pid = p.pid ∧ u.start = p.start ∧ u.semid = semid
  · obtain ⟨i, u, hu, hpid, hstart, hsem⟩ := hrow
    have hadj : proc_adj undo p semid n = u.adj n := by
      refine adj_where_row hok (fun a b ha hb => ?_) hu (proc_undo_iff.2 ⟨hpid, hstart, hsem⟩)
      rw [proc_undo_iff] at ha hb
      exact ⟨ha.1.trans hb.1.symm, ha.2.2.trans hb.2.2.symm⟩
    rw [hadj, ht.row i u hu n, hpid, hstart, hsem]
  have hnone : ∀ i u, undo i = some u → ¬(u.pid = p.pid ∧ u.start = p.start ∧ u.semid = semid) :=
    fun i u hu hmatch => hrow ⟨i, u, hu, hmatch⟩
  rw [ht.none p semid hnone n]
  exact adj_where_none fun i u hu => Bool.eq_false_iff.2 fun hf => hnone i u hu (proc_undo_iff.1 hf)

end adjustments

/-- All the operations of a vector in order, with the adjustments of its pid moved against its `SEM_UNDO` operations,
or nothing to any value or adjustment. -/
structure VectorDone (t : SemTab) (pid semid : Int) (sops : List Sembuf) (t' : SemTab) (res : TryResult) : Prop where
  refused : res ≠ .applied →
    t'.sem = t.sem ∧ ∀ pid' sid n, pid_adj t'.undo pid' sid n = pid_adj t.undo pid' sid n
  applied : res = .applied →
    (∃ i s s', t.sem i = some s ∧ s.semid = semid ∧ s'.semid = semid ∧ s'.val = sem_apply_vals sops s.val ∧
      t'.sem = Function.update t.sem i (some s')) ∧
    ∀ pid' sid n, pid_adj t'.undo pid' sid n =
      pid_adj t.undo pid' sid n - if pid' = pid ∧ sid = semid then sem_undo_total sops n else 0

def OwnRows (undo : Table SemUndo) (p : Proc) : Prop := ∀ i u, undo i = some u → u.pid = p.pid → u.start = p.start

section exits

variable {t : SemTab} {h : Host} {i k : Nat} {s : SemSet} {u : SemUndo} {p : Proc} {log : List SemEvent}
  {f : SemUndo → Bool} {undo : Table SemUndo} {semid : Int} {l : List Nat}

theorem sem_try_op_done (hok : t.Ok) (hs : t.sem i = some s) (sops : List Sembuf) (pid : Int) :
    VectorDone t pid s.semid sops (sem_try_op h t i s sops pid).1 (sem_try_op h t i s sops pid).2 := by
  constructor
  · intro hres
    obtain ⟨hsem, hext, -⟩ := sem_try_op_refused hok hs hres
    exact ⟨hsem, pid_adj_extend hok.undo hext⟩
  intro hres
  obtain ⟨s', undo, heq, hready, hid, hval, -, hmoved⟩ := sem_try_op_applied hok hs hres
  rw [heq]
  exact ⟨⟨i, s, s', hs, rfl, hid, hval, rfl⟩, pid_adj_moved hok.undo hready hmoved⟩

theorem sem_serve_op_done (hok : t.Ok) (q : Caller) (semid : Int) (sops : List Sembuf) :
    VectorDone t q.pid semid sops (sem_serve_op h t q semid sops).1 (sem_serve_op h t q semid sops).2 := by
  rcases sem_serve_op_cases h t q semid sops with ⟨e, heq⟩ | ⟨i, s, hs, rfl, heq⟩
  · rw [heq]
    exact ⟨fun _ => ⟨rfl, fun _ _ _ => rfl⟩, fun hres => (by cases hres)⟩
  · rw [heq]
    exact sem_try_op_done hok hs sops q.pid

theorem rows_of_none (hnone : ∀ j ∈ l, ∀ v, undo j = some v → ¬(f v = true ∧ v.semid = semid)) :
    rows_of f undo semid l = [] := by
  refine filterMap_eq_nil_iff.2 fun j hj => ?_
  cases hv : undo j with
  | none => rfl
  | some v =>
    have hkeep : ¬((f v && decide (v.semid = semid)) = true) := by
      rw [Bool.and_eq_true, decide_eq_true_iff]
      exact hnone j hj v hv
    rw [filter_some, if_neg hkeep]

theorem rows_of_single (hu : undo k = some u) (hf : f u = true) (hsem : u.semid = semid) (hnodup : l.Nodup)
    (hk : k ∈ l) (hone : ∀ j v, undo j = some v → f v = true → v.semid = semid → j = k) :
    rows_of f undo semid l = [u] := by
  induction l with
  | nil => exact nomatch hk
  | cons j l ih =>
    rw [nodup_cons] at hnodup
    rw [rows_of_cons]
    by_cases hjk : j = k
    · subst hjk
      have hrest : rows_of f undo semid l = [] :=
        rows_of_none fun j' hj' v hv hmatch => hnodup.1 (hone j' v hv hmatch.1 hmatch.2 ▸ hj')
      rw [hrest, hu, filter_some, if_pos (by simp [hf, hsem]), toList_some, append_nil]
    have hskip : (undo j).filter (fun v => f v && decide (v.semid = semid)) = none := by
      refine filter_eq_none_iff.2 fun v hv hkeep => hjk ?_
      rw [Bool.and_eq_true, decide_eq_true_iff] at hkeep
      exact hone j v hv hkeep.1 hkeep.2
    rw [hskip, toList_none, nil_append]
    exact ih hnodup.2 ((mem_cons.1 hk).resolve_left (Ne.symm hjk))

theorem sem_exit_adds (hok : t.Ok) (ht : Tracks t.undo log) (hown : OwnRows t.undo p) (hs : t.sem i = some s) :
    ∃ s', (sem_exit_pid h t p.pid).sem i = some s' ∧ s'.semid = s.semid ∧
      ∀ n < s.nsems, s'.val n = sem_clamp (s.val n + undo_owed p s.semid n log) := by
  obtain ⟨s', hs', hid, -, hadds⟩ := sem_apply_rows_set (h := h) hok hs fun u => decide (u.pid = p.pid)
  rw [sem_exit_pid]
  refine ⟨s', hs', hid, fun n hn => ?_⟩
  rw [hadds n hn]
  by_cases hrow : ∃ k u, t.undo k = some u ∧ u.pid = p.pid ∧ u.semid = s.semid
  · obtain ⟨k, u, hu, hpid, hsem⟩ := hrow
    rw [rows_of_single hu (decide_eq_true hpid) hsem nodup_range (mem_range.2 (hok.undo.bound k u hu))
      fun j v hv hvpid hvsem => hok.undo.unique j k v u hv hu ((of_decide_eq_true hvpid).trans hpid.symm)
        (hvsem.trans hsem.symm)]
    rw [foldl_cons, foldl_nil, ht.row k u hu n, hown k u hu hpid, hpid, hsem]
  have hnone : ∀ k u, t.undo k = some u → ¬(u.pid = p.pid ∧ u.semid = s.semid) := fun k u hu hmatch =>
    hrow ⟨k, u, hu, hmatch⟩
  rw [rows_of_none fun j _ v hv hmatch => hnone j v hv ⟨of_decide_eq_true hmatch.1, hmatch.2⟩, foldl_nil,
    ht.none p s.semid (fun k u hu hmatch => hnone k u hu ⟨hmatch.1, hmatch.2.2⟩) n, add_zero,
    sem_clamp_eq (hok.val i s hs n)]

/-- The reclaim tick adds what each process that is gone owes, one after the
other, each sum clamped. -/
theorem sem_reclaim_adds (hok : t.Ok) (ht : Tracks t.undo log) (hs : t.sem i = some s) :
    ∃ s', (sem_reclaim h t).sem i = some s' ∧ s'.semid = s.semid ∧ ∀ n < s.nsems, s'.val n =
      (rows_of (fun u => h.starttime u.pid ≠ u.start) t.undo s.semid (List.range SEM_UNDO_MAX)).foldl
        (fun v u => sem_clamp (v + undo_owed ⟨u.pid, u.start⟩ s.semid n log)) (s.val n) := by
  obtain ⟨s', hs', hid, -, hadds⟩ := sem_apply_rows_set (h := h) hok hs fun u => decide (h.starttime u.pid ≠ u.start)
  rw [sem_reclaim]
  refine ⟨s', hs', hid, fun n hn => ?_⟩
  rw [hadds n hn]
  refine foldl_ext _ _ _ fun v u hu => ?_
  obtain ⟨k, -, hmem⟩ := mem_filterMap.1 hu
  obtain ⟨hrow, hkeep⟩ := filter_eq_some_iff.1 hmem
  rw [Bool.and_eq_true, decide_eq_true_iff, decide_eq_true_iff] at hkeep
  rw [ht.row k u hrow n, hkeep.2]

end exits

section claims

variable {as : List (Host × SemReq)} {r : SemRun}

/-- Values are in range and a vector is done whole or not at all; where no vector with `SEM_UNDO` ever met a row of an
earlier process with its pid, the adjustments are exactly what is owed, and an exit adds exactly that. -/
theorem semop_atomic_undo_exact (hrun : Steps SemStep SemRun.init as r) :
    (∀ i s, r.tab.sem i = some s → ∀ n < s.nsems, 0 ≤ s.val n ∧ s.val n ≤ G_SEMVMX) ∧
      (∀ h q semid sops, VectorDone r.tab q.pid semid sops
        (sem_serve_op h r.tab q semid sops).1 (sem_serve_op h r.tab q semid sops).2) ∧
      (∀ h i s sops pid, r.tab.sem i = some s → VectorDone r.tab pid s.semid sops
        (sem_try_op h r.tab i s sops pid).1 (sem_try_op h r.tab i s sops pid).2) ∧
      (Steps GoodStep SemRun.init as r →
        (∀ p semid n, proc_adj r.tab.undo p semid n = undo_owed p semid n r.log) ∧
        (∀ h p i s, OwnRows r.tab.undo p → r.tab.sem i = some s →
          ∃ s', (sem_exit_pid h r.tab p.pid).sem i = some s' ∧ s'.semid = s.semid ∧
            ∀ n < s.nsems, s'.val n = sem_clamp (s.val n + undo_owed p s.semid n r.log)) ∧
        (∀ h i s, r.tab.sem i = some s →
          ∃ s', (sem_reclaim h r.tab).sem i = some s' ∧ s'.semid = s.semid ∧ ∀ n < s.nsems, s'.val n =
            (rows_of (fun u => h.starttime u.pid ≠ u.start) r.tab.undo s.semid (List.range SEM_UNDO_MAX)).foldl
              (fun v u => sem_clamp (v + undo_owed ⟨u.pid, u.start⟩ s.semid n r.log)) (s.val n))) := by
  have hok := sem_run_ok hrun
  refine ⟨fun i s hs n _ => hok.val i s hs n, fun h q semid sops => sem_serve_op_done hok q semid sops,
    fun h i s sops pid hs => sem_try_op_done hok hs sops pid, fun hgood => ?_⟩
  have ht := (sem_run_tracks hgood).tracks
  exact ⟨ht.adj_eq hok.undo, fun h p i s hown hs => sem_exit_adds hok ht hown hs,
    fun h i s hs => sem_reclaim_adds hok ht hs⟩

end claims

def startedAt (start : Nat) : Host := ⟨0, 0, fun _ => start⟩

def downUndo : List Sembuf := [⟨0, -1, 0x1000#16⟩]

/-- A set made by pid 7 and raised to 3, then taken down once by that process. -/
def downOnce : List (Host × SemReq) :=
  [(startedAt 1, .get ⟨7, 0, 0⟩ 0 1 ⟨true, false, 0#32⟩), (startedAt 1, .setval ⟨7, 0, 0⟩ 1 0 3),
    (startedAt 1, .semop ⟨7, 1⟩ 0 0 1 downUndo)]

def sem_run (r : SemRun) (as : List (Host × SemReq)) : SemRun := as.foldl (fun r a => sem_step a.1 r a.2) r

theorem sem_run_steps (as : List (Host × SemReq)) (r : SemRun) : Steps SemStep r as (sem_run r as) := by
  induction as generalizing r with
  | nil => exact .nil r
  | cons a as ih => exact .cons rfl (ih _)

theorem noLeftover_of_all {h : Host} {t : SemTab} {p : Proc} {sops : List Sembuf} (hok : UndoOk t.undo)
    (hstart : h.starttime p.pid = p.start)
    (hall : (List.range SEM_UNDO_MAX).all (fun i => (t.undo i).all fun u =>
      decide (u.pid = p.pid → u.start = p.start)) = true) : NoLeftover h t p sops := by
  refine fun _ => ⟨hstart, fun i u hu => ?_⟩
  have hrow := all_eq_true.1 hall i (mem_range.2 (hok.bound i u hu))
  rw [hu, all_some] at hrow
  exact of_decide_eq_true hrow

theorem downOnce_good : Steps GoodStep SemRun.init downOnce (sem_run .init downOnce) := by
  have hok : (sem_run .init (downOnce.take 2)).tab.Ok := sem_run_ok (sem_run_steps _ _)
  have hstart : Steps GoodStep SemRun.init (downOnce.take 2) (sem_run .init (downOnce.take 2)) :=
    .cons ⟨trivial, rfl⟩ (.cons ⟨trivial, rfl⟩ (.nil _))
  have hgood : NoLeftover (startedAt 1) (sem_run .init (downOnce.take 2)).tab ⟨7, 1⟩ downUndo :=
    noLeftover_of_all hok.undo rfl (by decide +kernel)
  exact hstart.append (.single ⟨hgood, rfl⟩)

/-- After one `SEM_UNDO` operation of -1 the process is owed 1, and its row has it. -/
theorem semop_atomic_undo_exact_down :
    proc_adj (sem_run .init downOnce).tab.undo ⟨7, 1⟩ 1 0 = undo_owed ⟨7, 1⟩ 1 0 (sem_run .init downOnce).log ∧
      proc_adj (sem_run .init downOnce).tab.undo ⟨7, 1⟩ 1 0 = 1 :=
  ⟨((semop_atomic_undo_exact (sem_run_steps downOnce .init)).2.2.2 downOnce_good).1 ⟨7, 1⟩ 1 0, by decide +kernel⟩

/-- The process is killed, and before the tick another with its pid takes the set
down once more. -/
def downReused : List (Host × SemReq) := downOnce ++ [(startedAt 2, .semop ⟨7, 2⟩ 0 0 1 downUndo)]

/-- The second process owes 1 and has no row: its operation is in the row of the first, which the next tick applies
and frees. -/
theorem undo_row_of_reused_pid :
    Steps SemStep SemRun.init downReused (sem_run .init downReused) ∧
      undo_owed ⟨7, 2⟩ 1 0 (sem_run .init downReused).log = 1 ∧
      proc_adj (sem_run .init downReused).tab.undo ⟨7, 2⟩ 1 0 = 0 ∧
      pid_adj (sem_run .init downReused).tab.undo 7 1 0 = 2 ∧
      (∃ s, (sem_reclaim (startedAt 2) (sem_run .init downReused).tab).sem 0 = some s ∧ s.val 0 = 3) ∧
      (sem_reclaim (startedAt 2) (sem_run .init downReused).tab).undo 0 = none := by
  have hrun := sem_run_steps downReused .init
  have hok := sem_run_ok hrun
  refine ⟨hrun, by decide +kernel, by decide +kernel, by decide +kernel, ?_, ?_⟩
  · have hset : ((sem_run .init downReused).tab.sem 0).map (fun s => (s.semid, s.nsems, s.val 0)) = some (1, 1, 1) := by
      decide +kernel
    obtain ⟨s, hs, heq⟩ := map_eq_some_iff.1 hset
    rw [Prod.mk.injEq, Prod.mk.injEq] at heq
    obtain ⟨s', hs', -, -, hadds⟩ :=
      sem_apply_rows_set (h := startedAt 2) hok hs fun u => decide ((startedAt 2).starttime u.pid ≠ u.start)
    rw [heq.1] at hadds
    rw [sem_reclaim]
    refine ⟨s', hs', ?_⟩
    rw [hadds 0 (by omega), heq.2.2]
    decide +kernel
  · rw [sem_reclaim, sem_apply_rows_undo hok.undo]
    decide +kernel

end arm64emu
