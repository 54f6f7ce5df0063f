import Mathlib
import Arm64Emu.Ipc.Atomic
import Arm64Emu.Ipc.Memfd
import Arm64Emu.Lib.Holders

open transition holders

namespace arm64emu

open Function

def SHM_ATT_TRACK : Nat := 32

/-- The attaches of a segment: how many, by which processes, and whether it goes with
the last. -/
structure Seg where
  nattch : Nat
  att : List (Row Int Nat)
  rmid : Bool

def shm_att_add (h : Host) (s : Seg) (pid : Int) : List (Row Int Nat) :=
  holders.add SHM_ATT_TRACK pid (h.starttime pid) s.att

def shm_att_del (s : Seg) (pid : Int) : List (Row Int Nat) := holders.del pid s.att

def shm_free_last (s : Seg) : Option Seg := if s.rmid = true ∧ s.nattch = 0 then none else some s

def shm_do_at (h : Host) (s : Seg) (pid : Int) : Seg := { s with nattch := s.nattch + 1, att := shm_att_add h s pid }

def shm_do_dt (s : Seg) (pid : Int) : Option Seg :=
  shm_free_last { s with nattch := s.nattch - 1, att := shm_att_del s pid }

/-- `shm_reclaim` of one segment; each row takes its attaches off the count, down to
0. -/
def shm_reclaim (h : Host) (s : Seg) : Option Seg :=
  shm_free_last { s with
    nattch := s.nattch - total (s.att.filter fun r => h.starttime r.key ≠ r.stamp)
    att := holders.reclaim h.starttime s.att 0 }

/-- Whether `mfd_do_seal` comes to look at the mappings. -/
def seal_looks (e : MfdEntry) (val : u32) : Bool :=
  e.seals &&& F_SEAL_SEAL = 0#32 ∧ val &&& 0x3f#32 &&& F_SEAL_WRITE ≠ 0#32

/-- The broker's records of processes, and what happened to each table. -/
structure Records where
  sem : SemRun
  seg : Nat → Option Seg
  seglog : Nat → List (Event Int Nat)
  mfd : Nat → Option MfdEntry
  mfdlog : Nat → List (Event Int Nat)

/-- A request that makes or drops a process's record. -/
inductive RecordReq where
  | sem (req : SemReq)
  | shmget (i : Nat)
  | shmat (i : Nat) (p : Proc)
  | shmdt (i : Nat) (p : Proc)
  | shmrmid (i : Nat)
  | memfd (i : Nat)
  | map (i : Nat) (p : Proc)
  | unmap (i : Nat) (p : Proc)
  | add_seal (i : Nat) (val : u32)
  | tick

def dead_event (h : Host) : Event Int Nat := .gone fun p => h.starttime p.1 ≠ p.2

def Records.write_seg (r : Records) (i : Nat) (s : Option Seg) (log : List (Event Int Nat)) : Records :=
  { r with seg := update r.seg i s, seglog := update r.seglog i log }

def Records.write_mfd (r : Records) (i : Nat) (e : MfdEntry) (log : List (Event Int Nat)) : Records :=
  { r with mfd := update r.mfd i (some e), mfdlog := update r.mfdlog i log }

/-- One request; a request on an object that is not there changes nothing. -/
def record_step (h : Host) (r : Records) : RecordReq → Records
  | .sem req => { r with sem := sem_step h r.sem req }
  | .shmget i =>
    match r.seg i with
    | some _ => r
    | none => r.write_seg i (some ⟨0, [], false⟩) []
  | .shmat i p =>
    match r.seg i with
    | none => r
    | some s => r.write_seg i (some (shm_do_at h s p.pid)) (.add (p.pid, p.start) :: r.seglog i)
  | .shmdt i p =>
    match r.seg i with
    | none => r
    | some s => r.write_seg i (shm_do_dt s p.pid) (.del (p.pid, p.start) :: r.seglog i)
  | .shmrmid i =>
    match r.seg i with
    | none => r
    | some s => r.write_seg i (shm_free_last { s with rmid := true }) (r.seglog i)
  | .memfd i =>
    match r.mfd i with
    | some _ => r
    | none => r.write_mfd i { MfdEntry.zero with used := true, tier := true } []
  | .map i p =>
    match r.mfd i with
    | none => r
    | some e =>
      let full := (∀ r ∈ e.wr, r.key ≠ p.pid) ∧ e.wr.length = MFD_WR_TRACK
      r.write_mfd i (mfd_map h e p.pid)
        (.add (p.pid, p.start) :: if full then dead_event h :: r.mfdlog i else r.mfdlog i)
  | .unmap i p =>
    match r.mfd i with
    | none => r
    | some e => r.write_mfd i (mfd_unmap e p.pid) (.del (p.pid, p.start) :: r.mfdlog i)
  | .add_seal i val =>
    match r.mfd i with
    | none => r
    | some e =>
      r.write_mfd i (mfd_seal h e val).1 (if seal_looks e val then dead_event h :: r.mfdlog i else r.mfdlog i)
  | .tick =>
    { r with
      sem := sem_step h r.sem .reclaim
      seg := fun i => (r.seg i).bind (shm_reclaim h)
      seglog := fun i => dead_event h :: r.seglog i }

def NoRowLeft (rows : List (Row Int Nat)) (p : Proc) : Prop := ∀ r ∈ rows, r.key = p.pid → r.stamp = p.start

/-- A process asks, or exits, while no row of an earlier one with its pid is left; it is there as long as it asks, and
has room for a row. -/
def RecordReq.Good (h : Host) (r : Records) : RecordReq → Prop
  | .sem req => req.Good h r.sem.tab ∧ ∀ p, req = .exit p → OwnRows r.sem.tab.undo p
  | .shmat i p => ∀ s, r.seg i = some s → h.starttime p.pid = p.start ∧ NoRowLeft s.att p ∧
      (s.att.length < SHM_ATT_TRACK ∨ ∃ row ∈ s.att, row.key = p.pid)
  | .shmdt i p => ∀ s, r.seg i = some s → NoRowLeft s.att p ∧ ∃ row ∈ s.att, row.key = p.pid
  | .map i p => ∀ e, r.mfd i = some e → h.starttime p.pid = p.start ∧ NoRowLeft e.wr p ∧
      ((∃ row ∈ e.wr, row.key = p.pid) ∨ e.wr.length < MFD_WR_TRACK ∨
        e.wr.length = MFD_WR_TRACK ∧ (holders.reclaim h.starttime e.wr 0).length < MFD_WR_TRACK)
  | .unmap i p => ∀ e, r.mfd i = some e → NoRowLeft e.wr p
  | _ => True

def RecordStep (r : Records) (a : Host × RecordReq) (r' : Records) : Prop := r' = record_step a.1 r a.2

def GoodRecordStep (r : Records) (a : Host × RecordReq) (r' : Records) : Prop := a.2.Good a.1 r ∧ RecordStep r a r'

def Records.init : Records := ⟨.init, fun _ => none, fun _ => [], fun _ => none, fun _ => []⟩

/-- Every record is of the process that made it. -/
structure Records.Own (r : Records) : Prop where
  sem : r.sem.Tracked
  seg : ∀ i s, r.seg i = some s → holders.Own s.att (r.seglog i) ∧ s.nattch = total s.att
  mfd : ∀ i e, r.mfd i = some e → holders.Own e.wr (r.mfdlog i)

section steps

variable {r r' : Records} {h : Host} {i : Nat} {s : Seg} {e : MfdEntry} {p : Proc} {log : List (Event Int Nat)}
  {as : List (Host × RecordReq)}

theorem Records.Own.write_seg (hr : r.Own) {o : Option Seg}
    (ho : ∀ s, o = some s → holders.Own s.att log ∧ s.nattch = total s.att) : (r.write_seg i o log).Own := by
  refine ⟨hr.sem, fun j s hs => ?_, hr.mfd⟩
  dsimp only [Records.write_seg] at hs ⊢
  by_cases hj : j = i
  · subst hj
    rw [update_self] at hs ⊢
    exact ho s hs
  · rw [update_of_ne hj] at hs ⊢
    exact hr.seg j s hs

theorem Records.Own.write_mfd (hr : r.Own) (he : holders.Own e.wr log) : (r.write_mfd i e log).Own := by
  refine ⟨hr.sem, hr.seg, fun j e' he' => ?_⟩
  dsimp only [Records.write_mfd] at he' ⊢
  by_cases hj : j = i
  · subst hj
    rw [update_self] at he' ⊢
    cases he'
    exact he
  · rw [update_of_ne hj] at he' ⊢
    exact hr.mfd j e' he'

theorem shm_free_last_some {s' : Seg} (h : shm_free_last s = some s') : s' = s := by
  unfold shm_free_last at h
  split at h
  next => cases h
  next => exact (Option.some.inj h).symm

theorem shm_do_at_own (hs : holders.Own s.att log ∧ s.nattch = total s.att) (hstart : h.starttime p.pid = p.start)
    (hleft : NoRowLeft s.att p) (hroom : s.att.length < SHM_ATT_TRACK ∨ ∃ row ∈ s.att, row.key = p.pid) :
    holders.Own (shm_do_at h s p.pid).att (.add (p.pid, p.start) :: log) ∧
      (shm_do_at h s p.pid).nattch = total (shm_do_at h s p.pid).att := by
  dsimp only [shm_do_at, shm_att_add]
  rw [hstart, total_add hroom, hs.2]
  exact ⟨hs.1.add hleft hroom, rfl⟩

theorem shm_do_dt_own (hs : holders.Own s.att log ∧ s.nattch = total s.att) (hleft : NoRowLeft s.att p)
    (hrow : ∃ row ∈ s.att, row.key = p.pid) :
    ∀ s', shm_do_dt s p.pid = some s' → holders.Own s'.att (.del (p.pid, p.start) :: log) ∧
        s'.nattch = total s'.att := by
  intro s' hs'
  rw [shm_free_last_some hs']
  dsimp only [shm_att_del]
  rw [total_del hrow fun row hrow => (hs.1.row row hrow).2, hs.2]
  exact ⟨hs.1.del hleft, rfl⟩

theorem shm_reclaim_own (h : Host) (hs : holders.Own s.att log ∧ s.nattch = total s.att) :
    ∀ s', shm_reclaim h s = some s' → holders.Own s'.att (dead_event h :: log) ∧ s'.nattch = total s'.att := by
  intro s' hs'
  rw [shm_free_last_some hs']
  have htotal := total_reclaim h.starttime s.att
  refine ⟨hs.1.reclaim h.starttime, ?_⟩
  dsimp only
  omega

theorem mfd_map_own (he : holders.Own e.wr log) (hstart : h.starttime p.pid = p.start) (hleft : NoRowLeft e.wr p)
    (hroom : (∃ row ∈ e.wr, row.key = p.pid) ∨ e.wr.length < MFD_WR_TRACK ∨
      e.wr.length = MFD_WR_TRACK ∧ (holders.reclaim h.starttime e.wr 0).length < MFD_WR_TRACK) :
    holders.Own (mfd_map h e p.pid).wr (.add (p.pid, p.start) ::
      if (∀ r ∈ e.wr, r.key ≠ p.pid) ∧ e.wr.length = MFD_WR_TRACK then dead_event h :: log else log) := by
  unfold mfd_map
  by_cases hfull : (∀ r ∈ e.wr, r.key ≠ p.pid) ∧ e.wr.length = MFD_WR_TRACK
  · rw [if_pos hfull, if_pos hfull]
    dsimp only [mfd_wr_reclaim]
    rw [hstart]
    have hperm := reclaim_perm h.starttime e.wr 0 fun r hr => absurd hr (by simp)
    refine Own.add (he.reclaim h.starttime) (fun row hrow hkey => ?_) ?_
    · exact absurd hkey (hfull.1 row (List.mem_of_mem_filter (hperm.mem_iff.1 hrow)))
    rcases hroom with ⟨row, hrow, hkey⟩ | hlt | ⟨-, hlt⟩
    · exact absurd hkey (hfull.1 row hrow)
    · omega
    · exact .inl hlt
  rw [if_neg hfull, if_neg hfull, hstart]
  refine he.add hleft ?_
  rcases hroom with hrow | hlt | ⟨hlen, -⟩
  · exact .inr hrow
  · exact .inl hlt
  by_contra hno
  rw [not_or] at hno
  exact hfull ⟨fun row hrow hkey => hno.2 ⟨row, hrow, hkey⟩, hlen⟩

theorem mfd_seal_own (he : holders.Own e.wr log) (h : Host) (val : u32) :
    holders.Own (mfd_seal h e val).1.wr (if seal_looks e val then dead_event h :: log else log) := by
  have hown := he.reclaim h.starttime
  unfold mfd_seal seal_looks
  by_cases hseal : e.seals &&& F_SEAL_SEAL = 0#32
  · by_cases hwrite : val &&& 0x3f#32 &&& F_SEAL_WRITE = 0#32
    · simpa [hseal, hwrite] using he
    · simp only [hseal, hwrite, ne_eq, not_true, not_false_iff, if_true, if_false, and_self, decide_true]
      split <;> exact hown
  · simpa [hseal] using he

theorem tick_tracked (h : Host) {sem : SemRun} (hsem : sem.Tracked) : (sem_step h sem .reclaim).Tracked := by
  have ht : Tracks (sem_step h sem .reclaim).tab.undo (sem_step h sem .reclaim).log :=
    sem_step_tracks hsem.ok hsem.tracks trivial
  exact ⟨sem_step_ok h hsem.ok .reclaim, ht⟩

/-- A request of a process with no row of an earlier one in its way leaves every
record with its owner. -/
theorem record_step_own (hr : r.Own) {req : RecordReq} (hgood : req.Good h r) : (record_step h r req).Own := by
  cases req with
  | sem req => exact ⟨⟨sem_step_ok h hr.sem.ok req, sem_step_tracks hr.sem.ok hr.sem.tracks hgood.1⟩, hr.seg, hr.mfd⟩
  | shmget i =>
    rw [record_step]
    split
    · exact hr
    refine hr.write_seg fun s hs => ?_
    cases hs
    exact ⟨own_nil, rfl⟩
  | shmat i p =>
    rw [record_step]
    split
    · exact hr
    rename_i s hs
    obtain ⟨hstart, hleft, hroom⟩ := hgood s hs
    refine hr.write_seg fun s' hs' => ?_
    cases hs'
    exact shm_do_at_own (hr.seg i s hs) hstart hleft hroom
  | shmdt i p =>
    rw [record_step]
    split
    · exact hr
    rename_i s hs
    obtain ⟨hleft, hrow⟩ := hgood s hs
    exact hr.write_seg (shm_do_dt_own (hr.seg i s hs) hleft hrow)
  | shmrmid i =>
    rw [record_step]
    split
    · exact hr
    rename_i s hs
    refine hr.write_seg fun s' hs' => ?_
    rw [shm_free_last_some hs']
    exact hr.seg i s hs
  | memfd i =>
    rw [record_step]
    split
    next => exact hr
    next => exact hr.write_mfd own_nil
  | map i p =>
    rw [record_step]
    split
    · exact hr
    rename_i e he
    obtain ⟨hstart, hleft, hroom⟩ := hgood e he
    exact hr.write_mfd (mfd_map_own (hr.mfd i e he) hstart hleft hroom)
  | unmap i p =>
    rw [record_step]
    split
    next => exact hr
    next e he => exact hr.write_mfd ((hr.mfd i e he).del (hgood e he))
  | add_seal i val =>
    rw [record_step]
    split
    next => exact hr
    next e he => exact hr.write_mfd (mfd_seal_own (hr.mfd i e he) h val)
  | tick =>
    have hsem : (sem_step h r.sem .reclaim).Tracked := tick_tracked h hr.sem
    rw [record_step]
    refine ⟨hsem, fun i s' hs' => ?_, hr.mfd⟩
    obtain ⟨s, hs, hreclaim⟩ := Option.bind_eq_some_iff.1 hs'
    exact shm_reclaim_own h (hr.seg i s hs) s' hreclaim

/-- On every good run each record is its maker's. -/
theorem record_run_own (hrun : Steps GoodRecordStep Records.init as r) : r.Own := by
  refine hrun.invariant ?_ ⟨⟨SemTab.empty_ok, fun i u hu => (by cases hu), fun p semid _ n => rfl⟩,
    fun i s hs => (by cases hs), fun i e he => (by cases he)⟩
  rintro r a r' hr ⟨hgood, rfl⟩
  exact record_step_own hr hgood

theorem held_dead (h : Host) (p : Int × Nat) (log : List (Event Int Nat)) :
    held p (dead_event h :: log) = if h.starttime p.1 = p.2 then held p log else 0 := by
  rw [dead_event, held]
  simp only [decide_eq_true_eq, ne_eq, ite_not]

/-- Where each request finds no row of an earlier process with its pid, and room for its own: each process's
adjustments, attaches and mappings are its own doing, an exit adds exactly its adjustments, and a tick gives back
those of the processes that are gone. -/
theorem records_stay_with_process (hrun : Steps GoodRecordStep Records.init as r) :
    (∀ p semid n, proc_adj r.sem.tab.undo p semid n = undo_owed p semid n r.sem.log) ∧
      (∀ i s p, r.seg i = some s → holds s.att p = held p (r.seglog i) ∧ s.nattch = total s.att) ∧
      (∀ i e p, r.mfd i = some e → holds e.wr p = held p (r.mfdlog i)) ∧
      ∀ h, (∀ p i s, OwnRows r.sem.tab.undo p → r.sem.tab.sem i = some s →
          ∃ s', (sem_exit_pid h r.sem.tab p.pid).sem i = some s' ∧ s'.semid = s.semid ∧
            ∀ n < s.nsems, s'.val n = sem_clamp (s.val n + undo_owed p s.semid n r.sem.log)) ∧
        (∀ p semid n, proc_adj (sem_reclaim h r.sem.tab).undo p semid n =
          if h.starttime p.pid = p.start then undo_owed p semid n r.sem.log else 0) ∧
        (∀ i s, r.sem.tab.sem i = some s →
          ∃ s', (sem_reclaim h r.sem.tab).sem i = some s' ∧ s'.semid = s.semid ∧ ∀ n < s.nsems, s'.val n =
            (rows_of (fun u => h.starttime u.pid ≠ u.start) r.sem.tab.undo s.semid (List.range SEM_UNDO_MAX)).foldl
              (fun v u => sem_clamp (v + undo_owed ⟨u.pid, u.start⟩ s.semid n r.sem.log)) (s.val n)) ∧
        (∀ i s s', r.seg i = some s → shm_reclaim h s = some s' → s'.nattch = total s'.att ∧
          ∀ p, holds s'.att p = if h.starttime p.1 = p.2 then held p (r.seglog i) else 0) ∧
        ∀ i e p val, r.mfd i = some e → seal_looks e val = true →
          holds (mfd_seal h e val).1.wr p = if h.starttime p.1 = p.2 then held p (r.mfdlog i) else 0 := by
  have hown := record_run_own hrun
  refine ⟨hown.sem.tracks.adj_eq hown.sem.ok.undo,
    fun i s p hs => ⟨(hown.seg i s hs).1.holds_eq p, (hown.seg i s hs).2⟩,
    fun i e p he => (hown.mfd i e he).holds_eq p, fun h =>
    ⟨fun p i s hrows hs => sem_exit_adds hown.sem.ok hown.sem.tracks hrows hs, fun p semid n => ?_,
      fun i s hs => sem_reclaim_adds hown.sem.ok hown.sem.tracks hs, fun i s s' hs hs' => ?_,
      fun i e p val he hlooks => ?_⟩⟩
  · obtain ⟨hok, ht⟩ := tick_tracked h hown.sem
    dsimp only [sem_step] at hok ht
    rw [ht.adj_eq hok.undo, undo_owed]
    simp only [decide_eq_true_eq, ne_eq, ite_not]
  · obtain ⟨howned, htotal⟩ := shm_reclaim_own h (hown.seg i s hs) s' hs'
    exact ⟨htotal, fun p => by rw [howned.holds_eq, held_dead]⟩
  have howned := mfd_seal_own (hown.mfd i e he) h val
  rw [if_pos hlooks] at howned
  rw [howned.holds_eq, held_dead]

end steps

def record_run (r : Records) (as : List (Host × RecordReq)) : Records := as.foldl (fun r a => record_step a.1 r a.2) r

theorem record_run_steps (as : List (Host × RecordReq)) (r : Records) : Steps RecordStep r as (record_run r as) := by
  induction as generalizing r with
  | nil => exact .nil r
  | cons a as ih => exact .cons rfl (ih _)

def attach_once : List (Host × RecordReq) := [(startedAt 1, .shmget 0), (startedAt 1, .shmat 0 ⟨7, 1⟩)]

/-- The process is killed, a tick passes, and another with its pid attaches the
segment. -/
def attach_again : List (Host × RecordReq) := attach_once ++ [(startedAt 2, .tick), (startedAt 2, .shmat 0 ⟨7, 2⟩)]

theorem attach_again_good : Steps GoodRecordStep Records.init attach_again (record_run .init attach_again) := by
  refine .cons ⟨trivial, rfl⟩ (.cons ⟨fun s hs => ?_, rfl⟩ (.cons ⟨trivial, rfl⟩ (.single ⟨fun s hs => ?_, rfl⟩)))
  · cases hs
    exact ⟨rfl, fun r hr => absurd hr List.not_mem_nil, .inl (by decide)⟩
  · cases hs
    exact ⟨rfl, fun r hr => absurd hr (by decide +kernel +revert), .inl (by decide +kernel)⟩

/-- What the first process held is given back, and the second has its own attach
alone. -/
theorem records_stay_with_process_reused : ∃ s, (record_run .init attach_again).seg 0 = some s ∧
    holds s.att (7, 1) = held (7, 1) ((record_run .init attach_again).seglog 0) ∧ holds s.att (7, 1) = 0 ∧
    holds s.att (7, 2) = held (7, 2) ((record_run .init attach_again).seglog 0) ∧ holds s.att (7, 2) = 1 ∧
    s.nattch = 1 := by
  have hrows := (records_stay_with_process attach_again_good).2.1 0
  exact ⟨_, rfl, (hrows _ (7, 1) rfl).1, by decide +kernel, (hrows _ (7, 2) rfl).1, by decide +kernel,
    by decide +kernel⟩

/-- The process is killed, and before the tick another with its pid attaches the
segment; and the same with a writable mapping of a memfd. -/
def attach_reused : List (Host × RecordReq) :=
  attach_once ++ [(startedAt 1, .memfd 0), (startedAt 1, .map 0 ⟨7, 1⟩), (startedAt 2, .shmat 0 ⟨7, 2⟩),
    (startedAt 2, .map 0 ⟨7, 2⟩)]

/-- What the second process holds is in the rows of the first: the tick takes its attach away, and a seal against
writable mappings succeeds while it has one. -/
theorem row_of_reused_pid : Steps RecordStep Records.init attach_reused (record_run .init attach_reused) ∧
    held (7, 2) ((record_run .init attach_reused).seglog 0) = 1 ∧
    held (7, 2) ((record_run .init attach_reused).mfdlog 0) = 1 ∧
    (∃ s, (record_run .init attach_reused).seg 0 = some s ∧ s.att = [⟨7, 1, 2⟩] ∧
      ∃ s', shm_reclaim (startedAt 2) s = some s' ∧ s'.att = [] ∧ s'.nattch = 0) ∧
    ∃ e, (record_run .init attach_reused).mfd 0 = some e ∧ e.wr = [⟨7, 1, 2⟩] ∧
      (mfd_seal (startedAt 2) e F_SEAL_WRITE).2 = 0 :=
  ⟨record_run_steps _ _, by decide, by decide,
    ⟨_, rfl, by decide +kernel, _, rfl, by decide +kernel, by decide +kernel⟩,
    _, rfl, by decide +kernel, by decide +kernel⟩

end arm64emu
