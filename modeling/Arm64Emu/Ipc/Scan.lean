import Mathlib
import Arm64Emu.Ipc.Atomic

open slots

namespace arm64emu

open Function Option

/-- Whether a process has an undo row for a set, or can be given one. -/
def undo_room (undo : Table SemUndo) (pid semid : Int) : Bool :=
  (find SEM_UNDO_MAX undo (undo_of pid semid)).isSome || (free SEM_UNDO_MAX undo).isSome

/-- Whether one operation can proceed, on the values and adjustments alone. -/
def sem_scan_one (op : Sembuf) (val adj : Nat → Int) (room : Bool) : Option TryStop :=
  let v := val op.sem_num + op.sem_op
  if (op.sem_op = 0 ∧ val op.sem_num ≠ 0) ∨ v < 0 then some (if op.nowait then .error (-EAGAIN) else .block)
  else if G_SEMVMX < v then some (.error (-ERANGE))
  else if op.undo then
    if ¬room then some (.error (-ENOMEM))
    else
      let a := adj op.sem_num - op.sem_op
      if a < -G_SEMAEM - 1 ∨ G_SEMAEM < a then some (.error (-ERANGE)) else none
  else none

def scan_adj (op : Sembuf) (adj : Nat → Int) : Nat → Int :=
  if op.undo then update adj op.sem_num (adj op.sem_num - op.sem_op) else adj

/-- The first operation of a vector that cannot proceed, as a function of the
values, the adjustments of the process and the room for its row. -/
def sem_scan : List Sembuf → Nat → (Nat → Int) → (Nat → Int) → Bool → Option (Nat × TryStop)
  | [], _, _, _, _ => none
  | op :: ops, i, val, adj, room =>
    match sem_scan_one op val adj room with
    | some stop => some (i, stop)
    | none =>
      sem_scan ops (i + 1) (update val op.sem_num (val op.sem_num + op.sem_op)) (scan_adj op adj) room

section scan

variable {h : Host} {pid semid : Int} {st st' : TryState} {op : Sembuf} {stop : TryStop} {undo : Table SemUndo}
  {i k r : Nat} {u : SemUndo} {val adj : Nat → Int} {room : Bool} {ops : List Sembuf}

theorem undo_room_row (hok : UndoOk undo) (hu : undo i = some u) (hpid : u.pid = pid) (hsem : u.semid = semid) :
    undo_room undo pid semid = true := by
  obtain ⟨j, hj⟩ := find_isSome (hok.bound i u hu) hu (undo_of_iff.2 ⟨hpid, hsem⟩)
  rw [undo_room, hj]
  rfl

theorem sem_try_row_room (hok : st.Ok pid semid) :
    (sem_try_row h pid semid st.undo st.row).2.isSome = undo_room st.undo pid semid := by
  unfold sem_try_row
  split
  next r hrow =>
    obtain ⟨u, hu, hpid, hsem⟩ := hok.row r hrow
    exact (undo_room_row hok.undo hu hpid hsem).symm
  unfold sem_undo_find undo_room
  cases find SEM_UNDO_MAX st.undo (undo_of pid semid) with
  | some i => rfl
  | none =>
    cases free SEM_UNDO_MAX st.undo with
    | none => rfl
    | some i => rfl

theorem sem_try_one_scan (hok : st.Ok pid semid) : (sem_try_one h pid semid st op).2 =
    sem_scan_one op st.val (pid_adj st.undo pid semid) (undo_room st.undo pid semid) := by
  have hroom := sem_try_row_room (h := h) hok
  obtain ⟨hext, hspec⟩ := sem_try_row_spec (h := h) hok
  unfold sem_try_one sem_scan_one
  dsimp only
  split
  · rfl
  split
  · rfl
  split
  · cases hrow : sem_try_row h pid semid st.undo st.row with
    | mk undo found =>
      rw [hrow] at hroom hext hspec
      rw [← hroom]
      cases found with
      | none => rfl
      | some r =>
        obtain ⟨u, hu, hpid, hsem⟩ := hspec r rfl
        have hadj : row_adj undo r op.sem_num = pid_adj st.undo pid semid op.sem_num := by
          rw [← pid_adj_extend hok.undo hext, pid_adj_row (hext.ok hok.undo) hu hpid hsem, row_adj_apply hu]
        have hsome : ¬¬(some r).isSome = true := by simp
        dsimp only
        rw [hadj, if_neg hsome]
        split
        · rfl
        · rfl
  · rfl

theorem sem_try_one_moves (hok : st.Ok pid semid) (hgo : sem_try_one h pid semid st op = (st', none)) :
    st'.val = update st.val op.sem_num (st.val op.sem_num + op.sem_op) ∧
      pid_adj st'.undo pid semid = scan_adj op (pid_adj st.undo pid semid) ∧
      undo_room st'.undo pid semid = undo_room st.undo pid semid := by
  have hok' := sem_try_one_ok hok hgo
  obtain ⟨-, hval, ⟨hflag, hundo, -⟩ | ⟨hflag, undo, r, u, hfound, hu, hpid, hsem, -, -, hundo, hrow⟩⟩ :=
    sem_try_one_go hok hgo
  · refine ⟨hval, ?_, by rw [hundo]⟩
    rw [scan_adj, if_neg (by simp [hflag]), hundo]
  have hext := (sem_try_row_spec (h := h) hok).1
  have hroom := sem_try_row_room (h := h) hok
  rw [hfound] at hext hroom
  have hadj : ∀ n, pid_adj st.undo pid semid n = u.adj n := fun n => by
    rw [← pid_adj_extend hok.undo hext, pid_adj_row (hext.ok hok.undo) hu hpid hsem]
  have hset : st'.undo r = some { u with adj := update u.adj op.sem_num (u.adj op.sem_num - op.sem_op) } := by
    rw [hundo, set_row_adj_apply hu, update_self]
  refine ⟨hval, ?_, ?_⟩
  · funext n
    rw [pid_adj_row hok'.undo hset hpid hsem, scan_adj, if_pos hflag, hadj, funext hadj]
  · rw [undo_room_row hok'.undo hset hpid hsem, ← hroom]
    rfl

theorem sem_try_loop_scan (h : Host) (ops : List Sembuf) (i : Nat) (hok : st.Ok pid semid) :
    (sem_try_loop h pid semid ops i st).2 =
    sem_scan ops i st.val (pid_adj st.undo pid semid) (undo_room st.undo pid semid) := by
  induction ops generalizing i st with
  | nil => rfl
  | cons op ops ih =>
    rw [sem_try_loop, sem_scan, ← sem_try_one_scan (h := h) hok]
    cases hone : sem_try_one h pid semid st op with
    | mk st₁ stop =>
      cases stop with
      | some stop => rfl
      | none =>
        obtain ⟨hval, hadj, hroom⟩ := sem_try_one_moves hok hone
        dsimp only
        rw [ih (i + 1) (sem_try_one_ok hok hone), hval, hadj, hroom]

theorem sem_scan_le (hscan : sem_scan ops i val adj room = some (k, stop)) : i ≤ k := by
  induction ops generalizing i val adj with
  | nil => cases hscan
  | cons op ops ih =>
    rw [sem_scan] at hscan
    split at hscan
    · cases hscan
      exact le_rfl
    · exact (Nat.le_succ i).trans (ih hscan)

theorem sem_scan_any_room (hscan : sem_scan ops i val adj room = some (k, .block))
    (hno : ∀ op ∈ ops.take (k - i), op.undo = false) (room' : Bool) :
    sem_scan ops i val adj room' = some (k, .block) := by
  induction ops generalizing i val adj with
  | nil => cases hscan
  | cons op ops ih =>
    rw [sem_scan] at hscan ⊢
    cases hone : sem_scan_one op val adj room with
    | some stop =>
      simp only [hone] at hscan
      cases hscan
      have hblock : sem_scan_one op val adj room' = some .block := by
        unfold sem_scan_one at hone ⊢
        dsimp only at hone ⊢
        split at hone
        next hlow => rw [if_pos hlow, hone]
        split at hone
        · cases hone
        split at hone
        · split at hone
          · cases hone
          · split at hone <;> cases hone
        · cases hone
      rw [hblock]
    | none =>
      simp only [hone] at hscan
      have hle := sem_scan_le hscan
      have htake : k - i = (k - (i + 1)) + 1 := by omega
      rw [htake, List.take_succ_cons] at hno
      have hflag := hno op (.head _)
      have hnone : sem_scan_one op val adj room' = none := by
        unfold sem_scan_one at hone ⊢
        simpa only [hflag, Bool.false_eq_true, if_false] using hone
      rw [hnone]
      exact ih hscan fun op' hop' => hno op' (.tail _ hop')

theorem sem_try_loop_row (hok : st.Ok pid semid)
    (hstop : sem_try_loop h pid semid ops i st = (st', some (k, stop)))
    (hrow : st.row ≠ none ∨ ∃ op ∈ ops.take (k - i), op.undo = true) : st'.row ≠ none := by
  induction ops generalizing i st with
  | nil => cases hstop
  | cons op ops ih =>
    rw [sem_try_loop] at hstop
    split at hstop
    next st₁ stop₁ hone =>
      cases hstop
      rw [Nat.sub_self, List.take_zero] at hrow
      have hst : st.row ≠ none := by
        refine hrow.resolve_right ?_
        rintro ⟨op, hop, -⟩
        exact List.not_mem_nil hop
      rcases (sem_try_one_stop hone).2 with ⟨-, heq⟩ | ⟨-, heq⟩
      · rw [heq]
        exact hst
      obtain ⟨r, hr⟩ := ne_none_iff_exists'.1 hst
      rw [heq, hr, sem_try_row]
      exact some_ne_none r
    rename_i st₁ hone
    refine ih (sem_try_one_ok hok hone) hstop ?_
    have hle := (sem_try_loop_settled (sem_try_one_ok hok hone) hstop).1
    obtain ⟨-, -, ⟨hflag, -, hsame⟩ | ⟨-, -, r, -, -, -, -, -, -, -, -, hlooked⟩⟩ := sem_try_one_go hok hone
    · rcases hrow with hrow | ⟨op', hop', hflag'⟩
      · exact .inl (by rw [hsame]; exact hrow)
      rw [show k - i = (k - (i + 1)) + 1 by omega, List.take_succ_cons, List.mem_cons] at hop'
      refine .inr ⟨op', hop'.resolve_left ?_, hflag'⟩
      rintro rfl
      rw [hflag] at hflag'
      cases hflag'
    · exact .inl (by rw [hlooked]; exact some_ne_none r)

theorem sem_back_row (ops : List Sembuf) (st : TryState) : (ops.foldr sem_back_one st).row = st.row := by
  induction ops with
  | nil => rfl
  | cons op ops ih =>
    rw [List.foldr_cons, sem_back_one]
    exact ih

end scan

def HasRow (undo : Table SemUndo) (pid semid : Int) : Prop := ∃ j u, undo j = some u ∧ u.pid = pid ∧ u.semid = semid

/-- A vector that can only wait: its set is there, the scan blocks, and where it
needs a row there is one. -/
structure SemStuck (t : SemTab) (sops : List Sembuf) (pid : Int) (i : Nat) (s : SemSet) (k : Nat) : Prop where
  set : t.sem i = some s
  small : ¬sops.any (fun op => s.nsems ≤ op.sem_num) = true
  scan : sem_scan sops 0 s.val (pid_adj t.undo pid s.semid) (undo_room t.undo pid s.semid) = some (k, .block)
  row : (∃ op ∈ sops.take k, op.undo = true) → HasRow t.undo pid s.semid

section stuck

variable {t t' : SemTab} {h : Host} {i k : Nat} {s : SemSet} {sops : List Sembuf} {pid : Int}

/-- A vector waits at its `k`-th operation exactly if the scan blocks there. -/
theorem sem_try_op_block_iff (hok : t.Ok) (hs : t.sem i = some s) (h : Host) (sops : List Sembuf) (pid : Int) :
    (sem_try_op h t i s sops pid).2 = .block k ↔ ¬sops.any (fun op => s.nsems ≤ op.sem_num) = true ∧
      sem_scan sops 0 s.val (pid_adj t.undo pid s.semid) (undo_room t.undo pid s.semid) = some (k, .block) := by
  have hscan := sem_try_loop_scan h sops 0 (hok.tryState hs pid)
  dsimp only at hscan
  rw [sem_try_op, ← hscan]
  split
  next hbig => exact ⟨fun hres => (by cases hres), fun hblk => absurd hbig hblk.1⟩
  rename_i hbig
  rw [and_iff_right hbig]
  split
  next st k' stop hloop => cases stop <;> simp [hloop]
  next st hloop => simp [hloop]

/-- An undo table that has kept its rows and gained no adjustment. -/
structure Grows (undo undo' : Table SemUndo) : Prop where
  ok : UndoOk undo'
  rows : ∀ j u, undo j = some u → undo' j = some u
  adj : ∀ pid semid, pid_adj undo' pid semid = pid_adj undo pid semid

theorem HasRow.grows {undo undo' : Table SemUndo} {semid : Int} (hrow : HasRow undo pid semid)
    (hgrows : Grows undo undo') : HasRow undo' pid semid := by
  obtain ⟨j, u, hu, hmatch⟩ := hrow
  exact ⟨j, u, hgrows.rows j u hu, hmatch⟩

theorem HasRow.room {undo : Table SemUndo} {semid : Int} (hrow : HasRow undo pid semid) (hok : UndoOk undo) :
    undo_room undo pid semid = true := by
  obtain ⟨j, u, hu, hpid, hsem⟩ := hrow
  exact undo_room_row hok hu hpid hsem

theorem SemStuck.grows (hstuck : SemStuck t sops pid i s k) (hok : t.Ok) (hsem : t'.sem = t.sem)
    (hgrows : Grows t.undo t'.undo) : SemStuck t' sops pid i s k := by
  refine ⟨hsem ▸ hstuck.set, hstuck.small, ?_, fun hop => (hstuck.row hop).grows hgrows⟩
  rw [hgrows.adj]
  by_cases hop : ∃ op ∈ sops.take k, op.undo = true
  · have hrow := hstuck.row hop
    have hscan := hstuck.scan
    rw [hrow.room hok.undo] at hscan
    rw [(hrow.grows hgrows).room hgrows.ok]
    exact hscan
  · refine sem_scan_any_room hstuck.scan (fun op hmem => ?_) _
    exact Bool.eq_false_iff.2 fun hflag => hop ⟨op, hmem, hflag⟩

theorem UndoExtends.grows {undo undo' : Table SemUndo} {semid : Int} (hext : UndoExtends h pid semid undo undo')
    (hok : UndoOk undo) : Grows undo undo' := by
  refine ⟨hext.ok hok, fun j u hu => ?_, fun pid' sid => funext fun n => pid_adj_extend hok hext pid' sid n⟩
  rcases hext with rfl | ⟨r, -, hfree, -, rfl⟩
  · exact hu
  · rw [update_of_ne (ne_of_free hfree hu), hu]

theorem sem_try_op_block_loop (hres : (sem_try_op h t i s sops pid).2 = .block k) :
    ∃ st, ¬sops.any (fun op => s.nsems ≤ op.sem_num) = true ∧
      sem_try_loop h pid s.semid sops 0 ⟨s.val, t.undo, none⟩ = (st, some (k, .block)) ∧
      (sem_try_op h t i s sops pid).1.undo = ((sops.take k).foldr sem_back_one st).undo := by
  rw [sem_try_op] at hres ⊢
  split at hres
  · cases hres
  rename_i hbig
  rw [if_neg hbig]
  split at hres
  next st k' stop hloop =>
    cases stop with
    | error e => cases hres
    | block =>
      cases hres
      exact ⟨st, hbig, hloop, rfl⟩
  next => cases hres

theorem sem_try_op_block (hok : t.Ok) (hs : t.sem i = some s) (hres : (sem_try_op h t i s sops pid).2 = .block k) :
    SemStuck (sem_try_op h t i s sops pid).1 sops pid i s k := by
  have hstart := hok.tryState hs pid
  have hne : (sem_try_op h t i s sops pid).2 ≠ .applied := by
    rw [hres]
    exact TryResult.noConfusion
  obtain ⟨hsem, hext, -⟩ := sem_try_op_refused hok hs hne
  have hgrows := hext.grows hok.undo
  obtain ⟨st, hbig, hloop, hundo⟩ := sem_try_op_block_loop hres
  have hscan := sem_try_loop_scan h sops 0 hstart
  rw [hloop] at hscan
  -- a row looked up on the way is still there once the prefix is taken back
  have hlooked : (∃ op ∈ sops.take k, op.undo = true) →
      HasRow (sem_try_op h t i s sops pid).1.undo pid s.semid ∧ undo_room t.undo pid s.semid = true := by
    intro hop
    have hrow := sem_try_loop_row hstart hloop (.inr hop)
    obtain ⟨-, -, hset⟩ := sem_try_loop_settled hstart hloop
    rw [Nat.sub_zero, sem_back_row] at hset
    rcases hset with ⟨-, hnone⟩ | ⟨hrows, hfound⟩
    · exact absurd hnone hrow
    obtain ⟨r, hr⟩ := ne_none_iff_exists'.1 hrow
    rw [hr] at hfound
    obtain ⟨u, hu, hmatch⟩ := (sem_try_row_spec hstart).2 r hfound.symm
    refine ⟨⟨r, u, ?_, hmatch⟩, ?_⟩
    · rw [hundo, hrows]
      exact hu
    · rw [← sem_try_row_room (h := h) hstart, ← hfound]
      rfl
  refine ⟨hsem ▸ hs, hbig, ?_, fun hop => (hlooked hop).1⟩
  rw [hgrows.adj]
  by_cases hop : ∃ op ∈ sops.take k, op.undo = true
  · obtain ⟨hrow, hroom⟩ := hlooked hop
    rw [hroom] at hscan
    rw [hrow.room hgrows.ok]
    exact hscan.symm
  · refine sem_scan_any_room hscan.symm (fun op hmem => ?_) _
    exact Bool.eq_false_iff.2 fun hflag => hop ⟨op, hmem, hflag⟩

end stuck

end arm64emu
