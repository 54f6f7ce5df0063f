import Mathlib
import Arm64Emu.Ipc.Sem

open slots

namespace arm64emu

open Function Option

section casts

variable {a o : Int}

theorem to_u16_eq (h : 0 ≤ a) (hle : a ≤ G_SEMVMX) : to_u16 a = a := by
  unfold to_u16 G_SEMVMX at *
  omega

theorem to_u16_back (h : 0 ≤ a) (hle : a ≤ G_SEMVMX) : to_u16 (a + o - o) = a := by
  rw [add_sub_cancel_right]
  exact to_u16_eq h hle

theorem to_s16_eq (h : -G_SEMAEM - 1 ≤ a) (hle : a ≤ G_SEMAEM) : to_s16 a = a := by
  unfold to_s16 G_SEMAEM at *
  omega

end casts

/-- An undo table whose rows are one for each pid and set, with adjustments in
range. -/
structure UndoOk (undo : Table SemUndo) : Prop where
  bound : ∀ i u, undo i = some u → i < SEM_UNDO_MAX
  unique : ∀ i j u v, undo i = some u → undo j = some v → u.pid = v.pid → u.semid = v.semid → i = j
  range : ∀ i u, undo i = some u → ∀ n, -G_SEMAEM - 1 ≤ u.adj n ∧ u.adj n ≤ G_SEMAEM

section rows

variable {undo undo' : Table SemUndo} {h : Host} {pid semid v : Int} {i r n : Nat} {u : SemUndo}

theorem undo_of_iff : undo_of pid semid u = true ↔ u.pid = pid ∧ u.semid = semid := by
  rw [undo_of, decide_eq_true_iff]

def UndoExtends (h : Host) (pid semid : Int) (undo undo' : Table SemUndo) : Prop :=
  undo' = undo ∨
    ∃ i, i < SEM_UNDO_MAX ∧ undo i = none ∧ (∀ j u, undo j = some u → ¬(u.pid = pid ∧ u.semid = semid)) ∧
      undo' = update undo i (some ⟨pid, h.starttime pid, semid, fun _ => 0⟩)

/-- `sem_undo_find` adds no more than a row of zeros, and what it returns is the
row of the process for the set. -/
theorem sem_undo_find_spec (hok : UndoOk undo) :
    UndoExtends h pid semid undo (sem_undo_find h undo pid semid).1 ∧
      ∀ r, (sem_undo_find h undo pid semid).2 = some r →
        ∃ u, (sem_undo_find h undo pid semid).1 r = some u ∧ u.pid = pid ∧ u.semid = semid := by
  unfold sem_undo_find
  split
  next r hfind =>
    obtain ⟨-, u, hu, hp⟩ := find_some hfind
    rw [undo_of_iff] at hp
    refine ⟨.inl rfl, fun r' hr' => ?_⟩
    obtain rfl := some.inj hr'
    exact ⟨u, hu, hp⟩
  rename_i hfind
  split
  · exact ⟨.inl rfl, fun r' hr' => absurd hr' (by simp)⟩
  rename_i i hfree
  obtain ⟨hlt, hnone⟩ := free_some hfree
  refine ⟨.inr ⟨i, hlt, hnone, fun j u hu hp => ?_, rfl⟩, fun r' hr' => ?_⟩
  · have hfalse := find_none hfind (hok.bound j u hu) hu
    exact Bool.eq_false_iff.1 hfalse (undo_of_iff.2 hp)
  · obtain rfl := some.inj hr'
    exact ⟨_, update_self _ _ _, rfl, rfl⟩

theorem UndoOk.mono (hok : UndoOk undo) (hrow : ∀ i u', undo' i = some u' → ∃ u, undo i = some u ∧ u'.pid = u.pid ∧
    u'.semid = u.semid ∧ ∀ n, -G_SEMAEM - 1 ≤ u'.adj n ∧ u'.adj n ≤ G_SEMAEM) : UndoOk undo' := by
  refine ⟨fun i u' hu' => ?_, fun i j u' v' hu' hv' hpid hsem => ?_, fun i u' hu' => ?_⟩
  · obtain ⟨u, hu, -⟩ := hrow i u' hu'
    exact hok.bound i u hu
  · obtain ⟨u, hu, hup, hus, -⟩ := hrow i u' hu'
    obtain ⟨v, hv, hvp, hvs, -⟩ := hrow j v' hv'
    exact hok.unique i j u v hu hv (by rw [← hup, ← hvp, hpid]) (by rw [← hus, ← hvs, hsem])
  · obtain ⟨u, -, -, -, hrange⟩ := hrow i u' hu'
    exact hrange

theorem UndoExtends.ok (hext : UndoExtends h pid semid undo undo') (hok : UndoOk undo) : UndoOk undo' := by
  rcases hext with rfl | ⟨i, hlt, hnone, hfresh, rfl⟩
  · exact hok
  refine ⟨forall_update_some hlt hok.bound, fun j k u v hu hv hpid hsem => ?_,
    forall_update_some (fun n => ?_) hok.range⟩
  · exact update_some_unique (R := fun u v : SemUndo => u.pid = v.pid ∧ u.semid = v.semid)
      (fun _ _ h => ⟨h.1.symm, h.2.symm⟩)
      (fun j k u v hu hv h => hok.unique j k u v hu hv h.1 h.2) hfresh j k u v hu hv ⟨hpid, hsem⟩
  · exact (by decide : -G_SEMAEM - 1 ≤ 0 ∧ 0 ≤ G_SEMAEM)

theorem set_row_adj_apply (hu : undo r = some u) :
    set_row_adj undo r n v = update undo r (some { u with adj := update u.adj n v }) := by
  rw [set_row_adj, hu, map_some]

theorem row_adj_apply (hu : undo r = some u) : row_adj undo r n = u.adj n := by
  rw [row_adj, hu, map_some, getD_some]

theorem set_row_adj_ok (hok : UndoOk undo) (hu : undo r = some u) (hlow : -G_SEMAEM - 1 ≤ v) (hhigh : v ≤ G_SEMAEM) :
    UndoOk (set_row_adj undo r n v) := by
  rw [set_row_adj_apply hu]
  refine hok.mono fun i u' hu' => ?_
  rcases update_some hu' with ⟨rfl, hself⟩ | ⟨-, hu'⟩
  · cases hself
    exact ⟨u, hu, rfl, rfl, (forall_update_iff u.adj fun _ v => -G_SEMAEM - 1 ≤ v ∧ v ≤ G_SEMAEM).2
      ⟨⟨hlow, hhigh⟩, fun k _ => hok.range i u hu k⟩⟩
  · exact ⟨u', hu', rfl, rfl, hok.range i u' hu'⟩

theorem row_adj_set (hu : undo r = some u) : row_adj (set_row_adj undo r n v) r n = v := by
  have hset : set_row_adj undo r n v r = some { u with adj := update u.adj n v } := by
    rw [set_row_adj_apply hu, update_self]
  rw [row_adj_apply hset]
  exact update_self _ _ _

theorem set_row_adj_back (hu : undo r = some u) (w : Int) :
    set_row_adj (set_row_adj undo r n w) r n (u.adj n) = undo := by
  have hset : set_row_adj undo r n w r = some { u with adj := update u.adj n w } := by
    rw [set_row_adj_apply hu, update_self]
  rw [set_row_adj_apply hset, set_row_adj_apply hu, update_idem]
  simp only [update_idem, update_eq_self]
  rw [← hu, update_eq_self]

end rows

/-- The state of an attempt for the row of `pid` and `semid`: values and rows in
range, and a looked-up row that is the row. -/
structure TryState.Ok (pid semid : Int) (st : TryState) : Prop where
  undo : UndoOk st.undo
  val : ∀ n, 0 ≤ st.val n ∧ st.val n ≤ G_SEMVMX
  row : ∀ r, st.row = some r → ∃ u, st.undo r = some u ∧ u.pid = pid ∧ u.semid = semid

section attempt

variable {h : Host} {pid semid : Int} {st st' : TryState} {op : Sembuf} {stop : TryStop}

theorem sem_try_row_spec (hok : st.Ok pid semid) :
    UndoExtends h pid semid st.undo (sem_try_row h pid semid st.undo st.row).1 ∧
      ∀ r, (sem_try_row h pid semid st.undo st.row).2 = some r →
        ∃ u, (sem_try_row h pid semid st.undo st.row).1 r = some u ∧ u.pid = pid ∧ u.semid = semid := by
  unfold sem_try_row
  split
  next r hrow =>
    refine ⟨.inl rfl, fun r' hr' => ?_⟩
    obtain rfl := some.inj hr'
    exact hok.row r hrow
  next => exact sem_undo_find_spec hok.undo

/-- `st'` is `st` but for a looked-up row, which may be a new one of zeros. -/
def Settled (h : Host) (pid semid : Int) (st st' : TryState) : Prop :=
  st'.val = st.val ∧
    ((st'.undo = st.undo ∧ st'.row = st.row) ∨
      (st'.undo = (sem_try_row h pid semid st.undo st.row).1 ∧ st'.row = (sem_try_row h pid semid st.undo st.row).2))

theorem sem_try_one_stop (hstop : sem_try_one h pid semid st op = (st', some stop)) :
    Settled h pid semid st st' := by
  unfold sem_try_one at hstop
  dsimp only at hstop
  split at hstop
  next =>
    cases hstop
    exact ⟨rfl, .inl ⟨rfl, rfl⟩⟩
  split at hstop
  next =>
    cases hstop
    exact ⟨rfl, .inl ⟨rfl, rfl⟩⟩
  split at hstop
  next =>
    split at hstop
    next undo hrow =>
      have hnone : st.row = none := by
        cases hr : st.row with
        | none => rfl
        | some r =>
          rw [hr, sem_try_row] at hrow
          cases hrow
      cases hstop
      exact ⟨rfl, .inr ⟨by rw [hrow], by rw [hrow, hnone]⟩⟩
    rename_i undo r hrow
    split at hstop
    next =>
      cases hstop
      exact ⟨rfl, .inr ⟨by rw [hrow], by rw [hrow]⟩⟩
    next => cases hstop
  next => cases hstop

/-- An operation that is applied: the value moves by it, and with `SEM_UNDO` the
adjustment of the row moves the other way, both in range. -/
theorem sem_try_one_go (hok : st.Ok pid semid) (hgo : sem_try_one h pid semid st op = (st', none)) :
    (0 ≤ st.val op.sem_num + op.sem_op ∧ st.val op.sem_num + op.sem_op ≤ G_SEMVMX) ∧
      st'.val = update st.val op.sem_num (st.val op.sem_num + op.sem_op) ∧
      ((op.undo = false ∧ st'.undo = st.undo ∧ st'.row = st.row) ∨
        (op.undo = true ∧ ∃ undo r u, sem_try_row h pid semid st.undo st.row = (undo, some r) ∧ undo r = some u ∧
          u.pid = pid ∧ u.semid = semid ∧ -G_SEMAEM - 1 ≤ u.adj op.sem_num - op.sem_op ∧
          u.adj op.sem_num - op.sem_op ≤ G_SEMAEM ∧
          st'.undo = set_row_adj undo r op.sem_num (u.adj op.sem_num - op.sem_op) ∧ st'.row = some r)) := by
  unfold sem_try_one at hgo
  dsimp only at hgo
  split at hgo
  · cases hgo
  rename_i hlow
  split at hgo
  · cases hgo
  rename_i hhigh
  have hrange : 0 ≤ st.val op.sem_num + op.sem_op ∧ st.val op.sem_num + op.sem_op ≤ G_SEMVMX := by omega
  have hcast := to_u16_eq hrange.1 hrange.2
  split at hgo
  next hundo =>
    split at hgo
    · cases hgo
    rename_i undo r hrow
    obtain ⟨u, hu, hpid, hsem⟩ := (sem_try_row_spec (h := h) hok).2 r (by rw [hrow])
    rw [hrow] at hu
    rw [row_adj_apply hu] at hgo
    split at hgo
    · cases hgo
    rename_i hadj
    cases hgo
    have hlow' : -G_SEMAEM - 1 ≤ u.adj op.sem_num - op.sem_op := by omega
    have hhigh' : u.adj op.sem_num - op.sem_op ≤ G_SEMAEM := by omega
    exact ⟨hrange, by rw [hcast], .inr ⟨hundo, undo, r, u, hrow, hu, hpid, hsem, hlow', hhigh',
      by rw [to_s16_eq hlow' hhigh'], rfl⟩⟩
  rename_i hundo
  cases hgo
  exact ⟨hrange, by rw [hcast], .inl ⟨Bool.eq_false_iff.2 hundo, rfl, rfl⟩⟩

theorem sem_try_one_ok (hok : st.Ok pid semid) (hgo : sem_try_one h pid semid st op = (st', none)) :
    st'.Ok pid semid := by
  obtain ⟨⟨hlow, hhigh⟩, hval, hundo⟩ := sem_try_one_go hok hgo
  have hvals : ∀ n, 0 ≤ st'.val n ∧ st'.val n ≤ G_SEMVMX := by
    rw [hval]
    exact (forall_update_iff _ fun _ v => 0 ≤ v ∧ v ≤ G_SEMVMX).2 ⟨⟨hlow, hhigh⟩, fun n _ => hok.val n⟩
  rcases hundo with ⟨-, hundo, hrow⟩ | ⟨-, undo, r, u, hfound, hu, hpid, hsem, hadjl, hadjh, hundo, hrow⟩
  · exact ⟨hundo ▸ hok.undo, hvals, by rw [hundo, hrow]; exact hok.row⟩
  have hext := (sem_try_row_spec (h := h) hok).1
  rw [hfound] at hext
  refine ⟨?_, hvals, fun r' hr' => ?_⟩
  · rw [hundo]
    exact set_row_adj_ok (hext.ok hok.undo) hu hadjl hadjh
  rw [hrow, some.injEq] at hr'
  subst hr'
  rw [hundo, set_row_adj_apply hu]
  exact ⟨_, update_self _ _ _, hpid, hsem⟩

theorem sem_back_one_settled {st'' : TryState} (hok : st.Ok pid semid)
    (hgo : sem_try_one h pid semid st op = (st', none)) (hset : Settled h pid semid st' st'') :
    Settled h pid semid st (sem_back_one op st'') := by
  obtain ⟨⟨hlow, hhigh⟩, hval, hundo⟩ := sem_try_one_go hok hgo
  obtain ⟨hval'', hset⟩ := hset
  have hback : (sem_back_one op st'').val = st.val := by
    rw [sem_back_one, hval'', hval]
    simp only [update_self, update_idem]
    rw [to_u16_back (hok.val _).1 (hok.val _).2, update_eq_self]
  rcases hundo with ⟨hflag, hundo, hrow⟩ | ⟨hflag, undo, r, u, hfound, hu, -, -, -, -, hundo, hrow⟩
  · have hsame : (sem_back_one op st'').undo = st''.undo := by
      unfold sem_back_one
      split
      · exact if_neg (by rw [hflag]; exact Bool.false_ne_true)
      · rfl
    rw [hundo, hrow] at hset
    refine ⟨hback, ?_⟩
    rw [hsame]
    exact hset
  have hst'' : st''.undo = st'.undo ∧ st''.row = some r := by
    rw [hrow, sem_try_row] at hset
    exact hset.elim id id
  refine ⟨hback, .inr ?_⟩
  have hext := (sem_try_row_spec (h := h) hok).1
  rw [hfound] at hext
  have hrange := (hext.ok hok.undo).range r u hu op.sem_num
  have hrestore : (sem_back_one op st'').undo = undo := by
    unfold sem_back_one
    rw [hst''.2]
    simp only
    rw [if_pos hflag, hst''.1, hundo, row_adj_set hu, sub_add_cancel, to_s16_eq hrange.1 hrange.2, set_row_adj_back hu]
  rw [hfound, hrestore]
  exact ⟨rfl, hst''.2⟩

variable {ops : List Sembuf}

theorem sem_try_loop_ok {i : Nat} (hok : st.Ok pid semid)
    (hdone : sem_try_loop h pid semid ops i st = (st', none)) : st'.Ok pid semid := by
  induction ops generalizing i st with
  | nil =>
    cases hdone
    exact hok
  | cons op ops ih =>
    rw [sem_try_loop] at hdone
    split at hdone
    next => cases hdone
    next st₁ hone => exact ih (sem_try_one_ok hok hone) hdone

theorem sem_try_loop_settled {i k : Nat} (hok : st.Ok pid semid)
    (hstop : sem_try_loop h pid semid ops i st = (st', some (k, stop))) :
    i ≤ k ∧ Settled h pid semid st ((ops.take (k - i)).foldr sem_back_one st') := by
  induction ops generalizing i st with
  | nil => cases hstop
  | cons op ops ih =>
    rw [sem_try_loop] at hstop
    split at hstop
    next st₁ stop₁ hone =>
      cases hstop
      rw [Nat.sub_self, List.take_zero]
      exact ⟨le_rfl, sem_try_one_stop hone⟩
    rename_i st₁ hone
    obtain ⟨hle, hset⟩ := ih (sem_try_one_ok hok hone) hstop
    have hk : k - i = (k - (i + 1)) + 1 := by omega
    rw [hk, List.take_succ_cons, List.foldr_cons]
    exact ⟨by omega, sem_back_one_settled hok hone hset⟩

def sem_apply_vals : List Sembuf → (Nat → Int) → Nat → Int
  | [], val => val
  | op :: ops, val => sem_apply_vals ops (update val op.sem_num (val op.sem_num + op.sem_op))

def sem_undo_total (ops : List Sembuf) (n : Nat) : Int :=
  ((ops.filter fun op => op.undo ∧ op.sem_num = n).map Sembuf.sem_op).sum

theorem sem_try_loop_vals {i : Nat} (hok : st.Ok pid semid)
    (hdone : sem_try_loop h pid semid ops i st = (st', none)) : st'.val = sem_apply_vals ops st.val := by
  induction ops generalizing i st with
  | nil =>
    cases hdone
    rfl
  | cons op ops ih =>
    rw [sem_try_loop] at hdone
    split at hdone
    · cases hdone
    rename_i st₁ hone
    rw [ih (sem_try_one_ok hok hone) hdone, (sem_try_one_go hok hone).2.1]
    rfl

/-- The row of `pid` and `semid` moved against the operations of a vector. -/
def undo_moved (pid semid : Int) (total : Nat → Int) (undo : Table SemUndo) : Table SemUndo := fun i =>
  (undo i).map fun u => if undo_of pid semid u then { u with adj := fun n => u.adj n - total n } else u

theorem undo_moved_zero (undo : Table SemUndo) : undo_moved pid semid (fun _ => 0) undo = undo := by
  funext i
  unfold undo_moved
  cases undo i with
  | none => rfl
  | some u => simp

theorem undo_moved_moved (undo : Table SemUndo) (f g : Nat → Int) :
    undo_moved pid semid f (undo_moved pid semid g undo) = undo_moved pid semid (fun n => g n + f n) undo := by
  funext i
  unfold undo_moved
  cases undo i with
  | none => rfl
  | some u =>
    by_cases hu : undo_of pid semid u = true
    · have hu' : undo_of pid semid { u with adj := fun n => u.adj n - g n } = true := hu
      simp only [map_some, if_pos hu, if_pos hu', sub_sub]
    · simp only [map_some, if_neg hu]

theorem set_row_adj_eq_moved {undo : Table SemUndo} {r n : Nat} {u : SemUndo} {o : Int} (hok : UndoOk undo)
    (hu : undo r = some u) (hpid : u.pid = pid) (hsem : u.semid = semid) :
    set_row_adj undo r n (u.adj n - o) = undo_moved pid semid (fun k => if k = n then o else 0) undo := by
  funext i
  rw [set_row_adj_apply hu, undo_moved]
  by_cases hi : i = r
  · subst hi
    have hadj : update u.adj n (u.adj n - o) = fun k => u.adj k - if k = n then o else 0 := by
      funext k
      by_cases hk : k = n
      · subst hk
        rw [update_self, if_pos rfl]
      · rw [update_of_ne hk, if_neg hk, sub_zero]
    rw [update_self, hu, map_some, if_pos (undo_of_iff.2 ⟨hpid, hsem⟩), hadj]
  rw [update_of_ne hi]
  cases hv : undo i with
  | none => rfl
  | some v =>
    have hother : ¬undo_of pid semid v = true := by
      rw [undo_of_iff]
      rintro ⟨hvp, hvs⟩
      exact hi (hok.unique i r v u hv hu (by rw [hvp, hpid]) (by rw [hvs, hsem]))
    rw [map_some, if_neg hother]

theorem sem_undo_total_cons (op : Sembuf) (ops : List Sembuf) (n : Nat) :
    sem_undo_total (op :: ops) n =
      (if op.undo = true ∧ op.sem_num = n then op.sem_op else 0) + sem_undo_total ops n := by
  unfold sem_undo_total
  rw [List.filter_cons]
  by_cases hop : op.undo = true ∧ op.sem_num = n
  · rw [if_pos (by simpa using hop), if_pos hop, List.map_cons, List.sum_cons]
  · rw [if_neg (by simpa using hop), if_neg hop, zero_add]

/-- The undo table a vector's adjustments go to: the row of the process is there,
or the vector has no `SEM_UNDO` operation and the table is as it was. -/
def UndoReady (h : Host) (pid semid : Int) (ops : List Sembuf) (undo undo' : Table SemUndo) : Prop :=
  UndoExtends h pid semid undo undo' ∧
    ((∃ i u, undo' i = some u ∧ u.pid = pid ∧ u.semid = semid) ∨
      (undo' = undo ∧ ∀ op ∈ ops, op.undo = false))

/-- An attempt that is applied moves the row of the process against the vector's
`SEM_UNDO` operations, and leaves every other row. -/
theorem sem_try_loop_undo {i : Nat} (hok : st.Ok pid semid)
    (hdone : sem_try_loop h pid semid ops i st = (st', none)) :
    ∃ undo, UndoReady h pid semid ops st.undo undo ∧ st'.undo = undo_moved pid semid (sem_undo_total ops) undo := by
  induction ops generalizing i st with
  | nil =>
    cases hdone
    exact ⟨_, ⟨.inl rfl, .inr ⟨rfl, fun op hop => nomatch hop⟩⟩, (undo_moved_zero _).symm⟩
  | cons op ops ih =>
    rw [sem_try_loop] at hdone
    split at hdone
    · cases hdone
    rename_i st₁ hone
    have hok₁ := sem_try_one_ok hok hone
    obtain ⟨undo₁, ⟨hext, hready⟩, hmoved⟩ := ih hok₁ hdone
    obtain ⟨-, -, ⟨hflag, hundo, -⟩ | ⟨hflag, undo, r, u, hfound, hu, hpid, hsem, -, -, hundo, hrow⟩⟩ :=
      sem_try_one_go hok hone
    · rw [hundo] at hext hready
      have hcons : (∀ op ∈ ops, op.undo = false) → ∀ op' ∈ op :: ops, op'.undo = false := fun hops op' hop' =>
        (List.mem_cons.1 hop').elim (fun heq => heq ▸ hflag) (hops op')
      refine ⟨undo₁, ⟨hext, hready.imp_right fun hsame => ⟨hsame.1, hcons hsame.2⟩⟩, ?_⟩
      rw [hmoved]
      congr 1
      funext n
      rw [sem_undo_total_cons, if_neg (by simp [hflag]), zero_add]
    have hext₀ := (sem_try_row_spec (h := h) hok).1
    rw [hfound] at hext₀
    have hsame : undo₁ = st₁.undo := by
      rcases hext with hsame | ⟨j, -, -, hfresh, -⟩
      · exact hsame
      · obtain ⟨v, hv, hvp, hvs⟩ := hok₁.row r hrow
        exact absurd ⟨hvp, hvs⟩ (hfresh r v hv)
    refine ⟨undo, ⟨hext₀, .inl ⟨r, u, hu, hpid, hsem⟩⟩, ?_⟩
    rw [hmoved, hsame, hundo, set_row_adj_eq_moved (hext₀.ok hok.undo) hu hpid hsem, undo_moved_moved]
    congr 1
    funext n
    rw [sem_undo_total_cons]
    simp only [hflag, true_and, eq_comm]

end attempt

/-- The tables of the broker: values in range, sets with ids of their own, and
undo rows as in `UndoOk`. -/
structure SemTab.Ok (t : SemTab) : Prop where
  undo : UndoOk t.undo
  val : ∀ i s, t.sem i = some s → ∀ n, 0 ≤ s.val n ∧ s.val n ≤ G_SEMVMX
  unique : ∀ i j s s', t.sem i = some s → t.sem j = some s' → s.semid = s'.semid → i = j
  bound : ∀ i s, t.sem i = some s → i < SEM_SET_MAX ∧ 0 < s.semid

section tables

variable {t t' : SemTab} {h : Host} {i : Nat} {s : SemSet} {semid pid : Int} {sops : List Sembuf}

theorem sem_find_some (hfind : sem_find t semid = some (i, s)) : t.sem i = some s ∧ s.semid = semid := by
  unfold sem_find at hfind
  split at hfind
  · cases hfind
  obtain ⟨k, hk, hmap⟩ := bind_eq_some_iff.1 hfind
  obtain ⟨s', hs', heq⟩ := map_eq_some_iff.1 hmap
  obtain ⟨-, s'', hs'', hid⟩ := find_some hk
  cases heq
  rw [hs', some.injEq] at hs''
  subst hs''
  exact ⟨hs', of_decide_eq_true hid⟩

theorem sem_find_of_mem (hok : t.Ok) (hs : t.sem i = some s) : sem_find t s.semid = some (i, s) := by
  obtain ⟨hlt, hpos⟩ := hok.bound i s hs
  have hfind : (find SEM_SET_MAX t.sem fun s' => s'.semid = s.semid) = some i := by
    refine find_unique (fun j k a b ha hb hpa hpb => ?_) hlt hs (decide_eq_true rfl)
    exact hok.unique j k a b ha hb ((of_decide_eq_true hpa).trans (of_decide_eq_true hpb).symm)
  rw [sem_find, if_neg (by omega), hfind, bind_some, hs, map_some]

theorem SemTab.Ok.tryState (hok : t.Ok) (hs : t.sem i = some s) (pid : Int) :
    (⟨s.val, t.undo, none⟩ : TryState).Ok pid s.semid :=
  ⟨hok.undo, hok.val i s hs, fun r hr => absurd hr (by simp)⟩

/-- A vector that is not applied leaves every value as it was, and adds no more
than a row of zeros. -/
theorem sem_try_op_refused (hok : t.Ok) (hs : t.sem i = some s)
    (hres : (sem_try_op h t i s sops pid).2 ≠ .applied) :
    (sem_try_op h t i s sops pid).1.sem = t.sem ∧
      UndoExtends h pid s.semid t.undo (sem_try_op h t i s sops pid).1.undo ∧
      (sem_try_op h t i s sops pid).1.next_semid = t.next_semid := by
  have hstart := hok.tryState hs pid
  unfold sem_try_op at hres ⊢
  split
  · exact ⟨rfl, .inl rfl, rfl⟩
  rename_i hbig
  rw [if_neg hbig] at hres
  split
  next st k stop hloop =>
    obtain ⟨-, hval, hundo⟩ := sem_try_loop_settled hstart hloop
    rw [Nat.sub_zero] at hval hundo
    refine ⟨?_, ?_, rfl⟩
    · simp only [hval]
      rw [← hs, update_eq_self]
    rcases hundo with ⟨hundo, -⟩ | ⟨hundo, -⟩
    · exact .inl hundo
    · simp only [hundo]
      exact (sem_try_row_spec hstart).1
  rename_i st hloop
  rw [hloop] at hres
  exact absurd rfl hres

/-- A vector that is applied has all its operations done in order, and moves the
row of the process against its `SEM_UNDO` operations. -/
theorem sem_try_op_applied (hok : t.Ok) (hs : t.sem i = some s)
    (hres : (sem_try_op h t i s sops pid).2 = .applied) :
    ∃ s' undo, (sem_try_op h t i s sops pid).1 =
        { t with sem := update t.sem i (some s')
                 undo := undo_moved pid s.semid (sem_undo_total sops) undo } ∧
      UndoReady h pid s.semid sops t.undo undo ∧ s'.semid = s.semid ∧ s'.val = sem_apply_vals sops s.val ∧
      (∀ n, 0 ≤ s'.val n ∧ s'.val n ≤ G_SEMVMX) ∧ UndoOk (undo_moved pid s.semid (sem_undo_total sops) undo) := by
  have hstart := hok.tryState hs pid
  unfold sem_try_op at hres ⊢
  split at hres
  · cases hres
  rename_i hbig
  rw [if_neg hbig]
  split at hres
  next st k stop hloop => cases stop <;> cases hres
  rename_i st hloop
  obtain ⟨undo, hext, hmoved⟩ := sem_try_loop_undo hstart hloop
  have hst := sem_try_loop_ok hstart hloop
  exact ⟨sem_stamp h s sops pid st.val, undo, by rw [← hmoved], hext, rfl,
    sem_try_loop_vals hstart hloop, hst.val, hmoved ▸ hst.undo⟩

end tables

end arm64emu
