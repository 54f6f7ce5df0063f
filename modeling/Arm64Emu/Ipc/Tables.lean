import Mathlib
import Arm64Emu.Ipc.TryOp

open slots

namespace arm64emu

open List

open Function

section tables

variable {t : SemTab} {h : Host} {i : Nat} {s s' : SemSet} {undo : Table SemUndo} {u : SemUndo} {l : List Nat}
  (f : SemUndo → Bool)

theorem SemTab.empty_ok : SemTab.empty.Ok := by
  refine ⟨⟨?_, ?_, ?_⟩, ?_, ?_, ?_⟩ <;> intro _ <;> intros <;> contradiction

theorem SemTab.Ok.replace (hok : t.Ok) (hs : t.sem i = some s) (hid : s'.semid = s.semid)
    (hval : ∀ n, 0 ≤ s'.val n ∧ s'.val n ≤ G_SEMVMX) (hundo : UndoOk undo) :
    SemTab.Ok { t with sem := update t.sem i (some s'), undo := undo } := by
  have hrow : ∀ j a, update t.sem i (some s') j = some a →
      ∃ b, t.sem j = some b ∧ a.semid = b.semid ∧ ∀ n, 0 ≤ a.val n ∧ a.val n ≤ G_SEMVMX :=
    forall_update_some ⟨s, hs, hid, hval⟩ fun j a ha => ⟨a, ha, rfl, hok.val j a ha⟩
  refine ⟨hundo, fun j a ha => ?_, fun j k a b ha hb hab => ?_, fun j a ha => ?_⟩
  · obtain ⟨-, -, -, hrange⟩ := hrow j a ha
    exact hrange
  · obtain ⟨a', ha', haid, -⟩ := hrow j a ha
    obtain ⟨b', hb', hbid, -⟩ := hrow k b hb
    exact hok.unique j k a' b' ha' hb' (by rw [← haid, ← hbid, hab])
  obtain ⟨a', ha', haid, -⟩ := hrow j a ha
  rw [haid]
  exact hok.bound j a' ha'

theorem SemTab.Ok.with_undo (hok : t.Ok) (hundo : UndoOk undo) : SemTab.Ok { t with undo := undo } :=
  { hok with undo := hundo }

theorem sem_clamp_range (v : Int) : 0 ≤ sem_clamp v ∧ sem_clamp v ≤ G_SEMVMX := by
  unfold sem_clamp G_SEMVMX
  dsimp only
  split <;> split <;> omega

theorem sem_clamp_eq {v : Int} (hv : 0 ≤ v ∧ v ≤ G_SEMVMX) : sem_clamp v = v := by
  unfold sem_clamp
  rw [if_neg (by omega), if_neg (by omega)]

theorem sem_undo_set_val (hval : ∀ n, 0 ≤ s.val n ∧ s.val n ≤ G_SEMVMX) (n : Nat) :
    (sem_undo_set h u s).val n = if n < s.nsems then sem_clamp (s.val n + u.adj n) else s.val n := by
  have hclamp := sem_clamp_range (s.val n + u.adj n)
  simp only [sem_undo_set]
  by_cases hn : n < s.nsems
  · by_cases hadj : u.adj n = 0
    · rw [if_neg (by simp [hadj]), if_pos hn, hadj, add_zero, sem_clamp_eq (hval n)]
    · rw [if_pos ⟨hn, hadj⟩, if_pos hn, to_u16_eq hclamp.1 hclamp.2]
  · rw [if_neg (by simp [hn]), if_neg hn]

theorem sem_undo_apply_undo (h : Host) (t : SemTab) (i : Nat) :
    (sem_undo_apply h t i).undo = update t.undo i none := by
  unfold sem_undo_apply
  split
  next hnone => rw [← hnone, update_eq_self]
  split
  · rfl
  · rfl

theorem UndoOk.remove (hok : UndoOk undo) (i : Nat) : UndoOk (update undo i none) := by
  refine hok.mono fun j u hu => ?_
  obtain ⟨-, hu⟩ := update_none_some hu
  exact ⟨u, hu, rfl, rfl, hok.range j u hu⟩

theorem sem_undo_apply_ok (hok : t.Ok) (h : Host) (i : Nat) : (sem_undo_apply h t i).Ok := by
  unfold sem_undo_apply
  split
  · exact hok
  split
  · exact hok.with_undo (hok.undo.remove i)
  next u hu j s hfind =>
    obtain ⟨hs, -⟩ := sem_find_some hfind
    refine hok.replace hs rfl (fun n => ?_) (hok.undo.remove i)
    rw [sem_undo_set_val (hok.val j s hs)]
    split
    · exact sem_clamp_range _
    · exact hok.val j s hs n

theorem sem_apply_rows_induction {P : SemTab → Prop}
    (hstep : ∀ t i, P t → P (sem_undo_apply h t i)) (ht : P t) : P (sem_apply_rows h f t) := by
  unfold sem_apply_rows
  induction List.range SEM_UNDO_MAX generalizing t with
  | nil => exact ht
  | cons i l ih =>
    rw [foldl_cons]
    apply ih
    unfold sem_apply_row
    split
    · exact hstep t i ht
    · exact ht

theorem sem_apply_row_undo (h : Host) (f : SemUndo → Bool) (t : SemTab) (i : Nat) :
    (sem_apply_row h f t i).undo =
      update t.undo i ((t.undo i).filter fun u => !f u) := by
  unfold sem_apply_row
  cases hu : t.undo i with
  | none =>
    rw [Option.any_none, if_neg Bool.false_ne_true, Option.filter_none, ← hu, update_eq_self]
  | some u =>
    rw [Option.any_some]
    by_cases hf : f u = true
    · rw [if_pos hf, sem_undo_apply_undo, Option.filter_some, if_neg (by simp [hf])]
    · rw [if_neg hf, Option.filter_some, if_pos (by simp [hf]), ← hu, update_eq_self]

theorem sem_apply_list_other (h : Host) (f : SemUndo → Bool) (t : SemTab) (hi : i ∉ l) :
    (l.foldl (sem_apply_row h f) t).undo i = t.undo i := by
  induction l generalizing t with
  | nil => rfl
  | cons j l ih =>
    rw [mem_cons, not_or] at hi
    rw [foldl_cons, ih _ hi.2, sem_apply_row_undo, update_of_ne hi.1]

theorem sem_apply_list_mem (h : Host) (f : SemUndo → Bool) (t : SemTab) (hi : i ∈ l) :
    (l.foldl (sem_apply_row h f) t).undo i =
      (t.undo i).filter fun u => !f u := by
  induction l generalizing t with
  | nil => exact nomatch hi
  | cons j l ih =>
    rw [foldl_cons]
    by_cases hij : i = j
    · subst hij
      by_cases hl : i ∈ l
      · rw [ih _ hl, sem_apply_row_undo, update_self, Option.filter_filter]
        simp
      · rw [sem_apply_list_other h f _ hl, sem_apply_row_undo, update_self]
    · rw [ih _ ((mem_cons.1 hi).resolve_left hij), sem_apply_row_undo, update_of_ne hij]

theorem sem_apply_rows_undo (hok : UndoOk t.undo) (f : SemUndo → Bool) (i : Nat) :
    (sem_apply_rows h f t).undo i = (t.undo i).filter fun u => !f u := by
  by_cases hi : i < SEM_UNDO_MAX
  · rw [sem_apply_rows, sem_apply_list_mem h f t (mem_range.2 hi)]
  have hnone : t.undo i = none := by
    cases hu : t.undo i with
    | none => rfl
    | some u => exact absurd (hok.bound i u hu) hi
  rw [hnone, Option.filter_none, sem_apply_rows, sem_apply_list_other h f t (fun hmem => hi (mem_range.1 hmem)),
    hnone]

theorem sem_apply_rows_ok (hok : t.Ok) (f : SemUndo → Bool) : (sem_apply_rows h f t).Ok :=
  sem_apply_rows_induction f (fun _ i ht => sem_undo_apply_ok ht h i) hok

def rows_of (f : SemUndo → Bool) (undo : Table SemUndo) (semid : Int) (l : List Nat) : List SemUndo :=
  l.filterMap fun k => (undo k).filter fun u => f u && decide (u.semid = semid)

theorem rows_of_cons (undo : Table SemUndo) (semid : Int) (k : Nat) (l : List Nat) :
    rows_of f undo semid (k :: l) =
      ((undo k).filter fun u => f u && decide (u.semid = semid)).toList ++ rows_of f undo semid l := by
  unfold rows_of
  rw [filterMap_cons]
  cases (undo k).filter fun u => f u && decide (u.semid = semid) with
  | none => rfl
  | some u => rfl

/-- A set with rows added to its values one after the other, each sum clamped. -/
def AddsRows (n : Nat) (rows : List SemUndo) (v v' : Int) : Prop :=
  v' = rows.foldl (fun v u => sem_clamp (v + u.adj n)) v

theorem sem_apply_row_set (hok : t.Ok) (hs : t.sem i = some s) (f : SemUndo → Bool) (k : Nat) :
    ∃ s', (sem_apply_row h f t k).sem i = some s' ∧ s'.semid = s.semid ∧ s'.nsems = s.nsems ∧
      ∀ n < s.nsems, AddsRows n ((t.undo k).filter fun u => f u && decide (u.semid = s.semid)).toList
        (s.val n) (s'.val n) := by
  unfold sem_apply_row sem_undo_apply
  cases hu : t.undo k with
  | none => exact ⟨s, hs, rfl, rfl, fun n _ => rfl⟩
  | some u =>
    rw [Option.any_some]
    by_cases hf : f u = true
    · rw [if_pos hf, Option.filter_some]
      by_cases hsem : u.semid = s.semid
      · simp only [hsem, sem_find_of_mem hok hs, hf]
        refine ⟨sem_undo_set h u s, update_self .., rfl, rfl, fun n hn => ?_⟩
        rw [sem_undo_set_val (hok.val i s hs), if_pos hn]
        rfl
      have hkeep : ¬((f u && decide (u.semid = s.semid)) = true) := by simp [hsem]
      simp only [if_neg hkeep]
      split
      · exact ⟨s, hs, rfl, rfl, fun n _ => rfl⟩
      next j s₁ hfind =>
        obtain ⟨hs₁, hid⟩ := sem_find_some hfind
        have hij : i ≠ j := by
          rintro rfl
          rw [hs, Option.some.injEq] at hs₁
          exact hsem (by rw [hs₁, hid])
        exact ⟨s, (update_of_ne hij ..).trans hs, rfl, rfl, fun n _ => rfl⟩
    have hkeep : ¬((f u && decide (u.semid = s.semid)) = true) := by simp [hf]
    rw [if_neg hf, Option.filter_some, if_neg hkeep]
    exact ⟨s, hs, rfl, rfl, fun n _ => rfl⟩

theorem sem_apply_list_set (hnodup : l.Nodup) (hok : t.Ok) (hs : t.sem i = some s) :
    ∃ s', (l.foldl (sem_apply_row h f) t).sem i = some s' ∧ s'.semid = s.semid ∧ s'.nsems = s.nsems ∧
      ∀ n < s.nsems, AddsRows n (rows_of f t.undo s.semid l) (s.val n) (s'.val n) := by
  induction l generalizing t s with
  | nil => exact ⟨s, hs, rfl, rfl, fun n _ => rfl⟩
  | cons k l ih =>
    rw [nodup_cons] at hnodup
    obtain ⟨s₁, hs₁, hid₁, hn₁, hval₁⟩ := sem_apply_row_set (h := h) hok hs f k
    have hok₁ : (sem_apply_row h f t k).Ok := by
      unfold sem_apply_row
      split
      · exact sem_undo_apply_ok hok h k
      · exact hok
    obtain ⟨s₂, hs₂, hid₂, hn₂, hval₂⟩ := ih hnodup.2 hok₁ hs₁
    have hrows : rows_of f (sem_apply_row h f t k).undo s.semid l = rows_of f t.undo s.semid l := by
      refine filterMap_congr fun j hj => ?_
      have hjk : j ≠ k := fun heq => hnodup.1 (heq ▸ hj)
      rw [sem_apply_row_undo, update_of_ne hjk]
    rw [hid₁, hrows] at hval₂
    refine ⟨s₂, hs₂, hid₂.trans hid₁, hn₂.trans hn₁, fun n hn => ?_⟩
    unfold AddsRows at hval₁ hval₂ ⊢
    rw [rows_of_cons, foldl_append, ← hval₁ n hn]
    exact hval₂ n (hn₁ ▸ hn)

theorem sem_apply_rows_set (hok : t.Ok) (hs : t.sem i = some s) (f : SemUndo → Bool) :
    ∃ s', (sem_apply_rows h f t).sem i = some s' ∧ s'.semid = s.semid ∧ s'.nsems = s.nsems ∧
      ∀ n < s.nsems, AddsRows n (rows_of f t.undo s.semid (List.range SEM_UNDO_MAX)) (s.val n) (s'.val n) := by
  rw [sem_apply_rows]
  exact sem_apply_list_set f nodup_range hok hs

theorem sem_try_op_ok (hok : t.Ok) (hs : t.sem i = some s) (sops : List Sembuf) (pid : Int) :
    (sem_try_op h t i s sops pid).1.Ok := by
  by_cases hres : (sem_try_op h t i s sops pid).2 = .applied
  · obtain ⟨s', undo, heq, -, hid, -, hval, hundo⟩ := sem_try_op_applied hok hs hres
    rw [heq]
    exact hok.replace hs hid hval hundo
  · obtain ⟨hsem, hext, -⟩ := sem_try_op_refused hok hs hres
    exact ⟨hext.ok hok.undo, hsem ▸ hok.val, hsem ▸ hok.unique, hsem ▸ hok.bound⟩

theorem sem_serve_op_cases (h : Host) (t : SemTab) (q : Caller) (semid : Int) (sops : List Sembuf) :
    (∃ e, sem_serve_op h t q semid sops = (t, .error e)) ∨
      ∃ i s, t.sem i = some s ∧ s.semid = semid ∧ sem_serve_op h t q semid sops = sem_try_op h t i s sops q.pid := by
  unfold sem_serve_op
  split
  · exact .inl ⟨_, rfl⟩
  split
  · exact .inl ⟨_, rfl⟩
  split
  · exact .inl ⟨_, rfl⟩
  next i s hfind =>
    split
    · exact .inl ⟨_, rfl⟩
    split
    · exact .inl ⟨_, rfl⟩
    · exact .inr ⟨i, s, (sem_find_some hfind).1, (sem_find_some hfind).2, rfl⟩

theorem sem_undo_clear_row {semnum : Option Nat} {semid : Int} {u' : SemUndo}
    (hfind : sem_find t semid = some (i, s)) {k : Nat} (hu' : sem_undo_clear t semid semnum k = some u') :
    ∃ u, t.undo k = some u ∧ u'.pid = u.pid ∧ u'.start = u.start ∧ u'.semid = u.semid ∧
      ∀ n, u'.adj n = if u.semid = semid ∧ n < s.nsems ∧ (semnum = none ∨ semnum = some n) then 0 else u.adj n := by
  obtain ⟨u, hu, heq⟩ := Option.map_eq_some_iff.1 hu'
  refine ⟨u, hu, ?_⟩
  rw [hfind] at heq
  by_cases hsem : u.semid = semid
  · rw [if_neg (not_not.2 hsem)] at heq
    cases semnum with
    | none =>
      subst heq
      refine ⟨rfl, rfl, rfl, fun n => ?_⟩
      simp [hsem]
    | some m =>
      by_cases hm : m < s.nsems
      · simp only [if_pos hm] at heq
        subst heq
        refine ⟨rfl, rfl, rfl, fun n => ?_⟩
        by_cases hn : n = m
        · subst hn
          simp [hsem, hm]
        · simp [update_of_ne hn, Ne.symm hn]
      simp only [if_neg hm] at heq
      subst heq
      refine ⟨rfl, rfl, rfl, fun n => ?_⟩
      rw [if_neg]
      rintro ⟨-, hn, hcase⟩
      simp only [reduceCtorEq, Option.some.injEq, false_or] at hcase
      omega
  rw [if_pos hsem] at heq
  subst heq
  refine ⟨rfl, rfl, rfl, fun n => ?_⟩
  rw [if_neg fun hcase => hsem hcase.1]

theorem sem_undo_clear_ok (hok : UndoOk t.undo) {semnum : Option Nat} {semid : Int}
    (hfind : sem_find t semid = some (i, s)) : UndoOk (sem_undo_clear t semid semnum) := by
  refine hok.mono fun k u' hu' => ?_
  obtain ⟨u, hu, hpid, -, hsem, hadj⟩ := sem_undo_clear_row hfind hu'
  refine ⟨u, hu, hpid, hsem, fun n => ?_⟩
  rw [hadj]
  split
  · exact (by decide : -G_SEMAEM - 1 ≤ 0 ∧ 0 ≤ G_SEMAEM)
  · exact hok.range k u hu n

theorem sem_setval_cases (h : Host) (t : SemTab) (q : Caller) (semid semnum val : Int) :
    (∃ e : Int, e ≠ 0 ∧ sem_setval h t q semid semnum val = (t, e)) ∨
      ∃ i s s', sem_find t semid = some (i, s) ∧ semnum.toNat < s.nsems ∧ 0 ≤ val ∧ val ≤ G_SEMVMX ∧
        sem_setval h t q semid semnum val =
          ({ t with sem := update t.sem i (some s')
                    undo := sem_undo_clear t semid (some semnum.toNat) }, 0) ∧
        s'.semid = s.semid ∧ s'.val = update s.val semnum.toNat val := by
  unfold sem_setval
  split
  · exact .inl ⟨_, by decide, rfl⟩
  next i s hfind =>
    split
    · exact .inl ⟨_, by decide, rfl⟩
    next hnum =>
      split
      · exact .inl ⟨_, by decide, rfl⟩
      split
      · exact .inl ⟨_, by decide, rfl⟩
      next hval =>
        rw [not_or, not_lt, not_lt] at hval
        rw [(sem_find_some hfind).2]
        exact .inr ⟨i, s, _, hfind, by omega, hval.1, hval.2, rfl, (sem_find_some hfind).2.symm,
          by rw [to_u16_eq hval.1 hval.2]⟩

theorem sem_setall_cases (h : Host) (t : SemTab) (q : Caller) (semid : Int) (vals : List Int) :
    (∃ e : Int, e ≠ 0 ∧ sem_setall h t q semid vals = (t, e)) ∨
      ∃ i s s', sem_find t semid = some (i, s) ∧ vals.length = s.nsems ∧
        (∀ n, 0 ≤ to_u16 (vals.getD n 0) ∧ to_u16 (vals.getD n 0) ≤ G_SEMVMX) ∧
        sem_setall h t q semid vals =
          ({ t with sem := update t.sem i (some s'), undo := sem_undo_clear t semid none }, 0) ∧
        s'.semid = s.semid ∧ ∀ n, s'.val n = if n < s.nsems then to_u16 (vals.getD n 0) else s.val n := by
  unfold sem_setall
  split
  · exact .inl ⟨_, by decide, rfl⟩
  next i s hfind =>
    split
    · exact .inl ⟨_, by decide, rfl⟩
    next hlen =>
      split
      · exact .inl ⟨_, by decide, rfl⟩
      split
      · exact .inl ⟨_, by decide, rfl⟩
      next hval =>
        have hrange : ∀ n, 0 ≤ to_u16 (vals.getD n 0) ∧ to_u16 (vals.getD n 0) ≤ G_SEMVMX := by
          intro n
          rw [getD_eq_getElem?_getD]
          cases hn : vals[n]? with
          | none => exact (by decide : 0 ≤ to_u16 0 ∧ to_u16 0 ≤ G_SEMVMX)
          | some v =>
            rw [Bool.not_eq_true, any_eq_false] at hval
            have hle := hval v (mem_of_getElem? hn)
            rw [decide_eq_true_iff, not_lt] at hle
            exact ⟨Int.emod_nonneg _ (by decide), hle⟩
        rw [(sem_find_some hfind).2]
        exact .inr ⟨i, s, _, hfind, not_not.1 hlen, hrange, rfl, (sem_find_some hfind).2.symm, fun n => rfl⟩

theorem sem_rmid_cases (t : SemTab) (q : Caller) (semid : Int) :
    (∃ e : Int, e ≠ 0 ∧ sem_rmid t q semid = (t, e)) ∨
      ∃ i s, t.sem i = some s ∧ s.semid = semid ∧ sem_rmid t q semid = (sem_free_set t i s, 0) := by
  unfold sem_rmid
  split
  · exact .inl ⟨_, by decide, rfl⟩
  next i s hfind =>
    split
    · exact .inr ⟨i, s, (sem_find_some hfind).1, (sem_find_some hfind).2, rfl⟩
    · exact .inl ⟨_, by decide, rfl⟩

theorem sem_free_set_ok (hok : t.Ok) (i : Nat) (s : SemSet) : (sem_free_set t i s).Ok := by
  have hsem : ∀ j a, update t.sem i none j = some a → t.sem j = some a := fun _ _ ha => (update_none_some ha).2
  refine ⟨hok.undo.mono fun k u hu => ?_, fun j a ha => hok.val j a (hsem j a ha), fun j k a b ha hb => ?_,
    fun j a ha => hok.bound j a (hsem j a ha)⟩
  · obtain ⟨hu, -⟩ := Option.filter_eq_some_iff.1 hu
    exact ⟨u, hu, rfl, rfl, hok.undo.range k u hu⟩
  · exact hok.unique j k a b (hsem j a ha) (hsem k b hb)

theorem sem_alloc_id_fresh {next id : Int} (halloc : sem_alloc_id t = (next, some id)) :
    0 < id ∧ sem_find t id = none := by
  unfold sem_alloc_id at halloc
  generalize SEM_SET_MAX * 4 = tries at halloc
  generalize t.next_semid = first at halloc
  induction tries generalizing first with
  | zero => cases halloc
  | succ tries ih =>
    rw [sem_alloc_id_loop] at halloc
    split at halloc
    next hfresh =>
      cases halloc
      exact hfresh
    next => exact ih _ halloc

theorem sem_do_get_cases (h : Host) (t : SemTab) (q : Caller) (key : Int) (nsems : Nat) (flg : GetFlags) :
    (∃ next, (sem_do_get h t q key nsems flg).1 = { t with next_semid := next }) ∨
      (∃ i s s', (sem_do_get h t q key nsems flg).1 = { t with sem := update t.sem i (some s') } ∧
        t.sem i = some s ∧ s'.semid = s.semid ∧ s'.val = s.val) ∨
      ∃ i s next, (sem_do_get h t q key nsems flg).1 =
          { t with sem := update t.sem i (some s), next_semid := next } ∧
        i < SEM_SET_MAX ∧ t.sem i = none ∧ 0 < s.semid ∧ sem_find t s.semid = none ∧ ∀ n, s.val n = 0 := by
  unfold sem_do_get
  dsimp only
  split
  next i s hkey =>
    obtain ⟨j, -, hmap⟩ := Option.bind_eq_some_iff.1 hkey
    obtain ⟨a, ha, heq⟩ := Option.map_eq_some_iff.1 hmap
    cases heq
    split
    · exact .inl ⟨_, rfl⟩
    split
    · exact .inl ⟨_, rfl⟩
    split
    · exact .inl ⟨_, rfl⟩
    · exact .inr (.inl ⟨i, s, _, rfl, ha, rfl, rfl⟩)
  split
  · exact .inl ⟨_, rfl⟩
  split
  · exact .inl ⟨_, rfl⟩
  split
  · exact .inl ⟨_, rfl⟩
  next slot hfree =>
    split
    · exact .inl ⟨_, rfl⟩
    next next id halloc =>
      obtain ⟨hlt, hnone⟩ := free_some hfree
      obtain ⟨hpos, hfind⟩ := sem_alloc_id_fresh halloc
      exact .inr (.inr ⟨slot, _, next, rfl, hlt, hnone, hpos, hfind, fun _ => rfl⟩)

theorem SemTab.Ok.add (hok : t.Ok) {next : Int} (hlt : i < SEM_SET_MAX) (hpos : 0 < s.semid)
    (hfresh : sem_find t s.semid = none) (hval : ∀ n, s.val n = 0) :
    SemTab.Ok { t with sem := update t.sem i (some s), next_semid := next } := by
  have hother : ∀ j a, t.sem j = some a → a.semid ≠ s.semid := by
    intro j a ha heq
    have hfind := sem_find_of_mem hok ha
    rw [heq, hfresh] at hfind
    cases hfind
  refine ⟨hok.undo, forall_update_some (fun n => ?_) hok.val,
    update_some_unique (R := fun a b : SemSet => a.semid = b.semid) (fun _ _ => Eq.symm) hok.unique hother,
    forall_update_some ⟨hlt, hpos⟩ hok.bound⟩
  rw [hval n]
  decide

theorem sem_do_get_ok (hok : t.Ok) (q : Caller) (key : Int) (nsems : Nat) (flg : GetFlags) :
    (sem_do_get h t q key nsems flg).1.Ok := by
  rcases sem_do_get_cases h t q key nsems flg with
    ⟨next, heq⟩ | ⟨i, s, s', heq, hs, hid, hval⟩ | ⟨i, s, next, heq, hlt, -, hpos, hfresh, hval⟩
  · rw [heq]
    exact { hok with }
  · rw [heq]
    exact hok.replace hs hid (hval ▸ hok.val i s hs) hok.undo
  · rw [heq]
    exact hok.add hlt hpos hfresh hval

theorem sem_setval_ok (hok : t.Ok) (q : Caller) (semid semnum val : Int) :
    (sem_setval h t q semid semnum val).1.Ok := by
  rcases sem_setval_cases h t q semid semnum val with
    ⟨e, -, heq⟩ | ⟨i, s, s', hfind, -, hlow, hhigh, heq, hid, hval⟩
  · rw [heq]
    exact hok
  obtain ⟨hs, -⟩ := sem_find_some hfind
  rw [heq]
  refine hok.replace hs hid ?_ (sem_undo_clear_ok hok.undo hfind)
  rw [hval]
  exact (forall_update_iff s.val fun _ v => 0 ≤ v ∧ v ≤ G_SEMVMX).2
    ⟨⟨hlow, hhigh⟩, fun n _ => hok.val i s hs n⟩

theorem sem_setall_ok (hok : t.Ok) (q : Caller) (semid : Int) (vals : List Int) :
    (sem_setall h t q semid vals).1.Ok := by
  rcases sem_setall_cases h t q semid vals with ⟨e, -, heq⟩ | ⟨i, s, s', hfind, -, hrange, heq, hid, hval⟩
  · rw [heq]
    exact hok
  obtain ⟨hs, -⟩ := sem_find_some hfind
  rw [heq]
  refine hok.replace hs hid (fun n => ?_) (sem_undo_clear_ok hok.undo hfind)
  rw [hval]
  split
  · exact hrange n
  · exact hok.val i s hs n

theorem sem_rmid_ok (hok : t.Ok) (q : Caller) (semid : Int) : (sem_rmid t q semid).1.Ok := by
  rcases sem_rmid_cases t q semid with ⟨e, -, heq⟩ | ⟨i, s, -, -, heq⟩
  · rw [heq]
    exact hok
  · rw [heq]
    exact sem_free_set_ok hok i s

theorem sem_serve_op_ok (hok : t.Ok) (q : Caller) (semid : Int) (sops : List Sembuf) :
    (sem_serve_op h t q semid sops).1.Ok := by
  rcases sem_serve_op_cases h t q semid sops with ⟨e, heq⟩ | ⟨i, s, hs, -, heq⟩
  · rw [heq]
    exact hok
  · rw [heq]
    exact sem_try_op_ok hok hs sops q.pid

end tables

end arm64emu
