import Mathlib

namespace holders

open List

/-- A row of a table of holders: a key that may be given out again, the stamp that
tells its holders apart, and what is held. -/
structure Row (κ τ : Type) where
  key : κ
  stamp : τ
  n : Nat
  deriving DecidableEq, Repr

variable {κ τ : Type}

def Row.holder (r : Row κ τ) : κ × τ := (r.key, r.stamp)

def swap_remove {α : Type} (l : List α) (i : Nat) : List α :=
  match l.getLast? with
  | none => []
  | some a => (l.set i a).dropLast

theorem swap_remove_perm {α : Type} {l : List α} {i : Nat} (h : i < l.length) :
    (swap_remove l i).Perm (l.eraseIdx i) := by
  rcases eq_nil_or_concat l with rfl | ⟨l, a, rfl⟩
  · exact absurd h (Nat.not_lt_zero _)
  rw [concat_eq_append] at h ⊢
  rw [length_append, length_singleton] at h
  rw [swap_remove, List.getLast?_concat]
  dsimp only
  rcases Nat.lt_succ_iff_lt_or_eq.1 h with hlt | rfl
  · rw [set_append_left _ _ hlt, dropLast_concat, eraseIdx_append_of_lt_length hlt]
    have hset : (l.set i a).Perm (a :: l.eraseIdx i) := by
      rw [set_eq_take_append_cons_drop, if_pos hlt, eraseIdx_eq_take_drop_succ]
      exact perm_middle
    exact hset.trans (perm_append_singleton a _).symm
  · rw [set_append_right _ _ le_rfl, Nat.sub_self, set_cons_zero, dropLast_concat,
      eraseIdx_append_of_length_le le_rfl, Nat.sub_self, eraseIdx_cons_zero, append_nil]

section table

variable [DecidableEq κ]

/-- One more for the first row with the key, or a row of its own if there is room. -/
def add (cap : Nat) (k : κ) (t : τ) (rows : List (Row κ τ)) : List (Row κ τ) :=
  match rows.findIdx? fun r => r.key = k with
  | some i => rows.modify i fun r => { r with n := r.n + 1 }
  | none => if rows.length < cap then rows ++ [⟨k, t, 1⟩] else rows

/-- One less for the first row with the key, which goes with its last. -/
def del (k : κ) (rows : List (Row κ τ)) : List (Row κ τ) :=
  match rows.findIdx? fun r => r.key = k with
  | none => rows
  | some i =>
    if (rows[i]?).any (fun r => r.n ≤ 1) then swap_remove rows i else rows.modify i fun r => { r with n := r.n - 1 }

variable [DecidableEq τ]

theorem length_swap_remove {α : Type} {l : List α} {i : Nat} (h : i < l.length) :
    (swap_remove l i).length = l.length - 1 := by
  rw [(swap_remove_perm h).length_eq, length_eraseIdx_of_lt h]

/-- The rows whose stamp is not the key's any more are removed, from `j` on. -/
def reclaim (stamp : κ → τ) (rows : List (Row κ τ)) (j : Nat) : List (Row κ τ) :=
  if h : j < rows.length then
    if stamp rows[j].key ≠ rows[j].stamp then reclaim stamp (swap_remove rows j) j else reclaim stamp rows (j + 1)
  else rows
termination_by rows.length - j
decreasing_by
  · rw [length_swap_remove h]
    omega
  · omega

def holds (rows : List (Row κ τ)) (p : κ × τ) : Nat := ((rows.find? fun r => r.holder = p).map Row.n).getD 0

end table

/-- What happened to a table: a holder took one more or gave one back, or some
holders are gone. -/
inductive Event (κ τ : Type) where
  | add (p : κ × τ)
  | del (p : κ × τ)
  | gone (f : κ × τ → Bool)

variable [DecidableEq κ] [DecidableEq τ]

/-- What a holder has by its own doing; the log has its newest event first. -/
def held (p : κ × τ) : List (Event κ τ) → Nat
  | [] => 0
  | .add q :: log => if q = p then held p log + 1 else held p log
  | .del q :: log => if q = p then held p log - 1 else held p log
  | .gone f :: log => if f p then 0 else held p log

/-- Each row is its holder's own: one row a key, as much as the holder has, and a
holder without a row has nothing. -/
structure Own (rows : List (Row κ τ)) (log : List (Event κ τ)) : Prop where
  nodup : (rows.map Row.key).Nodup
  row : ∀ r ∈ rows, r.n = held r.holder log ∧ 0 < r.n
  none : ∀ p, (∀ r ∈ rows, r.holder ≠ p) → held p log = 0

section own

variable {rows rows' : List (Row κ τ)} {log : List (Event κ τ)} {k : κ} {t : τ} {cap i : Nat}

theorem Own.holds_eq (h : Own rows log) (p : κ × τ) : holds rows p = held p log := by
  unfold holds
  cases hfind : rows.find? fun r => r.holder = p with
  | none =>
    rw [List.find?_eq_none] at hfind
    exact (h.none p fun r hr hp => hfind r hr (decide_eq_true hp)).symm
  | some r =>
    have hp : r.holder = p := by simpa using List.find?_some hfind
    rw [Option.map_some, Option.getD_some, (h.row r (mem_of_find?_eq_some hfind)).1, hp]

theorem Own.perm (h : Own rows log) (hperm : rows.Perm rows') : Own rows' log :=
  ⟨(hperm.map Row.key).nodup_iff.1 h.nodup, fun r hr => h.row r (hperm.mem_iff.2 hr),
    fun p hp => h.none p fun r hr => hp r (hperm.mem_iff.1 hr)⟩

theorem own_nil : Own ([] : List (Row κ τ)) [] :=
  ⟨nodup_nil, nofun, fun _ _ => rfl⟩

variable {r : Row κ τ} {e : Event κ τ} {m : Nat}

theorem Own.others (h : Own (r :: rows) log) (hother : ∀ p, p ≠ r.holder → held p (e :: log) = held p log) :
    ∀ r' ∈ rows, r'.n = held r'.holder (e :: log) ∧ 0 < r'.n := by
  intro r' hr'
  obtain ⟨heq, hlt⟩ := h.row r' (.tail _ hr')
  refine ⟨?_, hlt⟩
  rw [heq, hother]
  intro hsame
  exact (nodup_cons.1 h.nodup).1 (mem_map.2 ⟨r', hr', congrArg Prod.fst hsame⟩)

theorem Own.update (h : Own (r :: rows) log) (hpos : 0 < m) (hself : held r.holder (e :: log) = m)
    (hother : ∀ p, p ≠ r.holder → held p (e :: log) = held p log) : Own ({ r with n := m } :: rows) (e :: log) := by
  refine ⟨h.nodup, fun r' hr' => ?_, fun p hp => ?_⟩
  · rcases mem_cons.1 hr' with rfl | hr'
    · exact ⟨hself.symm, hpos⟩
    · exact h.others hother r' hr'
  rw [forall_mem_cons] at hp
  rw [hother p fun hsame => hp.1 hsame.symm]
  exact h.none p (forall_mem_cons.2 hp)

theorem Own.remove (h : Own (r :: rows) log) (hself : held r.holder (e :: log) = 0)
    (hother : ∀ p, p ≠ r.holder → held p (e :: log) = held p log) : Own rows (e :: log) := by
  refine ⟨(nodup_cons.1 h.nodup).2, h.others hother, fun p hp => ?_⟩
  by_cases hsame : p = r.holder
  · rw [hsame, hself]
  · rw [hother p hsame]
    exact h.none p (forall_mem_cons.2 ⟨fun h => hsame h.symm, hp⟩)

omit [DecidableEq τ] in
theorem findIdx_key (h : (rows.findIdx? fun r => r.key = k) = some i) :
    ∃ pre r post, rows = pre ++ r :: post ∧ i = pre.length ∧ r.key = k := by
  rw [List.findIdx?_eq_some_iff_getElem] at h
  obtain ⟨hi, hkey, -⟩ := h
  refine ⟨rows.take i, rows[i], rows.drop (i + 1), ?_, ?_, of_decide_eq_true hkey⟩
  · rw [← drop_eq_getElem_cons hi, take_append_drop]
  · rw [length_take_of_le hi.le]

omit [DecidableEq τ] in
theorem findIdx_key_none (h : (rows.findIdx? fun r => r.key = k) = none) : ∀ r ∈ rows, r.key ≠ k := by
  rw [List.findIdx?_eq_none_iff] at h
  exact fun r hr => of_decide_eq_false (h r hr)

theorem modify_mid {α : Type} (pre post : List α) (a : α) (f : α → α) :
    (pre ++ a :: post).modify pre.length f = pre ++ f a :: post := by
  induction pre with
  | nil => rfl
  | cons b pre ih => rw [cons_append, length_cons, modify_succ_cons, ih, cons_append]

theorem Own.add (h : Own rows log) (hleft : ∀ r ∈ rows, r.key = k → r.stamp = t)
    (hroom : rows.length < cap ∨ ∃ r ∈ rows, r.key = k) : Own (add cap k t rows) (.add (k, t) :: log) := by
  have hother : ∀ p, p ≠ (k, t) → held p (.add (k, t) :: log) = held p log := fun p hp => if_neg fun heq => hp heq.symm
  have hself : held (k, t) (.add (k, t) :: log) = held (k, t) log + 1 := if_pos rfl
  rw [holders.add]
  split
  next i hfind =>
    obtain ⟨pre, r, post, rfl, rfl, hkey⟩ := findIdx_key hfind
    have hholder : r.holder = (k, t) := by
      rw [Row.holder, hkey, hleft r (mem_append_right _ mem_cons_self) hkey]
    have hfront : Own (r :: (pre ++ post)) log := h.perm perm_middle
    have hn := (hfront.row r (.head _)).1
    rw [modify_mid]
    refine Own.perm (hfront.update (m := r.n + 1) (Nat.succ_pos _) ?_ ?_) perm_middle.symm
    · rw [hholder, hself, hn, hholder]
    · rw [hholder]
      exact hother
  rename_i hfind
  have hnew := findIdx_key_none hfind
  have hnone : held (k, t) log = 0 := h.none _ fun r hr heq => hnew r hr (congrArg Prod.fst heq)
  rw [if_pos (hroom.resolve_right fun ⟨r, hr, hkey⟩ => hnew r hr hkey)]
  suffices hcons : Own (⟨k, t, 1⟩ :: rows) (.add (k, t) :: log) from
    hcons.perm (perm_append_singleton _ _).symm
  refine ⟨?_, fun r hr => ?_, fun p hp => ?_⟩
  · rw [map_cons, nodup_cons]
    refine ⟨fun hmem => ?_, h.nodup⟩
    obtain ⟨r, hr, hkey⟩ := mem_map.1 hmem
    exact hnew r hr hkey
  · rcases mem_cons.1 hr with rfl | hr
    · exact ⟨by rw [Row.holder, hself, hnone], Nat.one_pos⟩
    · rw [hother _ fun heq => hnew r hr (congrArg Prod.fst heq)]
      exact h.row r hr
  rw [forall_mem_cons] at hp
  rw [hother p fun heq => hp.1 heq.symm]
  exact h.none p hp.2

theorem Own.del (h : Own rows log) (hleft : ∀ r ∈ rows, r.key = k → r.stamp = t) :
    Own (del k rows) (.del (k, t) :: log) := by
  have hother : ∀ p, p ≠ (k, t) → held p (.del (k, t) :: log) = held p log := fun p hp => if_neg fun heq => hp heq.symm
  have hself : held (k, t) (.del (k, t) :: log) = held (k, t) log - 1 := if_pos rfl
  rw [holders.del]
  split
  next hfind =>
    have hnew := findIdx_key_none hfind
    have hnone : held (k, t) log = 0 := h.none _ fun r hr heq => hnew r hr (congrArg Prod.fst heq)
    have hsame : ∀ p, held p (.del (k, t) :: log) = held p log := by
      intro p
      by_cases hp : p = (k, t)
      · rw [hp, hself, hnone]
      · exact hother p hp
    exact ⟨h.nodup, fun r hr => by rw [hsame]; exact h.row r hr, fun p hp => by rw [hsame]; exact h.none p hp⟩
  rename_i i hfind
  obtain ⟨pre, r, post, rfl, rfl, hkey⟩ := findIdx_key hfind
  have hholder : r.holder = (k, t) := by
    rw [Row.holder, hkey, hleft r (mem_append_right _ mem_cons_self) hkey]
  have hfront : Own (r :: (pre ++ post)) log := h.perm perm_middle
  obtain ⟨hn, hpos⟩ := hfront.row r (.head _)
  have hat : (pre ++ r :: post)[pre.length]? = some r := by simp
  rw [hat, Option.any_some, modify_mid]
  rw [hholder] at hn
  split
  next hlast =>
    have hle := of_decide_eq_true hlast
    have hlt : pre.length < (pre ++ r :: post).length := by simp
    have herase : (pre ++ r :: post).eraseIdx pre.length = pre ++ post := by
      rw [eraseIdx_append_of_length_le le_rfl, Nat.sub_self, eraseIdx_cons_zero]
    refine Own.perm (hfront.remove ?_ ?_) (herase ▸ swap_remove_perm hlt).symm
    · rw [hholder, hself]
      omega
    · rw [hholder]
      exact hother
  rename_i hmore
  have hlt : 1 < r.n := Nat.not_le.1 fun hle => hmore (decide_eq_true hle)
  refine Own.perm (hfront.update (m := r.n - 1) (by omega) ?_ ?_) perm_middle.symm
  · rw [hholder, hself, hn]
  · rw [hholder]
    exact hother

theorem take_swap_remove {α : Type} {l : List α} (hi : i < l.length) : (swap_remove l i).take i = l.take i := by
  rcases eq_nil_or_concat l with rfl | ⟨l, a, rfl⟩
  · exact absurd hi (Nat.not_lt_zero _)
  rw [concat_eq_append] at hi ⊢
  rw [length_append, length_singleton] at hi
  rw [swap_remove, List.getLast?_concat]
  dsimp only
  rw [dropLast_eq_take, take_take, length_set, length_append, length_singleton,
    min_eq_left (by omega), take_set_of_le le_rfl]

omit [DecidableEq κ] in
theorem reclaim_perm (stamp : κ → τ) (rows : List (Row κ τ)) (j : Nat)
    (hj : ∀ r ∈ rows.take j, stamp r.key = r.stamp) :
    (reclaim stamp rows j).Perm (rows.filter fun r => stamp r.key = r.stamp) := by
  fun_induction holders.reclaim stamp rows j with
  | case1 rows j hlt hgone ih =>
    refine (ih fun r hr => hj r ?_).trans ?_
    · rwa [take_swap_remove hlt] at hr
    refine ((swap_remove_perm hlt).filter _).trans ?_
    have hsplit : rows = rows.take j ++ rows[j] :: rows.drop (j + 1) := by
      rw [← drop_eq_getElem_cons hlt, take_append_drop]
    rw [eraseIdx_eq_take_drop_succ]
    conv_rhs => rw [hsplit]
    rw [filter_append, filter_append, filter_cons_of_neg (by simpa using hgone)]
  | case2 rows j hlt halive ih =>
    refine ih fun r hr => ?_
    rw [take_succ_eq_append_getElem hlt, mem_append, mem_singleton] at hr
    rcases hr with hr | rfl
    · exact hj r hr
    · exact not_not.1 halive
  | case3 rows j hend =>
    rw [take_of_length_le (Nat.not_lt.1 hend)] at hj
    rw [filter_eq_self.2 fun r hr => decide_eq_true (hj r hr)]

theorem Own.reclaim (h : Own rows log) (stamp : κ → τ) :
    Own (reclaim stamp rows 0) (.gone (fun p => stamp p.1 ≠ p.2) :: log) := by
  refine Own.perm ?_ (reclaim_perm stamp rows 0 fun r hr => absurd hr (by simp)).symm
  have hheld : ∀ p, held p (.gone (fun p => stamp p.1 ≠ p.2) :: log) = if stamp p.1 ≠ p.2 then 0 else held p log := by
    intro p
    rw [held]
    simp only [decide_eq_true_eq]
  refine ⟨(h.nodup.sublist (filter_sublist.map Row.key)), fun r hr => ?_, fun p hp => ?_⟩
  · rw [mem_filter, decide_eq_true_iff] at hr
    have hlive : ¬(stamp r.holder.1 ≠ r.holder.2) := not_not.2 hr.2
    rw [hheld, if_neg hlive]
    exact h.row r hr.1
  rw [hheld]
  split
  · rfl
  rename_i hlive
  refine h.none p fun r hr hsame => hp r (mem_filter.2 ⟨hr, ?_⟩) hsame
  rw [← hsame] at hlive
  exact decide_eq_true (not_not.1 hlive)

def total (rows : List (Row κ τ)) : Nat := (rows.map Row.n).sum

omit [DecidableEq κ] [DecidableEq τ] in
theorem total_perm (h : rows.Perm rows') : total rows = total rows' := (h.map Row.n).sum_eq

omit [DecidableEq κ] [DecidableEq τ] in
theorem total_cons (r : Row κ τ) (rows : List (Row κ τ)) : total (r :: rows) = r.n + total rows := sum_cons

omit [DecidableEq τ] in
theorem total_add (hroom : rows.length < cap ∨ ∃ r ∈ rows, r.key = k) : total (add cap k t rows) = total rows + 1 := by
  rw [holders.add]
  split
  next i hfind =>
    obtain ⟨pre, r, post, rfl, rfl, -⟩ := findIdx_key hfind
    rw [modify_mid, total_perm perm_middle, total_cons, total_perm (perm_middle (a := r)), total_cons]
    dsimp only
    omega
  rename_i hfind
  have hnew := findIdx_key_none hfind
  rw [if_pos (hroom.resolve_right fun ⟨r, hr, hkey⟩ => hnew r hr hkey), total_perm (perm_append_singleton _ _),
    total_cons]
  exact Nat.add_comm ..

omit [DecidableEq τ] in
theorem total_del (hrow : ∃ r ∈ rows, r.key = k) (hpos : ∀ r ∈ rows, 0 < r.n) :
    total (del k rows) = total rows - 1 := by
  rw [holders.del]
  split
  next hfind =>
    obtain ⟨r, hr, hkey⟩ := hrow
    exact absurd hkey (findIdx_key_none hfind r hr)
  rename_i i hfind
  obtain ⟨pre, r, post, rfl, rfl, -⟩ := findIdx_key hfind
  have hn := hpos r (mem_append_right _ (.head _))
  have hat : (pre ++ r :: post)[pre.length]? = some r := by simp
  rw [hat, Option.any_some, modify_mid, total_perm (perm_middle (a := r)), total_cons]
  split
  next hlast =>
    have hle := of_decide_eq_true hlast
    have hlt : pre.length < (pre ++ r :: post).length := by simp
    have herase : (pre ++ r :: post).eraseIdx pre.length = pre ++ post := by
      rw [eraseIdx_append_of_length_le le_rfl, Nat.sub_self, eraseIdx_cons_zero]
    rw [total_perm (swap_remove_perm hlt), herase]
    omega
  rw [total_perm perm_middle, total_cons]
  dsimp only
  omega

omit [DecidableEq κ] in
theorem total_reclaim (stamp : κ → τ) (rows : List (Row κ τ)) :
    total (reclaim stamp rows 0) + total (rows.filter fun r => stamp r.key ≠ r.stamp) = total rows := by
  rw [total_perm (reclaim_perm stamp rows 0 fun r hr => absurd hr (by simp))]
  induction rows with
  | nil => rfl
  | cons r rows ih =>
    rw [total_cons]
    by_cases hlive : stamp r.key = r.stamp
    · rw [filter_cons_of_pos (by simpa using hlive), filter_cons_of_neg (by simpa using hlive), total_cons]
      omega
    · rw [filter_cons_of_neg (by simpa using hlive), filter_cons_of_pos (by simpa using hlive), total_cons]
      omega

end own

end holders
