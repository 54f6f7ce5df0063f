import Mathlib

namespace selection

open List

variable {β κ : Type*} [LinearOrder κ] (key : β → κ) (ok : β → Bool)

/-- Place `i` of the list holds the first of the entries with the least key, among
those that are eligible. -/
def Least (l : List β) (i : Nat) : Prop :=
  ∃ a, l[i]? = some a ∧ ok a = true ∧
    ∀ j b, l[j]? = some b → ok b = true → key a < key b ∨ key a = key b ∧ i ≤ j

/-- The eligible entries are taken out one by one, the least first. -/
inductive Drains : List β → List β → Prop where
  | nil {l : List β} (hnone : ∀ b ∈ l, ok b = false) : Drains l []
  | cons {l d : List β} {i : Nat} {a : β} (hleast : Least key ok l i) (hget : l[i]? = some a)
      (hrest : Drains (l.eraseIdx i) d) : Drains l (a :: d)

variable {key ok} {l d : List β} {i : Nat} {a : β}

theorem Least.ok_of_get (h : Least key ok l i) (hget : l[i]? = some a) : ok a = true := by
  obtain ⟨b, hb, hok, -⟩ := h
  rw [hget] at hb
  exact Option.some.inj hb ▸ hok

theorem Least.before (h : Least key ok l i) (hget : l[i]? = some a) {j : Nat} {b : β} (hb : l[j]? = some b)
    (hok : ok b = true) : key a < key b ∨ key a = key b ∧ i ≤ j := by
  obtain ⟨c, hc, -, hmin⟩ := h
  rw [hget] at hc
  exact Option.some.inj hc ▸ hmin j b hb hok

theorem Least.key_le (h : Least key ok l i) (hget : l[i]? = some a) {b : β} (hb : b ∈ l) (hok : ok b = true) :
    key a ≤ key b := by
  obtain ⟨j, hj⟩ := mem_iff_getElem?.1 hb
  rcases h.before hget hj hok with hlt | ⟨heq, -⟩
  · exact hlt.le
  · exact heq.le

theorem split_at (hget : l[i]? = some a) :
    l = l.take i ++ a :: l.drop (i + 1) ∧ l.eraseIdx i = l.take i ++ l.drop (i + 1) := by
  obtain ⟨hi, ha⟩ := List.getElem?_eq_some_iff.1 hget
  refine ⟨?_, eraseIdx_eq_take_drop_succ l i⟩
  rw [← ha, ← drop_eq_getElem_cons hi, take_append_drop]

theorem Drains.perm (h : Drains key ok l d) : d.Perm (l.filter ok) := by
  induction h with
  | @nil l hnone =>
    have hempty : l.filter ok = [] := filter_eq_nil_iff.2 fun b hb => by simp [hnone b hb]
    rw [hempty]
  | @cons l d i a hleast hget _ ih =>
    obtain ⟨hl, herase⟩ := split_at hget
    rw [herase, filter_append] at ih
    rw [hl, filter_append, filter_cons_of_pos (hleast.ok_of_get hget)]
    exact (ih.cons a).trans perm_middle.symm

theorem Drains.sorted (h : Drains key ok l d) : d.Pairwise fun a b => key a ≤ key b := by
  induction h with
  | nil => exact .nil
  | @cons l d i a hleast hget hrest ih =>
    refine List.Pairwise.cons (fun b hb => ?_) ih
    obtain ⟨hmem, hok⟩ := mem_filter.1 (hrest.perm.mem_iff.1 hb)
    exact hleast.key_le hget ((eraseIdx_sublist l i).mem hmem) hok

theorem Drains.stable (h : Drains key ok l d) (k : κ) :
    d.filter (fun b => key b = k) = (l.filter ok).filter fun b => key b = k := by
  induction h with
  | @nil l hnone =>
    have hempty : l.filter ok = [] := filter_eq_nil_iff.2 fun b hb => by simp [hnone b hb]
    rw [hempty]
  | @cons l d i a hleast hget _ ih =>
    obtain ⟨hl, herase⟩ := split_at hget
    rw [herase, filter_append, filter_append] at ih
    rw [hl, filter_append, filter_cons_of_pos (hleast.ok_of_get hget), filter_append]
    by_cases hk : key a = k
    · -- no entry before it has its key
      have hfirst : ((l.take i).filter ok).filter (fun b => key b = k) = [] := by
        refine filter_eq_nil_iff.2 fun b hb hbk => ?_
        obtain ⟨hmem, hok⟩ := mem_filter.1 hb
        obtain ⟨j, hj⟩ := mem_iff_getElem?.1 hmem
        rw [List.getElem?_take] at hj
        obtain ⟨hji, hj'⟩ := Option.ite_none_right_eq_some.1 hj
        have hkb : key b = k := by simpa using hbk
        rcases hleast.before hget hj' hok with hlt | ⟨-, hle⟩
        · exact absurd (hk.trans hkb.symm) hlt.ne
        · omega
      rw [hfirst, nil_append] at ih
      rw [hfirst, nil_append, filter_cons_of_pos (by simpa using hk),
        filter_cons_of_pos (by simpa using hk), ih]
    · rw [filter_cons_of_neg (by simpa using hk), filter_cons_of_neg (by simpa using hk), ih]

end selection
