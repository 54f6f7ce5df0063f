import Mathlib

namespace slots

open Function Option Bool

section table

variable {α : Type*}

/-- A table of `cap` slots, each used or free, as a function of the index. -/
abbrev Table (α : Type*) := Nat → Option α

def find (cap : Nat) (tab : Table α) (p : α → Bool) : Option Nat :=
  (List.range cap).find? fun i => (tab i).any p

def free (cap : Nat) (tab : Table α) : Option Nat := (List.range cap).find? fun i => (tab i).isNone

variable {cap i j : Nat} {tab : Table α} {p : α → Bool} {a : α}

theorem find_some (h : find cap tab p = some i) : i < cap ∧ ∃ a, tab i = some a ∧ p a = true := by
  have hp := List.find?_some h
  refine ⟨List.mem_range.1 (List.mem_of_find?_eq_some h), ?_⟩
  rwa [any_eq_true] at hp

theorem find_none (h : find cap tab p = none) (hi : i < cap) (ha : tab i = some a) : p a = false := by
  have hnone := List.find?_eq_none.1 h i (List.mem_range.2 hi)
  rw [ha, any_some] at hnone
  exact eq_false_iff.2 hnone

theorem find_isSome (hi : i < cap) (ha : tab i = some a) (hp : p a = true) : ∃ j, find cap tab p = some j := by
  cases h : find cap tab p with
  | some j => exact ⟨j, rfl⟩
  | none => exact absurd hp (eq_false_iff.1 (find_none h hi ha))

theorem free_some (h : free cap tab = some i) : i < cap ∧ tab i = none := by
  have hfree : (tab i).isNone = true := List.find?_some (p := fun i => (tab i).isNone) h
  exact ⟨List.mem_range.1 (List.mem_of_find?_eq_some h), isNone_iff_eq_none.1 hfree⟩

theorem find_unique (hone : ∀ i j a b, tab i = some a → tab j = some b → p a = true → p b = true → i = j)
    (hi : i < cap) (ha : tab i = some a) (hp : p a = true) : find cap tab p = some i := by
  obtain ⟨j, hj⟩ := find_isSome hi ha hp
  obtain ⟨-, b, hb, hpb⟩ := find_some hj
  rw [hj, hone j i b a hb ha hpb hp]

theorem update_some {o : Option α} (h : update tab i o j = some a) :
    (j = i ∧ o = some a) ∨ (j ≠ i ∧ tab j = some a) := by
  by_cases hj : j = i
  · subst hj
    rw [update_self] at h
    exact .inl ⟨rfl, h⟩
  · rw [update_of_ne hj] at h
    exact .inr ⟨hj, h⟩

theorem update_none_some (h : update tab i none j = some a) : j ≠ i ∧ tab j = some a :=
  (update_some h).resolve_left fun hnone => nomatch hnone.2

theorem forall_update_some {P : Nat → α → Prop} (hnew : P i a) (hold : ∀ j b, tab j = some b → P j b) (j : Nat) (b : α)
    (h : update tab i (some a) j = some b) : P j b := by
  rcases update_some h with ⟨rfl, hself⟩ | ⟨-, h⟩
  · cases hself
    exact hnew
  · exact hold j b h

theorem update_some_unique {R : α → α → Prop} (hsymm : ∀ b c, R b c → R c b)
    (hold : ∀ j k b c, tab j = some b → tab k = some c → R b c → j = k) (hnew : ∀ j b, tab j = some b → ¬R b a)
    (j k : Nat) (b c : α) (hb : update tab i (some a) j = some b)
    (hc : update tab i (some a) k = some c) (h : R b c) : j = k := by
  rcases update_some hb with ⟨rfl, hself⟩ | ⟨-, hjb⟩ <;> rcases update_some hc with ⟨rfl, hself'⟩ | ⟨-, hkc⟩
  · rfl
  · cases hself
    exact absurd (hsymm _ _ h) (hnew k c hkc)
  · cases hself'
    exact absurd h (hnew j b hjb)
  · exact hold j k b c hjb hkc h

theorem ne_of_free (hi : tab i = none) (hj : tab j = some a) : j ≠ i := by
  rintro rfl
  rw [hi] at hj
  cases hj

/-- If one value of a function at most has a property, it stays so where a value
that has it is only written when no other does. -/
theorem update_unique {ι β : Type*} [DecidableEq ι] {f : ι → β} {P : β → Prop} {x y z : ι} {b : β}
    (hold : ∀ y z, P (f y) → P (f z) → y = z) (hnew : P b → ∀ y, y ≠ x → ¬P (f y))
    (hy : P (update f x b y)) (hz : P (update f x b z)) : y = z := by
  by_cases hyx : y = x <;> by_cases hzx : z = x
  · rw [hyx, hzx]
  · rw [hyx, update_self] at hy
    rw [update_of_ne hzx] at hz
    exact absurd hz (hnew hy z hzx)
  · rw [hzx, update_self] at hz
    rw [update_of_ne hyx] at hy
    exact absurd hy (hnew hz y hyx)
  rw [update_of_ne hyx] at hy
  rw [update_of_ne hzx] at hz
  exact hold y z hy hz

def better (tab : Table α) (p : α → Bool) (key : α → Nat) (best : Option (Nat × α)) (i : Nat) : Option (Nat × α) :=
  match tab i with
  | none => best
  | some a => if p a && best.all (fun b => key a < key b.2) then some (i, a) else best

def least (cap : Nat) (tab : Table α) (p : α → Bool) (key : α → Nat) : Option (Nat × α) :=
  (List.range cap).foldl (better tab p key) none

variable {key : α → Nat} {best : Option (Nat × α)}

theorem better_cases (tab : Table α) (p : α → Bool) (key : α → Nat) (best : Option (Nat × α)) (i : Nat) :
    (better tab p key best i = best ∧
        ∀ a, tab i = some a → p a = true → ∃ b, best = some b ∧ key b.2 ≤ key a) ∨
      ∃ a, tab i = some a ∧ p a = true ∧ better tab p key best i = some (i, a) ∧
        ∀ b, best = some b → key a < key b.2 := by
  unfold better
  cases hi : tab i with
  | none => exact .inl ⟨rfl, fun a ha => by cases ha⟩
  | some a =>
    by_cases hp : p a = true
    · by_cases hbest : best.all (fun b => key a < key b.2) = true
      · refine .inr ⟨a, rfl, hp, by simp only [hp, hbest, Bool.and_self, if_true], fun b hb => ?_⟩
        subst hb
        exact of_decide_eq_true hbest
      refine .inl ⟨by simp only [hp, hbest, Bool.and_false, Bool.false_eq_true, if_false], fun a' ha' hp' => ?_⟩
      cases ha'
      cases best with
      | none => exact absurd rfl hbest
      | some b =>
        rw [all_some, decide_eq_true_iff, not_lt] at hbest
        exact ⟨b, rfl, hbest⟩
    refine .inl ⟨by simp only [hp, Bool.false_and, Bool.false_eq_true, if_false], fun a' ha' hp' => ?_⟩
    cases ha'
    exact absurd hp' hp

theorem least_none (h : least cap tab p key = none) (hj : j < cap) (ha : tab j = some a) : p a = false := by
  unfold least at h
  induction cap with
  | zero => exact absurd hj (Nat.not_lt_zero j)
  | succ cap ih =>
    rw [List.range_succ, List.foldl_append, List.foldl_cons, List.foldl_nil] at h
    rcases better_cases tab p key ((List.range cap).foldl (better tab p key) none) cap with
      ⟨heq, hlast⟩ | ⟨a', -, -, heq, -⟩
    · rw [heq] at h
      by_cases hjc : j = cap
      · subst hjc
        refine eq_false_iff.2 fun hp => ?_
        obtain ⟨b, hb, -⟩ := hlast a ha hp
        rw [h] at hb
        cases hb
      · exact ih h (by omega)
    · rw [heq] at h
      cases h

theorem least_some (h : least cap tab p key = some (i, a)) : i < cap ∧ tab i = some a ∧ p a = true ∧
    ∀ j b, j < cap → tab j = some b → p b = true → key a ≤ key b := by
  unfold least at h
  induction cap generalizing i a with
  | zero => cases h
  | succ cap ih =>
    rw [List.range_succ, List.foldl_append, List.foldl_cons, List.foldl_nil] at h
    rcases better_cases tab p key ((List.range cap).foldl (better tab p key) none) cap with
      ⟨heq, hlast⟩ | ⟨a', ha', hp', heq, hlast⟩
    · rw [heq] at h
      obtain ⟨hlt, hi, hp, hmin⟩ := ih h
      refine ⟨by omega, hi, hp, fun j b hj hb hpb => ?_⟩
      by_cases hjc : j = cap
      · subst hjc
        obtain ⟨b', hb', hle⟩ := hlast b hb hpb
        rw [h, some.injEq] at hb'
        subst hb'
        exact hle
      · exact hmin j b (by omega) hb hpb
    rw [heq, some.injEq, Prod.mk.injEq] at h
    obtain ⟨rfl, rfl⟩ := h
    refine ⟨by omega, ha', hp', fun j b hj hb hpb => ?_⟩
    by_cases hjc : j = cap
    · subst hjc
      rw [ha', some.injEq] at hb
      rw [hb]
    cases hbest : (List.range cap).foldl (better tab p key) none with
    | none => exact absurd hpb (eq_false_iff.1 (least_none hbest (by omega) hb))
    | some b' =>
      obtain ⟨-, -, -, hmin⟩ := ih (i := b'.1) (a := b'.2) hbest
      exact (hlast b' hbest).le.trans (hmin j b (by omega) hb hpb)

def count (cap : Nat) (tab : Table α) (p : α → Bool) : Nat :=
  ((Finset.range cap).filter fun i => (tab i).any p = true).card

theorem count_le_cap (cap : Nat) (tab : Table α) (p : α → Bool) : count cap tab p ≤ cap := by
  unfold count
  exact (Finset.card_filter_le _ _).trans_eq (Finset.card_range cap)

theorem count_le {tab' : Table α} {p' : α → Bool}
    (hsub : ∀ i b, tab' i = some b → p' b = true → (tab i).any p = true) : count cap tab' p' ≤ count cap tab p := by
  refine Finset.card_le_card fun i hi => ?_
  rw [Finset.mem_filter, any_eq_true] at hi
  obtain ⟨hi, b, hb, hp⟩ := hi
  exact Finset.mem_filter.2 ⟨hi, hsub i b hb hp⟩

theorem count_zero (h : count cap tab p = 0) (hi : i < cap) (ha : tab i = some a) : p a = false := by
  refine eq_false_iff.2 fun hp => ?_
  have hempty := Finset.card_eq_zero.1 h
  have hmem : i ∈ (Finset.range cap).filter fun i => (tab i).any p = true := by
    rw [Finset.mem_filter, Finset.mem_range, ha, any_some]
    exact ⟨hi, hp⟩
  rw [hempty] at hmem
  exact absurd hmem (Finset.notMem_empty i)

theorem count_lt {tab' : Table α} {p' : α → Bool} (hsub : ∀ i b, tab' i = some b → p' b = true → (tab i).any p = true)
    (hj : j < cap) (hin : (tab j).any p = true) (hout : (tab' j).any p' = false) :
    count cap tab' p' < count cap tab p := by
  refine Finset.card_lt_card ⟨fun i hi => ?_, fun hle => ?_⟩
  · rw [Finset.mem_filter, any_eq_true] at hi
    obtain ⟨hi, b, hb, hp⟩ := hi
    exact Finset.mem_filter.2 ⟨hi, hsub i b hb hp⟩
  have hmem := hle (Finset.mem_filter.2 ⟨Finset.mem_range.2 hj, hin⟩)
  rw [Finset.mem_filter, hout] at hmem
  cases hmem.2

end table

end slots
