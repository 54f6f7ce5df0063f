import Mathlib

/-- What was put into a queue and what was taken out: the entries are those put in and not taken, under the numbers
they were put in with, in order. -/
structure Ledger (β : Type*) where
  pushed : List β
  taken : List Nat
  queue : List (Nat × β)
  ordered : queue.Pairwise fun a b => a.1 < b.1
  exact : ∀ k b, (k, b) ∈ queue ↔ pushed[k]? = some b ∧ k ∉ taken
  taken_lt : ∀ k ∈ taken, k < pushed.length

namespace Ledger

variable {β : Type*} (l : Ledger β)

def entries : List β := l.queue.map Prod.snd

def empty : Ledger β where
  pushed := []
  taken := []
  queue := []
  ordered := .nil
  exact := by simp
  taken_lt := by simp

variable {l}

theorem lt_of_mem {k : Nat} {b : β} (h : (k, b) ∈ l.queue) : k < l.pushed.length :=
  (List.getElem?_eq_some_iff.1 ((l.exact k b).1 h).1).1

variable (l)

def push (b : β) : Ledger β where
  pushed := l.pushed ++ [b]
  taken := l.taken
  queue := l.queue ++ [(l.pushed.length, b)]
  ordered := by
    refine List.pairwise_append.2 ⟨l.ordered, List.pairwise_singleton _ _, fun x hx y hy => ?_⟩
    rw [List.mem_singleton.1 hy]
    exact lt_of_mem hx
  exact k c := by
    rw [List.mem_append, l.exact, List.mem_singleton, Prod.mk.injEq]
    rcases Nat.lt_trichotomy k l.pushed.length with hk | rfl | hk
    · rw [List.getElem?_append_left hk]
      simp [Nat.ne_of_lt hk]
    · have hnew : l.pushed.length ∉ l.taken := fun h => Nat.lt_irrefl _ (l.taken_lt _ h)
      simp [hnew, eq_comm]
    · rw [List.getElem?_eq_none (Nat.le_of_lt hk), List.getElem?_eq_none (by simp; omega)]
      simp [Nat.ne_of_gt hk]
  taken_lt k hk := by
    have := l.taken_lt k hk
    simp
    omega

def take (i : Nat) : Ledger β where
  pushed := l.pushed
  taken := (l.queue[i]?).toList.map Prod.fst ++ l.taken
  queue := l.queue.eraseIdx i
  ordered := l.ordered.sublist (List.eraseIdx_sublist _ _)
  exact k b := by
    have hnodup : (l.queue.map Prod.fst).Nodup :=
      List.nodup_iff_pairwise_ne.2 ((List.pairwise_map.2 l.ordered).imp Nat.ne_of_lt)
    rw [List.mem_eraseIdx_iff_getElem?, List.mem_append]
    cases hi : l.queue[i]? with
    | none =>
      have hle := List.getElem?_eq_none_iff.1 hi
      simp only [Option.toList_none, List.map_nil, List.not_mem_nil, false_or]
      rw [← l.exact, List.mem_iff_getElem?]
      refine exists_congr fun j => ⟨And.right, fun hj => ⟨?_, hj⟩⟩
      have := (List.getElem?_eq_some_iff.1 hj).1
      omega
    | some x =>
      simp only [Option.toList_some, List.map_cons, List.map_nil, List.mem_singleton]
      rw [not_or, and_left_comm, ← l.exact, List.mem_iff_getElem?]
      constructor
      · rintro ⟨j, hji, hj⟩
        refine ⟨fun hk => hji ?_, j, hj⟩
        -- two places with the same number are one place
        have hj' : (l.queue.map Prod.fst)[j]? = some k := by simp [hj]
        have hi' : (l.queue.map Prod.fst)[i]? = some k := by simp [hi, hk]
        exact (List.getElem?_inj (List.getElem?_eq_some_iff.1 hj').1 hnodup).1 (hj'.trans hi'.symm)
      rintro ⟨hk, j, hj⟩
      refine ⟨j, fun hji => hk ?_, hj⟩
      rw [hji, hi] at hj
      exact (congrArg Prod.fst (Option.some.inj hj)).symm
  taken_lt k hk := by
    rcases List.mem_append.1 hk with hk | hk
    · obtain ⟨x, hx, rfl⟩ := List.mem_map.1 hk
      exact lt_of_mem (b := x.2) (List.mem_of_getElem? (Option.mem_toList.1 hx))
    · exact l.taken_lt k hk

def clear : Ledger β where
  pushed := l.pushed
  taken := l.queue.map Prod.fst ++ l.taken
  queue := []
  ordered := .nil
  exact k b := by
    simp only [List.not_mem_nil, false_iff, not_and, not_not, List.mem_append]
    intro hk
    by_cases htaken : k ∈ l.taken
    · exact .inr htaken
    · exact .inl (List.mem_map.2 ⟨(k, b), (l.exact k b).2 ⟨hk, htaken⟩, rfl⟩)
  taken_lt k hk := by
    rcases List.mem_append.1 hk with hk | hk
    · obtain ⟨x, hx, rfl⟩ := List.mem_map.1 hk
      exact lt_of_mem (b := x.2) hx
    · exact l.taken_lt k hk

@[simp]
theorem entries_push (b : β) : (l.push b).entries = l.entries ++ [b] := by simp [entries, push]

@[simp]
theorem entries_take (i : Nat) : (l.take i).entries = l.entries.eraseIdx i := by
  simp [entries, take, List.eraseIdx_map]

@[simp]
theorem entries_clear : l.clear.entries = [] := rfl

end Ledger
