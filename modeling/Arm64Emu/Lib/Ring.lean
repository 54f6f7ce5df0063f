import Mathlib.Data.List.Basic
import Mathlib.Logic.Function.Basic

namespace ring

open List

open Function

section indices

def next (cap t : Nat) : Nat := if t + 1 = cap then 0 else t + 1

def prev (cap t : Nat) : Nat := if t = 0 then cap - 1 else t - 1

def used (cap head tail : Nat) : Nat := if tail ≤ head then head - tail else head + cap - tail

def slot (cap tail i : Nat) : Nat := if tail + i < cap then tail + i else tail + i - cap

variable {cap head tail i j : Nat}

theorem next_lt (h : tail < cap) : next cap tail < cap := by
  unfold next
  split <;> omega

theorem used_lt (hhead : head < cap) (htail : tail < cap) : used cap head tail < cap := by
  unfold used
  split <;> omega

theorem used_eq_zero_iff (htail : tail < cap) : used cap head tail = 0 ↔ tail = head := by
  unfold used
  split <;> omega

theorem slot_zero (htail : tail < cap) : slot cap tail 0 = tail := if_pos htail

theorem slot_used (hhead : head < cap) (htail : tail < cap) : slot cap tail (used cap head tail) = head := by
  unfold slot used
  split <;> split <;> omega

theorem used_slot (hi : i < cap) : used cap (slot cap tail i) tail = i := by
  unfold slot used
  split <;> split <;> omega

theorem next_slot (htail : tail < cap) (hi : i < cap) : next cap (slot cap tail i) = slot cap tail (i + 1) := by
  unfold next slot
  split <;> split <;> split <;> omega

theorem prev_slot (htail : tail < cap) (hi : i + 1 < cap) : prev cap (slot cap tail (i + 1)) = slot cap tail i := by
  unfold prev slot
  split <;> split <;> split <;> omega

theorem slot_next (hi : i + 1 < cap) : slot cap (next cap tail) i = slot cap tail (i + 1) := by
  unfold next slot
  split <;> split <;> split <;> omega

theorem slot_inj (hi : i < cap) (hj : j < cap) (h : slot cap tail i = slot cap tail j) : i = j := by
  unfold slot at h
  split at h <;> split at h <;> omega

theorem used_push (htail : tail < cap) (hfull : next cap head ≠ tail) :
    used cap (next cap head) tail = used cap head tail + 1 := by
  by_cases hwrap : head + 1 = cap
  · rw [next, if_pos hwrap] at hfull ⊢
    unfold used
    split <;> split <;> omega
  rw [next, if_neg hwrap] at hfull ⊢
  unfold used
  split <;> split <;> omega

theorem used_push_lt (hhead : head < cap) (htail : tail < cap) (hfull : next cap head ≠ tail) :
    used cap head tail + 1 < cap := by
  rw [← used_push htail hfull]
  exact used_lt (next_lt hhead) htail

theorem used_advance (hhead : head < cap) (htail : tail < cap) (hne : tail ≠ head) :
    used cap head (next cap tail) + 1 = used cap head tail := by
  unfold used next
  split <;> split <;> split <;> omega

end indices

section contents

variable {α : Type*}

def contents (slots : Nat → α) (cap head tail : Nat) : List α :=
  (List.range (used cap head tail)).map fun i => slots (slot cap tail i)

variable {slots : Nat → α} {cap head tail i : Nat}

@[simp]
theorem length_contents : (contents slots cap head tail).length = used cap head tail := by simp [contents]

theorem getElem?_contents (h : i < used cap head tail) :
    (contents slots cap head tail)[i]? = some (slots (slot cap tail i)) := by
  simp [contents, h]

theorem contents_eq_nil_iff (htail : tail < cap) : contents slots cap head tail = [] ↔ tail = head := by
  rw [← length_eq_zero_iff, length_contents, used_eq_zero_iff htail]

theorem contents_congr {slots' : Nat → α} {cap' head' tail' : Nat}
    (hused : used cap' head' tail' = used cap head tail)
    (hslots : ∀ i < used cap head tail, slots' (slot cap' tail' i) = slots (slot cap tail i)) :
    contents slots' cap' head' tail' = contents slots cap head tail := by
  unfold contents
  rw [hused]
  exact map_congr_left fun i hi => hslots i (mem_range.1 hi)

theorem contents_push (hhead : head < cap) (htail : tail < cap) (hfull : next cap head ≠ tail) (a : α) :
    contents (update slots head a) cap (next cap head) tail = contents slots cap head tail ++ [a] := by
  have hlt := used_push_lt hhead htail hfull
  unfold contents
  rw [used_push htail hfull, range_succ, map_append, map_singleton,
    slot_used hhead htail, update_self]
  congr 1
  refine map_congr_left fun i hi => update_of_ne (fun heq => ?_) _ _
  have hi' := mem_range.1 hi
  -- the head's own offset is the number of entries
  rw [← slot_used hhead htail] at heq
  have := slot_inj (by omega) (by omega) heq
  omega

theorem contents_advance (hhead : head < cap) (htail : tail < cap) (hne : tail ≠ head) :
    contents slots cap head (next cap tail) = (contents slots cap head tail).tail := by
  have hused := used_advance hhead htail hne
  have hlt := used_lt hhead htail
  unfold contents
  rw [← hused, range_succ_eq_map, map_cons, tail_cons, map_map]
  refine map_congr_left fun i hi => ?_
  have hi' := mem_range.1 hi
  show slots (slot cap (next cap tail) i) = slots (slot cap tail (i + 1))
  rw [slot_next (by omega)]

theorem contents_shift (hhead : head < cap) (htail : tail < cap) (hi : i + 1 < used cap head tail) :
    contents (update slots (slot cap tail (i + 1)) (slots (slot cap tail i))) cap head tail =
      (contents slots cap head tail).set (i + 1) (slots (slot cap tail i)) := by
  have hlt := used_lt hhead htail
  refine ext_getElem? fun k => ?_
  by_cases hk : k < used cap head tail
  · rw [getElem?_contents hk, List.getElem?_set, length_contents, getElem?_contents hk]
    by_cases hki : i + 1 = k
    · subst hki
      simp [hk]
    · rw [if_neg hki, update_of_ne]
      exact fun heq => hki (slot_inj (by omega) (by omega) heq).symm
  · rw [List.getElem?_eq_none (by simpa using hk), List.getElem?_eq_none (by simpa using hk)]

theorem eraseIdx_set_succ {l : List α} {a : α} (h : l[i]? = some a) (hi : i + 1 < l.length) :
    (l.set (i + 1) a).eraseIdx i = l.eraseIdx (i + 1) := by
  refine ext_getElem? fun k => ?_
  rw [List.getElem?_eraseIdx, List.getElem?_eraseIdx]
  rcases Nat.lt_trichotomy k i with hk | rfl | hk
  · rw [if_pos hk, if_pos (Nat.lt_succ_of_lt hk), List.getElem?_set_ne (by omega)]
  · rw [if_neg (Nat.lt_irrefl _), if_pos (Nat.lt_succ_self _), List.getElem?_set_self hi, h]
  · rw [if_neg (by omega), if_neg (by omega), List.getElem?_set_ne (by omega)]

end contents

end ring
