import Mathlib
import Arm64Emu.Lib.Slots

namespace keytab

open Function Option

variable {κ : Type}

/-- A table of `cap` slots, each free or under a key, holds the keys `ks`, each in one
slot. -/
structure Holds (cap : Nat) (key : Nat → Option κ) (ks : List κ) : Prop where
  nodup : ks.Nodup
  mem_iff : ∀ k, k ∈ ks ↔ ∃ i < cap, key i = some k
  slot_unique : ∀ i < cap, ∀ j < cap, ∀ k, key i = some k → key j = some k → i = j

variable {cap i : Nat} {key : Nat → Option κ} {ks : List κ} {k : κ}

theorem holds_empty : Holds cap (fun _ => none : Nat → Option κ) [] :=
  ⟨List.nodup_nil, fun k => by simp, fun i _ j _ k h => by cases h⟩

theorem Holds.not_mem (h : Holds cap key ks) : k ∉ ks ↔ ∀ i < cap, key i ≠ some k := by
  rw [h.mem_iff]
  simp only [not_exists, not_and, ne_eq]

theorem Holds.insert (h : Holds cap key ks) (hi : i < cap) (hfree : key i = none) (hk : k ∉ ks) :
    Holds cap (update key i (some k)) (k :: ks) := by
  refine ⟨List.nodup_cons.2 ⟨hk, h.nodup⟩, fun k' => ?_, fun j hj j' hj' k' hkj hkj' => ?_⟩
  · rw [List.mem_cons, h.mem_iff]
    constructor
    · rintro (rfl | ⟨j, hj, hkj⟩)
      · exact ⟨i, hi, update_self ..⟩
      · exact ⟨j, hj, (update_of_ne (slots.ne_of_free hfree hkj) ..).trans hkj⟩
    rintro ⟨j, hj, hkj⟩
    rcases slots.update_some hkj with ⟨-, hself⟩ | ⟨-, hkj⟩
    · exact Or.inl (some.inj hself).symm
    · exact Or.inr ⟨j, hj, hkj⟩
  -- a slot with the key is the new one, since no old slot has it
  rcases slots.update_some hkj with ⟨rfl, hself⟩ | ⟨-, hat⟩ <;>
    rcases slots.update_some hkj' with ⟨rfl, hself'⟩ | ⟨-, hat'⟩
  · rfl
  · exact absurd ((h.mem_iff k').2 ⟨j', hj', hat'⟩) (some.inj hself ▸ hk)
  · exact absurd ((h.mem_iff k').2 ⟨j, hj, hat⟩) (some.inj hself' ▸ hk)
  · exact h.slot_unique j hj j' hj' k' hat hat'

theorem Holds.erase [BEq κ] [LawfulBEq κ] (h : Holds cap key ks) (hi : i < cap) (hki : key i = some k) :
    Holds cap (update key i none) (ks.erase k) := by
  have hat (j : Nat) (k' : κ) (hj : update key i none j = some k') : j ≠ i ∧ key j = some k' :=
    slots.update_none_some hj
  refine ⟨h.nodup.erase k, fun k' => ?_, fun j hj j' hj' k' hkj hkj' => ?_⟩
  · rw [h.nodup.mem_erase_iff, h.mem_iff]
    constructor
    · rintro ⟨hne, j, hj, hkj⟩
      refine ⟨j, hj, ?_⟩
      rwa [update_of_ne]
      rintro rfl
      exact hne (some.inj (hkj.symm.trans hki))
    rintro ⟨j, hj, hkj⟩
    obtain ⟨hji, hkj⟩ := hat j k' hkj
    refine ⟨?_, j, hj, hkj⟩
    rintro rfl
    exact hji (h.slot_unique j hj i hi k' hkj hki)
  · exact h.slot_unique j hj j' hj' k' (hat j k' hkj).2 (hat j' k' hkj').2

variable [DecidableEq κ]

theorem Holds.length_eq (h : Holds cap key ks) :
    ks.length = ((Finset.range cap).filter fun i => (key i).isSome = true).card := by
  have hinj : Set.InjOn key ((Finset.range cap).filter fun i => (key i).isSome = true) := by
    intro i hi j hj hij
    rw [Finset.mem_coe, Finset.mem_filter, Finset.mem_range] at hi hj
    obtain ⟨k, hk⟩ := isSome_iff_exists.1 hi.2
    exact h.slot_unique i hi.1 j hj.1 k hk (hij.symm.trans hk)
  have himage : ((Finset.range cap).filter fun i => (key i).isSome = true).image key = ks.toFinset.image some := by
    ext o
    simp only [Finset.mem_image, Finset.mem_filter, Finset.mem_range, List.mem_toFinset, h.mem_iff]
    constructor
    · rintro ⟨i, ⟨hi, hsome⟩, rfl⟩
      obtain ⟨k, hk⟩ := isSome_iff_exists.1 hsome
      exact ⟨k, ⟨i, hi, hk⟩, hk.symm⟩
    · rintro ⟨k, ⟨i, hi, hk⟩, rfl⟩
      exact ⟨i, ⟨hi, by rw [hk]; rfl⟩, hk⟩
  rw [← Finset.card_image_of_injOn hinj, himage, Finset.card_image_of_injective _ (some_injective κ),
    List.toFinset_card_of_nodup h.nodup]

theorem Holds.full_iff (h : Holds cap key ks) : ks.length = cap ↔ ∀ i < cap, key i ≠ none := by
  rw [h.length_eq]
  constructor
  · intro hcard i hi hnone
    have hall := Finset.eq_of_subset_of_card_le (Finset.filter_subset _ (Finset.range cap))
      (by rw [hcard, Finset.card_range])
    have hmem : i ∈ (Finset.range cap).filter fun i => (key i).isSome = true := by
      rw [hall]
      exact Finset.mem_range.2 hi
    rw [Finset.mem_filter, hnone] at hmem
    exact Bool.false_ne_true hmem.2
  intro hall
  rw [Finset.filter_true_of_mem, Finset.card_range]
  intro i hi
  exact isSome_iff_ne_none.2 (hall i (Finset.mem_range.1 hi))

theorem Holds.length_le (h : Holds cap key ks) : ks.length ≤ cap := by
  rw [h.length_eq]
  exact (Finset.card_filter_le _ _).trans (Finset.card_range cap).le

end keytab
