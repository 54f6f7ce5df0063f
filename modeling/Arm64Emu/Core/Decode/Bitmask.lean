import Arm64Emu.Core.Decode.DataProc

namespace arm64emu

open BitVec

theorem replicate_elem_below (elem : u64) (esize fuel : Nat) {j i : Nat} (acc : u64) (hi : i < j) :
    (replicate_elem elem esize fuel j acc).getLsbD i = acc.getLsbD i := by
  induction fuel generalizing j acc with
  | zero => rfl
  | succ fuel ih =>
    unfold replicate_elem
    by_cases hj : j < 64
    · rw [if_pos hj, ih _ (by omega)]
      simp [getLsbD_shiftLeft, hi]
    · rw [if_neg hj]

theorem replicate_elem_getLsbD (elem : u64) {esize i : Nat} (hi : i < esize) :
    (replicate_elem elem esize 32 0 0#64).getLsbD i = elem.getLsbD i := by
  unfold replicate_elem
  rw [if_pos (by decide), replicate_elem_below _ _ _ _ (by omega)]
  simp

theorem rotate_elem_getLsbD {S r esize i : Nat} (hS : S < esize) (hr : r < esize) (hi : i < esize)
    (hsize : esize ≤ 64) :
    (rotate_elem (ones (S + 1) &&& ones esize) r esize (ones esize)).getLsbD i =
      decide ((i + r) % esize ≤ S) := by
  have hi64 : i < 64 := by omega
  have hle (j : Nat) (hj : j < 64) :
      (ones (S + 1) &&& ones esize).getLsbD j = decide (j ≤ S) := by
    rw [getLsbD_and, ones_getLsbD, ones_getLsbD]
    by_cases h : j ≤ S
    · have h1 : j < S + 1 := by omega
      have h2 : j < esize := by omega
      simp [h, h1, h2, hj]
    · have h1 : ¬ j < S + 1 := by omega
      simp [h, h1]
  unfold rotate_elem
  by_cases h0 : r = 0
  · subst h0
    rw [if_pos rfl, hle i hi64, Nat.add_zero, Nat.mod_eq_of_lt hi]
  rw [if_neg h0, getLsbD_and, getLsbD_or, getLsbD_ushiftRight,
    getLsbD_shiftLeft, ones_getLsbD]
  simp only [hi, hi64, decide_true, Bool.and_self, Bool.and_true, Bool.true_and]
  by_cases hsum : i + r < esize
  · have hlow : i < esize - r := by omega
    rw [hle (r + i) (by omega), Nat.mod_eq_of_lt hsum]
    simp [hlow, Nat.add_comm r i]
  have hhigh : ¬ i < esize - r := by omega
  have hmod : (i + r) % esize = i + r - esize := by
    rw [Nat.mod_eq_sub_mod (by omega), Nat.mod_eq_of_lt (by omega)]
  have hout : (ones (S + 1) &&& ones esize).getLsbD (r + i) = false := by
    by_cases h64 : r + i < 64
    · rw [hle _ h64]
      simp
      omega
    · exact getLsbD_of_ge _ _ (by omega)
  rw [hout, hle _ (by omega), hmod]
  have hsub : i - (esize - r) = i + r - esize := by omega
  simp [hhigh, hsub]

/-- The element size exponent of an immediate: at most 6, and 6 exactly when
`immN` is set. -/
theorem bitmask_len_le {immN imms len : Nat} (hN : immN < 2) (h : bitmask_len immN imms = some len) :
    1 ≤ len ∧ len ≤ 6 ∧ (len = 6 ↔ immN = 1) := by
  unfold bitmask_len msb_index at h
  simp only [Nat.mod_eq_of_lt hN] at h
  split at h
  · cases h
  rename_i hne
  split at h
  · cases h
  rename_i hlen
  simp only [Option.some.injEq] at h
  have hlt : immN * 64 + (63 - imms % 64) < 2 ^ 7 := by omega
  have hlog := (Nat.log2_lt hne).2 hlt
  refine ⟨by omega, by omega, ?_⟩
  constructor
  · intro h6
    have hge : 2 ^ 6 ≤ immN * 64 + (63 - imms % 64) := (Nat.le_log2 hne).1 (by omega)
    omega
  intro h1
  have hge : 6 ≤ (immN * 64 + (63 - imms % 64)).log2 := (Nat.le_log2 hne).2 (by omega)
  omega

theorem bitmask_len_full {imms : Nat} (sf : Bool) (hs : imms < if sf then 64 else 32) :
    bitmask_len sf.toNat imms = some (if sf then 6 else 5) := by
  unfold bitmask_len msb_index
  cases sf with
  | true =>
    simp only [if_true] at hs
    have hlog : (1 % 2 * 64 + (63 - imms % 64)).log2 = 6 :=
      (Nat.log2_eq_iff (by omega)).2 ⟨by omega, by omega⟩
    simp only [Bool.toNat_true, hlog]
    rw [if_neg (by omega), if_neg (by omega)]
    rfl
  | false =>
    simp only [Bool.false_eq_true, if_false] at hs
    have hlog : (0 % 2 * 64 + (63 - imms % 64)).log2 = 5 :=
      (Nat.log2_eq_iff (by omega)).2 ⟨by omega, by omega⟩
    simp only [Bool.toNat_false, hlog]
    rw [if_neg (by omega), if_neg (by omega)]
    rfl

def reg_width (sf : Bool) : Nat := if sf then 64 else 32

/-- The two masks of a bitfield move, bit by bit: the rotated run of the source
field, and the bits up to the field's length. -/
def FieldMasks (wmask tmask : u64) (imms immr : Nat) (sf : Bool) : Prop :=
  ∀ i, i < reg_width sf →
    wmask.getLsbD i = decide ((i + immr) % reg_width sf ≤ imms) ∧
    tmask.getLsbD i = decide (i ≤ (imms + reg_width sf - immr) % reg_width sf)

theorem decode_bitmasks_full {imms immr : Nat} (sf : Bool) (hs : imms < reg_width sf)
    (hr : immr < reg_width sf) :
    ∃ wmask tmask, decode_bitmasks sf.toNat imms immr sf = some (wmask, tmask) ∧
      FieldMasks wmask tmask imms immr sf := by
  have hw : 2 ^ (if sf then 6 else 5) = reg_width sf := by cases sf <;> rfl
  have hlow (v : u64) (i : Nat) (hi : i < reg_width sf) :
      (if sf then v else trunc32 v).getLsbD i = v.getLsbD i := by
    cases sf with
    | true => rfl
    | false => simp [trunc32_getLsbD, show i < 32 from hi]
  have hslow : decode_bitmasks sf.toNat imms immr sf =
      (decode_bitmasks_slow sf.toNat imms immr).map fun p =>
        (if sf then p.1 else trunc32 p.1, if sf then p.2 else trunc32 p.2) := by
    unfold decode_bitmasks
    cases decode_bitmasks_slow sf.toNat imms immr with
    | none => rfl
    | some p => cases sf <;> rfl
  rw [hslow]
  unfold decode_bitmasks_slow
  rw [bitmask_len_full sf hs]
  simp only [hw, Nat.mod_eq_of_lt hs, Nat.mod_eq_of_lt hr, Option.map_some]
  refine ⟨_, _, rfl, fun i hi => ⟨?_, ?_⟩⟩
  · rw [hlow _ i hi, replicate_elem_getLsbD _ hi]
    exact rotate_elem_getLsbD hs hr hi (by cases sf <;> decide)
  rw [hlow _ i hi, replicate_elem_getLsbD _ hi, getLsbD_and, ones_getLsbD, ones_getLsbD]
  have hi64 : i < 64 := by
    have : reg_width sf ≤ 64 := by cases sf <;> decide
    omega
  simp only [hi, hi64, decide_true, Bool.and_true, Nat.lt_succ_iff]

theorem ror_within_getLsbD {v : u64} {r i : Nat} (sf : Bool) (hr : r < reg_width sf) (hi : i < reg_width sf) :
    (ror_within v r (reg_width sf)).getLsbD i = v.getLsbD ((i + r) % reg_width sf) := by
  cases sf with
  | true =>
    change i < 64 at hi
    change r < 64 at hr
    change (ror64 v r).getLsbD i = v.getLsbD ((i + r) % 64)
    rw [ror64_getLsbD v r i hr hi]
    by_cases h : i + r < 64
    · rw [if_pos h, Nat.mod_eq_of_lt h]
    · rw [if_neg h, Nat.mod_eq_sub_mod (by omega), Nat.mod_eq_of_lt (by omega)]
  | false =>
    change i < 32 at hi
    change r < 32 at hr
    change (ror_within v r 32).getLsbD i = v.getLsbD ((i + r) % 32)
    unfold ror_within
    rw [if_neg (by decide), Nat.mod_eq_of_lt hr]
    by_cases h0 : r = 0
    · subst h0
      simp [trunc32_getLsbD, hi, Nat.mod_eq_of_lt hi]
    simp only [h0, if_false, trunc32_getLsbD, getLsbD_or, getLsbD_ushiftRight,
      getLsbD_shiftLeft, hi, decide_true, Bool.true_and]
    by_cases h : i + r < 32
    · have hlow : i < 32 - r := by omega
      simp [hlow, h, Nat.mod_eq_of_lt h, Nat.add_comm r i]
    have hhigh : ¬ i < 32 - r := by omega
    have hmod : (i + r) % 32 = i - (32 - r) := by
      rw [Nat.mod_eq_sub_mod (by omega), Nat.mod_eq_of_lt (by omega)]
      omega
    have hout : ¬ r + i < 32 := by omega
    have hsub : i - (32 - r) < 32 := by omega
    simp [hhigh, hout, hmod, hsub, show i < 64 by omega]

end arm64emu
