import Mathlib
import Arm64Emu.Core.Errno
import Arm64Emu.Mem.Translate

namespace arm64emu

open Function

def PTE_R : u8 := 1#8

def PTE_W : u8 := 2#8

def PTE_X : u8 := 4#8

def GUEST_PAGE_MASK : u64 := 4095#64

def PG_DOWN (x : u64) : u64 := x &&& ~~~GUEST_PAGE_MASK

def PG_UP (x : u64) : u64 := (x + GUEST_PAGE_MASK) &&& ~~~GUEST_PAGE_MASK

theorem and_not_page_mask (x : u64) : x &&& ~~~GUEST_PAGE_MASK = (x >>> 12) <<< 12 := by
  have hmask : ∀ i, (4095#64).getLsbD i = decide (i < 12) := by
    intro i
    rw [BitVec.getLsbD_ofNat, show 4095 = 2 ^ 12 - 1 by rfl, Nat.testBit_two_pow_sub_one, ← Bool.decide_and]
    exact decide_eq_decide.2 ⟨And.right, fun h => ⟨by omega, h⟩⟩
  ext i hi
  rw [← BitVec.getLsbD_eq_getElem, ← BitVec.getLsbD_eq_getElem, BitVec.getLsbD_and, BitVec.getLsbD_not,
    GUEST_PAGE_MASK, hmask, BitVec.getLsbD_shiftLeft, BitVec.getLsbD_ushiftRight, decide_eq_true hi]
  by_cases hlow : i < 12
  · simp [hlow]
  · simp [hlow, Nat.add_sub_cancel' (Nat.not_lt.1 hlow)]

theorem toNat_and_not_page_mask (x : u64) :
    (x &&& ~~~GUEST_PAGE_MASK).toNat = x.toNat / GUEST_PAGE_SIZE * GUEST_PAGE_SIZE := by
  have hx := x.isLt
  rw [and_not_page_mask, BitVec.toNat_shiftLeft, BitVec.toNat_ushiftRight, Nat.shiftLeft_eq, Nat.shiftRight_eq_div_pow]
  exact Nat.mod_eq_of_lt (lt_of_le_of_lt (Nat.div_mul_le_self _ _) hx)

theorem toNat_PG_DOWN (x : u64) : (PG_DOWN x).toNat = x.toNat / GUEST_PAGE_SIZE * GUEST_PAGE_SIZE :=
  toNat_and_not_page_mask x

/-- The page-up of an address in the last page wraps, and of no other. -/
theorem toNat_PG_UP {x : u64} (h : x.toNat + 4095 < 2 ^ 64) :
    (PG_UP x).toNat = (x.toNat + 4095) / GUEST_PAGE_SIZE * GUEST_PAGE_SIZE := by
  rw [PG_UP, toNat_and_not_page_mask, GUEST_PAGE_MASK, BitVec.toNat_add, BitVec.toNat_ofNat,
    Nat.mod_eq_of_lt (show 4095 < 2 ^ 64 by decide), Nat.mod_eq_of_lt h]

/-- An address space: the protection of each guest page that is mapped, and the
bytes of the pages by address. -/
structure Space where
  prot : Nat → Option u8
  byte : Nat → u8

def range_ok (addr len : u64) : Prop := addr.toNat ≤ GUEST_TASK_SIZE ∧ len.toNat ≤ GUEST_TASK_SIZE - addr.toNat

instance (addr len : u64) : Decidable (range_ok addr len) := inferInstanceAs (Decidable (_ ∧ _))

def InRange (addr len a : Nat) : Prop := addr ≤ a ∧ a < addr + len

instance (addr len a : Nat) : Decidable (InRange addr len a) := inferInstanceAs (Decidable (_ ∧ _))

/-- `guest_map_anon` of a private region; `host_ok` is whether the host gives the
memory. -/
def guest_map_anon (as : Space) (host_ok : Bool) (addr len : u64) (prot : u8) : Except Int Space :=
  if (addr ||| len) &&& GUEST_PAGE_MASK ≠ 0#64 ∨ ¬range_ok addr len ∨ len = 0#64 then .error (-EINVAL)
  else if host_ok = false then .error (-ENOMEM)
  else
    .ok {
      prot := fun pg => if InRange addr.toNat len.toNat (pg * GUEST_PAGE_SIZE) then some prot else as.prot pg
      byte := fun a => if InRange addr.toNat len.toNat a then 0#8 else as.byte a }

/-- `guest_protect` of a range that holds private regions only. -/
def guest_protect (as : Space) (addr len : u64) (prot : u8) : Except Int Space :=
  if (addr ||| len) &&& GUEST_PAGE_MASK ≠ 0#64 then .error (-EINVAL)
  else if ¬range_ok addr len then .error (-ENOMEM)
  else if (List.range (len.toNat / GUEST_PAGE_SIZE)).any
      (fun i => (as.prot (addr.toNat / GUEST_PAGE_SIZE + i)).isNone) = true then .error (-ENOMEM)
  else
    .ok { as with
      prot := fun pg => if InRange addr.toNat len.toNat (pg * GUEST_PAGE_SIZE) then some prot else as.prot pg }

def Space.writable (as : Space) (va : u64) : Prop :=
  va.toNat < GUEST_TASK_SIZE ∧ ∃ prot, as.prot (va.toNat / GUEST_PAGE_SIZE) = some prot ∧ prot &&& PTE_W ≠ 0#8

instance (as : Space) (va : u64) : Decidable (as.writable va) :=
  match h : as.prot (va.toNat / GUEST_PAGE_SIZE) with
  | none => .isFalse fun hw => by obtain ⟨-, prot, hp, -⟩ := hw; rw [h] at hp; cases hp
  | some prot =>
    if hp : va.toNat < GUEST_TASK_SIZE ∧ prot &&& PTE_W ≠ 0#8 then .isTrue ⟨hp.1, prot, h, hp.2⟩
    else .isFalse fun hw => by
      obtain ⟨hva, prot', hp', hbit⟩ := hw
      rw [h] at hp'
      cases hp'
      exact hp ⟨hva, hbit⟩

/-- A write that stops at a page that may not be written. -/
def copy_to_guest (as : Space) (va : u64) : List u8 → Option Space
  | [] => some as
  | b :: bs =>
    if as.writable va then copy_to_guest { as with byte := update as.byte va.toNat b } (va + 1#64) bs
    else none

section spec

variable {as as' : Space} {addr len va : u64} {prot : u8} {bs : List u8}

theorem toNat_and_page_mask (x : u64) : (x &&& GUEST_PAGE_MASK).toNat = x.toNat % GUEST_PAGE_SIZE := by
  rw [BitVec.toNat_and]
  exact Nat.and_two_pow_sub_one_eq_mod x.toNat 12

theorem and_page_mask_eq_zero (x : u64) : x &&& GUEST_PAGE_MASK = 0#64 ↔ GUEST_PAGE_SIZE ∣ x.toNat := by
  rw [Nat.dvd_iff_mod_eq_zero, ← toNat_and_page_mask]
  exact BitVec.toNat_inj.symm

theorem aligned_iff (addr len : u64) : (addr ||| len) &&& GUEST_PAGE_MASK = 0#64 ↔
    GUEST_PAGE_SIZE ∣ addr.toNat ∧ GUEST_PAGE_SIZE ∣ len.toNat := by
  have hor : (addr ||| len) &&& GUEST_PAGE_MASK = (addr &&& GUEST_PAGE_MASK) ||| (len &&& GUEST_PAGE_MASK) := by
    ext i hi
    simp only [BitVec.getElem_and, BitVec.getElem_or, Bool.and_or_distrib_right]
  rw [hor, BitVec.or_eq_zero_iff, and_page_mask_eq_zero, and_page_mask_eq_zero]

theorem guest_map_anon_ok {host_ok : Bool} (h : guest_map_anon as host_ok addr len prot = .ok as') :
    GUEST_PAGE_SIZE ∣ addr.toNat ∧ GUEST_PAGE_SIZE ∣ len.toNat ∧ addr.toNat + len.toNat ≤ GUEST_TASK_SIZE ∧
      0 < len.toNat ∧
      (∀ pg, as'.prot pg = if InRange addr.toNat len.toNat (pg * GUEST_PAGE_SIZE) then some prot else as.prot pg) ∧
      ∀ a, as'.byte a = if InRange addr.toNat len.toNat a then 0#8 else as.byte a := by
  unfold guest_map_anon at h
  split at h
  · cases h
  rename_i hok
  split at h
  · cases h
  cases h
  simp only [not_or, not_not] at hok
  obtain ⟨halign, ⟨haddr, hlen⟩, hne⟩ := hok
  obtain ⟨hal, hll⟩ := (aligned_iff addr len).1 halign
  refine ⟨hal, hll, by omega, ?_, fun _ => rfl, fun _ => rfl⟩
  rw [Nat.pos_iff_ne_zero]
  exact fun hzero => hne (BitVec.eq_of_toNat_eq hzero)

theorem guest_protect_ok {first n : Nat} (prot : u8) (haddr : addr.toNat = first * GUEST_PAGE_SIZE)
    (hlen : len.toNat = n * GUEST_PAGE_SIZE) (hend : (first + n) * GUEST_PAGE_SIZE ≤ GUEST_TASK_SIZE)
    (hmapped : ∀ pg, InRange first n pg → (as.prot pg).isSome) :
    ∃ as', guest_protect as addr len prot = .ok as' ∧ as'.byte = as.byte ∧
      ∀ pg, as'.prot pg = if InRange first n pg then some prot else as.prot pg := by
  have hpos : 0 < GUEST_PAGE_SIZE := by decide
  have halign : (addr ||| len) &&& GUEST_PAGE_MASK = 0#64 :=
    (aligned_iff addr len).2 ⟨haddr ▸ Nat.dvd_mul_left .., hlen ▸ Nat.dvd_mul_left ..⟩
  have hrange : range_ok addr len := by
    rw [Nat.add_mul] at hend
    exact ⟨by omega, by omega⟩
  have hall : (List.range (len.toNat / GUEST_PAGE_SIZE)).any
      (fun i => (as.prot (addr.toNat / GUEST_PAGE_SIZE + i)).isNone) = false := by
    rw [hlen, haddr, Nat.mul_div_cancel _ hpos, Nat.mul_div_cancel _ hpos, List.any_eq_false]
    intro i hi
    rw [List.mem_range] at hi
    rw [Bool.not_eq_true, Option.isNone_eq_false_iff]
    exact hmapped _ ⟨Nat.le_add_right _ _, by omega⟩
  rw [guest_protect, if_neg (not_not.2 halign), if_neg (not_not.2 hrange), if_neg (by rw [hall]; decide)]
  refine ⟨_, rfl, rfl, fun pg => ?_⟩
  have hiff : InRange addr.toNat len.toNat (pg * GUEST_PAGE_SIZE) ↔ InRange first n pg := by
    rw [InRange, InRange, haddr, hlen, ← Nat.add_mul, Nat.mul_le_mul_right_iff hpos, Nat.mul_lt_mul_right hpos]
  dsimp only
  rw [if_congr hiff rfl rfl]

theorem copy_to_guest_ok (hend : va.toNat + bs.length ≤ GUEST_TASK_SIZE)
    (hw : ∀ a, InRange va.toNat bs.length a → ∃ prot, as.prot (a / GUEST_PAGE_SIZE) = some prot ∧
        prot &&& PTE_W ≠ 0#8) :
    ∃ as', copy_to_guest as va bs = some as' ∧ as'.prot = as.prot ∧
      ∀ a, as'.byte a = if InRange va.toNat bs.length a then bs.getD (a - va.toNat) 0#8 else as.byte a := by
  induction bs generalizing as va with
  | nil =>
    refine ⟨as, rfl, rfl, fun a => ?_⟩
    rw [if_neg]
    rintro ⟨hle, hlt⟩
    exact absurd hlt (Nat.not_lt.2 hle)
  | cons b bs ih =>
    rw [List.length_cons] at hend hw ⊢
    have htask : GUEST_TASK_SIZE < 2 ^ 64 := by decide
    have hnext : (va + 1#64).toNat = va.toNat + 1 := by
      rw [BitVec.toNat_add, BitVec.toNat_ofNat]
      omega
    have hfirst : as.writable va := ⟨by omega, hw va.toNat ⟨le_rfl, by omega⟩⟩
    have hend' : (va + 1#64).toNat + bs.length ≤ GUEST_TASK_SIZE := by omega
    obtain ⟨as', hcopy, hprot, hbyte⟩ :
        ∃ as', copy_to_guest { as with byte := update as.byte va.toNat b } (va + 1#64) bs = some as' ∧ _ ∧ _ :=
      ih hend' fun a ha => hw a ⟨by have := ha.1; omega, by have := ha.2; omega⟩
    refine ⟨as', ?_, hprot, fun a => ?_⟩
    · rw [copy_to_guest, if_pos hfirst, hcopy]
    rw [hbyte, hnext]
    by_cases hhere : a = va.toNat
    · subst hhere
      rw [if_neg (fun h => absurd h.1 (by omega)), if_pos ⟨le_rfl, by omega⟩, Nat.sub_self]
      exact update_self ..
    by_cases hrest : InRange (va.toNat + 1) bs.length a
    · have hsub : a - va.toNat = a - (va.toNat + 1) + 1 := by have := hrest.1; omega
      rw [if_pos hrest, if_pos ⟨by have := hrest.1; omega, by have := hrest.2; omega⟩, hsub, List.getD_cons_succ]
    · rw [if_neg hrest, if_neg (fun h => hrest ⟨by have := h.1; omega, by have := h.2; omega⟩)]
      exact update_of_ne hhere ..

end spec

end arm64emu
