import Arm64Emu.Core.Types

namespace arm64emu

def GUEST_PAGE_SIZE : Nat := 4096

def GUEST_TASK_SIZE : Nat := 2 ^ 47

/-- TBI0: data accesses ignore the top byte of the address. -/
def A64_TBI_MASK : u64 := 0x00ffffffffffffff#64

/-- The permission an access asks of a page-table entry: `PTE_R`, `PTE_W` or
`PTE_X`. -/
inductive Need where
  | r | w | x
  deriving DecidableEq, Repr

/-- A page-table entry: the host address of the page's first byte and its
protection bits. -/
structure Pte where
  host : Nat
  r : Bool
  w : Bool
  x : Bool
  deriving DecidableEq, Repr

def Pte.allows (p : Pte) : Need → Bool
  | .r => p.r
  | .w => p.w
  | .x => p.x

/-- Guest memory as the access path sees it: the page table, the host bytes behind it, which two guest pages may
share, and which addresses lie in a file mapping (`va_is_file_hole`). -/
structure Mem where
  pte : Nat → Option Pte
  byte : Nat → u8
  file_hole : u64 → Bool

def Mem.empty : Mem := ⟨fun _ => none, fun _ => 0#8, fun _ => false⟩

def page_of (va : u64) : Nat := va.toNat / GUEST_PAGE_SIZE

def page_off (va : u64) : Nat := va.toNat % GUEST_PAGE_SIZE

def Mem.pte_get (m : Mem) (va : u64) : Option Pte := m.pte (page_of va)

/-- What `translate` asks of the address space when the walk alone does not answer. Each yields the memory after the
attempt, whose page table decides; an attempt that does not give the page what was asked for has changed nothing. -/
structure Pager where
  as_fault_fill : Mem → u64 → Mem
  as_stack_grow : Mem → u64 → Mem
  as_write_heal : Mem → u64 → Mem
  fault_fill_failed : ∀ m va, (as_fault_fill m va).pte_get va = none → as_fault_fill m va = m
  stack_grow_failed : ∀ m va, (as_stack_grow m va).pte_get va = none → as_stack_grow m va = m
  write_heal_failed : ∀ m va, (∀ pte, (as_write_heal m va).pte_get va = some pte → pte.w = false) →
    as_write_heal m va = m

/-- The entry of a page after the slow path of a missing translation. -/
def fill_missing (pg : Pager) (m : Mem) (va : u64) : Mem :=
  match m.pte_get va with
  | some _ => m
  | none =>
    let m := pg.as_fault_fill m va
    match m.pte_get va with
    | some _ => m
    | none => pg.as_stack_grow m va

/-- The address a walk uses: data accesses strip the tag byte, instruction
fetches do not. -/
def strip_tag (va : u64) (need : Need) : u64 := if need = .x then va else va &&& A64_TBI_MASK

/-- `translate`: the host byte behind a guest address, or the reason there is
none (`true` for a permission fault). -/
def translate (pg : Pager) (m : Mem) (va : u64) (need : Need) : Mem × Except Bool Nat :=
  let va := strip_tag va need
  if GUEST_TASK_SIZE ≤ va.toNat then (m, .error false)
  else
    let m := fill_missing pg m va
    match m.pte_get va with
    | none => (m, .error false)
    | some pte =>
      if pte.allows need then (m, .ok (pte.host + page_off va))
      else if need = .w then
        let m := pg.as_write_heal m va
        match m.pte_get va with
        | none => (m, .error true)
        | some pte => if pte.w then (m, .ok (pte.host + page_off va)) else (m, .error true)
      else (m, .error true)

def ld_le (m : Mem) (p : Nat) : Nat → u64
  | 0 => 0#64
  | size + 1 => (m.byte p).setWidth 64 ||| (ld_le m (p + 1) size <<< 8)

def st_le (m : Mem) (p : Nat) : Nat → u64 → Mem
  | 0, _ => m
  | size + 1, v =>
    st_le { m with byte := Function.update m.byte p (v.setWidth 8) } (p + 1) size (v >>> 8)

variable {n : Nat} (pg : Pager) {m : Mem}

@[simp] theorem st_le_pte (m : Mem) (p size : Nat) (v : u64) : (st_le m p size v).pte = m.pte := by
  induction size generalizing m p v with
  | zero => rfl
  | succ size ih => rw [st_le, ih]

theorem ld_le_lt (m : Mem) (p : Nat) {size : Nat} (hsize : size ≤ 8) :
    (ld_le m p size).toNat < 2 ^ (8 * size) := by
  induction size generalizing p with
  | zero => simp [ld_le]
  | succ size ih =>
    have hrest := ih (p + 1) (by omega)
    have hpow : 2 ^ (8 * size) * 2 ^ 8 ≤ 2 ^ 64 := by
      rw [← Nat.pow_add]
      exact Nat.pow_le_pow_right (by decide) (by omega)
    have hbyte : ((m.byte p).setWidth 64).toNat < 2 ^ 8 := by
      have := (m.byte p).isLt
      rw [BitVec.toNat_setWidth]
      omega
    rw [ld_le, or_shift_toNat hbyte (by omega), Nat.mul_succ, Nat.pow_add]
    omega

theorem page_off_lt (va : u64) : page_off va < GUEST_PAGE_SIZE :=
  Nat.mod_lt _ (by decide)

variable {va : u64} {need : Need}

theorem strip_tag_toNat (h : need ≠ .x) : (strip_tag va need).toNat = va.toNat % 2 ^ 56 := by
  unfold strip_tag
  rw [if_neg h, BitVec.toNat_and]
  have hmask : A64_TBI_MASK.toNat = 2 ^ 56 - 1 := by decide
  rw [hmask, Nat.and_two_pow_sub_one_eq_mod]

theorem toNat_add_in_page (h : page_off va + n < GUEST_PAGE_SIZE) :
    (va + BitVec.ofNat 64 n).toNat = va.toNat + n := by
  have hva := va.isLt
  unfold page_off GUEST_PAGE_SIZE at h
  rw [BitVec.toNat_add, BitVec.toNat_ofNat]
  omega

/-- An offset that stays inside the page of `va` leaves the page alone and
moves the page offset by itself, with or without the tag stripped. -/
theorem page_add (h : page_off va + n < GUEST_PAGE_SIZE) :
    page_of (va + BitVec.ofNat 64 n) = page_of va ∧
      page_off (va + BitVec.ofNat 64 n) = page_off va + n := by
  rw [page_of, page_of, page_off, page_off, toNat_add_in_page h]
  unfold page_off GUEST_PAGE_SIZE at *
  omega

theorem strip_tag_add (hneed : need ≠ .x) (h : page_off va + n < GUEST_PAGE_SIZE) :
    (strip_tag (va + BitVec.ofNat 64 n) need).toNat = (strip_tag va need).toNat + n := by
  rw [strip_tag_toNat hneed, strip_tag_toNat hneed, toNat_add_in_page h]
  unfold page_off GUEST_PAGE_SIZE at h
  omega

theorem page_off_strip_tag : page_off (strip_tag va need) = page_off va := by
  by_cases h : need = .x
  · simp [strip_tag, h]
  unfold page_off GUEST_PAGE_SIZE
  rw [strip_tag_toNat h]
  omega

theorem translate_ok_mapped {pg : Pager} {m m' : Mem} {p : Nat} (h : translate pg m va need = (m', .ok p)) :
    (strip_tag va need).toNat < GUEST_TASK_SIZE ∧
      ∃ pte, m'.pte_get (strip_tag va need) = some pte ∧ pte.allows need = true ∧
        p = pte.host + page_off va := by
  unfold translate at h
  by_cases hsize : GUEST_TASK_SIZE ≤ (strip_tag va need).toNat
  · simp [hsize] at h
  refine ⟨by omega, ?_⟩
  simp only [hsize, if_false] at h
  cases hget : (fill_missing pg m (strip_tag va need)).pte_get (strip_tag va need) with
  | none => simp [hget] at h
  | some pte =>
    simp only [hget] at h
    by_cases hallow : pte.allows need = true
    · simp only [hallow, if_true, Prod.mk.injEq, Except.ok.injEq] at h
      obtain ⟨hm, hp⟩ := h
      exact ⟨pte, hm ▸ hget, hallow, by rw [← hp, page_off_strip_tag]⟩
    by_cases hw : need = .w
    · subst hw
      simp only [hallow, if_true] at h
      cases hheal : (pg.as_write_heal (fill_missing pg m (strip_tag va .w))
          (strip_tag va .w)).pte_get (strip_tag va .w) with
      | none => simp [hheal] at h
      | some pte =>
        simp only [hheal] at h
        by_cases hbit : pte.w = true
        · simp [hbit] at h
          obtain ⟨hm, hp⟩ := h
          exact ⟨pte, hm ▸ hheal, hbit, by rw [← hp, page_off_strip_tag]⟩
        · simp [hbit] at h
    · simp [hallow, hw] at h

theorem translate_hit {pte : Pte} (hsize : (strip_tag va need).toNat < GUEST_TASK_SIZE)
    (hget : m.pte_get (strip_tag va need) = some pte) (hallow : pte.allows need = true) :
    translate pg m va need = (m, .ok (pte.host + page_off va)) := by
  have hfill : fill_missing pg m (strip_tag va need) = m := by simp [fill_missing, hget]
  unfold translate
  simp only [Nat.not_le.mpr hsize, if_false, hfill, hget, hallow, if_true, page_off_strip_tag]

/-- A second access to a page just translated hits: it changes nothing and lands at the same distance into the host
page, also after bytes have been stored in between. -/
theorem translate_again {m m' m'' : Mem} {p n : Nat} (hneed : need ≠ .x)
    (h : translate pg m va need = (m', .ok p)) (hin : page_off va + n < GUEST_PAGE_SIZE)
    (hpte : m''.pte = m'.pte) : translate pg m'' (va + BitVec.ofNat 64 n) need = (m'', .ok (p + n)) := by
  obtain ⟨hsize, pte, hget, hallow, hp⟩ := translate_ok_mapped h
  have hstrip := strip_tag_add hneed hin
  have hoff : page_off (strip_tag va need) + n < GUEST_PAGE_SIZE := by
    rw [page_off_strip_tag]
    exact hin
  have hpage : page_of (strip_tag (va + BitVec.ofNat 64 n) need) = page_of (strip_tag va need) := by
    unfold page_of
    unfold page_off at hoff
    rw [hstrip]
    unfold GUEST_PAGE_SIZE at *
    omega
  have hsize' : (strip_tag (va + BitVec.ofNat 64 n) need).toNat < GUEST_TASK_SIZE := by
    rw [hstrip]
    unfold page_off at hoff
    unfold GUEST_PAGE_SIZE GUEST_TASK_SIZE at *
    omega
  have hget' : m''.pte_get (strip_tag (va + BitVec.ofNat 64 n) need) = some pte := by
    unfold Mem.pte_get at *
    rw [hpage, hpte]
    exact hget
  rw [translate_hit pg hsize' hget' hallow, (page_add hin).2, hp]
  simp only [Nat.add_assoc]

theorem fill_missing_mapped {pte : Pte} (h : m.pte_get va = some pte) : fill_missing pg m va = m := by
  simp only [fill_missing, h]

theorem fill_missing_failed (h : (fill_missing pg m va).pte_get va = none) : fill_missing pg m va = m := by
  unfold fill_missing at h ⊢
  cases hget : m.pte_get va with
  | some pte => rfl
  | none =>
    simp only [hget] at h ⊢
    cases hfill : (pg.as_fault_fill m va).pte_get va with
    | some pte => simp [hfill] at h
    | none =>
      have hsame := pg.fault_fill_failed m va hfill
      simp only [hsame, hget] at h ⊢
      exact pg.stack_grow_failed m va h

theorem translate_fails_again {m m' : Mem} {perm : Bool}
    (h : translate pg m va need = (m', .error perm)) : translate pg m' va need = (m', .error perm) := by
  unfold translate at h ⊢
  by_cases hsize : GUEST_TASK_SIZE ≤ (strip_tag va need).toNat
  · simp only [hsize, if_true, Prod.mk.injEq] at h ⊢
    exact ⟨trivial, h.2⟩
  simp only [hsize, if_false] at h ⊢
  cases hget : (fill_missing pg m (strip_tag va need)).pte_get (strip_tag va need) with
  | none =>
    have hsame := fill_missing_failed pg hget
    simp only [hget, Prod.mk.injEq] at h
    rw [← h.1, hsame, hsame, ← hsame, hget, hsame, h.2]
  | some pte =>
    simp only [hget] at h
    by_cases hallow : pte.allows need = true
    · simp [hallow] at h
    by_cases hw : need = .w
    · subst hw
      simp only [hallow, Bool.false_eq_true, if_false, if_true] at h
      have hdenied : ∀ pte, (pg.as_write_heal (fill_missing pg m (strip_tag va .w))
          (strip_tag va .w)).pte_get (strip_tag va .w) = some pte → pte.w = false := by
        intro pte hpte
        simp only [hpte] at h
        cases hbit : pte.w with
        | false => rfl
        | true => simp [hbit] at h
      have hsame := pg.write_heal_failed _ _ hdenied
      have hbit : pte.w = false := hdenied pte (by rw [hsame]; exact hget)
      simp only [hsame, hget, hbit, Bool.false_eq_true, if_false, Prod.mk.injEq] at h
      rw [← h.1, fill_missing_mapped pg hget]
      simp only [hget, hallow, hsame, hbit, Bool.false_eq_true, if_false, if_true, h.2]
    simp only [hallow, hw, Bool.false_eq_true, if_false, Prod.mk.injEq] at h
    rw [← h.1, fill_missing_mapped pg hget, hget]
    simp only [hallow, hw, Bool.false_eq_true, if_false, h.2]

end arm64emu
