import Arm64Emu.Exec.Space

namespace arm64emu

def MMAP_FLOOR : Nat := 0x6000000000

def MMAP_CEILING : Nat := GUEST_TASK_SIZE - 0x10000000

theorem ceiling_eq : MMAP_CEILING = 0x7ffff0000000 := by decide

theorem task_size_eq : GUEST_TASK_SIZE = 0x800000000000 := by decide

def STACK_GUARD_GAP : Nat := 256 * 2 ^ 12

/-- A mapped range. -/
structure Region where
  start : Nat
  stop : Nat
  growsdown : Bool

/-- The regions of an address space and its search hint. A search may leave the hint below the floor, down to 0, but
not above the ceiling. -/
structure AddrSpace where
  regions : List Region
  mmap_next : Nat
  stop_le : ∀ r ∈ regions, r.stop ≤ GUEST_TASK_SIZE
  stop_aligned : ∀ r ∈ regions, r.stop % GUEST_PAGE_SIZE = 0
  le_ceiling : mmap_next ≤ MMAP_CEILING
  next_aligned : mmap_next % GUEST_PAGE_SIZE = 0

/-- Where a region ends the gap below it: a stack keeps a guard. -/
def as_gap_start (r : Region) : Nat :=
  if r.growsdown = false then r.start
  else if STACK_GUARD_GAP < r.start then r.start - STACK_GUARD_GAP else 0

section search

variable (as : AddrSpace) (len base : Nat)

/-- The first region in the way of `[base, base + len)`, the sum taken in 64 bits as the loop takes it. -/
def find_conflict : Option Region :=
  as.regions.find? fun r => decide (as_gap_start r < (base + len) % 2 ^ 64 ∧ base < r.stop)

variable {as len base}

theorem find_conflict_some {r : Region} (h : find_conflict as len base = some r) :
    r ∈ as.regions ∧ as_gap_start r < (base + len) % 2 ^ 64 ∧ base < r.stop :=
  ⟨List.mem_of_find?_eq_some h, of_decide_eq_true (List.find?_some h :)⟩

/-- One pass of the search: the `while` loop of `as_find_free_impl` from `base` on. -/
def find_pass (as : AddrSpace) (len base : Nat) : Option Nat :=
  if (base + len) % 2 ^ 64 ≤ MMAP_CEILING then
    match _h : find_conflict as len base with
    | none => some base
    | some r => find_pass as len r.stop
  else none
termination_by GUEST_TASK_SIZE - base
decreasing_by
  obtain ⟨hmem, -, hlt⟩ := find_conflict_some _h
  have := as.stop_le r hmem
  omega

theorem find_pass_free (hin : (base + len) % 2 ^ 64 ≤ MMAP_CEILING) (h : find_conflict as len base = none) :
    find_pass as len base = some base := by
  rw [find_pass, if_pos hin]
  split
  · rfl
  · simp_all

theorem find_pass_conflict {r : Region} (hin : (base + len) % 2 ^ 64 ≤ MMAP_CEILING)
    (h : find_conflict as len base = some r) : find_pass as len base = find_pass as len r.stop := by
  rw [find_pass, if_pos hin]
  split
  · simp_all
  · simp_all

variable (as len base)

/-- The base passes the tests of the loop, which are made on the sum in 64 bits. -/
structure TakesBase : Prop where
  below : (base + len) % 2 ^ 64 ≤ MMAP_CEILING
  apart : ∀ r ∈ as.regions, (base + len) % 2 ^ 64 ≤ as_gap_start r ∨ r.stop ≤ base

variable {as len base}

theorem takes_base_iff : TakesBase as len base ↔
    (base + len) % 2 ^ 64 ≤ MMAP_CEILING ∧ find_conflict as len base = none := by
  have hnone : find_conflict as len base = none ↔
      ∀ r ∈ as.regions, (base + len) % 2 ^ 64 ≤ as_gap_start r ∨ r.stop ≤ base := by
    simp only [find_conflict, List.find?_eq_none, decide_eq_true_eq]
    exact forall₂_congr fun r _ => by omega
  exact ⟨fun h => ⟨h.below, hnone.2 h.apart⟩, fun h => ⟨h.1, hnone.1 h.2⟩⟩

theorem TakesBase.find_pass (h : TakesBase as len base) : find_pass as len base = some base :=
  find_pass_free h.below (takes_base_iff.1 h).2

/-- A pass returns a base that is accepted, at or above its start; the sum wraps there just if it does at the start. -/
theorem find_pass_some {b : Nat} (h : find_pass as len base = some b) :
    TakesBase as len b ∧ base ≤ b ∧ (base + len) / 2 ^ 64 = (b + len) / 2 ^ 64 ∧
      (base % GUEST_PAGE_SIZE = 0 → b % GUEST_PAGE_SIZE = 0) := by
  induction base using find_pass.induct as len with
  | case1 base hin hnone =>
    obtain rfl : base = b := Option.some.inj ((find_pass_free hin hnone).symm.trans h)
    exact ⟨takes_base_iff.2 ⟨hin, hnone⟩, Nat.le_refl _, rfl, id⟩
  | case2 base hin r hr ih =>
    obtain ⟨hmem, -, hlt⟩ := find_conflict_some hr
    have hstop := as.stop_le r hmem
    rw [find_pass_conflict hin hr] at h
    obtain ⟨hacc, hle, hwrap, halign⟩ := ih h
    simp only [ceiling_eq, task_size_eq] at hin hstop
    exact ⟨hacc, by omega, by omega, fun _ => halign (as.stop_aligned r hmem)⟩
  | case3 base hout =>
    rw [find_pass, if_neg hout] at h
    cases h

theorem find_pass_none (h : find_pass as len base = none) {b : Nat} (hle : base ≤ b)
    (hwrap : (base + len) / 2 ^ 64 = (b + len) / 2 ^ 64) : ¬ TakesBase as len b := by
  intro hacc
  induction base using find_pass.induct as len with
  | case1 base hin hnone =>
    rw [find_pass_free hin hnone] at h
    cases h
  | case2 base hin r hr ih =>
    obtain ⟨hmem, hgap, hlt⟩ := find_conflict_some hr
    rw [find_pass_conflict hin hr] at h
    have hstop : r.stop ≤ b := by
      have := hacc.apart r hmem
      omega
    exact ih h hstop (by omega)
  | case3 base hout =>
    have := hacc.below
    omega

/-- A pass reads its length in 64 bits only. -/
theorem find_pass_mod : find_pass as (len % 2 ^ 64) base = find_pass as len base := by
  have hconf (b : Nat) : find_conflict as (len % 2 ^ 64) b = find_conflict as len b := by
    simp only [find_conflict, Nat.add_mod_mod]
  induction base using find_pass.induct as len with
  | case1 base hin hnone =>
    rw [find_pass_free hin hnone, find_pass_free (by rwa [Nat.add_mod_mod]) ((hconf base).trans hnone)]
  | case2 base hin r hr ih =>
    rw [find_pass_conflict hin hr, find_pass_conflict (by rwa [Nat.add_mod_mod]) ((hconf base).trans hr), ih]
  | case3 base hout => rw [find_pass, find_pass, if_neg hout, if_neg (by rwa [Nat.add_mod_mod])]

end search

section free

variable (as : AddrSpace) (len : u64)

/-- The base the two passes find, from the hint and then from the floor. -/
def find_base : Option Nat :=
  (find_pass as (PG_UP len).toNat as.mmap_next).or (find_pass as (PG_UP len).toNat MMAP_FLOOR)

variable {as len}

theorem find_base_next {base : Nat} (h : find_base as len = some base) :
    (base + (PG_UP len).toNat) % 2 ^ 64 ≤ MMAP_CEILING ∧
      (base + (PG_UP len).toNat) % 2 ^ 64 % GUEST_PAGE_SIZE = 0 := by
  have hpage : (PG_UP len).toNat % GUEST_PAGE_SIZE = 0 := by
    rw [PG_UP, toNat_and_not_page_mask]
    exact Nat.mul_mod_left _ _
  have hfrom {start : Nat} (hstart : start % GUEST_PAGE_SIZE = 0)
      (h : find_pass as (PG_UP len).toNat start = some base) :
      (base + (PG_UP len).toNat) % 2 ^ 64 ≤ MMAP_CEILING ∧
        (base + (PG_UP len).toNat) % 2 ^ 64 % GUEST_PAGE_SIZE = 0 := by
    obtain ⟨hacc, -, -, halign⟩ := find_pass_some h
    refine ⟨hacc.below, ?_⟩
    have hbase := halign hstart
    simp only [GUEST_PAGE_SIZE] at hbase hpage ⊢
    omega
  rcases Option.or_eq_some_iff.1 h with h | ⟨-, h⟩
  · exact hfrom as.next_aligned h
  · exact hfrom (by decide) h

variable (as len)

/-- The base found, 0 for none, and the address space with its hint moved behind the range. -/
def as_find_free_impl : Nat × AddrSpace :=
  match h : find_base as len with
  | some base =>
    (base, { as with
      mmap_next := (base + (PG_UP len).toNat) % 2 ^ 64
      le_ceiling := (find_base_next h).1
      next_aligned := (find_base_next h).2 })
  | none => (0, as)

theorem as_find_free_impl_base : (as_find_free_impl as len).1 = (find_base as len).getD 0 := by
  unfold as_find_free_impl
  split <;> simp [*]

def page_bytes (len : u64) : Nat := (len.toNat + 4095) / GUEST_PAGE_SIZE * GUEST_PAGE_SIZE

theorem toNat_PG_UP_mod : (PG_UP len).toNat = page_bytes len % 2 ^ 64 := by
  have hlt := len.isLt
  rw [PG_UP, toNat_and_not_page_mask, GUEST_PAGE_MASK, BitVec.toNat_add]
  simp only [page_bytes, GUEST_PAGE_SIZE]
  change (len.toNat + 4095) % 2 ^ 64 / 4096 * 4096 = _
  omega

theorem find_base_eq : find_base as len =
    (find_pass as (page_bytes len) as.mmap_next).or (find_pass as (page_bytes len) MMAP_FLOOR) := by
  rw [find_base, toNat_PG_UP_mod, find_pass_mod, find_pass_mod]

end free

/-- A range of whole pages in the guest space that meets no region and no stack guard gap. -/
structure FreeAt (as : AddrSpace) (len base : Nat) : Prop where
  aligned : base % GUEST_PAGE_SIZE = 0
  inside : base + len ≤ GUEST_TASK_SIZE
  clear : ∀ r ∈ as.regions, base + len ≤ as_gap_start r ∨ r.stop ≤ base

/-- What the search answers is free, and it answers 0 only if nothing from its start (the hint or the floor,
whichever is lower) up to the ceiling is. -/
def FindsFree (as : AddrSpace) (len : u64) : Prop :=
  if (as_find_free_impl as len).1 = 0 then
    ∀ base, min as.mmap_next MMAP_FLOOR ≤ base → base + page_bytes len ≤ MMAP_CEILING →
      ¬ FreeAt as (page_bytes len) base
  else FreeAt as (page_bytes len) (as_find_free_impl as len).1

/-- From `start` on sums wrap, and some base has the wrapped end of its range below the ceiling and below every region
that ends above the base. -/
def Strays (as : AddrSpace) (len start : Nat) : Prop :=
  2 ^ 64 ≤ start + len ∧ ∃ base, start ≤ base ∧ base + len - 2 ^ 64 ≤ MMAP_CEILING ∧
    ∀ r ∈ as.regions, base + len - 2 ^ 64 ≤ as_gap_start r ∨ r.stop ≤ base

section right

variable {as : AddrSpace} {len base start : Nat}

theorem takes_base_of_clear (hle : base + len ≤ MMAP_CEILING)
    (hclear : ∀ r ∈ as.regions, base + len ≤ as_gap_start r ∨ r.stop ≤ base) : TakesBase as len base := by
  have hmod : (base + len) % 2 ^ 64 = base + len := Nat.mod_eq_of_lt (by simp only [ceiling_eq] at hle; omega)
  exact ⟨by rwa [hmod], by rwa [hmod]⟩

/-- A pass that does not stray finds a free base. -/
theorem find_pass_free_at (hstart : start ≤ MMAP_CEILING) (halign : start % GUEST_PAGE_SIZE = 0) (hlen : len ≤ 2 ^ 64)
    (hs : ¬ Strays as len start) (h : find_pass as len start = some base) :
    base + len ≤ MMAP_CEILING ∧ FreeAt as len base := by
  obtain ⟨hacc, hle, hwrap, hal⟩ := find_pass_some h
  rcases Nat.lt_or_ge (start + len) (2 ^ 64) with hlt | hge
  · have hmod : (base + len) % 2 ^ 64 = base + len := Nat.mod_eq_of_lt (by omega)
    have hb := hmod ▸ hacc.below
    exact ⟨hb, hal halign, Nat.le_trans hb (by decide), hmod ▸ hacc.apart⟩
  · simp only [ceiling_eq] at hstart
    have hmod : (base + len) % 2 ^ 64 = base + len - 2 ^ 64 := by omega
    exact absurd ⟨hge, base, hle, hmod ▸ hacc.below, hmod ▸ hacc.apart⟩ hs

theorem FreeAt.not_strays (h : FreeAt as len base) (hstart : start ≤ MMAP_CEILING) : ¬ Strays as len start := by
  rintro ⟨hge, -⟩
  have := h.inside
  simp only [ceiling_eq, task_size_eq] at hstart this
  omega

theorem find_pass_none_strays (hstart : start ≤ MMAP_CEILING) (hlen : len ≤ 2 ^ 64)
    (h : find_pass as len start = none) : ¬ Strays as len start := by
  rintro ⟨hge, b, hle, hb, hclear⟩
  simp only [ceiling_eq] at hstart hb
  have hmod : (b + len) % 2 ^ 64 = b + len - 2 ^ 64 := by omega
  exact find_pass_none h hle (by omega) ⟨by rw [hmod, ceiling_eq]; omega, hmod.symm ▸ hclear⟩

theorem find_pass_none_free (h : find_pass as len start = none) (hle : start ≤ base)
    (hb : base + len ≤ MMAP_CEILING) : ¬ FreeAt as len base := by
  intro hfree
  refine find_pass_none h hle ?_ (takes_base_of_clear hb hfree.clear)
  simp only [ceiling_eq] at hb
  omega

end right

theorem page_bytes_le (len : u64) : page_bytes len ≤ 2 ^ 64 := by
  have hlt := len.isLt
  simp only [page_bytes, GUEST_PAGE_SIZE]
  omega

/-- The search is right unless one of its passes wraps, or the hint is 0 and 0 is the base found, which is read as a
failure. With the hint at 0 a length that rounds to the whole of the 64 bits gets 0, and rightly. -/
theorem find_free_lengths (as : AddrSpace) (len : u64) : FindsFree as len ↔
    ¬ Strays as (page_bytes len) as.mmap_next ∧ ¬ Strays as (page_bytes len) MMAP_FLOOR ∧
        ¬ (as.mmap_next = 0 ∧ page_bytes len ≤ MMAP_CEILING ∧ FreeAt as (page_bytes len) 0) ∨
      as.mmap_next = 0 ∧ page_bytes len = 2 ^ 64 := by
  have hlen := page_bytes_le len
  have hceil := as.le_ceiling
  have halign := as.next_aligned
  unfold FindsFree
  rw [as_find_free_impl_base, find_base_eq]
  generalize page_bytes len = len at *
  -- in both of the special cases 0 is what the first pass finds
  have hzero {found : Option Nat} (hfound : find_pass as len as.mmap_next = found) (hne : found ≠ some 0) :
      ¬ (as.mmap_next = 0 ∧ len ≤ MMAP_CEILING ∧ FreeAt as len 0) ∧ ¬ (as.mmap_next = 0 ∧ len = 2 ^ 64) := by
    refine ⟨fun ⟨h0, hle, hfree⟩ => hne ?_, fun ⟨h0, hwhole⟩ => hne ?_⟩ <;> rw [← hfound, h0]
    · exact (takes_base_of_clear (by omega) hfree.clear).find_pass
    · exact TakesBase.find_pass ⟨by omega, fun _ _ => .inl (by omega)⟩
  cases hfirst : find_pass as len as.mmap_next with
  | some base =>
    rw [Option.some_or, Option.getD_some]
    by_cases hb0 : base = 0
    · subst hb0
      have h0 : as.mmap_next = 0 := Nat.le_zero.1 (find_pass_some hfirst).2.1
      rw [if_pos rfl]
      by_cases hwhole : len = 2 ^ 64
      · exact iff_of_true (fun b _ hb => by simp only [ceiling_eq] at hb; omega) (.inr ⟨h0, hwhole⟩)
      · have hs : ¬ Strays as len as.mmap_next := fun h => by have := h.1; omega
        obtain ⟨hb, hfree⟩ := find_pass_free_at hceil halign hlen hs hfirst
        refine iff_of_false (fun h => h 0 (by omega) hb hfree) ?_
        rintro (⟨-, -, hn⟩ | ⟨-, h⟩)
        · exact hn ⟨h0, by omega, hfree⟩
        · exact hwhole h
    · obtain ⟨hn, hw⟩ := hzero hfirst (fun h => hb0 (Option.some.inj h))
      rw [if_neg hb0, or_iff_left hw]
      exact ⟨fun h => ⟨h.not_strays hceil, h.not_strays (by decide), hn⟩,
        fun h => (find_pass_free_at hceil halign hlen h.1 hfirst).2⟩
  | none =>
    obtain ⟨hn, hw⟩ := hzero hfirst nofun
    have hs := find_pass_none_strays hceil hlen hfirst
    rw [Option.none_or, or_iff_left hw]
    cases hsecond : find_pass as len MMAP_FLOOR with
    | some base =>
      have hpos : 0 < base := Nat.lt_of_lt_of_le (by decide) (find_pass_some hsecond).2.1
      rw [Option.getD_some, if_neg (Nat.ne_of_gt hpos)]
      exact ⟨fun h => ⟨hs, h.not_strays (by decide), hn⟩,
        fun h => (find_pass_free_at (by decide) (by decide) hlen h.2.1 hsecond).2⟩
    | none =>
      rw [Option.getD_none, if_pos rfl]
      refine iff_of_true (fun b hb hle => ?_) ⟨hs, find_pass_none_strays (by decide) hlen hsecond, hn⟩
      rcases Nat.le_total as.mmap_next MMAP_FLOOR with hmin | hmin
      · exact find_pass_none_free hfirst (by omega) hle
      · exact find_pass_none_free hsecond (by omega) hle

def fresh_space : AddrSpace :=
  ⟨[], MMAP_FLOOR, fun _ h => (List.not_mem_nil h).elim, fun _ h => (List.not_mem_nil h).elim, by decide, by decide⟩

/-- A length two pages short of the address space is found a place at the floor. -/
theorem huge_range_found :
    (as_find_free_impl fresh_space 0xffffffffffffe000#64).1 = MMAP_FLOOR ∧
      ¬ FindsFree fresh_space 0xffffffffffffe000#64 := by
  have hfound : (as_find_free_impl fresh_space 0xffffffffffffe000#64).1 = MMAP_FLOOR := by
    have hacc : TakesBase fresh_space (page_bytes 0xffffffffffffe000#64) fresh_space.mmap_next :=
      ⟨by decide, fun _ h => (List.not_mem_nil h).elim⟩
    rw [as_find_free_impl_base, find_base_eq, hacc.find_pass]
    rfl
  refine ⟨hfound, fun h => ?_⟩
  rw [FindsFree, hfound, if_neg (by decide)] at h
  exact absurd h.inside (by decide)

end arm64emu
