import Arm64Emu.Core.Cpu

namespace arm64emu

/-- Records the data abort of an access. -/
def raise_dabort (c : CPU) (va : u64) (write perm : Bool) : CPU :=
  let fsc := if perm then FSC_PERM_L3
    else if c.mem.file_hole va then FSC_EXTERNAL else FSC_TRANS_L3
  cpu_raise_sync c (esr_make EC_DABORT_LOWER (iss_dabort write fsc)) va

def crosses_page (va : u64) (size : Nat) : Bool := GUEST_PAGE_SIZE < page_off va + size

def mem_read_page (pg : Pager) (c : CPU) (va : u64) (size : Nat) : Access u64 :=
  match translate pg c.mem va .r with
  | (m, .ok p) => .ok (ld_le m p size) { c with mem := m }
  | (m, .error perm) => .fault (raise_dabort { c with mem := m } va false perm)

/-- `mem_read`: a read that crosses a page boundary is split there; neither
half, at most eight bytes, crosses again. -/
def mem_read (pg : Pager) (c : CPU) (va : u64) (size : Nat) : Access u64 :=
  if crosses_page va size then
    let first := GUEST_PAGE_SIZE - page_off va
    (mem_read_page pg c va first).bind fun lo c =>
      (mem_read_page pg c (va + BitVec.ofNat 64 first) (size - first)).bind fun hi c =>
        .ok (lo ||| (hi <<< (8 * first))) c
  else mem_read_page pg c va size

def mem_write_page (pg : Pager) (c : CPU) (va : u64) (size : Nat) (val : u64) : Access Unit :=
  match translate pg c.mem va .w with
  | (m, .ok p) => .ok () { c with mem := st_le m p size val }
  | (m, .error perm) => .fault (raise_dabort { c with mem := m } va true perm)

/-- `mem_write`, split like `mem_read`. The first part stays stored when the
second faults. -/
def mem_write (pg : Pager) (c : CPU) (va : u64) (size : Nat) (val : u64) : Access Unit :=
  if crosses_page va size then
    let first := GUEST_PAGE_SIZE - page_off va
    (mem_write_page pg c va first val).bind fun _ c =>
      mem_write_page pg c (va + BitVec.ofNat 64 first) (size - first) (val >>> (8 * first))
  else mem_write_page pg c va size val

/-- A 16-byte read; at a page's end, in two halves. -/
def mem_read128 (pg : Pager) (c : CPU) (va : u64) : Access V128 :=
  if crosses_page va 16 then
    (mem_read pg c va 8).bind fun d0 c =>
      (mem_read pg c (va + 8#64) 8).bind fun d1 c => .ok (V128.ofD d0 d1) c
  else
    match translate pg c.mem va .r with
    | (m, .ok p) => .ok (V128.ofD (ld_le m p 8) (ld_le m (p + 8) 8)) { c with mem := m }
    | (m, .error perm) => .fault (raise_dabort { c with mem := m } va false perm)

def mem_write128 (pg : Pager) (c : CPU) (va : u64) (val : V128) : Access Unit :=
  if crosses_page va 16 then
    (mem_write pg c va 8 val.d0).bind fun _ c => mem_write pg c (va + 8#64) 8 val.d1
  else
    match translate pg c.mem va .w with
    | (m, .ok p) => .ok () { c with mem := st_le (st_le m p 8 val.d0) (p + 8) 8 val.d1 }
    | (m, .error perm) => .fault (raise_dabort { c with mem := m } va true perm)

/-- `mem_host_ptr`: the host address of bytes that lie in one page, or `none`;
nothing is raised. Outside a system call no tagged address is refused. -/
def mem_host_ptr (pg : Pager) (c : CPU) (va : u64) (size : Nat) (need : Need) : CPU × Option Nat :=
  if crosses_page va size then (c, none)
  else
    match translate pg c.mem va need with
    | (m, .ok p) => ({ c with mem := m }, some p)
    | (m, .error _) => ({ c with mem := m }, none)

/-- An access that changes memory alone where it succeeds, and where it does not
memory and the recorded abort. -/
def Access.Plain {α : Type} (c : CPU) : Access α → Prop
  | .ok _ c' => ∃ m, c' = { c with mem := m }
  | .fault c' => ∃ m esr far, c' = cpu_raise_sync { c with mem := m } esr far

theorem Access.Plain.bind {α β : Type} {c : CPU} {r : Access α} {f : α → CPU → Access β}
    (hr : r.Plain c) (hf : ∀ a c', (f a c').Plain c') : (r.bind f).Plain c := by
  cases r with
  | fault d => exact hr
  | ok a d =>
    obtain ⟨m, rfl⟩ := hr
    have hnext := hf a { c with mem := m }
    rw [Access.ok_bind]
    cases hres : f a { c with mem := m } with
    | ok b d =>
      rw [hres] at hnext
      obtain ⟨m', rfl⟩ := hnext
      exact ⟨m', rfl⟩
    | fault d =>
      rw [hres] at hnext
      obtain ⟨m', esr, far, rfl⟩ := hnext
      exact ⟨m', esr, far, rfl⟩

theorem mem_read_page_plain (pg : Pager) (c : CPU) (va : u64) (size : Nat) :
    (mem_read_page pg c va size).Plain c := by
  unfold mem_read_page
  cases translate pg c.mem va .r with
  | mk m r =>
    cases r with
    | error perm => exact ⟨m, _, _, rfl⟩
    | ok p => exact ⟨m, rfl⟩

theorem mem_read_plain (pg : Pager) (c : CPU) (va : u64) (size : Nat) :
    (mem_read pg c va size).Plain c := by
  unfold mem_read
  split
  · exact (mem_read_page_plain pg c _ _).bind fun _ c =>
      (mem_read_page_plain pg c _ _).bind fun _ c => ⟨c.mem, rfl⟩
  · exact mem_read_page_plain pg c va size

theorem mem_write_page_plain (pg : Pager) (c : CPU) (va : u64) (size : Nat) (val : u64) :
    (mem_write_page pg c va size val).Plain c := by
  unfold mem_write_page
  cases translate pg c.mem va .w with
  | mk m r =>
    cases r with
    | error perm => exact ⟨m, _, _, rfl⟩
    | ok p => exact ⟨_, rfl⟩

theorem mem_write_plain (pg : Pager) (c : CPU) (va : u64) (size : Nat) (val : u64) :
    (mem_write pg c va size val).Plain c := by
  unfold mem_write
  split
  · exact (mem_write_page_plain pg c _ _ _).bind fun _ c => mem_write_page_plain pg c _ _ _
  · exact mem_write_page_plain pg c va size val

variable {pg : Pager} {c c' : CPU} {size : Nat}

theorem mem_write_reg_x {va val : u64} {u : Unit}
    (h : mem_write pg c va size val = .ok u c') (n : Nat) : reg_x c' n = reg_x c n := by
  have hplain := mem_write_plain pg c va size val
  rw [h] at hplain
  obtain ⟨m, rfl⟩ := hplain
  rfl

theorem mem_read_page_lt {va v : u64} (hsize : size ≤ 8)
    (h : mem_read_page pg c va size = .ok v c') : v.toNat < 2 ^ (8 * size) := by
  unfold mem_read_page at h
  cases htr : translate pg c.mem va .r with
  | mk m r =>
    cases r with
    | error perm => simp [htr] at h
    | ok p =>
      simp only [htr, Access.ok.injEq] at h
      rw [← h.1]
      exact ld_le_lt m p hsize

theorem mem_read_lt {va v : u64} (hsize : size ≤ 8)
    (h : mem_read pg c va size = .ok v c') : v.toNat < 2 ^ (8 * size) := by
  unfold mem_read at h
  by_cases hcross : crosses_page va size = true
  · rw [if_pos hcross] at h
    have hoff := page_off_lt va
    have hsum : GUEST_PAGE_SIZE < page_off va + size := by simpa [crosses_page] using hcross
    generalize hfirst : GUEST_PAGE_SIZE - page_off va = first at h
    cases hlo : mem_read_page pg c va first with
    | fault d => simp [hlo] at h
    | ok lo d =>
      cases hhi : mem_read_page pg d (va + BitVec.ofNat 64 first) (size - first) with
      | fault d => simp [hlo, hhi] at h
      | ok hi d =>
        simp only [hlo, hhi, Access.ok_bind, Access.ok.injEq] at h
        have hlolt := mem_read_page_lt (by omega) hlo
        have hhilt := mem_read_page_lt (by omega) hhi
        have hpow : 2 ^ (8 * (size - first)) * 2 ^ (8 * first) = 2 ^ (8 * size) := by
          rw [← Nat.pow_add]
          congr 1
          omega
        have hle : 2 ^ (8 * size) ≤ 2 ^ 64 := Nat.pow_le_pow_right (by decide) (by omega)
        have hmul : (hi.toNat + 1) * 2 ^ (8 * first) ≤ 2 ^ (8 * size) := by
          rw [← hpow]
          exact Nat.mul_le_mul_right _ hhilt
        rw [Nat.add_mul, Nat.one_mul] at hmul
        rw [← h.1, or_shift_toNat hlolt (by omega)]
        omega
  · rw [if_neg hcross] at h
    exact mem_read_page_lt hsize h

theorem mem_read_trunc32 {va v : u64} (hsize : size ≤ 4)
    (h : mem_read pg c va size = .ok v c') : trunc32 v = v := by
  have hlt := mem_read_lt (by omega) h
  have hpow : 2 ^ (8 * size) ≤ 2 ^ 32 := Nat.pow_le_pow_right (by decide) (by omega)
  apply BitVec.eq_of_toNat_eq
  rw [trunc32_toNat]
  omega

theorem halves_in_page {va : u64} (hcross : ¬ crosses_page va 16 = true) :
    page_off va + 8 < GUEST_PAGE_SIZE ∧ crosses_page va 8 = false ∧ crosses_page (va + 8#64) 8 = false := by
  have hoff : page_off va + 16 ≤ GUEST_PAGE_SIZE := by simpa [crosses_page] using hcross
  have hin : page_off va + 8 < GUEST_PAGE_SIZE := by omega
  refine ⟨hin, by simp [crosses_page]; omega, ?_⟩
  have := (page_add hin).2
  simp only [crosses_page, decide_eq_false_iff_not]
  change ¬ GUEST_PAGE_SIZE < page_off (va + BitVec.ofNat 64 8) + 8
  omega

/-- A 16-byte read is two 8-byte reads, in one page or across two, faulting at
the same address with the same memory. -/
theorem mem_read128_eq (pg : Pager) (c : CPU) (va : u64) :
    mem_read128 pg c va = (mem_read pg c va 8).bind fun d0 c =>
      (mem_read pg c (va + 8#64) 8).bind fun d1 c => .ok (V128.ofD d0 d1) c := by
  unfold mem_read128
  by_cases hcross : crosses_page va 16 = true
  · rw [if_pos hcross]
  rw [if_neg hcross]
  obtain ⟨hin, hlow, hhigh⟩ := halves_in_page hcross
  simp only [mem_read, hlow, hhigh, Bool.false_eq_true, if_false, mem_read_page]
  cases htr : translate pg c.mem va .r with
  | mk m r =>
  cases r with
  | error perm => rfl
  | ok p =>
    have hagain : translate pg m (va + 8#64) .r = _ := translate_again pg (by decide) htr hin rfl
    simp only [Access.ok_bind, hagain]

/-- A 16-byte write is two 8-byte writes: across a page the low half stays stored when the high half faults, and in
one page neither half is. -/
theorem mem_write128_eq (pg : Pager) (c : CPU) (va : u64) (val : V128) :
    mem_write128 pg c va val =
      (mem_write pg c va 8 val.d0).bind fun _ c => mem_write pg c (va + 8#64) 8 val.d1 := by
  unfold mem_write128
  by_cases hcross : crosses_page va 16 = true
  · rw [if_pos hcross]
  rw [if_neg hcross]
  obtain ⟨hin, hlow, hhigh⟩ := halves_in_page hcross
  simp only [mem_write, hlow, hhigh, Bool.false_eq_true, if_false, mem_write_page]
  cases htr : translate pg c.mem va .w with
  | mk m r =>
  cases r with
  | error perm => rfl
  | ok p =>
    have hagain : translate pg _ (va + 8#64) .w = _ := translate_again pg (by decide) htr hin (st_le_pte m p 8 val.d0)
    simp only [Access.ok_bind, hagain]

theorem mem_read128_plain (pg : Pager) (c : CPU) (va : u64) : (mem_read128 pg c va).Plain c := by
  rw [mem_read128_eq]
  exact (mem_read_plain pg c _ _).bind fun _ c => (mem_read_plain pg c _ _).bind fun _ c => ⟨c.mem, rfl⟩

theorem mem_write128_plain (pg : Pager) (c : CPU) (va : u64) (val : V128) :
    (mem_write128 pg c va val).Plain c := by
  rw [mem_write128_eq]
  exact (mem_write_plain pg c _ _ _).bind fun _ c => mem_write_plain pg c _ _ _

end arm64emu
