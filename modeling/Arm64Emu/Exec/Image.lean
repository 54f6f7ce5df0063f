import Mathlib
import Arm64Emu.Exec.Elf

open bytes

namespace arm64emu

open List Option

/-- The byte at an address once the segment is laid over what was there. -/
def seg_byte (f : ElfFile) (base : u64) (a : Nat) (b : u8) (p : Elf64_Phdr) : u8 :=
  if InRange (base + p.p_vaddr).toNat p.p_filesz.toNat a then
    f.content (p.p_offset.toNat + (a - (base + p.p_vaddr).toNat))
  else b

/-- The byte of an image at `a`: of the last segment with file bytes there, or zero. -/
def image_byte (f : ElfFile) (base : u64) (loads : List Elf64_Phdr) (a : Nat) : u8 :=
  loads.foldl (seg_byte f base a) 0#8

def Elf64_Phdr.covers (p : Elf64_Phdr) (base : u64) (pg : Nat) : Prop :=
  InRange (base + PG_DOWN p.p_vaddr).toNat ((p.end_page - p.first_page) * GUEST_PAGE_SIZE) (pg * GUEST_PAGE_SIZE)

instance (p : Elf64_Phdr) (base : u64) (pg : Nat) : Decidable (p.covers base pg) :=
  inferInstanceAs (Decidable (InRange ..))

/-- The protection Linux gives a page: the last segment's over it, or none. -/
def image_prot (base : u64) (loads : List Elf64_Phdr) (pg : Nat) : u8 :=
  ((loads.filter fun p => p.covers base pg).getLast?.map fun p => pf_to_prot p.p_flags).getD 0#8

def union_prot (base : u64) (loads : List Elf64_Phdr) (pg : Nat) : u8 :=
  (loads.filter fun p => p.covers base pg).foldl (fun q p => q ||| pf_to_prot p.p_flags) 0#8

/-- On each page the last segment asks for all that the others on it do. -/
def LastAsksAll (base : u64) (loads : List Elf64_Phdr) : Prop :=
  ∀ pg q, (loads.filter fun p => p.covers base pg).getLast? = some q →
    ∀ p ∈ loads, p.covers base pg → pf_to_prot p.p_flags ||| pf_to_prot q.p_flags = pf_to_prot q.p_flags

section prot

variable {α : Type} {g : α → u8} {x y : u8} {l : List α}

theorem or_le_iff (a b c : u8) : a ||| b ||| c = c ↔ a ||| c = c ∧ b ||| c = c := by
  constructor
  · intro h
    refine ⟨?_, ?_⟩
    · rw [← h]
      ext i
      simp only [BitVec.getElem_or]
      cases a[i] <;> simp
    rw [← h]
    ext i
    simp only [BitVec.getElem_or]
    cases b[i] <;> simp
  · rintro ⟨ha, hb⟩
    rw [BitVec.or_assoc, hb, ha]

theorem foldl_or_le_iff : l.foldl (fun q p => q ||| g p) x ||| y = y ↔ x ||| y = y ∧ ∀ p ∈ l, g p ||| y = y := by
  induction l generalizing x with
  | nil => simp
  | cons p l ih => rw [foldl_cons, ih, or_le_iff, forall_mem_cons, and_assoc]

/-- A union is its last member exactly if that holds all the others. -/
theorem foldl_or_eq_last_iff : l.foldl (fun q p => q ||| g p) 0#8 = (l.getLast?.map g).getD 0#8 ↔
    ∀ q, l.getLast? = some q → ∀ p ∈ l, g p ||| g q = g q := by
  rcases eq_nil_or_concat l with rfl | ⟨l, q, rfl⟩
  · simp
  rw [concat_eq_append, List.getLast?_concat, map_some, getD_some, foldl_append]
  rw [foldl_cons, foldl_nil, foldl_or_le_iff]
  simp only [BitVec.zero_or, true_and, some.injEq, mem_append, mem_singleton]
  constructor
  · rintro h _ rfl p (hp | rfl)
    · exact h p hp
    · exact BitVec.or_self
  · intro h p hp
    exact h q rfl p (.inl hp)

theorem union_prot_eq_iff (base : u64) (loads : List Elf64_Phdr) :
    (∀ pg, union_prot base loads pg = image_prot base loads pg) ↔ LastAsksAll base loads := by
  refine forall_congr' fun pg => ?_
  rw [union_prot, image_prot, foldl_or_eq_last_iff]
  simp only [mem_filter, decide_eq_true_iff, and_imp]

end prot

/-- What the sizing of an image knows of each of its segments. -/
structure Elf64_Phdr.Fits (p : Elf64_Phdr) (lo hi : Nat) : Prop where
  filesz : p.p_filesz.toNat ≤ p.p_memsz.toNat
  low : lo ≤ p.p_vaddr.toNat / GUEST_PAGE_SIZE * GUEST_PAGE_SIZE
  high : p.p_vaddr.toNat + p.p_memsz.toNat ≤ hi

/-- A page-aligned start, and no mark above the end. -/
structure ElfSpan.Ok (s : ElfSpan) : Prop where
  lo : s.lo = -1#64 ∨ GUEST_PAGE_SIZE ∣ s.lo.toNat ∧ s.lo.toNat ≤ s.hi.toNat
  sc : s.sc = -1#64 ∨ s.sc.toNat ≤ s.hi.toNat
  ec : s.ec.toNat ≤ s.hi.toNat
  sd : s.sd.toNat ≤ s.hi.toNat
  ed : s.ed.toNat ≤ s.hi.toNat

theorem toNat_add_of_not_lt {a b : u64} (h : ¬a + b < a) : (a + b).toNat = a.toNat + b.toNat := by
  have ha := a.isLt
  have hb := b.isLt
  rw [BitVec.lt_def, BitVec.toNat_add] at h
  rw [BitVec.toNat_add]
  omega

theorem toNat_if_lt_max (a b : u64) : (if a < b then b else a).toNat = max a.toNat b.toNat := by
  split
  next h => exact (max_eq_right (BitVec.lt_def.1 h).le).symm
  next h => exact (max_eq_left (Nat.not_lt.1 fun hlt => h (BitVec.lt_def.2 hlt))).symm

theorem toNat_if_lt_min (a b : u64) : (if a < b then a else b).toNat = min a.toNat b.toNat := by
  split
  next h => exact (min_eq_left (BitVec.lt_def.1 h).le).symm
  next h => exact (min_eq_right (Nat.not_lt.1 fun hlt => h (BitVec.lt_def.2 hlt))).symm

theorem scan_segment_ok {s s' : ElfSpan} {p : Elf64_Phdr} (hs : s.Ok) (h : scan_segment s p = .ok s') :
    s'.Ok ∧ p.Fits s'.lo.toNat s'.hi.toNat ∧ s'.lo.toNat ≤ s.lo.toNat ∧ s.hi.toNat ≤ s'.hi.toNat := by
  unfold scan_segment at h
  split at h
  · cases h
  rename_i hsize
  dsimp only at h
  split at h
  · cases h
  rename_i hwrap
  rw [BitVec.lt_def] at hsize
  have hstop := toNat_add_of_not_lt hwrap
  have hfend : (p.p_vaddr + p.p_filesz).toNat = p.p_vaddr.toNat + p.p_filesz.toNat := by
    have hlt := (p.p_vaddr + p.p_memsz).isLt
    rw [BitVec.toNat_add]
    omega
  have hlo := toNat_if_lt_min (PG_DOWN p.p_vaddr) s.lo
  have hhi := toNat_if_lt_max s.hi (p.p_vaddr + p.p_memsz)
  have hsd := toNat_if_lt_max s.sd p.p_vaddr
  have hed := toNat_if_lt_max s.ed (p.p_vaddr + p.p_filesz)
  have hdown := toNat_PG_DOWN p.p_vaddr
  have hpage := Nat.div_mul_le_self p.p_vaddr.toNat GUEST_PAGE_SIZE
  obtain ⟨hslo, hssc, hsec, hssd, hsed⟩ := hs
  cases h
  refine ⟨⟨?_, ?_, ?_, ?_, ?_⟩, ⟨by omega, ?_, ?_⟩, ?_, ?_⟩
  · refine .inr ⟨?_, by dsimp only; omega⟩
    dsimp only
    split
    · rw [hdown]; exact Nat.dvd_mul_left ..
    rename_i hge
    rcases hslo with htop | hslo
    · have hvaddr := p.p_vaddr.isLt
      have hlt : p.p_vaddr.toNat / GUEST_PAGE_SIZE * GUEST_PAGE_SIZE < (-1#64).toNat := by
        rw [show (-1#64).toNat = 2 ^ 64 - 1 by decide]
        unfold GUEST_PAGE_SIZE
        omega
      exact absurd (BitVec.lt_def.2 (by rw [hdown, htop]; exact hlt)) hge
    · exact hslo.1
  · dsimp only
    split
    next hx => exact .inr (by omega)
    next => exact hssc.imp_right fun h => by omega
  · dsimp only
    split <;> omega
  · dsimp only
    omega
  · dsimp only
    omega
  · dsimp only
    omega
  · dsimp only
    omega
  · dsimp only
    omega
  · dsimp only
    omega

theorem scan_segments_ok {loads : List Elf64_Phdr} {s s' : ElfSpan} (hs : s.Ok)
    (h : scan_segments loads s = .ok s') :
    s'.Ok ∧ s'.lo.toNat ≤ s.lo.toNat ∧ s.hi.toNat ≤ s'.hi.toNat ∧ ∀ p ∈ loads, p.Fits s'.lo.toNat s'.hi.toNat := by
  induction loads generalizing s with
  | nil =>
    cases h
    exact ⟨hs, le_rfl, le_rfl, fun p hp => nomatch hp⟩
  | cons p ps ih =>
    rw [scan_segments] at h
    split at h
    · cases h
    rename_i s₁ hscan
    obtain ⟨hs₁, hfits, hlo, hhi⟩ := scan_segment_ok hs hscan
    obtain ⟨hs', hlo', hhi', hall⟩ := ih hs₁ h
    refine ⟨hs', hlo'.trans hlo, hhi.trans hhi', fun p' hp' => ?_⟩
    rcases mem_cons.1 hp' with rfl | hp'
    · exact ⟨hfits.filesz, hlo'.trans hfits.low, hfits.high.trans hhi'⟩
    · exact hall p' hp'

section copy

variable {f : ElfFile} {p : Elf64_Phdr} {base lo va : u64} {as as' : Space} {loads : List Elf64_Phdr}
  {pageprot pageprot' : Nat → u8}

def Space.WritableRange (as : Space) (addr len : Nat) : Prop :=
  ∀ a, InRange addr len a → ∃ prot, as.prot (a / GUEST_PAGE_SIZE) = some prot ∧ prot &&& PTE_W ≠ 0#8

theorem toNat_add_ofNat {x : u64} {n : Nat} (h : x.toNat + n < 2 ^ 64) :
    (x + BitVec.ofNat 64 n).toNat = x.toNat + n := by
  rw [BitVec.toNat_add, BitVec.toNat_ofNat]
  omega

/-- A segment that is copied has its file bytes at its address, all read at offsets
that do not wrap, and nothing else is stored. -/
theorem copy_segment_ok {done : Nat} (hend : va.toNat + p.p_filesz.toNat ≤ GUEST_TASK_SIZE)
    (hw : as.WritableRange va.toNat p.p_filesz.toNat) (hoff : done = 0 ∨ p.p_offset.toNat + done ≤ 2 ^ 63 + 65536)
    (h : copy_segment f p va done as = .ok as') :
    as'.prot = as.prot ∧ (done < p.p_filesz.toNat → p.p_offset.toNat + p.p_filesz.toNat ≤ 2 ^ 63 + 65536) ∧
      ∀ a, as'.byte a = if InRange (va.toNat + done) (p.p_filesz.toNat - done) a then
        f.content (p.p_offset.toNat + (a - va.toNat)) else as.byte a := by
  induction hn : p.p_filesz.toNat - done using Nat.strong_induction_on generalizing done as with
  | _ n ih =>
    rw [copy_segment] at h
    split at h
    case isFalse hdone =>
      cases h
      refine ⟨rfl, fun hlt => absurd hlt hdone, fun a => ?_⟩
      rw [if_neg]
      rintro ⟨hle, hlt⟩
      omega
    case isTrue hdone =>
    split at h
    · cases h
    rename_i l hread
    split at h
    · cases h
    rename_i hne
    split at h
    · cases h
    rename_i as₁ hcopy
    have htask : GUEST_TASK_SIZE = 2 ^ 47 := rfl
    have hoffset := p.p_offset.isLt
    have hpos := length_pos_of_ne_nil hne
    have hlen := f.pread_len _ _ _ hread
    have hread_off := f.pread_off _ _ _ hread
    have hbytes := f.pread_bytes _ _ _ hread
    have hat : (va + BitVec.ofNat 64 done).toNat = va.toNat + done := toNat_add_ofNat (by omega)
    have hfrom : (p.p_offset + BitVec.ofNat 64 done).toNat = p.p_offset.toNat + done := toNat_add_ofNat (by omega)
    rw [hfrom] at hread_off hbytes
    have hw' : as.WritableRange (va + BitVec.ofNat 64 done).toNat l.length := by
      rintro a ⟨hle, hlt⟩
      exact hw a ⟨by omega, by omega⟩
    obtain ⟨as₂, hcopy₂, hprot, hbyte⟩ := copy_to_guest_ok (by omega) hw'
    rw [hcopy] at hcopy₂
    cases hcopy₂
    have hw₁ : as₁.WritableRange va.toNat p.p_filesz.toNat := by
      intro a ha
      rw [hprot]
      exact hw a ha
    obtain ⟨hprot', hoff', hbyte'⟩ := ih _ (by omega) hw₁ (.inr (by omega)) h rfl
    refine ⟨hprot'.trans hprot, fun _ => ?_, fun a => ?_⟩
    · by_cases hmore : done + l.length < p.p_filesz.toNat
      · exact hoff' hmore
      · omega
    rw [hbyte', hbyte, hat]
    -- the bytes of this read, of a later one, or of none
    by_cases hlater : InRange (va.toNat + (done + l.length)) (p.p_filesz.toNat - (done + l.length)) a
    · obtain ⟨hle, hlt⟩ := hlater
      rw [if_pos ⟨hle, hlt⟩, if_pos ⟨by omega, by omega⟩]
    rw [if_neg hlater]
    by_cases hhere : InRange (va.toNat + done) l.length a
    · obtain ⟨hle, hlt⟩ := hhere
      rw [if_pos ⟨hle, hlt⟩, if_pos ⟨hle, by omega⟩, hbytes _ (by omega)]
      congr 1
      omega
    rw [if_neg hhere, if_neg]
    rintro ⟨hle, hlt⟩
    rcases Nat.lt_or_ge a (va.toNat + done + l.length) with hlow | hhigh
    · exact hhere ⟨hle, hlow⟩
    · exact hlater ⟨by omega, by omega⟩

theorem foldl_update_or (q : u8) (c first n : Nat) (hc : c ≤ first) (pp : Nat → u8) (k : Nat) :
    (List.range' first n).foldl (fun pp pg => Function.update pp (pg - c) (pp (pg - c) ||| q)) pp k =
      if InRange first n (k + c) then pp k ||| q else pp k := by
  induction n generalizing first pp with
  | zero =>
    rw [if_neg]
    · rfl
    · rintro ⟨hle, hlt⟩
      omega
  | succ n ih =>
    rw [List.range'_succ, foldl_cons, ih (first + 1) (by omega)]
    by_cases hk : k = first - c
    · subst hk
      rw [Function.update_self, if_neg (fun h => by have := h.1; omega), if_pos ⟨by omega, by omega⟩]
    rw [Function.update_of_ne hk]
    by_cases hin : InRange (first + 1) n (k + c)
    · rw [if_pos hin, if_pos ⟨by have := hin.1; omega, by have := hin.2; omega⟩]
    rw [if_neg hin, if_neg]
    rintro ⟨hle, hlt⟩
    exact hin ⟨by omega, by omega⟩

end copy

section protect

variable {pageprot : Nat → u8} {span i j : Nat} {start : u64} {as : Space}

theorem run_end_le (hj : j ≤ span) : run_end pageprot span i j ≤ span := by
  fun_induction run_end pageprot span i j with
  | case1 j h ih => exact ih h.1
  | case2 j h => exact hj

theorem run_end_equal (hj : ∀ k, i ≤ k → k < j → pageprot k = pageprot i) :
    ∀ k, i ≤ k → k < run_end pageprot span i j → pageprot k = pageprot i := by
  fun_induction run_end pageprot span i j with
  | case1 j h ih =>
    refine ih fun k hik hkj => ?_
    rcases Nat.lt_succ_iff_lt_or_eq.1 hkj with hlt | rfl
    · exact hj k hik hlt
    · exact h.2
  | case2 j h => exact hj

theorem toNat_ofNat_shift {n : Nat} (h : n * GUEST_PAGE_SIZE < 2 ^ 64) :
    (BitVec.ofNat 64 n <<< 12).toNat = n * GUEST_PAGE_SIZE := by
  unfold GUEST_PAGE_SIZE at *
  rw [BitVec.toNat_shiftLeft, BitVec.toNat_ofNat, Nat.shiftLeft_eq]
  omega

theorem protect_runs_ok (hstart : GUEST_PAGE_SIZE ∣ start.toNat)
    (hspan : start.toNat + span * GUEST_PAGE_SIZE ≤ GUEST_TASK_SIZE)
    (hmapped : ∀ k < span, (as.prot (start.toNat / GUEST_PAGE_SIZE + k)).isSome) :
    (protect_runs pageprot span start i as).byte = as.byte ∧
      ∀ pg, (protect_runs pageprot span start i as).prot pg =
        if InRange (start.toNat / GUEST_PAGE_SIZE + i) (span - i) pg then
          some (pageprot (pg - start.toNat / GUEST_PAGE_SIZE)) else as.prot pg := by
  obtain ⟨sp, hsp⟩ := hstart
  have hpage : start.toNat / GUEST_PAGE_SIZE = sp := by rw [hsp, Nat.mul_div_cancel_left _ (by decide)]
  have htask : GUEST_TASK_SIZE = 2 ^ 47 := rfl
  rw [hpage] at hmapped ⊢
  induction hn : span - i using Nat.strong_induction_on generalizing i as with
  | _ n ih =>
    rw [protect_runs]
    split
    case isFalse hdone =>
      refine ⟨rfl, fun pg => ?_⟩
      rw [if_neg]
      rintro ⟨hle, hlt⟩
      omega
    case isTrue hi =>
      have hnext := le_run_end pageprot span i (i + 1)
      have hlast : run_end pageprot span i (i + 1) ≤ span := run_end_le (Nat.succ_le_of_lt hi)
      have hequal : ∀ k, i ≤ k → k < run_end pageprot span i (i + 1) → pageprot k = pageprot i :=
        run_end_equal fun k hik hki => by rw [Nat.le_antisymm (Nat.le_of_lt_succ hki) hik]
      generalize hj : run_end pageprot span i (i + 1) = j at *
      have hrun : (BitVec.ofNat 64 (j - i) <<< 12).toNat = (j - i) * GUEST_PAGE_SIZE := by
        refine toNat_ofNat_shift ?_
        unfold GUEST_PAGE_SIZE at *
        omega
      have hfrom : (start + BitVec.ofNat 64 i <<< 12).toNat = (sp + i) * GUEST_PAGE_SIZE := by
        have hoff : (BitVec.ofNat 64 i <<< 12).toNat = i * GUEST_PAGE_SIZE := by
          refine toNat_ofNat_shift ?_
          unfold GUEST_PAGE_SIZE at *
          omega
        rw [BitVec.toNat_add, hoff, hsp]
        unfold GUEST_PAGE_SIZE at *
        omega
      have hin : ∀ pg, InRange (sp + i) (j - i) pg → (as.prot pg).isSome := by
        rintro pg ⟨hle, hlt⟩
        have hsome := hmapped (pg - sp) (by omega)
        rwa [Nat.add_sub_cancel' (by omega)] at hsome
      obtain ⟨as₁, hprotect, hbyte, hprot⟩ := guest_protect_ok (pageprot i) hfrom hrun
        (by unfold GUEST_PAGE_SIZE at *; omega) hin
      have hmapped₁ : ∀ k < span, (as₁.prot (sp + k)).isSome := by
        intro k hk
        rw [hprot]
        split
        · rfl
        · exact hmapped k hk
      obtain ⟨hbyte', hprot'⟩ := ih (span - j) (by omega) hmapped₁ rfl
      dsimp only
      rw [hprotect, Except.toOption, getD_some]
      refine ⟨hbyte'.trans hbyte, fun pg => ?_⟩
      rw [hprot', hprot]
      -- the pages of this run, of a later one, or of none
      by_cases hlater : InRange (sp + j) (span - j) pg
      · obtain ⟨hle, hlt⟩ := hlater
        rw [if_pos ⟨hle, hlt⟩, if_pos ⟨by omega, by omega⟩]
      rw [if_neg hlater]
      by_cases hhere : InRange (sp + i) (j - i) pg
      · obtain ⟨hle, hlt⟩ := hhere
        rw [if_pos ⟨hle, hlt⟩, if_pos ⟨hle, by omega⟩, hequal (pg - sp) (by omega) (by omega)]
      rw [if_neg hhere, if_neg]
      rintro ⟨hle, hlt⟩
      rcases Nat.lt_or_ge pg (sp + j) with hlow | hhigh
      · exact hhere ⟨hle, by omega⟩
      · exact hlater ⟨hhigh, by omega⟩

end protect

section place

variable {f : ElfFile} {p : Elf64_Phdr} {base lo hi : u64} {top pg : Nat} {as as' : Space} {loads : List Elf64_Phdr}
  {pageprot pageprot' : Nat → u8}

/-- A span of whole pages that lies in the address space once the base is added,
which may wrap. -/
structure Placed (base lo hi : u64) : Prop where
  lo_aligned : GUEST_PAGE_SIZE ∣ lo.toNat
  start_aligned : GUEST_PAGE_SIZE ∣ (base + lo).toNat
  lo_le : lo.toNat ≤ hi.toNat
  stop : (base + lo).toNat + (hi.toNat - lo.toNat) ≤ GUEST_TASK_SIZE

theorem Placed.toNat_add (h : Placed base lo hi) {x : u64} (hlo : lo.toNat ≤ x.toNat) (hhi : x.toNat ≤ hi.toNat) :
    (base + x).toNat = (base + lo).toNat + (x.toNat - lo.toNat) := by
  have hstop := h.stop
  have htask : GUEST_TASK_SIZE = 2 ^ 47 := rfl
  rw [BitVec.toNat_add] at hstop ⊢
  rw [BitVec.toNat_add]
  omega

theorem Elf64_Phdr.Fits.pages (h : p.Fits lo.toNat top) (htop : top + 4095 < 2 ^ 64) :
    p.first_page = p.p_vaddr.toNat / GUEST_PAGE_SIZE ∧
      p.end_page = (p.p_vaddr.toNat + p.p_memsz.toNat + 4095) / GUEST_PAGE_SIZE := by
  have hhigh := h.high
  have hsum : (p.p_vaddr + p.p_memsz).toNat = p.p_vaddr.toNat + p.p_memsz.toNat := by
    rw [BitVec.toNat_add]
    omega
  refine ⟨?_, ?_⟩
  · rw [Elf64_Phdr.first_page, toNat_PG_DOWN, Nat.mul_div_cancel _ (by decide)]
  · rw [Elf64_Phdr.end_page, toNat_PG_UP (by omega), hsum, Nat.mul_div_cancel _ (by decide)]

variable (pg) in
theorem Placed.covers_iff (h : Placed base lo hi) (hfits : p.Fits lo.toNat top) (htop : top + 4095 < 2 ^ 64)
    (hhi : hi.toNat = (top + 4095) / GUEST_PAGE_SIZE * GUEST_PAGE_SIZE) :
    (p.covers base pg ↔ (base + lo).toNat / GUEST_PAGE_SIZE ≤ pg ∧
      InRange p.first_page (p.end_page - p.first_page)
        (pg - (base + lo).toNat / GUEST_PAGE_SIZE + lo.toNat / GUEST_PAGE_SIZE)) ∧
    (p.covers base pg → InRange (base + lo).toNat (hi.toNat - lo.toNat) (pg * GUEST_PAGE_SIZE)) := by
  obtain ⟨hfirst, hend⟩ := hfits.pages htop
  obtain ⟨lp, hlp⟩ := h.lo_aligned
  obtain ⟨sp, hsp⟩ := h.start_aligned
  have hlow := hfits.low
  have hhigh := hfits.high
  have hdown := toNat_PG_DOWN p.p_vaddr
  have hbase : (base + PG_DOWN p.p_vaddr).toNat = (base + lo).toNat + ((PG_DOWN p.p_vaddr).toNat - lo.toNat) := by
    refine h.toNat_add (by omega) ?_
    unfold GUEST_PAGE_SIZE at *
    omega
  rw [Elf64_Phdr.covers, hbase, hdown, hfirst, hend]
  unfold InRange GUEST_PAGE_SIZE at *
  constructor
  · constructor
    · rintro ⟨hle, hlt⟩
      omega
    · rintro ⟨hge, hle, hlt⟩
      omega
  · rintro ⟨hle, hlt⟩
    omega

theorem Placed.in_span (h : Placed base lo hi) (hfits : p.Fits lo.toNat top) (htop : top ≤ hi.toNat) {a : Nat}
    (ha : InRange (base + p.p_vaddr).toNat p.p_filesz.toNat a) : InRange (base + lo).toNat (hi.toNat - lo.toNat) a := by
  have hfile := hfits.filesz
  have hlow := hfits.low.trans (Nat.div_mul_le_self _ _)
  have hhigh := hfits.high
  rw [h.toNat_add hlow (by omega)] at ha
  obtain ⟨hle, hlt⟩ := ha
  exact ⟨by omega, by omega⟩

theorem foldl_seg_byte_outside {a : Nat} {b : u8}
    (h : ∀ p ∈ loads, ¬InRange (base + p.p_vaddr).toNat p.p_filesz.toNat a) :
    loads.foldl (seg_byte f base a) b = b := by
  induction loads generalizing b with
  | nil => rfl
  | cons p ps ih =>
    rw [foldl_cons, seg_byte, if_neg (h p mem_cons_self)]
    exact ih fun p hp => h p (.tail _ hp)

theorem load_segments_ok (h : Placed base lo hi) (hfits : ∀ p ∈ loads, p.Fits lo.toNat top) (htop : top ≤ hi.toNat)
    (hw : as.WritableRange (base + lo).toNat (hi.toNat - lo.toNat))
    (hload : load_segments f base lo loads as pageprot = .ok (as', pageprot')) :
    as'.prot = as.prot ∧ (∀ a, as'.byte a = loads.foldl (seg_byte f base a) (as.byte a)) ∧
      (∀ k, pageprot' k = loads.foldl (fun q p =>
        if InRange p.first_page (p.end_page - p.first_page) (k + lo.toNat / GUEST_PAGE_SIZE) then
          q ||| pf_to_prot p.p_flags else q) (pageprot k)) ∧
      ∀ p ∈ loads, 0 < p.p_filesz.toNat → p.p_offset.toNat + p.p_filesz.toNat ≤ 2 ^ 63 + 65536 := by
  induction loads generalizing as pageprot with
  | nil =>
    cases hload
    exact ⟨rfl, fun a => rfl, fun k => rfl, fun p hp => nomatch hp⟩
  | cons p ps ih =>
    rw [load_segments] at hload
    split at hload
    · cases hload
    rename_i as₁ hcopy
    have hp := hfits p (.head _)
    have hfile := hp.filesz
    have hhigh := hp.high
    have hstop := h.stop
    have hlow := hp.low.trans (Nat.div_mul_le_self _ _)
    have hva := h.toNat_add hlow (by omega)
    have hrange : as.WritableRange (base + p.p_vaddr).toNat p.p_filesz.toNat :=
      fun a ha => hw a (h.in_span hp htop ha)
    obtain ⟨hprot, hoff, hbyte⟩ := copy_segment_ok (by omega) hrange (.inl rfl) hcopy
    have hw₁ : as₁.WritableRange (base + lo).toNat (hi.toNat - lo.toNat) := by
      intro a ha
      rw [hprot]
      exact hw a ha
    obtain ⟨hprot', hbyte', hpp, hoff'⟩ := ih (fun p hp => hfits p (.tail _ hp)) hw₁ hload
    refine ⟨hprot'.trans hprot, fun a => ?_, fun k => ?_, fun p' hp' => ?_⟩
    · rw [hbyte', foldl_cons, hbyte, Nat.add_zero, Nat.sub_zero]
      rfl
    · have hfirst : lo.toNat / GUEST_PAGE_SIZE ≤ p.first_page := by
        rw [Elf64_Phdr.first_page, toNat_PG_DOWN]
        exact Nat.div_le_div_right hp.low
      rw [hpp, foldl_cons, add_prot, foldl_update_or _ _ _ _ hfirst]
    rcases mem_cons.1 hp' with rfl | hp'
    · exact hoff
    · exact hoff' p' hp'

end place

section image

variable {e : LoadEnv} {f : ElfFile} {fixed_base base : u64} {as as' : Space} {out : LoadInfo} {eh : Elf64_Ehdr}
  {ph : List Elf64_Phdr} {s : ElfSpan}

/-- The span of the image at `base` has the segments' bytes, its pages without a
segment have no access, and nothing else has changed. -/
structure ImageLoaded (f : ElfFile) (base : u64) (s : ElfSpan) (loads : List Elf64_Phdr) (as as' : Space) : Prop where
  bytes : ∀ a, InRange (base + s.lo).toNat ((PG_UP s.hi).toNat - s.lo.toNat) a → as'.byte a = image_byte f base loads a
  bare : ∀ pg, InRange (base + s.lo).toNat ((PG_UP s.hi).toNat - s.lo.toNat) (pg * GUEST_PAGE_SIZE) →
    (∀ p ∈ loads, ¬p.covers base pg) → as'.prot pg = some 0#8
  outside_byte : ∀ a, ¬InRange (base + s.lo).toNat ((PG_UP s.hi).toNat - s.lo.toNat) a → as'.byte a = as.byte a
  outside_prot : ∀ pg, ¬InRange (base + s.lo).toNat ((PG_UP s.hi).toNat - s.lo.toNat) (pg * GUEST_PAGE_SIZE) →
    as'.prot pg = as.prot pg

/-- None of the sums and differences the loader makes of addresses, sizes and
offsets leaves 64 bits. -/
structure NoWrap (e : LoadEnv) (fixed_base : u64) (eh : Elf64_Ehdr) (s : ElfSpan) (loads : List Elf64_Phdr)
    (base : u64) :
    Prop where
  extent : ∀ p ∈ loads, p.p_vaddr.toNat + p.p_memsz.toNat + 4095 < 2 ^ 64 ∧
    p.p_vaddr.toNat + p.p_filesz.toNat < 2 ^ 64
  top : s.hi.toNat + 4095 < 2 ^ 64
  length : s.lo.toNat ≤ (PG_UP s.hi).toNat
  bias : eh.e_type = ET_DYN → fixed_base = -1#64 → s.lo.toNat ≤ (e.as_find_free (PG_UP s.hi - s.lo)).toNat
  span : base.toNat + s.lo.toNat < 2 ^ 64 ∧ base.toNat + (PG_UP s.hi).toNat < 2 ^ 64
  segment : ∀ p ∈ loads, base.toNat + p.p_vaddr.toNat + p.p_filesz.toNat < 2 ^ 64
  file : ∀ p ∈ loads, p.p_offset.toNat + p.p_filesz.toNat < 2 ^ 64
  code : (s.sc ≠ -1#64 → base.toNat + s.sc.toNat < 2 ^ 64) ∧ base.toNat + s.ec.toNat < 2 ^ 64
  data : base.toNat + s.sd.toNat < 2 ^ 64 ∧ base.toNat + s.ed.toNat < 2 ^ 64
  entry : base.toNat + eh.e_entry.toNat < 2 ^ 64
  table : eh.e_phoff.toNat + eh.e_phnum * PHDR_SIZE < 2 ^ 64
  phdr : ∀ p ∈ loads, p.p_offset ≤ eh.e_phoff →
    eh.e_phoff + BitVec.ofNat 64 (eh.e_phnum * PHDR_SIZE) ≤ p.p_offset + p.p_filesz →
    base.toNat + p.p_vaddr.toNat + (eh.e_phoff.toNat - p.p_offset.toNat) < 2 ^ 64

/-- The base leaves the span and the entry below `2 ^ 64`, and was not itself made
by a difference that wraps. -/
def BaseFits (e : LoadEnv) (fixed_base : u64) (eh : Elf64_Ehdr) (s : ElfSpan) (base : u64) : Prop :=
  base.toNat + (PG_UP s.hi).toNat < 2 ^ 64 ∧ base.toNat + eh.e_entry.toNat < 2 ^ 64 ∧
    (eh.e_type = ET_DYN → fixed_base = -1#64 → s.lo.toNat ≤ (e.as_find_free (PG_UP s.hi - s.lo)).toNat)

theorem bind_eq_ok_iff {α β : Type} {x : Except Int α} {g : α → Except Int β} {r : β} :
    x >>= g = .ok r ↔ ∃ a, x = .ok a ∧ g a = .ok r := by
  cases x with
  | error e =>
    constructor
    · intro h
      cases h
    · rintro ⟨a, h, -⟩
      cases h
  | ok a =>
    constructor
    · exact fun h => ⟨a, rfl, h⟩
    rintro ⟨a', h, hr⟩
    cases h
    exact hr

variable {interp : List u8}

theorem load_image_cases (h : load_image e f fixed_base as interp eh ph = .ok (as', out)) :
    ∃ s as₁ as₂ pageprot, scan_segments (load_phdrs ph) .empty = .ok s ∧ s.lo ≠ -1#64 ∧ ¬~~~GUEST_PAGE_MASK < s.hi ∧
      guest_map_anon as e.host_alloc (out.base + s.lo) (PG_UP s.hi - s.lo) (PTE_R ||| PTE_W) = .ok as₁ ∧
      load_segments f out.base s.lo (load_phdrs ph) as₁ (fun _ => 0#8) = .ok (as₂, pageprot) ∧
      as' = protect_runs pageprot ((PG_UP s.hi - s.lo) >>> 12).toNat (out.base + s.lo) 0 as₂ := by
  rw [load_image, bind_eq_ok_iff] at h
  obtain ⟨s, hscan, h⟩ := h
  split at h
  · cases h
  rename_i hlo
  split at h
  · cases h
  rename_i hhi
  dsimp only at h
  rw [bind_eq_ok_iff] at h
  obtain ⟨base, hbase, h⟩ := h
  rw [bind_eq_ok_iff] at h
  obtain ⟨as₁, hmap, h⟩ := h
  split at h
  · cases h
  rw [bind_eq_ok_iff] at h
  obtain ⟨⟨as₂, pageprot⟩, hload, h⟩ := h
  cases h
  exact ⟨s, as₁, as₂, pageprot, hscan, hlo, hhi, hmap, hload, rfl⟩

/-- The segments of an image that is accepted, its span and what is loaded there. -/
theorem load_image_ok (h : load_image e f fixed_base as interp eh ph = .ok (as', out)) :
    ∃ s, scan_segments (load_phdrs ph) .empty = .ok s ∧ s.Ok ∧ s.hi.toNat + 4095 < 2 ^ 64 ∧
      Placed out.base s.lo (PG_UP s.hi) ∧ (∀ p ∈ load_phdrs ph, p.Fits s.lo.toNat s.hi.toNat) ∧
      ImageLoaded f out.base s (load_phdrs ph) as as' ∧
      (∀ pg, InRange (out.base + s.lo).toNat ((PG_UP s.hi).toNat - s.lo.toNat) (pg * GUEST_PAGE_SIZE) →
        as'.prot pg = some (union_prot out.base (load_phdrs ph) pg)) ∧
      ∀ p ∈ load_phdrs ph, 0 < p.p_filesz.toNat → p.p_offset.toNat + p.p_filesz.toNat ≤ 2 ^ 63 + 65536 := by
  obtain ⟨s, as₁, as₂, pageprot, hscan, hne, hlast, hmap, hload, rfl⟩ := load_image_cases h
  have hempty : ElfSpan.empty.Ok := ⟨.inl rfl, .inl rfl, le_rfl, le_rfl, le_rfl⟩
  obtain ⟨hok, -, -, hfits⟩ := scan_segments_ok hempty hscan
  have htop : s.hi.toNat + 4095 < 2 ^ 64 := by
    rw [BitVec.lt_def] at hlast
    have hmask : (~~~GUEST_PAGE_MASK).toNat = 2 ^ 64 - 4096 := by decide
    omega
  have hup := toNat_PG_UP htop
  obtain ⟨hlo_aligned, hlo_le⟩ := hok.lo.resolve_left hne
  obtain ⟨hstart, hlen_aligned, hstop, hpos, hprot₁, hbyte₁⟩ := guest_map_anon_ok hmap
  have hle : s.lo.toNat ≤ (PG_UP s.hi).toNat := by
    rw [hup]
    unfold GUEST_PAGE_SIZE
    omega
  have hlen : (PG_UP s.hi - s.lo).toNat = (PG_UP s.hi).toNat - s.lo.toNat :=
    BitVec.toNat_sub_of_le (BitVec.le_def.2 hle)
  rw [hlen] at hlen_aligned hstop hpos hprot₁ hbyte₁
  have hplaced : Placed out.base s.lo (PG_UP s.hi) := ⟨hlo_aligned, hstart, hle, hstop⟩
  obtain ⟨sp, hsp⟩ := hstart
  obtain ⟨n, hn⟩ := hlen_aligned
  have hpage : (out.base + s.lo).toNat / GUEST_PAGE_SIZE = sp := by rw [hsp, Nat.mul_div_cancel_left _ (by decide)]
  have hspan : ((PG_UP s.hi - s.lo) >>> 12).toNat = n := by
    rw [BitVec.toNat_ushiftRight, hlen, Nat.shiftRight_eq_div_pow, hn]
    exact Nat.mul_div_cancel_left _ (by decide)
  have hin : ∀ pg, InRange (out.base + s.lo).toNat ((PG_UP s.hi).toNat - s.lo.toNat) (pg * GUEST_PAGE_SIZE) ↔
      InRange sp n pg := by
    intro pg
    rw [hn, hsp]
    unfold InRange GUEST_PAGE_SIZE
    omega
  have hw : as₁.WritableRange (out.base + s.lo).toNat ((PG_UP s.hi).toNat - s.lo.toNat) := by
    intro a ha
    refine ⟨PTE_R ||| PTE_W, ?_, by decide⟩
    rw [hprot₁, if_pos]
    rw [hin]
    rw [hn, hsp] at ha
    unfold InRange GUEST_PAGE_SIZE at *
    omega
  obtain ⟨hprot₂, hbyte₂, hpp, hoff⟩ :=
    load_segments_ok hplaced hfits (by rw [hup]; unfold GUEST_PAGE_SIZE; omega) hw hload
  have hmapped : ∀ k < n, (as₂.prot ((out.base + s.lo).toNat / GUEST_PAGE_SIZE + k)).isSome := by
    intro k hk
    rw [hprot₂, hprot₁, hpage, if_pos ((hin _).2 ⟨Nat.le_add_right _ _, by omega⟩)]
    rfl
  obtain ⟨hbyte₃, hprot₃⟩ : (protect_runs pageprot n (out.base + s.lo) 0 as₂).byte = as₂.byte ∧ _ :=
    protect_runs_ok ⟨sp, hsp⟩ (by rw [hn, Nat.mul_comm] at hstop; exact hstop) hmapped
  rw [hpage, Nat.add_zero, Nat.sub_zero] at hprot₃
  have hunion : ∀ pg, InRange sp n pg → pageprot (pg - sp) = union_prot out.base (load_phdrs ph) pg := by
    intro pg hpg
    rw [hpp, union_prot, foldl_filter]
    refine foldl_ext _ _ _ fun q p hp => ?_
    have hcovers := (hplaced.covers_iff pg (hfits p hp) htop hup).1
    rw [hpage] at hcovers
    simp only [hcovers, hpg.1, true_and, decide_eq_true_eq]
  rw [hspan]
  have hprots : ∀ pg, InRange (out.base + s.lo).toNat ((PG_UP s.hi).toNat - s.lo.toNat) (pg * GUEST_PAGE_SIZE) →
      (protect_runs pageprot n (out.base + s.lo) 0 as₂).prot pg =
        some (union_prot out.base (load_phdrs ph) pg) := by
    intro pg hpg
    rw [hin] at hpg
    rw [hprot₃, if_pos hpg, hunion pg hpg]
  refine ⟨s, hscan, hok, htop, hplaced, hfits,
    ⟨fun a ha => ?_, fun pg hpg hbare => ?_, fun a ha => ?_, fun pg hpg => ?_⟩,
    hprots, hoff⟩
  · rw [hbyte₃, hbyte₂, hbyte₁, if_pos ha, image_byte]
  · have hnone : (load_phdrs ph).filter (fun p => p.covers out.base pg) = [] := by
      rw [filter_eq_nil_iff]
      intro p hp
      rw [decide_eq_true_iff]
      exact hbare p hp
    rw [hprots pg hpg, union_prot, hnone]
    rfl
  · rw [hbyte₃, hbyte₂, hbyte₁, if_neg ha]
    exact foldl_seg_byte_outside fun p hp hpa =>
        ha (hplaced.in_span (hfits p hp) (by rw [hup]; unfold GUEST_PAGE_SIZE; omega) hpa)
  · rw [hprot₃, if_neg (fun h => hpg ((hin pg).2 h)), hprot₂, hprot₁, if_neg hpg]

/-- Sums from a base that fits do not wrap, since each other term is below the top
of the span, which was checked. -/
theorem BaseFits.noWrap {loads : List Elf64_Phdr} (hfit : BaseFits e fixed_base eh s base) (hok : s.Ok)
    (htop : s.hi.toNat + 4095 < 2 ^ 64) (hplaced : Placed base s.lo (PG_UP s.hi))
    (hfits : ∀ p ∈ loads, p.Fits s.lo.toNat s.hi.toNat)
    (hoff : ∀ p ∈ loads, 0 < p.p_filesz.toNat → p.p_offset.toNat + p.p_filesz.toNat ≤ 2 ^ 63 + 65536)
    (hphoff : eh.e_phoff.toNat < 2 ^ 63) (hphnum : 0 < eh.e_phnum ∧ eh.e_phnum ≤ 128) :
    NoWrap e fixed_base eh s loads base := by
  obtain ⟨hspan, hentry, hbias⟩ := hfit
  have hup := toNat_PG_UP htop
  have hhi : s.hi.toNat ≤ (PG_UP s.hi).toNat := by
    rw [hup]
    unfold GUEST_PAGE_SIZE
    omega
  have hle := hplaced.lo_le
  have htable : eh.e_phoff.toNat + eh.e_phnum * PHDR_SIZE < 2 ^ 64 := by
    unfold PHDR_SIZE
    omega
  have hfile : ∀ p ∈ loads, p.p_offset.toNat + p.p_filesz.toNat < 2 ^ 64 := by
    intro p hp
    have hlt := p.p_offset.isLt
    have hpoff := hoff p hp
    omega
  have hsegment : ∀ p ∈ loads, base.toNat + p.p_vaddr.toNat + p.p_filesz.toNat < 2 ^ 64 := by
    intro p hp
    have hsize := (hfits p hp).filesz
    have hhigh := (hfits p hp).high
    omega
  refine ⟨fun p hp => ?_, htop, hle, hbias, ⟨by omega, hspan⟩, hsegment, hfile, ⟨fun hsc => ?_, ?_⟩, ⟨?_, ?_⟩, hentry,
    htable, fun p hp hfirst hlast => ?_⟩
  · have hsize := (hfits p hp).filesz
    have hhigh := (hfits p hp).high
    omega
  · have := hok.sc.resolve_left hsc
    omega
  · have := hok.ec
    omega
  · have := hok.sd
    omega
  · have := hok.ed
    omega
  -- the table is inside the file bytes of the segment
  have hseg := hsegment p hp
  have hpfile := hfile p hp
  rw [BitVec.le_def] at hfirst hlast
  rw [toNat_add_ofNat htable, BitVec.toNat_add, Nat.mod_eq_of_lt hpfile] at hlast
  omega

theorem elf_header_check_ok (h : elf_header_check f = .ok interp)
    (heh : (f.read EHDR_SIZE 0#64).map Elf64_Ehdr.of = some eh) : 0 < eh.e_phnum ∧ eh.e_phnum ≤ 128 := by
  unfold elf_header_check at h
  split at h
  · cases h
  rename_i l hl
  rw [hl] at heh
  cases heh
  dsimp only at h
  split at h
  · cases h
  split at h
  next => cases h
  next hnum => omega

theorem phdrs_off (h : f.phdrs eh = some ph) : eh.e_phoff.toNat < 2 ^ 63 := by
  rw [ElfFile.phdrs, map_eq_some_iff] at h
  obtain ⟨l, hl, -⟩ := h
  rw [ElfFile.read, filter_eq_some_iff] at hl
  exact f.pread_off _ _ _ hl.1

theorem load_one_cases (h : load_one e f fixed_base as = .ok (as', out)) :
    ∃ eh ph interp, (f.read EHDR_SIZE 0#64).map Elf64_Ehdr.of = some eh ∧ f.phdrs eh = some ph ∧
      elf_header_check f = .ok interp ∧ load_image e f fixed_base as interp eh ph = .ok (as', out) := by
  unfold load_one at h
  split at h
  · cases h
  rename_i interp hcheck
  split at h
  · cases h
  rename_i eh heh
  split at h
  next => cases h
  next ph hph => exact ⟨eh, ph, interp, heh, hph, hcheck, h⟩

/-- A file that is accepted is loaded as it says, with zeros elsewhere in the span and nothing changed outside. Each
page has the protection Linux gives it, and no sum wraps, exactly if the last segment on each page asks for all that
the others do, and the base fits. -/
theorem load_one_image (e : LoadEnv) (f : ElfFile) (fixed_base : u64) (as as' : Space) (out : LoadInfo)
    (h : load_one e f fixed_base as = .ok (as', out)) :
    ∃ eh ph s, (f.read EHDR_SIZE 0#64).map Elf64_Ehdr.of = some eh ∧ f.phdrs eh = some ph ∧
      scan_segments (load_phdrs ph) .empty = .ok s ∧ ImageLoaded f out.base s (load_phdrs ph) as as' ∧
      ((∀ pg, InRange (out.base + s.lo).toNat ((PG_UP s.hi).toNat - s.lo.toNat) (pg * GUEST_PAGE_SIZE) →
          as'.prot pg = some (image_prot out.base (load_phdrs ph) pg)) ∧
        NoWrap e fixed_base eh s (load_phdrs ph) out.base ↔
      LastAsksAll out.base (load_phdrs ph) ∧ BaseFits e fixed_base eh s out.base) := by
  obtain ⟨eh, ph, interp, heh, hph, hcheck, himage⟩ := load_one_cases h
  obtain ⟨s, hscan, hok, htop, hplaced, hfits, hloaded, hprots, hoff⟩ := load_image_ok himage
  have hphoff := phdrs_off hph
  have hphnum := elf_header_check_ok hcheck heh
  refine ⟨eh, ph, s, heh, hph, hscan, hloaded, ?_⟩
  have hall : (∀ pg, InRange (out.base + s.lo).toNat ((PG_UP s.hi).toNat - s.lo.toNat) (pg * GUEST_PAGE_SIZE) →
      as'.prot pg = some (image_prot out.base (load_phdrs ph) pg)) ↔ LastAsksAll out.base (load_phdrs ph) := by
    rw [← union_prot_eq_iff]
    constructor
    · intro hlinux pg
      by_cases hpg : InRange (out.base + s.lo).toNat ((PG_UP s.hi).toNat - s.lo.toNat) (pg * GUEST_PAGE_SIZE)
      · exact some.inj ((hprots pg hpg).symm.trans (hlinux pg hpg))
      -- a page outside the span has no segment
      have hnone : (load_phdrs ph).filter (fun p => p.covers out.base pg) = [] := by
        rw [filter_eq_nil_iff]
        intro p hp
        rw [decide_eq_true_iff]
        exact fun hcovers => hpg ((hplaced.covers_iff pg (hfits p hp) htop (toNat_PG_UP htop)).2 hcovers)
      rw [union_prot, image_prot, hnone]
      rfl
    · intro hunion pg hpg
      rw [hprots pg hpg, hunion pg]
  rw [hall]
  refine and_congr_right fun _ => ⟨fun hno => ⟨hno.span.2, hno.entry, hno.bias⟩, fun hbase => ?_⟩
  exact hbase.noWrap hok htop hplaced hfits hoff hphoff hphnum

end image

def elf_file (data : List u8) : ElfFile where
  content := fun i => data.getD i 0#8
  pread := fun n off => if off.toNat < 2 ^ 63 then some (sub data off.toNat n) else none
  pread_off := by
    intro n off l h
    by_contra hoff
    rw [if_neg hoff] at h
    cases h
  pread_len := by
    intro n off l h
    split at h
    next => cases h; exact List.length_take_le ..
    next => cases h
  pread_bytes := by
    intro n off l h i hi
    split at h
    next =>
      cases h
      rw [sub, List.length_take, lt_min_iff] at hi
      rw [sub, List.getD_eq_getElem?_getD, List.getElem?_take_of_lt hi.1, List.getElem?_drop,
          List.getD_eq_getElem?_getD]
    next => cases h

/-- The bytes of a program header with these flags, offset, address and sizes. -/
def load_phdr (flags offset vaddr filesz memsz : Nat) : List u8 :=
  le 4 1 ++ le 4 flags ++ le 8 offset ++ le 8 vaddr ++ le 8 vaddr ++ le 8 filesz ++ le 8 memsz ++ le 8 4096

/-- The bytes of a header for `n` program headers right behind it. -/
def elf_ehdr (type entry n : Nat) : List u8 :=
  [0x7f#8, 0x45#8, 0x4c#8, 0x46#8, 2#8, 1#8, 1#8] ++
    List.replicate 9 0#8 ++ le 2 type ++ le 2 183 ++ le 4 1 ++ le 8 entry ++
    le 8 64 ++ le 8 0 ++ le 4 0 ++ le 2 64 ++ le 2 56 ++ le 2 n ++ le 6 0

/-- Code and data that share the page at `0x400000`. -/
def shared_page : List u8 :=
  elf_ehdr ET_EXEC 0x400000 2 ++ load_phdr 5 0 0x400000 4 0x100 ++ load_phdr 6 4 0x400100 2 0x100

def own_pages : List u8 :=
  elf_ehdr ET_EXEC 0x400000 2 ++ load_phdr 5 0 0x400000 4 0x100 ++ load_phdr 6 4 0x401100 2 0x100

/-- A position-independent image with a segment at the top of the address space. -/
def top_segment : List u8 := elf_ehdr ET_DYN 0 1 ++ load_phdr 4 0 0xffffffffffff0000 4 0x100

def roomy : LoadEnv := ⟨fun _ => 0x6000000000#64, true, true⟩

def Space.empty : Space := ⟨fun _ => none, fun _ => 0#8⟩

theorem exists_ok {α : Type} {x : Except Int α} {P : α → Prop} [DecidablePred P]
    (h : x.toOption.any (fun r => P r) = true) : ∃ r, x = .ok r ∧ P r := by
  cases x with
  | error e => cases h
  | ok r => exact ⟨r, rfl, of_decide_eq_true h⟩

/-- Code and data on pages of their own: both have their segment's protection. -/
theorem load_one_own_pages : ∃ r, load_one roomy (elf_file own_pages) 0x5500000000#64 .empty = .ok r ∧
    (r.1.prot 0x400 = some (PTE_R ||| PTE_X) ∧ r.1.prot 0x401 = some (PTE_R ||| PTE_W)) ∧
    ∃ eh ph s, ((elf_file own_pages).read EHDR_SIZE 0#64).map Elf64_Ehdr.of = some eh ∧
      (elf_file own_pages).phdrs eh = some ph ∧ scan_segments (load_phdrs ph) .empty = .ok s ∧
      ImageLoaded (elf_file own_pages) r.2.base s (load_phdrs ph) .empty r.1 ∧
      ((∀ pg, InRange (r.2.base + s.lo).toNat ((PG_UP s.hi).toNat - s.lo.toNat) (pg * GUEST_PAGE_SIZE) →
          r.1.prot pg = some (image_prot r.2.base (load_phdrs ph) pg)) ∧
        NoWrap roomy 0x5500000000#64 eh s (load_phdrs ph) r.2.base ↔
      LastAsksAll r.2.base (load_phdrs ph) ∧ BaseFits roomy 0x5500000000#64 eh s r.2.base) := by
  obtain ⟨r, hr, hprot⟩ : ∃ r, load_one roomy (elf_file own_pages) 0x5500000000#64 .empty = .ok r ∧
      (r.1.prot 0x400 = some (PTE_R ||| PTE_X) ∧ r.1.prot 0x401 = some (PTE_R ||| PTE_W)) :=
    exists_ok (by decide +kernel)
  exact ⟨r, hr, hprot, load_one_image roomy _ _ _ r.1 r.2 hr⟩

/-- The page that code and data share is writable and executable, though no segment asks for both; and a
position-independent image with a segment at the top of the address space is loaded below its base. -/
theorem load_one_write_exec :
    (∃ r, load_one roomy (elf_file shared_page) 0x5500000000#64 .empty = .ok r ∧
      r.1.prot 0x400 = some (PTE_R ||| PTE_W ||| PTE_X) ∧
      ∃ ph, (elf_file shared_page).phdrs (Elf64_Ehdr.of shared_page) = some ph ∧
        image_prot r.2.base (load_phdrs ph) 0x400 = PTE_R ||| PTE_W ∧
        ∀ p ∈ load_phdrs ph, pf_to_prot p.p_flags &&& (PTE_W ||| PTE_X) ≠ PTE_W ||| PTE_X) ∧
    ∃ r, load_one roomy (elf_file top_segment) 0x5500000000#64 .empty = .ok r ∧
      r.2.lo < r.2.base ∧ r.1.prot 0x54ffff0 = some PTE_R := by
  refine ⟨?_, exists_ok (by decide +kernel)⟩
  obtain ⟨r, hr, hprot, hbase⟩ : ∃ r, load_one roomy (elf_file shared_page) 0x5500000000#64 .empty = .ok r ∧
      (r.1.prot 0x400 = some (PTE_R ||| PTE_W ||| PTE_X) ∧ r.2.base = 0#64) := exists_ok (by decide +kernel)
  refine ⟨r, hr, hprot, ?_⟩
  rw [hbase]
  exact ⟨_, rfl, by decide +kernel, by decide +kernel⟩

end arm64emu
