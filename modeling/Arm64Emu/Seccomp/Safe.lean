import Arm64Emu.Seccomp.Check

namespace arm64emu

open Option

/-- The kernel's scan state in `check_load_and_stores`: one bit per scratch
word, for the instruction reached and for every later jump target. -/
structure MemValid where
  memvalid : u16 := 0#16
  masks : Nat → u16 := fun _ => BitVec.allOnes 16

def MemValid.meet (masks : Nat → u16) (target : Nat) (memvalid : u16) : Nat → u16 :=
  fun pc => if pc = target then masks pc &&& memvalid else masks pc

/-- One turn of the kernel's scan; nothing when a word is loaded before it is
stored. -/
def MemValid.scan (pc : Nat) (i : GSockFilter) (m : MemValid) : Option MemValid :=
  let memvalid := m.memvalid &&& m.masks pc
  if i.code = BPF_ST ∨ i.code = BPF_STX then some ⟨memvalid ||| 1#16 <<< i.k.toNat, m.masks⟩
  else if i.code = BPF_LD ||| BPF_MEM ∨ i.code = BPF_LDX ||| BPF_MEM then
    if memvalid &&& 1#16 <<< i.k.toNat = 0#16 then none else some ⟨memvalid, m.masks⟩
  else if i.code = BPF_JMP ||| BPF_JA then
    some ⟨BitVec.allOnes 16, MemValid.meet m.masks (pc + 1 + i.k.toNat) memvalid⟩
  else if i.code ∈ bpf_jmp_codes then
    some ⟨BitVec.allOnes 16, MemValid.meet (MemValid.meet m.masks (pc + 1 + i.jt.toNat) memvalid)
      (pc + 1 + i.jf.toNat) memvalid⟩
  else some ⟨memvalid, m.masks⟩

def MemValid.scan_all : Nat → List GSockFilter → MemValid → Bool
  | _, [], _ => true
  | pc, i :: is, m =>
    match MemValid.scan pc i m with
    | some m => MemValid.scan_all (pc + 1) is m
    | none => false

def check_load_and_stores (f : List GSockFilter) : Bool := MemValid.scan_all 0 f {}

def KernelAccepts (f : List GSockFilter) : Prop := BpfRules f ∧ check_load_and_stores f = true

/-- Where control can go from an instruction at `pc`. -/
def bpf_succs (pc : Nat) (i : GSockFilter) : List Nat :=
  if BPF_CLASS i.code = BPF_RET then []
  else if i.code = BPF_JMP ||| BPF_JA then [pc + 1 + i.k.toNat]
  else if i.code ∈ bpf_jmp_codes then [pc + 1 + i.jt.toNat, pc + 1 + i.jf.toNat]
  else [pc + 1]

/-- The scratch words stored after an instruction, from those stored before. -/
def bpf_stored (i : GSockFilter) (stored : List Nat) : List Nat :=
  if i.code = BPF_ST ∨ i.code = BPF_STX then i.k.toNat :: stored else stored

/-- A path from the entry of a program to an instruction, with the scratch
words it has stored on the way. -/
inductive BpfPath (f : List GSockFilter) : Nat → List Nat → Prop where
  | entry : BpfPath f 0 []
  | step {pc pc' : Nat} {i : GSockFilter} {stored : List Nat} : BpfPath f pc stored → f[pc]? = some i →
      pc' ∈ bpf_succs pc i → BpfPath f pc' (bpf_stored i stored)

/-- On no path is a scratch word loaded before one of its stores. -/
def NoUnsetLoad (f : List GSockFilter) : Prop :=
  ∀ pc stored i, BpfPath f pc stored → f[pc]? = some i →
    i.code = BPF_LD ||| BPF_MEM ∨ i.code = BPF_LDX ||| BPF_MEM → i.k.toNat ∈ stored

section masks

def Covers (stored : List Nat) (mask : u16) : Prop := ∀ w, mask.getLsbD w = true → w ∈ stored

variable {stored : List Nat} {a b : u16}

theorem Covers.and_left (h : Covers stored a) : Covers stored (a &&& b) := by
  intro w hw
  rw [BitVec.getLsbD_and, Bool.and_eq_true] at hw
  exact h w hw.1

theorem Covers.and_right (h : Covers stored b) : Covers stored (a &&& b) := by
  rw [BitVec.and_comm]
  exact h.and_left

theorem Covers.store (h : Covers stored a) (k : Nat) : Covers (k :: stored) (a ||| 1#16 <<< k) := by
  intro w hw
  rw [BitVec.getLsbD_or, Bool.or_eq_true] at hw
  rcases hw with hw | hw
  · exact .tail k (h w hw)
  have hwk : w = k := by
    rw [BitVec.getLsbD_shiftLeft] at hw
    simp at hw
    omega
  exact hwk ▸ List.mem_cons_self

theorem Covers.load (h : Covers stored a) {k : Nat} (hk : a &&& 1#16 <<< k ≠ 0#16) : k ∈ stored := by
  by_contra hmem
  refine hk (BitVec.eq_of_getLsbD_eq fun w hw => ?_)
  by_cases hwk : w = k
  · have : a.getLsbD w = false := by
      by_contra ha
      exact hmem (hwk ▸ h w (by simpa using ha))
    simp [this]
  have : (1#16 <<< k).getLsbD w = false := by
    rw [BitVec.getLsbD_shiftLeft]
    simp
    omega
  rw [BitVec.getLsbD_and, this]
  simp

theorem Covers.meet {masks : Nat → u16} {pc : Nat} (h : Covers stored (masks pc)) (target : Nat) (memvalid : u16) :
    Covers stored (MemValid.meet masks target memvalid pc) := by
  unfold MemValid.meet
  split
  · exact h.and_left
  · exact h

theorem Covers.meet_target {masks : Nat → u16} {target : Nat} {memvalid : u16} (h : Covers stored memvalid) :
    Covers stored (MemValid.meet masks target memvalid target) := by
  rw [MemValid.meet, if_pos rfl]
  exact h.and_right

end masks

section paths

variable {f : List GSockFilter}

variable {i : GSockFilter} {pc : Nat}

theorem bpf_succs_forward {pc pc' : Nat} (h : pc' ∈ bpf_succs pc i) : pc < pc' := by
  unfold bpf_succs at h
  split_ifs at h <;> simp at h <;> omega

theorem MemValid.scan_cases {m m' : MemValid} (h : MemValid.scan pc i m = some m') :
    ((i.code = BPF_ST ∨ i.code = BPF_STX) ∧
      m' = ⟨(m.memvalid &&& m.masks pc) ||| 1#16 <<< i.k.toNat, m.masks⟩) ∨
    ¬(i.code = BPF_ST ∨ i.code = BPF_STX) ∧
      (((i.code = BPF_LD ||| BPF_MEM ∨ i.code = BPF_LDX ||| BPF_MEM) ∧
          (m.memvalid &&& m.masks pc) &&& 1#16 <<< i.k.toNat ≠ 0#16 ∧ m' = ⟨m.memvalid &&& m.masks pc, m.masks⟩) ∨
        ¬(i.code = BPF_LD ||| BPF_MEM ∨ i.code = BPF_LDX ||| BPF_MEM) ∧
          ((i.code = BPF_JMP ||| BPF_JA ∧ m' = ⟨BitVec.allOnes 16,
              MemValid.meet m.masks (pc + 1 + i.k.toNat) (m.memvalid &&& m.masks pc)⟩) ∨
            i.code ≠ BPF_JMP ||| BPF_JA ∧
              ((i.code ∈ bpf_jmp_codes ∧ m' = ⟨BitVec.allOnes 16,
                  MemValid.meet (MemValid.meet m.masks (pc + 1 + i.jt.toNat) (m.memvalid &&& m.masks pc))
                    (pc + 1 + i.jf.toNat) (m.memvalid &&& m.masks pc)⟩) ∨
                i.code ∉ bpf_jmp_codes ∧ m' = ⟨m.memvalid &&& m.masks pc, m.masks⟩))) := by
  simp only [MemValid.scan] at h
  by_cases h1 : i.code = BPF_ST ∨ i.code = BPF_STX
  · rw [if_pos h1, some.injEq] at h
    exact .inl ⟨h1, h.symm⟩
  rw [if_neg h1] at h
  refine .inr ⟨h1, ?_⟩
  by_cases h2 : i.code = BPF_LD ||| BPF_MEM ∨ i.code = BPF_LDX ||| BPF_MEM
  · rw [if_pos h2] at h
    by_cases h3 : (m.memvalid &&& m.masks pc) &&& 1#16 <<< i.k.toNat = 0#16
    · rw [if_pos h3] at h
      cases h
    · rw [if_neg h3, some.injEq] at h
      exact .inl ⟨h2, h3, h.symm⟩
  rw [if_neg h2] at h
  refine .inr ⟨h2, ?_⟩
  by_cases h4 : i.code = BPF_JMP ||| BPF_JA
  · rw [if_pos h4, some.injEq] at h
    exact .inl ⟨h4, h.symm⟩
  rw [if_neg h4] at h
  refine .inr ⟨h4, ?_⟩
  by_cases h5 : i.code ∈ bpf_jmp_codes
  · rw [if_pos h5, some.injEq] at h
    exact .inl ⟨h5, h.symm⟩
  · rw [if_neg h5, some.injEq] at h
    exact .inr ⟨h5, h.symm⟩

/-- The scan has covered the instructions below `pc`: whatever a path that
leaves them has stored includes what the scan takes to be stored there. -/
def MemValid.Sound (f : List GSockFilter) (pc : Nat) (m : MemValid) : Prop :=
  (pc = 0 → m.memvalid = 0#16) ∧
  ∀ p q i stored, p < pc → BpfPath f p stored → f[p]? = some i → q ∈ bpf_succs p i →
    (q = pc → Covers (bpf_stored i stored) (m.memvalid &&& m.masks q)) ∧
    (pc < q → Covers (bpf_stored i stored) (m.masks q))

theorem MemValid.Sound.covers {m : MemValid} (h : m.Sound f pc) {stored : List Nat}
    (hpath : BpfPath f pc stored) : Covers stored (m.memvalid &&& m.masks pc) := by
  cases hpath with
  | entry =>
    intro w hw
    rw [h.1 rfl] at hw
    simp at hw
  | step hp hi hq => exact (h.2 _ _ _ _ (bpf_succs_forward hq) hp hi hq).1 rfl

theorem MemValid.Sound.scan {m m' : MemValid} (h : m.Sound f pc)
    (hi : f[pc]? = some i) (hscan : MemValid.scan pc i m = some m') : m'.Sound f (pc + 1) := by
  -- every later target keeps or loses bits, and the edges of `pc` itself are covered
  have hmask : ∀ q stored, Covers stored (m.masks q) → Covers stored (m'.masks q) := by
    intro q stored hq
    rcases MemValid.scan_cases hscan with ⟨-, rfl⟩ | ⟨-, ⟨-, -, rfl⟩ | ⟨-, ⟨-, rfl⟩ | ⟨-, ⟨-, rfl⟩ | ⟨-, rfl⟩⟩⟩⟩
    · exact hq
    · exact hq
    · exact hq.meet _ _
    · exact (hq.meet _ _).meet _ _
    · exact hq
  have hedge : ∀ q stored, BpfPath f pc stored → q ∈ bpf_succs pc i →
      (q = pc + 1 → Covers (bpf_stored i stored) (m'.memvalid &&& m'.masks q)) ∧
      (pc + 1 < q → Covers (bpf_stored i stored) (m'.masks q)) := by
    intro q stored hpath hq
    have hcov := h.covers hpath
    have hjump : BPF_CLASS (BPF_JMP ||| BPF_JA) ≠ BPF_RET ∧ BPF_JMP ||| BPF_JA ∉ bpf_jmp_codes ∧
        ∀ c ∈ bpf_jmp_codes, BPF_CLASS c ≠ BPF_RET := by
      simp [BPF_CLASS, BPF_RET]
    have hmem : ∀ c, c = BPF_ST ∨ c = BPF_STX ∨ c = BPF_LD ||| BPF_MEM ∨ c = BPF_LDX ||| BPF_MEM →
        c ≠ BPF_JMP ||| BPF_JA ∧ c ∉ bpf_jmp_codes := by
      rintro c (rfl | rfl | rfl | rfl) <;>
        simp [BPF_ST, BPF_STX, BPF_LD, BPF_LDX, BPF_MEM]
    have hfall : i.code ≠ BPF_JMP ||| BPF_JA → i.code ∉ bpf_jmp_codes → q = pc + 1 := by
      intro h1 h2
      unfold bpf_succs at hq
      split_ifs at hq
      · cases hq
      · simpa using hq
    rcases MemValid.scan_cases hscan with
      ⟨h1, rfl⟩ | ⟨h1, ⟨h2, -, rfl⟩ | ⟨-, ⟨h4, rfl⟩ | ⟨h4, ⟨h5, rfl⟩ | ⟨h5, rfl⟩⟩⟩⟩
    · -- a store adds its word
      have hne := hmem i.code (h1.imp_right .inl)
      have hq := hfall hne.1 hne.2
      refine ⟨fun _ => ?_, by omega⟩
      rw [bpf_stored, if_pos h1]
      exact (hcov.store _).and_left
    · have hne := hmem i.code (.inr (.inr h2))
      have hq := hfall hne.1 hne.2
      refine ⟨fun _ => ?_, by omega⟩
      rw [bpf_stored, if_neg h1]
      exact hcov.and_left
    · -- a jump meets its set into the target's
      rw [bpf_succs, if_neg (h4 ▸ hjump.1), if_pos h4, List.mem_singleton] at hq
      rw [bpf_stored, if_neg h1]
      subst hq
      exact ⟨fun _ => hcov.meet_target.and_right, fun _ => hcov.meet_target⟩
    · rw [bpf_succs, if_neg (hjump.2.2 _ h5), if_neg h4, if_pos h5, List.mem_pair] at hq
      rw [bpf_stored, if_neg h1]
      have hboth : Covers stored (MemValid.meet (MemValid.meet m.masks (pc + 1 + i.jt.toNat)
          (m.memvalid &&& m.masks pc)) (pc + 1 + i.jf.toNat) (m.memvalid &&& m.masks pc) q) := by
        rcases hq with rfl | rfl
        · exact hcov.meet_target.meet _ _
        · exact hcov.meet_target
      exact ⟨fun _ => hboth.and_right, fun _ => hboth⟩
    have hq := hfall h4 h5
    refine ⟨fun _ => ?_, by omega⟩
    rw [bpf_stored, if_neg h1]
    exact hcov.and_left
  refine ⟨by omega, fun p q j stored hp hpath hj hq => ?_⟩
  rcases Nat.lt_succ_iff_lt_or_eq.1 hp with hlt | rfl
  · obtain ⟨-, hcov⟩ := h.2 p q j stored hlt hpath hj hq
    refine ⟨fun hqe => ?_, fun hlt => hmask _ _ (hcov (by omega))⟩
    exact (hmask _ _ (hcov (by omega))).and_right
  rw [hi] at hj
  cases hj
  exact hedge q stored hpath hq

theorem MemValid.scan_all_sound {fs : List GSockFilter} {m : MemValid} (hfs : f.drop pc = fs)
    (hm : m.Sound f pc) (hscan : MemValid.scan_all pc fs m = true) :
    ∀ q stored i, pc ≤ q → BpfPath f q stored → f[q]? = some i →
      i.code = BPF_LD ||| BPF_MEM ∨ i.code = BPF_LDX ||| BPF_MEM → i.k.toNat ∈ stored := by
  induction fs generalizing pc m with
  | nil =>
    intro q stored i hq hpath hi
    have hlen := (List.getElem?_eq_some_iff.1 hi).1
    have := List.drop_eq_nil_iff.1 hfs
    omega
  | cons j fs ih =>
    intro q stored i hq hpath hi hload
    have hj : f[pc]? = some j := by
      rw [← List.head?_drop, hfs]
      rfl
    have hdrop : f.drop (pc + 1) = fs := by
      rw [← List.drop_drop, hfs]
      rfl
    unfold MemValid.scan_all at hscan
    cases hone : MemValid.scan pc j m with
    | none =>
      rw [hone] at hscan
      cases hscan
    | some m' =>
      rw [hone] at hscan
      rcases Nat.eq_or_lt_of_le hq with rfl | hlt
      · rw [hj] at hi
        cases hi
        have hnst : ¬(j.code = BPF_ST ∨ j.code = BPF_STX) := by
          have hne : ∀ c, c = BPF_LD ||| BPF_MEM ∨ c = BPF_LDX ||| BPF_MEM → ¬(c = BPF_ST ∨ c = BPF_STX) := by
            rintro c (rfl | rfl) <;> simp [BPF_ST, BPF_STX, BPF_LD, BPF_LDX, BPF_MEM]
          exact hne _ hload
        rcases MemValid.scan_cases hone with ⟨h1, -⟩ | ⟨-, ⟨-, hset, -⟩ | ⟨h2, -⟩⟩
        · exact absurd h1 hnst
        · exact (hm.covers hpath).load hset
        · exact absurd hload h2
      · exact ih hdrop (hm.scan hj hone) hscan q stored i hlt hpath hi hload

/-- The kernel's scan leaves no path with an unset load. -/
theorem check_load_and_stores_sound (h : check_load_and_stores f = true) : NoUnsetLoad f := by
  intro pc stored i hpath hi hload
  have hinit : MemValid.Sound f 0 {} := ⟨fun _ => rfl, fun p q i stored hp => absurd hp (Nat.not_lt_zero p)⟩
  exact MemValid.scan_all_sound rfl hinit h pc stored i (Nat.zero_le _) hpath hi hload

end paths

section run

/-- What one turn does with an instruction that keeps the rules: control moves forward inside the program, or the run
ends. -/
def BpfStep.Ok (len : Nat) (f : GSockFilter) (s : BpfState) : BpfStep → Prop
  | .next s' => s.pc < s'.pc ∧ s'.pc < len
  | .ret _ => BPF_CLASS f.code = BPF_RET
  | .divzero => f.code = BPF_ALU ||| BPF_DIV ||| BPF_X ∧ s.X = 0#32
  | .fault => False

theorem BpfState.goto_pc {s : BpfState} {off len : Nat} (hlen : len ≤ G_BPF_MAXINSNS)
    (h : s.pc + off + 1 < len) : (s.goto off).pc = s.pc + off + 1 := by
  unfold G_BPF_MAXINSNS at hlen
  show (s.pc + off + 1) % 2 ^ 32 = _
  omega

variable {len : Nat} {f : GSockFilter} {s : BpfState} (d : GSeccompData)

theorem bpf_step_ld_ok (hcls : BPF_CLASS f.code = BPF_LD)
    (habs : BPF_MODE f.code = BPF_ABS → f.k.toNat + 4 ≤ SECCOMP_DATA_SIZE)
    (hmem : BPF_MODE f.code = BPF_MEM → f.k.toNat < 16) :
    ∃ v, bpf_step d f s = .next { s.advance with A := v } := by
  simp only [bpf_step, hcls, if_true]
  unfold bpf_ld
  by_cases h1 : BPF_MODE f.code = BPF_ABS
  · rw [if_pos h1, GSeccompData.load, if_pos (habs h1)]
    exact ⟨_, rfl⟩
  rw [if_neg h1]
  by_cases h2 : BPF_MODE f.code = BPF_IMM
  · exact ⟨_, if_pos h2⟩
  rw [if_neg h2]
  by_cases h3 : BPF_MODE f.code = BPF_MEM
  · rw [if_pos h3, Vector.getElem?_eq_getElem (hmem h3)]
    exact ⟨_, rfl⟩
  · exact ⟨_, if_neg h3⟩

theorem bpf_step_ldx_ok (hcls : BPF_CLASS f.code = BPF_LDX) (hmem : BPF_MODE f.code = BPF_MEM → f.k.toNat < 16) :
    ∃ v, bpf_step d f s = .next { s.advance with X := v } := by
  simp +decide only [bpf_step, hcls, if_true, if_false]
  unfold bpf_ldx
  by_cases h2 : BPF_MODE f.code = BPF_IMM
  · exact ⟨_, if_pos h2⟩
  rw [if_neg h2]
  by_cases h3 : BPF_MODE f.code = BPF_MEM
  · rw [if_pos h3, Vector.getElem?_eq_getElem (hmem h3)]
    exact ⟨_, rfl⟩
  · exact ⟨_, if_neg h3⟩

theorem bpf_step_st_ok (hcls : BPF_CLASS f.code = BPF_ST ∨ BPF_CLASS f.code = BPF_STX) (hk : f.k.toNat < 16) :
    ∃ v, bpf_step d f s = .next { s.advance with mem := s.mem.set f.k.toNat v hk } := by
  rcases hcls with hcls | hcls
  · refine ⟨s.A, ?_⟩
    simp +decide only [bpf_step, hcls, if_true, if_false]
    rw [bpf_st, dif_pos hk]
  refine ⟨s.X, ?_⟩
  simp +decide only [bpf_step, hcls, if_true, if_false]
  rw [bpf_st, dif_pos hk]

theorem bpf_step_alu_ok (hcls : BPF_CLASS f.code = BPF_ALU) :
    (BPF_OP f.code = BPF_DIV ∧ bpf_src f s = 0#32 ∧ bpf_step d f s = .divzero) ∨
      ∃ v, bpf_step d f s = .next { s.advance with A := v } := by
  simp +decide only [bpf_step, hcls, if_true, if_false]
  by_cases hdiv : BPF_OP f.code = BPF_DIV
  · rw [if_pos hdiv]
    by_cases hz : bpf_src f s = 0#32
    · exact .inl ⟨hdiv, hz, if_pos hz⟩
    · exact .inr ⟨_, if_neg hz⟩
  · exact .inr ⟨_, if_neg hdiv⟩

theorem bpf_step_jmp_ok (hcls : BPF_CLASS f.code = BPF_JMP) :
    (BPF_OP f.code = BPF_JA ∧ bpf_step d f s = .next (s.goto f.k.toNat)) ∨
      BPF_OP f.code ≠ BPF_JA ∧ ∃ off, (off = f.jt.toNat ∨ off = f.jf.toNat) ∧
        bpf_step d f s = .next (s.goto off) := by
  simp +decide only [bpf_step, hcls, if_true, if_false]
  by_cases hja : BPF_OP f.code = BPF_JA
  · exact .inl ⟨hja, if_pos hja⟩
  refine .inr ⟨hja, _, ?_, if_neg hja⟩
  split
  · exact .inl rfl
  · exact .inr rfl

theorem bpf_step_ret_ok (hcls : BPF_CLASS f.code = BPF_RET) : ∃ v, bpf_step d f s = .ret v := by
  simp +decide only [bpf_step, hcls, if_true, if_false]
  exact ⟨_, rfl⟩

theorem bpf_step_misc_ok (hcls : BPF_CLASS f.code = BPF_MISC) :
    ∃ A X, bpf_step d f s = .next { s.advance with A := A, X := X } := by
  simp +decide only [bpf_step, hcls, if_false]
  split
  · exact ⟨_, _, rfl⟩
  · exact ⟨_, _, rfl⟩

/-- One turn at an instruction `bpf_validate` has accepted, with a return last
in the program. -/
theorem bpf_step_ok (hlen : len ≤ G_BPF_MAXINSNS) (hok : bpf_insn_ok len s.pc f = true)
    (hlast : BPF_CLASS f.code ≠ BPF_RET → s.pc + 1 < len) : (bpf_step d f s).Ok len f s := by
  -- an instruction that is not a jump goes on to the next one
  have hnext {s' : BpfState} {cls : u16} (hv : bpf_step d f s = .next s') (hpc : s'.pc = s.advance.pc)
      (hcls : BPF_CLASS f.code = cls) (hne : cls ≠ BPF_RET) : (bpf_step d f s).Ok len f s := by
    have hlt := hlast (hcls ▸ hne)
    have hpc' := @BpfState.goto_pc s 0 len hlen hlt
    rw [hv]
    show s.pc < s'.pc ∧ s'.pc < len
    rw [hpc, BpfState.advance, hpc']
    omega
  have hgoto (off : Nat) (h : off < len - s.pc - 1) : BpfStep.Ok len f s (.next (s.goto off)) := by
    have hpc' := @BpfState.goto_pc s off len hlen (by omega)
    show s.pc < (s.goto off).pc ∧ (s.goto off).pc < len
    rw [hpc']
    omega
  have hclass : ∀ c ∈ bpf_plain_codes,
      (BPF_CLASS c = BPF_LD ∧ BPF_MODE c ≠ BPF_ABS ∧ BPF_MODE c ≠ BPF_MEM) ∨
      (BPF_CLASS c = BPF_LDX ∧ BPF_MODE c ≠ BPF_MEM) ∨ BPF_CLASS c = BPF_MISC ∨ BPF_CLASS c = BPF_RET := by
    simp [BPF_CLASS, BPF_MODE, BPF_LD, BPF_LDX, BPF_MISC, BPF_RET, BPF_ABS, BPF_MEM]
  rcases mem_bpf_codes.1 (bpf_insn_ok_listed hok) with hc | hc | hc | hc | hc | hc
  · obtain ⟨hk, ha⟩ := (bpf_insn_ok_abs hc).1 hok
    have hcls : BPF_CLASS f.code = BPF_LD := by rw [hc]; rfl
    have hmode : BPF_MODE f.code ≠ BPF_MEM := by rw [hc]; decide
    obtain ⟨v, hv⟩ := bpf_step_ld_ok (s := s) d hcls
      (fun _ => by unfold SECCOMP_DATA_SIZE at *; omega) (fun h => absurd h hmode)
    exact hnext hv rfl hcls (by decide)
  · have hcls : BPF_CLASS f.code = BPF_JMP := by rw [hc]; rfl
    have hop : BPF_OP f.code = BPF_JA := by rw [hc]; rfl
    rcases bpf_step_jmp_ok (s := s) d hcls with ⟨-, hv⟩ | ⟨h, -⟩
    · rw [hv]
      exact hgoto _ ((bpf_insn_ok_ja hc).1 hok)
    · exact absurd hop h
  · rcases hclass _ hc with ⟨hcls, hm1, hm2⟩ | ⟨hcls, hm⟩ | hcls | hcls
    · obtain ⟨v, hv⟩ := bpf_step_ld_ok (s := s) d hcls (fun h => absurd h hm1) (fun h => absurd h hm2)
      exact hnext hv rfl hcls (by decide)
    · obtain ⟨v, hv⟩ := bpf_step_ldx_ok (s := s) d hcls (fun h => absurd h hm)
      exact hnext hv rfl hcls (by decide)
    · obtain ⟨A, X, hv⟩ := bpf_step_misc_ok (s := s) d hcls
      exact hnext hv rfl hcls (by decide)
    obtain ⟨v, hv⟩ := bpf_step_ret_ok (s := s) d hcls
    rw [hv]
    exact hcls
  · have hk : f.k.toNat < 16 := (bpf_insn_ok_mem hc).1 hok
    have hclass : ∀ c ∈ bpf_mem_codes, (BPF_CLASS c = BPF_LD ∧ BPF_MODE c ≠ BPF_ABS) ∨ BPF_CLASS c = BPF_LDX ∨
        BPF_CLASS c = BPF_ST ∨ BPF_CLASS c = BPF_STX := by
      simp [BPF_CLASS, BPF_MODE, BPF_LD, BPF_LDX, BPF_ST, BPF_STX, BPF_ABS]
    rcases hclass _ hc with ⟨hcls, hm⟩ | hcls | hcls
    · obtain ⟨v, hv⟩ := bpf_step_ld_ok (s := s) d hcls (fun h => absurd h hm) (fun _ => hk)
      exact hnext hv rfl hcls (by decide)
    · obtain ⟨v, hv⟩ := bpf_step_ldx_ok (s := s) d hcls (fun _ => hk)
      exact hnext hv rfl hcls (by decide)
    obtain ⟨v, hv⟩ := bpf_step_st_ok (s := s) d hcls hk
    rcases hcls with h | h <;> exact hnext hv rfl h (by decide)
  · have hclass : ∀ c ∈ bpf_alu_codes, BPF_CLASS c = BPF_ALU ∧ (BPF_OP c = BPF_DIV →
        (c = BPF_ALU ||| BPF_DIV ||| BPF_K ∧ BPF_SRC c ≠ BPF_X) ∨
        (c = BPF_ALU ||| BPF_DIV ||| BPF_X ∧ BPF_SRC c = BPF_X)) := by
      simp [BPF_CLASS, BPF_OP, BPF_SRC, BPF_ALU, BPF_DIV, BPF_K, BPF_X]
    obtain ⟨hcls, hdiv⟩ := hclass _ hc
    rcases bpf_step_alu_ok (s := s) d hcls with ⟨hop, hz, hv⟩ | ⟨v, hv⟩
    · rw [hv]
      -- a zero constant is refused at load, so the zero is X's
      rcases hdiv hop with ⟨hk, hsrc⟩ | ⟨hx, hsrc⟩
      · rw [bpf_src, if_neg hsrc] at hz
        exact absurd hz (((bpf_insn_ok_alu hc).1 hok).2 hk)
      · rw [bpf_src, if_pos hsrc] at hz
        exact ⟨hx, hz⟩
    · exact hnext hv rfl hcls (by decide)
  have hclass : ∀ c ∈ bpf_jmp_codes, BPF_CLASS c = BPF_JMP ∧ BPF_OP c ≠ BPF_JA := by
    simp [BPF_CLASS, BPF_OP, BPF_JMP, BPF_JA]
  obtain ⟨hcls, hop⟩ := hclass _ hc
  obtain ⟨ht, hf⟩ := (bpf_insn_ok_jmp hc).1 hok
  rcases bpf_step_jmp_ok (s := s) d hcls with ⟨h, -⟩ | ⟨-, off, hoff, hv⟩
  · exact absurd h hop
  rw [hv]
  refine hgoto _ ?_
  rcases hoff with rfl | rfl
  · exact ht
  · exact hf

/-- A run that ended where a filter may end: at a return instruction, or at a
division by X while X is zero. -/
def BpfEnd.Proper (f : List GSockFilter) : BpfEnd → Prop
  | .ret s _ => ∃ i, f[s.pc]? = some i ∧ BPF_CLASS i.code = BPF_RET
  | .divzero s => ∃ i, f[s.pc]? = some i ∧ i.code = BPF_ALU ||| BPF_DIV ||| BPF_X ∧ s.X = 0#32
  | .fault _ => False
  | .left _ => False

/-- From any instruction of an accepted program the run ends properly within
the number of instructions left. -/
theorem bpf_loop_proper {p : List GSockFilter} (hvalid : bpf_validate p = 0) (n : Nat) (s : BpfState)
    (hpc : s.pc < p.length) (hn : p.length ≤ s.pc + n) : ∃ e, bpf_loop p d n s = some e ∧ e.Proper p := by
  obtain ⟨⟨-, hlen⟩, hok, j, hj, hret⟩ := bpf_validate_eq_zero_iff.1 hvalid
  induction n generalizing s with
  | zero => omega
  | succ n ih =>
    obtain ⟨i, hi⟩ : ∃ i, p[s.pc]? = some i := ⟨_, List.getElem?_eq_getElem hpc⟩
    have hlast : BPF_CLASS i.code ≠ BPF_RET → s.pc + 1 < p.length := by
      intro hne
      by_contra hend
      have hs : s.pc = p.length - 1 := by omega
      rw [List.getLast?_eq_getElem?, ← hs, hi] at hj
      cases hj
      exact hne hret
    have hstep := bpf_step_ok d hlen (hok s.pc i hi) hlast
    unfold bpf_loop
    simp only [hi]
    cases hres : bpf_step d i s with
    | next s' =>
      rw [hres] at hstep
      obtain ⟨hlt, hin⟩ := hstep
      exact ih s' hin (by omega)
    | ret v | divzero =>
      rw [hres] at hstep
      exact ⟨_, rfl, i, hi, hstep⟩
    | fault =>
      rw [hres] at hstep
      exact hstep.elim

end run

/-- `bpf_validate` agrees with the kernel on a program exactly when one that keeps the kernel's other rules also passes
its scratch-word check, in either form. Every accepted program ends properly, in at most as many turns as it has
instructions. -/
theorem bpf_validate_kernel (f : List GSockFilter) :
    ((bpf_validate f = 0 ↔ KernelAccepts f) ↔ (BpfRules f → check_load_and_stores f = true)) ∧
    ((bpf_validate f = 0 ↔ BpfRules f ∧ NoUnsetLoad f) ↔ (BpfRules f → NoUnsetLoad f)) ∧
    (KernelAccepts f → NoUnsetLoad f) ∧
    (bpf_validate f = 0 → ∀ d, ∃ e, bpf_loop f d f.length {} = some e ∧ e.Proper f) := by
  refine ⟨?_, ?_, fun h => check_load_and_stores_sound h.2, fun hvalid d => ?_⟩
  · rw [KernelAccepts, bpf_validate_rules]
    tauto
  · rw [bpf_validate_rules]
    tauto
  · exact bpf_loop_proper d hvalid f.length {} (bpf_validate_eq_zero_iff.1 hvalid).1.1 (by simp)

/-- The program that loads a scratch word it never stores and returns it. -/
def load_unset_word : List GSockFilter := [⟨0x60#16, 0#8, 0#8, 0#32⟩, ⟨0x16#16, 0#8, 0#8, 0#32⟩]

theorem load_unset_word_accepted : bpf_validate load_unset_word = 0 := by decide

/-- The kernel refuses it with `EINVAL`; `bpf_validate` accepts it. -/
theorem bpf_validate_unset_load :
    bpf_validate load_unset_word = 0 ∧ ¬KernelAccepts load_unset_word ∧ ¬NoUnsetLoad load_unset_word := by
  refine ⟨load_unset_word_accepted, ?_, ?_⟩
  · rintro ⟨-, h⟩
    exact absurd h (by decide)
  intro h
  have hload := h 0 [] ⟨0x60#16, 0#8, 0#8, 0#32⟩ BpfPath.entry rfl (.inl rfl)
  cases hload

/-- The filter the kernel refuses is still run safely. -/
theorem bpf_validate_kernel_unset_load :
    ∃ e, bpf_loop load_unset_word ⟨0#32, 0#32, 0#64, fun _ => 0#64⟩ 2 {} = some e ∧ e.Proper load_unset_word :=
  (bpf_validate_kernel load_unset_word).2.2.2 load_unset_word_accepted _

end arm64emu
