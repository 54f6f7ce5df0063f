import Arm64Emu.Seccomp.Bpf

namespace arm64emu

/-- The codes on the kernel's accept-list. -/
def bpf_codes : List u16 :=
  [BPF_LD ||| BPF_W ||| BPF_ABS, BPF_JMP ||| BPF_JA] ++ bpf_plain_codes ++ bpf_mem_codes ++
    bpf_alu_codes ++ bpf_jmp_codes

theorem mem_bpf_codes {c : u16} : c ∈ bpf_codes ↔
    c = BPF_LD ||| BPF_W ||| BPF_ABS ∨ c = BPF_JMP ||| BPF_JA ∨ c ∈ bpf_plain_codes ∨
      c ∈ bpf_mem_codes ∨ c ∈ bpf_alu_codes ∨ c ∈ bpf_jmp_codes := by
  simp [bpf_codes]

@[simp] theorem bpf_abs_code : BPF_LD ||| BPF_W ||| BPF_ABS = 0x20#16 := rfl

@[simp] theorem bpf_ja_code : BPF_JMP ||| BPF_JA = 0x05#16 := rfl

@[simp] theorem bpf_plain_codes_eq :
    bpf_plain_codes = [0x80#16, 0x81#16, 0x00#16, 0x01#16, 0x07#16, 0x87#16, 0x06#16, 0x16#16] := rfl

@[simp] theorem bpf_mem_codes_eq : bpf_mem_codes = [0x60#16, 0x61#16, 0x02#16, 0x03#16] := rfl

@[simp] theorem bpf_alu_codes_eq : bpf_alu_codes =
    [0x04#16, 0x0c#16, 0x14#16, 0x1c#16, 0x24#16, 0x2c#16, 0x34#16, 0x3c#16, 0x54#16, 0x5c#16, 0x44#16,
      0x4c#16, 0xa4#16, 0xac#16, 0x64#16, 0x6c#16, 0x74#16, 0x7c#16, 0x84#16] := rfl

@[simp] theorem bpf_jmp_codes_eq : bpf_jmp_codes =
    [0x15#16, 0x1d#16, 0x25#16, 0x2d#16, 0x35#16, 0x3d#16, 0x45#16, 0x4d#16] := rfl

theorem and_three_eq_zero_iff (k : u32) : k &&& 3#32 = 0#32 ↔ k.toNat % 4 = 0 := by
  have h : (k &&& 3#32).toNat = k.toNat % 4 := by
    rw [BitVec.toNat_and]
    exact Nat.and_two_pow_sub_one_eq_mod k.toNat 2
  rw [← h, ← BitVec.toNat_inj]
  rfl

section insn

variable {len pc : Nat} {f : GSockFilter}

theorem bpf_insn_ok_abs (hc : f.code = BPF_LD ||| BPF_W ||| BPF_ABS) :
    bpf_insn_ok len pc f = true ↔ f.k.toNat < SECCOMP_DATA_SIZE ∧ f.k.toNat % 4 = 0 := by
  rw [bpf_insn_ok, if_pos hc, ← and_three_eq_zero_iff]
  simp

theorem bpf_insn_ok_plain (hc : f.code ∈ bpf_plain_codes) : bpf_insn_ok len pc f = true := by
  have hne : ∀ c ∈ bpf_plain_codes, c ≠ BPF_LD ||| BPF_W ||| BPF_ABS := by simp
  rw [bpf_insn_ok, if_neg (hne _ hc), if_pos hc]

theorem bpf_insn_ok_mem (hc : f.code ∈ bpf_mem_codes) :
    bpf_insn_ok len pc f = true ↔ f.k.toNat < BPF_MEMWORDS := by
  have hne : ∀ c ∈ bpf_mem_codes, c ≠ BPF_LD ||| BPF_W ||| BPF_ABS ∧ c ∉ bpf_plain_codes := by simp
  obtain ⟨h1, h2⟩ := hne _ hc
  rw [bpf_insn_ok, if_neg h1, if_neg h2, if_pos hc]
  simp only [Bool.not_eq_true', decide_eq_false_iff_not, not_le]

theorem bpf_insn_ok_alu (hc : f.code ∈ bpf_alu_codes) :
    bpf_insn_ok len pc f = true ↔
      (f.code = BPF_ALU ||| BPF_LSH ||| BPF_K ∨ f.code = BPF_ALU ||| BPF_RSH ||| BPF_K → f.k.toNat < 32) ∧
      (f.code = BPF_ALU ||| BPF_DIV ||| BPF_K → f.k ≠ 0#32) := by
  have hne : ∀ c ∈ bpf_alu_codes,
      c ≠ BPF_LD ||| BPF_W ||| BPF_ABS ∧ c ∉ bpf_plain_codes ∧ c ∉ bpf_mem_codes := by simp
  obtain ⟨h1, h2, h3⟩ := hne _ hc
  rw [bpf_insn_ok, if_neg h1, if_neg h2, if_neg h3, if_pos hc]
  by_cases hshift : (f.code = BPF_ALU ||| BPF_LSH ||| BPF_K ∨ f.code = BPF_ALU ||| BPF_RSH ||| BPF_K) ∧
      32 ≤ f.k.toNat
  · rw [if_pos hshift]
    constructor
    · intro h
      cases h
    rintro ⟨h, -⟩
    have := h hshift.1
    omega
  rw [if_neg hshift]
  have hsh : f.code = BPF_ALU ||| BPF_LSH ||| BPF_K ∨ f.code = BPF_ALU ||| BPF_RSH ||| BPF_K →
      f.k.toNat < 32 := fun h => by
    by_contra hk
    exact hshift ⟨h, by omega⟩
  simp only [Bool.not_eq_true', Bool.and_eq_false_iff, decide_eq_false_iff_not,
    ← not_and_or, not_and]
  exact ⟨fun h => ⟨fun hc => hsh hc, h⟩, fun h => h.2⟩

theorem bpf_insn_ok_ja (hc : f.code = BPF_JMP ||| BPF_JA) :
    bpf_insn_ok len pc f = true ↔ f.k.toNat < len - pc - 1 := by
  have hne : BPF_JMP ||| BPF_JA ≠ BPF_LD ||| BPF_W ||| BPF_ABS ∧ BPF_JMP ||| BPF_JA ∉ bpf_plain_codes ∧
      BPF_JMP ||| BPF_JA ∉ bpf_mem_codes ∧ BPF_JMP ||| BPF_JA ∉ bpf_alu_codes := by simp
  rw [← hc] at hne
  obtain ⟨h1, h2, h3, h4⟩ := hne
  rw [bpf_insn_ok, if_neg h1, if_neg h2, if_neg h3, if_neg h4, if_pos hc]
  simp only [Bool.not_eq_true', decide_eq_false_iff_not, not_le]

theorem bpf_insn_ok_jmp (hc : f.code ∈ bpf_jmp_codes) :
    bpf_insn_ok len pc f = true ↔ f.jt.toNat < len - pc - 1 ∧ f.jf.toNat < len - pc - 1 := by
  have hne : ∀ c ∈ bpf_jmp_codes, c ≠ BPF_LD ||| BPF_W ||| BPF_ABS ∧ c ∉ bpf_plain_codes ∧
      c ∉ bpf_mem_codes ∧ c ∉ bpf_alu_codes ∧ c ≠ BPF_JMP ||| BPF_JA := by simp
  obtain ⟨h1, h2, h3, h4, h5⟩ := hne _ hc
  rw [bpf_insn_ok, if_neg h1, if_neg h2, if_neg h3, if_neg h4, if_neg h5, if_pos hc]
  simp only [Bool.not_eq_true', Bool.or_eq_false_iff, decide_eq_false_iff_not, not_le]

theorem bpf_insn_ok_listed (h : bpf_insn_ok len pc f = true) : f.code ∈ bpf_codes := by
  rw [mem_bpf_codes]
  by_contra hc
  simp only [not_or] at hc
  obtain ⟨h1, h2, h3, h4, h5, h6⟩ := hc
  rw [bpf_insn_ok, if_neg h1, if_neg h3, if_neg h4, if_neg h5, if_neg h2, if_neg h6] at h
  cases h

end insn

/-- The loop of `bpf_validate` checks every instruction at its own index. -/
theorem bpf_insns_ok_iff {len pc : Nat} {fs : List GSockFilter} : bpf_insns_ok len pc fs = true ↔
    ∀ i f, fs[i]? = some f → bpf_insn_ok len (pc + i) f = true := by
  induction fs generalizing pc with
  | nil => simp [bpf_insns_ok]
  | cons g fs ih =>
    rw [bpf_insns_ok, Bool.and_eq_true, ih]
    constructor
    · rintro ⟨hg, hfs⟩ i f hf
      cases i with
      | zero =>
        cases hf
        exact hg
      | succ i =>
        have := hfs i f hf
        rwa [show pc + (i + 1) = pc + 1 + i by omega]
    intro h
    refine ⟨h 0 g rfl, fun i f hf => ?_⟩
    have := h (i + 1) f hf
    rwa [show pc + (i + 1) = pc + 1 + i by omega] at this

theorem bpf_validate_eq_zero_iff {f : List GSockFilter} : bpf_validate f = 0 ↔
    (0 < f.length ∧ f.length ≤ G_BPF_MAXINSNS) ∧
      (∀ pc i, f[pc]? = some i → bpf_insn_ok f.length pc i = true) ∧
      ∃ i, f.getLast? = some i ∧ BPF_CLASS i.code = BPF_RET := by
  have hneg : (-EINVAL : Int) ≠ 0 := by decide
  have hloop := @bpf_insns_ok_iff f.length 0 f
  simp only [Nat.zero_add] at hloop
  rw [← hloop]
  unfold bpf_validate
  by_cases hlen : f.length = 0 ∨ G_BPF_MAXINSNS < f.length
  · rw [if_pos hlen]
    exact ⟨fun h => absurd h hneg, fun h => by omega⟩
  rw [if_neg hlen]
  by_cases hok : bpf_insns_ok f.length 0 f = true
  · rw [if_pos hok]
    cases hlast : f.getLast? with
    | none => simp [hneg]
    | some i =>
      by_cases hret : BPF_CLASS i.code = BPF_RET
      · simp only [hret, if_true, hok, Option.some.injEq, exists_eq_left', and_true, true_iff]
        omega
      · simp [hret, hneg]
  · rw [if_neg hok]
    exact ⟨fun h => absurd h hneg, fun h => absurd h.2.1 hok⟩

/-- The rules of the kernel's `seccomp_check_filter` and `bpf_check_classic`
that look at one instruction and the program's length. -/
structure BpfRules (f : List GSockFilter) : Prop where
  length : 0 < f.length ∧ f.length ≤ G_BPF_MAXINSNS
  listed : ∀ i ∈ f, i.code ∈ bpf_codes
  loads : ∀ i ∈ f, i.code = BPF_LD ||| BPF_W ||| BPF_ABS → i.k.toNat < SECCOMP_DATA_SIZE ∧ i.k.toNat % 4 = 0
  scratch : ∀ i ∈ f, i.code ∈ bpf_mem_codes → i.k.toNat < BPF_MEMWORDS
  shifts : ∀ i ∈ f, i.code = BPF_ALU ||| BPF_LSH ||| BPF_K ∨ i.code = BPF_ALU ||| BPF_RSH ||| BPF_K →
    i.k.toNat < 32
  divisions : ∀ i ∈ f, i.code = BPF_ALU ||| BPF_DIV ||| BPF_K → i.k ≠ 0#32
  jumps : ∀ pc i, f[pc]? = some i → i.code = BPF_JMP ||| BPF_JA → pc + 1 + i.k.toNat < f.length
  branches : ∀ pc i, f[pc]? = some i → i.code ∈ bpf_jmp_codes →
    pc + 1 + i.jt.toNat < f.length ∧ pc + 1 + i.jf.toNat < f.length
  last : ∃ i, f.getLast? = some i ∧ (i.code = BPF_RET ||| BPF_K ∨ i.code = BPF_RET ||| BPF_A)

section validate

variable {f : List GSockFilter}

theorem BpfRules.of_validate (h : bpf_validate f = 0) : BpfRules f := by
  obtain ⟨hlen, hok, i, hlast, hret⟩ := bpf_validate_eq_zero_iff.1 h
  have hin : ∀ i ∈ f, ∃ pc, f[pc]? = some i ∧ bpf_insn_ok f.length pc i = true := by
    intro i hi
    obtain ⟨pc, hpc⟩ := List.mem_iff_getElem?.1 hi
    exact ⟨pc, hpc, hok pc i hpc⟩
  have hshift : BPF_ALU ||| BPF_LSH ||| BPF_K ∈ bpf_alu_codes ∧ BPF_ALU ||| BPF_RSH ||| BPF_K ∈ bpf_alu_codes ∧
      BPF_ALU ||| BPF_DIV ||| BPF_K ∈ bpf_alu_codes := by decide
  have hrets : ∀ c ∈ bpf_codes, BPF_CLASS c = BPF_RET → c = BPF_RET ||| BPF_K ∨ c = BPF_RET ||| BPF_A := by
    simp [bpf_codes, BPF_CLASS, BPF_RET, BPF_K, BPF_A]
  refine ⟨hlen, ?_, ?_, ?_, ?_, ?_, ?_, ?_, i, hlast, ?_⟩
  · intro i hi
    obtain ⟨pc, -, hpc⟩ := hin i hi
    exact bpf_insn_ok_listed hpc
  · intro i hi hc
    obtain ⟨pc, -, hpc⟩ := hin i hi
    exact (bpf_insn_ok_abs hc).1 hpc
  · intro i hi hc
    obtain ⟨pc, -, hpc⟩ := hin i hi
    exact (bpf_insn_ok_mem hc).1 hpc
  · intro i hi hc
    obtain ⟨pc, -, hpc⟩ := hin i hi
    have halu : i.code ∈ bpf_alu_codes := by
      rcases hc with hc | hc
      · exact hc ▸ hshift.1
      · exact hc ▸ hshift.2.1
    exact ((bpf_insn_ok_alu halu).1 hpc).1 hc
  · intro i hi hc
    obtain ⟨pc, -, hpc⟩ := hin i hi
    exact ((bpf_insn_ok_alu (hc ▸ hshift.2.2)).1 hpc).2 hc
  · intro pc i hpc hc
    have := (bpf_insn_ok_ja hc).1 (hok pc i hpc)
    omega
  · intro pc i hpc hc
    have := (bpf_insn_ok_jmp hc).1 (hok pc i hpc)
    omega
  · obtain ⟨pc, -, hpc⟩ := hin i (List.mem_of_getLast? hlast)
    exact hrets _ (bpf_insn_ok_listed hpc) hret

theorem BpfRules.validate (h : BpfRules f) : bpf_validate f = 0 := by
  refine bpf_validate_eq_zero_iff.2 ⟨h.length, ?_, ?_⟩
  · intro pc i hpc
    have hmem : i ∈ f := List.mem_iff_getElem?.2 ⟨pc, hpc⟩
    rcases mem_bpf_codes.1 (h.listed i hmem) with hc | hc | hc | hc | hc | hc
    · exact (bpf_insn_ok_abs hc).2 (h.loads i hmem hc)
    · have := h.jumps pc i hpc hc
      exact (bpf_insn_ok_ja hc).2 (by omega)
    · exact bpf_insn_ok_plain hc
    · exact (bpf_insn_ok_mem hc).2 (h.scratch i hmem hc)
    · exact (bpf_insn_ok_alu hc).2 ⟨h.shifts i hmem, h.divisions i hmem⟩
    · have := h.branches pc i hpc hc
      exact (bpf_insn_ok_jmp hc).2 (by omega)
  obtain ⟨i, hlast, hc⟩ := h.last
  have hret : BPF_CLASS (BPF_RET ||| BPF_K) = BPF_RET ∧ BPF_CLASS (BPF_RET ||| BPF_A) = BPF_RET := by decide
  refine ⟨i, hlast, ?_⟩
  rcases hc with hc | hc
  · exact hc ▸ hret.1
  · exact hc ▸ hret.2

theorem bpf_validate_rules : bpf_validate f = 0 ↔ BpfRules f :=
  ⟨BpfRules.of_validate, BpfRules.validate⟩

end validate

end arm64emu
