import Mathlib
import Arm64Emu.Exec.Space
import Arm64Emu.Lib.Bytes

open bytes

namespace arm64emu

def ET_EXEC : Nat := 2

def ET_DYN : Nat := 3

def EM_AARCH64 : Nat := 183

def PT_LOAD : u32 := 1#32

def PT_INTERP : u32 := 3#32

def PT_GNU_STACK : u32 := 0x6474e551#32

def PF_X : u32 := 1#32

def PF_W : u32 := 2#32

def PF_R : u32 := 4#32

def ELF_PATH_MAX : Nat := 4096

def EHDR_SIZE : Nat := 64

def PHDR_SIZE : Nat := 56

/-- The fields of the file header that are read. -/
structure Elf64_Ehdr where
  e_ident : List Byte
  e_type : Nat
  e_machine : Nat
  e_entry : u64
  e_phoff : u64
  e_phentsize : Nat
  e_phnum : Nat
  deriving DecidableEq, Repr

/-- The fields of a program header that are read. -/
structure Elf64_Phdr where
  p_type : u32
  p_flags : u32
  p_offset : u64
  p_vaddr : u64
  p_filesz : u64
  p_memsz : u64
  deriving DecidableEq, Repr

def elf_u64 (l : List Byte) (off : Nat) : u64 := BitVec.ofNat 64 (ofLe (sub l off 8))

def elf_u32 (l : List Byte) (off : Nat) : u32 := BitVec.ofNat 32 (ofLe (sub l off 4))

def Elf64_Ehdr.of (l : List Byte) : Elf64_Ehdr :=
  ⟨sub l 0 16, ofLe (sub l 16 2), ofLe (sub l 18 2), elf_u64 l 24, elf_u64 l 32, ofLe (sub l 54 2), ofLe (sub l 56 2)⟩

def Elf64_Phdr.of (l : List Byte) (off : Nat) : Elf64_Phdr :=
  ⟨elf_u32 l off, elf_u32 l (off + 4), elf_u64 l (off + 8), elf_u64 l (off + 16), elf_u64 l (off + 32),
    elf_u64 l (off + 40)⟩

/-- An open image: its contents, and what `pread` answers for a length and an
offset. A read may be short; one at a negative `off_t` fails. -/
structure ElfFile where
  content : Nat → Byte
  pread : Nat → u64 → Option (List Byte)
  pread_off : ∀ n off l, pread n off = some l → off.toNat < 2 ^ 63
  pread_len : ∀ n off l, pread n off = some l → l.length ≤ n
  pread_bytes : ∀ n off l, pread n off = some l → ∀ i < l.length, l.getD i 0#8 = content (off.toNat + i)

def ElfFile.read (f : ElfFile) (n : Nat) (off : u64) : Option (List Byte) :=
  (f.pread n off).filter fun l => l.length = n

def Elf64_Ehdr.runs (eh : Elf64_Ehdr) : Bool :=
  eh.e_ident.take 4 = [0x7f#8, 0x45#8, 0x4c#8, 0x46#8] ∧ eh.e_ident.getD 4 0#8 = 2#8 ∧ eh.e_ident.getD 5 0#8 = 1#8 ∧
    eh.e_machine = EM_AARCH64 ∧ (eh.e_type = ET_EXEC ∨ eh.e_type = ET_DYN)

def ElfFile.phdrs (f : ElfFile) (eh : Elf64_Ehdr) : Option (List Elf64_Phdr) :=
  (f.read (PHDR_SIZE * eh.e_phnum) eh.e_phoff).map fun l =>
    (List.range eh.e_phnum).map fun i => Elf64_Phdr.of l (PHDR_SIZE * i)

/-- `elf_header_check` with room for the interpreter's name, which comes back
empty for a static image. -/
def elf_header_check (f : ElfFile) : Except Int (List Byte) :=
  match f.read EHDR_SIZE 0#64 with
  | none => .error (-ENOEXEC)
  | some l =>
    let eh := Elf64_Ehdr.of l
    if eh.runs = false then .error (-ENOEXEC)
    else if eh.e_phentsize ≠ PHDR_SIZE ∨ eh.e_phnum = 0 ∨ 128 < eh.e_phnum then .error (-ENOEXEC)
    else
      match f.phdrs eh with
      | none => .error (-ENOEXEC)
      | some ph =>
        match ph.find? fun p => p.p_type = PT_INTERP with
        | none => .ok []
        | some p =>
          if p.p_filesz = 0#64 ∨ ELF_PATH_MAX ≤ p.p_filesz.toNat then .error (-ENOEXEC)
          else
            match f.read p.p_filesz.toNat p.p_offset with
            | none => .error (-ENOEXEC)
            | some name => .ok (name.takeWhile (· ≠ 0#8))

/-- The protection of a segment's flags. -/
def pf_to_prot (pf : u32) : u8 :=
  (if pf &&& PF_R ≠ 0#32 then PTE_R else 0#8) ||| (if pf &&& PF_W ≠ 0#32 then PTE_W else 0#8) |||
    (if pf &&& PF_X ≠ 0#32 then PTE_X else 0#8)

/-- The span of the segments seen so far, and of their code and data. -/
structure ElfSpan where
  lo : u64
  hi : u64
  sc : u64
  ec : u64
  sd : u64
  ed : u64
  deriving DecidableEq, Repr

def ElfSpan.empty : ElfSpan := ⟨-1#64, 0#64, -1#64, 0#64, 0#64, 0#64⟩

/-- One header of the first pass: the span so far grows over a load segment. -/
def scan_segment (s : ElfSpan) (p : Elf64_Phdr) : Except Int ElfSpan :=
  if p.p_memsz < p.p_filesz then .error (-EINVAL)
  else
    let stop := p.p_vaddr + p.p_memsz
    if stop < p.p_vaddr then .error (-EINVAL)
    else
      let fend := p.p_vaddr + p.p_filesz
      .ok {
        lo := if PG_DOWN p.p_vaddr < s.lo then PG_DOWN p.p_vaddr else s.lo
        hi := if s.hi < stop then stop else s.hi
        sc := if p.p_flags &&& PF_X ≠ 0#32 ∧ p.p_vaddr < s.sc then p.p_vaddr else s.sc
        ec := if p.p_flags &&& PF_X ≠ 0#32 ∧ s.ec < fend then fend else s.ec
        sd := if s.sd < p.p_vaddr then p.p_vaddr else s.sd
        ed := if s.ed < fend then fend else s.ed }

def scan_segments : List Elf64_Phdr → ElfSpan → Except Int ElfSpan
  | [], s => .ok s
  | p :: ps, s =>
    match scan_segment s p with
    | .error e => .error e
    | .ok s => scan_segments ps s

/-- The file bytes of a segment from `done` on, in chunks of up to 64 KiB. -/
def copy_segment (f : ElfFile) (p : Elf64_Phdr) (va : u64) (done : Nat) (as : Space) : Except Int Space :=
  if done < p.p_filesz.toNat then
    match f.pread (min 65536 (p.p_filesz.toNat - done)) (p.p_offset + BitVec.ofNat 64 done) with
    | none => .error (- EIO)
    | some l =>
      if l = [] then .error (- EIO)
      else
        match copy_to_guest as (va + BitVec.ofNat 64 done) l with
        | none => .error (-EFAULT)
        | some as => copy_segment f p va (done + l.length) as
  else .ok as
termination_by p.p_filesz.toNat - done
decreasing_by
  have := List.length_pos_of_ne_nil ‹¬l = []›
  omega

def Elf64_Phdr.first_page (p : Elf64_Phdr) : Nat := (PG_DOWN p.p_vaddr).toNat / GUEST_PAGE_SIZE

def Elf64_Phdr.end_page (p : Elf64_Phdr) : Nat := (PG_UP (p.p_vaddr + p.p_memsz)).toNat / GUEST_PAGE_SIZE

/-- The pages of a segment in `pageprot`, which starts at the page of `lo`. -/
def add_prot (lo : u64) (p : Elf64_Phdr) (pageprot : Nat → u8) : Nat → u8 :=
  (List.range' p.first_page (p.end_page - p.first_page)).foldl
    (fun pp pg => Function.update pp (pg - lo.toNat / GUEST_PAGE_SIZE)
      (pp (pg - lo.toNat / GUEST_PAGE_SIZE) ||| pf_to_prot p.p_flags)) pageprot

/-- The second pass: every load segment is mapped and filled. -/
def load_segments (f : ElfFile) (base lo : u64) : List Elf64_Phdr → Space → (Nat → u8) → Except Int (Space × (Nat → u8))
  | [], as, pageprot => .ok (as, pageprot)
  | p :: ps, as, pageprot =>
    match copy_segment f p (base + p.p_vaddr) 0 as with
    | .error e => .error e
    | .ok as => load_segments f base lo ps as (add_prot lo p pageprot)

def run_end (pageprot : Nat → u8) (span i j : Nat) : Nat :=
  if j < span ∧ pageprot j = pageprot i then run_end pageprot span i (j + 1) else j
termination_by span - j

theorem le_run_end (pageprot : Nat → u8) (span i j : Nat) : j ≤ run_end pageprot span i j := by
  fun_induction run_end pageprot span i j with
  | case1 j h ih => exact (Nat.le_succ j).trans ih
  | case2 j h => exact le_rfl

/-- One `guest_protect` per run; what it answers is not looked at. -/
def protect_runs (pageprot : Nat → u8) (span : Nat) (start : u64) (i : Nat) (as : Space) : Space :=
  if i < span then
    let j := run_end pageprot span i (i + 1)
    protect_runs pageprot span start j
      ((guest_protect as (start + BitVec.ofNat 64 i <<< 12) (BitVec.ofNat 64 (j - i) <<< 12)
          (pageprot i)).toOption.getD as)
  else as
termination_by span - i
decreasing_by
  have := le_run_end pageprot span i (i + 1)
  omega

/-- What `load_image` tells the caller. -/
structure LoadInfo where
  base : u64
  entry : u64
  phdr_va : u64
  phnum : Nat
  lo : u64
  hi : u64
  start_code : u64
  end_code : u64
  start_data : u64
  end_data : u64
  exec_stack : Bool
  interp : List Byte
  deriving DecidableEq, Repr

/-- The host's part: what `as_find_free` answers for a length (0: no room), and
whether the memory for the span and for its page protections is there. -/
structure LoadEnv where
  as_find_free : u64 → u64
  host_alloc : Bool
  calloc : Bool

/-- `-1` as the base asks for one from the mmap area. -/
def load_base (e : LoadEnv) (eh : Elf64_Ehdr) (fixed_base lo hi : u64) : Except Int u64 :=
  if eh.e_type = ET_DYN then
    if fixed_base ≠ -1#64 then .ok fixed_base
    else if e.as_find_free (hi - lo) = 0#64 then .error (-ENOMEM)
    else .ok (e.as_find_free (hi - lo) - lo)
  else .ok 0#64

/-- `AT_PHDR`: the address of the program headers, by the segment that holds them. -/
def phdr_va (eh : Elf64_Ehdr) (base : u64) (loads : List Elf64_Phdr) : u64 :=
  match loads.find? fun p => p.p_offset ≤ eh.e_phoff ∧
      eh.e_phoff + BitVec.ofNat 64 (eh.e_phnum * PHDR_SIZE) ≤ p.p_offset + p.p_filesz with
  | none => 0#64
  | some p => base + p.p_vaddr + (eh.e_phoff - p.p_offset)

def load_phdrs (ph : List Elf64_Phdr) : List Elf64_Phdr := ph.filter fun p => p.p_type = PT_LOAD

/-- Scans, reserves, loads and protects; any failure leaves an error. -/
def load_image (e : LoadEnv) (f : ElfFile) (fixed_base : u64) (as : Space) (interp : List Byte) (eh : Elf64_Ehdr)
    (ph : List Elf64_Phdr) : Except Int (Space × LoadInfo) := do
  let s ← scan_segments (load_phdrs ph) .empty
  if s.lo = -1#64 then .error (-ENOEXEC)
  else if ~~~GUEST_PAGE_MASK < s.hi then .error (-EINVAL)
  else
    let hi := PG_UP s.hi
    let base ← load_base e eh fixed_base s.lo hi
    let as ← guest_map_anon as e.host_alloc (base + s.lo) (hi - s.lo) (PTE_R ||| PTE_W)
    if e.calloc = false then .error (-ENOMEM)
    else
      let (as, pageprot) ← load_segments f base s.lo (load_phdrs ph) as fun _ => 0#8
      let as := protect_runs pageprot ((hi - s.lo) >>> 12).toNat (base + s.lo) 0 as
      .ok (as, {
        base := base
        entry := base + eh.e_entry
        phdr_va := phdr_va eh base (load_phdrs ph)
        phnum := eh.e_phnum
        lo := base + s.lo
        hi := base + hi
        start_code := if s.sc = -1#64 then 0#64 else base + s.sc
        end_code := if s.ec = 0#64 then 0#64 else base + s.ec
        start_data := base + s.sd
        end_data := base + s.ed
        exec_stack := ((ph.filter fun p => p.p_type = PT_GNU_STACK).getLast?.map
          fun p => decide (p.p_flags &&& PF_X ≠ 0#32)).getD false
        interp := interp })

/-- One image of the program: the executable, or its interpreter. -/
def load_one (e : LoadEnv) (f : ElfFile) (fixed_base : u64) (as : Space) : Except Int (Space × LoadInfo) :=
  match elf_header_check f with
  | .error r => .error r
  | .ok interp =>
    match (f.read EHDR_SIZE 0#64).map Elf64_Ehdr.of with
    | none => .error (-ENOEXEC)
    | some eh =>
      match f.phdrs eh with
      | none => .error (-ENOEXEC)
      | some ph => load_image e f fixed_base as interp eh ph

end arm64emu
