import Arm64Emu.Core.Cpu

namespace arm64emu

/-- The 32-bit view of a vector register, the low lane first. -/
structure Lanes where
  s0 : u32
  s1 : u32
  s2 : u32
  s3 : u32

def V128.s (v : V128) : Lanes :=
  ⟨v.extractLsb' 0 32, v.extractLsb' 32 32, v.extractLsb' 64 32, v.extractLsb' 96 32⟩

def V128.ofS (l : Lanes) : V128 := l.s3 ++ l.s2 ++ l.s1 ++ l.s0

def Lanes.words (l : Lanes) : List u32 := [l.s0, l.s1, l.s2, l.s3]

def rol32 (x : u32) (n : Nat) : u32 :=
  let n := n % 32
  if n = 0 then x else (x <<< n) ||| (x >>> (32 - n))

def sha_ch (x y z : u32) : u32 := (x &&& y) ^^^ (~~~x &&& z)
def sha_maj (x y z : u32) : u32 := (x &&& y) ^^^ (x &&& z) ^^^ (y &&& z)
def sha_par (x y z : u32) : u32 := x ^^^ y ^^^ z
def sha256_bsig0 (x : u32) : u32 := ror32 x 2 ^^^ ror32 x 13 ^^^ ror32 x 22
def sha256_bsig1 (x : u32) : u32 := ror32 x 6 ^^^ ror32 x 11 ^^^ ror32 x 25
def sha256_ssig0 (x : u32) : u32 := ror32 x 7 ^^^ ror32 x 18 ^^^ (x >>> 3)
def sha256_ssig1 (x : u32) : u32 := ror32 x 17 ^^^ ror32 x 19 ^^^ (x >>> 10)

/-- One round on the eight words. -/
def sha256_turn (xy : Lanes × Lanes) (w : u32) : Lanes × Lanes :=
  let (x, y) := xy
  let chs := sha_ch y.s0 y.s1 y.s2
  let maj := sha_maj x.s0 x.s1 x.s2
  let t := y.s3 + sha256_bsig1 y.s0 + chs + w
  let x3 := t + x.s3
  let y3 := t + sha256_bsig0 x.s0 + maj
  (⟨y3, x.s0, x.s1, x.s2⟩, ⟨x3, y.s0, y.s1, y.s2⟩)

def sha256_hash (x y w : Lanes) (part1 : Bool) : Lanes :=
  let xy := w.words.foldl sha256_turn (x, y)
  if part1 then xy.1 else xy.2

def sha256_su0 (x y : Lanes) : Lanes :=
  ⟨sha256_ssig0 x.s1 + x.s0, sha256_ssig0 x.s2 + x.s1, sha256_ssig0 x.s3 + x.s2, sha256_ssig0 y.s0 + x.s3⟩

def sha256_su1 (x y z : Lanes) : Lanes :=
  let r0 := sha256_ssig1 z.s2 + x.s0 + y.s1
  let r1 := sha256_ssig1 z.s3 + x.s1 + y.s2
  ⟨r0, r1, sha256_ssig1 r0 + x.s2 + y.s3, sha256_ssig1 r1 + x.s3 + z.s0⟩

/-- One turn of the SHA1C/SHA1P/SHA1M loop: `d` and the low lane of `n`. -/
def sha1_turn (op : Nat) (dn : Lanes × u32) (m : u32) : Lanes × u32 :=
  let (d, n0) := dn
  let t := if op = 0 then sha_ch d.s1 d.s2 d.s3 else if op = 1 then sha_par d.s1 d.s2 d.s3
    else sha_maj d.s1 d.s2 d.s3
  (⟨t + (rol32 d.s0 5 + n0 + m), d.s0, rol32 d.s1 30, d.s2⟩, d.s3)

/-- The three-register SHA instructions. -/
def crypto_sha3 (c : CPU) (insn : u32) : CPU :=
  let Rd := BITS insn 4 0
  let d := c.v Rd
  let n := c.v (BITS insn 9 5)
  let m := c.v (BITS insn 20 16)
  match BITS insn 14 12 with
  | 3 => set_v c Rd (V128.ofD (d.d0 ^^^ (d.d1 ^^^ m.d0)) (d.d1 ^^^ (n.d0 ^^^ m.d1)))
  | 4 => set_v c Rd (V128.ofS (sha256_hash d.s n.s m.s true))
  | 5 => set_v c Rd (V128.ofS (sha256_hash n.s d.s m.s false))
  | 6 => set_v c Rd (V128.ofS (sha256_su1 d.s n.s m.s))
  | 7 => undefined c
  | op => set_v c Rd (V128.ofS (m.s.words.foldl (sha1_turn op) (d.s, n.s.s0)).1)

/-- The two-register SHA instructions. -/
def crypto_sha2 (c : CPU) (insn : u32) : CPU :=
  let Rd := BITS insn 4 0
  let d := (c.v Rd).s
  let n := (c.v (BITS insn 9 5)).s
  match BITS insn 16 12 with
  | 0 => set_v c Rd (V128.ofS ⟨rol32 n.s0 30, 0#32, 0#32, 0#32⟩)
  | 1 =>
    let r0 := rol32 (d.s0 ^^^ n.s1) 1
    set_v c Rd (V128.ofS ⟨r0, rol32 (d.s1 ^^^ n.s2) 1, rol32 (d.s2 ^^^ n.s3) 1, rol32 (d.s3 ^^^ r0) 1⟩)
  | 2 => set_v c Rd (V128.ofS (sha256_su0 d n))
  | _ => undefined c

namespace sha

structure Sha256 where
  (a b c d e f g h : u32)

/-- One round of the SHA-256 compression function, at `K_t + W_t`. -/
def Sha256.round (s : Sha256) (kw : u32) : Sha256 :=
  let T1 := s.h + (s.e.rotateRight 6 ^^^ s.e.rotateRight 11 ^^^ s.e.rotateRight 25) +
    ((s.e &&& s.f) ^^^ (~~~s.e &&& s.g)) + kw
  let T2 := (s.a.rotateRight 2 ^^^ s.a.rotateRight 13 ^^^ s.a.rotateRight 22) +
    ((s.a &&& s.b) ^^^ (s.a &&& s.c) ^^^ (s.b &&& s.c))
  ⟨T1 + T2, s.a, s.b, s.c, s.d + T1, s.e, s.f, s.g⟩

/-- `W` follows the SHA-256 message schedule at `t + 16`. -/
def Scheduled (W : Nat → u32) (t : Nat) : Prop :=
  W (t + 16) = ((W (t + 14)).rotateRight 17 ^^^ (W (t + 14)).rotateRight 19 ^^^ (W (t + 14)) >>> 10) +
    W (t + 9) + ((W (t + 1)).rotateRight 7 ^^^ (W (t + 1)).rotateRight 18 ^^^ (W (t + 1)) >>> 3) + W t

structure Sha1 where
  (a b c d e : u32)

/-- One round of SHA-1 with the function `f`, at `K_t + W_t`. -/
def Sha1.round (f : u32 → u32 → u32 → u32) (s : Sha1) (kw : u32) : Sha1 :=
  ⟨s.a.rotateLeft 5 + f s.b s.c s.d + s.e + kw, s.a, s.b.rotateLeft 30, s.c, s.d⟩

/-- The function of SHA-1 that `SHA1C`, `SHA1P` or `SHA1M` stands for. -/
def sha1_fn : Nat → u32 → u32 → u32 → u32
  | 0, x, y, z => (x &&& y) ^^^ (~~~x &&& z)
  | 1, x, y, z => x ^^^ y ^^^ z
  | _, x, y, z => (x &&& y) ^^^ (x &&& z) ^^^ (y &&& z)

end sha

open sha

@[simp] theorem V128.s_ofS (l : Lanes) : (V128.ofS l).s = l := by
  simp only [V128.s, V128.ofS]
  cases l
  congr
  all_goals
    ext i hi
    simp only [BitVec.getElem_extractLsb', BitVec.getLsbD_append]
    grind

theorem ror32_eq (x : u32) (n : Nat) : ror32 x n = x.rotateRight n := by
  simp only [ror32, BitVec.rotateRight, BitVec.rotateRightAux]
  split
  next h => simp [h]
  next => rfl

theorem rol32_eq (x : u32) (n : Nat) : rol32 x n = x.rotateLeft n := by
  simp only [rol32, BitVec.rotateLeft, BitVec.rotateLeftAux]
  split
  next h => simp [h, BitVec.ushiftRight_eq_zero]
  next => rfl

def sha.Sha256.of (x y : Lanes) : Sha256 := ⟨x.s0, x.s1, x.s2, x.s3, y.s0, y.s1, y.s2, y.s3⟩
def sha.Sha256.regs (s : Sha256) : Lanes × Lanes := (⟨s.a, s.b, s.c, s.d⟩, ⟨s.e, s.f, s.g, s.h⟩)

/-- A turn of the loop is a round: rotating the two registers by one word is
the standard's renaming of the variables. -/
theorem sha256_turn_eq (s : Sha256) (w : u32) : sha256_turn s.regs w = (s.round w).regs := by
  simp only [sha256_turn, Sha256.round, Sha256.regs, sha256_bsig0, sha256_bsig1, sha_ch, sha_maj, ror32_eq]
  rw [BitVec.add_assoc _ _ (_ ^^^ _), BitVec.add_comm _ s.d]

theorem sha256_hash_eq (x y w : Lanes) (part1 : Bool) : sha256_hash x y w part1 =
    let xy := (w.words.foldl Sha256.round (.of x y)).regs
    if part1 then xy.1 else xy.2 := by
  unfold sha256_hash
  rw [← List.foldl_hom Sha256.regs fun s w => sha256_turn_eq s w]
  rfl

def sha.Sha1.of (d : Lanes) (e : u32) : Sha1 := ⟨d.s0, d.s1, d.s2, d.s3, e⟩
def sha.Sha1.regs (s : Sha1) : Lanes × u32 := (⟨s.a, s.b, s.c, s.d⟩, s.e)

theorem sha1_turn_eq {op : Nat} (hop : op < 3) (s : Sha1) (w : u32) :
    sha1_turn op s.regs w = (s.round (sha1_fn op) w).regs := by
  obtain rfl | rfl | rfl : op = 0 ∨ op = 1 ∨ op = 2 := by omega
  all_goals
    simp only [sha1_turn, Sha1.round, Sha1.regs, rol32_eq, ← BitVec.add_assoc]
    rw [BitVec.add_comm (s.a.rotateLeft 5)]
    rfl

def four (W : Nat → u32) (t : Nat) : Lanes := ⟨W t, W (t + 1), W (t + 2), W (t + 3)⟩

theorem sha256_schedule {W : Nat → u32} {t : Nat} (hW : ∀ i < 4, Scheduled W (t + i)) :
    sha256_su1 (sha256_su0 (four W t) (four W (t + 4))) (four W (t + 8)) (four W (t + 12)) = four W (t + 16) := by
  have h0 := hW 0 (by decide)
  have h1 := hW 1 (by decide)
  have h2 := hW 2 (by decide)
  have h3 := hW 3 (by decide)
  simp only [Scheduled, Nat.add_assoc, Nat.reduceAdd] at h0 h1 h2 h3
  simp only [sha256_su1, sha256_su0, four, sha256_ssig0, sha256_ssig1, ror32_eq, Nat.add_assoc, Nat.reduceAdd,
    h0, h1, h2, h3]
  ac_rfl

/-- `SHA256H` and `SHA256H2` give the two halves of the state four rounds on, `SHA1C`, `SHA1P` and `SHA1M` four rounds
of SHA-1's, and `SHA256SU0` with `SHA256SU1` the next four schedule words. -/
theorem sha_instructions_compute (c : CPU) (insn : u32) :
    let Rd := BITS insn 4 0
    let d := (c.v Rd).s
    let n := (c.v (BITS insn 9 5)).s
    let m := (c.v (BITS insn 20 16)).s
    let op := BITS insn 14 12
    (op = 4 → crypto_sha3 c insn = set_v c Rd (V128.ofS (m.words.foldl Sha256.round (.of d n)).regs.1)) ∧
    (op = 5 → crypto_sha3 c insn = set_v c Rd (V128.ofS (m.words.foldl Sha256.round (.of n d)).regs.2)) ∧
    (op < 3 →
      let s := m.words.foldl (Sha1.round (sha1_fn op)) (.of d n.s0)
      crypto_sha3 c insn = set_v c Rd (V128.ofS s.regs.1) ∧ s.e = rol32 d.s0 30) ∧
    ∀ su1 W t, BITS insn 16 12 = 2 → BITS su1 14 12 = 6 → BITS su1 4 0 = Rd → BITS su1 9 5 ≠ Rd →
      BITS su1 20 16 ≠ Rd → d = four W t → n = four W (t + 4) → (c.v (BITS su1 9 5)).s = four W (t + 8) →
      (c.v (BITS su1 20 16)).s = four W (t + 12) → (∀ i < 4, Scheduled W (t + i)) →
      crypto_sha3 (crypto_sha2 c insn) su1 = set_v c Rd (V128.ofS (four W (t + 16))) := by
  intro Rd d n m op
  refine ⟨fun hop => ?_, fun hop => ?_, fun hop => ⟨?_, ?_⟩, ?_⟩
  · simp only [crypto_sha3, show BITS insn 14 12 = 4 from hop, sha256_hash_eq]
    rfl
  · simp only [crypto_sha3, show BITS insn 14 12 = 5 from hop, sha256_hash_eq]
    rfl
  · rw [← List.foldl_hom Sha1.regs fun s w => sha1_turn_eq hop s w]
    obtain h | h | h : op = 0 ∨ op = 1 ∨ op = 2 := by omega
    all_goals
      simp only [crypto_sha3, h, show BITS insn 14 12 = _ from h]
      rfl
  · rw [rol32_eq]
    rfl
  intro su1 W t hsu0 hsu1 hrd hrn hrm hd hn h8 h12 hW
  have hfirst : crypto_sha2 c insn = set_v c Rd (V128.ofS (sha256_su0 d n)) := by
    simp only [crypto_sha2, hsu0]
    rfl
  simp only [hfirst, crypto_sha3, hsu1, hrd, set_v, Function.update_self, V128.s_ofS,
    Function.update_of_ne hrn, Function.update_of_ne hrm, Function.update_idem, h8, h12]
  rw [← sha256_schedule hW, ← hd, ← hn]

end arm64emu
