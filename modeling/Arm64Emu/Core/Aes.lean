import Mathlib
import Arm64Emu.Core.Cpu

namespace arm64emu

/-- The byte view of a vector register, the low byte first. -/
def V128.b (v : V128) (i : Nat) : u8 := v.extractLsb' (8 * i) 8

def V128.ofB (f : Nat → u8) : V128 := BitVec.ofFnLE fun i => (f (i / 8)).getLsbD (i % 8)

/-- Entry `i` of a table of bytes, which is byte `i` of a number. -/
def byte_tab (tab : BitVec 2048) (i : u8) : u8 := tab.extractLsb' (8 * i.toNat) 8

def aes_sbox : u8 → u8 := byte_tab
  0x16bb54b00f2d99416842e6bf0d89a18cdf2855cee9871e9b948ed9691198f8e19e1dc186b95735610ef6034866b53e708a8bbd4b1f74dde8c6b4a61c2e2578ba08ae7a65eaf4566ca94ed58d6d37c8e779e4959162acd3c25c2406490a3a32e0db0b5ede14b8ee4688902a22dc4f816073195d643d7ea7c41744975fec130ccdd2f3ff1021dab6bcf5389d928f40a351a89f3c507f02f94585334d43fbaaefd0cf584c4a39becb6a5bb1fc20ed00d153842fe329b3d63b52a05a6e1b1a2c830975b227ebe28012079a059618c323c7041531d871f1e5a534ccf73f362693fdb7c072a49cafa2d4adf04759fa7dc982ca76abd7fe2b670130c56f6bf27b777c63#2048

def aes_inv_sbox : u8 → u8 := byte_tab
  0x7d0c2155631469e126d677ba7e042b17619953833cbbebc8b0f52aae4d3be0a0ef9cc9939f7ae52d0d4ab519a97f51605fec8027591012b131c7078833a8dd1ff45acd78fec0db9a2079d2c64b3e56fc1bbe18aa0e62b76f89c5291d711af1476edf751ce837f9e28535ade72274ac9673e6b4f0cecff297eadc674f4111913a6b8a130103bdafc1020f3fca8f1e2cd00645b3b80558e4f70ad3bc8c00abd890849d8da75746155edab9edfd5048706c92b6655dcc5ca4d41698688664f6f87225d18b6d49a25b76b224d92866a12e084ec3fa420b954cee3d23c2a632947b54cbe9dec444438e3487ff2f9b8239e37cfbd7f3819ea340bf38a53630d56a0952#2048

/-- `aes_shift` and `aes_inv_shift`: sixteen positions, a digit each. -/
def aes_shift (i : Nat) : Nat := 0xb61c72d83e94fa50 >>> (4 * i) % 16
def aes_inv_shift (i : Nat) : Nat := 0x369cf258be147ad0 >>> (4 * i) % 16

/-- The turns of `aes_gfmul`, on the sum so far. -/
def aes_gfturns : Nat → u8 → u8 → u8 → u8
  | 0, p, _, _ => p
  | n + 1, p, a, b =>
    aes_gfturns n (if b &&& 1#8 ≠ 0#8 then p ^^^ a else p)
      (if a &&& 0x80#8 ≠ 0#8 then (a <<< 1) ^^^ 0x1b#8 else a <<< 1) (b >>> 1)

def aes_gfmul (a b : u8) : u8 := aes_gfturns 8 0#8 a b

/-- Byte `row` of the column `a` under `aes_mixcols`. -/
def aes_mixcol (inv : Bool) (a : Nat → u8) (row : Nat) : u8 :=
  let g (i : Nat) (k : u8) := aes_gfmul (a i) k
  match inv, row with
  | false, 0 => g 0 2#8 ^^^ g 1 3#8 ^^^ a 2 ^^^ a 3
  | false, 1 => a 0 ^^^ g 1 2#8 ^^^ g 2 3#8 ^^^ a 3
  | false, 2 => a 0 ^^^ a 1 ^^^ g 2 2#8 ^^^ g 3 3#8
  | false, _ => g 0 3#8 ^^^ a 1 ^^^ a 2 ^^^ g 3 2#8
  | true, 0 => g 0 14#8 ^^^ g 1 11#8 ^^^ g 2 13#8 ^^^ g 3 9#8
  | true, 1 => g 0 9#8 ^^^ g 1 14#8 ^^^ g 2 11#8 ^^^ g 3 13#8
  | true, 2 => g 0 13#8 ^^^ g 1 9#8 ^^^ g 2 14#8 ^^^ g 3 11#8
  | true, _ => g 0 11#8 ^^^ g 1 13#8 ^^^ g 2 9#8 ^^^ g 3 14#8

def aes_mixcols (v : V128) (inv : Bool) : V128 :=
  V128.ofB fun i => aes_mixcol inv (fun row => v.b (i / 4 * 4 + row)) (i % 4)

def aese (d n : V128) : V128 := V128.ofB fun i => aes_sbox ((d ^^^ n).b (aes_shift i))
def aesd (d n : V128) : V128 := V128.ofB fun i => aes_inv_sbox ((d ^^^ n).b (aes_inv_shift i))

/-- `AESE`, `AESD`, `AESMC` and `AESIMC`. -/
def crypto_aes (c : CPU) (insn : u32) : CPU :=
  let Rd := BITS insn 4 0
  let n := c.v (BITS insn 9 5)
  match BITS insn 16 12 with
  | 4 => set_v c Rd (aese (c.v Rd) n)
  | 5 => set_v c Rd (aesd (c.v Rd) n)
  | 6 => set_v c Rd (aes_mixcols n false)
  | 7 => set_v c Rd (aes_mixcols n true)
  | _ => undefined c

def aes_rounds (ks : List V128) (s : V128) : V128 :=
  ks.foldl (fun s k => aes_mixcols (aese s k) false) s

/-- The equivalent inverse rounds, on a state and the key already added to it. -/
def aes_inv_rounds (ks : List V128) (y p : V128) : V128 :=
  let r := ks.foldr (fun k s => (aesd (aes_mixcols s.1 true) (aes_mixcols s.2 true), k)) (y, p)
  r.1 ^^^ r.2

theorem V128.b_ofB (f : Nat → u8) {i : Nat} (hi : i < 16) : (V128.ofB f).b i = f i := by
  refine BitVec.eq_of_getLsbD_eq fun j hj => ?_
  rw [V128.b, V128.ofB, BitVec.getLsbD_extractLsb', BitVec.getLsbD_ofFnLE]
  have hq : (8 * i + j) / 8 = i := by omega
  have hr : (8 * i + j) % 8 = j := by omega
  simp [hq, hr, hj, show 8 * i + j < 128 by omega]

theorem V128.ext_b {v w : V128} (h : ∀ i < 16, v.b i = w.b i) : v = w := by
  refine BitVec.eq_of_getLsbD_eq fun j hj => ?_
  have hbyte := congrArg (·.getLsbD (j % 8)) (h (j / 8) (by omega))
  simpa [V128.b, BitVec.getLsbD_extractLsb', Nat.mod_lt, Nat.div_add_mod] using hbyte

theorem V128.b_xor (v w : V128) (i : Nat) : (v ^^^ w).b i = v.b i ^^^ w.b i := BitVec.extractLsb'_xor

theorem aes_inv_sbox_sbox : ∀ x, aes_inv_sbox (aes_sbox x) = x := by decide +kernel

theorem aesd_aese {d k y m : V128} (hy : y ^^^ m = aese d k) : aesd y m = d ^^^ k := by
  refine V128.ext_b fun i hi => ?_
  have hshift : ∀ i < 16, aes_inv_shift i < 16 ∧ aes_shift (aes_inv_shift i) = i := by decide
  rw [aesd, V128.b_ofB _ hi, hy, aese, V128.b_ofB _ (hshift i hi).1, (hshift i hi).2, aes_inv_sbox_sbox]

theorem aes_gfturns_xor (n : Nat) (p q a a' b : u8) :
    aes_gfturns n (p ^^^ q) (a ^^^ a') b = aes_gfturns n p a b ^^^ aes_gfturns n q a' b := by
  induction n generalizing p q a a' b with
  | zero => rfl
  | succ n ih =>
    have hbit : ∀ x : u8, x &&& 0x80#8 = 0#8 ∨ x &&& 0x80#8 = 0x80#8 := by decide +kernel
    rw [aes_gfturns, aes_gfturns, aes_gfturns, ← ih]
    congr 1
    · split
      · ac_rfl
      · rfl
    · have hand : (a ^^^ a') &&& 0x80#8 = (a &&& 0x80#8) ^^^ (a' &&& 0x80#8) := by
        ext
        simp [Bool.and_xor_distrib_right]
      rw [BitVec.shiftLeft_xor_distrib, hand]
      obtain h | h := hbit a <;> obtain h' | h' := hbit a' <;> simp [h, h']
      · ac_rfl
      · ac_rfl
      · rw [BitVec.xor_comm (a' <<< 1) 27#8, BitVec.xor_assoc, ← BitVec.xor_assoc 27#8, BitVec.xor_self,
          BitVec.zero_xor]

theorem aes_gfmul_xor (a a' b : u8) : aes_gfmul (a ^^^ a') b = aes_gfmul a b ^^^ aes_gfmul a' b :=
  aes_gfturns_xor 8 0#8 0#8 a a' b

variable (inv : Bool)

theorem aes_mixcol_xor (a a' : Nat → u8) (row : Nat) :
    aes_mixcol inv (fun i => a i ^^^ a' i) row = aes_mixcol inv a row ^^^ aes_mixcol inv a' row := by
  unfold aes_mixcol
  split <;> simp only [aes_gfmul_xor] <;> ac_rfl

theorem aes_mixcols_xor (v w : V128) : aes_mixcols (v ^^^ w) inv = aes_mixcols v inv ^^^ aes_mixcols w inv := by
  refine V128.ext_b fun i hi => ?_
  simp only [aes_mixcols, V128.b_xor, V128.b_ofB _ hi, aes_mixcol_xor]

/-- A row of `aes_mixcol`, the column being read from that row on. -/
def aes_comb : Bool → u8 → u8 → u8 → u8 → u8
  | true, w, x, y, z => aes_gfmul w 14#8 ^^^ aes_gfmul x 11#8 ^^^ aes_gfmul y 13#8 ^^^ aes_gfmul z 9#8
  | false, w, x, y, z => aes_gfmul w 2#8 ^^^ aes_gfmul x 3#8 ^^^ y ^^^ z

theorem aes_mixcol_row (a : Nat → u8) : ∀ row < 4, aes_mixcol inv a row =
    aes_comb inv (a row) (a ((row + 1) % 4)) (a ((row + 2) % 4)) (a ((row + 3) % 4)) := by
  intro row hrow
  interval_cases row <;> cases inv <;> simp only [aes_mixcol, aes_comb, Nat.reduceAdd, Nat.reduceMod] <;> ac_rfl

theorem aes_comb_xor (w x y z w' x' y' z' : u8) :
    aes_comb inv (w ^^^ w') (x ^^^ x') (y ^^^ y') (z ^^^ z') = aes_comb inv w x y z ^^^ aes_comb inv w' x' y' z' := by
  cases inv <;> simp only [aes_comb, aes_gfmul_xor] <;> ac_rfl

/-- A row, mixed and mixed back. -/
def aes_comb2 (w x y z : u8) : u8 :=
  aes_comb (!inv) (aes_comb inv w x y z) (aes_comb inv x y z w) (aes_comb inv y z w x) (aes_comb inv z w x y)

theorem aes_comb2_eq (w x y z : u8) : aes_comb2 inv w x y z = w := by
  have hsplit : aes_comb2 inv w x y z =
      aes_comb2 inv w 0 0 0 ^^^ aes_comb2 inv 0 x 0 0 ^^^ aes_comb2 inv 0 0 y 0 ^^^ aes_comb2 inv 0 0 0 z := by
    simp [aes_comb2, ← aes_comb_xor]
  have hone : ∀ inv w, aes_comb2 inv w 0 0 0 = w ∧ aes_comb2 inv 0 w 0 0 = 0 ∧
      aes_comb2 inv 0 0 w 0 = 0 ∧ aes_comb2 inv 0 0 0 w = 0 := by
    decide +kernel
  rw [hsplit, (hone inv w).1, (hone inv x).2.1, (hone inv y).2.2.1, (hone inv z).2.2.2]
  simp

theorem aes_mixcols_inverse (v : V128) : aes_mixcols (aes_mixcols v inv) (!inv) = v := by
  refine V128.ext_b fun i hi => ?_
  have hcol : ∀ i < 16, ∀ j < 4, i / 4 * 4 + j < 16 ∧ (i / 4 * 4 + j) / 4 = i / 4 ∧ (i / 4 * 4 + j) % 4 = j := by
    decide
  have hbyte : ∀ j < 4, (aes_mixcols v inv).b (i / 4 * 4 + j) =
    aes_mixcol inv (fun row => v.b (i / 4 * 4 + row)) j := by
    intro j hj
    obtain ⟨hlt, hq, hr⟩ := hcol i hi j hj
    rw [aes_mixcols, V128.b_ofB _ hlt, hq, hr]
  have hrow := aes_mixcol_row inv (fun row => v.b (i / 4 * 4 + row))
  have hi' : i = i / 4 * 4 + i % 4 := by omega
  rw [aes_mixcols, V128.b_ofB _ hi, aes_mixcol_row _ _ _ (Nat.mod_lt i four_pos)]
  conv_rhs => rw [hi']
  generalize i / 4 * 4 = m at *
  obtain h | h | h | h : i % 4 = 0 ∨ i % 4 = 1 ∨ i % 4 = 2 ∨ i % 4 = 3 := by omega
  all_goals
    simp only [h, Nat.reduceAdd, Nat.reduceMod, hbyte, hrow, Nat.reduceLT]
    exact aes_comb2_eq ..

theorem aes_inv_rounds_undo (ks : List V128) (s p : V128) : aes_inv_rounds ks (aes_rounds ks s ^^^ p) p = s := by
  induction ks generalizing s with
  | nil => simp [aes_inv_rounds, aes_rounds]
  | cons k ks ih =>
    have hx := ih (aes_mixcols (aese s k) false)
    simp only [aes_inv_rounds, aes_rounds, List.foldl_cons, List.foldr_cons] at hx ⊢
    rw [aesd_aese (d := s) (k := k), BitVec.xor_assoc, BitVec.xor_self, BitVec.xor_zero]
    rw [← aes_mixcols_xor, hx]
    exact aes_mixcols_inverse false (aese s k)

/-- AESMC and AESIMC are inverse, and AESE is undone by AESD with a zero key and an exclusive-or; so are any number of
rounds, also with a last one that mixes no columns. -/
theorem aes_instructions_inverse :
    (∀ c mix unmix, (BITS mix 16 12 = 6 ∧ BITS unmix 16 12 = 7 ∨ BITS mix 16 12 = 7 ∧ BITS unmix 16 12 = 6) →
      BITS unmix 9 5 = BITS mix 4 0 →
      (crypto_aes (crypto_aes c mix) unmix).v (BITS unmix 4 0) = c.v (BITS mix 9 5)) ∧
    (∀ c e d, BITS e 16 12 = 4 → BITS d 16 12 = 5 → BITS d 4 0 = BITS e 4 0 → BITS d 9 5 ≠ BITS e 4 0 →
      c.v (BITS d 9 5) = 0 →
      (crypto_aes (crypto_aes c e) d).v (BITS d 4 0) ^^^ c.v (BITS e 9 5) = c.v (BITS e 4 0)) ∧
    ∀ ks s k last, aes_inv_rounds ks (aes_rounds ks s) 0 = s ∧
      aes_inv_rounds ks (aesd (aese (aes_rounds ks s) k ^^^ last) last) k = s := by
  refine ⟨fun c mix unmix hop hreg => ?_, fun c e d he hd hreg hkey hzero => ?_, fun ks s k last => ⟨?_, ?_⟩⟩
  · obtain ⟨h, h'⟩ | ⟨h, h'⟩ := hop <;>
      simp only [crypto_aes, h, h', hreg, set_v, Function.update_self]
    exacts [aes_mixcols_inverse false _, aes_mixcols_inverse true _]
  · simp only [crypto_aes, he, hd, hreg, set_v, Function.update_self, Function.update_of_ne hkey, hzero]
    rw [aesd_aese (m := 0) BitVec.xor_zero, BitVec.xor_assoc, BitVec.xor_self, BitVec.xor_zero]
  · simpa using aes_inv_rounds_undo ks s 0
  · rw [aesd_aese, aes_inv_rounds_undo]
    rw [BitVec.xor_assoc, BitVec.xor_self, BitVec.xor_zero]

end arm64emu
