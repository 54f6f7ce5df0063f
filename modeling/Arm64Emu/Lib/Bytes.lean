import Mathlib

namespace bytes

open List

abbrev Byte := BitVec 8

/-- The `w` little-endian bytes of `n`; what does not fit is dropped. -/
def le : Nat → Nat → List Byte
  | 0, _ => []
  | w + 1, n => BitVec.ofNat 8 n :: le w (n / 256)

def ofLe : List Byte → Nat
  | [] => 0
  | b :: bs => b.toNat + 256 * ofLe bs

@[simp] theorem length_le (w n : Nat) : (le w n).length = w := by
  induction w generalizing n with
  | zero => rfl
  | succ w ih => rw [le, length_cons, ih]

theorem ofLe_le {w n : Nat} (hn : n < 256 ^ w) : ofLe (le w n) = n := by
  induction w generalizing n with
  | zero =>
    rw [pow_zero] at hn
    rw [le, ofLe]
    omega
  | succ w ih =>
    have hdiv : n / 256 < 256 ^ w := Nat.div_lt_of_lt_mul (by rwa [pow_succ'] at hn)
    rw [le, ofLe, ih hdiv, BitVec.toNat_ofNat]
    omega

theorem ofLe_lt (bs : List Byte) : ofLe bs < 256 ^ bs.length := by
  induction bs with
  | nil => exact Nat.one_pos
  | cons b bs ih =>
    have hb : b.toNat < 256 := b.isLt
    rw [ofLe, length_cons, pow_succ]
    omega

section buffer

variable {α : Type*} {buf pre rest bs cs : List α} {off n : Nat}

/-- The `n` bytes of a buffer from `off` on, as far as it reaches. -/
def sub (buf : List α) (off n : Nat) : List α := (buf.drop off).take n

/-- A buffer with `bs` written over it at `off`; `none` where the write would
run past the end. -/
def put (buf : List α) (off : Nat) (bs : List α) : Option (List α) :=
  if off + bs.length ≤ buf.length then some (buf.take off ++ bs ++ buf.drop (off + bs.length)) else none

theorem length_sub (h : off + n ≤ buf.length) : (sub buf off n).length = n := by
  rw [sub, length_take, length_drop]
  omega

theorem sub_append_right (pre rest : List α) (off n : Nat) :
    sub (pre ++ rest) (pre.length + off) n = sub rest off n := by
  rw [sub, sub, drop_append, drop_eq_nil_of_le (by omega), nil_append]
  congr 2
  omega

theorem sub_append_left (h : off + n ≤ pre.length) : sub (pre ++ rest) off n = sub pre off n := by
  rw [sub, sub, drop_append_of_le_length (by omega), take_append_of_le_length]
  rw [length_drop]
  omega

theorem sub_drop (buf : List α) (k off n : Nat) : sub (buf.drop k) off n = sub buf (k + off) n := by
  rw [sub, sub, drop_drop]

variable {mid : List α}

theorem sub_mid (hoff : off = pre.length) (hn : n = mid.length) :
    sub (pre ++ (mid ++ rest)) off n = mid := by
  subst hoff hn
  rw [sub, drop_left, take_left]

theorem sub_head (hn : n = mid.length) : sub (mid ++ rest) 0 n = mid := by
  subst hn
  rw [sub, drop_zero, take_left]

theorem put_append_right (pre : List α) (h : put rest off bs = some cs) :
    put (pre ++ rest) (pre.length + off) bs = some (pre ++ cs) := by
  unfold put at h ⊢
  split at h
  next hfit =>
    rw [Option.some_inj] at h
    subst h
    have hpre : pre.drop (pre.length + off + bs.length) = [] := drop_eq_nil_of_le (by omega)
    rw [if_pos (by rw [length_append]; omega), take_append, drop_append, hpre,
      take_of_length_le (by omega), nil_append, Nat.add_sub_cancel_left, Nat.add_assoc,
      Nat.add_sub_cancel_left]
    simp only [append_assoc]
  next => exact absurd h (by simp)

theorem put_zero (h : bs.length = pre.length) : put (pre ++ rest) 0 bs = some (bs ++ rest) := by
  unfold put
  rw [if_pos (by rw [length_append]; omega), take_zero, nil_append, Nat.zero_add, h, drop_left]

theorem put_mid (hoff : off = pre.length) (h : bs.length = mid.length) :
    put (pre ++ (mid ++ rest)) off bs = some (pre ++ (bs ++ rest)) := by
  subst hoff
  exact put_append_right pre (put_zero h)

theorem put_cursor (hoff : off = pre.length) (h : bs.length ≤ rest.length) :
    put (pre ++ rest) off bs = some (pre ++ (bs ++ rest.drop bs.length)) := by
  have htake : bs.length = (rest.take bs.length).length := by
    rw [length_take]
    omega
  conv_lhs => rw [← take_append_drop bs.length rest]
  exact put_mid hoff htake

theorem put_replicate {a : α} (hoff : off = pre.length) (h : bs.length ≤ n) :
    put (pre ++ (List.replicate n a ++ rest)) off bs =
      some ((pre ++ bs) ++ (List.replicate (n - bs.length) a ++ rest)) := by
  rw [put_cursor hoff (by rw [length_append, length_replicate]; omega),
    drop_append_of_le_length (by rw [length_replicate]; exact h), drop_replicate,
    append_assoc]

end buffer

end bytes
