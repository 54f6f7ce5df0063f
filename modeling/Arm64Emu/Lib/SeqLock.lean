import Mathlib

namespace seqlock

open List

universe u v w w'

/-- A reader of shared cells: which cell it loads next may depend on what it loaded
before. -/
inductive LoadProg (κ : Type u) (β : Type v) (ρ : Type w) where
  | done (r : ρ)
  | load (x : κ) (k : β → LoadProg κ β ρ)

variable {κ : Type u} {β : Type v} {ρ : Type w} {τ : Type w'} (f : κ → β)

/-- What a reader comes to if the cells hold still. -/
def LoadProg.eval (f : κ → β) : LoadProg κ β ρ → ρ
  | .done r => r
  | .load x k => (k (f x)).eval f

def LoadProg.bind (g : ρ → LoadProg κ β τ) : LoadProg κ β ρ → LoadProg κ β τ
  | .done r => g r
  | .load x k => .load x fun v => (k v).bind g

@[simp]
theorem LoadProg.eval_done (r : ρ) : (LoadProg.done r : LoadProg κ β ρ).eval f = r := rfl

@[simp]
theorem LoadProg.eval_load (x : κ) (k : β → LoadProg κ β ρ) :
    (LoadProg.load x k).eval f = (k (f x)).eval f := rfl

@[simp]
theorem LoadProg.eval_bind (g : ρ → LoadProg κ β τ) (p : LoadProg κ β ρ) :
    (p.bind g).eval f = (g (p.eval f)).eval f := by
  induction p with
  | done r => rfl
  | load x k ih => exact ih (f x)

section strings

variable (f : Nat → κ)

/-- `strnlen` of the string in the cells `f j`, `f (j + 1)`, .. with `n` cells to go. -/
def strnlen : Nat → Nat → LoadProg κ Nat Nat
  | 0, j => .done j
  | n + 1, j => .load (f j) fun v => if v = 0 then .done j else strnlen n (j + 1)

/-- `strncmp` with the rest of `s`: whether they are equal. -/
def strncmp (s : List Nat) : Nat → Nat → LoadProg κ Nat Bool
  | 0, _ => .done true
  | n + 1, j => .load (f j) fun v =>
    if s.getD j 0 ≠ v then .done false else if v = 0 then .done true else strncmp s n (j + 1)

def memcpy : Nat → Nat → LoadProg κ Nat (List Nat)
  | 0, _ => .done []
  | n + 1, j => .load (f j) fun v => (memcpy n (j + 1)).bind fun l => .done (v :: l)

variable {f} {m : κ → Nat} {s : List Nat}

structure HoldsStr (f : Nat → κ) (m : κ → Nat) (s : List Nat) : Prop where
  chars : ∀ j, j < s.length → m (f j) = s.getD j 0
  nul : m (f s.length) = 0
  nonzero : ∀ c ∈ s, c ≠ 0

theorem HoldsStr.ne_zero (h : HoldsStr f m s) {j : Nat} (hj : j < s.length) : m (f j) ≠ 0 := by
  rw [h.chars j hj, getD_eq_getElem _ _ hj]
  exact h.nonzero _ (getElem_mem hj)

theorem HoldsStr.eval_strnlen (h : HoldsStr f m s) {n j : Nat} (hj : j ≤ s.length)
    (hn : s.length < j + n) : (strnlen f n j).eval m = s.length := by
  induction n generalizing j with
  | zero => omega
  | succ n ih =>
    rw [strnlen, LoadProg.eval_load]
    rcases Nat.lt_or_eq_of_le hj with hlt | rfl
    · rw [if_neg (h.ne_zero hlt)]
      exact ih hlt (by omega)
    · rw [if_pos h.nul, LoadProg.eval_done]

theorem eval_memcpy (n j : Nat) : (memcpy f n j).eval m = (List.range' j n).map fun i => m (f i) := by
  induction n generalizing j with
  | zero => rfl
  | succ n ih => rw [memcpy, LoadProg.eval_load, LoadProg.eval_bind, ih, LoadProg.eval_done, List.range'_succ, map_cons]

theorem HoldsStr.eval_memcpy (h : HoldsStr f m s) : (memcpy f (s.length + 1) 0).eval m = s ++ [0] := by
  rw [seqlock.eval_memcpy, ← range_eq_range', range_succ, map_append, map_singleton, h.nul]
  congr 1
  refine ext_getElem (by simp) fun i hi hi' => ?_
  rw [getElem_map, getElem_range, h.chars i hi', getD_eq_getElem _ _ hi']

end strings

section window

structure Locked (κ : Type u) (β : Type v) where
  bumps : Nat
  cells : κ → β

/-- A reader that began when the lock had been bumped `c` times, an even number: until the next bump, what is left to
read comes to what all of it would. -/
structure Reading (l : Locked κ β) (c : Nat) (all rest : LoadProg κ β ρ) : Prop where
  even : Even c
  le : c ≤ l.bumps
  agree : l.bumps = c → rest.eval l.cells = all.eval l.cells

variable {l : Locked κ β} {c : Nat} {all rest : LoadProg κ β ρ}

theorem Reading.start (h : Even l.bumps) (all : LoadProg κ β ρ) : Reading l l.bumps all all :=
  ⟨h, Nat.le_refl _, fun _ => rfl⟩

theorem Reading.load {x : κ} {k : β → LoadProg κ β ρ} (h : Reading l c all (.load x k)) :
    Reading l c all (k (l.cells x)) :=
  ⟨h.even, h.le, h.agree⟩

/-- The lock is bumped, and the cells change, but not while the number of bumps is an
even one. -/
theorem Reading.mono {l' : Locked κ β} (h : Reading l c all rest) (hle : l.bumps ≤ l'.bumps)
    (hcells : l'.bumps = l.bumps → Even l.bumps → l'.cells = l.cells) : Reading l' c all rest := by
  refine ⟨h.even, Nat.le_trans h.le hle, fun heq => ?_⟩
  have hsame : l.bumps = c := Nat.le_antisymm (heq ▸ hle) h.le
  rw [hcells (heq.trans hsame.symm) (hsame ▸ h.even)]
  exact h.agree hsame

end window

end seqlock
