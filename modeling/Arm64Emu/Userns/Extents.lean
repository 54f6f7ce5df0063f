import Mathlib

namespace arm64emu

def IDMAP_EXTENTS : Nat := 340

/-- `IdExtent`: `count` ids from `first` on are those from `lower_first` on outside. -/
structure IdExtent where
  first : Nat
  lower_first : Nat
  count : Nat
  deriving DecidableEq, Repr

/-- The kernel's `isspace`. -/
def ksp (c : Nat) : Bool := c == 32 || (decide (9 ≤ c) && decide (c ≤ 13))

def is_digit (c : Nat) : Bool := decide (48 ≤ c) && decide (c ≤ 57)

def field_value (ds : List Nat) : Nat := ds.foldl (fun acc c => (acc * 10 + (c - 48)) % 2 ^ 32) 0

def idmap_field (line : List Nat) : Option (Nat × List Nat) :=
  match line.dropWhile ksp with
  | [] => none
  | c :: l => if is_digit c then some (field_value ((c :: l).takeWhile is_digit), (c :: l).dropWhile is_digit) else none

def space_next : List Nat → Bool
  | [] => false
  | c :: _ => ksp c

/-- The three fields of a line: whitespace after the first two, nothing else after the
third. -/
def idmap_line (line : List Nat) : Option IdExtent :=
  (idmap_field line).bind fun f₀ =>
    if space_next f₀.2 then (idmap_field f₀.2).bind fun f₁ =>
      if space_next f₁.2 then (idmap_field f₁.2).bind fun f₂ =>
        if (f₂.2.dropWhile ksp).isEmpty then some ⟨f₀.1, f₁.1, f₂.1⟩ else none
      else none
    else none

/-- An extent that is empty, wraps or starts at -1. -/
def extent_bad (e : IdExtent) : Bool :=
  e.first == 2 ^ 32 - 1 || e.lower_first == 2 ^ 32 - 1 ||
    decide ((e.first + e.count) % 2 ^ 32 ≤ e.first) || decide ((e.lower_first + e.count) % 2 ^ 32 ≤ e.lower_first)

def range_last (first count : Nat) : Nat := (first + count + (2 ^ 32 - 1)) % 2 ^ 32

/-- Whether two extents share an id on either side. -/
def mappings_overlap (p e : IdExtent) : Bool :=
  (decide (p.first ≤ range_last e.first e.count) && decide (range_last p.first p.count ≥ e.first)) ||
    (decide (p.lower_first ≤ range_last e.lower_first e.count) &&
      decide (range_last p.lower_first p.count ≥ e.lower_first))

/-- The loop over the lines of `rest`, with room for so many more extents. -/
def idmap_lines : Nat → List Nat → List IdExtent → Option (List IdExtent)
  | 0, _, _ => none
  | room + 1, rest, out =>
    let line := rest.takeWhile (· != 10)
    let more := decide (line.length + 1 < rest.length)
    match idmap_line line with
    | none => none
    | some e =>
      if extent_bad e then none
      else if out.any fun p => mappings_overlap p e then none
      else if room = 0 ∧ more = true then none
      else if more then idmap_lines room (rest.drop (line.length + 1)) (out ++ [e])
      else some (out ++ [e])

def idmap_parse (bytes : List Nat) : Option (List IdExtent) :=
  idmap_lines IDMAP_EXTENTS (bytes.takeWhile (· != 0)) []

def decimal (n : Nat) : List Nat := if n = 0 then [48] else (Nat.digits 10 n).reverse.map (· + 48)

def padded (n : Nat) : List Nat := List.replicate (10 - (decimal n).length) 32 ++ decimal n

def extent_line (e : IdExtent) : List Nat := padded e.first ++ [32] ++ padded e.lower_first ++ [32] ++ padded e.count

def put_extents (es : List IdExtent) : List Nat := es.flatMap fun e => extent_line e ++ [10]

def number (ds : List Nat) : Nat := ds.foldl (fun acc c => acc * 10 + (c - 48)) 0

def Digits (ds : List Nat) : Prop := ds ≠ [] ∧ ∀ c ∈ ds, is_digit c = true

def Spaces (ws : List Nat) : Prop := ∀ c ∈ ws, ksp c = true

/-- Three numbers, separated and surrounded by whitespace. -/
def IsLine (line : List Nat) (e : IdExtent) : Prop :=
  ∃ ws₀ ds₀ ws₁ ds₁ ws₂ ds₂ ws₃, line = ws₀ ++ (ds₀ ++ (ws₁ ++ (ds₁ ++ (ws₂ ++ (ds₂ ++ ws₃))))) ∧
    (Spaces ws₀ ∧ Spaces ws₁ ∧ Spaces ws₂ ∧ Spaces ws₃) ∧ (ws₁ ≠ [] ∧ ws₂ ≠ []) ∧
    (Digits ds₀ ∧ Digits ds₁ ∧ Digits ds₂) ∧
    e = ⟨number ds₀ % 2 ^ 32, number ds₁ % 2 ^ 32, number ds₂ % 2 ^ 32⟩

/-- An extent is not empty, does not wrap and does not start at the last id. -/
structure IdExtent.Ok (e : IdExtent) : Prop where
  nonempty : 0 < e.count
  first_lt : e.first + e.count < 2 ^ 32
  lower_lt : e.lower_first + e.count < 2 ^ 32
  first_ne : e.first ≠ 2 ^ 32 - 1
  lower_ne : e.lower_first ≠ 2 ^ 32 - 1

def RangesDisjoint (a n b m : Nat) : Prop := a + n ≤ b ∨ b + m ≤ a

def IdExtent.Apart (p e : IdExtent) : Prop :=
  RangesDisjoint p.first p.count e.first e.count ∧ RangesDisjoint p.lower_first p.count e.lower_first e.count

/-- The lines, with a newline after each but the last, which may have one. -/
def line_text : List (List Nat) → List Nat
  | [] => []
  | [l] => l
  | l :: ls => l ++ 10 :: line_text ls

/-- The grammar of a map and what its extents must meet. -/
structure IdMapText (text : List Nat) (es : List IdExtent) : Prop where
  lines : ∃ ls tail, text = line_text ls ++ tail ∧ (tail = [] ∨ tail = [10]) ∧ (∀ l ∈ ls, 10 ∉ l) ∧
    List.Forall₂ IsLine ls es
  some_lines : es ≠ []
  room : es.length ≤ IDMAP_EXTENTS
  ok : ∀ e ∈ es, e.Ok
  apart : es.Pairwise IdExtent.Apart

end arm64emu
