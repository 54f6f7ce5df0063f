import Mathlib

namespace linked

open List

open Function

/-- A cell of a singly linked list: what it holds and the address of the next. -/
structure Cell (α : Type*) where
  val : α
  next : Option Nat

abbrev Heap (α : Type*) := Nat → Option (Cell α)

structure Ends where
  head : Option Nat
  tail : Option Nat

variable {α : Type*}

def next_of (h : Heap α) (a : Nat) : Option Nat := (h a).bind Cell.next

def set_next (h : Heap α) (a : Nat) (p : Option Nat) : Heap α :=
  update h a ((h a).map fun c => { c with next := p })

/-- The cells from `p` on are those at `as`, in order, and hold `vs`. -/
def Chain (h : Heap α) : Option Nat → List Nat → List α → Prop
  | p, [], [] => p = none
  | p, a :: as, v :: vs => p = some a ∧ ∃ n, h a = some ⟨v, n⟩ ∧ Chain h n as vs
  | _, _, _ => False

structure Holds (h : Heap α) (l : Ends) (as : List Nat) (vs : List α) : Prop where
  chain : Chain h l.head as vs
  tail : l.tail = as.getLast?
  nodup : as.Nodup

def push (h : Heap α) (l : Ends) (a : Nat) (v : α) : Heap α × Ends :=
  let h := update h a (some ⟨v, none⟩)
  match l.tail with
  | some t => (set_next h t (some a), ⟨l.head, some a⟩)
  | none => (h, ⟨some a, some a⟩)

/-- The cell at `a`, which comes after the one at `prev`, taken out. -/
def unlink (h : Heap α) (l : Ends) (a : Nat) (prev : Option Nat) : Heap α × Ends :=
  let next := next_of h a
  let tail := if l.tail = some a then prev else l.tail
  match prev with
  | some p => (set_next h p next, ⟨l.head, tail⟩)
  | none => (h, ⟨next, tail⟩)

section chain

variable {h h' : Heap α} {p : Option Nat} {as bs : List Nat} {vs ws : List α} {l : Ends} {a : Nat} {v : α}

theorem Chain.congr (hc : Chain h p as vs) (heq : ∀ a ∈ as, h' a = h a) : Chain h' p as vs := by
  induction as generalizing p vs with
  | nil => cases vs <;> exact hc
  | cons a as ih =>
    cases vs with
    | nil => exact hc
    | cons v vs =>
      obtain ⟨hp, n, hcell, hrest⟩ := hc
      exact ⟨hp, n, by rw [heq a mem_cons_self, hcell], ih hrest fun b hb => heq b (.tail a hb)⟩

theorem Chain.length_eq (hc : Chain h p as vs) : as.length = vs.length := by
  induction as generalizing p vs with
  | nil =>
    cases vs with
    | nil => rfl
    | cons v vs => exact hc.elim
  | cons a as ih =>
    cases vs with
    | nil => exact hc.elim
    | cons v vs =>
      obtain ⟨-, n, -, hrest⟩ := hc
      rw [length_cons, length_cons, ih hrest]

theorem Chain.cell {k : Nat} (hc : Chain h p as vs) (hk : vs[k]? = some v) :
    ∃ a n, as[k]? = some a ∧ h a = some ⟨v, n⟩ := by
  induction vs generalizing p as k with
  | nil => cases hk
  | cons v' vs ih =>
    cases as with
    | nil => exact hc.elim
    | cons a as =>
      obtain ⟨-, n, hcell, hrest⟩ := hc
      cases k with
      | zero =>
        cases hk
        exact ⟨a, n, rfl, hcell⟩
      | succ k =>
        obtain ⟨a', n', ha', hcell'⟩ := ih (k := k) hrest hk
        exact ⟨a', n', ha', hcell'⟩

variable (as vs) in
theorem Chain.rest (hc : Chain h p (as ++ a :: bs) (vs ++ v :: ws)) (hlen : as.length = vs.length) :
    (∃ n, h a = some ⟨v, n⟩) ∧ Chain h (next_of h a) bs ws := by
  induction as generalizing p vs with
  | nil =>
    obtain rfl := length_eq_zero_iff.1 hlen.symm
    obtain ⟨-, n, hcell, hrest⟩ := hc
    refine ⟨⟨n, hcell⟩, ?_⟩
    rw [next_of, hcell]
    exact hrest
  | cons b as ih =>
    cases vs with
    | nil => cases hlen
    | cons v' vs =>
      obtain ⟨-, n, -, hrest⟩ := hc
      exact ih _ hrest (Nat.succ.inj hlen)

theorem Chain.relink {cs : List Nat} {us : List α} {q : Option Nat} (hc : Chain h p (as ++ a :: cs) (vs ++ v :: us))
    (hlen : as.length = vs.length) (hnew : a ∉ as) (hq : Chain h q bs ws) (hbs : a ∉ bs) :
    Chain (set_next h a q) p (as ++ a :: bs) (vs ++ v :: ws) := by
  have hsame : ∀ b, b ≠ a → set_next h a q b = h b := fun b hne => by rw [set_next, update_of_ne hne]
  induction as generalizing p vs with
  | nil =>
    obtain rfl := length_eq_zero_iff.1 hlen.symm
    obtain ⟨rfl, n, hcell, -⟩ := hc
    refine ⟨rfl, q, by rw [set_next, update_self, hcell]; rfl, hq.congr fun b hb => hsame b ?_⟩
    rintro rfl
    exact hbs hb
  | cons b as ih =>
    cases vs with
    | nil => cases hlen
    | cons v' vs =>
      obtain ⟨rfl, n, hcell, hrest⟩ := hc
      rw [mem_cons, not_or] at hnew
      exact ⟨rfl, n, by rw [hsame b (Ne.symm hnew.1), hcell], ih hrest (Nat.succ.inj hlen) hnew.2⟩

end chain

section holds

variable {h : Heap α} {as : List Nat} {vs : List α} {l : Ends} {a k : Nat}

theorem Holds.push (hl : Holds h l as vs) (ha : a ∉ as) (v : α) :
    Holds (push h l a v).1 (push h l a v).2 (as ++ [a]) (vs ++ [v]) := by
  have hnodup : (as ++ [a]).Nodup := nodup_append.2 ⟨hl.nodup, nodup_singleton a, by
    rintro b hb c hc rfl
    exact ha (mem_singleton.1 hc ▸ hb)⟩
  have hsame : ∀ b ∈ as, update h a (some ⟨v, none⟩) b = h b := by
    intro b hb
    rw [update_of_ne]
    rintro rfl
    exact ha hb
  have hchain := hl.chain.congr hsame
  have hnew : Chain (update h a (some ⟨v, none⟩)) (some a) [a] [v] :=
    ⟨rfl, none, update_self .., rfl⟩
  have hlast : (as ++ [a]).getLast? = some a := by rw [List.getLast?_concat]
  unfold linked.push
  cases htail : l.tail with
  | none =>
    rw [hl.tail, List.getLast?_eq_none_iff] at htail
    subst htail
    obtain rfl := length_eq_zero_iff.1 hl.chain.length_eq.symm
    exact ⟨hnew, hlast.symm, hnodup⟩
  | some t =>
    rw [hl.tail, List.getLast?_eq_some_iff] at htail
    obtain ⟨pre, rfl⟩ := htail
    rcases eq_nil_or_concat vs with rfl | ⟨vpre, w, rfl⟩
    · have hlen := hl.chain.length_eq
      simp at hlen
    rw [concat_eq_append] at hchain ⊢
    have hlen : pre.length = vpre.length := by simpa using hchain.length_eq
    have hpre : t ∉ pre := by
      have hnd := hl.nodup
      rw [nodup_append] at hnd
      exact fun hmem => hnd.2.2 t hmem t (mem_singleton_self t) rfl
    have hta : t ∉ [a] := by
      intro hmem
      obtain rfl := mem_singleton.1 hmem
      exact ha (by simp)
    have hrelink := hchain.relink hlen hpre hnew hta
    refine ⟨?_, hlast.symm, hnodup⟩
    rw [append_assoc, append_assoc]
    exact hrelink

def prev_of (as : List Nat) (k : Nat) : Option Nat := if k = 0 then none else as[k - 1]?

theorem exists_neighbours {β : Type*} {l : List β} (hk : k + 1 < l.length) :
    ∃ pre x y post, l = pre ++ x :: y :: post ∧ pre.length = k ∧ l.eraseIdx (k + 1) = pre ++ x :: post := by
  induction k generalizing l with
  | zero =>
    rcases l with _ | ⟨x, _ | ⟨y, post⟩⟩
    · cases hk
    · exact absurd hk (lt_irrefl 1)
    · exact ⟨[], x, y, post, rfl, rfl, rfl⟩
  | succ k ih =>
    cases l with
    | nil => cases hk
    | cons z l =>
      obtain ⟨pre, x, y, post, rfl, hlen, herase⟩ := ih (Nat.lt_of_succ_lt_succ hk)
      exact ⟨z :: pre, x, y, post, rfl, by rw [length_cons, hlen], by rw [eraseIdx_cons_succ, herase]; rfl⟩

theorem Holds.unlink (hl : Holds h l as vs) (hk : as[k]? = some a) :
    Holds (unlink h l a (prev_of as k)).1 (unlink h l a (prev_of as k)).2 (as.eraseIdx k) (vs.eraseIdx k) := by
  have hlen := hl.chain.length_eq
  have hchain := hl.chain
  have hnodup := hl.nodup.eraseIdx k
  cases k with
  | zero =>
    cases as with
    | nil => cases hk
    | cons b as =>
      cases hk
      cases vs with
      | nil => cases hlen
      | cons v vs =>
        obtain ⟨-, hrest⟩ := Chain.rest [] [] hchain rfl
        refine ⟨hrest, ?_, hnodup⟩
        have hnew := (nodup_cons.1 hl.nodup).1
        cases as with
        | nil => simp [linked.unlink, prev_of, hl.tail]
        | cons c as =>
          have hne : (c :: as).getLast? ≠ some a := fun heq => hnew (mem_of_getLast? heq)
          dsimp only [linked.unlink, prev_of, if_true]
          rw [hl.tail, List.getLast?_cons_cons, if_neg hne, eraseIdx_cons_zero, if_pos rfl]
  | succ k =>
    have hlt := (List.getElem?_eq_some_iff.1 hk).1
    obtain ⟨pre, p, b, post, rfl, hpre, herase⟩ := exists_neighbours hlt
    obtain ⟨vpre, vp, vb, vpost, rfl, hvpre, hverase⟩ := exists_neighbours (hlen ▸ hlt)
    subst hpre
    rw [List.getElem?_append_right (by omega)] at hk
    simp at hk
    subst hk
    have hprev : prev_of (pre ++ p :: b :: post) (pre.length + 1) = some p := by simp [prev_of]
    rw [hprev, herase, hverase]
    rw [herase] at hnodup
    have hnd := hl.nodup
    have hp : p ∉ pre ∧ p ∉ post ∧ b ∉ post ∧ p ≠ b := by
      rw [nodup_append, nodup_cons, nodup_cons] at hnd
      simp only [mem_cons, not_or] at hnd
      refine ⟨fun hmem => hnd.2.2 p hmem p (.inl rfl) rfl, hnd.2.1.1.2, hnd.2.1.2.1, hnd.2.1.1.1⟩
    have hcells : (pre ++ [p]) ++ b :: post = pre ++ p :: b :: post := by simp
    have hvals : (vpre ++ [vp]) ++ vb :: vpost = vpre ++ vp :: vb :: vpost := by simp
    obtain ⟨-, hrest⟩ := Chain.rest (pre ++ [p]) (vpre ++ [vp]) (by rw [hcells, hvals]; exact hchain)
      (by simp [hvpre])
    refine ⟨hchain.relink hvpre.symm hp.1 hrest hp.2.1, ?_, hnodup⟩
    dsimp only [linked.unlink]
    rw [hl.tail, List.getLast?_append_cons, List.getLast?_append_cons, List.getLast?_cons_cons]
    cases post with
    | nil => rw [List.getLast?_singleton, List.getLast?_singleton, if_pos rfl]
    | cons c post =>
      have hne : (c :: post).getLast? ≠ some b := fun heq => hp.2.2.1 (mem_of_getLast? heq)
      rw [List.getLast?_cons_cons, List.getLast?_cons_cons, if_neg hne]

end holds

end linked
