import Mathlib.Data.List.Infix

namespace dirtree

open List

/-- An element of a path. -/
inductive Elem (ν : Type*) where
  | self
  | parent
  | name (c : ν)

/-- A path as it is read: whether it starts at the root, its components, and
whether a slash follows the last of them. -/
structure Text (ν : Type*) where
  absolute : Bool
  elems : List (Elem ν)
  slash : Bool

/-- What a name is bound to. -/
inductive Node (τ : Type*) where
  | dir
  | file
  | link (text : τ)

/-- A directory tree, whose symbolic links hold texts of type `τ`. A location is
the list of the names that lead to it. -/
structure Tree (ν τ : Type*) where
  node : List ν → Option (Node τ)
  node_root : node [] = some .dir
  node_parent : ∀ p c, node (p ++ [c]) ≠ none → node p = some .dir

section tree

variable {ν τ : Type*} (T : Tree ν τ)

def Tree.IsDir (p : List ν) : Prop := T.node p = some .dir

def Tree.IsLink (p : List ν) : Prop := ∃ text, T.node p = some (.link text)

def Tree.Direct (p : List ν) : Prop := ∀ q, q <+: p → q ≠ p → ¬ T.IsLink q

variable {T} {p q : List ν} {c : ν}

theorem Tree.node_below (h : ¬ T.IsDir p) : T.node (p ++ [c]) = none := by
  by_contra hne
  exact h (T.node_parent p c hne)

theorem Tree.IsDir.dropLast (h : T.IsDir p) : T.IsDir p.dropLast := by
  rcases eq_nil_or_concat' p with rfl | ⟨q, c, rfl⟩
  · exact h
  rw [dropLast_concat]
  refine T.node_parent q c ?_
  rw [h]
  exact Option.some_ne_none _

theorem Tree.IsDir.not_isLink (h : T.IsDir p) : ¬ T.IsLink p := by
  rintro ⟨text, htext⟩
  rw [h] at htext
  cases htext

theorem Tree.IsDir.of_isPrefix (h : T.IsDir p) (hq : q <+: p) : T.IsDir q := by
  obtain ⟨r, rfl⟩ := hq
  induction r using List.reverseRecOn with
  | nil => simpa using h
  | append_singleton r c ih =>
    rw [← append_assoc] at h
    have hparent := h.dropLast
    rw [dropLast_concat] at hparent
    exact ih hparent

theorem Tree.IsDir.direct (h : T.IsDir p) : T.Direct p := fun _ hq _ => (h.of_isPrefix hq).not_isLink

theorem Tree.Direct.concat (h : T.Direct p) (hp : ¬ T.IsLink p) : T.Direct (p ++ [c]) := by
  intro q hq hne
  rcases prefix_concat_iff.mp hq with heq | hq
  · exact absurd heq hne
  by_cases hqp : q = p
  · exact hqp ▸ hp
  · exact h q hq hqp

theorem Tree.Direct.dropLast (h : T.Direct p) : T.Direct p.dropLast := by
  intro q hq hne
  refine h q (hq.trans ( dropLast_prefix p)) ?_
  rintro rfl
  exact hne (hq.eq_of_length_le ( dropLast_prefix _).length_le)

theorem Tree.Direct.not_isLink_dropLast (h : T.Direct p) : ¬ T.IsLink p.dropLast := by
  rcases eq_nil_or_concat' p with rfl | ⟨q, c, rfl⟩
  · exact (show T.IsDir _ from T.node_root).not_isLink
  · rw [dropLast_concat]
    exact h q (prefix_append q [c]) (by simp)

end tree

section resolution

variable {ν τ : Type*} [DecidableEq ν] (T : Tree ν τ) (parse : τ → Text ν) (base : List ν)
  (nofollow : Bool)

def up (p : List ν) : List ν := if p = base then p else p.dropLast

def Text.start (text : Text ν) (p : List ν) : List ν := if text.absolute then base else p

/-- The resolution of a path, from a location and over a number of links. The text of a link is resolved from the
directory that holds the link. The last name may be missing, is left alone if it is a link not to be followed, and is
a directory if a slash follows. -/
inductive Resolves : Bool → List ν → List (Elem ν) → Nat → List ν → Prop where
  | nil (slash : Bool) (p : List ν) : Resolves slash p [] 0 p
  | self {slash : Bool} {p q : List ν} {rest : List (Elem ν)} {n : Nat} : T.IsDir p →
      Resolves slash p rest n q → Resolves slash p (.self :: rest) n q
  | parent {slash : Bool} {p q : List ν} {rest : List (Elem ν)} {n : Nat} : T.IsDir p →
      Resolves slash (up base p) rest n q → Resolves slash p (.parent :: rest) n q
  | name {slash : Bool} {p q : List ν} {c : ν} {rest : List (Elem ν)} {n : Nat} : T.IsDir p →
      T.node (p ++ [c]) ≠ none → ¬ T.IsLink (p ++ [c]) →
      (rest = [] → slash = true → T.IsDir (p ++ [c])) →
      Resolves slash (p ++ [c]) rest n q → Resolves slash p (.name c :: rest) n q
  | missing {slash : Bool} {p : List ν} {c : ν} : T.IsDir p → T.node (p ++ [c]) = none →
      Resolves slash p [.name c] 0 (p ++ [c])
  | keep {p : List ν} {c : ν} : T.IsDir p → T.IsLink (p ++ [c]) → nofollow = true →
      Resolves false p [.name c] 0 (p ++ [c])
  | link {slash : Bool} {p q r : List ν} {c : ν} {text : τ} {rest : List (Elem ν)} {n k : Nat} : T.IsDir p →
      T.node (p ++ [c]) = some (.link text) → (rest ≠ [] ∨ nofollow = false ∨ slash = true) →
      Resolves (slash || (parse text).slash || !rest.isEmpty) ((parse text).start base p) (parse text).elems n q →
      Resolves slash q rest k r → Resolves slash p (.name c :: rest) (n + k + 1) r

/-- The resolution of a path comes, over a number of links, to what is no directory and has a name after it, or a
slash. -/
inductive Breaks : Bool → List ν → List (Elem ν) → Nat → Prop where
  | here {slash : Bool} {p : List ν} {e : Elem ν} {rest : List (Elem ν)} : ¬ T.IsDir p → Breaks slash p (e :: rest) 0
  | last {p : List ν} {c : ν} : T.node (p ++ [c]) ≠ none → ¬ T.IsDir (p ++ [c]) → ¬ T.IsLink (p ++ [c]) →
      Breaks true p [.name c] 0
  | self {slash : Bool} {p : List ν} {rest : List (Elem ν)} {n : Nat} : Breaks slash p rest n →
      Breaks slash p (.self :: rest) n
  | parent {slash : Bool} {p : List ν} {rest : List (Elem ν)} {n : Nat} : T.IsDir p →
      Breaks slash (up base p) rest n → Breaks slash p (.parent :: rest) n
  | name {slash : Bool} {p : List ν} {c : ν} {rest : List (Elem ν)} {n : Nat} : ¬ T.IsLink (p ++ [c]) →
      Breaks slash (p ++ [c]) rest n → Breaks slash p (.name c :: rest) n
  | link {slash : Bool} {p : List ν} {c : ν} {text : τ} {rest : List (Elem ν)} {n : Nat} : T.IsDir p →
      T.node (p ++ [c]) = some (.link text) → (rest ≠ [] ∨ nofollow = false ∨ slash = true) →
      Breaks (slash || ((parse text).slash && rest.isEmpty)) ((parse text).start base p)
          ((parse text).elems ++ rest) n →
      Breaks slash p (.name c :: rest) (n + 1)

variable {T parse base nofollow} {slash : Bool} {p q r : List ν} {e : Elem ν} {c : ν} {text : τ}
  {es rest : List (Elem ν)} {n k : Nat}

theorem Resolves.isDir (h : Resolves T parse base nofollow slash p (e :: rest) n q) : T.IsDir p := by
  cases h <;> assumption

theorem Resolves.of_nil (h : Resolves T parse base nofollow slash p [] n q) : n = 0 ∧ q = p := by
  cases h
  exact ⟨rfl, rfl⟩

/-- Resolving components one after the other: those before the last are
resolved as if a slash followed them. -/
theorem Resolves.append (h : Resolves T parse base nofollow true p es n q)
    (h' : Resolves T parse base nofollow slash q (e :: rest) k r) :
    Resolves T parse base nofollow slash p (es ++ e :: rest) (n + k) r := by
  generalize htrue : true = sl at h
  induction h with
  | nil => simpa using h'
  | self hdir _ ih => exact .self hdir (ih h' htrue)
  | parent hdir _ ih => exact .parent hdir (ih h' htrue)
  | name hdir hnode hlink _ _ ih => exact .name hdir hnode hlink (by simp) (ih h' htrue)
  | missing hdir hnode =>
    have hq := h'.isDir
    rw [Tree.IsDir, hnode] at hq
    cases hq
  | keep => cases htrue
  | @link sl p q _ c text rest' n m hdir hnode hfollow htext _ _ ih =>
    subst htrue
    have hinner : Resolves T parse base nofollow
        (slash || (parse text).slash || !(rest' ++ e :: rest).isEmpty)
        ((parse text).start base p) (parse text).elems n q := by
      rw [show (slash || (parse text).slash || !(rest' ++ e :: rest).isEmpty) = true by simp]
      exact htext
    rw [show n + m + 1 + k = n + (m + k) + 1 by omega]
    exact .link hdir hnode (.inl (by simp)) hinner (ih h' rfl)

theorem Resolves.split (h : Resolves T parse base nofollow slash p (es ++ e :: rest) n r) :
    ∃ q a b, Resolves T parse base nofollow true p es a q ∧
      Resolves T parse base nofollow slash q (e :: rest) b r ∧ n = a + b := by
  induction es generalizing p n with
  | nil => exact ⟨p, 0, n, .nil _ _, h, (Nat.zero_add n).symm⟩
  | cons f es ih =>
    rw [cons_append] at h
    generalize hall : es ++ e :: rest = tail at h
    cases h with
    | self hdir htail =>
      subst hall
      obtain ⟨q, a, b, ha, hb, hn⟩ := ih htail
      exact ⟨q, a, b, .self hdir ha, hb, hn⟩
    | parent hdir htail =>
      subst hall
      obtain ⟨q, a, b, ha, hb, hn⟩ := ih htail
      exact ⟨q, a, b, .parent hdir ha, hb, hn⟩
    | name hdir hnode hlink hslash htail =>
      subst hall
      obtain ⟨q, a, b, ha, hb, hn⟩ := ih htail
      refine ⟨q, a, b, .name hdir hnode hlink ?_ ha, hb, hn⟩
      rintro rfl -
      rw [ha.of_nil.2] at hb
      exact hb.isDir
    | missing | keep => simp at hall
    | link hdir hnode hfollow htext htail =>
      obtain ⟨q, a, b, ha, hb, hn⟩ := ih (hall ▸ htail)
      rw [← hall, show ∀ a : Bool, (a || !(es ++ e :: rest).isEmpty) = true by simp] at htext
      rw [hn, ← Nat.add_assoc, Nat.add_right_comm]
      exact ⟨q, _, b, .link hdir hnode (.inr (.inr rfl)) htext ha, hb, rfl⟩

theorem Resolves.link_iff (hdir : T.IsDir p) (hnode : T.node (p ++ [c]) = some (.link text))
    (hfollow : rest ≠ [] ∨ nofollow = false ∨ slash = true) :
    Resolves T parse base nofollow slash p (.name c :: rest) n r ↔
      ∃ k, n = k + 1 ∧ Resolves T parse base nofollow (slash || ((parse text).slash && rest.isEmpty))
        ((parse text).start base p) ((parse text).elems ++ rest) k r := by
  constructor
  · intro h
    cases h with
    | name _ _ hlink => exact absurd ⟨text, hnode⟩ hlink
    | missing _ hmissing => rw [hnode] at hmissing; cases hmissing
    | keep _ _ hno => simp [hno] at hfollow
    | link _ hnode' _ htext htail =>
      obtain rfl : _ = text := by simpa [hnode] using hnode'.symm
      refine ⟨_, rfl, ?_⟩
      cases rest with
      | nil =>
        obtain ⟨rfl, rfl⟩ := htail.of_nil
        simpa using htext
      | cons e rest =>
        have hjoin := Resolves.append (by simpa using htext) htail
        simpa using hjoin
  rintro ⟨k, rfl, h⟩
  cases rest with
  | nil =>
    exact .link hdir hnode hfollow (by simpa using h) (.nil slash r)
  | cons e rest =>
    obtain ⟨q, a, b, ha, hb, rfl⟩ := Resolves.split (by simpa using h)
    exact .link hdir hnode hfollow (by simpa using ha) hb

theorem Resolves.within (h : Resolves T parse base nofollow slash p es n q) (hp : base <+: p) : base <+: q := by
  induction h with
  | nil => exact hp
  | self _ _ ih => exact ih hp
  | @parent _ p _ _ _ _ _ ih =>
    refine ih ?_
    rw [up]
    split
    · exact hp
    rename_i hne
    rcases eq_nil_or_concat' p with rfl | ⟨r, c, rfl⟩
    · exact hp
    · rw [dropLast_concat]
      exact (prefix_concat_iff.mp hp).resolve_left (Ne.symm hne)
  | name _ _ _ _ _ ih => exact ih (hp.trans (prefix_append _ _))
  | missing | keep => exact hp.trans (prefix_append _ _)
  | link _ _ _ _ _ ihtext ihtail =>
    refine ihtail (ihtext ?_)
    rw [Text.start]
    split
    · exact prefix_rfl
    · exact hp

theorem Resolves.unique (h : Resolves T parse base nofollow slash p es n q)
    (h' : Resolves T parse base nofollow slash p es k r) : n = k ∧ q = r := by
  induction h generalizing k r with
  | nil =>
    obtain ⟨rfl, rfl⟩ := h'.of_nil
    exact ⟨rfl, rfl⟩
  | self _ _ ih =>
    cases h' with
    | self _ htail => exact ih htail
  | parent _ _ ih =>
    cases h' with
    | parent _ htail => exact ih htail
  | name _ hnode hlink _ _ ih =>
    cases h' with
    | name _ _ _ _ htail => exact ih htail
    | missing _ hmissing => exact absurd hmissing hnode
    | keep _ hkept => exact absurd hkept hlink
    | link _ htext => exact absurd ⟨_, htext⟩ hlink
  | missing _ hmissing =>
    cases h' with
    | name _ hnode => exact absurd hmissing hnode
    | missing | keep => exact ⟨rfl, rfl⟩
    | link _ htext => rw [hmissing] at htext; cases htext
  | keep _ hkept hno =>
    cases h' with
    | name _ _ hlink => exact absurd hkept hlink
    | missing | keep => exact ⟨rfl, rfl⟩
    | link _ _ hfollow => simp [hno] at hfollow
  | link _ hnode hfollow _ _ ihtext ihtail =>
    cases h' with
    | name _ _ hlink => exact absurd ⟨_, hnode⟩ hlink
    | missing _ hmissing => rw [hnode] at hmissing; cases hmissing
    | keep _ _ hno => simp [hno] at hfollow
    | link _ hnode' _ htext htail =>
      have hsame := hnode.symm.trans hnode'
      simp only [Option.some.injEq, Node.link.injEq] at hsame
      subst hsame
      obtain ⟨rfl, rfl⟩ := ihtext htext
      obtain ⟨rfl, rfl⟩ := ihtail htail
      exact ⟨rfl, rfl⟩

theorem Breaks.not_resolves (h : Breaks T parse base nofollow slash p es n) :
    ¬ Resolves T parse base nofollow slash p es k q := by
  intro hres
  induction h generalizing k q with
  | here hp => exact hp hres.isDir
  | last hnode hdir hlink =>
    cases hres with
    | name _ _ _ hmust => exact hdir (hmust rfl rfl)
    | missing _ hmissing => exact hnode hmissing
    | link _ htext => exact hlink ⟨_, htext⟩
  | self _ ih =>
    cases hres with
    | self _ htail => exact ih htail
  | parent _ _ ih =>
    cases hres with
    | parent _ htail => exact ih htail
  | name hlink hbreaks ih =>
    cases hres with
    | name _ _ _ _ htail => exact ih htail
    | missing => cases hbreaks
    | keep _ hkept => exact hlink hkept
    | link _ htext => exact hlink ⟨_, htext⟩
  | link hdir hnode hfollow _ ih =>
    obtain ⟨k, -, htail⟩ := (Resolves.link_iff hdir hnode hfollow).1 hres
    exact ih htail

end resolution

end dirtree
