import Mathlib
import Arm64Emu.Userns.Extents

namespace arm64emu

open List Option Bool

section fields

variable {l r ws ds : List Nat} {v : Nat}

theorem field_value_eq (ds : List Nat) : field_value ds = number ds % 2 ^ 32 := by
  have hfold (ds : List Nat) (a b : Nat) (hab : a = b % 2 ^ 32) :
      ds.foldl (fun acc c => (acc * 10 + (c - 48)) % 2 ^ 32) a =
        ds.foldl (fun acc c => acc * 10 + (c - 48)) b % 2 ^ 32 := by
    induction ds generalizing a b with
    | nil => exact hab
    | cons c ds ih =>
      refine ih _ _ ?_
      dsimp only
      rw [hab]
      omega
  exact hfold ds 0 0 rfl

theorem not_space_of_digit {c : Nat} (h : is_digit c = true) : ksp c = false := by
  simp only [is_digit, and_eq_true, decide_eq_true_eq] at h
  simp only [ksp, or_eq_false_iff, and_eq_false_iff, beq_eq_false_iff_ne, decide_eq_false_iff_not]
  omega

theorem not_digit_of_space {c : Nat} (h : ksp c = true) : is_digit c = false := by
  by_contra hd
  rw [not_space_of_digit (not_eq_false _ |>.mp hd)] at h
  cases h

def FieldEnds (r : List Nat) : Prop := ∀ c l, r = c :: l → is_digit c = false

theorem takeWhile_digits (hds : ∀ c ∈ ds, is_digit c = true) (hr : FieldEnds r) :
    (ds ++ r).takeWhile is_digit = ds ∧ (ds ++ r).dropWhile is_digit = r := by
  rw [takeWhile_append_of_pos hds, dropWhile_append_of_pos hds]
  cases r with
  | nil => exact ⟨append_nil ds, rfl⟩
  | cons c l =>
    have hc : ¬ is_digit c = true := by simp [hr c l rfl]
    rw [takeWhile_cons_of_neg hc, dropWhile_cons_of_neg hc, append_nil]
    exact ⟨rfl, rfl⟩

theorem idmap_field_iff : idmap_field l = some (v, r) ↔
    ∃ ws ds, l = ws ++ (ds ++ r) ∧ Spaces ws ∧ Digits ds ∧ FieldEnds r ∧ v = number ds % 2 ^ 32 := by
  constructor
  · intro h
    rw [idmap_field] at h
    cases hdrop : l.dropWhile ksp with
    | nil =>
      rw [hdrop] at h
      cases h
    | cons c rest =>
      rw [hdrop] at h
      obtain ⟨hdigit, heq⟩ := ite_none_right_eq_some.1 h
      obtain ⟨hv, hr⟩ := Prod.mk.inj (some.inj heq)
      refine ⟨l.takeWhile ksp, (c :: rest).takeWhile is_digit, ?_, fun c hc => mem_takeWhile_imp hc,
        ⟨?_, fun c hc => mem_takeWhile_imp hc⟩, fun c' l' hcons => ?_, ?_⟩
      · rw [← hr, takeWhile_append_dropWhile, ← hdrop, takeWhile_append_dropWhile]
      · rw [takeWhile_cons_of_pos hdigit]
        exact cons_ne_nil _ _
      · have hhead := head_dropWhile_not is_digit (l := c :: rest) (by rw [hr, hcons]; exact cons_ne_nil _ _)
        simpa only [hr, hcons, head_cons] using hhead
      · rw [← hv, field_value_eq]
  rintro ⟨ws, ds, rfl, hws, ⟨hne, hds⟩, hends, rfl⟩
  obtain ⟨c, ds', rfl⟩ := exists_cons_of_ne_nil hne
  have hc := hds c (.head _)
  have hdrop : (ws ++ (c :: ds' ++ r)).dropWhile ksp = c :: (ds' ++ r) := by
    rw [dropWhile_append_of_pos hws]
    exact dropWhile_cons_of_neg (by simp [not_space_of_digit hc])
  obtain ⟨htake, hrest⟩ := takeWhile_digits hds hends
  rw [idmap_field, hdrop]
  dsimp only
  rw [if_pos hc]
  rw [cons_append] at htake hrest
  rw [htake, hrest, field_value_eq]

end fields

section lines

variable {l r ws : List Nat} {e : IdExtent}

theorem ends_of_spaces (hws : Spaces ws) (hnil : ws = [] → FieldEnds r) : FieldEnds (ws ++ r) := by
  cases ws with
  | nil => exact hnil rfl
  | cons c ws =>
    intro c' l' heq
    rw [← (List.cons.inj heq).1]
    exact not_digit_of_space (hws c (.head _))

theorem space_next_of_spaces (hws : Spaces ws) (hne : ws ≠ []) (r : List Nat) : space_next (ws ++ r) = true := by
  obtain ⟨c, ws', rfl⟩ := exists_cons_of_ne_nil hne
  exact hws c (.head _)

theorem idmap_line_iff : idmap_line l = some e ↔ IsLine l e := by
  constructor
  · intro h
    rw [idmap_line] at h
    obtain ⟨⟨v₀, r₀⟩, hf₀, h⟩ := bind_eq_some_iff.1 h
    obtain ⟨hsp₀, h⟩ := ite_none_right_eq_some.1 h
    obtain ⟨⟨v₁, r₁⟩, hf₁, h⟩ := bind_eq_some_iff.1 h
    obtain ⟨hsp₁, h⟩ := ite_none_right_eq_some.1 h
    obtain ⟨⟨v₂, r₂⟩, hf₂, h⟩ := bind_eq_some_iff.1 h
    obtain ⟨hend, h⟩ := ite_none_right_eq_some.1 h
    obtain ⟨ws₀, ds₀, rfl, hws₀, hds₀, -, rfl⟩ := idmap_field_iff.1 hf₀
    obtain ⟨ws₁, ds₁, rfl, hws₁, hds₁, -, rfl⟩ := idmap_field_iff.1 hf₁
    obtain ⟨ws₂, ds₂, rfl, hws₂, hds₂, -, rfl⟩ := idmap_field_iff.1 hf₂
    have hws₃ : Spaces r₂ := dropWhile_eq_nil_iff.1 (isEmpty_iff.1 hend)
    -- a digit at the start of a field would not be the whitespace that has to come first
    have hne (ws ds r : List Nat) (hds : Digits ds) (hsp : space_next (ws ++ (ds ++ r)) = true) : ws ≠ [] := by
      rintro rfl
      obtain ⟨c, ds', rfl⟩ := exists_cons_of_ne_nil hds.1
      have hc : ksp c = true := hsp
      rw [not_space_of_digit (hds.2 c mem_cons_self)] at hc
      cases hc
    exact ⟨ws₀, ds₀, ws₁, ds₁, ws₂, ds₂, r₂, rfl, ⟨hws₀, hws₁, hws₂, hws₃⟩,
      ⟨hne _ _ _ hds₁ hsp₀, hne _ _ _ hds₂ hsp₁⟩, ⟨hds₀, hds₁, hds₂⟩, (some.inj h).symm⟩
  rintro ⟨ws₀, ds₀, ws₁, ds₁, ws₂, ds₂, ws₃, rfl, ⟨hws₀, hws₁, hws₂, hws₃⟩, ⟨hne₁, hne₂⟩, ⟨hds₀, hds₁, hds₂⟩, rfl⟩
  have hf₀ := idmap_field_iff.2 ⟨ws₀, ds₀, rfl, hws₀, hds₀,
    ends_of_spaces (r := ds₁ ++ (ws₂ ++ (ds₂ ++ ws₃))) hws₁ fun h => absurd h hne₁, rfl⟩
  have hf₁ := idmap_field_iff.2 ⟨ws₁, ds₁, rfl, hws₁, hds₁,
    ends_of_spaces (r := ds₂ ++ ws₃) hws₂ fun h => absurd h hne₂, rfl⟩
  have hf₂ := idmap_field_iff.2 ⟨ws₂, ds₂, rfl, hws₂, hds₂,
    append_nil ws₃ ▸ ends_of_spaces (r := []) hws₃ fun _ => nofun, rfl⟩
  have hend : (ws₃.dropWhile ksp).isEmpty = true := isEmpty_iff.2 (dropWhile_eq_nil_iff.2 hws₃)
  rw [idmap_line, hf₀, bind_some, if_pos (space_next_of_spaces hws₁ hne₁ _), hf₁, bind_some,
    if_pos (space_next_of_spaces hws₂ hne₂ _), hf₂, bind_some, if_pos hend]

end lines

section extents

variable {e p : IdExtent}

theorem IsLine.lt {l : List Nat} (h : IsLine l e) : e.first < 2 ^ 32 ∧ e.lower_first < 2 ^ 32 ∧ e.count < 2 ^ 32 := by
  obtain ⟨_, _, _, _, _, _, _, -, -, -, -, rfl⟩ := h
  exact ⟨Nat.mod_lt _ (by decide), Nat.mod_lt _ (by decide), Nat.mod_lt _ (by decide)⟩

theorem extent_bad_iff (hfirst : e.first < 2 ^ 32) (hlower : e.lower_first < 2 ^ 32) (hcount : e.count < 2 ^ 32) :
    extent_bad e = false ↔ e.Ok := by
  simp only [extent_bad, or_eq_false_iff, beq_eq_false_iff_ne, decide_eq_false_iff_not]
  constructor
  · rintro ⟨⟨⟨h₁, h₂⟩, h₃⟩, h₄⟩
    exact ⟨by omega, by omega, by omega, h₁, h₂⟩
  rintro ⟨h₁, h₂, h₃, h₄, h₅⟩
  refine ⟨⟨⟨h₄, h₅⟩, ?_⟩, ?_⟩
  · omega
  · omega

theorem range_last_eq {first count : Nat} (hcount : 0 < count) (hlt : first + count < 2 ^ 32) :
    range_last first count = first + count - 1 := by
  rw [range_last]
  omega

theorem mappings_overlap_iff (hp : p.Ok) (he : e.Ok) : mappings_overlap p e = false ↔ p.Apart e := by
  obtain ⟨hp₁, hp₂, hp₃, -, -⟩ := hp
  obtain ⟨he₁, he₂, he₃, -, -⟩ := he
  simp only [mappings_overlap, IdExtent.Apart, RangesDisjoint, or_eq_false_iff, and_eq_false_iff,
    decide_eq_false_iff_not]
  rw [range_last_eq he₁ he₂, range_last_eq he₁ he₃, range_last_eq hp₁ hp₂, range_last_eq hp₁ hp₃]
  refine and_congr ?_ ?_
  · omega
  · omega

end extents

section text

variable {text rest : List Nat} {out es : List IdExtent} {room : Nat}

theorem takeWhile_line {l tail : List Nat} (hl : 10 ∉ l) (htail : tail = [] ∨ ∃ t, tail = 10 :: t) :
    (l ++ tail).takeWhile (· != 10) = l := by
  have hall : ∀ c ∈ l, (c != 10) = true := fun c hc => by
    simp only [bne_iff_ne, ne_eq]
    exact fun heq => hl (heq ▸ hc)
  rw [takeWhile_append_of_pos hall]
  rcases htail with rfl | ⟨t, rfl⟩
  · exact append_nil l
  · rw [takeWhile_cons_of_neg (by simp), append_nil]

def LinesOf (rest : List Nat) (es : List IdExtent) : Prop :=
  ∃ ls tail, rest = line_text ls ++ tail ∧ (tail = [] ∨ tail = [10]) ∧ (∀ l ∈ ls, 10 ∉ l) ∧ List.Forall₂ IsLine ls es

structure Adds (rest : List Nat) (out es : List IdExtent) (room : Nat) : Prop where
  lines : LinesOf rest es
  some_lines : es ≠ []
  room : es.length ≤ room
  ok : ∀ e ∈ es, e.Ok
  apart : es.Pairwise IdExtent.Apart
  apart_out : ∀ p ∈ out, ∀ e ∈ es, p.Apart e

theorem rest_split (hmore : (rest.takeWhile (· != 10)).length + 1 < rest.length) :
    rest = rest.takeWhile (· != 10) ++ 10 :: rest.drop ((rest.takeWhile (· != 10)).length + 1) := by
  have happ := takeWhile_append_dropWhile (p := (· != 10)) (l := rest)
  cases hdrop : rest.dropWhile (· != 10) with
  | nil =>
    rw [hdrop, append_nil] at happ
    rw [happ] at hmore
    omega
  | cons c t =>
    have hc : c = 10 := by
      have hhead := head_dropWhile_not (· != 10) (l := rest) (by rw [hdrop]; exact cons_ne_nil _ _)
      simpa [hdrop] using hhead
    rw [hdrop, hc] at happ
    generalize rest.takeWhile (· != 10) = l at happ
    rw [← happ]
    simp

theorem rest_last (hlast : ¬ (rest.takeWhile (· != 10)).length + 1 < rest.length) :
    ∃ tail, rest = rest.takeWhile (· != 10) ++ tail ∧ (tail = [] ∨ tail = [10]) := by
  have happ := takeWhile_append_dropWhile (p := (· != 10)) (l := rest)
  refine ⟨rest.dropWhile (· != 10), happ.symm, ?_⟩
  cases hdrop : rest.dropWhile (· != 10) with
  | nil => exact .inl rfl
  | cons c t =>
    have hc : c = 10 := by
      have hhead := head_dropWhile_not (· != 10) (l := rest) (by rw [hdrop]; exact cons_ne_nil _ _)
      simpa [hdrop] using hhead
    have hlen : (rest.takeWhile (· != 10)).length + (t.length + 1) = rest.length := by
      rw [← length_cons (a := c), ← hdrop, ← length_append, happ]
    have ht : t = [] := length_eq_zero_iff.1 (by omega)
    exact .inr (by rw [hc, ht])

theorem line_no_newline : 10 ∉ rest.takeWhile (· != 10) := fun hmem => by simpa using mem_takeWhile_imp hmem

theorem line_text_cons {l : List Nat} {ls : List (List Nat)} (hls : ls ≠ []) :
    line_text (l :: ls) = l ++ 10 :: line_text ls := by
  cases ls with
  | nil => exact absurd rfl hls
  | cons => rfl

theorem idmap_lines_succ (room : Nat) (rest : List Nat) (out res : List IdExtent) :
    idmap_lines (room + 1) rest out = some res ↔ ∃ e, idmap_line (rest.takeWhile (· != 10)) = some e ∧
      extent_bad e = false ∧ (∀ p ∈ out, mappings_overlap p e = false) ∧
      (((rest.takeWhile (· != 10)).length + 1 < rest.length ∧ room ≠ 0 ∧
          idmap_lines room (rest.drop ((rest.takeWhile (· != 10)).length + 1)) (out ++ [e]) = some res) ∨
        (¬ (rest.takeWhile (· != 10)).length + 1 < rest.length ∧ res = out ++ [e])) := by
  rw [idmap_lines]
  cases hline : idmap_line (rest.takeWhile (· != 10)) with
  | none => simp
  | some e =>
    simp only [some.injEq, exists_eq_left']
    by_cases hbad : extent_bad e = true
    · rw [if_pos hbad]
      exact iff_of_false nofun fun h => by simp [hbad] at h
    rw [if_neg hbad]
    by_cases hany : (out.any fun p => mappings_overlap p e) = true
    · obtain ⟨p, hp, hover⟩ := any_eq_true.1 hany
      rw [if_pos hany]
      exact iff_of_false nofun fun h => by simp [h.2.1 p hp] at hover
    rw [if_neg hany]
    have hbad' : extent_bad e = false := not_eq_true _ ▸ hbad
    have hover (p : IdExtent) (hp : p ∈ out) : mappings_overlap p e = false :=
      eq_false_iff.2 fun h => hany (any_eq_true.2 ⟨p, hp, h⟩)
    by_cases hmore : (rest.takeWhile (· != 10)).length + 1 < rest.length
    · by_cases hroom : room = 0
      · rw [if_pos ⟨hroom, decide_eq_true hmore⟩]
        refine iff_of_false nofun ?_
        rintro ⟨-, -, ⟨-, hne, -⟩ | ⟨hlast, -⟩⟩
        · exact hne hroom
        · exact hlast hmore
      rw [if_neg fun h => hroom h.1, if_pos (decide_eq_true hmore)]
      refine ⟨fun h => ⟨hbad', hover, .inl ⟨hmore, hroom, h⟩⟩, ?_⟩
      rintro ⟨-, -, ⟨-, -, h⟩ | ⟨hlast, -⟩⟩
      · exact h
      · exact absurd hmore hlast
    rw [if_neg fun h => hmore (of_decide_eq_true h.2), if_neg fun h => hmore (of_decide_eq_true h)]
    refine ⟨fun h => ⟨hbad', hover, .inr ⟨hmore, (some.inj h).symm⟩⟩, ?_⟩
    rintro ⟨-, -, ⟨h, -, -⟩ | ⟨-, rfl⟩⟩
    · exact absurd h hmore
    · rfl

theorem idmap_lines_sound (hout : ∀ p ∈ out, p.Ok) {res : List IdExtent} (h : idmap_lines room rest out = some res) :
    ∃ es, res = out ++ es ∧ Adds rest out es room := by
  induction room generalizing rest out with
  | zero => cases h
  | succ room ih =>
    obtain ⟨e, hline, hbad, hover, hgo⟩ := (idmap_lines_succ room rest out res).1 h
    have hisline := idmap_line_iff.1 hline
    have hok : e.Ok := (extent_bad_iff hisline.lt.1 hisline.lt.2.1 hisline.lt.2.2).1 hbad
    have hapart (p : IdExtent) (hp : p ∈ out) : p.Apart e := (mappings_overlap_iff (hout p hp) hok).1 (hover p hp)
    rcases hgo with ⟨hmore, -, hrec⟩ | ⟨hlast, rfl⟩
    · have hout' (p : IdExtent) (hp : p ∈ out ++ [e]) : p.Ok := by
        rcases mem_append.1 hp with hp | hp
        · exact hout p hp
        · exact mem_singleton.1 hp ▸ hok
      obtain ⟨es, rfl, hadds⟩ := ih hout' hrec
      obtain ⟨ls, tail, hrest, htail, hnl, hforall⟩ := hadds.lines
      have hls : ls ≠ [] := by
        rintro rfl
        cases hforall
        exact hadds.some_lines rfl
      refine ⟨e :: es, append_assoc _ _ _, ⟨_ :: ls, tail, ?_, htail, ?_, .cons hisline hforall⟩,
        cons_ne_nil _ _, ?_, ?_, ?_, ?_⟩
      · rw [line_text_cons hls, append_assoc, cons_append, ← hrest]
        exact rest_split hmore
      · exact forall_mem_cons.2 ⟨line_no_newline, hnl⟩
      · have := hadds.room
        simpa using this
      · exact forall_mem_cons.2 ⟨hok, hadds.ok⟩
      · exact pairwise_cons.2 ⟨hadds.apart_out e (by simp), hadds.apart⟩
      intro p hp e' he'
      rcases mem_cons.1 he' with rfl | he'
      · exact hapart p hp
      · exact hadds.apart_out p (mem_append_left _ hp) e' he'
    obtain ⟨tail, hrest, htail⟩ := rest_last hlast
    refine ⟨[e], rfl, ⟨[rest.takeWhile (· != 10)], tail, hrest, htail, ?_, .cons hisline .nil⟩,
      cons_ne_nil _ _, by simp, ?_, pairwise_singleton _ _, ?_⟩
    · exact forall_mem_singleton.2 line_no_newline
    · exact forall_mem_singleton.2 hok
    · exact fun p hp => forall_mem_singleton.2 (hapart p hp)

theorem IsLine.ne_nil {l : List Nat} {e : IdExtent} (h : IsLine l e) : l ≠ [] := by
  obtain ⟨ws₀, ds₀, _, _, _, _, _, rfl, -, -, ⟨hds, -⟩, -⟩ := h
  have hne := hds.1
  simp [hne]

theorem line_text_ne_nil {ls : List (List Nat)} (h : List.Forall₂ IsLine ls es) (hes : es ≠ []) :
    line_text ls ≠ [] := by
  cases h with
  | nil => exact absurd rfl hes
  | @cons l e ls es hl hrest =>
    cases ls with
    | nil => exact hl.ne_nil
    | cons l' ls => simp [line_text]

theorem idmap_lines_complete (hout : ∀ p ∈ out, p.Ok) (h : Adds rest out es room) :
    idmap_lines room rest out = some (out ++ es) := by
  induction es generalizing room rest out with
  | nil => exact absurd rfl h.some_lines
  | cons e es ih =>
    obtain ⟨room, rfl⟩ : ∃ k, room = k + 1 := Nat.exists_eq_succ_of_ne_zero fun h0 => by
      have := h.room
      simp [h0] at this
    obtain ⟨ls, tail, hrest, htail, hnl, hforall⟩ := h.lines
    cases hforall with
    | @cons l _ ls _ hline hforall =>
      have hok := h.ok e (.head _)
      obtain ⟨hlnl, hnl⟩ := forall_mem_cons.1 hnl
      have hbad : extent_bad e = false := (extent_bad_iff hline.lt.1 hline.lt.2.1 hline.lt.2.2).2 hok
      have hover (p : IdExtent) (hp : p ∈ out) : mappings_overlap p e = false :=
        (mappings_overlap_iff (hout p hp) hok).2 (h.apart_out p hp e (.head _))
      rw [idmap_lines_succ]
      by_cases hes : es = []
      · -- the last line
        subst hes
        cases hforall
        have htake : rest.takeWhile (· != 10) = l := by
          rw [hrest]
          exact takeWhile_line hlnl (htail.imp_right fun ht => ⟨[], ht⟩)
        rw [htake]
        refine ⟨e, idmap_line_iff.2 hline, hbad, hover, .inr ⟨?_, rfl⟩⟩
        rw [hrest]
        rcases htail with rfl | rfl
        · simp [line_text]
        · simp [line_text]
      have hls : ls ≠ [] := by
        rintro rfl
        cases hforall
        exact hes rfl
      rw [line_text_cons hls, append_assoc, cons_append] at hrest
      have htake : rest.takeWhile (· != 10) = l := by
        rw [hrest]
        exact takeWhile_line hlnl (.inr ⟨_, rfl⟩)
      have hdrop : rest.drop (l.length + 1) = line_text ls ++ tail := by
        rw [hrest]
        simp
      rw [htake, hdrop]
      obtain ⟨hapart, hpairwise⟩ := pairwise_cons.1 h.apart
      have hadds : Adds (line_text ls ++ tail) (out ++ [e]) es room := by
        refine ⟨⟨ls, tail, rfl, htail, hnl, hforall⟩, hes, ?_, (forall_mem_cons.1 h.ok).2, hpairwise,
          fun p hp e' he' => ?_⟩
        · have := h.room
          simpa using this
        rcases mem_append.1 hp with hp | hp
        · exact h.apart_out p hp e' (.tail _ he')
        · exact mem_singleton.1 hp ▸ hapart e' he'
      have hout' (p : IdExtent) (hp : p ∈ out ++ [e]) : p.Ok := by
        rcases mem_append.1 hp with hp | hp
        · exact hout p hp
        · exact mem_singleton.1 hp ▸ hok
      refine ⟨e, idmap_line_iff.2 hline, hbad, hover, .inl ⟨?_, ?_, ?_⟩⟩
      · have hpos := length_pos_iff.2 (line_text_ne_nil hforall hes)
        rw [hrest]
        simp
        omega
      · have hpos := length_pos_iff.2 hes
        have := hadds.room
        omega
      · rw [ih hout' hadds, append_assoc, singleton_append]

/-- `idmap_parse` takes exactly the texts of the grammar, and gives their extents. -/
theorem idmap_parse_iff (bytes : List Nat) (es : List IdExtent) :
    idmap_parse bytes = some es ↔ IdMapText (bytes.takeWhile (· != 0)) es := by
  rw [idmap_parse]
  constructor
  · intro h
    obtain ⟨es', rfl, hadds⟩ := idmap_lines_sound (by simp) h
    exact { hadds with }
  · intro h
    exact idmap_lines_complete (by simp) { h with apart_out := by simp }

end text

theorem number_digits (ds : List Nat) : number (ds.reverse.map (· + 48)) = Nat.ofDigits 10 ds := by
  induction ds with
  | nil => rfl
  | cons d ds ih =>
    rw [reverse_cons, map_append, number, foldl_append, ← number, ih, Nat.ofDigits_cons]
    simp
    ring

theorem number_decimal (n : Nat) : number (decimal n) = n := by
  rw [decimal]
  split
  case isTrue h => rw [h]; rfl
  case isFalse => rw [number_digits, Nat.ofDigits_digits]

theorem decimal_digits (n : Nat) : Digits (decimal n) := by
  rw [decimal]
  split
  case isTrue => exact ⟨cons_ne_nil _ _, forall_mem_singleton.2 rfl⟩
  case isFalse h =>
    refine ⟨by simpa [Nat.digits_eq_nil_iff_eq_zero] using h, fun c hc => ?_⟩
    obtain ⟨d, hd, rfl⟩ := mem_map.1 hc
    have hlt := Nat.digits_lt_base (by decide) (mem_reverse.1 hd)
    simp only [is_digit, and_eq_true, decide_eq_true_eq]
    omega

theorem spaces_replicate (n : Nat) : Spaces (List.replicate n 32) := fun c hc => by
  rw [eq_of_mem_replicate hc]
  rfl

theorem extent_line_isLine {e : IdExtent} (h : e.Ok) : IsLine (extent_line e) e := by
  have hspace {ws : List Nat} (hws : Spaces ws) : Spaces (32 :: ws) := forall_mem_cons.2 ⟨rfl, hws⟩
  refine ⟨List.replicate (10 - (decimal e.first).length) 32, decimal e.first,
    32 :: List.replicate (10 - (decimal e.lower_first).length) 32, decimal e.lower_first,
    32 :: List.replicate (10 - (decimal e.count).length) 32, decimal e.count, [], ?_,
    ⟨spaces_replicate _, hspace (spaces_replicate _), hspace (spaces_replicate _), by simp [Spaces]⟩,
    ⟨cons_ne_nil _ _, cons_ne_nil _ _⟩, ⟨decimal_digits _, decimal_digits _, decimal_digits _⟩, ?_⟩
  · simp [extent_line, padded, append_assoc]
  have h₁ := h.first_lt
  have h₂ := h.lower_lt
  have h₃ := h.nonempty
  rw [number_decimal, number_decimal, number_decimal, Nat.mod_eq_of_lt (by omega), Nat.mod_eq_of_lt (by omega),
    Nat.mod_eq_of_lt (by omega)]

theorem extent_line_chars {e : IdExtent} {c : Nat} (hc : c ∈ extent_line e) : c ≠ 0 ∧ c ≠ 10 := by
  have hpadded (n : Nat) (hn : c ∈ padded n) : c ≠ 0 ∧ c ≠ 10 := by
    rcases mem_append.1 hn with hsp | hd
    · rw [eq_of_mem_replicate hsp]
      decide
    have hdigit := (decimal_digits n).2 c hd
    simp only [is_digit, and_eq_true, decide_eq_true_eq] at hdigit
    omega
  simp only [extent_line, mem_append, mem_singleton] at hc
  rcases hc with (((hc | rfl) | hc) | rfl) | hc
  · exact hpadded _ hc
  · decide
  · exact hpadded _ hc
  · decide
  · exact hpadded _ hc

theorem put_extents_lines {es : List IdExtent} (hes : es ≠ []) :
    put_extents es = line_text (es.map extent_line) ++ [10] := by
  induction es with
  | nil => exact absurd rfl hes
  | cons e es ih =>
    cases es with
    | nil => simp [put_extents, line_text]
    | cons e' es =>
      have ih := ih (cons_ne_nil _ _)
      rw [map_cons, line_text_cons (by simp), append_assoc, cons_append, ← ih]
      simp [put_extents]

theorem put_extents_no_nul (es : List IdExtent) : (put_extents es).takeWhile (· != 0) = put_extents es := by
  rw [takeWhile_eq_self_iff]
  intro c hc
  obtain ⟨e, -, hc⟩ := mem_flatMap.1 hc
  rw [bne_iff_ne]
  rcases mem_append.1 hc with hc | hc
  · exact (extent_line_chars hc).1
  · rw [mem_singleton.1 hc]
    decide

/-- `idmap_parse` takes exactly the texts of the grammar and gives their extents, and
what is printed of a valid map is parsed back to it. -/
theorem idmap_text_parsed : (∀ bytes es, idmap_parse bytes = some es ↔ IdMapText (bytes.takeWhile (· != 0)) es) ∧
    ∀ es : List IdExtent, es ≠ [] → es.length ≤ IDMAP_EXTENTS → (∀ e ∈ es, e.Ok) → es.Pairwise IdExtent.Apart →
      idmap_parse (put_extents es) = some es := by
  refine ⟨idmap_parse_iff, fun es hes hroom hok hapart => (idmap_parse_iff _ _).2 ?_⟩
  rw [put_extents_no_nul]
  refine ⟨⟨es.map extent_line, [10], put_extents_lines hes, .inr rfl, ?_, ?_⟩, hes, hroom, hok, hapart⟩
  · intro l hl hmem
    obtain ⟨e, -, rfl⟩ := mem_map.1 hl
    exact (extent_line_chars hmem).2 rfl
  · rw [forall₂_map_left_iff]
    exact forall₂_same.2 fun e he => extent_line_isLine (hok e he)

/-- A map of two extents that only touch, as it is written and as it is printed. -/
theorem idmap_text_parsed_root :
    idmap_parse ("0 1000 1\n1 100000 65536\n".toList.map Char.toNat) = some [⟨0, 1000, 1⟩, ⟨1, 100000, 65536⟩] ∧
      idmap_parse (put_extents [⟨0, 1000, 1⟩, ⟨1, 100000, 65536⟩]) = some [⟨0, 1000, 1⟩, ⟨1, 100000, 65536⟩] := by
  refine ⟨by decide +kernel, idmap_text_parsed.2 _ (cons_ne_nil _ _) (by decide) ?_ ?_⟩
  · rw [forall_mem_cons, forall_mem_singleton]
    exact ⟨⟨by decide, by decide, by decide, by decide, by decide⟩,
      ⟨by decide, by decide, by decide, by decide, by decide⟩⟩
  · rw [pairwise_pair]
    exact ⟨.inl (by decide), .inl (by decide)⟩

end arm64emu
