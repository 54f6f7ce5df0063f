import Arm64Emu.Lib.DirTree
import Arm64Emu.Path.Walk

open dirtree

namespace arm64emu

open List

def AtBoundary (q : Path) : Prop := q = [] ∨ q.head? = some '/'

variable {p c q : Path}

theorem next_comp_length (h : next_comp p = some (c, q)) : q.length < p.length := by
  simp only [next_comp] at h
  split at h
  · cases h
  rename_i hne
  obtain ⟨d, ds, hd⟩ := exists_cons_of_ne_nil hne
  have hslash : (d == '/') = false := by
    have := head_dropWhile_not (· == '/') (l := p) (by simpa using hne)
    simpa [hd] using this
  simp only [hd, Option.some.injEq, Prod.mk.injEq] at h
  have hq : q.length ≤ ds.length := by
    rw [← h.2, dropWhile_cons_of_pos (by simpa using hslash)]
    exact (dropWhile_suffix _).length_le
  have hp : (d :: ds).length ≤ p.length := hd ▸ (dropWhile_suffix _).length_le
  simp only [length_cons] at hp
  omega

def comps (p : Path) : List Path :=
  match _h : next_comp p with
  | none => []
  | some (c, q) => c :: comps q
termination_by p.length
decreasing_by exact next_comp_length _h

theorem comps_of_none {p : Path} (h : next_comp p = none) : comps p = [] := by
  rw [comps]
  split
  · rfl
  rename_i heq
  rw [h] at heq
  cases heq

theorem comps_of_some (h : next_comp p = some (c, q)) : comps p = c :: comps q := by
  rw [comps]
  split
  next heq =>
    rw [h] at heq
    cases heq
  rename_i heq
  rw [h] at heq
  cases heq
  rfl

theorem next_comp_spec (h : next_comp p = some (c, q)) :
    ∃ sl : Path, p = sl ++ c ++ q ∧ (∀ x ∈ sl, x = '/') ∧ c ≠ [] ∧ '/' ∉ c ∧ AtBoundary q := by
  simp only [next_comp] at h
  split at h
  · cases h
  rename_i hne
  cases h
  refine ⟨p.takeWhile (· == '/'), ?_, ?_, ?_, ?_, ?_⟩
  · rw [append_assoc, takeWhile_append_dropWhile, takeWhile_append_dropWhile]
  · intro x hx
    simpa using mem_takeWhile_imp hx
  · obtain ⟨d, ds, hd⟩ := exists_cons_of_ne_nil hne
    have hslash := head_dropWhile_not (· == '/') (l := p) (by simpa using hne)
    simp only [hd, head_cons] at hslash
    rw [hd, takeWhile_cons_of_pos (by simpa using hslash)]
    exact cons_ne_nil _ _
  · intro hmem
    simpa using mem_takeWhile_imp hmem
  rcases hrest : (p.dropWhile (· == '/')).dropWhile (· != '/') with _ | ⟨d, ds⟩
  · exact .inl rfl
  have := head_dropWhile_not (· != '/') (l := p.dropWhile (· == '/')) (by simp [hrest])
  simp only [hrest, head_cons] at this
  exact .inr (by simpa using this)

theorem next_comp_eq_none {p : Path} : next_comp p = none ↔ ∀ x ∈ p, x = '/' := by
  simp only [next_comp]
  split
  next h => simpa using h
  next h => simpa using h

theorem next_comp_of_append {sl c q : Path} (hsl : ∀ x ∈ sl, x = '/') (hne : c ≠ []) (hc : '/' ∉ c)
    (hq : AtBoundary q) : next_comp (sl ++ c ++ q) = some (c, q) := by
  have hdrop : (sl ++ c ++ q).dropWhile (· == '/') = c ++ q := by
    rw [append_assoc, dropWhile_append_of_pos (by simpa using hsl)]
    obtain ⟨d, ds, rfl⟩ := exists_cons_of_ne_nil hne
    refine dropWhile_cons_of_neg ?_
    simp only [beq_iff_eq]
    rintro rfl
    exact hc (.head _ ..)
  have hname : ∀ x ∈ c, (x != '/') = true := by
    intro x hx
    simp only [bne_iff_ne, ne_eq]
    rintro rfl
    exact hc hx
  have hstop : q.takeWhile (· != '/') = [] ∧ q.dropWhile (· != '/') = q := by
    rcases hq with rfl | hq
    · exact ⟨rfl, rfl⟩
    cases q with
    | nil => cases hq
    | cons d ds =>
      obtain rfl : d = '/' := by simpa using hq
      exact ⟨rfl, rfl⟩
  simp only [next_comp, hdrop]
  rw [if_neg (by simp [hne]), takeWhile_append_of_pos hname, dropWhile_append_of_pos hname, hstop.1,
    hstop.2, append_nil]

theorem comps_append {a q : Path} (hq : AtBoundary q) : comps (a ++ q) = comps a ++ comps q := by
  rcases ha : next_comp a with _ | ⟨c, a'⟩
  · -- only slashes come before `q`
    have hsl := next_comp_eq_none.mp ha
    rw [comps_of_none ha, nil_append]
    rcases hb : next_comp q with _ | ⟨c, q'⟩
    · rw [comps_of_none hb, comps_of_none]
      rw [next_comp_eq_none] at hb ⊢
      intro x hx
      exact (mem_append.mp hx).elim (hsl x) (hb x)
    obtain ⟨sl, rfl, hsl', hne, hc, hq'⟩ := next_comp_spec hb
    rw [comps_of_some hb]
    refine comps_of_some ?_
    rw [← append_assoc, ← append_assoc]
    refine next_comp_of_append ?_ hne hc hq'
    intro x hx
    exact (mem_append.mp hx).elim (hsl x) (hsl' x)
  have hshort := next_comp_length ha
  obtain ⟨sl, rfl, hsl, hne, hc, ha'⟩ := next_comp_spec ha
  have hboundary : AtBoundary (a' ++ q) := by
    rcases ha' with rfl | ha'
    · exact hq
    · exact .inr (by simp [List.head?_append, ha'])
  have hnext : next_comp (sl ++ c ++ a' ++ q) = some (c, a' ++ q) := by
    rw [append_assoc _ a']
    exact next_comp_of_append hsl hne hc hboundary
  rw [comps_of_some ha, comps_of_some hnext, comps_append hq, cons_append]
termination_by a.length

def ends_slash (p : Path) : Bool := p.getLast? = some '/'

theorem ends_slash_append {a q : Path} (hq : q ≠ []) : ends_slash (a ++ q) = ends_slash q := by
  simp only [ends_slash, List.getLast?_append_of_ne_nil _ hq]

theorem path_wants_dir_append {a q : Path} (hq : AtBoundary q) (hne : q ≠ []) :
    path_wants_dir (a ++ q) = path_wants_dir q := by
  have hslash : ∃ x ∈ q, ¬ (x != '/') = true := by
    rcases hq with rfl | hq
    · exact absurd rfl hne
    · exact ⟨'/', mem_of_head? hq, by simp⟩
  have hbase : (a ++ q).rtakeWhile (· != '/') = q.rtakeWhile (· != '/') := by
    simp only [List.rtakeWhile, reverse_append]
    rw [takeWhile_append, if_neg]
    intro hlen
    obtain ⟨x, hx, hxs⟩ := hslash
    have hall := ( takeWhile_prefix (· != '/') (l := q.reverse)).eq_of_length hlen
    have := takeWhile_eq_self_iff.mp hall x (by simpa using hx)
    exact hxs this
  simp only [path_wants_dir, append_eq_nil_iff, hne, and_false, if_false,
    List.getLast?_append_of_ne_nil _ hne, hbase]

theorem path_wants_dir_slashes {q : Path} (hq : ∀ x ∈ q, x = '/') (hne : q ≠ []) :
    path_wants_dir q = true ∧ ends_slash q = true := by
  have hlast : q.getLast? = some '/' := by
    rw [List.getLast?_eq_getLast_of_ne_nil hne, hq _ (getLast_mem hne)]
  exact ⟨by simp [path_wants_dir, hne, hlast], by simp [ends_slash, hlast]⟩

theorem path_wants_dir_last {p c : Path} (h : next_comp p = some (c, [])) :
    path_wants_dir p = (c == ['.'] || c == ['.', '.']) ∧ ends_slash p = false := by
  obtain ⟨sl, rfl, hsl, hne, hc, -⟩ := next_comp_spec h
  rw [append_nil]
  have hlast : (sl ++ c).getLast? ≠ some '/' := by
    rw [List.getLast?_append_of_ne_nil _ hne]
    intro hmem
    exact hc (mem_of_getLast? hmem)
  have hbase : (sl ++ c).rtakeWhile (· != '/') = c := by
    have hname : ∀ x ∈ c.reverse, (x != '/') = true := by
      intro x hx
      simp only [bne_iff_ne, ne_eq]
      rintro rfl
      exact hc (mem_reverse.mp hx)
    have hstop : sl.reverse.takeWhile (· != '/') = [] := by
      rcases hr : sl.reverse with _ | ⟨d, ds⟩
      · rfl
      · have hd := hsl d (mem_reverse.mp (hr ▸ mem_cons_self ..))
        simp [hd]
    simp only [List.rtakeWhile, reverse_append]
    rw [takeWhile_append_of_pos hname, hstop, append_nil, reverse_reverse]
  constructor
  · simp only [path_wants_dir, append_eq_nil_iff, hne, and_false, if_false, hlast, hbase]
  · simpa [ends_slash] using hlast

theorem next_comp_rest (h : next_comp p = some (c, q)) (hne : q ≠ []) :
    path_wants_dir p = path_wants_dir q ∧ ends_slash p = ends_slash q := by
  obtain ⟨sl, rfl, -, -, -, hq⟩ := next_comp_spec h
  exact ⟨path_wants_dir_append hq hne, ends_slash_append hne⟩

section render

structure GoodName (c : Path) : Prop where
  ne_nil : c ≠ []
  no_slash : '/' ∉ c
  ne_dot : c ≠ ['.']
  ne_dotdot : c ≠ ['.', '.']

def render (cs : List Path) : Path := if cs = [] then ['/'] else cs.flatMap ('/' :: ·)

def elem (c : Path) : Elem Path := if c = ['.'] then .self else if c = ['.', '.'] then .parent else .name c

def elems (p : Path) : List (Elem Path) := (comps p).map elem

def parse (p : Path) : Text Path :=
  { absolute := p.head? = some '/', elems := elems p, slash := ends_slash p }

variable {cs ds : List Path} {c : Path}

theorem good_concat (hcs : ∀ c ∈ cs, GoodName c) (hc : GoodName c) : ∀ d ∈ cs ++ [c], GoodName d := by
  intro d hd
  rcases mem_append.mp hd with hd | hd
  · exact hcs d hd
  · rw [mem_singleton.mp hd]
    exact hc

theorem atBoundary_flatMap (cs : List Path) : AtBoundary (cs.flatMap ('/' :: ·)) := by
  cases cs with
  | nil => exact .inl rfl
  | cons c cs => exact .inr rfl

theorem comps_flatMap (hcs : ∀ c ∈ cs, GoodName c) : comps (cs.flatMap ('/' :: ·)) = cs := by
  induction cs with
  | nil => exact comps_of_none rfl
  | cons c cs ih =>
    have hc := hcs c (.head _ ..)
    have hrest := atBoundary_flatMap cs
    have hnext : next_comp (['/'] ++ c ++ cs.flatMap ('/' :: ·)) = some (c, cs.flatMap ('/' :: ·)) :=
      next_comp_of_append (by simp) hc.ne_nil hc.no_slash hrest
    have hcomps := comps_of_some hnext
    rw [ih fun d hd => hcs d (.tail c hd)] at hcomps
    simpa using hcomps

theorem comps_render (hcs : ∀ c ∈ cs, GoodName c) : comps (render cs) = cs := by
  simp only [render]
  split
  next h =>
    rw [h]
    exact comps_of_none rfl
  · exact comps_flatMap hcs

theorem render_inj (hcs : ∀ c ∈ cs, GoodName c) (hds : ∀ c ∈ ds, GoodName c) :
    render cs = render ds ↔ cs = ds := by
  refine ⟨fun h => ?_, fun h => h ▸ rfl⟩
  rw [← comps_render hcs, ← comps_render hds, h]

theorem render_concat : render (cs ++ [c]) = cs.flatMap ('/' :: ·) ++ '/' :: c := by
  simp [render]

theorem one_lt_length_render (hcs : ∀ c ∈ cs, GoodName c) (hne : cs ≠ []) : 1 < (render cs).length := by
  obtain ⟨d, ds, rfl⟩ := exists_cons_of_ne_nil hne
  have hd := length_pos_iff.mpr (hcs d (.head _ ..)).ne_nil
  simp only [render, reduceCtorEq, if_false, flatMap_cons, cons_append, length_cons,
    length_append]
  omega

theorem canon_push_render {canon : Path} (hcs : ∀ c ∈ cs, GoodName c)
    (h : canon_push (render cs) c = .ok canon) : canon = render (cs ++ [c]) := by
  simp only [canon_push] at h
  split at h
  · cases h
  cases h
  rw [render_concat]
  cases cs with
  | nil => rfl
  | cons d ds =>
    rw [if_pos (one_lt_length_render hcs (cons_ne_nil d ds))]
    simp [render]

theorem render_of_ne_nil (hne : cs ≠ []) : render cs = cs.flatMap ('/' :: ·) := by rw [render, if_neg hne]

theorem to_host_root {m : Machine} {host : Path} (h : to_host m (render []) = .ok host) :
    host = if m.rootfs = [] then ['/'] else m.rootfs := by
  simp only [to_host] at h
  split at h
  · cases h
  · cases h
    simp [render]

theorem to_host_below {m : Machine} {host : Path} (hcs : ∀ c ∈ cs, GoodName c) (hne : cs ≠ [])
    (h : to_host m (render cs) = .ok host) : host = m.rootfs ++ cs.flatMap ('/' :: ·) := by
  have hlen := one_lt_length_render hcs hne
  simp only [to_host] at h
  split at h
  · cases h
  cases h
  rw [if_neg (show ¬ (render cs).length = 1 by omega), if_neg, render_of_ne_nil hne]
  intro hnil
  simp only [append_eq_nil_iff] at hnil
  rw [hnil.2] at hlen
  exact absurd hlen (by simp)

theorem canon_pop_render (hcs : ∀ c ∈ cs, GoodName c) : canon_pop (render cs) = render cs.dropLast := by
  rcases eq_nil_or_concat' cs with rfl | ⟨ds, c, rfl⟩
  · rfl
  have hc := hcs c (by simp)
  have hupto : (render (ds ++ [c])).rdropWhile (· != '/') = ds.flatMap ('/' :: ·) ++ ['/'] := by
    have hname : ∀ x ∈ c.reverse, (x != '/') = true := by
      intro x hx
      simp only [bne_iff_ne, ne_eq]
      rintro rfl
      exact hc.no_slash (mem_reverse.mp hx)
    rw [render_concat]
    simp only [List.rdropWhile, reverse_append, reverse_cons, append_assoc]
    rw [dropWhile_append_of_pos hname]
    simp
  simp only [canon_pop, hupto, dropLast_concat]
  cases ds with
  | nil => rfl
  | cons d ds => simp [render]

end render

end arm64emu
