import Arm64Emu.Path.Text

open dirtree Relation

namespace arm64emu

open List

section host

/-- The host's tree under the rootfs, as the walk's calls see it. A path that runs
through a link is left open. -/
structure HostTree (T : Tree Path Path) (env : WalkEnv) : Prop where
  good_names : ∀ cs, T.node cs ≠ none → ∀ c ∈ cs, GoodName c
  readlink_link : ∀ cs host tgt, T.Direct cs → to_host env.m (render cs) = .ok host →
    T.node cs = some (.link tgt) → env.readlink host = some tgt
  readlink_other : ∀ cs host, (∀ c ∈ cs, GoodName c) → T.Direct cs → to_host env.m (render cs) = .ok host →
    ¬ T.IsLink cs → env.readlink host = none
  stat_dir : ∀ cs host, to_host env.m (render cs) = .ok host → T.IsDir cs → env.stat host = .ok true
  stat_file : ∀ cs host, to_host env.m (render cs) = .ok host → T.node cs = some .file →
    env.stat host = .ok false
  stat_none : ∀ cs host, (∀ c ∈ cs, GoodName c) → T.Direct cs → to_host env.m (render cs) = .ok host →
    T.node cs = none → ∃ e, env.stat host = .error e

structure Ordinary (env : WalkEnv) (canon : Path) : Prop where
  no_mount : bind_best env.tab canon = none
  no_zone : env.m.special_host_path canon = none
  no_magic : env.path_proc_magic canon = .none
  not_proc : ∀ host, to_host env.m canon = .ok host → proc_zone_path host = false

def WalkNext (env : WalkEnv) (s s' : WalkState) : Prop := walk_step env s = .ok (some s')

def OutsideZones (env : WalkEnv) (s : WalkState) : Prop :=
  ∀ t, ReflTransGen (WalkNext env) s t → Ordinary env t.canon ∧
    ∀ c q canon, next_comp t.p = some (c, q) → c ≠ ['.'] → c ≠ ['.', '.'] → canon_push t.canon c = .ok canon →
      Ordinary env canon

variable {env : WalkEnv} {s s' t : WalkState} {canon c q : Path} {last : Bool}

theorem OutsideZones.next (h : OutsideZones env s) (hstep : walk_step env s = .ok (some s')) :
    OutsideZones env s' :=
  fun t ht => h t (.head hstep ht)

theorem Ordinary.canon_to_host (h : Ordinary env canon) :
    canon_to_host env.m env.tab canon = to_host env.m canon := by
  simp [arm64emu.canon_to_host, h.no_mount, h.no_zone]

theorem Ordinary.walk_link_none (h : Ordinary env s.canon) {host : Path} (hhost : to_host env.m s.canon = .ok host)
    (hread : env.readlink host = none) : walk_link env s last = .ok s := by
  simp only [walk_link, h.canon_to_host, hhost, walk_magic, h.no_magic, h.not_proc host hhost, hread,
    Bool.false_eq_true, if_false]

theorem Ordinary.walk_link_some (h : Ordinary env s.canon) {host tgt : Path}
    (hhost : to_host env.m s.canon = .ok host) (hread : env.readlink host = some tgt) :
    walk_link env s last = walk_splice env s tgt := by
  simp only [walk_link, h.canon_to_host, hhost, walk_magic, h.no_magic, h.not_proc host hhost, hread,
    Bool.false_eq_true, if_false]

end host

section measure

variable {env : WalkEnv} {s s' : WalkState} {tgt : Path} {last : Bool}

/-- What a round does to the loop's measure: a component is consumed, or a link
is. -/
def Progress (s s' : WalkState) : Prop :=
  (s'.nlinks = s.nlinks ∧ s'.p.length < s.p.length) ∨
    (s'.nlinks = s.nlinks + 1 ∧ s'.nlinks ≤ 40 ∧ s'.p.length < PATH_MAX)

theorem walk_up_kept (h : walk_up env s = .ok s') :
    (s.canon = env.croot ∧ s' = s) ∨ (s.canon ≠ env.croot ∧ s' = s.pop) := by
  simp only [walk_up] at h
  grind

theorem walk_splice_kept (h : walk_splice env s tgt = .ok s') :
    s'.nlinks = s.nlinks + 1 ∧ s'.nlinks ≤ 40 ∧ s'.p.length < PATH_MAX := by
  simp only [walk_splice] at h
  split at h
  · cases h
  split at h
  · cases h
  · cases h
    split <;> simp [WalkState.pop] <;> omega

theorem walk_link_cases (h : walk_link env s last = .ok s') :
    s' = s ∨
      (∃ hostbuf tgt, walk_magic env s.canon hostbuf = .gone tgt ∧ s.nlinks + 1 ≤ 40 ∧
        s' = { s with nlinks := s.nlinks + 1, canon := tgt, depth := canon_depth tgt env.croot,
                      trusted := canon_depth tgt env.croot, cwd_gone := true }) ∨
      ∃ tgt, walk_splice env s tgt = .ok s' := by
  simp only [walk_link] at h
  split at h
  · cases h
  rename_i hostbuf _
  split at h
  · cases h
  next tgt hmagic =>
    split at h
    · cases h
    · cases h
      exact .inr (.inl ⟨hostbuf, tgt, hmagic, by omega, rfl⟩)
  · exact .inr (.inr ⟨_, h⟩)
  split at h
  · exact .inl (by simpa using h.symm)
  split at h
  · split at h
    · exact .inl (by simpa using h.symm)
    split at h
    · cases h
    split at h
    · cases h
    · exact .inr (.inr ⟨_, h⟩)
  · exact .inr (.inr ⟨_, h⟩)

theorem walk_link_kept (hshort : s.p.length < PATH_MAX) (h : walk_link env s last = .ok s') :
    s' = s ∨ (s'.nlinks = s.nlinks + 1 ∧ s'.nlinks ≤ 40 ∧ s'.p.length < PATH_MAX) := by
  obtain rfl | ⟨-, -, -, hle, rfl⟩ | ⟨tgt, h⟩ := walk_link_cases h
  · exact .inl rfl
  · exact .inr ⟨rfl, hle, hshort⟩
  · exact .inr (walk_splice_kept h)

theorem walk_step_kinds (h : walk_step env s = .ok (some s')) :
    ∃ c q, next_comp s.p = some (c, q) ∧
      ((c = ['.'] ∧ s' = { s with p := q }) ∨
        (c = ['.', '.'] ∧ walk_up env { s with p := q, cwd_gone := false } = .ok s') ∨
        (c ≠ ['.'] ∧ c ≠ ['.', '.'] ∧
          walk_name env { s with p := q, cwd_gone := false } c (q.all (· == '/')) = .ok s')) := by
  simp only [walk_step] at h
  split at h
  · cases h
  rename_i c q hnext
  refine ⟨c, q, hnext, ?_⟩
  split at h
  · cases h
  split at h
  · cases h
    exact .inl ⟨by assumption, rfl⟩
  rename_i hdot
  split at h
  · cases h
  split at h
  next hdotdot =>
    refine .inr (.inl ⟨hdotdot, ?_⟩)
    cases hup : walk_up env { s with p := q, cwd_gone := false } <;> rw [hup] at h <;> cases h
    rfl
  rename_i hdotdot
  refine .inr (.inr ⟨hdot, hdotdot, ?_⟩)
  cases hname : walk_name env { s with p := q, cwd_gone := false } c (q.all (· == '/')) <;>
    rw [hname] at h <;> cases h
  rfl

theorem walk_step_progress (hshort : s.p.length < PATH_MAX) (h : walk_step env s = .ok (some s')) :
    Progress s s' ∧ s'.p.length < PATH_MAX := by
  obtain ⟨c, q, hnext, hkind⟩ := walk_step_kinds h
  have hp := next_comp_length hnext
  have hshort' : q.length < PATH_MAX := hp.trans hshort
  obtain ⟨-, rfl⟩ | ⟨-, hup⟩ | ⟨-, -, hname⟩ := hkind
  · exact ⟨.inl ⟨rfl, hp⟩, hshort'⟩
  · rcases walk_up_kept hup with ⟨-, rfl⟩ | ⟨-, rfl⟩ <;> exact ⟨.inl ⟨rfl, hp⟩, hshort'⟩
  simp only [walk_name] at hname
  split at hname
  · cases hname
  split at hname
  · cases hname
    exact ⟨.inl ⟨rfl, hp⟩, hshort'⟩
  rcases walk_link_kept hshort' hname with rfl | ⟨hn, hle, hlen⟩
  · exact ⟨.inl ⟨rfl, hp⟩, hshort'⟩
  · exact ⟨.inr ⟨hn, hle, hlen⟩, hlen⟩

def walk_fuel (s : WalkState) : Nat := (41 - s.nlinks) * PATH_MAX + s.p.length

theorem Progress.walk_fuel_lt (h : Progress s s') (hlinks : s.nlinks ≤ 40) : walk_fuel s' < walk_fuel s := by
  simp only [walk_fuel]
  rcases h with ⟨hn, hp⟩ | ⟨hn, -, hp⟩
  · rw [hn]
    omega
  have hstep : 41 - s.nlinks = (41 - s'.nlinks) + 1 := by omega
  rw [hstep, Nat.add_mul]
  omega

theorem walk_loop_ends (fuel : Nat) (s : WalkState) (hshort : s.p.length < PATH_MAX) (hlinks : s.nlinks ≤ 40)
    (hfuel : walk_fuel s < fuel) : ∃ r, walk_loop env fuel s = some r := by
  induction fuel generalizing s with
  | zero => omega
  | succ fuel ih =>
    simp only [walk_loop]
    split
    · exact ⟨_, rfl⟩
    · exact ⟨_, rfl⟩
    rename_i s' hstep
    obtain ⟨hprog, hshort'⟩ := walk_step_progress hshort hstep
    have hlt := hprog.walk_fuel_lt hlinks
    refine ih s' hshort' ?_ (by omega)
    rcases hprog with ⟨hn, -⟩ | ⟨-, hle, -⟩ <;> omega

end measure

section runs

variable {env : WalkEnv} {s s' t : WalkState}

theorem walk_step_none (h : walk_step env s = .ok none) : next_comp s.p = none := by
  have hmap : ∀ r : Except Int WalkState, r.map some ≠ .ok none := by
    rintro (_ | _) <;> simp [Except.map]
  simp only [walk_step] at h
  grind

theorem walk_loop_run {fuel : Nat} (h : walk_loop env fuel s = some (.ok t)) :
    ReflTransGen (WalkNext env) s t ∧ next_comp t.p = none := by
  induction fuel generalizing s with
  | zero => cases h
  | succ fuel ih =>
    simp only [walk_loop] at h
    split at h
    · cases h
    next hstep =>
      cases h
      exact ⟨.refl, walk_step_none hstep⟩
    rename_i s' hstep
    obtain ⟨hrun, hend⟩ := ih h
    exact ⟨.head hstep hrun, hend⟩

theorem walk_step_cases (h : walk_step env s = .ok (some s')) (hgone : s.cwd_gone = false) :
    ∃ c q, next_comp s.p = some (c, q) ∧
      ((c = ['.'] ∧ s' = { s with p := q }) ∨
        (c = ['.', '.'] ∧ walk_up env { s with p := q } = .ok s') ∨
        (c ≠ ['.'] ∧ c ≠ ['.', '.'] ∧ walk_name env { s with p := q } c (q.all (· == '/')) = .ok s')) := by
  obtain ⟨c, q, hnext, hkind⟩ := walk_step_kinds h
  have hsame : ({ s with p := q, cwd_gone := false } : WalkState) = { s with p := q } := by rw [← hgone]
  rw [hsame] at hkind
  exact ⟨c, q, hnext, hkind⟩

end runs

section invariant

variable (T : Tree Path Path) (env : WalkEnv)

/-- The walk stands at a location it reached through no link, of which the part
the `trusted` depth covers is a directory. -/
structure At (s : WalkState) (cur : List Path) : Prop where
  canon : s.canon = render cur
  good : ∀ c ∈ cur, GoodName c
  trusted : ∃ pre top, cur = pre ++ top ∧ (top.length : Int) = s.depth - s.trusted ∧ T.IsDir pre
  direct : T.Direct cur
  not_link : ¬ T.IsLink cur
  wants : s.p ≠ [] → s.want_dir = path_wants_dir s.p
  gone : s.cwd_gone = false
  links : s.nlinks ≤ 40

/-- The walk has left the tree, or has to fail at a name that is no directory. -/
structure Lost (s : WalkState) (cur : List Path) : Prop where
  not_dir : ¬ T.IsDir cur
  dead : T.node cur = none ∨ next_comp s.p ≠ none ∨ s.want_dir = true

variable {T env} {s s' : WalkState} {cur base : List Path} {c q tgt : Path}

theorem next_comp_ne_nil {p : Path} (h : next_comp p = some (c, q)) : p ≠ [] := by
  rintro rfl
  cases h

theorem next_comp_good {p : Path} (h : next_comp p = some (c, q)) (hdot : c ≠ ['.'])
    (hdotdot : c ≠ ['.', '.']) : GoodName c := by
  obtain ⟨_, _, _, hne, hslash, _⟩ := next_comp_spec h
  exact ⟨hne, hslash, hdot, hdotdot⟩

theorem At.wants_rest (h : At T s cur) (hnext : next_comp s.p = some (c, q)) (hne : q ≠ []) :
    s.want_dir = path_wants_dir q :=
  (h.wants (next_comp_ne_nil hnext)).trans (next_comp_rest hnext hne).1

theorem At.skip (h : At T s cur) (hnext : next_comp s.p = some (c, q)) : At T { s with p := q } cur :=
  { h with wants := h.wants_rest hnext }

theorem At.push (h : At T s cur) (hnext : next_comp s.p = some (c, q)) (hc : GoodName c)
    (hlink : ¬ T.IsLink (cur ++ [c])) :
    At T { s with p := q, canon := render (cur ++ [c]), depth := s.depth + 1 } (cur ++ [c]) where
  canon := rfl
  good := good_concat h.good hc
  trusted := by
    obtain ⟨pre, top, hcur, hlen, hpre⟩ := h.trusted
    refine ⟨pre, top ++ [c], by rw [hcur, append_assoc], ?_, hpre⟩
    simp only [length_append, length_singleton]
    omega
  direct := h.direct.concat h.not_link
  not_link := hlink
  wants := h.wants_rest hnext
  gone := h.gone
  links := h.links

theorem At.pop (h : At T s cur) : At T s.pop cur.dropLast where
  canon := by
    rw [← canon_pop_render h.good, ← h.canon]
    rfl
  good := fun c hc => h.good c (dropLast_subset cur hc)
  trusted := by
    obtain ⟨pre, top, rfl, hlen, hpre⟩ := h.trusted
    rcases eq_nil_or_concat' top with rfl | ⟨top, c, rfl⟩
    · refine ⟨pre.dropLast, [], by simp, ?_, hpre.dropLast⟩
      simp only [length_nil, WalkState.pop] at hlen ⊢
      omega
    refine ⟨pre, top, by rw [← append_assoc, dropLast_concat], ?_, hpre⟩
    simp only [length_append, length_singleton, WalkState.pop] at hlen ⊢
    omega
  direct := h.direct.dropLast
  not_link := h.direct.not_isLink_dropLast
  wants := h.wants
  gone := h.gone
  links := h.links

/-- The path spliced in is walked from the directory that holds the link, or from
the root. -/
theorem At.splice (h : At T s cur) (hdir : T.IsDir cur) (hbase : T.IsDir base) (hroot : env.croot = render base)
    (hgood : ∀ c ∈ base, GoodName c) (hc : GoodName c)
    (hs : walk_splice env { s with p := q, canon := render (cur ++ [c]), depth := s.depth + 1 } tgt = .ok s') :
    At T s' ((parse tgt).start base cur) ∧ T.IsDir ((parse tgt).start base cur) ∧ s'.p = tgt ++ q ∧
      s'.nlinks = s.nlinks + 1 := by
  simp only [walk_splice] at hs
  split at hs
  · cases hs
  rename_i hlinks
  split at hs
  · cases hs
  cases hs
  simp only [Text.start, parse]
  have hpopped : canon_pop (render (cur ++ [c])) = render cur := by
    rw [canon_pop_render (good_concat h.good hc), dropLast_concat]
  by_cases habs : tgt.head? = some '/'
  · simp only [habs, decide_true, if_true]
    refine ⟨?_, hbase, rfl, rfl⟩
    exact { canon := hroot, good := hgood, trusted := ⟨base, [], by simp, by simp, hbase⟩
            direct := hbase.direct, not_link := hbase.not_isLink, wants := fun _ => rfl, gone := h.gone
            links := by simp only [WalkState.pop]; omega }
  simp only [habs, decide_false, if_false, Bool.false_eq_true]
  refine ⟨?_, hdir, rfl, rfl⟩
  refine { canon := hpopped, good := h.good, trusted := ?_, direct := h.direct, not_link := h.not_link
           wants := fun _ => rfl, gone := h.gone, links := by simp only [WalkState.pop]; omega }
  obtain ⟨pre, top, hcur, hlen, hpre⟩ := h.trusted
  refine ⟨pre, top, hcur, ?_, hpre⟩
  simp only [WalkState.pop]
  omega

def pushed (s : WalkState) (cur : List Path) (c q : Path) : WalkState :=
  { s with p := q, canon := render (cur ++ [c]), depth := s.depth + 1 }

theorem At.name_cases (h : At T s cur) (hhost : HostTree T env) (hout : OutsideZones env s)
    (hnext : next_comp s.p = some (c, q)) (hdot : c ≠ ['.']) (hdotdot : c ≠ ['.', '.'])
    (hname : walk_name env { s with p := q } c (q.all (· == '/')) = .ok s') :
    (s' = pushed s cur c q ∧ ((q.all (· == '/') && env.nofollow_last && !s.want_dir) = true ∨
      ¬ T.IsLink (cur ++ [c]))) ∨
    (q.all (· == '/') && env.nofollow_last && !s.want_dir) = false ∧
      ∃ tgt, T.node (cur ++ [c]) = some (.link tgt) ∧ walk_splice env (pushed s cur c q) tgt = .ok s' := by
  simp only [walk_name] at hname
  split at hname
  · cases hname
  rename_i canon hpush
  have hordinary := (hout s .refl).2 c q canon hnext hdot hdotdot hpush
  rw [h.canon] at hpush
  obtain rfl := canon_push_render h.good hpush
  split at hname
  next hkeep =>
    cases hname
    exact .inl ⟨rfl, .inl hkeep⟩
  rename_i hkeep
  have hdirect := h.direct.concat (c := c) h.not_link
  have hgood := good_concat h.good (next_comp_good hnext hdot hdotdot)
  cases hto : to_host env.m (render (cur ++ [c])) with
  | error e =>
    simp only [walk_link, hordinary.canon_to_host, hto] at hname
    cases hname
  | ok host =>
    replace hname : walk_link env (pushed s cur c q) (q.all (· == '/')) = .ok s' := hname
    by_cases hislink : T.IsLink (cur ++ [c])
    · obtain ⟨tgt, hnode⟩ := hislink
      have hread := hhost.readlink_link _ _ _ hdirect hto hnode
      rw [Ordinary.walk_link_some (s := pushed s cur c q) hordinary hto hread] at hname
      exact .inr ⟨by simpa using hkeep, tgt, hnode, hname⟩
    have hread := hhost.readlink_other _ _ hgood hdirect hto hislink
    rw [Ordinary.walk_link_none (s := pushed s cur c q) hordinary hto hread] at hname
    cases hname
    exact .inl ⟨rfl, .inr hislink⟩

theorem At.up_lost (h : At T s cur) (hhost : HostTree T env) (hord : Ordinary env s.canon)
    (hbase : T.IsDir base) (hroot : env.croot = render base) (hgood : ∀ c ∈ base, GoodName c)
    (hdir : ¬ T.IsDir cur) : ∃ e, walk_up env s = .error e := by
  have hcroot : s.canon ≠ env.croot := by
    rw [h.canon, hroot, ne_eq, render_inj h.good hgood]
    rintro rfl
    exact hdir hbase
  have hdeep : s.depth > s.trusted := by
    obtain ⟨pre, top, hcur, hlen, hpre⟩ := h.trusted
    cases top with
    | nil =>
      rw [hcur, append_nil] at hdir
      exact absurd hpre hdir
    | cons d ds =>
      simp only [length_cons] at hlen
      omega
  simp only [walk_up, hcroot, hdeep, if_true, if_false, hord.canon_to_host]
  cases hto : to_host env.m s.canon with
  | error e => exact ⟨e, rfl⟩
  | ok host =>
    rw [h.canon] at hto
    rcases hnode : T.node cur with _ | (_ | _ | tgt)
    · obtain ⟨e, he⟩ := hhost.stat_none _ _ h.good h.direct hto hnode
      exact ⟨e, by simp only [he]⟩
    · exact absurd hnode hdir
    · exact ⟨-ENOTDIR, by simp only [hhost.stat_file _ _ hto hnode, Bool.false_eq_true, if_false]⟩
    · exact absurd ⟨tgt, hnode⟩ h.not_link

theorem At.up_dir (h : At T s cur) (hroot : env.croot = render base) (hgood : ∀ c ∈ base, GoodName c)
    (hup : walk_up env s = .ok s') : At T s' (up base cur) ∧ s'.p = s.p ∧ s'.nlinks = s.nlinks := by
  have hcroot : s.canon = env.croot ↔ cur = base := by rw [h.canon, hroot, render_inj h.good hgood]
  rcases walk_up_kept hup with ⟨hat, rfl⟩ | ⟨hat, rfl⟩
  · rw [up, if_pos (hcroot.mp hat)]
    exact ⟨h, rfl, rfl⟩
  · rw [up, if_neg (mt hcroot.mpr hat)]
    exact ⟨h.pop, rfl, rfl⟩

end invariant

end arm64emu
