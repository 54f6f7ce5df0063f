import Arm64Emu.Path.Rounds

open dirtree Relation

namespace arm64emu

open List

section instances

/-- The walk of a guest whose rootfs holds a tree, without zones. -/
def tree_env (T : Tree Path Path) (rootfs : Path) (base : List Path) (nofollow_last creating : Bool) :
    WalkEnv where
  m := { rootfs, fake_root := false, no_proc := true, no_dev := true, guest_task := fun _ => false }
  tab := .empty
  croot := render base
  path_proc_magic := fun _ => .none
  host_fd_guest_path := .ok
  readlink := fun host =>
    match T.node (comps (host.drop rootfs.length)) with
    | some (.link tgt) => some tgt
    | _ => none
  stat := fun host =>
    match T.node (comps (host.drop rootfs.length)) with
    | some .dir => .ok true
    | some .file => .ok false
    | _ => .error (-ENOENT)
  nofollow_last
  creating

variable {T : Tree Path Path} {rootfs host : Path} {base cs : List Path} {nofollow creating : Bool}

theorem comps_to_host {m : Machine} (hcs : ∀ c ∈ cs, GoodName c) (h : to_host m (render cs) = .ok host) :
    comps (host.drop m.rootfs.length) = cs := by
  by_cases hne : cs = []
  · subst hne
    rw [to_host_root h]
    refine comps_of_none (next_comp_eq_none.mpr ?_)
    split <;> simp_all
  · rw [to_host_below hcs hne h, drop_left, comps_flatMap hcs]

theorem tree_env_host (hgood : ∀ cs, T.node cs ≠ none → ∀ c ∈ cs, GoodName c) :
    HostTree T (tree_env T rootfs base nofollow creating) where
  good_names := hgood
  readlink_link := by
    intro cs host tgt _ hto hnode
    have hcs := comps_to_host (hgood cs (by simp [hnode])) hto
    change comps (host.drop rootfs.length) = cs at hcs
    simp only [tree_env, hcs, hnode]
  readlink_other := by
    intro cs host hnames _ hto hlink
    have hcs := comps_to_host hnames hto
    change comps (host.drop rootfs.length) = cs at hcs
    simp only [tree_env, hcs]
    split
    next tgt hnode => exact absurd ⟨tgt, hnode⟩ hlink
    · rfl
  stat_dir := by
    intro cs host hto hdir
    have hcs := comps_to_host (hgood cs (by rw [hdir]; simp)) hto
    change comps (host.drop rootfs.length) = cs at hcs
    simp only [tree_env, hcs, show T.node cs = some .dir from hdir]
  stat_file := by
    intro cs host hto hnode
    have hcs := comps_to_host (hgood cs (by simp [hnode])) hto
    change comps (host.drop rootfs.length) = cs at hcs
    simp only [tree_env, hcs, hnode]
  stat_none := by
    intro cs host hnames _ hto hnode
    have hcs := comps_to_host hnames hto
    change comps (host.drop rootfs.length) = cs at hcs
    exact ⟨-ENOENT, by simp only [tree_env, hcs, hnode]⟩

theorem tree_env_outside (s : WalkState) : OutsideZones (tree_env T ['/', 'r'] base nofollow creating) s := by
  have hord : ∀ canon, Ordinary (tree_env T ['/', 'r'] base nofollow creating) canon := by
    intro canon
    refine ⟨rfl, rfl, rfl, ?_⟩
    intro host hto
    rw [to_host] at hto
    split at hto
    · cases hto
    · cases hto
      by_cases hlen : canon.length = 1 <;> simp [tree_env, hlen, proc_zone_path, path_under, List.isPrefixOf]
  exact fun t _ => ⟨hord _, fun _ _ _ _ _ _ _ => hord _⟩

def loop_tree : Tree Path Path where
  node := fun cs =>
    if cs = [] then some .dir else if cs = [['a']] then some .dir
    else if cs = [['a'], ['l']] then some (.link ['.', '.', '/', 'a']) else none
  node_root := rfl
  node_parent := by
    intro p c h
    rcases p with _ | ⟨d, _ | ⟨e, p⟩⟩ <;> simp_all

theorem loop_tree_good (cs : List Path) (h : loop_tree.node cs ≠ none) : ∀ c ∈ cs, GoodName c := by
  simp only [loop_tree] at h
  split at h
  · simp_all
  split at h
  next hcs =>
    subst hcs
    simp only [mem_singleton, forall_eq]
    constructor <;> decide
  split at h
  next hcs =>
    subst hcs
    simp only [mem_cons, not_mem_nil, or_false, forall_eq_or_imp, forall_eq]
    constructor <;> constructor <;> decide
  · exact absurd rfl h

def bare_tree : Tree Path Path where
  node := fun cs => if cs = [] then some .dir else none
  node_root := rfl
  node_parent := by simp

theorem bare_tree_good (cs : List Path) (h : bare_tree.node cs ≠ none) : ∀ c ∈ cs, GoodName c := by
  simp_all [bare_tree]

theorem bare_tree_readlink : (tree_env bare_tree rootfs base nofollow creating).readlink = fun _ => none := by
  funext host
  simp [tree_env, bare_tree]

end instances

section outcome

variable {T : Tree Path Path} {env : WalkEnv} {s s' t : WalkState} {cur cur' base : List Path} {c q tgt : Path}
  {slash slash' : Bool}

theorem Lost.step (hl : Lost T s cur) (h : At T s cur) (hhost : HostTree T env) (hout : OutsideZones env s)
    (hbase : T.IsDir base) (hroot : env.croot = render base) (hgood : ∀ c ∈ base, GoodName c)
    (hstep : walk_step env s = .ok (some s')) : ∃ cs, At T s' cs ∧ Lost T s' cs := by
  obtain ⟨c, q, hnext, ⟨rfl, rfl⟩ | ⟨rfl, hup⟩ | ⟨hdot, hdotdot, hname⟩⟩ := walk_step_cases hstep h.gone
  · refine ⟨cur, h.skip hnext, hl.not_dir, ?_⟩
    by_cases hq : q = []
    · subst hq
      refine .inr (.inr ?_)
      rw [h.wants (next_comp_ne_nil hnext), (path_wants_dir_last hnext).1]
      rfl
    rcases hmore : next_comp q with _ | _
    · refine .inr (.inr ?_)
      rw [h.wants_rest hnext hq]
      exact (path_wants_dir_slashes (next_comp_eq_none.mp hmore) hq).1
    · exact .inr (.inl (by simp))
  · obtain ⟨e, he⟩ := (h.skip hnext).up_lost hhost (hout s .refl).1 hbase hroot hgood hl.not_dir
    rw [he] at hup
    cases hup
  have hnone : T.node (cur ++ [c]) = none := Tree.node_below hl.not_dir
  have hlink : ¬ T.IsLink (cur ++ [c]) := by
    rintro ⟨tgt, htgt⟩
    rw [hnone] at htgt
    cases htgt
  rcases h.name_cases hhost hout hnext hdot hdotdot hname with ⟨rfl, -⟩ | ⟨-, tgt, htgt, -⟩
  · refine ⟨cur ++ [c], h.push hnext (next_comp_good hnext hdot hdotdot) hlink, ?_, .inl hnone⟩
    intro hdir
    rw [Tree.IsDir, hnone] at hdir
    cases hdir
  · exact absurd ⟨tgt, htgt⟩ hlink

theorem Lost.run (hl : Lost T s cur) (h : At T s cur) (hhost : HostTree T env) (hout : OutsideZones env s)
    (hbase : T.IsDir base) (hroot : env.croot = render base) (hgood : ∀ c ∈ base, GoodName c)
    (hrun : ReflTransGen (WalkNext env) s t) : ∃ cs, At T t cs ∧ Lost T t cs := by
  induction hrun with
  | refl => exact ⟨cur, h, hl⟩
  | tail hrun hstep ih =>
    obtain ⟨cs, hat, hlost⟩ := ih
    exact hlost.step hat hhost (fun u hu => hout u (hrun.trans hu)) hbase hroot hgood hstep

theorem run_of_none (hnone : next_comp s.p = none) (hrun : ReflTransGen (WalkNext env) s t) : t = s := by
  rcases hrun.cases_head with rfl | ⟨u, hstep, -⟩
  · rfl
  · simp [WalkNext, walk_step, hnone] at hstep

/-- How a walk that ends stands to the resolution of what it still had to
process: it ends where that leads, or that breaks and the walk is lost. -/
def Outcome (T : Tree Path Path) (env : WalkEnv) (base : List Path) (s t : WalkState) (slash : Bool)
    (cur : List Path) : Prop :=
  (∃ n cs, s.nlinks + n ≤ 40 ∧ Resolves T parse base env.nofollow_last slash cur (elems s.p) n cs ∧
    t.canon = render cs ∧ (∀ c ∈ cs, GoodName c) ∧ t.cwd_gone = false) ∨
  (∃ n, s.nlinks + n ≤ 40 ∧ Breaks T parse base env.nofollow_last slash cur (elems s.p) n) ∧
    ∃ cs, At T t cs ∧ Lost T t cs

theorem Outcome.of_step (h : Outcome T env base s' t slash' cur') (k : Nat) (hlinks : s'.nlinks = s.nlinks + k)
    (hto : ∀ n cs, Resolves T parse base env.nofollow_last slash' cur' (elems s'.p) n cs →
      Resolves T parse base env.nofollow_last slash cur (elems s.p) (n + k) cs)
    (hbreaks : ∀ n, Breaks T parse base env.nofollow_last slash' cur' (elems s'.p) n →
      Breaks T parse base env.nofollow_last slash cur (elems s.p) (n + k)) :
    Outcome T env base s t slash cur := by
  rcases h with ⟨n, cs, hn, hres, hend⟩ | ⟨⟨n, hn, hbreak⟩, hlost⟩
  · exact .inl ⟨n + k, cs, by omega, hto n cs hres, hend⟩
  · exact .inr ⟨⟨n + k, by omega, hbreaks n hbreak⟩, hlost⟩

theorem elems_of_some {p : Path} (h : next_comp p = some (c, q)) : elems p = elem c :: elems q := by
  rw [elems, comps_of_some h]
  rfl

theorem elems_of_none {p : Path} (h : next_comp p = none) : elems p = [] := by
  rw [elems, comps_of_none h]
  rfl

theorem elem_good (h : GoodName c) : elem c = .name c := by
  rw [elem, if_neg h.ne_dot, if_neg h.ne_dotdot]

/-- Where only slashes are left after a name, there is one exactly if the path ends
in a slash, and that is what makes the walk want a directory. -/
theorem At.slash_after (h : At T s cur) (hslash : s.p ≠ [] → slash = ends_slash s.p)
    (hnext : next_comp s.p = some (c, q)) (hc : GoodName c) (hq : next_comp q = none) :
    (q = [] ∧ slash = false ∧ s.want_dir = false) ∨ (q ≠ [] ∧ slash = true ∧ s.want_dir = true) := by
  have hne := next_comp_ne_nil hnext
  by_cases hnil : q = []
  · subst hnil
    have hlast := path_wants_dir_last hnext
    refine .inl ⟨rfl, (hslash hne).trans hlast.2, ?_⟩
    rw [h.wants hne, hlast.1]
    simp [hc.ne_dot, hc.ne_dotdot]
  have hsl := path_wants_dir_slashes (next_comp_eq_none.mp hq) hnil
  have hrest := next_comp_rest hnext hnil
  exact .inr ⟨hnil, by rw [hslash hne, hrest.2, hsl.2], by rw [h.wants hne, hrest.1, hsl.1]⟩

theorem At.last_name (h : At T s cur) (hdir : T.IsDir cur) (hslash : s.p ≠ [] → slash = ends_slash s.p)
    (hnext : next_comp s.p = some (c, q)) (hc : GoodName c) (hq : next_comp q = none)
    (hkeep : (q.all (· == '/') && env.nofollow_last && !s.want_dir) = true ∨ ¬ T.IsLink (cur ++ [c])) :
    Outcome T env base s (pushed s cur c q) slash cur := by
  have hne := next_comp_ne_nil hnext
  have helems : elems s.p = [.name c] := by rw [elems_of_some hnext, elem_good hc, elems_of_none hq]
  have hends : ∀ n, Resolves T parse base env.nofollow_last slash cur (elems s.p) n (cur ++ [c]) → n = 0 →
      Outcome T env base s (pushed s cur c q) slash cur := by
    rintro n hres rfl
    exact .inl ⟨0, cur ++ [c], h.links, hres, rfl, good_concat h.good hc, h.gone⟩
  have hwant := h.slash_after hslash hnext hc hq
  rcases hnode : T.node (cur ++ [c]) with _ | (_ | _ | tgt)
  · refine hends 0 ?_ rfl
    rw [helems]
    exact .missing hdir hnode
  · refine hends 0 ?_ rfl
    rw [helems]
    have hisdir : T.IsDir (cur ++ [c]) := hnode
    exact .name hdir (by simp [hnode]) hisdir.not_isLink (fun _ _ => hisdir) (.nil _ _)
  · have hlink : ¬ T.IsLink (cur ++ [c]) := by simp [Tree.IsLink, hnode]
    have hnotdir : ¬ T.IsDir (cur ++ [c]) := by simp [Tree.IsDir, hnode]
    rcases hwant with ⟨-, hsl, -⟩ | ⟨-, hsl, hwant⟩
    · refine hends 0 ?_ rfl
      rw [helems, hsl]
      exact .name hdir (by simp [hnode]) hlink (by simp) (.nil _ _)
    refine .inr ⟨⟨0, h.links, ?_⟩, cur ++ [c], h.push hnext hc hlink, hnotdir, .inr (.inr hwant)⟩
    rw [helems, hsl]
    exact .last (by simp [hnode]) hnotdir hlink
  have hislink : T.IsLink (cur ++ [c]) := ⟨tgt, hnode⟩
  have hkeep := hkeep.resolve_right (not_not_intro hislink)
  simp only [Bool.and_eq_true, Bool.not_eq_true'] at hkeep
  rcases hwant with ⟨-, hsl, -⟩ | ⟨-, -, hwant⟩
  · refine hends 0 ?_ rfl
    rw [helems, hsl]
    exact .keep hdir hislink hkeep.1.2
  · rw [hkeep.2] at hwant
    cases hwant

theorem At.inner_name (h : At T s cur) (hhost : HostTree T env) (hout : OutsideZones env (pushed s cur c q))
    (hbase : T.IsDir base) (hroot : env.croot = render base) (hgood : ∀ c ∈ base, GoodName c)
    (hdir : T.IsDir cur) (hnext : next_comp s.p = some (c, q)) (hc : GoodName c) (hq : next_comp q ≠ none)
    (hlink : ¬ T.IsLink (cur ++ [c])) (hrun : ReflTransGen (WalkNext env) (pushed s cur c q) t)
    (ih : T.IsDir (cur ++ [c]) → Outcome T env base (pushed s cur c q) t slash (cur ++ [c])) :
    Outcome T env base s t slash cur := by
  have hpush := h.push hnext hc hlink
  have helems : elems s.p = .name c :: elems q := by rw [elems_of_some hnext, elem_good hc]
  obtain ⟨⟨d, q'⟩, hd⟩ := Option.ne_none_iff_exists'.mp hq
  by_cases hisdir : T.IsDir (cur ++ [c])
  · refine Outcome.of_step (ih hisdir) 0 rfl ?_ ?_
    · intro n cs hres
      rw [helems]
      exact .name hdir (by rw [hisdir]; simp) hlink (fun _ _ => hisdir) hres
    intro n hbreak
    rw [helems]
    exact .name hlink hbreak
  refine .inr ⟨⟨0, h.links, ?_⟩, Lost.run ⟨hisdir, .inr (.inl hq)⟩ hpush hhost hout hbase hroot hgood hrun⟩
  rw [helems, elems_of_some hd]
  exact .name hlink (.here hisdir)

theorem At.follow (h : At T s cur) (hdir : T.IsDir cur) (hslash : s.p ≠ [] → slash = ends_slash s.p)
    (hnext : next_comp s.p = some (c, q)) (hc : GoodName c)
    (hkeep : (q.all (· == '/') && env.nofollow_last && !s.want_dir) = false)
    (hnode : T.node (cur ++ [c]) = some (.link tgt)) (hp : s'.p = tgt ++ q) (hlinks : s'.nlinks = s.nlinks + 1)
    (ih : ∀ slash', (s'.p ≠ [] → slash' = ends_slash s'.p) →
      Outcome T env base s' t slash' ((parse tgt).start base cur)) : Outcome T env base s t slash cur := by
  have hne := next_comp_ne_nil hnext
  obtain ⟨_, _, _, _, _, hboundary⟩ := next_comp_spec hnext
  have helems : elems s.p = .name c :: elems q := by rw [elems_of_some hnext, elem_good hc]
  have hjoined : elems s'.p = (parse tgt).elems ++ elems q := by
    rw [hp, elems, comps_append hboundary, map_append]
    rfl
  have hempty : elems q = [] → (q = [] ∧ slash = false ∧ s.want_dir = false) ∨
      (q ≠ [] ∧ slash = true ∧ s.want_dir = true) := by
    intro hnil
    refine h.slash_after hslash hnext hc ?_
    by_contra hsome
    obtain ⟨⟨d, q'⟩, hd⟩ := Option.ne_none_iff_exists'.mp hsome
    rw [elems_of_some hd] at hnil
    cases hnil
  have hfollow : elems q ≠ [] ∨ env.nofollow_last = false ∨ slash = true := by
    by_cases hnil : elems q = []
    · rcases hempty hnil with ⟨rfl, -, hwant⟩ | ⟨-, hsl, -⟩
      · simp only [all_nil, hwant, Bool.true_and, Bool.not_false, Bool.and_true] at hkeep
        exact .inr (.inl hkeep)
      · exact .inr (.inr hsl)
    · exact .inl hnil
  have hslash' : s'.p ≠ [] → (slash || ((parse tgt).slash && (elems q).isEmpty)) = ends_slash s'.p := by
    intro _
    rw [hp]
    by_cases hq : q = []
    · subst hq
      rw [(hslash hne).trans (path_wants_dir_last hnext).2, append_nil]
      rw [show elems [] = [] from elems_of_none rfl]
      simp [parse]
    rw [ends_slash_append hq, ← (next_comp_rest hnext hq).2, ← hslash hne]
    by_cases hnil : elems q = []
    · obtain ⟨hcontra, -⟩ | ⟨-, hsl, -⟩ := hempty hnil
      · exact absurd hcontra hq
      · simp [hsl]
    · simp [hnil]
  refine Outcome.of_step (ih _ hslash') 1 hlinks ?_ ?_
  · intro n cs hres
    rw [helems, Resolves.link_iff hdir hnode hfollow]
    exact ⟨n, rfl, hjoined ▸ hres⟩
  intro n hbreak
  rw [helems]
  exact .link hdir hnode hfollow (hjoined ▸ hbreak)

/-- The walk against the resolver: by induction over the rounds, at every
directory the walk stands in. -/
theorem At.outcome (hhost : HostTree T env) (hbase : T.IsDir base) (hroot : env.croot = render base)
    (hgood : ∀ c ∈ base, GoodName c) (hrun : ReflTransGen (WalkNext env) s t) (hend : next_comp t.p = none)
    (h : At T s cur) (hdir : T.IsDir cur) (hslash : s.p ≠ [] → slash = ends_slash s.p)
    (hout : OutsideZones env s) : Outcome T env base s t slash cur := by
  induction hrun using ReflTransGen.head_induction_on generalizing cur slash with
  | refl =>
    refine .inl ⟨0, cur, h.links, ?_, h.canon, h.good, h.gone⟩
    rw [elems_of_none hend]
    exact .nil _ _
  | @head s s' hstep hrun ih =>
    have hout' := hout.next hstep
    obtain ⟨c, q, hnext, ⟨rfl, rfl⟩ | ⟨rfl, hup⟩ | ⟨hdot, hdotdot, hname⟩⟩ := walk_step_cases hstep h.gone
    · have hslash' : q ≠ [] → slash = ends_slash q := fun hq =>
        (hslash (next_comp_ne_nil hnext)).trans (next_comp_rest hnext hq).2
      refine Outcome.of_step (ih (h.skip hnext) hdir hslash' hout') 0 rfl ?_ ?_
      · intro n cs hres
        rw [elems_of_some hnext]
        exact .self hdir hres
      intro n hbreak
      rw [elems_of_some hnext]
      exact .self hbreak
    · obtain ⟨hat, hp, hlinks⟩ := (h.skip hnext).up_dir hroot hgood hup
      have hslash' : s'.p ≠ [] → slash = ends_slash s'.p := fun hq => by
        rw [hp] at hq ⊢
        exact (hslash (next_comp_ne_nil hnext)).trans (next_comp_rest hnext hq).2
      have hupdir : T.IsDir (up base cur) := by
        rw [up]
        split
        · exact hdir
        · exact hdir.dropLast
      refine Outcome.of_step (ih hat hupdir hslash' hout') 0 hlinks ?_ ?_
      · intro n cs hres
        rw [elems_of_some hnext]
        rw [hp] at hres
        exact .parent hdir hres
      intro n hbreak
      rw [elems_of_some hnext]
      rw [hp] at hbreak
      exact .parent hdir hbreak
    have hc := next_comp_good hnext hdot hdotdot
    rcases h.name_cases hhost hout hnext hdot hdotdot hname with ⟨rfl, hkeep⟩ | ⟨hkeep, tgt, hnode, hsplice⟩
    · by_cases hq : next_comp q = none
      · rw [run_of_none hq hrun]
        exact h.last_name hdir hslash hnext hc hq hkeep
      have hlink : ¬ T.IsLink (cur ++ [c]) := by
        refine hkeep.resolve_left fun hall => hq ?_
        simp only [Bool.and_eq_true, all_eq_true, beq_iff_eq] at hall
        exact next_comp_eq_none.mpr hall.1.1
      refine h.inner_name hhost hout' hbase hroot hgood hdir hnext hc hq hlink hrun fun hisdir => ?_
      exact ih (h.push hnext hc hlink) hisdir
        (fun hne => (hslash (next_comp_ne_nil hnext)).trans (next_comp_rest hnext hne).2) hout'
    obtain ⟨hat, hatdir, hp, hlinks⟩ := h.splice hdir hbase hroot hgood hc hsplice
    exact h.follow hdir hslash hnext hc hkeep hnode hp hlinks fun slash' hslash' =>
      ih hat hatdir hslash' hout'

theorem walk_finish_ordinary {host canon : Path} (hord : Ordinary env t.canon) (hgone : t.cwd_gone = false)
    (h : walk_finish env t = .ok (host, canon)) : canon = t.canon ∧ to_host env.m canon = .ok host ∧
      (t.want_dir = true → env.stat host ≠ .ok false) := by
  simp only [walk_finish, hgone, hord.canon_to_host, Bool.false_eq_true, if_false] at h
  split at h
  · cases h
  next host' hto => grind

theorem Lost.finish (hl : Lost T t cur) (h : At T t cur) (hhost : HostTree T env) (hord : Ordinary env t.canon)
    (hend : next_comp t.p = none) {host canon : Path} (hfin : walk_finish env t = .ok (host, canon)) :
    T.node cur = none := by
  obtain ⟨rfl, hto, hstat⟩ := walk_finish_ordinary hord h.gone hfin
  rw [h.canon] at hto
  rcases hnode : T.node cur with _ | (_ | _ | tgt)
  · rfl
  · exact absurd hnode hl.not_dir
  · have hwant : t.want_dir = true := by
      rcases hl.dead with hnone | hmore | hwant
      · rw [hnode] at hnone; cases hnone
      · exact absurd hend hmore
      · exact hwant
    exact absurd (hhost.stat_file _ _ hto hnode) (hstat hwant)
  · exact absurd ⟨tgt, hnode⟩ h.not_link

theorem At.start (hhost : HostTree T env) (hdir : T.IsDir cur) (gpath : Path) :
    At T (walk_start env (render cur) gpath false) cur where
  canon := rfl
  good := hhost.good_names cur (by rw [hdir]; simp)
  trusted := ⟨cur, [], by simp, by simp [walk_start], hdir⟩
  direct := hdir.direct
  not_link := hdir.not_isLink
  wants := fun _ => rfl
  gone := rfl
  links := by simp [walk_start]

/-- The location a guest path names, for a guest whose root is `base`, from the
directory `dir`: over at most 40 links. -/
def PosixResolves (T : Tree Path Path) (base dir : List Path) (nofollow : Bool) (gpath : Path)
    (cs : List Path) : Prop :=
  gpath ≠ [] ∧ ∃ n ≤ 40, Resolves T parse base nofollow (ends_slash gpath) ((parse gpath).start base dir)
    (elems gpath) n cs

/-- The resolution of a guest path fails, over at most 40 links, at what is no directory: a name before the last is
missing or no directory, or the last name is none and a slash follows it. -/
def PosixBreaks (T : Tree Path Path) (base dir : List Path) (nofollow : Bool) (gpath : Path) : Prop :=
  ∃ n ≤ 40, Breaks T parse base nofollow (ends_slash gpath) ((parse gpath).start base dir) (elems gpath) n

theorem path_walk_eq {dir : List Path} {gpath : Path} (hroot : env.croot = render base) (hne : gpath ≠ [])
    (fuel : Nat) :
    path_walk env (.ok (render dir, false)) gpath fuel =
      if gpath.length + 1 > PATH_MAX then some (.error (-ENAMETOOLONG))
      else (walk_loop env fuel (walk_start env (render ((parse gpath).start base dir)) gpath false)).map
        fun r => r.bind (walk_finish env) := by
  have hstart : (if gpath.head? = some '/' then Except.ok (env.croot, false) else .ok (render dir, false) :
      Except Int (Path × Bool)) = .ok (render ((parse gpath).start base dir), false) := by
    by_cases habs : gpath.head? = some '/' <;> simp [Text.start, parse, habs, hroot]
  simp only [path_walk, hne, if_false, hstart]

/-- The walk ends, at the canonical path, under the rootfs, that the guest path resolves to; or the resolution breaks
and nothing is there. In particular a walk over a loop, or over more than 40 links, returns no path. -/
theorem path_walk_posix (T : Tree Path Path) (env : WalkEnv) (base dir : List Path) (gpath : Path) (fuel : Nat)
    (hhost : HostTree T env) (hroot : env.croot = render base) (hbase : T.IsDir base) (hdir : T.IsDir dir)
    (hout : OutsideZones env (walk_start env (render ((parse gpath).start base dir)) gpath false))
    (hfuel : 42 * PATH_MAX ≤ fuel) :
    ∃ r, path_walk env (.ok (render dir, false)) gpath fuel = some r ∧ ∀ host canon, r = .ok (host, canon) →
      ∃ cs, canon = render cs ∧ (∀ c ∈ cs, GoodName c) ∧ to_host env.m canon = .ok host ∧
        (((∀ cs', PosixResolves T base dir env.nofollow_last gpath cs' ↔ cs' = cs) ∧
            (base <+: dir → base <+: cs)) ∨
          ((¬ ∃ cs', PosixResolves T base dir env.nofollow_last gpath cs') ∧
            PosixBreaks T base dir env.nofollow_last gpath ∧ T.node cs = none)) := by
  have hgood := hhost.good_names base (by rw [hbase]; simp)
  by_cases hnil : gpath = []
  · exact ⟨.error (-ENOENT), by simp [path_walk, hnil], by simp⟩
  rw [path_walk_eq hroot hnil fuel]
  by_cases hlong : gpath.length + 1 > PATH_MAX
  · exact ⟨.error (-ENAMETOOLONG), if_pos hlong, by simp⟩
  rw [if_neg hlong]
  set from_ := (parse gpath).start base dir with hfrom
  set s := walk_start env (render from_) gpath false with hs
  have hfromdir : T.IsDir from_ := by
    rw [hfrom, Text.start]
    split <;> assumption
  have hends : ∃ r, walk_loop env fuel s = some r := by
    refine walk_loop_ends fuel s ?_ (Nat.zero_le 40) ?_
    · change gpath.length < PATH_MAX
      omega
    · change (41 - 0) * PATH_MAX + gpath.length < fuel
      omega
  obtain ⟨r, hr⟩ := hends
  rw [hr]
  refine ⟨_, rfl, ?_⟩
  intro host canon hok
  cases r with
  | error e => cases hok
  | ok t =>
    obtain ⟨hrun, hend⟩ := walk_loop_run hr
    have hord := (hout t hrun).1
    have hat : At T s from_ := At.start hhost hfromdir gpath
    rcases hat.outcome hhost hbase hroot hgood hrun hend hfromdir (fun _ => rfl) hout with
      ⟨n, cs, hn, hres, hcanon, hcs, hgone⟩ | ⟨⟨k, hk, hbreak⟩, cs, hcs, hlost⟩
    · obtain ⟨rfl, hto, -⟩ := walk_finish_ordinary hord hgone hok
      refine ⟨cs, hcanon, hcs, hto, .inl ⟨fun cs' => ⟨?_, ?_⟩, ?_⟩⟩
      · rintro ⟨-, k, -, hres'⟩
        exact (hres'.unique hres).2
      · rintro rfl
        exact ⟨hnil, n, by simpa [hs, walk_start] using hn, hres⟩
      intro hin
      refine hres.within ?_
      rw [hfrom, Text.start]
      split
      · exact prefix_rfl
      · exact hin
    have hnone := hlost.finish hcs hhost hord hend hok
    obtain ⟨rfl, hto, -⟩ := walk_finish_ordinary hord hcs.gone hok
    refine ⟨cs, hcs.canon, hcs.good, hto, .inr ⟨?_, ⟨k, by simpa [hs, walk_start] using hk, hbreak⟩, hnone⟩⟩
    rintro ⟨cs', -, n, -, hres⟩
    exact hbreak.not_resolves hres

/-- From a directory, through a link in it that leads back to it. -/
theorem path_walk_posix_link :
    ∃ r, path_walk (tree_env loop_tree ['/', 'r'] [] false false) (.ok (render [['a']], false))
        ['l', '/', 'x'] (42 * PATH_MAX) = some r ∧ ∀ host canon, r = .ok (host, canon) →
      ∃ cs, canon = render cs ∧ (∀ c ∈ cs, GoodName c) ∧
        to_host (tree_env loop_tree ['/', 'r'] [] false false).m canon = .ok host ∧
        (((∀ cs', PosixResolves loop_tree [] [['a']] false ['l', '/', 'x'] cs' ↔ cs' = cs) ∧
            ([] <+: [['a']] → [] <+: cs)) ∨
          ((¬ ∃ cs', PosixResolves loop_tree [] [['a']] false ['l', '/', 'x'] cs') ∧
            PosixBreaks loop_tree [] [['a']] false ['l', '/', 'x'] ∧ loop_tree.node cs = none)) :=
  path_walk_posix loop_tree (tree_env loop_tree ['/', 'r'] [] false false) [] [['a']] ['l', '/', 'x']
    (42 * PATH_MAX) (tree_env_host loop_tree_good) rfl rfl rfl (tree_env_outside _) le_rfl

/-- A name below a directory that is missing: the walk returns a path, and the
guest path does not resolve. -/
theorem path_walk_missing_dir :
    HostTree bare_tree (tree_env bare_tree ['/', 'r'] [] false false) ∧ bare_tree.IsDir [] ∧
    OutsideZones (tree_env bare_tree ['/', 'r'] [] false false)
      (walk_start (tree_env bare_tree ['/', 'r'] [] false false) ['/'] ['/', 'b', '/', 'x'] false) ∧
    path_walk (tree_env bare_tree ['/', 'r'] [] false false) (.ok (['/'], false)) ['/', 'b', '/', 'x'] 3 =
      some (.ok (['/', 'r', '/', 'b', '/', 'x'], ['/', 'b', '/', 'x'])) ∧
    ¬ ∃ cs, PosixResolves bare_tree [] [] false ['/', 'b', '/', 'x'] cs := by
  refine ⟨tree_env_host bare_tree_good, rfl, tree_env_outside _, ?_, ?_⟩
  · generalize hstat : (tree_env bare_tree ['/', 'r'] [] false false).stat = stat
    have henv : tree_env bare_tree ['/', 'r'] [] false false =
        { tree_env bare_tree ['/', 'r'] [] false false with readlink := fun _ => none, stat } := by
      rw [← hstat, ← bare_tree_readlink]
    rw [henv]
    rfl
  rintro ⟨cs, -, n, -, hres⟩
  rw [elems, comps_of_some (c := ['b']) (q := ['/', 'x']) rfl, comps_of_some (c := ['x']) (q := []) rfl,
    comps_of_none rfl] at hres
  change Resolves bare_tree parse [] false false [] [.name ['b'], .name ['x']] n cs at hres
  cases hres with
  | name _ hnode => exact hnode rfl
  | link _ hnode => cases hnode

end outcome

end arm64emu
