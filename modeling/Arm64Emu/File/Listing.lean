import Mathlib
import Arm64Emu.File.Dents

namespace arm64emu

open List

def names (ds : List Dent) : List Path := ds.map Dent.name

theorem names_append (as bs : List Dent) : names (as ++ bs) = names as ++ names bs := map_append

section read

variable {d : HostDir} {v : DirView} {room pos pos' : Nat} {ds : List Dent}

def kept_names (v : DirView) (ds : List Dent) : List Path := (names ds).filter (keep_name v)

theorem retype_name (e : Dent) : (retype v e).name = e.name := by
  unfold retype
  split <;> rfl

theorem names_keep_dents (ds : List Dent) : names (keep_dents v ds) = kept_names v ds := by
  rw [names, keep_dents, map_map, kept_names, names, filter_map]
  exact map_congr_left fun e _ => retype_name e

theorem kept_names_append (as bs : List Dent) : kept_names v (as ++ bs) = kept_names v as ++ kept_names v bs := by
  rw [kept_names, names_append, filter_append, kept_names, kept_names]

theorem names_eq_nil {ds : List Dent} : names ds = [] ↔ ds = [] := map_eq_nil_iff

theorem dents_size_append (as bs : List Dent) : dents_size (as ++ bs) = dents_size as + dents_size bs := by
  rw [dents_size, map_append, sum_append, dents_size, dents_size]

theorem dents_size_keep (ds : List Dent) : dents_size (keep_dents v ds) ≤ dents_size ds := by
  have hsize : dents_size (keep_dents v ds) = dents_size (ds.filter fun e => keep_name v e.name) := by
    unfold dents_size keep_dents
    rw [map_map]
    congr 1
    exact map_congr_left fun e _ => congrArg dent_reclen (retype_name e)
  rw [hsize]
  exact (List.Sublist.map _ filter_sublist).sum_le_sum fun _ _ => Nat.zero_le _

/-- What a read returns: the visible records of the entries it passes over, within
its room; and none only at the end of the visible ones. -/
structure Reads (d : HostDir) (v : DirView) (room pos : Nat) (ds : List Dent) (pos' : Nat) : Prop where
  le : pos ≤ pos'
  names : names ds = kept_names v ((d.ents.drop pos).take (pos' - pos))
  size : dents_size ds ≤ room
  more : ds = [] → kept_names v (d.ents.drop pos) = []

theorem keep_name_of_unfiltered (h : dents_filtered v = false) (name : Path) : keep_name v name = true := by
  simp only [dents_filtered, Bool.or_eq_false_iff, Bool.not_eq_false', List.isEmpty_iff] at h
  simp [keep_name, h.1.1, h.1.2, h.2]

theorem read_kept_reads (h : read_kept d v room pos = (.ok ds, pos')) : Reads d v room pos ds pos' := by
  fun_induction read_kept d v room pos with
  | case1 pos hdrop =>
    cases h
    refine ⟨le_rfl, ?_, Nat.zero_le _, fun _ => by rw [hdrop]; rfl⟩
    rw [hdrop, take_nil]
    rfl
  | case2 => cases h
  | case3 pos e rest hdrop hroom kept hkept =>
    rw [Prod.mk.injEq, Except.ok.injEq] at h
    obtain ⟨hds, rfl⟩ := h
    rw [← hds]
    refine ⟨Nat.le_add_right _ _, ?_, ?_, fun hnil => absurd hnil hkept⟩
    · rw [Nat.add_sub_cancel_left]
      exact names_keep_dents _
    · exact (dents_size_keep _).trans (d.batch_fits pos room)
  | case4 pos e rest hdrop hroom kept hkept ih =>
    obtain ⟨hle, hnames, hsize, hmore⟩ := ih h
    have hnone : kept_names v ((d.ents.drop pos).take (d.batch pos room)) = [] := by
      rw [← names_keep_dents, names_eq_nil]
      exact not_not.1 hkept
    have hsplit : ∀ n, kept_names v ((d.ents.drop pos).take (d.batch pos room + n)) =
        kept_names v ((d.ents.drop (pos + d.batch pos room)).take n) := by
      intro n
      rw [take_add, kept_names_append, hnone, nil_append, drop_drop]
    refine ⟨(Nat.le_add_right _ _).trans hle, ?_, hsize, fun hnil => ?_⟩
    · have hsub : pos' - pos = d.batch pos room + (pos' - (pos + d.batch pos room)) := by omega
      rw [hnames, hsub, hsplit]
    have hrest := hmore hnil
    have hall := congrArg (kept_names v) (take_append_drop (d.batch pos room) (d.ents.drop pos))
    rw [kept_names_append, hnone, nil_append, drop_drop, hrest] at hall
    exact hall.symm

theorem read_dents_reads (h : read_dents d v room pos = (.ok ds, pos')) : Reads d v room pos ds pos' := by
  unfold read_dents at h
  split at h
  · exact read_kept_reads h
  rename_i hplain
  have hkeep : ∀ ds, kept_names v ds = names ds := fun ds =>
    filter_eq_self.2 fun name _ => keep_name_of_unfiltered (Bool.not_eq_true _ ▸ hplain) name
  unfold host_getdents at h
  split at h
  next hdrop =>
    cases h
    refine ⟨le_rfl, ?_, Nat.zero_le _, fun _ => by rw [hdrop]; rfl⟩
    rw [hdrop, take_nil]
    rfl
  rename_i e rest hdrop
  split at h
  · cases h
  rename_i hroom
  cases h
  refine ⟨Nat.le_add_right _ _, ?_, d.batch_fits pos room, fun hnil => ?_⟩
  · rw [Nat.add_sub_cancel_left, hkeep]
  have hbatch := d.batch_pos pos room e rest hdrop (Nat.not_lt.1 hroom)
  rw [hdrop, take_eq_nil_iff] at hnil
  exact absurd hnil (by simp; omega)

end read

section run

variable {d : HostDir} {v : DirView} {tab : BindTab} {pos pos' : Nat} {ds out : List Dent} {c : DentsCall}
  {cs : List DentsCall}

theorem getdents64_ok (h : getdents64 d v tab c pos = (.ok ds, pos')) : ∃ buf, Reads d v c.room pos buf pos' ∧
    read_dents d v c.room pos = (.ok buf, pos') ∧
    ds = if pos = 0 ∧ buf ≠ [] then inject_dents d v tab c.room buf else buf := by
  unfold getdents64 at h
  split at h
  · cases h
  split at h
  · cases h
  split at h
  · cases h
  rename_i buf pos₁ hread
  cases h
  exact ⟨buf, read_dents_reads hread, hread, by rw [if_congr (and_congr_left' (d.offset_zero pos)) rfl rfl]⟩

/-- Past the start of the directory the calls return the visible host entries that
are left. -/
theorem listing_rest (hpos : 0 < pos) (h : listing d v tab pos cs = some out) :
    names out = kept_names v (d.ents.drop pos) := by
  induction cs generalizing pos out with
  | nil => cases h
  | cons c cs ih =>
    rw [listing] at h
    split at h
    · cases h
    next pos' hcall =>
      cases h
      obtain ⟨buf, hreads, -, hds⟩ := getdents64_ok hcall
      rw [if_neg (by omega)] at hds
      rw [hreads.more hds.symm]
      rfl
    rename_i e es pos' hcall
    obtain ⟨buf, hreads, -, hds⟩ := getdents64_ok hcall
    rw [if_neg (by omega)] at hds
    rw [Option.map_eq_some_iff] at h
    obtain ⟨rest, hrest, rfl⟩ := h
    have hle := hreads.le
    have hnames := ih (by omega) hrest
    rw [hds, names_append, hreads.names, hnames, ← kept_names_append]
    have hdrop : d.ents.drop pos' = (d.ents.drop pos).drop (pos' - pos) := by rw [drop_drop, Nat.add_sub_cancel' hle]
    rw [hdrop, take_append_drop]

end run

section inject

variable {cap : Nat} {buf recs : List Dent}

theorem foldl_inject (cap : Nat) (buf recs : List Dent) : ∃ more, recs.foldl (inject_dent true cap) buf = buf ++ more ∧
    more ⊆ recs ∧ ((names buf).Nodup → (names (buf ++ more)).Nodup) ∧
    (dents_size buf ≤ cap → dents_size (buf ++ more) ≤ cap) := by
  induction recs generalizing buf with
  | nil =>
    refine ⟨[], (append_nil _).symm, List.Subset.refl _, fun h => ?_, fun h => ?_⟩ <;> rwa [append_nil]
  | cons e recs ih =>
    rw [foldl_cons, inject_dent]
    split_ifs with hdup hfull
    · obtain ⟨more, heq, hsub, hnodup, hsize⟩ := ih buf
      exact ⟨more, heq, subset_cons_of_subset _ hsub, hnodup, hsize⟩
    · obtain ⟨more, heq, hsub, hnodup, hsize⟩ := ih buf
      exact ⟨more, heq, subset_cons_of_subset _ hsub, hnodup, hsize⟩
    obtain ⟨more, heq, hsub, hnodup, hsize⟩ := ih (buf ++ [e])
    rw [append_assoc, singleton_append] at heq hnodup hsize
    refine ⟨e :: more, heq, cons_subset_cons _ hsub, fun h => hnodup ?_, fun _ => hsize ?_⟩
    · have hnew : e.name ∉ names buf := fun hmem => hdup ⟨rfl, hmem⟩
      rw [names_append, nodup_append]
      refine ⟨h, nodup_singleton _, fun a ha b hb hab => hnew ?_⟩
      rw [names, map_singleton, mem_singleton] at hb
      rw [← hb, ← hab]
      exact ha
    rw [dents_size_append]
    have hone : dents_size [e] = dent_reclen e.name := by simp [dents_size]
    omega

def missing_size (buf recs : List Dent) : Nat :=
  ∑ name ∈ (names recs).toFinset \ (names buf).toFinset, dent_reclen name

variable (recs) in
theorem foldl_inject_all_iff (hbuf : dents_size buf ≤ cap) (hnodup : (names buf).Nodup) :
    (∀ name ∈ names recs, name ∈ names (recs.foldl (inject_dent true cap) buf)) ↔
      dents_size buf + missing_size buf recs ≤ cap := by
  constructor
  · intro hall
    obtain ⟨more, heq, -, hnodup', hsize⟩ := foldl_inject cap buf recs
    have hdup := hnodup' hnodup
    rw [heq] at hall
    have hfit := hsize hbuf
    rw [dents_size_append] at hfit
    rw [names_append, nodup_append] at hdup
    have hmore : missing_size buf recs ≤ dents_size more := by
      have hsub : (names recs).toFinset \ (names buf).toFinset ⊆ (names more).toFinset := by
        intro name hname
        rw [Finset.mem_sdiff, mem_toFinset, mem_toFinset] at hname
        have hin := hall name hname.1
        rw [names_append, mem_append] at hin
        exact mem_toFinset.2 (hin.resolve_left hname.2)
      have hsum : ∑ name ∈ (names more).toFinset, dent_reclen name = dents_size more := by
        rw [sum_toFinset _ hdup.2.1, names, map_map]
        rfl
      rw [← hsum]
      exact Finset.sum_le_sum_of_subset hsub
    omega
  intro hfit
  clear hbuf hnodup
  induction recs generalizing buf with
  | nil => exact fun name h => nomatch h
  | cons e recs ih =>
    have hkeep : ∀ buf', ∀ name ∈ names buf', name ∈ names (recs.foldl (inject_dent true cap) buf') := by
      intro buf' name hname
      obtain ⟨more, heq, -⟩ := foldl_inject cap buf' recs
      rw [heq, names_append]
      exact mem_append_left _ hname
    rw [foldl_cons, names, map_cons, forall_mem_cons, inject_dent]
    by_cases hdup : e.name ∈ names buf
    · rw [if_pos ⟨rfl, hdup⟩]
      have hless : missing_size buf recs ≤ missing_size buf (e :: recs) := by
        refine Finset.sum_le_sum_of_subset (Finset.sdiff_subset_sdiff (fun name hname => ?_) (Finset.Subset.refl _))
        rw [mem_toFinset] at hname ⊢
        exact .tail _ hname
      exact ⟨hkeep buf e.name hdup, ih (by omega)⟩
    have hless : dent_reclen e.name + missing_size (buf ++ [e]) recs ≤ missing_size buf (e :: recs) := by
      unfold missing_size
      rw [← Finset.sum_insert (f := dent_reclen) (a := e.name)]
      · refine Finset.sum_le_sum_of_subset fun name hname => ?_
        rw [Finset.mem_insert, Finset.mem_sdiff] at hname
        rw [Finset.mem_sdiff, mem_toFinset, mem_toFinset]
        simp only [mem_toFinset, names, map_append, mem_append, not_or] at hname ⊢
        rcases hname with rfl | ⟨hin, hout, -⟩
        · exact ⟨.head _, hdup⟩
        · exact ⟨mem_cons_of_mem _ hin, hout⟩
      rw [Finset.mem_sdiff, not_and_not_right]
      intro _
      rw [mem_toFinset, names_append]
      exact mem_append_right _ (.head _)
    have hone : dents_size (buf ++ [e]) = dents_size buf + dent_reclen e.name := by
      rw [dents_size_append]
      simp [dents_size]
    rw [if_neg (fun h => hdup h.2), if_neg (by omega)]
    refine ⟨hkeep _ e.name ?_, ih (by omega)⟩
    rw [names_append]
    exact mem_append_right _ (.head _)

theorem foldl_inject_new (hnodup : (names recs).Nodup) (hnew : ∀ name ∈ names recs, name ∉ names buf) :
    recs.foldl (inject_dent false cap) buf = recs.foldl (inject_dent true cap) buf := by
  induction recs generalizing buf with
  | nil => rfl
  | cons e recs ih =>
    rw [names, map_cons, nodup_cons] at hnodup
    rw [names, map_cons, forall_mem_cons] at hnew
    have hstep : inject_dent false cap buf e = inject_dent true cap buf e := by
      have hfalse : ¬(false = true ∧ e.name ∈ buf.map Dent.name) := fun h => Bool.false_ne_true h.1
      have htrue : ¬(true = true ∧ e.name ∈ buf.map Dent.name) := fun h => hnew.1 h.2
      rw [inject_dent, if_neg hfalse, inject_dent, if_neg htrue]
    rw [foldl_cons, foldl_cons, hstep]
    refine ih hnodup.2 fun name hname hin => ?_
    rw [inject_dent] at hin
    split_ifs at hin
    · exact hnew.2 name hname hin
    · exact hnew.2 name hname hin
    rw [names_append, mem_append] at hin
    rcases hin with hin | hin
    · exact hnew.2 name hname hin
    · rw [names, map_singleton, mem_singleton] at hin
      exact hnodup.1 (hin ▸ hname)

end inject

section complete

variable (d : HostDir) (v : DirView) (tab : BindTab)

/-- The emulator has an entry of its own in the directory: a device node the host
provides, or a mount point right below it. -/
def Provides (name : Path) : Prop :=
  (inject_dev v = true ∧ ∃ host, (name, host) ∈ dev_nodes ∧ (v.lstat host).isSome) ∨
    ∃ dir i b, v.gdir = some dir ∧ i < bind_count tab ∧ tab.slots i = some b ∧ split_mount b.guest = some (dir, name)

def Visible (name : Path) : Prop := (name ∈ names d.ents ∧ keep_name v name = true) ∨ Provides v tab name

def CompleteListing (out : List Dent) : Prop := (names out).Nodup ∧ ∀ name, name ∈ names out ↔ Visible d v tab name

/-- The mount points and device nodes added to the host's entries. -/
def added_dents : List Dent :=
  (if inject_dev v then dev_dents d v else []) ++
    (v.gdir.map fun dir => (List.range (bind_count tab)).filterMap (bind_dent d v tab dir)).getD []

variable {d v tab} {buf out : List Dent} {pos' : Nat} {c : DentsCall} {cs : List DentsCall}

theorem mem_dev_dents (name : Path) : name ∈ names (dev_dents d v) ↔
    (∃ host, (name, host) ∈ dev_nodes ∧ (v.lstat host).isSome) ∧ d.present name = false := by
  rw [names, dev_dents, mem_map]
  simp only [mem_filterMap, Option.bind_eq_some_iff]
  constructor
  · rintro ⟨e, ⟨n, hn, st, hst, he⟩, rfl⟩
    split at he
    · cases he
    rename_i habsent
    cases he
    exact ⟨⟨n.2, hn, by rw [hst]; rfl⟩, Bool.not_eq_true _ ▸ habsent⟩
  rintro ⟨⟨host, hn, hst⟩, habsent⟩
  obtain ⟨st, hst⟩ := Option.isSome_iff_exists.1 hst
  exact ⟨⟨st.1, st.2, name⟩, ⟨(name, host), hn, st, hst, by rw [if_neg (by rw [habsent]; decide)]⟩, rfl⟩

theorem mem_bind_dents (dir name : Path) :
    name ∈ names ((List.range (bind_count tab)).filterMap (bind_dent d v tab dir)) ↔
      (∃ i b, i < bind_count tab ∧ tab.slots i = some b ∧ split_mount b.guest = some (dir, name)) ∧
        d.present name = false := by
  rw [names, mem_map]
  simp only [mem_filterMap, mem_range, bind_dent, Option.bind_eq_some_iff]
  constructor
  · rintro ⟨e, ⟨i, hi, b, hb, ⟨parent, base⟩, hsplit, he⟩, rfl⟩
    split at he
    · cases he
    rename_i hok
    cases he
    rw [not_or, not_not, Bool.not_eq_true] at hok
    exact ⟨⟨i, b, hi, hb, by rw [hsplit, ← hok.1]⟩, hok.2⟩
  rintro ⟨⟨i, b, hi, hb, hsplit⟩, habsent⟩
  refine ⟨_, ⟨i, hi, b, hb, (dir, name), hsplit, if_neg ?_⟩, rfl⟩
  rw [not_or, not_not, Bool.not_eq_true]
  exact ⟨rfl, habsent⟩

theorem mem_added_dents (name : Path) :
    name ∈ names (added_dents d v tab) ↔ Provides v tab name ∧ d.present name = false := by
  have hdev : name ∈ names (if inject_dev v then dev_dents d v else []) ↔
      (inject_dev v = true ∧ ∃ host, (name, host) ∈ dev_nodes ∧ (v.lstat host).isSome) ∧ d.present name = false := by
    split
    next h => rw [mem_dev_dents, and_iff_right h]
    next h => exact ⟨nofun, fun hin => absurd hin.1.1 h⟩
  have hbind : name ∈ names ((v.gdir.map fun dir =>
      (List.range (bind_count tab)).filterMap (bind_dent d v tab dir)).getD []) ↔
      (∃ dir i b, v.gdir = some dir ∧ i < bind_count tab ∧ tab.slots i = some b ∧
        split_mount b.guest = some (dir, name)) ∧ d.present name = false := by
    cases hdir : v.gdir with
    | none =>
      constructor
      · exact fun hin => nomatch hin
      · rintro ⟨⟨dir, i, b, hnone, -⟩, -⟩
        cases hnone
    | some dir =>
      rw [Option.map_some, Option.getD_some, mem_bind_dents]
      refine and_congr_left fun _ => ?_
      constructor
      · rintro ⟨i, b, h⟩
        exact ⟨dir, i, b, rfl, h⟩
      rintro ⟨dir', i, b, hsame, h⟩
      cases hsame
      exact ⟨i, b, h⟩
  rw [names] at hdev hbind
  rw [names, added_dents, map_append, mem_append, hdev, hbind, Provides, or_and_right]

theorem names_filterMap_sublist {α : Type} {l : List α} {f : α → Path} {g : α → Option Dent}
    (h : ∀ a e, g a = some e → e.name = f a) : (names (l.filterMap g)).Sublist (l.map f) := by
  induction l with
  | nil => exact List.Sublist.slnil
  | cons a l ih =>
    rw [filterMap_cons, map_cons]
    split
    · exact ih.cons _
    rename_i e he
    rw [names, map_cons, h a e he]
    exact ih.cons_cons _

theorem dev_dents_nodup : (names (dev_dents d v)).Nodup := by
  have hnodes : (dev_nodes.map Prod.fst).Nodup := by decide
  refine hnodes.sublist (names_filterMap_sublist fun n e he => ?_)
  obtain ⟨st, -, he⟩ := Option.bind_eq_some_iff.1 he
  split at he
  next => cases he
  next => cases he; rfl

theorem inject_dents_eq {cap : Nat} (hnew : ∀ name ∈ names (added_dents d v tab), name ∉ names buf) :
    inject_dents d v tab cap buf = (added_dents d v tab).foldl (inject_dent true cap) buf := by
  have hdev : (if inject_dev v then dev_inject_dents d v cap buf else buf) =
      (if inject_dev v then dev_dents d v else []).foldl (inject_dent true cap) buf := by
    split
    next h =>
      refine foldl_inject_new dev_dents_nodup fun name hname => hnew name ?_
      rw [mem_added_dents]
      rw [mem_dev_dents] at hname
      exact ⟨.inl ⟨h, hname.1⟩, hname.2⟩
    next => rfl
  rw [inject_dents, added_dents, foldl_append, ← hdev]
  cases v.gdir with
  | none => rfl
  | some dir => rfl

theorem first_read (hread : Reads d v c.room 0 buf pos') : buf ≠ [] ∧ 0 < pos' := by
  have hdot : keep_name v ['.'] = true := by
    have hzero : (0 : Int) ∉ v.foreign := fun h => absurd (v.foreign_pos 0 h) (lt_irrefl 0)
    have hhidden : l2s_hidden ['.'] = false := by decide
    have hproc : proc_keep_name v.guest_pid ['.'] = true := by
      rw [proc_keep_name, show List.all ['.'] Char.isDigit = false by decide]
      rfl
    have hatoi : atoi ['.'] = 0 := by decide
    rw [keep_name, hhidden, hproc, hatoi, contains_eq_mem, decide_eq_false hzero]
    simp
  have hmem : ['.'] ∈ kept_names v d.ents := mem_filter.2 ⟨d.dot, hdot⟩
  have hne : buf ≠ [] := by
    intro hnil
    have hnone := hread.more hnil
    rw [drop_zero] at hnone
    rw [hnone] at hmem
    exact not_mem_nil hmem
  refine ⟨hne, Nat.pos_of_ne_zero fun hzero => hne ?_⟩
  rw [← names_eq_nil, hread.names, hzero]
  rfl

theorem foldl_inject_keeps (dedup : Bool) (cap : Nat) (buf recs : List Dent) :
    buf <+: recs.foldl (inject_dent dedup cap) buf := by
  induction recs generalizing buf with
  | nil => exact prefix_rfl
  | cons e recs ih =>
    refine List.IsPrefix.trans ?_ (ih (inject_dent dedup cap buf e))
    unfold inject_dent
    split_ifs
    · exact prefix_rfl
    · exact prefix_rfl
    · exact prefix_append _ _

theorem inject_dents_ne_nil {cap : Nat} (h : buf ≠ []) : inject_dents d v tab cap buf ≠ [] := by
  have hdev : buf <+: if inject_dev v then dev_inject_dents d v cap buf else buf := by
    split
    · exact foldl_inject_keeps ..
    · exact prefix_rfl
  have hall : buf <+: inject_dents d v tab cap buf := by
    rw [inject_dents]
    cases v.gdir with
    | none => exact hdev
    | some dir => exact hdev.trans (foldl_inject_keeps ..)
  exact fun hnil => h (prefix_nil.1 (hnil ▸ hall))

/-- A listing from the start: the visible host entries, with what the first call
adds between those of its read and the others. -/
theorem listing_start (h : listing d v tab 0 (c :: cs) = some out) :
    ∃ buf pos', read_dents d v c.room 0 = (.ok buf, pos') ∧ Reads d v c.room 0 buf pos' ∧
      names out = names (inject_dents d v tab c.room buf) ++ kept_names v (d.ents.drop pos') := by
  rw [listing] at h
  split at h
  · cases h
  next pos' hcall =>
    obtain ⟨buf, hreads, hread, hds⟩ := getdents64_ok hcall
    obtain ⟨hne, hpos⟩ := first_read hreads
    rw [if_pos ⟨rfl, hne⟩] at hds
    exact absurd hds.symm (inject_dents_ne_nil hne)
  rename_i e es pos' hcall
  obtain ⟨buf, hreads, hread, hds⟩ := getdents64_ok hcall
  obtain ⟨hne, hpos⟩ := first_read hreads
  rw [if_pos ⟨rfl, hne⟩] at hds
  rw [Option.map_eq_some_iff] at h
  obtain ⟨rest, hrest, rfl⟩ := h
  refine ⟨buf, pos', hread, hreads, ?_⟩
  rw [names_append, hds, listing_rest hpos hrest]

/-- `fstatat` finds the entries of the emulator's own that the directory has too. -/
def Searchable (d : HostDir) (v : DirView) (tab : BindTab) : Prop :=
  ∀ name, Provides v tab name → name ∈ names d.ents → d.present name = true

/-- A listing from the start is complete exactly if no entry of the emulator's own has the name of a hidden host
entry, and the first call has room for all of them. -/
theorem listing_complete_iff (d : HostDir) (v : DirView) (tab : BindTab) (c : DentsCall) (cs : List DentsCall)
    (out : List Dent) (hsearch : Searchable d v tab) (h : listing d v tab 0 (c :: cs) = some out) :
    ∃ buf pos', read_dents d v c.room 0 = (.ok buf, pos') ∧ (CompleteListing d v tab out ↔
      (∀ name, Provides v tab name → name ∈ names d.ents → keep_name v name = true) ∧
        dents_size buf + missing_size buf (added_dents d v tab) ≤ c.room) := by
  obtain ⟨buf, pos', hread, hreads, hout⟩ := listing_start h
  refine ⟨buf, pos', hread, ?_⟩
  -- what is added is not in the host directory
  have habsent : ∀ name ∈ names (added_dents d v tab), name ∉ names d.ents := by
    intro name hadded hin
    rw [mem_added_dents] at hadded
    rw [hsearch name hadded.1 hin] at hadded
    cases hadded.2
  have hall : kept_names v (d.ents.take pos') ++ kept_names v (d.ents.drop pos') = kept_names v d.ents := by
    rw [← kept_names_append, take_append_drop]
  have hbuf : names buf = kept_names v (d.ents.take pos') := by
    rw [hreads.names, drop_zero, Nat.sub_zero]
  have hkept_mem : ∀ name, name ∈ kept_names v d.ents ↔ name ∈ names d.ents ∧ keep_name v name = true := by
    intro name
    rw [kept_names, mem_filter]
  have hkept_nodup : (kept_names v d.ents).Nodup := d.nodup.filter _
  have hbuf_mem : ∀ name ∈ names buf, name ∈ kept_names v d.ents := by
    intro name hname
    rw [hbuf] at hname
    rw [← hall]
    exact mem_append_left _ hname
  have hbuf_nodup : (names buf).Nodup := by
    rw [← hall, nodup_append] at hkept_nodup
    rw [hbuf]
    exact hkept_nodup.1
  have hinject : inject_dents d v tab c.room buf = _ := inject_dents_eq fun name hadded hin =>
    habsent name hadded ((hkept_mem name).1 (hbuf_mem name hin)).1
  obtain ⟨more, heq, hsub, hnodup, -⟩ := foldl_inject c.room buf (added_dents d v tab)
  have hfits := foldl_inject_all_iff (added_dents d v tab) hreads.size hbuf_nodup
  rw [heq] at hinject hfits
  rw [hinject, names_append, hbuf] at hout
  have hmore : ∀ name ∈ names more, name ∈ names (added_dents d v tab) := by
    intro name hname
    obtain ⟨e, he, rfl⟩ := mem_map.1 hname
    exact mem_map_of_mem (hsub he)
  have hperm : (names out).Perm (kept_names v d.ents ++ names more) := by
    rw [hout, ← hall]
    rw [append_assoc, append_assoc]
    exact (perm_append_comm).append_left _
  have hout_nodup : (names out).Nodup := by
    rw [hperm.nodup_iff, nodup_append]
    have hboth := hnodup hbuf_nodup
    rw [names_append, nodup_append] at hboth
    refine ⟨hkept_nodup, hboth.2.1, fun a ha b hb hab => ?_⟩
    exact habsent b (hmore b hb) (hab ▸ ((hkept_mem a).1 ha).1)
  have hout_mem : ∀ name, name ∈ names out ↔ name ∈ kept_names v d.ents ∨ name ∈ names more := by
    intro name
    rw [hperm.mem_iff, mem_append]
  rw [← hfits, CompleteListing, and_iff_right hout_nodup]
  constructor
  · intro hvisible
    have hown : ∀ name, Provides v tab name → name ∈ kept_names v d.ents ∨ name ∈ names more :=
      fun name hname => (hout_mem name).1 ((hvisible name).2 (.inr hname))
    refine ⟨fun name hname hin => ?_, fun name hadded => ?_⟩
    · refine ((hkept_mem name).1 ((hown name hname).resolve_right fun hin' => ?_)).2
      exact habsent name (hmore name hin') hin
    rw [names_append]
    refine mem_append_right _ ((hown name ((mem_added_dents name).1 hadded).1).resolve_left fun hin => ?_)
    exact habsent name hadded ((hkept_mem name).1 hin).1
  rintro ⟨hshown, hroom⟩ name
  rw [hout_mem, Visible, ← hkept_mem]
  refine ⟨fun h => h.imp_right fun hin => ((mem_added_dents name).1 (hmore name hin)).1, fun h => ?_⟩
  rcases h with h | hname
  · exact .inl h
  by_cases hin : name ∈ names d.ents
  · exact .inl ((hkept_mem name).2 ⟨hin, hshown name hname hin⟩)
  have hgone : d.present name = false := by
    by_contra hpresent
    exact hin (d.present_mem name (Bool.eq_true_of_not_eq_false hpresent))
  have hlisted := hroom name ((mem_added_dents name).2 ⟨hname, hgone⟩)
  rw [names_append, mem_append] at hlisted
  exact hlisted.imp_left fun h => hbuf_mem name h

end complete

/-- How many of the entries fit in the room left. -/
def fit_count : List Dent → Nat → Nat
  | [], _ => 0
  | e :: es, room => if dent_reclen e.name ≤ room then fit_count es (room - dent_reclen e.name) + 1 else 0

theorem fit_count_fits (ds : List Dent) (room : Nat) : dents_size (ds.take (fit_count ds room)) ≤ room := by
  induction ds generalizing room with
  | nil => exact Nat.zero_le _
  | cons e es ih =>
    rw [fit_count]
    split
    next hroom =>
      have hrest := ih (room - dent_reclen e.name)
      rw [take_succ_cons, ← singleton_append, dents_size_append]
      have hone : dents_size [e] = dent_reclen e.name := by simp [dents_size]
      omega
    next => exact Nat.zero_le _

/-- A directory whose host returns as many records as fit and finds its names. -/
def full_dir (ents : List Dent) (nodup : (ents.map Dent.name).Nodup) (dot : ['.'] ∈ ents.map Dent.name) : HostDir where
  ents := ents
  batch := fun pos room => fit_count (ents.drop pos) room
  offset := id
  present := (ents.map Dent.name).contains
  nodup := nodup
  dot := dot
  batch_fits := fun pos room => fit_count_fits (ents.drop pos) room
  batch_pos := fun pos room e rest hdrop hroom => by rw [hdrop, fit_count, if_pos hroom]; exact Nat.succ_pos _
  offset_zero := fun _ => Iff.rfl
  present_mem := fun _ => List.contains_iff_mem.mp

def root_dir : HostDir :=
  full_dir [⟨2, DT_DIR, ['.']⟩, ⟨2, DT_DIR, ['.', '.']⟩, ⟨11, DT_DIR, ['e', 't', 'c']⟩] (by decide) (by decide)

def root_view : DirView where
  link2symlink := false
  is_proc := false
  foreign := []
  gdir := some ['/']
  via_bind := false
  no_dev := false
  member := fun _ => false
  guest_pid := fun _ => false
  stat := fun _ => some (77, DT_DIR)
  lstat := fun _ => none
  foreign_pos := fun _ h => nomatch h

def host_mount : BindTab :=
  ⟨fun i => if i = 0 then some ⟨"/host".toList, "/srv".toList, false, false, false, 1⟩ else none, 1, 1⟩

/-- A mount point below the root, read with room for it. -/
theorem listing_complete_roomy :
    ∃ out, listing root_dir root_view host_mount 0 [⟨96, 96, true⟩, ⟨96, 96, true⟩] = some out ∧
    (∃ e ∈ out, e.name = "host".toList) ∧
    ∃ buf pos', read_dents root_dir root_view (DentsCall.room ⟨96, 96, true⟩) 0 = (.ok buf, pos') ∧
      (CompleteListing root_dir root_view host_mount out ↔
        (∀ name, Provides root_view host_mount name → name ∈ names root_dir.ents → keep_name root_view name = true) ∧
          dents_size buf + missing_size buf (added_dents root_dir root_view host_mount) ≤
            DentsCall.room ⟨96, 96, true⟩) := by
  have hsearch : Searchable root_dir root_view host_mount := fun name _ hin => contains_iff_mem.mpr hin
  have hlist : listing root_dir root_view host_mount 0 [⟨96, 96, true⟩, ⟨96, 96, true⟩] =
      some (root_dir.ents ++ [⟨77, DT_DIR, "host".toList⟩]) := by decide +kernel
  exact ⟨_, hlist, by decide +kernel, listing_complete_iff root_dir root_view host_mount _ _ _ hsearch hlist⟩

/-- With room for the host's three records only, the mount point is not in the
listing. -/
theorem listing_loses_mount : ∃ out,
    listing root_dir root_view host_mount 0 [⟨72, 72, true⟩, ⟨72, 72, true⟩] = some out ∧
    Provides root_view host_mount "host".toList ∧ "host".toList ∉ names out := by
  refine ⟨root_dir.ents, by decide +kernel, .inr ⟨['/'], 0, _, rfl, by decide, rfl, by decide +kernel⟩,
    by decide +kernel⟩

end arm64emu
