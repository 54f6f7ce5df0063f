import Arm64Emu.Mount.Binds

open transition

namespace arm64emu

open Function Option List

section paths

variable {a b p : Path}

theorem path_under_iff : path_under a p = true ↔ ∃ rest, p = a ++ rest ∧ (rest = [] ∨ ∃ tl, rest = '/' :: tl) := by
  unfold path_under
  rw [Bool.and_eq_true, isPrefixOf_iff_prefix]
  constructor
  · rintro ⟨⟨rest, rfl⟩, hend⟩
    refine ⟨rest, rfl, ?_⟩
    rw [drop_left] at hend
    cases rest with
    | nil => exact .inl rfl
    | cons c tl => exact .inr ⟨tl, by rw [beq_iff_eq.1 hend]⟩
  rintro ⟨rest, rfl, hrest⟩
  refine ⟨prefix_append _ _, ?_⟩
  rw [drop_left]
  rcases hrest with rfl | ⟨tl, rfl⟩
  · rfl
  · rfl

theorem path_under_refl (a : Path) : path_under a a = true :=
  path_under_iff.2 ⟨[], (append_nil a).symm, .inl rfl⟩

theorem path_under_trans (hab : path_under a b = true) (hbp : path_under b p = true) : path_under a p = true := by
  obtain ⟨r, rfl, hr⟩ := path_under_iff.1 hab
  obtain ⟨r', rfl, hr'⟩ := path_under_iff.1 hbp
  refine path_under_iff.2 ⟨r ++ r', append_assoc _ _ _, ?_⟩
  rcases hr with rfl | ⟨tl, rfl⟩
  · exact hr'
  · exact .inr ⟨tl ++ r', rfl⟩

/-- Of two directories a path is under, the one with the shorter name has the
other under it. -/
theorem path_under_of_length_le (ha : path_under a p = true) (hb : path_under b p = true)
    (hlen : a.length ≤ b.length) : path_under a b = true := by
  obtain ⟨r, hpa, hr⟩ := path_under_iff.1 ha
  obtain ⟨r', hpb, -⟩ := path_under_iff.1 hb
  obtain ⟨d, rfl⟩ : a <+: b :=
    prefix_of_prefix_length_le ⟨r, hpa.symm⟩ ⟨r', hpb.symm⟩ hlen
  refine path_under_iff.2 ⟨d, rfl, ?_⟩
  cases d with
  | nil => exact .inl rfl
  | cons c tl =>
    -- what follows `a` in the path is what follows it in `b`
    have hrest : r = c :: (tl ++ r') := by
      rw [hpb, append_assoc] at hpa
      exact (append_cancel_left hpa).symm
    rcases hr with rfl | ⟨tl', rfl⟩
    · cases hrest
    · rw [← (List.cons.inj hrest).1]
      exact .inr ⟨tl, rfl⟩

end paths

section scan

variable {cand : Nat → Option (Nat × Nat)} {n i len sq : Nat}

theorem bind_scan_some (h : bind_scan cand n = some (i, len, sq)) : i < n ∧ cand i = some (len, sq) := by
  induction n with
  | zero => cases h
  | succ n ih =>
    unfold bind_scan at h
    cases hc : cand n with
    | none =>
      rw [hc] at h
      exact ⟨Nat.lt_succ_of_lt (ih h).1, (ih h).2⟩
    | some c =>
      obtain ⟨l, q⟩ := c
      cases hb : bind_scan cand n with
      | none =>
        rw [hc, hb] at h
        cases h
        exact ⟨Nat.lt_succ_self _, hc⟩
      | some best =>
        rw [hc, hb] at h
        dsimp only at h
        split at h
        · cases h
          exact ⟨Nat.lt_succ_self _, hc⟩
        · cases h
          exact ⟨Nat.lt_succ_of_lt (ih hb).1, (ih hb).2⟩

theorem bind_scan_max (hi : i < n) (hc : cand i = some (len, sq)) :
    ∃ j best bestseq, bind_scan cand n = some (j, best, bestseq) ∧ (len < best ∨ len = best ∧ sq ≤ bestseq) := by
  induction n with
  | zero => omega
  | succ n ih =>
    unfold bind_scan
    rcases Nat.lt_succ_iff_lt_or_eq.1 hi with hlt | rfl
    · obtain ⟨j, best, bestseq, hscan, hle⟩ := ih hlt
      rw [hscan]
      cases hn : cand n with
      | none => exact ⟨j, best, bestseq, rfl, hle⟩
      | some c =>
        obtain ⟨l, q⟩ := c
        dsimp only
        split
        · exact ⟨n, l, q, rfl, by omega⟩
        · exact ⟨j, best, bestseq, rfl, hle⟩
    rw [hc]
    cases hb : bind_scan cand i with
    | none => exact ⟨i, len, sq, rfl, by omega⟩
    | some best =>
      obtain ⟨j, l, q⟩ := best
      dsimp only
      split
      · exact ⟨i, len, sq, rfl, by omega⟩
      · exact ⟨j, l, q, rfl, by omega⟩

theorem bind_scan_longest (hi : i < n) (hc : cand i = some (len, sq)) :
    ∃ j best bestseq, bind_scan cand n = some (j, best, bestseq) ∧ len ≤ best := by
  obtain ⟨j, best, bestseq, hscan, hmax⟩ := bind_scan_max hi hc
  exact ⟨j, best, bestseq, hscan, by omega⟩

end scan

section table

variable {tab : BindTab} {p : Path} {i : Nat} {b : Bind}

/-- A host path under the source of a mount is judged by a mount with a source at
least as long. -/
theorem bind_of_host_longest (hi : i < tab.g_nbinds) (hb : tab.slots i = some b) (hp : path_under b.host p = true) :
    ∃ j c, bind_of_host tab p = some j ∧ tab.slots j = some c ∧ path_under c.host p = true ∧
      b.host.length ≤ c.host.length := by
  obtain ⟨j, best, bestseq, hscan, hle⟩ := @bind_scan_longest
    (fun i => (tab.slots i).bind fun b => if path_under b.host p then some (b.host.length, b.seq) else none)
    tab.g_nbinds i b.host.length b.seq hi (by simp [hb, hp])
  obtain ⟨c, hc, hcand⟩ := bind_eq_some_iff.1 (bind_scan_some hscan).2
  obtain ⟨hunder, heq⟩ := ite_none_right_eq_some.1 hcand
  refine ⟨j, c, by rw [bind_of_host, hscan]; rfl, hc, hunder, ?_⟩
  rw [(Prod.mk.inj (some.inj heq)).1]
  exact hle

theorem bind_top_at_slot {guest : Path} (h : bind_top_at tab guest = some i) : ∃ b, tab.slots i = some b := by
  obtain ⟨⟨j, best⟩, hscan, rfl⟩ := map_eq_some_iff.1 h
  obtain ⟨b, hb, -⟩ := bind_eq_some_iff.1 (bind_scan_some hscan).2
  exact ⟨b, hb⟩

theorem bind_free_slot (h : bind_free tab = some i) : tab.slots i = none := by
  simpa using List.find?_some h

end table

section changes

/-- The mounts a call may add. -/
inductive NewMount (m : Machine) (s : MountState) : MountCall → Bind → Prop where
  | bind {req : MountReq} {tcanon scanon shost : Path} {tisdir rdonly : Bool} {seq : Nat} :
      req.target = .ok (tcanon, tisdir) → ¬ MountReq.has (mount_flags req.flags) G_MS_REMOUNT →
      MountReq.has (mount_flags req.flags) G_MS_BIND → req.source = .ok (scanon, shost) →
      NewMount m s (.mount req)
        { guest := tcanon, host := shost, locked := false, seq
          ro := ((bind_slot_of_canon s.tab scanon).map (bind_ro s.tab)).getD false || rdonly
          lock_ro := ((bind_slot_of_canon s.tab scanon).map (bind_lock_ro s.tab)).getD false }
  | tmpfs {req : MountReq} {tcanon backing : Path} {tisdir ro : Bool} {fstype : String} {seq : Nat} :
      req.target = .ok (tcanon, tisdir) → ¬ MountReq.has (mount_flags req.flags) G_MS_REMOUNT →
      ¬ MountReq.has (mount_flags req.flags) G_MS_BIND → req.fstype = some fstype →
      fstype = "tmpfs" ∨ fstype = "ramfs" → req.backing = .ok backing →
      NewMount m s (.mount req) { guest := tcanon, host := backing, ro, locked := false, lock_ro := false, seq }
  | zone {req : MountReq} {tcanon zone : Path} {tisdir : Bool} {fstype : String} {seq : Nat} :
      req.target = .ok (tcanon, tisdir) → ¬ MountReq.has (mount_flags req.flags) G_MS_REMOUNT →
      ¬ MountReq.has (mount_flags req.flags) G_MS_BIND → req.fstype = some fstype →
      ¬ (fstype = "tmpfs" ∨ fstype = "ramfs") → mount_zone m fstype = some zone →
      NewMount m s (.mount req) { guest := tcanon, host := zone, ro := false, locked := false, lock_ro := false, seq }
  | pivot_root {ncanon ocanon roothost : Path} {seq : Nat} : canon_to_host m s.tab s.chroot_base = .ok roothost →
      NewMount m s (.pivot_root ncanon ocanon)
        { guest := ocanon, host := roothost, ro := false, locked := false, lock_ro := false, seq }

/-- What a call does to the table, if the mount it may add satisfies `P`. -/
inductive TabChange (P : Bind → Prop) (tab : BindTab) : BindTab → Prop where
  | same : TabChange P tab tab
  | fill {i : Nat} {b : Bind} {n seq : Nat} (hfree : bind_free tab = some i) (hb : P b) (hn : tab.g_nbinds ≤ n)
      (hi : i < n) : TabChange P tab ⟨update tab.slots i (some b), n, seq⟩
  | remount {i : Nat} {b : Bind} {ro : Bool} (hb : tab.slots i = some b) (hro : b.lock_ro = true → ro = true) :
      TabChange P tab { tab with slots := update tab.slots i (some { b with ro }) }
  | remove {i : Nat} {b : Bind} (hb : tab.slots i = some b) (hfree : b.locked = false) :
      TabChange P tab { tab with slots := update tab.slots i none }

variable {tab : BindTab} {P : Bind → Prop}

theorem bind_add_change {guest host : Path} {ro locked lock_ro : Bool}
    (h : ∀ seq, P { guest, host, ro, locked, lock_ro, seq }) :
    TabChange P tab (bind_add tab guest host ro locked lock_ro).1 := by
  unfold bind_add
  split
  · exact .same
  cases hfree : bind_free tab with
  | none => exact .same
  | some i => exact .fill hfree (h _) (Nat.le_max_left _ _) (Nat.le_max_right _ _)

theorem bind_remount_change {guest : Path} {ro : Bool} : TabChange P tab (bind_remount tab guest ro).1 := by
  unfold bind_remount
  cases htop : bind_top_at tab guest with
  | none => exact .same
  | some i =>
    obtain ⟨b, hb⟩ := bind_top_at_slot htop
    dsimp only
    split
    · exact .same
    rename_i hlock
    rw [hb]
    refine .remount hb fun hb_lock => ?_
    cases ro with
    | true => rfl
    | false => exact absurd (by simp [bind_lock_ro, hb, hb_lock]) hlock

theorem bind_remove_change {guest : Path} : TabChange P tab (bind_remove tab guest).1 := by
  unfold bind_remove
  cases htop : bind_top_at tab guest with
  | none => exact .same
  | some i =>
    obtain ⟨b, hb⟩ := bind_top_at_slot htop
    dsimp only
    split
    · exact .same
    next hlocked => exact .remove hb (by simpa [hb] using hlocked)

theorem mount_change (m : Machine) (s : MountState) (req : MountReq) :
    TabChange (NewMount m s (.mount req)) s.tab (mount m s.tab req).1 := by
  simp only [mount]
  cases htarget : req.target with
  | error e => exact .same
  | ok target =>
    obtain ⟨tcanon, tisdir⟩ := target
    dsimp only
    split
    · exact .same
    split
    · exact .same
    split
    · exact bind_remount_change
    next hremount =>
    split
    next hbind =>
      cases hsource : req.source with
      | error e => exact .same
      | ok source => exact bind_add_change fun _ => .bind htarget hremount hbind hsource
    next hbind =>
    split
    · exact .same
    split
    · exact .same
    cases hfstype : req.fstype with
    | none => exact .same
    | some fstype =>
      dsimp only
      split
      next htmpfs =>
        split
        · exact .same
        cases hbacking : req.backing with
        | error e => exact .same
        | ok backing => exact bind_add_change fun _ => .tmpfs htarget hremount hbind hfstype htmpfs hbacking
      next htmpfs =>
        cases hzone : mount_zone m fstype with
        | none => exact .same
        | some zone =>
          dsimp only
          split
          · exact .same
          · exact bind_add_change fun _ => .zone htarget hremount hbind hfstype htmpfs hzone

theorem mount_call_change (m : Machine) (s : MountState) (call : MountCall) :
    TabChange (NewMount m s call) s.tab (mount_call m s call).tab := by
  cases call with
  | mount req => exact mount_change m s req
  | umount canon =>
    simp only [mount_call]
    split
    · exact bind_remove_change
    · exact .same
  | chroot canon =>
    simp only [mount_call]
    split
    · exact .same
    · exact .same
  | pivot_root ncanon ocanon =>
    simp only [mount_call, pivot_root]
    split
    · exact .same
    split
    · exact .same
    cases hroot : canon_to_host m s.tab s.chroot_base with
    | error e => exact .same
    | ok roothost =>
      dsimp only
      split
      · exact bind_add_change fun _ => .pivot_root hroot
      · exact bind_add_change fun _ => .pivot_root hroot

end changes

section guards

/-- The host path is under a writable bind of the command line, or under no
read-only one. -/
def Outside (cli : List CliBind) (host : Path) : Prop :=
  (∃ w ∈ cli, w.ro = false ∧ path_under w.host host = true) ∨
    ∀ r ∈ cli, r.ro = true → path_under r.host host = false

/-- The guest path lies on a mount whose read-only flag is locked: of the mounts it is under, the one with the longest
mount point, and of those with that mount point the topmost. -/
def LiesLocked (tab : BindTab) (canon : Path) : Prop :=
  ∃ i b, i < tab.g_nbinds ∧ tab.slots i = some b ∧ b.lock_ro = true ∧ path_under b.guest canon = true ∧
    ∀ j c, tab.slots j = some c → path_under c.guest canon = true → j ≠ i →
      c.guest.length < b.guest.length ∨ c.guest.length = b.guest.length ∧ c.seq < b.seq

/-- A mount request whose source, if it mounts one, lies on a locked mount or outside the read-only trees. -/
def GuardedReq (m : Machine) (cli : List CliBind) (tab : BindTab) (req : MountReq) : Prop :=
  if MountReq.has (mount_flags req.flags) G_MS_REMOUNT then True
  else if MountReq.has (mount_flags req.flags) G_MS_BIND then
    ∀ scanon shost, req.source = .ok (scanon, shost) → LiesLocked tab scanon ∨ Outside cli shost
  else ∀ fstype, req.fstype = some fstype →
    if fstype = "tmpfs" ∨ fstype = "ramfs" then ∀ backing, req.backing = .ok backing → Outside cli backing
    else ∀ zone, mount_zone m fstype = some zone → Outside cli zone

/-- The calls that mount no read-only tree but from a locked mount. A `pivot_root` mounts the host path of the root. -/
def GuardedCall (m : Machine) (cli : List CliBind) (s : MountState) : MountCall → Prop
  | .mount req => GuardedReq m cli s.tab req
  | .pivot_root _ _ => ∀ roothost, canon_to_host m s.tab s.chroot_base = .ok roothost → Outside cli roothost
  | .umount _ | .chroot _ => True

def BindTab.LockedRo (tab : BindTab) : Prop := ∀ i b, tab.slots i = some b → b.lock_ro = true → b.ro = true

/-- The command line's binds are in the table, and every mount has its read-only
flag locked or its source outside their read-only trees. -/
structure BindTab.Guards (tab : BindTab) (cli : List CliBind) : Prop where
  present : ∀ c ∈ cli, ∃ i b, i < tab.g_nbinds ∧ tab.slots i = some b ∧ b.host = c.host ∧ b.locked = true
  locked_ro : tab.LockedRo
  source : ∀ i b, tab.slots i = some b → b.lock_ro = true ∨ Outside cli b.host

variable {cli : List CliBind} {m : Machine} {s : MountState} {call : MountCall} {tab tab' : BindTab} {b : Bind}

theorem LiesLocked.slot {canon : Path} (h : LiesLocked tab canon) :
    ∃ i b, bind_slot_of_canon tab canon = some i ∧ tab.slots i = some b ∧ b.lock_ro = true := by
  obtain ⟨i, b, hi, hb, hlock, hunder, htop⟩ := h
  refine ⟨i, b, ?_, hb, hlock⟩
  obtain ⟨j, best, bestseq, hscan, hmax⟩ := @bind_scan_max
    (fun i => (tab.slots i).bind fun b => if path_under b.guest canon then some (b.guest.length, b.seq) else none)
    tab.g_nbinds i b.guest.length b.seq hi (by simp [hb, hunder])
  obtain ⟨c, hc, hcand⟩ := bind_eq_some_iff.1 (bind_scan_some hscan).2
  obtain ⟨hcunder, heq⟩ := ite_none_right_eq_some.1 hcand
  obtain ⟨rfl, rfl⟩ := Prod.mk.inj (some.inj heq)
  have hji : j = i := by
    by_contra hne
    have := htop j c hc hcunder hne
    omega
  rw [bind_slot_of_canon, bind_best, hscan, ← hji]
  rfl

/-- A bind mount has the lock of the mount its source lies on. -/
theorem NewMount.guarded (h : NewMount m s call b) (hguarded : GuardedCall m cli s call) :
    b.lock_ro = true ∨ Outside cli b.host := by
  cases h with
  | bind _ hremount hbind hsource =>
    rw [GuardedCall, GuardedReq, if_neg hremount, if_pos hbind] at hguarded
    refine (hguarded _ _ hsource).imp_left fun hlies => ?_
    obtain ⟨i, b, hslot, hb, hlock⟩ := hlies.slot
    simp [hslot, bind_lock_ro, hb, hlock]
  | tmpfs _ hremount hbind hfstype htmpfs hbacking =>
    rw [GuardedCall, GuardedReq, if_neg hremount, if_neg hbind] at hguarded
    have hguarded := hguarded _ hfstype
    rw [if_pos htmpfs] at hguarded
    exact .inr (hguarded _ hbacking)
  | zone _ hremount hbind hfstype htmpfs hzone =>
    rw [GuardedCall, GuardedReq, if_neg hremount, if_neg hbind] at hguarded
    have hguarded := hguarded _ hfstype
    rw [if_neg htmpfs] at hguarded
    exact .inr (hguarded _ hzone)
  | pivot_root hroot => exact .inr (hguarded _ hroot)

theorem NewMount.locked_ro (h : NewMount m s call b) (hro : s.tab.LockedRo) (hlock : b.lock_ro = true) :
    b.ro = true := by
  cases h with
  | @bind _ _ scanon =>
    dsimp only at hlock ⊢
    cases hslot : bind_slot_of_canon s.tab scanon with
    | none => simp [hslot] at hlock
    | some i =>
      rw [hslot] at hlock
      cases hb : s.tab.slots i with
      | none => simp [bind_lock_ro, hb] at hlock
      | some b =>
        have hro := hro i b hb (by simpa [bind_lock_ro, hb] using hlock)
        simp [bind_ro, hb, hro]
  | tmpfs | zone | pivot_root => cases hlock

theorem BindTab.Guards.change {P : Bind → Prop} (h : tab.Guards cli) (hchange : TabChange P tab tab')
    (hnew : ∀ b, P b → (b.lock_ro = true → b.ro = true) ∧ (b.lock_ro = true ∨ Outside cli b.host)) :
    tab'.Guards cli := by
  cases hchange with
  | same => exact h
  | @fill i b n seq hfree hb hn hi =>
    obtain ⟨hro, hsource⟩ := hnew b hb
    refine ⟨fun c hc => ?_, slots.forall_update_some hro h.locked_ro, slots.forall_update_some hsource h.source⟩
    obtain ⟨j, b', hj, hb', hrest⟩ := h.present c hc
    exact ⟨j, b', Nat.lt_of_lt_of_le hj hn, (update_of_ne (slots.ne_of_free (bind_free_slot hfree) hb') _ _).trans hb',
      hrest⟩
  | @remount i b ro hb hro =>
    refine ⟨fun c hc => ?_, slots.forall_update_some hro h.locked_ro,
      slots.forall_update_some (h.source i b hb) h.source⟩
    obtain ⟨j, b', hj, hb', hrest⟩ := h.present c hc
    by_cases hji : j = i
    · subst hji
      obtain rfl := some.inj (hb.symm.trans hb')
      exact ⟨j, _, hj, update_self _ _ _, hrest⟩
    · exact ⟨j, b', hj, (update_of_ne hji _ _).trans hb', hrest⟩
  | @remove i b hb hfree =>
    have hother {j : Nat} {b' : Bind} (hb' : update tab.slots i none j = some b') : tab.slots j = some b' :=
      (slots.update_none_some hb').2
    refine ⟨fun c hc => ?_, fun j b' hb' => h.locked_ro j b' (hother hb'), fun j b' hb' => h.source j b' (hother hb')⟩
    obtain ⟨j, b', hj, hb', hhost, hlocked⟩ := h.present c hc
    -- a mount of the command line is locked, so it is not the one removed
    have hne : j ≠ i := by
      rintro rfl
      rw [some.inj (hb'.symm.trans hb), hfree] at hlocked
      cases hlocked
    exact ⟨j, b', hj, (update_of_ne hne _ _).trans hb', hhost, hlocked⟩

theorem add_binds_slots (h : add_binds cli = some tab) :
    (∀ c ∈ cli, ∃ i b, i < tab.g_nbinds ∧ tab.slots i = some b ∧ b.host = c.host ∧ b.locked = true) ∧
      ∀ i b, tab.slots i = some b → ∃ c ∈ cli, b.host = c.host ∧ b.ro = c.ro ∧ b.lock_ro = c.ro := by
  induction cli generalizing tab with
  | nil =>
    cases h
    exact ⟨nofun, fun i b hb => nomatch hb⟩
  | cons c cli ih =>
    simp only [add_binds, bind_eq_bind, bind_eq_some_iff] at h
    obtain ⟨tab₀, htab₀, h⟩ := h
    obtain ⟨hpresent, hsource⟩ := ih htab₀
    split at h
    · cases h
    split at h
    · cases h
    rename_i hok
    cases h
    -- the bind was registered: it fills a slot
    unfold bind_add at hok ⊢
    split
    next hlen =>
      rw [if_pos hlen] at hok
      exact absurd (by decide : -ENAMETOOLONG < 0) hok
    rename_i hlen
    rw [if_neg hlen] at hok
    cases hfree : bind_free tab₀ with
    | none =>
      rw [hfree] at hok
      exact absurd (by decide : -ENOMEM < 0) hok
    | some i =>
      refine ⟨fun c' hc' => ?_, slots.forall_update_some ⟨c, .head _, rfl, rfl, rfl⟩ fun j b hb => ?_⟩
      · rcases mem_cons.1 hc' with rfl | hc'
        · exact ⟨i, _, Nat.le_max_right _ _, update_self _ _ _, rfl, rfl⟩
        obtain ⟨j, b, hj, hb, hrest⟩ := hpresent c' hc'
        have hne : j ≠ i := slots.ne_of_free (bind_free_slot hfree) hb
        exact ⟨j, b, Nat.lt_of_lt_of_le hj (Nat.le_max_left _ _), (update_of_ne hne _ _).trans hb, hrest⟩
      · obtain ⟨c', hc', hrest⟩ := hsource j b hb
        exact ⟨c', mem_cons_of_mem _ hc', hrest⟩

theorem add_binds_guards (h : add_binds cli = some tab) : tab.Guards cli := by
  obtain ⟨hpresent, hsource⟩ := add_binds_slots h
  refine ⟨hpresent, fun i b hb hlock => ?_, fun i b hb => ?_⟩
  · obtain ⟨c, -, -, hro, hlock_ro⟩ := hsource i b hb
    rw [hro, ← hlock_ro, hlock]
  obtain ⟨c, hc, hhost, -, hlock_ro⟩ := hsource i b hb
  cases hro : c.ro with
  | true => exact .inl (hlock_ro.trans hro)
  | false => exact .inr (.inl ⟨c, hc, hro, hhost ▸ path_under_refl _⟩)

/-- What is under a read-only bind of the command line and under no writable one
is judged by a mount with a locked read-only flag. -/
theorem BindTab.Guards.host_ro (h : tab.Guards cli) {r : CliBind} (hr : r ∈ cli) (hro : r.ro = true) {p : Path}
    (hp : path_under r.host p = true) (hw : ∀ w ∈ cli, w.ro = false → path_under w.host p = false)
    (hproc : proc_zone_path p = false) (readlink : Path → Option Path) : host_ro tab readlink p = true := by
  obtain ⟨i, b, hi, hb, hhost, -⟩ := h.present r hr
  obtain ⟨j, c, hj, hc, hunder, hlen⟩ := bind_of_host_longest hi hb (hhost ▸ hp)
  rw [hhost] at hlen
  have hlock : c.lock_ro = true := by
    rcases h.source j c hc with hlock | ⟨w, hwmem, hwro, hwc⟩ | hout
    · exact hlock
    · have := path_under_trans hwc hunder
      rw [hw w hwmem hwro] at this
      cases this
    have := path_under_of_length_le hp hunder hlen
    rw [hout r hr hro] at this
    cases this
  have hcount : bind_count tab ≠ 0 := Nat.ne_of_gt (Nat.lt_of_le_of_lt (Nat.zero_le _) hi)
  simp only [arm64emu.host_ro, if_neg hcount, hproc]
  simp [hj, bind_ro, hc, h.locked_ro j c hc hlock]

end guards

/-- A guarded call and its step. -/
def GuardedStep (m : Machine) (cli : List CliBind) (s : MountState) (call : MountCall) (s' : MountState) : Prop :=
  GuardedCall m cli s call ∧ MountStep m s call s'

/-- Whatever the guest mounts, remounts and unmounts, while the source of every mount lies on a locked one or outside
the read-only trees: a host path under a read-only bind of the command line and under no writable one is judged
read-only. -/
theorem ro_bind_stays_ro {m : Machine} {cli : List CliBind} {tab : BindTab} {base : Path} {calls : List MountCall}
    {s : MountState} (hcli : add_binds cli = some tab) (h : Steps (GuardedStep m cli) ⟨tab, base⟩ calls s)
    {r : CliBind} (hr : r ∈ cli) (hro : r.ro = true) {p : Path} (hp : path_under r.host p = true)
    (hw : ∀ w ∈ cli, w.ro = false → path_under w.host p = false) (hproc : proc_zone_path p = false)
    (readlink : Path → Option Path) : host_ro s.tab readlink p = true := by
  have hkept (s : MountState) (call : MountCall) (s' : MountState) (hs : s.tab.Guards cli)
      (hstep : GuardedStep m cli s call s') : s'.tab.Guards cli := by
    obtain ⟨hguarded, rfl⟩ := hstep
    exact hs.change (mount_call_change m s call) fun b hb => ⟨hb.locked_ro hs.locked_ro, hb.guarded hguarded⟩
  have hguards := Steps.invariant hkept h (add_binds_guards hcli)
  exact hguards.host_ro hr hro hp hw hproc readlink

/-- A guest with one read-only bind, `/data` at `/ro`. -/
def ro_cli : List CliBind := [{ host := "/data".toList, guest := "/ro".toList, ro := true }]

def ro_machine : Machine :=
  { rootfs := "/r".toList, fake_root := true, no_proc := false, no_dev := false, guest_task := fun _ => false }

/-- A bind of a directory of the read-only one, and an attempt to make it
writable. -/
def ro_rebind : List MountCall :=
  [.mount { target := .ok ("/mnt".toList, true), source := .ok ("/ro/sub".toList, "/data/sub".toList), fstype := none,
            flags := G_MS_BIND, backing := .error 0 },
   .mount { target := .ok ("/mnt".toList, true), source := .error 0, fstype := none, flags := G_MS_REMOUNT,
            backing := .error 0 }]

/-- The rebound directory is read-only still. -/
theorem ro_bind_stays_ro_rebound : ∃ tab s, add_binds ro_cli = some tab ∧
    Steps (GuardedStep ro_machine ro_cli) ⟨tab, "/".toList⟩ ro_rebind s ∧
    s.tab.g_nbinds = 2 ∧ host_ro s.tab (fun _ => none) "/data/sub/x".toList = true := by
  have hrun : ∃ tab s, add_binds ro_cli = some tab ∧
      Steps (GuardedStep ro_machine ro_cli) ⟨tab, "/".toList⟩ ro_rebind s ∧ s.tab.g_nbinds = 2 := by
    refine ⟨_, _, rfl, .cons ⟨?_, rfl⟩ <| .cons ⟨trivial, rfl⟩ <| .nil _, rfl⟩
    rintro scanon shost ⟨⟩
    refine .inl ⟨0, _, by decide, rfl, rfl, rfl, fun j c hc _ hj => ?_⟩
    rcases slots.update_some hc with ⟨rfl, -⟩ | ⟨-, hold⟩
    · exact absurd rfl hj
    · cases hold
  obtain ⟨tab, s, hcli, hsteps, hn⟩ := hrun
  exact ⟨tab, s, hcli, hsteps, hn, ro_bind_stays_ro hcli hsteps (.head _) rfl rfl (by decide) rfl _⟩

/-- The guest roots itself in the read-only tree and pivots on the spot: the old
root is mounted again over the bind, writable. -/
theorem pivot_root_unlocks : ∃ tab s, add_binds ro_cli = some tab ∧
    Steps (MountStep ro_machine) ⟨tab, "/".toList⟩ [.chroot "/ro".toList, .pivot_root "/ro".toList "/ro".toList] s ∧
    canon_to_host ro_machine s.tab "/ro/x".toList = .ok "/data/x".toList ∧
    host_ro tab (fun _ => none) "/data/x".toList = true ∧
    host_ro s.tab (fun _ => none) "/data/x".toList = false :=
  ⟨_, _, rfl, .cons rfl <| .cons rfl <| .nil _, rfl, rfl, rfl⟩

end arm64emu
