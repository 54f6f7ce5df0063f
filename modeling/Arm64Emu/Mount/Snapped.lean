import Mathlib
import Arm64Emu.Mount.Snapshot

namespace arm64emu

open List Option

open Function

open seqlock transition

section contents

structure FilledWith (cells : BindCell → Nat) (a : BindArgs) (sq : Nat) : Prop where
  guest : HoldsStr BindCell.guest cells a.guest
  host : HoldsStr BindCell.host cells a.host
  hroot : cells .hroot = a.hroot
  seq : cells .seq = sq

def StoredUpTo (cells : BindCell → Nat) (a : BindArgs) (n : Nat) : Prop :=
  ∀ i < n, ∀ c v, (fill_stores a)[i]? = some (c, v) → cells c = v

theorem str_stores_fst (f : Nat → BindCell) (s : List Nat) :
    (str_stores f s).map Prod.fst = (List.range (s.length + 1)).map f := by
  simp [str_stores, comp_def]

theorem fill_stores_nodup (a : BindArgs) : ((fill_stores a).map Prod.fst).Nodup := by
  simp only [fill_stores, map_append, str_stores_fst, map_singleton]
  have hguest : Injective BindCell.guest := fun _ _ h => BindCell.guest.inj h
  have hhost : Injective BindCell.host := fun _ _ h => BindCell.host.inj h
  refine List.Nodup.append (nodup_range.map hguest)
    (List.Nodup.append (nodup_range.map hhost) (nodup_singleton _) ?_) ?_
  · intro c hc hc'
    obtain ⟨j, -, rfl⟩ := mem_map.1 hc
    simp at hc'
  intro c hc hc'
  obtain ⟨j, -, rfl⟩ := mem_map.1 hc
  simp at hc'

theorem seq_not_stored (a : BindArgs) (v : Nat) : (BindCell.seq, v) ∉ fill_stores a := by
  simp [fill_stores, str_stores]

variable {cells : BindCell → Nat} {a : BindArgs}

theorem StoredUpTo.store {n : Nat} (h : StoredUpTo cells a n) {c : BindCell}
    {v : Nat} (hn : (fill_stores a)[n]? = some (c, v)) : StoredUpTo (update cells c v) a (n + 1) := by
  intro i hi c' v' hi'
  rcases Nat.lt_succ_iff_lt_or_eq.1 hi with hlt | rfl
  · have hne : c' ≠ c := fun heq => by
      have hfst (k : Nat) (p : BindCell × Nat) (hk : (fill_stores a)[k]? = some p) :
          ((fill_stores a).map Prod.fst)[k]? = some p.1 := by rw [List.getElem?_map, hk, map_some]
      have hi'' := hfst i _ hi'
      have hn' := hfst n _ hn
      obtain ⟨hilt, hieq⟩ := List.getElem?_eq_some_iff.1 hi''
      obtain ⟨hnlt, hneq⟩ := List.getElem?_eq_some_iff.1 hn'
      have := (fill_stores_nodup a).getElem_inj_iff.1 (hieq.trans (heq.trans hneq.symm))
      omega
    rw [update_of_ne hne]
    exact h i hlt c' v' hi'
  rw [hn] at hi'
  obtain ⟨rfl, rfl⟩ := Prod.mk.inj (some.inj hi')
  exact update_self _ _ _

def Stored (cells : BindCell → Nat) (a : BindArgs) : Prop := ∀ c v, (c, v) ∈ fill_stores a → cells c = v

theorem StoredUpTo.all {n : Nat} (h : StoredUpTo cells a n)
    (hn : (fill_stores a)[n]? = none) : Stored cells a := by
  intro c v hmem
  obtain ⟨i, hi⟩ := mem_iff_getElem?.1 hmem
  have hlen := List.getElem?_eq_none_iff.1 hn
  exact h i (Nat.lt_of_lt_of_le (List.getElem?_eq_some_iff.1 hi).1 hlen) c v hi

theorem Stored.store_seq (h : Stored cells a) (sq : Nat) : Stored (update cells .seq sq) a := by
  intro c v hmem
  have hne : c ≠ .seq := fun heq => seq_not_stored a v (heq ▸ hmem)
  rw [update_of_ne hne]
  exact h c v hmem

theorem holdsStr_of_stores {f : Nat → BindCell} {s : List Nat}
    (h : ∀ c v, (c, v) ∈ str_stores f s → cells c = v) (hs : ∀ c ∈ s, c ≠ 0) : HoldsStr f cells s := by
  have hcell (j : Nat) (hj : j < s.length + 1) : cells (f j) = s.getD j 0 :=
    h _ _ (mem_map.2 ⟨j, mem_range.2 hj, rfl⟩)
  refine ⟨fun j hj => hcell j (Nat.lt_succ_of_lt hj), ?_, hs⟩
  rw [hcell _ (Nat.lt_succ_self _), getD_eq_default _ _ (Nat.le_refl _)]

theorem Stored.filled (h : Stored cells a) {sq : Nat} (hseq : cells .seq = sq) : FilledWith cells a sq where
  guest := holdsStr_of_stores (fun c v hmem => h c v (mem_append_left _ hmem)) a.guest_chars
  host := holdsStr_of_stores (fun c v hmem => h c v (mem_append_right _ (mem_append_left _ hmem))) a.host_chars
  hroot := h _ _ (mem_append_right _ (mem_append_right _ (mem_singleton_self _)))
  seq := hseq

structure SnapBody.Of (req : SnapReq) (g : SnapBody) (a : BindArgs) (sq : Nat) : Prop where
  glen : g.glen = a.guest.length
  guest : g.guest = if req.guest_out then some (a.guest ++ [0]) else none
  host : g.host = if req.host_out then some (a.host ++ [0]) else none
  hl : g.hl = if req.host_out then a.host.length else 0
  seq : g.seq = sq

theorem FilledWith.reads {sq : Nat} (h : FilledWith cells a sq)
    {req : SnapReq} {g : SnapBody} (hread : (snap_reads req).eval cells = .got g) : g.Of req a sq := by
  have hglen : (strnlen BindCell.guest PATH_MAX 0).eval cells = a.guest.length := by
    have := a.guest_fits
    exact h.guest.eval_strnlen (Nat.zero_le _) (by omega)
  have hhlen : (strnlen BindCell.host PATH_MAX 0).eval cells = a.host.length := by
    have := a.host_fits
    exact h.host.eval_strnlen (Nat.zero_le _) (by omega)
  have hgfits : ¬ PATH_MAX ≤ a.guest.length := by
    have := a.guest_fits
    omega
  have hhfits : ¬ PATH_MAX ≤ a.host.length := by
    have := a.host_fits
    omega
  have hhost : (snap_host_reads req.host_out).eval cells =
      some (if req.host_out then a.host.length else 0, if req.host_out then some (a.host ++ [0]) else none) := by
    rw [snap_host_reads]
    cases req.host_out
    · rfl
    · rw [if_pos rfl, LoadProg.eval_bind, hhlen, if_neg hhfits, LoadProg.eval_bind, h.host.eval_memcpy]
      rfl
  have hguest : (snap_guest_reads req.guest_out a.guest.length).eval cells =
      if req.guest_out then some (a.guest ++ [0]) else none := by
    rw [snap_guest_reads]
    cases req.guest_out
    · rfl
    · rw [if_pos rfl, LoadProg.eval_bind, h.guest.eval_memcpy]
      rfl
  rw [snap_reads, LoadProg.eval_bind, hglen, if_neg hgfits, LoadProg.eval_bind] at hread
  split at hread
  · rw [LoadProg.eval_bind, hhost] at hread
    dsimp only at hread
    rw [LoadProg.eval_bind, hguest, LoadProg.eval_load, LoadProg.eval_done, h.seq] at hread
    obtain rfl := SnapRead.got.inj hread
    exact ⟨rfl, rfl, rfl, rfl, rfl⟩
  · cases hread

end contents

section invariant

variable {ι : Type}

/-- A `bind_add` has published the slot with this, or has only that left to do. -/
def BindSlot.Placed (s : BindSlot ι) (a : BindArgs) (sq : Nat) : Prop :=
  (a, sq) ∈ s.published ∨ ∃ x, s.adder x = .publish a sq

def AddPc.Done (cells : BindCell → Nat) : AddPc → Prop
  | .fill a n => StoredUpTo cells a n
  | .number a | .store_seq a _ => Stored cells a
  | .close a sq => FilledWith cells a sq
  | _ => True

structure Snap.Of (req : SnapReq) (r : Snap) (a : BindArgs) (sq : Nat) : Prop where
  glen : r.glen = a.guest.length
  guest : r.guest = if req.guest_out then some (a.guest ++ [0]) else none
  host : r.host = if req.host_out then some (a.host ++ [0]) else none
  seq : r.seq = sq
  hroot : r.hroot =
    if req.hroot_out then some (min a.hroot (if req.host_out then a.host.length else 0)) else none

/-- The trusted length is still there if the lock was not bumped. -/
structure BindSlot.Kept (s : BindSlot ι) (c : Nat) (a : BindArgs) : Prop where
  even : Even c
  le : c ≤ s.lock.bumps
  hroot : s.lock.bumps = c → s.lock.cells .hroot = a.hroot

def SnapPc.Ok (s : BindSlot ι) : SnapPc → Prop
  | .lock .. => 2 ≤ s.lock.bumps
  | .reading req _ c rest => Reading s.lock c (snap_reads req) rest ∧ 2 ≤ c
  | .again req _ c g => Reading s.lock c (snap_reads req) (.done (.got g)) ∧ 2 ≤ c
  | .live req c g => ∃ a sq, s.Placed a sq ∧ g.Of req a sq ∧ s.Kept c a
  | .hroot req c g => req.hroot_out = true ∧ ∃ a sq, (a, sq) ∈ s.published ∧ g.Of req a sq ∧ s.Kept c a
  | .out req (some r) => ∃ a sq, (a, sq) ∈ s.published ∧ r.Of req a sq
  | _ => True

structure BindSlot.Ok (s : BindSlot ι) : Prop where
  alone : ∀ x y, s.adder x ≠ .idle → s.adder y ≠ .idle → x = y
  busy : ∀ x, s.adder x ≠ .idle → s.active = -1
  used : s.active = 1 → 2 ≤ s.lock.bumps
  ready : ∀ x a sq, s.adder x = .publish a sq → 2 ≤ s.lock.bumps
  odd : ∀ x, (s.adder x).opened = true → ¬ Even s.lock.bumps
  even : (∀ x, (s.adder x).opened = false) → Even s.lock.bumps
  filled : Even s.lock.bumps → 2 ≤ s.lock.bumps → ∃ a sq, s.Placed a sq ∧ FilledWith s.lock.cells a sq
  stored : ∀ x, (s.adder x).Done s.lock.cells
  snap : s.snap.Ok s

structure BindSlot.Grows (s s' : BindSlot ι) : Prop where
  le : s.lock.bumps ≤ s'.lock.bumps
  cells : s'.lock.bumps = s.lock.bumps → Even s.lock.bumps → s'.lock.cells = s.lock.cells
  placed : ∀ a sq, s.Placed a sq → s'.Placed a sq
  published : ∀ b ∈ s.published, b ∈ s'.published

variable {s s' : BindSlot ι}

theorem BindSlot.Kept.mono {c : Nat} {a : BindArgs} (h : s.Kept c a) (hgrows : s.Grows s') : s'.Kept c a := by
  refine ⟨h.even, Nat.le_trans h.le hgrows.le, fun heq => ?_⟩
  have hsame : s.lock.bumps = c := Nat.le_antisymm (heq ▸ hgrows.le) h.le
  rw [hgrows.cells (heq.trans hsame.symm) (hsame ▸ h.even)]
  exact h.hroot hsame

theorem SnapPc.Ok.mono {p : SnapPc} (h : p.Ok s) (hgrows : s.Grows s') : p.Ok s' := by
  cases p with
  | idle => trivial
  | active => trivial
  | lock => exact Nat.le_trans h hgrows.le
  | reading | again => exact ⟨h.1.mono hgrows.le hgrows.cells, h.2⟩
  | live =>
    obtain ⟨a, sq, hplaced, hof, hkept⟩ := h
    exact ⟨a, sq, hgrows.placed a sq hplaced, hof, hkept.mono hgrows⟩
  | hroot =>
    obtain ⟨hout, a, sq, hpub, hof, hkept⟩ := h
    exact ⟨hout, a, sq, hgrows.published _ hpub, hof, hkept.mono hgrows⟩
  | out req r =>
    cases r with
    | none => trivial
    | some r =>
      obtain ⟨a, sq, hpub, hof⟩ := h
      exact ⟨a, sq, hgrows.published _ hpub, hof⟩

end invariant

section adders

variable {ι : Type} {s : BindSlot ι} {x : ι}

theorem BindSlot.Ok.others (h : s.Ok) (hx : s.adder x ≠ .idle) {y : ι} (hy : y ≠ x) : s.adder y = .idle := by
  by_contra hne
  exact hy (h.alone y x hne hx)

variable [DecidableEq ι]

theorem BindSlot.Ok.moves (h : s.Ok) (hx : s.adder x ≠ .idle) (hpub : ∀ a sq, s.adder x ≠ .publish a sq)
    {p : AddPc} {lock : Locked BindCell Nat} (g_bindseq : Nat) (hle : s.lock.bumps ≤ lock.bumps)
    (hcells : lock.bumps = s.lock.bumps → Even s.lock.bumps → lock.cells = s.lock.cells)
    (hparity : p.opened = true ↔ ¬ Even lock.bumps) (hdone : p.Done lock.cells)
    (hplaced : Even lock.bumps → 2 ≤ lock.bumps ∧ ∃ a sq, p = .publish a sq ∧ FilledWith lock.cells a sq) :
    ({ s with lock, g_bindseq, adder := update s.adder x p } : BindSlot ι).Ok := by
  have hactive := h.busy x hx
  have hother (y : ι) (hy : y ≠ x) : update s.adder x p y = .idle := by
    rw [update_of_ne hy]
    exact h.others hx hy
  have hidle (y : ι) (hne : update s.adder x p y ≠ .idle) : y = x := by
    by_contra hy
    exact hne (hother y hy)
  have hgrows : s.Grows { s with lock, g_bindseq, adder := update s.adder x p } := by
    refine ⟨hle, hcells, fun a sq hpl => ?_, fun b hb => hb⟩
    rcases hpl with hmem | ⟨y, hy⟩
    · exact .inl hmem
    have hyx : y ≠ x := fun heq => hpub a sq (heq ▸ hy)
    have := h.others hx hyx
    rw [hy] at this
    cases this
  refine ⟨fun y z hy hz => (hidle y hy).trans (hidle z hz).symm, fun _ _ => hactive, fun hone => ?_,
    fun y a sq hy => ?_, fun y hy => ?_, fun hall => ?_, fun heven _ => ?_, fun y => ?_, h.snap.mono hgrows⟩
  · rw [show s.active = 1 from hone] at hactive
    cases hactive
  · dsimp only at hy
    have hyx : y = x := hidle y (by rw [hy]; nofun)
    subst hyx
    have hp' : p = .publish a sq := (update_self y p s.adder).symm.trans hy
    exact (hplaced (by
      by_contra hodd
      have := hparity.2 hodd
      rw [hp'] at this
      cases this)).1
  · dsimp only at hy
    have hyx : y = x := hidle y fun heq => by
      rw [heq] at hy
      cases hy
    subst hyx
    rw [update_self] at hy
    exact hparity.1 hy
  · have hclosed := hall x
    dsimp only at hclosed
    rw [update_self] at hclosed
    by_contra hodd
    rw [hparity.2 hodd] at hclosed
    cases hclosed
  · obtain ⟨-, a, sq, hpa, hfilled⟩ := hplaced heven
    exact ⟨a, sq, .inr ⟨x, (update_self x p s.adder).trans hpa⟩, hfilled⟩
  show (update s.adder x p y).Done lock.cells
  by_cases hy : y = x
  · rw [hy, update_self]
    exact hdone
  · rw [hother y hy]
    trivial

theorem BindSlot.Ok.writes (h : s.Ok) (hx : (s.adder x).opened = true) {p : AddPc} {lock : Locked BindCell Nat}
    (g_bindseq : Nat) (hdone : p.Done lock.cells) (hp : p.opened = true) (hbumps : lock.bumps = s.lock.bumps) :
    ({ s with lock, g_bindseq, adder := update s.adder x p } : BindSlot ι).Ok := by
  have hodd := h.odd x hx
  refine h.moves (fun hidle => ?_) (fun a sq hpub => ?_) g_bindseq hbumps.ge (fun _ heven => absurd heven hodd)
    ⟨fun _ => hbumps ▸ hodd, fun _ => hp⟩ hdone fun heven => absurd (hbumps ▸ heven) hodd
  · rw [hidle] at hx
    cases hx
  · rw [hpub] at hx
    cases hx

theorem BindSlot.Ok.publish (h : s.Ok) {a : BindArgs} {sq : Nat} (hx : s.adder x = .publish a sq) :
    ({ s with active := 1, adder := update s.adder x .idle, published := (a, sq) :: s.published } :
      BindSlot ι).Ok := by
  have hne : s.adder x ≠ .idle := by rw [hx]; nofun
  have hidle (y : ι) : update s.adder x AddPc.idle y = .idle := by
    by_cases hy : y = x
    · rw [hy, update_self]
    · rw [update_of_ne hy]
      exact h.others hne hy
  have hplaced (a' : BindArgs) (sq' : Nat) (hpl : s.Placed a' sq') : (a', sq') ∈ (a, sq) :: s.published := by
    rcases hpl with hmem | ⟨y, hy⟩
    · exact .tail _ hmem
    have hyx : y = x := h.alone y x (by rw [hy]; nofun) hne
    rw [hyx, hx] at hy
    obtain ⟨rfl, rfl⟩ := AddPc.publish.inj hy
    exact .head _
  refine ⟨fun y z hy => absurd (hidle y) hy, fun y hy => absurd (hidle y) hy, fun _ => h.ready x a sq hx,
    fun y a' sq' hy => ?_, fun y hy => ?_, fun _ => h.even fun y => ?_, fun heven htwo => ?_, fun y => ?_,
    h.snap.mono ⟨Nat.le_refl _, fun _ _ => rfl, fun a' sq' hpl => .inl (hplaced a' sq' hpl),
      fun b hb => .tail _ hb⟩⟩
  · cases (hidle y).symm.trans hy
  · dsimp only at hy
    rw [hidle y] at hy
    cases hy
  · by_cases hy : y = x
    · rw [hy, hx]
      rfl
    · rw [h.others hne hy]
      rfl
  · obtain ⟨a', sq', hpl, hfilled⟩ := h.filled heven htwo
    exact ⟨a', sq', .inl (hplaced a' sq' hpl), hfilled⟩
  show (update s.adder x .idle y).Done s.lock.cells
  rw [hidle y]
  trivial

theorem BindSlot.Ok.go (h : s.Ok) (x : ι) : (add_go s x (s.adder x)).Ok := by
  cases hx : s.adder x with
  | idle => exact h
  | claimed a =>
    have hne : s.adder x ≠ .idle := by rw [hx]; nofun
    have heven : Even s.lock.bumps := h.even fun y => by
      by_cases hy : y = x
      · rw [hy, hx]
        rfl
      · rw [h.others hne hy]
        rfl
    have hodd : ¬ Even (s.lock.bumps + 1) := by rw [Nat.even_add_one, not_not]; exact heven
    refine h.moves hne (by rw [hx]; nofun) s.g_bindseq (Nat.le_succ _) (fun _ _ => rfl)
      ⟨fun _ => hodd, fun _ => rfl⟩ (fun i hi => absurd hi (Nat.not_lt_zero i)) fun heven' => absurd heven' hodd
  | fill a n =>
    have hstored : StoredUpTo s.lock.cells a n := by
      have := h.stored x
      rwa [hx] at this
    rw [add_go]
    cases hget : (fill_stores a)[n]? with
    | none => exact h.writes (by rw [hx]; rfl) s.g_bindseq (hstored.all hget) rfl rfl
    | some cv => exact h.writes (by rw [hx]; rfl) s.g_bindseq (hstored.store hget) rfl rfl
  | number a =>
    have hstored : Stored s.lock.cells a := by
      have := h.stored x
      rwa [hx] at this
    exact h.writes (by rw [hx]; rfl) _ hstored rfl rfl
  | store_seq a sq =>
    have hstored : Stored s.lock.cells a := by
      have := h.stored x
      rwa [hx] at this
    exact h.writes (by rw [hx]; rfl) s.g_bindseq
      ((hstored.store_seq sq).filled (update_self _ _ _)) rfl rfl
  | close a sq =>
    have hne : s.adder x ≠ .idle := by rw [hx]; nofun
    have hodd := h.odd x (by rw [hx]; rfl)
    have hfilled : FilledWith s.lock.cells a sq := by
      have := h.stored x
      rwa [hx] at this
    have heven : Even (s.lock.bumps + 1) := by rwa [Nat.even_add_one]
    have htwo : 2 ≤ s.lock.bumps + 1 := by
      rcases Nat.eq_zero_or_pos s.lock.bumps with hzero | hpos
      · rw [hzero] at hodd
        exact absurd (by decide) hodd
      · omega
    exact h.moves hne (by rw [hx]; nofun) s.g_bindseq (Nat.le_succ _) (fun _ _ => rfl)
      ⟨nofun, fun hn => absurd heven hn⟩ trivial fun _ => ⟨htwo, a, sq, rfl, hfilled⟩
  | publish a sq => exact h.publish hx

end adders

section runs

variable {ι : Type} {s s' : BindSlot ι}

theorem snap_retry_ok (s : BindSlot ι) (req : SnapReq) (n : Nat) : (snap_retry req n).Ok s := by
  unfold snap_retry
  split
  · trivial
  · trivial

theorem BindSlot.Ok.of_same (h : s.Ok) {active : Int} {p : SnapPc} (g_bindseq : Nat)
    (hbusy : ∀ x, s.adder x ≠ .idle → active = -1) (hused : active = 1 → 2 ≤ s.lock.bumps) (hp : p.Ok s) :
    ({ s with active, g_bindseq, snap := p } : BindSlot ι).Ok :=
  { h with
    busy := hbusy, used := hused
    snap := hp.mono ⟨Nat.le_refl _, fun _ _ => rfl, fun _ _ hpl => hpl, fun _ hb => hb⟩ }

/-- The reader's next load, the lock not having come round and the slot not being
refilled. -/
theorem BindSlot.Ok.read (h : s.Ok) (htimely : s.snap.Timely s.lock.bumps) : (snap_go s s.snap).Ok s := by
  have hsnap := h.snap
  cases hpc : s.snap with
  | idle => trivial
  | active req n =>
    rw [snap_go]
    split
    case isTrue => trivial
    case isFalse hone => exact h.used (not_not.1 hone)
  | lock req n =>
    rw [hpc] at hsnap
    rw [snap_go]
    split
    case isTrue => exact snap_retry_ok s req n
    case isFalse heven => exact ⟨.start (Nat.even_iff.2 (by omega)) _, hsnap⟩
  | reading req n c rest =>
    rw [hpc] at hsnap
    cases rest with
    | load x k => exact ⟨hsnap.1.load, hsnap.2⟩
    | done r =>
      rw [snap_go]
      cases r with
      | retry => exact snap_retry_ok s req n
      | miss => trivial
      | got g => exact hsnap
  | again req n c g =>
    rw [hpc] at hsnap htimely
    obtain ⟨hreading, htwo⟩ := hsnap
    rw [snap_go]
    split
    case isTrue => exact snap_retry_ok s req n
    case isFalse hmod =>
      -- the lock is where it was, so the reads saw the slot hold still
      have hsame : s.lock.bumps = c := by
        have hle := hreading.le
        have hlt : s.lock.bumps < c + 2 ^ 32 := htimely
        omega
      have heven : Even s.lock.bumps := hsame ▸ hreading.even
      obtain ⟨a, sq, hplaced, hfilled⟩ := h.filled heven (hsame ▸ htwo)
      exact ⟨a, sq, hplaced, hfilled.reads (hreading.agree hsame).symm,
        ⟨hreading.even, hreading.le, fun _ => hfilled.hroot⟩⟩
  | live req c g =>
    rw [hpc] at hsnap
    obtain ⟨a, sq, hplaced, hof, hkept⟩ := hsnap
    rw [snap_go]
    split
    case isTrue => trivial
    case isFalse hone =>
      have hpub : (a, sq) ∈ s.published := by
        rcases hplaced with hmem | ⟨x, hx⟩
        · exact hmem
        have hactive := h.busy x (by rw [hx]; nofun)
        rw [not_not.1 hone] at hactive
        cases hactive
      split
      case isTrue hout => exact ⟨hout, a, sq, hpub, hof, hkept⟩
      case isFalse hout => exact ⟨a, sq, hpub, { hof with hroot := (if_neg hout).symm }⟩
  | hroot req c g =>
    rw [hpc] at hsnap htimely
    obtain ⟨hout, a, sq, hpub, hof, hkept⟩ := hsnap
    refine ⟨a, sq, hpub, { hof with hroot := ?_ }⟩
    rw [if_pos hout, ← hof.hl, ← hkept.hroot htimely]
    rfl
  | out req r =>
    rw [hpc] at hsnap
    exact hsnap

theorem BindSlot.Ok.init : (BindSlot.init ι).Ok where
  alone _ _ hx := absurd rfl hx
  busy _ hx := absurd rfl hx
  used := nofun
  ready := nofun
  odd := nofun
  even _ := Even.zero
  filled _ htwo := absurd htwo (show ¬ 2 ≤ 0 by decide)
  stored _ := trivial
  snap := trivial

variable [DecidableEq ι]

theorem BindSlot.Ok.claim (h : s.Ok) (hfree : s.active = 0) (x : ι) (a : BindArgs) :
    ({ s with active := -1, adder := update s.adder x (.claimed a) } : BindSlot ι).Ok := by
  have hidle (y : ι) : s.adder y = .idle := by
    by_contra hne
    have := h.busy y hne
    omega
  have hpc (y : ι) (hy : y ≠ x) : update s.adder x (.claimed a) y = .idle :=
    (update_of_ne hy _ _).trans (hidle y)
  have hclosed (y : ι) : (update s.adder x (.claimed a) y).opened = false ∧
      (∀ a' sq, update s.adder x (.claimed a) y ≠ .publish a' sq) ∧
      (update s.adder x (.claimed a) y).Done s.lock.cells := by
    by_cases hy : y = x
    · rw [hy, update_self]
      exact ⟨rfl, nofun, trivial⟩
    · rw [hpc y hy]
      exact ⟨rfl, nofun, trivial⟩
  have heven : Even s.lock.bumps := h.even fun y => by rw [hidle y]; rfl
  have hplaced (a' : BindArgs) (sq : Nat) (hpl : s.Placed a' sq) : (a', sq) ∈ s.published := by
    rcases hpl with hmem | ⟨y, hy⟩
    · exact hmem
    · rw [hidle y] at hy
      cases hy
  have hmine (y : ι) (hy : update s.adder x (.claimed a) y ≠ .idle) : y = x := by
    by_contra hne
    exact hy (hpc y hne)
  refine ⟨fun y z hy hz => (hmine y hy).trans (hmine z hz).symm, fun _ _ => rfl, nofun,
    fun y a' sq hy => absurd hy ((hclosed y).2.1 a' sq), fun y hy => ?_, fun _ => heven, fun he htwo => ?_,
    fun y => (hclosed y).2.2, h.snap.mono ⟨Nat.le_refl _, fun _ _ => rfl, fun a' sq hpl => .inl (hplaced a' sq hpl),
      fun _ hb => hb⟩⟩
  · rw [show (update s.adder x (.claimed a) y).opened = false from (hclosed y).1] at hy
    cases hy
  · obtain ⟨a', sq, hpl, hfilled⟩ := h.filled he htwo
    exact ⟨a', sq, .inl (hplaced a' sq hpl), hfilled⟩

theorem BindSlot.Ok.step {act : BindAct ι} (h : s.Ok) (hstep : TimelyStep s act s') : s'.Ok := by
  obtain ⟨rfl, htimely⟩ := hstep
  cases act with
  | add x a =>
    rw [slot_act]
    cases s.adder x with
    | idle =>
      dsimp only
      split
      case isTrue hfree => exact h.claim hfree x a
      case isFalse => exact h
    | _ => exact h
  | go x => exact h.go x
  | remove =>
    rw [slot_act]
    split
    case isTrue hone =>
      refine h.of_same s.g_bindseq (fun x hx => ?_) nofun h.snap
      have := h.busy x hx
      omega
    case isFalse => exact h
  | other => exact h.of_same _ h.busy h.used h.snap
  | snap req =>
    rw [slot_act]
    cases hpc : s.snap with
    | idle | out req' r => exact h.of_same _ h.busy h.used trivial
    | _ => exact h
  | read => exact h.of_same _ h.busy h.used (h.read (htimely rfl))

/-- If the lock does not come round between a reader's two looks at it, nor the slot get refilled before the load of
the trusted length, a snapshot that is returned is of one `bind_add`. -/
theorem snapshots_whole {acts : List (BindAct ι)} (h : Steps TimelyStep (.init ι) acts s) {req : SnapReq} {r : Snap}
    (hout : s.snap = .out req (some r)) : ∃ a sq, (a, sq) ∈ s.published ∧ r.Of req a sq := by
  have hok : s.Ok := h.invariant (fun _ _ _ hs => hs.step) .init
  have hsnap := hok.snap
  rw [hout] at hsnap
  exact hsnap

def timely_run (s : BindSlot ι) : List (BindAct ι) → Option (BindSlot ι)
  | [] => some s
  | .read :: acts =>
    match s.snap with
    | .again _ _ c _ => if s.lock.bumps < c + 2 ^ 32 then timely_run (slot_act s .read) acts else none
    | .hroot _ c _ => if s.lock.bumps = c then timely_run (slot_act s .read) acts else none
    | _ => timely_run (slot_act s .read) acts
  | act :: acts => timely_run (slot_act s act) acts

theorem timely_run_steps {acts : List (BindAct ι)} (h : timely_run s acts = some s') : Steps TimelyStep s acts s' := by
  induction acts generalizing s with
  | nil => exact some.inj h ▸ .nil s
  | cons act acts ih =>
    cases act with
    | read =>
      rw [timely_run] at h
      cases hpc : s.snap with
      | again req n c g =>
        rw [hpc] at h
        obtain ⟨hlt, h⟩ := ite_none_right_eq_some.1 h
        exact .cons ⟨rfl, fun _ => hpc ▸ hlt⟩ (ih h)
      | hroot req c g =>
        rw [hpc] at h
        obtain ⟨heq, h⟩ := ite_none_right_eq_some.1 h
        exact .cons ⟨rfl, fun _ => hpc ▸ heq⟩ (ih h)
      | _ =>
        rw [hpc] at h
        exact .cons ⟨rfl, fun _ => hpc ▸ trivial⟩ (ih h)
    | _ => exact .cons ⟨rfl, nofun⟩ (ih h)

theorem slot_steps (acts : List (BindAct ι)) (s : BindSlot ι) : Steps SlotStep s acts (acts.foldl slot_act s) := by
  induction acts generalizing s with
  | nil => exact .nil s
  | cons act acts ih => exact .cons rfl (ih _)

def SnapPc.result : SnapPc → Option (SnapReq × Snap)
  | .out req (some r) => some (req, r)
  | _ => none

theorem SnapPc.out_of_result {p : SnapPc} {req : SnapReq} {r : Snap} (h : p.result = some (req, r)) :
    p = .out req (some r) := by
  cases p with
  | out req' r' =>
    cases r' with
    | none => cases h
    | some r' =>
      obtain ⟨rfl, rfl⟩ := Prod.mk.inj (some.inj h)
      rfl
  | _ => cases h

def untrusted_mount : BindArgs :=
  ⟨[47, 97], [47, 120, 121], 0, by decide, by decide, by decide, by decide⟩

def trusted_mount : BindArgs := ⟨[47, 98], [47, 122], 2, by decide, by decide, by decide, by decide⟩

def whole_req : SnapReq := ⟨none, true, true, true⟩

def mount_acts (x : Bool) (a : BindArgs) (n : Nat) : List (BindAct Bool) := .add x a :: List.replicate n (.go x)

/-- A snapshot of the untrusted mount, taken whole. -/
theorem snapshots_whole_untrusted : ∃ s : BindSlot Bool, ∃ r : Snap,
    Steps TimelyStep (.init Bool)
      (mount_acts false untrusted_mount 14 ++ .snap whole_req :: List.replicate 21 .read) s ∧
    r = ⟨2, some [47, 97, 0], some [47, 120, 121, 0], 1, some 0⟩ ∧ s.snap = .out whole_req (some r) ∧
    ∃ a sq, (a, sq) ∈ s.published ∧ r.Of whole_req a sq := by
  have hrun : ((timely_run (.init Bool) (mount_acts false untrusted_mount 14 ++
      .snap whole_req :: List.replicate 21 .read)).bind fun s => s.snap.result) =
      some (whole_req, ⟨2, some [47, 97, 0], some [47, 120, 121, 0], 1, some 0⟩) := by decide +kernel
  obtain ⟨s, hs, hresult⟩ := bind_eq_some_iff.1 hrun
  have hout := SnapPc.out_of_result hresult
  have hsteps := timely_run_steps hs
  exact ⟨s, _, hsteps, rfl, hout, snapshots_whole hsteps hout⟩

/-- The reader has passed its last test when the mount is replaced in its slot: it returns the first one's path as
trusted as the second's. -/
def refill_acts : List (BindAct Bool) :=
  mount_acts false untrusted_mount 14 ++ .snap whole_req :: List.replicate 20 .read ++
    .remove :: (mount_acts true trusted_mount 13 ++ [.read])

/-- The slot is freed and filled again between the reader's last test and its last load. -/
theorem refilled_snapshot_mixed : ∃ s : BindSlot Bool, ∃ r : Snap,
    Steps SlotStep (.init Bool) refill_acts s ∧ s.snap = .out whole_req (some r) ∧
    r = ⟨2, some [47, 97, 0], some [47, 120, 121, 0], 1, some 2⟩ ∧ untrusted_mount.hroot = 0 ∧
    ∀ a sq, (a, sq) ∈ s.published → ¬ r.Of whole_req a sq := by
  refine ⟨refill_acts.foldl slot_act (.init Bool), _, slot_steps _ _, SnapPc.out_of_result ?_, rfl, rfl, ?_⟩
  · decide +kernel
  intro a sq hmem hof
  have hpublished : (refill_acts.foldl slot_act (.init Bool)).published.map (fun b => (b.1.hroot, b.2)) =
      [(2, 2), (0, 1)] := by decide +kernel
  have hmem : (a.hroot, sq) ∈ [(2, 2), (0, 1)] := hpublished ▸ mem_map_of_mem hmem
  have hseq : 1 = sq := hof.seq
  have hhroot : some 2 = some (min a.hroot a.host.length) := hof.hroot
  have htwo := some.inj hhroot
  simp only [mem_cons, Prod.mk.injEq, not_mem_nil, or_false] at hmem
  omega

end runs

end arm64emu
