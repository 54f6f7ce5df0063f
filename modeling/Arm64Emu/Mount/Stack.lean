import Mathlib
import Arm64Emu.Mount.ReadOnly

open transition

namespace arm64emu

open List Option

open Function

/-- A mount of the abstract namespace. -/
structure Mnt where
  guest : Path
  host : Path
  locked : Bool
  deriving DecidableEq

def mnt_covers (point path : Path) : Bool := point == ['/'] || path_under point path

def within (point path : Path) : Path :=
  if point = ['/'] then (if path = ['/'] then [] else path) else path.drop point.length

/-- The mount a path is reached through, the newest first: a mount hides everything at and below its point. -/
def ns_lookup (ns : List Mnt) (canon : Path) : Option Mnt := ns.find? fun t => mnt_covers t.guest canon

def ns_to_host (m : Machine) (ns : List Mnt) (canon : Path) : Except Int Path :=
  match ns_lookup ns canon with
  | some t => (join_host t.host (within t.guest canon)).map (rootfs_zone m)
  | none =>
    match m.special_host_path canon with
    | some zone => .ok zone
    | none => to_host m canon

/-- The mounts after an unmount: the path leads to the root of a mount that is not locked, and the mounts below it go
with it if it is detached and keep it busy if not. -/
def ns_umount (detach : Bool) (canon : Path) : List Mnt → Option (List Mnt)
  | [] => none
  | t :: ns =>
    if mnt_covers t.guest canon then if t.guest = canon ∧ t.locked = false then some ns else none
    else (ns_umount detach canon ns).bind fun ns =>
      if mnt_covers canon t.guest then if detach then some ns else none else some (t :: ns)

/-- The calls on the namespace. -/
inductive NsCall where
  | mount (guest host : Path) (ro locked lock_ro : Bool)
  | umount (canon : Path) (detach : Bool)

/-- A table and the namespace it stands for. -/
structure Mounts where
  tab : BindTab
  ns : List Mnt

def Mounts.init : Mounts := ⟨.empty, []⟩

/-- A mount is made of the kernel's when it is made of the table's. -/
def ns_call (s : Mounts) : NsCall → Mounts
  | .mount guest host ro locked lock_ro =>
    let (tab, r) := bind_add s.tab guest host ro locked lock_ro
    if r < 0 then { s with tab } else ⟨tab, ⟨guest, host, locked⟩ :: s.ns⟩
  | .umount canon detach => ⟨(bind_remove s.tab canon).1, (ns_umount detach canon s.ns).getD s.ns⟩

def Mounts.Answers (s : Mounts) : NsCall → Prop
  | .mount .. => True
  | .umount canon detach => (bind_remove s.tab canon).2 = 0 ↔ (ns_umount detach canon s.ns).isSome

def BindTab.ClearBelow (tab : BindTab) (p : Path) : Prop :=
  ∀ i b, tab.slots i = some b → path_under p b.guest = true → b.guest = p

/-- A mount, not of the root, is made with no mount below its point and before the
stack positions run out; an unmount is of a mount with none below it. -/
def NsCall.Clear (s : Mounts) : NsCall → Prop
  | .mount guest .. => guest ≠ ['/'] ∧ s.tab.ClearBelow guest ∧ s.tab.g_bindseq + 1 < 2 ^ 32
  | .umount canon _ => s.tab.ClearBelow canon

def ClearStep (s : Mounts) (call : NsCall) (s' : Mounts) : Prop := call.Clear s ∧ s' = ns_call s call

section tracks

def Bind.mnt (b : Bind) : Mnt := ⟨b.guest, b.host, b.locked⟩

/-- The table's mounts in the order they were made, the newest first. Of two with one
point below the other, the lower is the newer. -/
structure BindTab.Tracks (tab : BindTab) (bs : List Bind) : Prop where
  mem : ∀ b, b ∈ bs ↔ ∃ i, tab.slots i = some b
  bound : ∀ i b, tab.slots i = some b → i < tab.g_nbinds
  sorted : bs.Pairwise fun b b' => b'.seq < b.seq
  seq_le : ∀ b ∈ bs, b.seq ≤ tab.g_bindseq
  slot_inj : ∀ i j b, tab.slots i = some b → tab.slots j = some b → i = j
  deeper : ∀ b ∈ bs, ∀ b' ∈ bs, path_under b.guest b'.guest = true → b.guest ≠ b'.guest → b.seq < b'.seq
  root : ∀ b ∈ bs, b.guest ≠ ['/']

variable {tab : BindTab} {bs : List Bind} {p canon : Path}

theorem find_newest {f : Bind → Bool} {b : Bind} (hsorted : bs.Pairwise fun b b' => b'.seq < b.seq) (hb : b ∈ bs)
    (hf : f b = true) (hmax : ∀ b' ∈ bs, f b' = true → b'.seq ≤ b.seq) : bs.find? f = some b := by
  induction bs with
  | nil => cases hb
  | cons a bs ih =>
    obtain ⟨hhead, htail⟩ := pairwise_cons.1 hsorted
    rcases mem_cons.1 hb with rfl | hb
    · rw [List.find?_cons_of_pos hf]
    have ha : ¬ f a = true := fun ha => by
      have hlt := hhead b hb
      have hle := hmax a (.head _) ha
      omega
    rw [List.find?_cons_of_neg ha]
    exact ih htail hb fun b' hb' => hmax b' (.tail _ hb')

theorem BindTab.Tracks.scan (h : tab.Tracks bs) {f : Bind → Bool}
    (hnest : ∀ b ∈ bs, ∀ b' ∈ bs, f b = true → f b' = true → b.guest.length < b'.guest.length → b.seq < b'.seq) :
    ((bind_scan (fun i => (tab.slots i).bind fun b => if f b then some (b.guest.length, b.seq) else none)
      tab.g_nbinds).map Prod.fst).bind tab.slots = bs.find? f := by
  generalize hc : (fun i => (tab.slots i).bind fun b => if f b then some (b.guest.length, b.seq) else none) = cand
  have hcand (i : Nat) (b : Bind) (hi : tab.slots i = some b) (hf : f b = true) :
      cand i = some (b.guest.length, b.seq) := by
    rw [← hc]
    dsimp only
    rw [hi, bind_some, if_pos hf]
  have hslot (i len sq : Nat) (hi : cand i = some (len, sq)) :
      ∃ b, tab.slots i = some b ∧ f b = true ∧ b.guest.length = len ∧ b.seq = sq := by
    rw [← hc] at hi
    obtain ⟨b, hb, hbcand⟩ := bind_eq_some_iff.1 hi
    obtain ⟨hf, heq⟩ := ite_none_right_eq_some.1 hbcand
    exact ⟨b, hb, hf, Prod.mk.inj (some.inj heq)⟩
  cases hfind : bs.find? f with
  | none =>
    rw [List.find?_eq_none] at hfind
    cases hscan : bind_scan cand tab.g_nbinds with
    | none => rfl
    | some best =>
      obtain ⟨i, len, sq⟩ := best
      obtain ⟨b, hb, hf, -⟩ := hslot i len sq (bind_scan_some hscan).2
      exact absurd hf (hfind b ((h.mem b).2 ⟨i, hb⟩))
  | some b₀ =>
    have hb₀ := mem_of_find?_eq_some hfind
    have hf₀ := List.find?_some hfind
    obtain ⟨i₀, hi₀⟩ := (h.mem b₀).1 hb₀
    -- the scan ends on a mount no other beats
    obtain ⟨j, best, bestseq, hscan, -⟩ := bind_scan_max (h.bound _ _ hi₀) (hcand i₀ b₀ hi₀ hf₀)
    obtain ⟨b, hb, hf, rfl, rfl⟩ := hslot j best bestseq (bind_scan_some hscan).2
    have hbmem := (h.mem b).2 ⟨j, hb⟩
    have hnewest : bs.find? f = some b := by
      refine find_newest h.sorted hbmem hf fun b' hb' hf' => ?_
      obtain ⟨i, hi⟩ := (h.mem b').1 hb'
      obtain ⟨j', l, q, hscan', hmax⟩ := bind_scan_max (h.bound _ _ hi) (hcand i b' hi hf')
      rw [hscan] at hscan'
      cases hscan'
      rcases hmax with hlt | ⟨-, hle⟩
      · exact Nat.le_of_lt (hnest b' hb' b hbmem hf' hf hlt)
      · exact hle
    rw [hscan, ← hfind, hnewest]
    exact hb

theorem BindTab.Tracks.best (h : tab.Tracks bs) (canon : Path) :
    (bind_best tab canon).bind tab.slots = bs.find? fun b => path_under b.guest canon := by
  refine h.scan fun b hb b' hb' hf hf' hlt => ?_
  refine h.deeper b hb b' hb' (path_under_of_length_le hf hf' (Nat.le_of_lt hlt)) fun heq => ?_
  rw [heq] at hlt
  exact Nat.lt_irrefl _ hlt

theorem BindTab.Tracks.top_at (h : tab.Tracks bs) (p : Path) :
    (bind_top_at tab p).bind tab.slots = bs.find? fun b => decide (b.guest = p) := by
  have hscan := h.scan (f := fun b => decide (b.guest = p)) fun b _ b' _ hf hf' hlt => by
    rw [of_decide_eq_true hf, of_decide_eq_true hf'] at hlt
    exact absurd hlt (Nat.lt_irrefl _)
  simp only [decide_eq_true_eq] at hscan
  exact hscan

theorem BindTab.Tracks.lookup (h : tab.Tracks bs) (canon : Path) :
    ns_lookup (bs.map Bind.mnt) canon = (bs.find? fun b => path_under b.guest canon).map Bind.mnt := by
  rw [ns_lookup, List.find?_map]
  congr 1
  refine List.find?_congr fun b hb => ?_
  have hroot := h.root b hb
  simp [mnt_covers, Bind.mnt, hroot]

theorem BindTab.Tracks.to_host (h : tab.Tracks bs) (m : Machine) (canon : Path) :
    canon_to_host m tab canon = ns_to_host m (bs.map Bind.mnt) canon := by
  rw [canon_to_host, ns_to_host, h.lookup, h.best]
  cases hfind : bs.find? fun b => path_under b.guest canon with
  | none => rfl
  | some b =>
    have hroot := h.root b (mem_of_find?_eq_some hfind)
    have hwithin : within b.mnt.guest canon = canon.drop b.guest.length := if_neg hroot
    rw [map_some]
    dsimp only
    rw [hwithin]
    rfl

theorem BindTab.Tracks.umount (hsorted : bs.Pairwise fun b b' => b'.seq < b.seq)
    (hdeeper : ∀ b ∈ bs, ∀ b' ∈ bs, path_under b.guest b'.guest = true → b.guest ≠ b'.guest → b.seq < b'.seq)
    (hroot : ∀ b ∈ bs, b.guest ≠ ['/']) (hclear : ∀ b ∈ bs, path_under canon b.guest = true → b.guest = canon)
    (detach : Bool) :
    ns_umount detach canon (bs.map Bind.mnt) =
      ((bs.find? fun b => decide (b.guest = canon)).bind fun b => if b.locked then none else some (bs.erase b)).map
        (List.map Bind.mnt) := by
  induction bs with
  | nil => rfl
  | cons t bs ih =>
    obtain ⟨hhead, htail⟩ := pairwise_cons.1 hsorted
    have ih := ih htail (fun b hb b' hb' => hdeeper b (.tail _ hb) b' (.tail _ hb'))
      (fun b hb => hroot b (.tail _ hb)) fun b hb => hclear b (.tail _ hb)
    have hcovers : mnt_covers t.mnt.guest canon = path_under t.guest canon := by
      have := hroot t (.head _)
      simp [mnt_covers, Bind.mnt, this]
    rw [map_cons, ns_umount, hcovers]
    by_cases hat : t.guest = canon
    · -- the newest mount at the path itself
      have hunder : path_under t.guest canon = true := hat ▸ path_under_refl _
      rw [if_pos hunder, List.find?_cons_of_pos (by simpa using hat), bind_some, erase_cons_head]
      cases hlocked : t.locked
      · rw [if_pos ⟨hat, hlocked⟩]
        rfl
      · rw [if_neg fun hand => by simp [Bind.mnt, hlocked] at hand]
        rfl
    rw [List.find?_cons_of_neg (by simpa using hat)]
    by_cases hunder : path_under t.guest canon = true
    · -- a newer mount above the path hides any at it, and there is none: it would be the newer
      have hnone : bs.find? (fun b => decide (b.guest = canon)) = none := by
        refine List.find?_eq_none.2 fun b hb hbat => ?_
        have hbat : b.guest = canon := of_decide_eq_true hbat
        have hlt := hdeeper t (.head _) b (.tail _ hb) (hbat ▸ hunder) (hbat ▸ hat)
        have hgt := hhead b hb
        omega
      rw [if_pos hunder, if_neg fun hand => hat hand.1, hnone]
      rfl
    rw [if_neg hunder, ih]
    cases hfind : bs.find? fun b => decide (b.guest = canon) with
    | none => rfl
    | some b =>
      have hb := mem_of_find?_eq_some hfind
      have hbat : b.guest = canon := by simpa using List.find?_some hfind
      have hne : t ≠ b := fun heq => hat (heq ▸ hbat)
      have hbelow : mnt_covers canon t.mnt.guest = false := by
        have hcanon : canon ≠ ['/'] := hbat ▸ hroot b (.tail _ hb)
        have hunder' : path_under canon t.guest = false :=
          Bool.eq_false_iff.2 fun h => hat (hclear t (.head _) h)
        simp [mnt_covers, Bind.mnt, hcanon, hunder']
      rw [bind_some, bind_some, erase_cons_tail (by simpa using hne)]
      cases b.locked
      · simp [hbelow]
      · rfl

end tracks

section steps

variable {tab : BindTab} {bs : List Bind}

theorem BindTab.Tracks.empty : BindTab.empty.Tracks [] :=
  ⟨by simp [BindTab.empty], by simp [BindTab.empty], .nil, by simp, by simp [BindTab.empty], by simp, by simp⟩

/-- A mount with none below it is the newest. -/
theorem BindTab.Tracks.add (h : tab.Tracks bs) {guest : Path} (host : Path) (ro locked lock_ro : Bool)
    (hroot : guest ≠ ['/']) (hclear : tab.ClearBelow guest) (hseq : tab.g_bindseq + 1 < 2 ^ 32) :
    ((bind_add tab guest host ro locked lock_ro).2 < 0 ∧ (bind_add tab guest host ro locked lock_ro).1.Tracks bs) ∨
      ¬ (bind_add tab guest host ro locked lock_ro).2 < 0 ∧ ∃ b : Bind, b.mnt = ⟨guest, host, locked⟩ ∧
        (bind_add tab guest host ro locked lock_ro).1.Tracks (b :: bs) := by
  rw [bind_add]
  split
  · exact .inl ⟨show (-ENAMETOOLONG : Int) < 0 by decide, h⟩
  cases hfree : bind_free tab with
  | none => exact .inl ⟨show (-ENOMEM : Int) < 0 by decide, h⟩
  | some i =>
    dsimp only
    refine .inr ⟨by simp, ⟨guest, host, ro, locked, lock_ro, (tab.g_bindseq + 1) % 2 ^ 32⟩, rfl, ?_⟩
    have hi := bind_free_slot hfree
    rw [Nat.mod_eq_of_lt hseq]
    generalize hb : (⟨guest, host, ro, locked, lock_ro, tab.g_bindseq + 1⟩ : Bind) = b
    have hbseq : b.seq = tab.g_bindseq + 1 := by rw [← hb]
    have hbguest : b.guest = guest := by rw [← hb]
    have hnew : b ∉ bs := fun hmem => by
      have := h.seq_le b hmem
      omega
    refine ⟨fun b' => ?_, fun j b' hj => ?_, ?_, fun b' hb' => ?_, fun j k b' hj hk => ?_, ?_, fun b' hb' => ?_⟩
    · rw [mem_cons, h.mem]
      constructor
      · rintro (rfl | ⟨j, hj⟩)
        · exact ⟨i, update_self _ _ _⟩
        · exact ⟨j, (update_of_ne (slots.ne_of_free hi hj) _ _).trans hj⟩
      rintro ⟨j, hj⟩
      rcases slots.update_some hj with ⟨-, heq⟩ | ⟨-, hold⟩
      · exact .inl (some.inj heq).symm
      · exact .inr ⟨j, hold⟩
    · show j < max tab.g_nbinds (i + 1)
      rcases slots.update_some hj with ⟨rfl, -⟩ | ⟨-, hold⟩
      · omega
      · have := h.bound j b' hold
        omega
    · refine pairwise_cons.2 ⟨fun b' hb' => ?_, h.sorted⟩
      have := h.seq_le b' hb'
      omega
    · show b'.seq ≤ tab.g_bindseq + 1
      rcases mem_cons.1 hb' with rfl | hb'
      · omega
      · have := h.seq_le b' hb'
        omega
    · rcases slots.update_some hj with ⟨hji, heq⟩ | ⟨-, hold⟩ <;>
        rcases slots.update_some hk with ⟨hki, heq'⟩ | ⟨-, hold'⟩
      · exact hji.trans hki.symm
      · cases heq
        exact absurd ((h.mem _).2 ⟨k, hold'⟩) hnew
      · obtain rfl := some.inj heq'
        exact absurd ((h.mem _).2 ⟨j, hold⟩) hnew
      · exact h.slot_inj j k b' hold hold'
    · intro b₁ h₁ b₂ h₂ hunder hne
      rcases mem_cons.1 h₁ with rfl | hold₁ <;> rcases mem_cons.1 h₂ with rfl | hold₂
      · exact absurd rfl hne
      · -- no older mount is below the new one
        obtain ⟨j, hj⟩ := (h.mem b₂).1 hold₂
        rw [hbguest] at hunder hne
        exact absurd (hclear j b₂ hj hunder).symm hne
      · have := h.seq_le b₁ hold₁
        omega
      · exact h.deeper b₁ hold₁ b₂ hold₂ hunder hne
    rcases mem_cons.1 hb' with rfl | hb'
    · rw [hbguest]
      exact hroot
    · exact h.root b' hb'

theorem BindTab.Tracks.drop (h : tab.Tracks bs) {i : Nat} {b : Bind} (hi : tab.slots i = some b) :
    ({ tab with slots := update tab.slots i none } : BindTab).Tracks (bs.erase b) := by
  have hnodup : bs.Nodup := h.sorted.imp fun hlt heq => by
    rw [heq] at hlt
    exact Nat.lt_irrefl _ hlt
  have hold (j : Nat) (b' : Bind) (hj : update tab.slots i none j = some b') :
      j ≠ i ∧ tab.slots j = some b' := slots.update_none_some hj
  refine ⟨fun b' => ?_, fun j b' hj => h.bound j b' (hold j b' hj).2, h.sorted.sublist erase_sublist,
    fun b' hb' => h.seq_le b' (mem_of_mem_erase hb'),
    fun j k b' hj hk => h.slot_inj j k b' (hold j b' hj).2 (hold k b' hk).2,
    fun b₁ h₁ b₂ h₂ => h.deeper b₁ (mem_of_mem_erase h₁) b₂ (mem_of_mem_erase h₂),
    fun b' hb' => h.root b' (mem_of_mem_erase hb')⟩
  rw [hnodup.mem_erase_iff, h.mem]
  constructor
  · rintro ⟨hne, j, hj⟩
    refine ⟨j, (update_of_ne (fun heq => hne ?_) _ _).trans hj⟩
    rw [heq, hi] at hj
    exact (some.inj hj).symm
  rintro ⟨j, hj⟩
  obtain ⟨hne, hj⟩ := hold j b' hj
  exact ⟨fun heq => hne (h.slot_inj j i b (heq ▸ hj) hi), j, hj⟩

def Mounts.Ok (s : Mounts) : Prop := ∃ bs, s.tab.Tracks bs ∧ s.ns = bs.map Bind.mnt

theorem Mounts.Ok.umount {s : Mounts} (h : s.Ok) {canon : Path} (hclear : s.tab.ClearBelow canon) (detach : Bool) :
    s.Answers (.umount canon detach) ∧ (ns_call s (.umount canon detach)).Ok := by
  obtain ⟨bs, htracks, hns⟩ := h
  have hbelow (b : Bind) (hb : b ∈ bs) (hunder : path_under canon b.guest = true) : b.guest = canon := by
    obtain ⟨i, hi⟩ := (htracks.mem b).1 hb
    exact hclear i b hi hunder
  have htop := htracks.top_at canon
  have hkernel := BindTab.Tracks.umount htracks.sorted htracks.deeper htracks.root hbelow detach
  rw [← hns, ← htop] at hkernel
  have hrefused : (-EINVAL : Int) ≠ 0 := by decide
  rw [Mounts.Answers, ns_call, hkernel, bind_remove]
  cases hslot : bind_top_at s.tab canon with
  | none => exact ⟨⟨fun hzero => absurd hzero hrefused, nofun⟩, bs, htracks, hns⟩
  | some i =>
    obtain ⟨b, hb⟩ := bind_top_at_slot hslot
    dsimp only
    rw [bind_some, hb, bind_some, map_some, getD_some]
    cases b.locked
    · exact ⟨⟨fun _ => rfl, fun _ => rfl⟩, bs.erase b, htracks.drop hb, rfl⟩
    · exact ⟨⟨fun hzero => absurd hzero hrefused, nofun⟩, bs, htracks, hns⟩

theorem Mounts.Ok.step {s s' : Mounts} {call : NsCall} (h : s.Ok) (hstep : ClearStep s call s') : s'.Ok := by
  obtain ⟨hclear, rfl⟩ := hstep
  cases call with
  | umount canon detach => exact (h.umount hclear detach).2
  | mount guest host ro locked lock_ro =>
    obtain ⟨hroot, hbelow, hseq⟩ := hclear
    obtain ⟨bs, htracks, hns⟩ := h
    rw [ns_call]
    rcases htracks.add host ro locked lock_ro hroot hbelow hseq with ⟨hfail, hsame⟩ | ⟨hdone, b, hb, hmore⟩
    · dsimp only
      rw [if_pos hfail]
      exact ⟨bs, hsame, hns⟩
    dsimp only
    rw [if_neg hdone]
    exact ⟨b :: bs, hmore, by rw [hns, map_cons, hb]⟩

/-- After any mounts and unmounts, each at a point with no mount below it and none of the root, every path leads where
the kernel's mounts take it, and unmounts are answered alike. -/
theorem mounts_stack {calls : List NsCall} {s : Mounts} (h : Steps ClearStep .init calls s) (m : Machine) :
    (∀ canon, canon_to_host m s.tab canon = ns_to_host m s.ns canon) ∧
      ∀ call : NsCall, call.Clear s → s.Answers call := by
  have hok : s.Ok := h.invariant (fun _ _ _ hs => hs.step) ⟨[], .empty, rfl⟩
  refine ⟨fun canon => ?_, fun call hclear => ?_⟩
  · obtain ⟨bs, htracks, hns⟩ := hok
    rw [hns]
    exact htracks.to_host m canon
  cases call with
  | mount => trivial
  | umount canon detach => exact (hok.umount hclear detach).1

/-- Two directories mounted at `/a`, and a third below the second, which is left in
place. -/
theorem mounts_stack_nested : ∃ s, Steps ClearStep .init [.mount "/a".toList "/x".toList false false false,
      .mount "/a".toList "/y".toList false false false, .mount "/a/b".toList "/z".toList false false false] s ∧
    ns_to_host ro_machine s.ns "/a/b/c".toList = .ok "/z/c".toList ∧
    canon_to_host ro_machine s.tab "/a/b/c".toList = ns_to_host ro_machine s.ns "/a/b/c".toList := by
  have hrun : ∃ s, Steps ClearStep .init [.mount "/a".toList "/x".toList false false false,
      .mount "/a".toList "/y".toList false false false, .mount "/a/b".toList "/z".toList false false false] s ∧
      ns_to_host ro_machine s.ns "/a/b/c".toList = .ok "/z/c".toList := by
    refine ⟨_, .cons ⟨⟨by decide, fun i b hi => ?_, by decide⟩, rfl⟩ <|
      .cons ⟨⟨by decide, fun i b hi hunder => ?_, by decide⟩, rfl⟩ <|
      .cons ⟨⟨by decide, fun i b hi hunder => ?_, by decide⟩, rfl⟩ <| .nil _, by decide +kernel⟩
    · cases hi
    · rcases slots.update_some hi with ⟨-, hnew⟩ | ⟨-, hold⟩
      · rw [← some.inj hnew]
      · cases hold
    rcases slots.update_some hi with ⟨-, hnew⟩ | ⟨-, hold⟩
    · rw [← some.inj hnew] at hunder
      cases hunder
    rcases slots.update_some hold with ⟨-, hnew⟩ | ⟨-, hold⟩
    · rw [← some.inj hnew] at hunder
      cases hunder
    · cases hold
  obtain ⟨s, hsteps, hz⟩ := hrun
  exact ⟨s, hsteps, hz, (mounts_stack hsteps ro_machine).1 _⟩

/-- `/x` is mounted at `/a/b` and then `/y` at `/a`: the older mount still shows
through the newer. -/
theorem older_mount_shows : ∃ s, s = ns_call (ns_call .init (.mount "/a/b".toList "/x".toList false false false))
      (.mount "/a".toList "/y".toList false false false) ∧
    canon_to_host ro_machine s.tab "/a/b".toList = .ok "/x".toList ∧
    ns_to_host ro_machine s.ns "/a/b".toList = .ok "/y/b".toList :=
  ⟨_, rfl, by decide +kernel, by decide +kernel⟩

end steps

end arm64emu
