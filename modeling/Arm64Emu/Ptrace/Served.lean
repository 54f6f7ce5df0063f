import Arm64Emu.Ptrace.Mailbox

namespace arm64emu

open Function Option

open transition

/-- What the two sides of the mailbox have to agree on. -/
structure BoxView where
  gen : Nat
  cmd_seq : u32
  done_seq : u32
  mail : Option Post
  replied : Option Post
  owed : Option Post
  next : Nat
  execs : List (Nat × Option Post)

def BoxView.Unserved (v : BoxView) (p : Post) : Prop := some p ∉ v.execs.map Prod.snd

/-- The command `p` is in the fields and not posted yet. -/
def BoxView.Ready (v : BoxView) (p : Post) : Prop :=
  v.owed = none ∧ v.mail = some p ∧ p.gen = v.gen ∧ p.id < v.next ∧ v.Unserved p

/-- The command `p`, posted after `d` answers, is to be answered or has just been. -/
def BoxView.Pending (v : BoxView) (p : Post) (d : u32) : Prop :=
  v.owed = some p ∧ v.done_seq = d ∨ v.owed = none ∧ v.done_seq = d + 1 ∧ v.replied = some p

structure BoxView.Ok (v : BoxView) : Prop where
  owed : ∀ p, v.owed = some p → v.mail = some p ∧ p.gen = v.gen ∧ p.id < v.next
  execs : ∀ x ∈ v.execs, ∃ p, x.2 = some p ∧ p.gen = x.1 ∧ p.id < v.next
  once : (v.execs.map Prod.snd).Nodup

/-- What the task knows of the mailbox: a posted command it has not carried out is
one ahead of the number it has seen. -/
def Tracee.Agrees (v : BoxView) (busy : Prop) : Tracee → Prop
  | .snapped seen | .parked seen | .awake seen =>
    v.owed = none ∧ v.cmd_seq = seen ∨ ∃ p, v.owed = some p ∧ v.cmd_seq = seen + 1 ∧ v.Unserved p
  | .fetch => ∃ p, v.owed = some p ∧ v.Unserved p
  | .serve seen => ∃ p, v.owed = some p ∧ v.cmd_seq = seen ∧ v.Unserved p
  | .reply seen _ => ∃ p, v.owed = some p ∧ v.cmd_seq = seen ∧ (busy → v.replied = some p)
  | .gone => True
  | _ => ∀ p, v.owed = some p → v.Unserved p

def Poster.Agrees (v : BoxView) : Poster → Prop
  | .idle | .dead | .bail _ _ | .lost _ _ => True
  | .found _ _ gen | .stopped _ _ gen | .cleared _ _ gen | .ours _ gen => v.owed = none ∧ gen = v.gen
  | .filled p => v.Ready p
  | .counted p d => v.Ready p ∧ v.done_seq = d
  | .answered p => v.owed = none ∧ v.replied = some p
  | .waiting p d | .unanswered p d | .held p d | .exited p d | .paused p d => v.Pending p d

theorem Poster.Waits.agrees {q : Poster} {p : Post} {d : u32} {v : BoxView} (hwaits : q.Waits p d)
    (hagrees : q.Agrees v) : v.Pending p d := by
  rcases hwaits with rfl | rfl | rfl | rfl | rfl <;> exact hagrees

section runs

variable {ι : Type}

def Mbox.view (s : Mbox ι) : BoxView :=
  ⟨s.gen, s.link.mbox.cmd_seq, s.link.mbox.done_seq, s.mail, s.replied, s.owed, s.next, s.execs⟩

def Mbox.Busy (s : Mbox ι) : Prop := ∃ i, (s.poster i).Active

/-- A caller waits for the answer to a command that the task it is for, in a stop,
counts as seen without having answered it. -/
def Mbox.Lost (s : Mbox ι) : Prop :=
  ∃ i p d seen, (s.poster i).Waits p d ∧ s.link.mbox.done_seq = d ∧ s.link.mbox.cmd_seq = seen ∧
    (s.task p.gen = .snapped seen ∨ s.task p.gen = .parked seen ∨ s.task p.gen = .awake seen)

/-- At most one request is in the middle, only the last claim's task has the link,
and both sides agree on the mailbox. -/
structure Mbox.Ok (s : Mbox ι) : Prop where
  away : ∀ g, g ≠ s.gen → ¬(s.task g).In
  one : ∀ i j, (s.poster i).Active → (s.poster j).Active → i = j
  view : s.view.Ok
  task : (s.task s.gen).Agrees s.view s.Busy
  posters : ∀ i, (s.poster i).Agrees s.view
  taken : ∀ x ∈ s.taken, x.2 = some x.1

theorem Mbox.init_ok (ι : Type) : (Mbox.init ι).Ok where
  away := fun _ _ h => h.1 rfl
  one := fun _ _ h => absurd rfl h.1
  view := ⟨fun _ h => absurd h nofun, nofun, List.nodup_nil⟩
  task := fun _ h => absurd h nofun
  posters := fun _ => trivial
  taken := fun _ h => nomatch h

variable {v v' : BoxView} {t : Tracee} {busy busy' : Prop} {q : Poster}

theorem Tracee.Agrees.mono {v : BoxView} (h : t.Agrees v busy)
    (hbusy : busy' → busy) : t.Agrees v busy' := by
  cases t with
  | reply seen after =>
    obtain ⟨p, howed, hseq, hreplied⟩ := h
    exact ⟨p, howed, hseq, fun hb => hreplied (hbusy hb)⟩
  | _ => exact h

theorem BoxView.unserved_of_waits {v : BoxView} {seen : u32}
    (h : v.owed = none ∧ v.cmd_seq = seen ∨ ∃ p, v.owed = some p ∧ v.cmd_seq = seen + 1 ∧ v.Unserved p) :
    ∀ p, v.owed = some p → v.Unserved p := by
  intro p hp
  rcases h with ⟨hnone, -⟩ | ⟨q, hq, -, hun⟩
  · rw [hnone] at hp
    cases hp
  rw [hq] at hp
  cases hp
  exact hun

theorem BoxView.owed_of_waits {v : BoxView} {seen : u32}
    (h : v.owed = none ∧ v.cmd_seq = seen ∨ ∃ p, v.owed = some p ∧ v.cmd_seq = seen + 1 ∧ v.Unserved p)
    (hne : v.cmd_seq ≠ seen) : ∃ p, v.owed = some p ∧ v.Unserved p := by
  rcases h with ⟨-, hseen⟩ | ⟨p, hp, -, hun⟩
  · exact absurd hseen hne
  · exact ⟨p, hp, hun⟩

variable [DecidableEq ι] {tr : Tracers ι} {s s' : Mbox ι} {i : ι} {g : Nat}

theorem Mbox.Ok.poster_moves (hok : s.Ok) (hview : s'.view = s.view) (htask : s'.task = s.task)
    (htaken : s'.taken = s.taken) (hposter : s'.poster = update s.poster i q)
    (hactive : q.Active → (s.poster i).Active) (hq : q.Agrees s.view) : s'.Ok := by
  have hgen : s'.gen = s.gen := congrArg BoxView.gen hview
  have hback (j : ι) (hj : (s'.poster j).Active) : (s.poster j).Active := by
    rw [hposter] at hj
    rcases eq_or_ne j i with rfl | hne
    · rw [update_self] at hj
      exact hactive hj
    · rwa [update_of_ne hne] at hj
  refine ⟨?_, fun j k hj hk => hok.one j k (hback j hj) (hback k hk), ?_, ?_, ?_, ?_⟩
  · rw [htask, hgen]
    exact hok.away
  · rw [hview]
    exact hok.view
  · rw [htask, hgen, hview]
    exact hok.task.mono fun ⟨j, hj⟩ => ⟨j, hback j hj⟩
  · rw [hposter, hview]
    exact (forall_update_iff s.poster fun _ p => p.Agrees s.view).2 ⟨hq, fun j _ => hok.posters j⟩
  · rw [htaken]
    exact hok.taken

omit [DecidableEq ι] in
/-- A step of the task of claim `g`, which only the last claim's can be when it has
the link. -/
theorem Mbox.Ok.task_acts (hok : s.Ok) (hgen : s'.gen = s.gen) (hposter : s'.poster = s.poster)
    (htaken : s'.taken = s.taken) (htask : s'.task = update s.task g t)
    (hin : t.In → (s.task g).In ∨ g = s.gen) (hv : s'.view.Ok)
    (ht : (if g = s.gen then t else s.task s.gen).Agrees s'.view s.Busy)
    (hposters : ∀ i, (s.poster i).Agrees s'.view) : s'.Ok := by
  have hbusy : s'.Busy = s.Busy := by rw [Mbox.Busy, Mbox.Busy, hposter]
  refine ⟨fun k hk => ?_, ?_, hv, ?_, ?_, ?_⟩
  · rw [hgen] at hk
    rw [htask]
    rcases eq_or_ne k g with rfl | hne
    · rw [update_self]
      intro h
      rcases hin h with hin | rfl
      · exact hok.away k hk hin
      · exact hk rfl
    · rw [update_of_ne hne]
      exact hok.away k hk
  · rw [hposter]
    exact hok.one
  · rw [htask, hgen, hbusy]
    rcases eq_or_ne g s.gen with rfl | hne
    · rw [if_pos rfl] at ht
      rwa [update_self]
    · rw [if_neg hne] at ht
      rwa [update_of_ne hne.symm]
  · rw [hposter]
    exact hposters
  · rw [htaken]
    exact hok.taken

omit [DecidableEq ι] in
theorem Mbox.Ok.task_moves (hok : s.Ok) (hview : s'.view = s.view) (hposter : s'.poster = s.poster)
    (htaken : s'.taken = s.taken) (htask : s'.task = update s.task g t)
    (hin : t.In → (s.task g).In ∨ g = s.gen) (ht : g = s.gen → t.Agrees s.view s.Busy) : s'.Ok := by
  refine hok.task_acts (congrArg BoxView.gen hview) hposter htaken htask hin (hview ▸ hok.view) ?_
    (hview ▸ hok.posters)
  rw [hview]
  split
  case isTrue hg => exact ht hg
  case isFalse => exact hok.task

omit [DecidableEq ι] in
/-- Nobody else is in the middle of a request while `i` is. -/
theorem Mbox.Ok.idle (hok : s.Ok) (hi : (s.poster i).Active) {j : ι} (hj : j ≠ i) : ¬(s.poster j).Active :=
  fun h => hj (hok.one j i h hi)

omit [DecidableEq ι] in
theorem Poster.agrees_of_not_active {v : BoxView} (h : ¬q.Active) : q.Agrees v := by
  cases q with
  | idle | dead => trivial
  | _ => exact absurd ⟨nofun, nofun⟩ h

/-- A poster's step that changes the mailbox: the others are not in a request, so
only the poster itself and the task have to agree with it. -/
theorem Mbox.Ok.poster_acts (hok : s.Ok) (hi : ∀ j, j ≠ i → ¬(s.poster j).Active)
    (hgen : s'.gen = s.gen) (htask : s'.task = s.task) (hposter : s'.poster = update s.poster i q)
    (htaken : ∀ x ∈ s'.taken, x.2 = some x.1) (hv : s'.view.Ok)
    (ht : (s.task s.gen).Agrees s'.view q.Active) (hq : q.Agrees s'.view) : s'.Ok := by
  have hother (j : ι) (hj : j ≠ i) : ¬(s'.poster j).Active := by
    rw [hposter, update_of_ne hj]
    exact hi j hj
  have hself : s'.poster i = q := by rw [hposter, update_self]
  have hbusy : s'.Busy → q.Active := by
    rintro ⟨j, hj⟩
    rcases eq_or_ne j i with rfl | hne
    · rwa [hself] at hj
    · exact absurd hj (hother j hne)
  refine ⟨?_, fun j k hj hk => ?_, hv, ?_, fun j => ?_, htaken⟩
  · rw [htask, hgen]
    exact hok.away
  · have hji : j = i := by_contra fun h => hother j h hj
    have hki : k = i := by_contra fun h => hother k h hk
    rw [hji, hki]
  · rw [htask, hgen]
    exact ht.mono hbusy
  rcases eq_or_ne j i with rfl | hne
  · rwa [hself]
  · exact Poster.agrees_of_not_active (hother j hne)

/-- The conditions on a run: requests do not overlap, a stop starts when no caller waits for an answer, and a slot is
claimed again when everyone is done with it. -/
def MboxAct.Good (s : Mbox ι) : MboxAct ι → Prop
  | .poster _ (.find _ _) => s.owed = none ∧ ¬s.Busy
  | .tracee _ (.snapshot _) => ∀ i p d, (s.poster i).Waits p d → s.link.mbox.done_seq ≠ d
  | .slot (.claim _) => ¬s.Busy ∧ ∀ g, ¬(s.task g).In
  | _ => True

def GoodMboxStep (tr : Tracers ι) (s : Mbox ι) (a : MboxAct ι) (s' : Mbox ι) : Prop :=
  mbox_step tr s a = some s' ∧ a.Good s

theorem BoxView.Pending.answered {v : BoxView} {p : Post} {d : u32} (h : v.Pending p d) (hd : v.done_seq ≠ d) :
    v.owed = none ∧ v.replied = some p := by
  rcases h with ⟨-, hdone⟩ | ⟨howed, -, hreplied⟩
  · exact absurd hdone hd
  · exact ⟨howed, hreplied⟩

theorem succ_ne_self32 (d : u32) : d + 1 ≠ d := by
  intro h
  bv_omega

theorem Tracee.Agrees.posted {p : Post}
    (h : t.Agrees v busy) (hready : v.Ready p) (hexecs : v'.execs = v.execs) (hseq : v'.cmd_seq = v.cmd_seq + 1)
    (howed : v'.owed = some p) : t.Agrees v' busy' := by
  have hun : v'.Unserved p := by
    rw [BoxView.Unserved, hexecs]
    exact hready.2.2.2.2
  have hnone (q : Post) : v.owed ≠ some q := by
    rw [hready.1]
    exact nofun
  have hall : ∀ q, v'.owed = some q → v'.Unserved q := by
    intro q hq
    rw [howed] at hq
    cases hq
    exact hun
  cases t with
  | snapped seen | parked seen | awake seen =>
    rcases h with ⟨-, hseen⟩ | ⟨q, hq, -⟩
    · exact .inr ⟨p, howed, by rw [hseq, hseen], hun⟩
    · exact absurd hq (hnone q)
  | fetch | serve seen | reply seen after =>
    obtain ⟨q, hq, -⟩ := h
    exact absurd hq (hnone q)
  | gone => trivial
  | _ => exact hall

/-- What a task knows does not depend on the fields a request fills in, nor, once
nobody is in a request, on the result. -/
theorem Tracee.Agrees.of_eq (h : t.Agrees v busy)
    (hexecs : v'.execs = v.execs) (hseq : v'.cmd_seq = v.cmd_seq) (howed : v'.owed = v.owed)
    (hbusy : busy' → busy ∧ v'.replied = v.replied) : t.Agrees v' busy' := by
  cases v
  cases v'
  dsimp only at hexecs hseq howed hbusy
  subst hexecs hseq howed
  cases t with
  | reply seen after =>
    obtain ⟨p, hp, hseen, hreplied⟩ := h
    exact ⟨p, hp, hseen, fun hb => (hbusy hb).2.trans (hreplied (hbusy hb).1)⟩
  | _ => exact h

theorem BoxView.Ok.of_eq (h : v.Ok) (hexecs : v'.execs = v.execs) (hnext : v.next ≤ v'.next)
    (howed : ∀ p, v'.owed = some p → v'.mail = some p ∧ p.gen = v'.gen ∧ p.id < v'.next) : v'.Ok := by
  refine ⟨howed, fun x hx => ?_, ?_⟩
  · rw [hexecs] at hx
    obtain ⟨p, hp, hgen, hid⟩ := h.execs x hx
    exact ⟨p, hp, hgen, hid.trans_le hnext⟩
  · rw [hexecs]
    exact h.once

theorem BoxView.Ok.unserved_next {v : BoxView} (h : v.Ok) (tid : Int) (gen : Nat) :
    v.Unserved ⟨v.next, tid, gen⟩ := by
  intro hmem
  obtain ⟨x, hx, hp⟩ := List.mem_map.mp hmem
  obtain ⟨q, hq, -, hid⟩ := h.execs x hx
  rw [hp, some.injEq] at hq
  rw [← hq] at hid
  exact lt_irrefl _ hid

theorem Tracee.Agrees.not_owed (h : t.Agrees v busy)
    (hnone : v.owed = none) (hseq : v'.cmd_seq = v.cmd_seq) (hnone' : v'.owed = none) : t.Agrees v' busy' := by
  have hnot (p : Post) : v.owed ≠ some p := by
    rw [hnone]
    exact nofun
  cases t with
  | snapped seen | parked seen | awake seen =>
    rcases h with ⟨-, hseen⟩ | ⟨q, hq, -⟩
    · exact .inl ⟨hnone', hseq.trans hseen⟩
    · exact absurd hq (hnot q)
  | fetch | serve seen | reply seen after =>
    obtain ⟨q, hq, -⟩ := h
    exact absurd hq (hnot q)
  | gone => trivial
  | _ =>
    intro p hp
    rw [hnone'] at hp
    cases hp

theorem poster_step_ok {a : PosterAct} (hok : s.Ok) (hgood : (MboxAct.poster i a).Good s)
    (h : poster_step tr s i a = some s') : s'.Ok := by
  have hi := hok.posters i
  have hmoves (hactive : (s.poster i).Active) {q : Poster} (hq : q.Agrees s.view) :
      Mbox.Ok { s with poster := update s.poster i q } :=
    hok.poster_moves rfl rfl rfl rfl (fun _ => hactive) hq
  have hothers (hactive : (s.poster i).Active) (j : ι) (hj : j ≠ i) : ¬(s.poster j).Active := hok.idle hactive hj
  unfold poster_step at h
  split at h
  case h_1 vm tid hq =>
    obtain ⟨-, rfl⟩ := ite_none_right_eq_some.mp h |>.imp_right some.inj
    obtain ⟨hnone, hbusy⟩ := hgood
    exact hok.poster_acts (fun j _ hj => hbusy ⟨j, hj⟩) rfl rfl rfl hok.taken hok.view
      (hok.task.not_owed hnone rfl hnone) ⟨hnone, rfl⟩
  case h_2 vm tid gen hq | h_5 vm tid gen hq | h_10 p d hq =>
    cases h
    rw [hq] at hi
    refine hmoves (hq ▸ ⟨nofun, nofun⟩) ?_
    split
    · exact hi
    · trivial
  case h_3 vm tid gen hq | h_14 p d dead hq =>
    cases h
    rw [hq] at hi
    refine hmoves (hq ▸ ⟨nofun, nofun⟩) ?_
    split
    · trivial
    · exact hi
  case h_4 tid gen hq =>
    cases h
    exact hok.poster_moves rfl rfl rfl rfl (fun _ => hq ▸ ⟨nofun, nofun⟩) trivial
  case h_6 tid gen cmd addr arg rlen data hq =>
    cases h
    rw [hq] at hi
    obtain ⟨hnone, rfl⟩ := hi
    refine hok.poster_acts (hothers (hq ▸ ⟨nofun, nofun⟩)) rfl rfl rfl hok.taken
      (hok.view.of_eq rfl (Nat.le_succ _) fun p hp => ?_) (hok.task.not_owed hnone rfl hnone)
      ⟨hnone, rfl, rfl, Nat.lt_succ_self _, hok.view.unserved_next tid s.gen⟩
    rw [show Mbox.view _ = _ from rfl] at hp
    exact absurd (hp.symm.trans hnone) nofun
  case h_7 p hq =>
    cases h
    rw [hq] at hi
    exact hmoves (hq ▸ ⟨nofun, nofun⟩) ⟨hi, rfl⟩
  case h_8 p d hq =>
    cases h
    rw [hq] at hi
    obtain ⟨hready, hd⟩ := hi
    refine hok.poster_acts (hothers (hq ▸ ⟨nofun, nofun⟩)) rfl rfl rfl hok.taken
      (hok.view.of_eq rfl le_rfl fun p' hp' => ?_) (hok.task.posted hready rfl rfl rfl) (.inl ⟨rfl, hd⟩)
    cases hp'
    exact ⟨hready.2.1, hready.2.2.1, hready.2.2.2.1⟩
  case h_9 p d hq =>
    cases h
    rw [hq] at hi
    refine hmoves (hq ▸ ⟨nofun, nofun⟩) ?_
    split
    case isTrue => exact hi
    case isFalse hd => exact BoxView.Pending.answered hi hd
  case h_11 p d hq =>
    cases h
    rw [hq] at hi
    refine hmoves (hq ▸ ⟨nofun, nofun⟩) ?_
    split
    · exact hi
    · exact hi
  case h_12 p d hq =>
    cases h
    rw [hq] at hi
    refine hmoves (hq ▸ ⟨nofun, nofun⟩) ?_
    split
    case isTrue => trivial
    case isFalse hd => exact BoxView.Pending.answered hi hd
  case h_13 p d hq =>
    cases h
    exact hok.poster_acts (hothers (hq ▸ ⟨nofun, nofun⟩)) rfl rfl rfl hok.taken
      (hok.view.of_eq rfl le_rfl hok.view.owed) (hok.task.of_eq rfl rfl rfl fun hb => absurd rfl hb.1) trivial
  case h_15 p d hq =>
    cases h
    split
    · exact hok.poster_acts (hothers (hq ▸ ⟨nofun, nofun⟩)) rfl rfl rfl hok.taken
        (hok.view.of_eq rfl le_rfl hok.view.owed) (hok.task.of_eq rfl rfl rfl fun hb => absurd rfl hb.1) trivial
    · exact hmoves (hq ▸ ⟨nofun, nofun⟩) trivial
  case h_16 p hq =>
    cases h
    rw [hq] at hi
    refine hok.poster_acts (hothers (hq ▸ ⟨nofun, nofun⟩)) rfl rfl rfl (fun x hx => ?_) hok.view
      (hok.task.of_eq rfl rfl rfl fun hb => absurd rfl hb.1) trivial
    rcases List.mem_cons.mp hx with rfl | hx
    · exact hi.2
    · exact hok.taken x hx
  case h_19 hidle hdead =>
    cases h
    exact hok.poster_moves rfl rfl rfl rfl (fun hb => absurd rfl hb.2) trivial
  all_goals cases h

/-- While a command is to be answered, only the requests that wait for it say
anything of the mailbox. -/
theorem Poster.Agrees.of_pending {p : Post} (h : q.Agrees v)
    (howed : v.owed = some p) (hwait : q.Active → ∀ d, v.done_seq = d → v'.Pending p d) : q.Agrees v' := by
  have hnot : v.owed ≠ none := by
    rw [howed]
    exact nofun
  cases q with
  | idle | dead | bail | lost => trivial
  | found | stopped | cleared | ours | filled | answered => exact absurd h.1 hnot
  | counted => exact absurd h.1.1 hnot
  | waiting p' d | unanswered p' d | held p' d | exited p' d | paused p' d =>
    rcases h with ⟨hp', hd⟩ | ⟨hnone, -⟩
    · rw [howed, some.injEq] at hp'
      exact hp' ▸ hwait ⟨nofun, nofun⟩ d hd
    · exact absurd hnone hnot

/-- A command nobody waits for can be taken for seen. -/
theorem Poster.Agrees.dropped (h : q.Agrees v)
    (hwaits : ∀ p d, q.Waits p d → v.done_seq ≠ d) (hv : v' = { v with owed := none }) : q.Agrees v' := by
  subst hv
  cases q with
  | idle | dead | bail | lost => trivial
  | found | stopped | cleared | ours | filled | answered => exact ⟨rfl, h.2⟩
  | counted => exact ⟨⟨rfl, h.1.2⟩, h.2⟩
  | waiting p d | unanswered p d | held p d | exited p d | paused p d =>
    obtain ⟨-, hd⟩ | ⟨-, hd⟩ := h
    · exact absurd hd (hwaits p d (by simp [Poster.Waits]))
    · exact .inr ⟨rfl, hd⟩

theorem serve_cmd_seqs (e : MboxLink) (ans : Answer) :
    (serve_cmd e ans).1.mbox.cmd_seq = e.mbox.cmd_seq ∧ (serve_cmd e ans).1.mbox.done_seq = e.mbox.done_seq := by
  unfold serve_cmd
  split <;> exact ⟨rfl, rfl⟩

omit [DecidableEq ι] in
theorem Mbox.Ok.last (hok : s.Ok) (h : (s.task g).In) : g = s.gen := by_contra fun hne => hok.away g hne h

omit [DecidableEq ι] in
theorem Mbox.Ok.stop_moves (hok : s.Ok) {t t' : Tracee} (hq : s.task g = t) (hin : t.In) (hview : s'.view = s.view)
    (hposter : s'.poster = s.poster) (htaken : s'.taken = s.taken) (htask : s'.task = update s.task g t')
    (ht : t.Agrees s.view s.Busy → t'.Agrees s.view s.Busy) : s'.Ok := by
  subst hq
  obtain rfl := hok.last hin
  exact hok.task_moves hview hposter htaken htask (fun _ => .inl hin) fun _ => ht hok.task

omit [DecidableEq ι] in
theorem snapshot_ok {event_stop : Bool} (hok : s.Ok)
    (hgood : ∀ i p d, (s.poster i).Waits p d → s.link.mbox.done_seq ≠ d)
    (h : tracee_step s g (.snapshot event_stop) = some s') : s'.Ok := by
  obtain ⟨hq, rfl⟩ := ite_none_right_eq_some.mp h |>.imp_right some.inj
  have hin : (s.task g).In := hq ▸ ⟨nofun, nofun⟩
  obtain rfl := hok.last hin
  refine hok.task_acts rfl rfl rfl rfl (fun _ => .inl hin) (hok.view.of_eq rfl le_rfl fun p hp => ?_) ?_
    fun i => (hok.posters i).dropped (hgood i) rfl
  · cases hp
  · rw [if_pos rfl]
    exact .inl ⟨rfl, rfl⟩

omit [DecidableEq ι] in
theorem serve_ok {ans : Answer} (hok : s.Ok) (h : tracee_step s g (.serve ans) = some s') : s'.Ok := by
  have ht := hok.task
  simp only [tracee_step] at h
  split at h
  case h_2 => cases h
  case h_1 seen hq =>
    cases h
    have hin : (s.task g).In := hq ▸ ⟨nofun, nofun⟩
    obtain rfl := hok.last hin
    rw [hq] at ht
    obtain ⟨p, hp, hseen, hun⟩ := ht
    obtain ⟨hmail, hgen, hid⟩ := hok.view.owed p hp
    obtain ⟨hcmd, hdone⟩ := serve_cmd_seqs s.link ans
    refine hok.task_acts rfl rfl rfl rfl (fun _ => .inl hin) ⟨hok.view.owed, fun x hx => ?_, ?_⟩ ?_
      fun i => (hok.posters i).of_pending hp fun _ d hd => .inl ⟨hp, hdone.trans hd⟩
    · rcases List.mem_cons.mp hx with rfl | hx
      · exact ⟨p, hmail, hgen, hid⟩
      · exact hok.view.execs x hx
    · refine List.nodup_cons.mpr ⟨?_, hok.view.once⟩
      rw [show s.mail = some p from hmail]
      exact hun
    · rw [if_pos rfl]
      exact ⟨p, hp, hcmd.trans hseen, fun _ => hmail⟩

omit [DecidableEq ι] in
theorem reply_ok (hok : s.Ok) (h : tracee_step s g .reply = some s') : s'.Ok := by
  have ht := hok.task
  simp only [tracee_step] at h
  split at h
  case h_2 => cases h
  case h_1 seen after hq =>
    cases h
    have hin : (s.task g).In := hq ▸ ⟨nofun, nofun⟩
    obtain rfl := hok.last hin
    rw [hq] at ht
    obtain ⟨p, hp, hseen, hreplied⟩ := ht
    refine hok.task_acts rfl rfl rfl rfl (fun _ => .inl hin) (hok.view.of_eq rfl le_rfl fun q hq => ?_) ?_
      fun i => (hok.posters i).of_pending hp fun hi d hd => .inr ⟨rfl, congrArg (· + 1) hd, hreplied ⟨i, hi⟩⟩
    · cases hq
    rw [if_pos rfl]
    cases after with
    | loop => exact .inl ⟨rfl, hseen⟩
    | leave | detach => exact fun q hq => absurd hq nofun

omit [DecidableEq ι] in
theorem tracee_step_ok {a : TraceeAct} (hok : s.Ok) (hgood : (MboxAct.tracee g a : MboxAct ι).Good s)
    (h : tracee_step s g a = some s') : s'.Ok := by
  cases a with
  | adopt =>
    obtain ⟨⟨hq, rfl, -⟩, rfl⟩ := ite_none_right_eq_some.mp h |>.imp_right some.inj
    have ht := hok.task
    rw [hq] at ht
    exact hok.task_moves rfl rfl rfl rfl (fun _ => .inr rfl) fun _ => ht
  | snapshot event_stop => exact snapshot_ok hok hgood h
  | publish | again =>
    simp only [tracee_step] at h
    split at h
    case h_2 => cases h
    case h_1 seen hq =>
      cases h
      exact hok.stop_moves hq ⟨nofun, nofun⟩ rfl rfl rfl rfl id
  | look | woken =>
    simp only [tracee_step] at h
    split at h
    case h_2 => cases h
    case h_1 seen hq =>
      cases h
      refine hok.stop_moves hq ⟨nofun, nofun⟩ rfl rfl rfl rfl fun ht => ?_
      split
      · exact ht
      case isFalse hne => exact BoxView.owed_of_waits ht hne
  | retrap =>
    simp only [tracee_step] at h
    split at h
    case h_2 => cases h
    case h_1 seen hq =>
      obtain ⟨-, rfl⟩ := ite_none_right_eq_some.mp h |>.imp_right some.inj
      exact hok.stop_moves hq ⟨nofun, nofun⟩ rfl rfl rfl rfl BoxView.unserved_of_waits
  | orphaned | called_out =>
    simp only [tracee_step] at h
    split at h
    case h_2 => cases h
    case h_1 seen hq =>
      cases h
      exact hok.stop_moves hq ⟨nofun, nofun⟩ rfl rfl rfl rfl BoxView.unserved_of_waits
  | fetch =>
    obtain ⟨hq, rfl⟩ := ite_none_right_eq_some.mp h |>.imp_right some.inj
    refine hok.stop_moves hq ⟨nofun, nofun⟩ rfl rfl rfl rfl ?_
    rintro ⟨p, hp, hun⟩
    exact ⟨p, hp, rfl, hun⟩
  | serve ans => exact serve_ok hok h
  | reply => exact reply_ok hok h
  | store =>
    simp only [tracee_step] at h
    split at h
    case h_5 => cases h
    case h_1 hq | h_2 hq | h_3 hq =>
      cases h
      exact hok.stop_moves hq ⟨nofun, nofun⟩ rfl rfl rfl rfl id
    case h_4 hq =>
      cases h
      exact hok.stop_moves hq ⟨nofun, nofun⟩ rfl rfl rfl rfl fun _ => trivial
  | exit =>
    obtain ⟨hq, rfl⟩ := ite_none_right_eq_some.mp h |>.imp_right some.inj
    exact hok.stop_moves hq ⟨nofun, nofun⟩ rfl rfl rfl rfl fun _ => trivial
  | silent =>
    obtain ⟨hq, rfl⟩ := ite_none_right_eq_some.mp h |>.imp_right some.inj
    exact hok.stop_moves hq ⟨nofun, nofun⟩ rfl rfl rfl rfl id
  | die =>
    obtain ⟨hin, rfl⟩ := ite_none_right_eq_some.mp h |>.imp_right some.inj
    exact hok.stop_moves rfl hin rfl rfl rfl rfl fun _ => trivial

omit [DecidableEq ι] in
theorem Mbox.Ok.link_moves (hok : s.Ok) (hview : s'.view = s.view) (htask : s'.task = s.task)
    (hposter : s'.poster = s.poster) (htaken : s'.taken = s.taken) : s'.Ok := by
  refine hok.task_moves (g := s.gen) (t := s.task s.gen) hview hposter htaken ?_ (fun _ => .inr rfl) fun _ => hok.task
  rw [htask, update_eq_self]

omit [DecidableEq ι] in
theorem slot_step_ok {a : SlotAct} (hok : s.Ok) (hgood : (MboxAct.slot a : MboxAct ι).Good s)
    (h : slot_step s a = some s') : s'.Ok := by
  cases a with
  | claim tid =>
    obtain ⟨-, rfl⟩ := ite_none_right_eq_some.mp h |>.imp_right some.inj
    obtain ⟨hbusy, htasks⟩ := hgood
    have hnew : ¬(s.task (s.gen + 1)).In := htasks _
    refine ⟨fun g _ => htasks g, fun i _ hi => absurd ⟨i, hi⟩ hbusy,
      hok.view.of_eq rfl le_rfl fun p hp => absurd hp nofun, ?_,
      fun i => Poster.agrees_of_not_active fun hi => hbusy ⟨i, hi⟩, hok.taken⟩
    rcases not_and_or.mp hnew with hfresh | hgone
    · rw [show s.task (s.gen + 1) = .fresh from not_not.mp hfresh]
      exact fun p hp => absurd hp nofun
    · rw [show s.task (s.gen + 1) = .gone from not_not.mp hgone]
      trivial
  | release | interrupt | notify =>
    cases h
    exact hok.link_moves rfl rfl rfl rfl
  | exit_group | free | attach | rekey =>
    obtain ⟨-, rfl⟩ := ite_none_right_eq_some.mp h |>.imp_right some.inj
    exact hok.link_moves rfl rfl rfl rfl

/-- One step of the mailbox, whoever makes it. -/
theorem mbox_step_ok {a : MboxAct ι} (hok : s.Ok) (h : GoodMboxStep tr s a s') : s'.Ok := by
  obtain ⟨hstep, hgood⟩ := h
  cases a with
  | poster i a => exact poster_step_ok hok hgood hstep
  | tracee g a => exact tracee_step_ok hok hgood hstep
  | slot a => exact slot_step_ok hok hgood hstep

omit [DecidableEq ι] in
theorem Mbox.Ok.not_lost (hok : s.Ok) : ¬s.Lost := by
  rintro ⟨i, p, d, seen, hwaits, hd, hseq, hstop⟩
  have hin : (s.task p.gen).In := by
    rcases hstop with h | h | h <;> exact h ▸ ⟨nofun, nofun⟩
  have ht := hok.task
  rw [← hok.last hin] at ht
  have hseen : s.owed = none ∧ s.link.mbox.cmd_seq = seen ∨
      ∃ q, s.owed = some q ∧ s.link.mbox.cmd_seq = seen + 1 ∧ s.view.Unserved q := by
    rcases hstop with h | h | h
    all_goals
      rw [h] at ht
      exact ht
  have hnone : s.owed = none := by
    rcases hseen with ⟨hnone, -⟩ | ⟨q, -, hsucc, -⟩
    · exact hnone
    · exact absurd (hsucc.symm.trans hseq) (succ_ne_self32 seen)
  rcases hwaits.agrees (hok.posters i) with ⟨howed, -⟩ | ⟨-, hdone, -⟩
  · exact absurd (howed.symm.trans hnone) nofun
  · exact succ_ne_self32 d (hdone.symm.trans hd)

/-- In every run of good steps each posted command is carried out at most once and by the task it was posted for,
every answer a caller takes is its own command's, and no caller waits for a command its task has taken for seen. -/
theorem commands_served {as : List (MboxAct ι)} (h : Steps (GoodMboxStep tr) (Mbox.init ι) as s) :
    (s.execs.map Prod.snd).Nodup ∧ (∀ x ∈ s.execs, ∃ p, x.2 = some p ∧ p.gen = x.1) ∧
      (∀ x ∈ s.taken, x.2 = some x.1) ∧ ¬s.Lost := by
  have hok : s.Ok := h.invariant (fun _ _ _ hok hstep => mbox_step_ok hok hstep) (Mbox.init_ok ι)
  refine ⟨hok.view.once, fun x hx => ?_, hok.taken, hok.not_lost⟩
  obtain ⟨p, hp, hgen, -⟩ := hok.view.execs x hx
  exact ⟨p, hp, hgen⟩

end runs

def one_tracer : Tracers Unit := ⟨fun _ => 1, fun _ => 1⟩

/-- A task stops, and its tracer reads a word of its memory. -/
def peek_run : List (MboxAct Unit) :=
  [.slot (.claim 7), .slot (.attach 1 1), .tracee 1 .adopt, .tracee 1 (.snapshot false), .tracee 1 .publish,
    .poster () (.find false 7), .poster () .look, .poster () .look, .poster () .look,
    .poster () (.fill .peek 4096 0 0 []), .poster () .look, .poster () .post,
    .tracee 1 .woken, .tracee 1 .fetch, .tracee 1 (.serve ⟨0, 8, [1, 2, 3, 4, 5, 6, 7, 8]⟩), .tracee 1 .reply,
    .poster () .look, .poster () .take]

/-- One peek, posted, served and taken. -/
theorem commands_served_peek : ∃ s, Steps (GoodMboxStep one_tracer) (Mbox.init Unit) peek_run s ∧
    s.execs = [(1, some ⟨0, 7, 1⟩)] ∧ s.taken = [(⟨0, 7, 1⟩, some ⟨0, 7, 1⟩)] ∧ ¬s.Lost := by
  have hidle : ¬(Mbox.init Unit).Busy := by
    rintro ⟨_, hi⟩
    exact hi.1 rfl
  have hrun : ∃ s, Steps (GoodMboxStep one_tracer) (Mbox.init Unit) peek_run s ∧
      s.execs = [(1, some ⟨0, 7, 1⟩)] ∧ s.taken = [(⟨0, 7, 1⟩, some ⟨0, 7, 1⟩)] := by
    refine ⟨_, .cons ⟨rfl, hidle, fun _ h => h.1 rfl⟩ (.cons ⟨rfl, trivial⟩ (.cons ⟨rfl, trivial⟩ (.cons ⟨rfl, ?_⟩
      (.cons ⟨rfl, trivial⟩ (.cons ⟨rfl, rfl, hidle⟩ (.cons ⟨rfl, trivial⟩ (.cons ⟨rfl, trivial⟩
      (.cons ⟨rfl, trivial⟩ (.cons ⟨rfl, trivial⟩ (.cons ⟨rfl, trivial⟩ (.cons ⟨rfl, trivial⟩ (.cons ⟨rfl, trivial⟩
      (.cons ⟨rfl, trivial⟩ (.cons ⟨rfl, trivial⟩ (.cons ⟨rfl, trivial⟩ (.cons ⟨rfl, trivial⟩
      (.cons ⟨rfl, trivial⟩ (.nil _)))))))))))))))))), rfl, rfl⟩
    rintro i p d (h | h | h | h | h) <;> cases h
  obtain ⟨s, hsteps, hexecs, htaken⟩ := hrun
  exact ⟨s, hsteps, hexecs, htaken, (commands_served hsteps).2.2.2⟩

/-- A SEIZEd task listens in a trap; its tracer posts after the task has found the trap to be taken again: the next
stop takes the command for seen. -/
theorem retrap_loses_command : ∃ s, mbox_run one_tracer (Mbox.init Unit)
    [.slot (.claim 7), .slot (.attach 1 1), .tracee 1 .adopt, .tracee 1 (.snapshot true), .tracee 1 .publish,
      .poster () (.find false 7), .poster () .look, .poster () .look, .poster () .listen,
      .poster () (.find true 7), .poster () .look, .poster () .look, .poster () .look,
      .poster () (.fill .read 4096 8 0 []), .poster () .look,
      .slot .notify, .tracee 1 .woken, .tracee 1 .retrap,
      .poster () .post, .poster () .look,
      .tracee 1 .store, .tracee 1 (.snapshot true), .tracee 1 .publish] = some s ∧ s.Lost :=
  ⟨_, rfl, (), ⟨0, 7, 1⟩, 0, 1, .inr (.inl rfl), rfl, rfl, .inr (.inl rfl)⟩

end arm64emu
