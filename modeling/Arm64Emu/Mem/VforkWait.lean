import Mathlib
import Arm64Emu.Core.Types

namespace arm64emu

/-- The futex word at the head of the box a vfork child shares with its parent. -/
inductive VfState where
  | VF_IDLE | VF_DATA | VF_ACK | VF_DONE | VF_GONE | VF_GROW
  deriving DecidableEq

def VF_DATA_MAX : Nat := 65536 - 16

/-- One message: a stack that grew (`VF_GROW`), or a run of changed bytes
(`VF_DATA`). A run lies in one page, so that it fits the box. -/
structure VfMsg where
  grow : Bool
  va : u64
  data : List u8
  fits : grow = false → data.length ≤ VF_DATA_MAX
  deriving DecidableEq

def VfMsg.state (m : VfMsg) : VfState := if m.grow then .VF_GROW else .VF_DATA

def VfMsg.read (grow : Bool) (box : u64 × List u8) : VfMsg where
  grow := grow
  va := box.1
  data := if grow then box.2 else box.2.take VF_DATA_MAX
  fits h := by simp [h]

theorem VfMsg.read_self (m : VfMsg) : VfMsg.read m.grow (m.va, m.data) = m := by
  obtain ⟨grow, va, data, hfits⟩ := m
  cases grow
  · simp [VfMsg.read, List.take_of_length_le (hfits rfl)]
  · rfl

/-- Where the child is in its flush. -/
inductive VfChild where
  /-- about to fill the box, or past the last message -/
  | fill (todo : List VfMsg)
  /-- the box filled, the word not yet stored -/
  | post (m : VfMsg) (todo : List VfMsg)
  /-- about to load the word -/
  | poll (m : VfMsg) (todo : List VfMsg)
  /-- in `vf_wait`, before it asks for its parent -/
  | sleep (m : VfMsg) (todo : List VfMsg)
  /-- its exec or exit goes on -/
  | gone
  | dead
  deriving DecidableEq

/-- The message the child waits to have acknowledged. -/
def VfChild.awaits : VfChild → Option VfMsg
  | .poll m _ | .sleep m _ => some m
  | _ => none

/-- The messages it still has to post. -/
def VfChild.todo : VfChild → List VfMsg
  | .fill todo | .poll _ todo | .sleep _ todo => todo
  | .post m todo => m :: todo
  | .gone | .dead => []

/-- Where the parent is in its wait. -/
inductive VfParent where
  | load
  | apply (grow : Bool)
  | ack
  | wait (st : VfState)
  | waitid (st : VfState)
  /-- the child is dead: the word is loaded once more -/
  | reload (st : VfState)
  | leave
  /-- the clone returns, the wait abandoned or not -/
  | on (abandoned : Bool)
  | killed
  deriving DecidableEq

/-- The box, the two sides and their logs. -/
structure VfSys where
  state : VfState
  box : u64 × List u8
  child : VfChild
  parent : VfParent
  /-- the messages posted so far -/
  sent : List VfMsg
  /-- the messages the parent has applied -/
  applied : List VfMsg

def vf_start (msgs : List VfMsg) : VfSys := ⟨.VF_IDLE, (0#64, []), .fill msgs, .load, [], []⟩

/-- One step of the child. -/
def vf_child (s : VfSys) : VfSys :=
  match s.child with
  | .fill [] => { s with state := .VF_DONE, child := .gone }
  | .fill (m :: todo) => { s with box := (m.va, m.data), child := .post m todo }
  | .post m todo => { s with state := m.state, child := .poll m todo, sent := s.sent ++ [m] }
  | .poll m todo =>
    { s with
      child := if s.state = .VF_ACK then .fill todo else if s.state ≠ m.state then .fill [] else .sleep m todo }
  | .sleep m todo => { s with child := if s.parent = .killed then .fill [] else .poll m todo }
  | .gone | .dead => s

/-- One step of the parent; `fatal` is whether it finds a reason to give up. -/
def vf_parent (s : VfSys) (fatal : Bool) : VfSys :=
  match s.parent with
  | .load =>
    { s with
      parent := match s.state with
        | .VF_DATA => .apply false
        | .VF_GROW => .apply true
        | .VF_DONE => .on false
        | st => .wait st }
  | .apply grow =>
    { s with
      applied := s.applied ++ [VfMsg.read grow s.box]
      parent := .ack }
  | .ack => { s with state := .VF_ACK, parent := .load }
  | .wait st => { s with parent := if s.state ≠ st then .load else .waitid st }
  | .waitid st => { s with parent := if s.child = .dead then .reload st else if fatal then .leave else .load }
  | .reload st => { s with parent := if s.state ≠ st then .load else .on false }
  | .leave => { s with state := .VF_GONE, parent := .on true }
  | .on _ | .killed => s

/-- A step of either side, or its death. -/
inductive VfAct where
  | child
  | parent (fatal : Bool)
  | kill_child
  | kill_parent
  deriving DecidableEq

def vf_step (s : VfSys) : VfAct → VfSys
  | .child => vf_child s
  | .parent fatal => vf_parent s fatal
  | .kill_child => { s with child := .dead }
  | .kill_parent => { s with parent := .killed }

def vf_run (msgs : List VfMsg) (acts : List VfAct) : VfSys := acts.foldl vf_step (vf_start msgs)

variable {s : VfSys} {m : VfMsg} {msgs : List VfMsg} {p : VfParent}

theorem VfMsg.state_ne (m : VfMsg) :
    m.state ≠ .VF_IDLE ∧ m.state ≠ .VF_ACK ∧ m.state ≠ .VF_DONE ∧ m.state ≠ .VF_GONE := by
  cases hg : m.grow <;> simp [VfMsg.state, hg]

/-- The parent will not load the word again. -/
def VfParent.Left (p : VfParent) : Prop := p = .on true ∨ p = .killed

/-- The parent is in its loop, with no message that it has loaded and not
acknowledged. -/
def VfParent.Idle : VfParent → Prop
  | .apply _ | .ack | .on _ | .killed => False
  | _ => True

/-- The word while no message is open. -/
def VfChild.Word : VfChild → VfState → Prop
  | .fill _, st | .post _ _, st => st = .VF_IDLE ∨ st = .VF_ACK
  | .poll _ _, st | .sleep _ _, st => st = .VF_ACK
  | .gone, st => st = .VF_DONE
  | .dead, st => st = .VF_IDLE ∨ st = .VF_ACK ∨ st = .VF_DONE

/-- A message is posted and not yet acknowledged. -/
structure VfSys.Open (s : VfSys) (m : VfMsg) : Prop where
  state : s.state = m.state
  box : s.box = (m.va, m.data)
  holder : s.child.awaits = some m ∨ s.child = .dead
  unread : s.parent.Idle ∨ s.parent = .apply m.grow → s.applied ++ [m] = s.sent
  turn : s.parent.Idle ∨ s.parent = .apply m.grow ∨ s.parent = .ack ∧ s.applied = s.sent

/-- What the word, the box and the two logs are while the parent is in its loop. -/
def VfSys.Linked (s : VfSys) : Prop :=
  s.parent.Idle ∧ s.applied = s.sent ∧ s.child.Word s.state ∨ ∃ m, s.Open m

/-- What the parent knows of the word it waits on. -/
def VfSys.Seen (s : VfSys) : Prop :=
  match s.parent with
  | .wait st | .waitid st => st = .VF_IDLE ∨ st = .VF_ACK
  | .reload st => (st = .VF_IDLE ∨ st = .VF_ACK) ∧ s.child = .dead
  | _ => True

/-- The invariant of the exchange. -/
structure VfSys.Ok (s : VfSys) (msgs : List VfMsg) : Prop where
  sent : s.child ≠ .dead → s.sent ++ s.child.todo = msgs ∨ s.child.todo = [] ∧ s.parent.Left
  whole : s.sent <+: msgs
  applied : s.applied <+: s.sent
  filled : ∀ m todo, s.child = .post m todo → s.box = (m.va, m.data)
  linked : s.Linked ∨ s.parent.Left ∨ s.parent = .on false ∧ s.applied = s.sent ∧ (s.child = .gone ∨ s.child = .dead)
  seen : s.Seen

theorem VfChild.Word.cases {child : VfChild} {st : VfState} (h : child.Word st) :
    (st = .VF_IDLE ∨ st = .VF_ACK) ∨ st = .VF_DONE ∧ (child = .gone ∨ child = .dead) := by
  cases child with
  | fill | post => exact .inl h
  | poll | sleep => exact .inl (.inr h)
  | gone => exact .inr ⟨h, .inl rfl⟩
  | dead =>
    rcases h with h | h | h
    · exact .inl (.inl h)
    · exact .inl (.inr h)
    · exact .inr ⟨h, .inr rfl⟩

theorem VfParent.not_left (hon : ∀ b, p ≠ .on b) (hkill : p ≠ .killed) : ¬p.Left ∧ p ≠ .on false :=
  ⟨fun h => h.elim (hon true) hkill, hon false⟩

theorem VfParent.Idle.not_left (h : p.Idle) : ¬p.Left ∧ p ≠ .on false := by
  cases p with
  | apply | ack | on | killed => exact h.elim
  | _ => exact VfParent.not_left (fun _ => nofun) nofun

theorem VfSys.Linked.not_left (h : s.Linked) : ¬s.parent.Left ∧ s.parent ≠ .on false := by
  rcases h with ⟨hidle, -⟩ | ⟨m, ho⟩
  · exact hidle.not_left
  rcases ho.turn with hidle | hp | ⟨hp, -⟩
  · exact hidle.not_left
  · rw [hp]
    exact VfParent.not_left (fun _ => nofun) nofun
  · rw [hp]
    exact VfParent.not_left (fun _ => nofun) nofun

theorem VfSys.Linked.quiet (h : s.Linked) (hc : s.child.awaits = none) (hlive : s.child ≠ .dead) :
    s.parent.Idle ∧ s.applied = s.sent ∧ s.child.Word s.state := by
  rcases h with h | ⟨m, ho⟩
  · exact h
  rcases ho.holder with hm | hdead
  · simp [hc] at hm
  · exact absurd hdead hlive

theorem VfSys.Linked.awaited (h : s.Linked) (hc : s.child.awaits = some m) :
    s.state = .VF_ACK ∧ s.parent.Idle ∧ s.applied = s.sent ∨ s.Open m := by
  rcases h with ⟨hidle, heq, hword⟩ | ⟨m', ho⟩
  · refine .inl ⟨?_, hidle, heq⟩
    cases hs : s.child <;> rw [hs] at hc hword <;> first | exact hword | cases hc
  rcases ho.holder with hm | hdead
  · cases hc.symm.trans hm
    exact .inr ho
  · simp [hdead, VfChild.awaits] at hc

theorem VfSys.Seen.of_parent {s' : VfSys} (h : s.Seen) (hp : s'.parent = s.parent)
    (hlive : s.child ≠ .dead ∨ s'.child = .dead) : s'.Seen := by
  unfold VfSys.Seen at h ⊢
  rw [hp]
  cases hq : s.parent with
  | reload st =>
    rw [hq] at h
    exact ⟨h.1, hlive.resolve_left fun hne => hne h.2⟩
  | _ =>
    rw [hq] at h
    exact h

/-- A step of a child that is not done: it keeps to the messages it is to send, or stops sending when its parent has
left. -/
theorem VfSys.Ok.child_goes {state : VfState} {box : u64 × List u8} {child : VfChild} {sent : List VfMsg}
    (hs : s.Ok msgs) (hlive : s.child ≠ .gone ∧ s.child ≠ .dead)
    (htodo : sent ++ child.todo = s.sent ++ s.child.todo ∧ s.sent <+: sent ∨
      child.todo = [] ∧ s.parent.Left ∧ sent = s.sent)
    (hfill : ∀ m todo, child = .post m todo → box = (m.va, m.data))
    (hlink : s.Linked → VfSys.Linked { s with state, box, child, sent }) :
    VfSys.Ok { s with state, box, child, sent } msgs := by
  have hlog : (sent ++ child.todo = msgs ∨ child.todo = [] ∧ s.parent.Left) ∧ sent <+: msgs ∧ s.sent <+: sent := by
    rcases htodo with ⟨heq, hpre⟩ | ⟨hnil, hleft, rfl⟩
    · rcases hs.sent hlive.2 with hall | ⟨hnil, hleft⟩
      · exact ⟨.inl (heq.trans hall), ⟨child.todo, heq.trans hall⟩, hpre⟩
      obtain ⟨new, rfl⟩ := hpre
      rw [hnil, List.append_assoc, List.append_cancel_left_eq, List.append_eq_nil_iff] at heq
      obtain ⟨rfl, hnil'⟩ := heq
      rw [List.append_nil]
      exact ⟨.inr ⟨hnil', hleft⟩, hs.whole, List.prefix_rfl⟩
    · exact ⟨.inr ⟨hnil, hleft⟩, hs.whole, List.prefix_rfl⟩
  refine ⟨fun _ => hlog.1, hlog.2.1, hs.applied.trans hlog.2.2, hfill, ?_, hs.seen.of_parent rfl (.inl hlive.2)⟩
  rcases hs.linked with h | h | ⟨-, -, h⟩
  · exact .inl (hlink h)
  · exact .inr (.inl h)
  · exact absurd h (not_or.mpr hlive)

/-- A step that posts no message. -/
theorem VfSys.Ok.child_moves {state : VfState} {box : u64 × List u8} {child : VfChild} (hs : s.Ok msgs)
    (hlive : s.child ≠ .gone ∧ s.child ≠ .dead) (htodo : child.todo = s.child.todo)
    (hfill : ∀ m todo, child = .post m todo → box = (m.va, m.data))
    (hlink : s.Linked → VfSys.Linked { s with state, box, child }) : VfSys.Ok { s with state, box, child } msgs :=
  hs.child_goes hlive (.inl ⟨by rw [htodo], List.prefix_rfl⟩) hfill hlink

theorem vf_child_ok (hs : s.Ok msgs) : (vf_child s).Ok msgs := by
  have hlive {c : VfChild} (hc : s.child = c) (h : c ≠ .gone ∧ c ≠ .dead) :
      s.child ≠ .gone ∧ s.child ≠ .dead := hc ▸ h
  unfold vf_child
  split
  case h_1 hc =>
    have hnow := hlive hc ⟨nofun, nofun⟩
    refine hs.child_moves hnow (by rw [hc]; rfl) (fun _ _ => nofun) fun h => ?_
    obtain ⟨hidle, heq, -⟩ := h.quiet (by rw [hc]; rfl) hnow.2
    exact .inl ⟨hidle, heq, rfl⟩
  case h_2 m todo hc =>
    have hnow := hlive hc ⟨nofun, nofun⟩
    refine hs.child_moves hnow (by rw [hc]; rfl) ?_ fun h => ?_
    · rintro _ _ ⟨⟩
      rfl
    obtain ⟨hidle, heq, hword⟩ := h.quiet (by rw [hc]; rfl) hnow.2
    rw [hc] at hword
    exact .inl ⟨hidle, heq, hword⟩
  case h_3 m todo hc =>
    have hnow := hlive hc ⟨nofun, nofun⟩
    refine hs.child_goes hnow (.inl ⟨?_, List.prefix_append ..⟩) (fun _ _ => nofun) fun h => ?_
    · rw [hc, List.append_assoc]
      rfl
    obtain ⟨hidle, heq, -⟩ := h.quiet (by rw [hc]; rfl) hnow.2
    exact .inr ⟨m, rfl, hs.filled m todo hc, .inl rfl, fun _ => by rw [heq], .inl hidle⟩
  case h_4 m todo hc =>
    have hnow := hlive hc ⟨nofun, nofun⟩
    have hawaits : s.child.awaits = some m := by rw [hc]; rfl
    split
    case isTrue hack =>
      refine hs.child_moves hnow (by rw [hc]; rfl) (fun _ _ => nofun) fun h => ?_
      rcases h.awaited hawaits with ⟨-, hidle, heq⟩ | ho
      · exact .inl ⟨hidle, heq, .inr hack⟩
      · exact absurd (ho.state.symm.trans hack) m.state_ne.2.1
    split
    case isTrue hack hne =>
      have hno (h : s.Linked) : False := (h.awaited hawaits).elim (fun h => hack h.1) fun ho => hne ho.state
      have hleft : s.parent.Left := by
        rcases hs.linked with h | h | ⟨-, -, h⟩
        · exact (hno h).elim
        · exact h
        · exact absurd h (not_or.mpr hnow)
      exact hs.child_goes hnow (.inr ⟨rfl, hleft, rfl⟩) (fun _ _ => nofun) fun h => (hno h).elim
    case isFalse hack hne =>
      refine hs.child_moves hnow (by rw [hc]; rfl) (fun _ _ => nofun) fun h => ?_
      rcases h.awaited hawaits with ⟨h, -⟩ | ho
      · exact absurd h hack
      · exact .inr ⟨m, { ho with holder := .inl rfl }⟩
  case h_5 m todo hc =>
    have hnow := hlive hc ⟨nofun, nofun⟩
    have hawaits : s.child.awaits = some m := by rw [hc]; rfl
    split
    case isTrue hkill =>
      exact hs.child_goes hnow (.inr ⟨rfl, .inr hkill, rfl⟩) (fun _ _ => nofun)
        fun h => absurd (.inr hkill) h.not_left.1
    case isFalse =>
      refine hs.child_moves hnow (by rw [hc]; rfl) (fun _ _ => nofun) fun h => ?_
      rcases h.awaited hawaits with ⟨hack, hidle, heq⟩ | ho
      · exact .inl ⟨hidle, heq, hack⟩
      · exact .inr ⟨m, { ho with holder := .inl rfl }⟩
  case h_6 | h_7 => exact hs

theorem VfSys.Linked.goes (h : s.Linked) (hidle : s.parent.Idle) (hp : p.Idle) :
    VfSys.Linked { s with parent := p } := by
  rcases h with ⟨-, heq, hword⟩ | ⟨m, ho⟩
  · exact .inl ⟨hp, heq, hword⟩
  · exact .inr ⟨m, ho.state, ho.box, ho.holder, fun _ => ho.unread (.inl hidle), .inl hp⟩

theorem VfSys.Ok.parent_goes {state : VfState} {applied : List VfMsg} (hs : s.Ok msgs) (hlink : s.Linked)
    (hlink' : VfSys.Linked { s with state, applied, parent := p } ∨ p.Left ∨
      p = .on false ∧ applied = s.sent ∧ (s.child = .gone ∨ s.child = .dead))
    (happ : applied <+: s.sent) (hseen : VfSys.Seen { s with state, applied, parent := p }) :
    VfSys.Ok { s with state, applied, parent := p } msgs :=
  ⟨fun h => .inl ((hs.sent h).resolve_right fun hcut => hlink.not_left.1 hcut.2), hs.whole, happ, hs.filled, hlink',
    hseen⟩

theorem vf_parent_stays (h : s.parent.Left) (fatal : Bool) : vf_parent s fatal = s := by
  rcases h with h | h <;> rw [vf_parent, h]

theorem vf_parent_ok (hs : s.Ok msgs) (fatal : Bool) : (vf_parent s fatal).Ok msgs := by
  by_cases hout : s.parent.Left ∨ s.parent = .on false
  · have hstay : vf_parent s fatal = s := by
      rcases hout with h | h
      · exact vf_parent_stays h fatal
      · rw [vf_parent, h]
    rw [hstay]
    exact hs
  obtain ⟨hin, hin'⟩ := not_or.mp hout
  have hlink : s.Linked := hs.linked.resolve_right (not_or.mpr ⟨hin, fun h => hin' h.1⟩)
  have hgo {q p : VfParent} (hq : s.parent = q) (hidle : q.Idle) (hp : p.Idle)
      (hseen : VfSys.Seen { s with parent := p }) : VfSys.Ok { s with parent := p } msgs :=
    hs.parent_goes hlink (.inl (hlink.goes (hq ▸ hidle) hp)) hs.applied hseen
  have hback (heq : s.applied = s.sent) (hover : s.child = .gone ∨ s.child = .dead) :
      VfSys.Ok { s with parent := .on false } msgs :=
    hs.parent_goes hlink (.inr (.inr ⟨rfl, heq, hover⟩)) hs.applied trivial
  have hseen := hs.seen
  unfold VfSys.Seen at hseen
  unfold vf_parent
  split
  case h_1 hp =>
    obtain ⟨-, heq, hword⟩ | ⟨m, ho⟩ := id hlink
    · rcases hword.cases with (h | h) | ⟨h, hover⟩
      · simpa only [h] using hgo (p := .wait .VF_IDLE) hp trivial trivial (.inl rfl)
      · simpa only [h] using hgo (p := .wait .VF_ACK) hp trivial trivial (.inr rfl)
      · simpa only [h] using hback heq hover
    have hkept : VfSys.Linked { s with parent := .apply m.grow } :=
      .inr ⟨m, ho.state, ho.box, ho.holder, fun _ => ho.unread (.inl (hp ▸ trivial)), .inr (.inl rfl)⟩
    have happly := hs.parent_goes hlink (.inl hkept) hs.applied trivial
    have hst := ho.state
    unfold VfMsg.state at hst
    cases hg : m.grow <;> simpa [hg, hst] using happly
  case h_2 g hp =>
    obtain ⟨h, -⟩ | ⟨m, ho⟩ := id hlink
    · simp [hp, VfParent.Idle] at h
    obtain rfl : g = m.grow := by simpa [hp, VfParent.Idle] using ho.turn
    have heq := ho.unread (.inr hp)
    have hread : VfMsg.read m.grow s.box = m := by rw [ho.box, m.read_self]
    rw [hread, heq]
    refine hs.parent_goes hlink (.inl (.inr ⟨m, ho.state, ho.box, ho.holder, ?_, .inr (.inr ⟨rfl, rfl⟩)⟩))
      List.prefix_rfl trivial
    simp [VfParent.Idle]
  case h_3 hp =>
    obtain ⟨h, -⟩ | ⟨m, ho⟩ := id hlink
    · simp [hp, VfParent.Idle] at h
    have heq : s.applied = s.sent := by simpa [hp, VfParent.Idle] using ho.turn
    have hword : s.child.Word .VF_ACK := by
      rcases ho.holder with h | h
      · cases hc : s.child <;> rw [hc] at h <;> first | rfl | cases h
      · rw [h]
        exact .inr (.inl rfl)
    exact hs.parent_goes hlink (.inl (.inl ⟨trivial, heq, hword⟩)) hs.applied trivial
  case h_4 st hp =>
    rw [hp] at hseen
    split
    · exact hgo hp trivial trivial trivial
    · exact hgo hp trivial trivial hseen
  case h_5 st hp =>
    rw [hp] at hseen
    split
    case isTrue hc => exact hgo hp trivial trivial ⟨hseen, hc⟩
    split <;> exact hgo hp trivial trivial trivial
  case h_6 st hp =>
    rw [hp] at hseen
    split
    case isTrue => exact hgo hp trivial trivial trivial
    case isFalse hsame =>
      refine hback ?_ (.inr hseen.2)
      obtain ⟨-, heq, -⟩ | ⟨m, ho⟩ := hlink
      · exact heq
      · rw [not_not, ho.state] at hsame
        exact absurd hseen.1 (hsame ▸ not_or.mpr ⟨m.state_ne.1, m.state_ne.2.1⟩)
  case h_7 => exact hs.parent_goes hlink (.inr (.inl (.inl rfl))) hs.applied trivial
  all_goals exact hs

/-- Every run keeps the invariant. -/
theorem vf_run_ok (acts : List VfAct) : (vf_run msgs acts).Ok msgs := by
  unfold vf_run
  refine List.foldlRecOn (motive := (VfSys.Ok · msgs)) acts vf_step ?_ fun s hs act _ => ?_
  · exact ⟨fun _ => .inl rfl, List.nil_prefix, List.prefix_rfl, by simp [vf_start],
      .inl (.inl ⟨trivial, rfl, .inl rfl⟩), trivial⟩
  cases act with
  | child => exact vf_child_ok hs
  | parent fatal => exact vf_parent_ok hs fatal
  | kill_child =>
    refine ⟨fun h => absurd rfl h, hs.whole, hs.applied, by simp [vf_step], ?_,
      hs.seen.of_parent rfl (.inr rfl)⟩
    rcases hs.linked with (⟨hidle, heq, hword⟩ | ⟨m, ho⟩) | h | ⟨h, heq, -⟩
    · refine .inl (.inl ⟨hidle, heq, ?_⟩)
      change s.state = _ ∨ s.state = _ ∨ s.state = _
      have hcases := hword.cases
      tauto
    · exact .inl (.inr ⟨m, { ho with holder := .inr rfl }⟩)
    · exact .inr (.inl h)
    · exact .inr (.inr ⟨h, heq, .inr rfl⟩)
  | kill_parent =>
    exact ⟨fun h => (hs.sent h).imp_right fun hcut => ⟨hcut.1, .inr rfl⟩, hs.whole, hs.applied, hs.filled,
      .inr (.inl (.inr rfl)), trivial⟩

theorem vf_parent_frame (s : VfSys) (fatal : Bool) :
    (vf_parent s fatal).child = s.child ∧ (s.state ≠ m.state → (vf_parent s fatal).state ≠ m.state) := by
  have hne := m.state_ne
  unfold vf_parent
  split <;> grind

/-- How many of its steps the parent is from answering the message in the box. -/
def VfParent.rank : VfParent → Nat
  | .apply _ => 2
  | .load => 3
  | .wait _ | .reload _ => 4
  | .waitid _ => 5
  | _ => 1

theorem VfParent.rank_bounds (p : VfParent) : 0 < p.rank ∧ p.rank ≤ 5 := by
  unfold VfParent.rank
  split <;> decide

/-- A step of a parent in its loop answers the open message or brings the answer nearer. -/
theorem vf_parent_answers {s' : VfSys} {fatal : Bool} (hs' : s' = vf_parent s fatal) (hs : s.Ok msgs)
    (hm : s.state = m.state) (hlink : s.Linked) :
    s'.state ≠ m.state ∨ s'.Linked ∧ s'.parent.rank < s.parent.rank := by
  obtain ⟨hin, hin'⟩ := hlink.not_left
  have hok : s'.Ok msgs := hs' ▸ vf_parent_ok hs fatal
  obtain ⟨hidle, hack, -, hgone⟩ := m.state_ne
  have hseen := hs.seen
  suffices h : s'.state ≠ m.state ∨ (¬s'.parent.Left ∧ s'.parent ≠ .on false) ∧ s'.parent.rank < s.parent.rank from
    h.imp_right fun ⟨⟨hleft, hon⟩, hlt⟩ => ⟨hok.linked.resolve_right fun h => h.elim hleft fun h => hon h.1, hlt⟩
  -- the parent never waits on the word of a message
  have hword {st : VfState} (hst : st = .VF_IDLE ∨ st = .VF_ACK) : s.state ≠ st := by
    rw [hm]
    rcases hst with rfl | rfl
    · exact hidle
    · exact hack
  unfold VfSys.Seen at hseen
  unfold vf_parent at hs'
  split at hs' <;> subst hs'
  case h_1 hp =>
    have hgo : s.state = .VF_DATA ∨ s.state = .VF_GROW := by
      rw [hm, VfMsg.state]
      split <;> simp
    rcases hgo with h | h <;> simp [h, hp, hm ▸ h, VfParent.Left, VfParent.rank]
  case h_2 g hp =>
    rw [hp]
    exact .inr ⟨VfParent.not_left (fun _ => nofun) nofun, Nat.lt_succ_self 1⟩
  case h_3 => exact .inl hack.symm
  case h_4 st hp =>
    rw [hp] at hseen ⊢
    rw [if_pos (hword hseen)]
    exact .inr ⟨VfParent.Idle.not_left trivial, Nat.lt_succ_self 3⟩
  case h_5 st hp =>
    rw [hp]
    refine .inr ⟨VfParent.Idle.not_left ?_, ?_⟩
    · split
      · trivial
      · split <;> trivial
    · split
      · exact Nat.lt_succ_self 4
      · split
        · exact (by decide : 1 < 5)
        · exact (by decide : 3 < 5)
  case h_6 st hp =>
    rw [hp] at hseen ⊢
    rw [if_pos (hword hseen.1)]
    exact .inr ⟨VfParent.Idle.not_left trivial, Nat.lt_succ_self 3⟩
  case h_7 => exact .inl hgone.symm
  case h_8 b hp =>
    cases b with
    | false => exact absurd hp hin'
    | true => exact absurd (.inl hp) hin
  case h_9 hp => exact absurd (.inr hp) hin

/-- However its checks turn out, a parent in its loop answers an open message
within five steps. -/
theorem vf_parents_answer {answers : List Bool} (hs : s.Ok msgs)
    (h : s.state ≠ m.state ∨ s.Linked ∧ s.parent.rank ≤ answers.length) :
    (answers.foldl vf_parent s).state ≠ m.state ∧ (answers.foldl vf_parent s).child = s.child := by
  induction answers generalizing s with
  | nil =>
    rcases h with h | ⟨-, hrank⟩
    · exact ⟨h, rfl⟩
    · exact absurd hrank (Nat.not_le.mpr (VfParent.rank_bounds _).1)
  | cons f fs ih =>
    obtain ⟨hchild, hstays⟩ := vf_parent_frame (m := m) s f
    rw [List.foldl_cons, ← hchild]
    refine ih (vf_parent_ok hs f) ?_
    by_cases hm : s.state = m.state
    case neg => exact .inl (hstays hm)
    obtain ⟨hlink, hrank⟩ := h.resolve_left (absurd hm)
    refine (vf_parent_answers rfl hs hm hlink).imp_right fun ⟨hlink', hlt⟩ => ⟨hlink', ?_⟩
    rw [List.length_cons] at hrank
    omega

theorem vf_child_leaves (h : s.state ≠ m.state) (hc : s.child.awaits = some m) :
    (vf_child (vf_child s)).child.awaits = none := by
  cases hs : s.child <;> simp only [hs, VfChild.awaits, Option.some.injEq, reduceCtorEq] at hc
  all_goals
    subst hc
    grind [vf_child, VfChild.awaits]

/-- The child stores a message over the `VF_GONE` of a parent that has left. -/
def VfSys.Crosses (s : VfSys) (act : VfAct) : Prop :=
  act = .child ∧ s.state = .VF_GONE ∧ ∃ m todo, s.child = .post m todo

/-- No step of the run stores a message over `VF_GONE`. -/
def Uncrossed (msgs : List VfMsg) (acts : List VfAct) : Prop :=
  ∀ before act, before ++ [act] <+: acts → ¬(vf_run msgs before).Crosses act

theorem vf_run_concat (acts : List VfAct) (act : VfAct) :
    vf_run msgs (acts ++ [act]) = vf_step (vf_run msgs acts) act := by
  rw [vf_run, List.foldl_append]
  rfl

theorem uncrossed_concat {acts : List VfAct} {act : VfAct} :
    Uncrossed msgs (acts ++ [act]) ↔ Uncrossed msgs acts ∧ ¬(vf_run msgs acts).Crosses act := by
  refine ⟨fun h => ⟨fun before a hpre => h before a (hpre.trans (List.prefix_append ..)), h _ _ List.prefix_rfl⟩,
    fun ⟨hold, hnew⟩ before a hpre => ?_⟩
  rcases List.prefix_concat_iff.mp hpre with heq | hpre
  · obtain ⟨rfl, hact⟩ := List.append_inj' heq rfl
    cases hact
    exact hnew
  · exact hold before a hpre

/-- The child polls for good: the word is its own message, and nobody will answer it. -/
def VfSys.Starved (s : VfSys) : Prop := s.parent = .on true ∧ ∃ m, s.child.awaits = some m ∧ s.state = m.state

/-- What a parent that left finds in the word, by whether a message was stored over its `VF_GONE`. -/
structure VfSys.Parted (s : VfSys) (uncrossed : Prop) : Prop where
  gone : s.state = .VF_GONE → s.parent.Left
  kept : uncrossed → s.parent = .on true →
    s.state = .VF_GONE ∨ s.state = .VF_DONE ∧ (s.child = .gone ∨ s.child = .dead)
  starved : ¬uncrossed → s.Starved ∨ s.child = .dead ∨ s.parent = .killed

theorem VfSys.Starved.stays (h : s.Starved) : (vf_child s).Starved := by
  obtain ⟨hp, m, hm, hst⟩ := h
  have hack : s.state ≠ .VF_ACK := hst ▸ m.state_ne.2.1
  unfold vf_child
  split
  case h_4 hc =>
    rw [hc] at hm
    cases hm
    rw [if_neg hack, if_neg (not_not.mpr hst)]
    exact ⟨hp, m, rfl, hst⟩
  case h_5 hc =>
    rw [hc] at hm
    cases hm
    rw [if_neg (by rw [hp]; exact nofun)]
    exact ⟨hp, m, rfl, hst⟩
  case h_6 | h_7 => exact ⟨hp, m, hm, hst⟩
  all_goals
    rename_i hc
    rw [hc] at hm
    cases hm

theorem vf_child_parent (s : VfSys) : (vf_child s).parent = s.parent := by
  unfold vf_child
  split <;> rfl

theorem vf_child_parted {uncrossed : Prop} (h : s.Parted uncrossed) :
    (vf_child s).Parted (uncrossed ∧ ¬s.Crosses .child) := by
  refine ⟨fun hst => ?_, fun ⟨hu, hcross⟩ hp => ?_, fun hc => ?_⟩
  · rw [vf_child_parent]
    unfold vf_child at hst
    split at hst
    case h_1 => cases hst
    case h_3 m todo _ => exact absurd hst m.state_ne.2.2.2
    all_goals exact h.gone hst
  · rw [vf_child_parent] at hp
    have hold := h.kept hu hp
    unfold vf_child
    split
    case h_1 => exact .inr ⟨rfl, .inl rfl⟩
    case h_3 m todo hc =>
      rw [hc] at hold
      rcases hold with hst | ⟨-, hover⟩
      · exact absurd ⟨rfl, hst, m, todo, hc⟩ hcross
      · exact hover.elim nofun nofun
    case h_6 | h_7 => exact hold
    all_goals
      rename_i hc
      rw [hc] at hold
      exact .inl (hold.resolve_right fun hover => hover.2.elim nofun nofun)
  by_cases hcross : s.Crosses .child
  · obtain ⟨-, hst, m, todo, hpost⟩ := hcross
    rcases h.gone hst with hp | hp
    · rw [vf_child, hpost]
      exact .inl ⟨hp, m, rfl, rfl⟩
    · exact .inr (.inr ((vf_child_parent s).trans hp))
  rcases h.starved fun hu => hc ⟨hu, hcross⟩ with hs | hdead | hkill
  · exact .inl hs.stays
  · rw [vf_child, hdead]
    exact .inr (.inl hdead)
  · exact .inr (.inr ((vf_child_parent s).trans hkill))

theorem vf_parent_parted {uncrossed : Prop} (h : s.Parted uncrossed) (fatal : Bool) :
    (vf_parent s fatal).Parted uncrossed := by
  by_cases hleft : s.parent.Left
  · rw [vf_parent_stays hleft]
    exact h
  have hgone : s.state ≠ .VF_GONE := fun hst => hleft (h.gone hst)
  refine ⟨fun hst => ?_, fun _ hp => ?_, fun hc => ?_⟩
  · unfold vf_parent at hst ⊢
    split at hst
    case h_3 => cases hst
    case h_7 => exact .inl rfl
    all_goals exact absurd hst hgone
  · unfold vf_parent at hp ⊢
    split
    case h_7 => exact .inl rfl
    case h_8 hq | h_9 hq =>
      rw [hq] at hp
      exact absurd (.inl hp) hleft
    case h_2 hq | h_3 hq =>
      rw [hq] at hp
      cases hp
    case h_5 hq =>
      rw [hq] at hp
      dsimp only at hp
      split at hp
      · cases hp
      · split at hp <;> cases hp
    all_goals
      rename_i hq
      rw [hq] at hp
      dsimp only at hp
      split at hp <;> cases hp
  · rcases h.starved hc with hs | hdead | hkill
    · exact absurd (.inl hs.1) hleft
    · exact .inr (.inl ((vf_parent_frame (m := ⟨true, 0#64, [], nofun⟩) s fatal).1.trans hdead))
    · exact absurd (.inr hkill) hleft

/-- Every run, by whether it crossed. -/
theorem vf_run_parted (acts : List VfAct) : (vf_run msgs acts).Parted (Uncrossed msgs acts) := by
  induction acts using List.reverseRecOn with
  | nil =>
    refine ⟨nofun, fun _ => nofun, fun hc => absurd (fun before act hpre => ?_) hc⟩
    exact absurd (List.prefix_nil.mp hpre) (List.append_ne_nil_of_right_ne_nil _ (List.cons_ne_nil _ _))
  | append_singleton acts act ih =>
    rw [vf_run_concat, uncrossed_concat]
    generalize vf_run msgs acts = s at ih ⊢
    have hother (hact : act ≠ .child) : (Uncrossed msgs acts ∧ ¬s.Crosses act) = Uncrossed msgs acts :=
      propext (and_iff_left fun hcross => hact hcross.1)
    cases act with
    | child => exact vf_child_parted ih
    | parent fatal =>
      rw [hother nofun]
      exact vf_parent_parted ih fatal
    | kill_child =>
      rw [hother nofun]
      exact ⟨ih.gone, fun hu hp => (ih.kept hu hp).imp_right fun h => ⟨h.1, .inr rfl⟩, fun _ => .inr (.inl rfl)⟩
    | kill_parent => exact ⟨fun _ => .inr rfl, fun _ => nofun, fun _ => .inr (.inr rfl)⟩

theorem vf_wait_over {acts : List VfAct} (hm : (vf_run msgs acts).child.awaits = some m)
    (halive : (vf_run msgs acts).parent ≠ .killed) (hcross : Uncrossed msgs acts) {answers : List Bool}
    (hlen : 5 ≤ answers.length) :
    (vf_child (vf_child (answers.foldl vf_parent (vf_run msgs acts)))).child.awaits = none := by
  have hs : (vf_run msgs acts).Ok msgs := vf_run_ok acts
  have hopen : (vf_run msgs acts).state ≠ m.state ∨
      (vf_run msgs acts).Linked ∧ (vf_run msgs acts).parent.rank ≤ answers.length := by
    rcases hs.linked with hlink | (hleft | hleft) | ⟨-, -, hover⟩
    · exact .inr ⟨hlink, (VfParent.rank_bounds _).2.trans hlen⟩
    · refine .inl ?_
      rcases (vf_run_parted acts).kept hcross hleft with hst | ⟨hst, -⟩
      · exact hst ▸ m.state_ne.2.2.2.symm
      · exact hst ▸ m.state_ne.2.2.1.symm
    · exact absurd hleft halive
    · rcases hover with h | h <;> rw [h] at hm <;> cases hm
  obtain ⟨hans, hchild⟩ := vf_parents_answer hs hopen
  exact vf_child_leaves hans (hchild ▸ hm)

/-- The exchange, over every interleaving and every moment at which either side may die or the parent give up: the
parent applies what is sent in order, once each, and goes on with all of it; and a child that waits on a living parent
is answered exactly if it never stored a message over `VF_GONE`. -/
theorem vfork_exchange (msgs : List VfMsg) (acts : List VfAct) :
    let s := vf_run msgs acts
    s.applied <+: s.sent ∧ s.sent <+: msgs ∧
      (s.parent = .on false → s.applied = s.sent ∧ (s.child = .gone ∧ s.applied = msgs ∨ s.child = .dead)) ∧
      ∀ m, s.child.awaits = some m → s.parent ≠ .killed →
        ((∀ answers : List Bool, 5 ≤ answers.length →
          (vf_child (vf_child (answers.foldl vf_parent s))).child.awaits = none) ↔ Uncrossed msgs acts) := by
  intro s
  have hs : s.Ok msgs := vf_run_ok acts
  refine ⟨hs.applied, hs.whole, fun h => ?_, fun m hm halive =>
    ⟨fun hall => by_contra fun hcross => ?_, fun hcross answers => vf_wait_over hm halive hcross⟩⟩
  · rcases hs.linked with hlink | (hleft | hleft) | ⟨-, heq, hover⟩
    · exact absurd h hlink.not_left.2
    · simp [h] at hleft
    · simp [h] at hleft
    refine ⟨heq, hover.imp_left fun hgone => ⟨hgone, ?_⟩⟩
    rw [heq]
    simpa [hgone, VfChild.todo, h, VfParent.Left] using hs.sent (by simp [hgone])
  rcases (vf_run_parted acts).starved hcross with hstarved | hdead | hkill
  · have hnone := hall (List.replicate 5 false) le_rfl
    rw [List.foldl_fixed' (vf_parent_stays (.inl hstarved.1))] at hnone
    obtain ⟨-, m', hm', -⟩ := hstarved.stays.stays
    cases hm'.symm.trans hnone
  · cases hm.symm.trans (congrArg VfChild.awaits hdead)
  · exact halive hkill

def one_byte : VfMsg := ⟨false, 0#64, [1#8], by decide⟩

/-- A message posted over the word of a parent that left for a sibling's `execve`:
the child polls and sleeps for good. -/
theorem message_over_gone_starves :
    let s := vf_run [one_byte] [.child, .parent false, .parent false, .parent true, .parent false, .child]
    s.parent = .on true ∧ s.child.awaits = some one_byte ∧ vf_child (vf_child s) = s ∧
      ∀ fatal, vf_parent s fatal = s ∧ vf_parent (vf_child s) fatal = vf_child s :=
  ⟨rfl, rfl, rfl, fun _ => ⟨rfl, rfl⟩⟩

end arm64emu
