import Mathlib
import Arm64Emu.Lib.Slots
import Arm64Emu.Signal.Inbox

namespace arm64emu

open Function Option List

open transition

section invariant

variable {ι : Type}

/-- The slot a thread has to itself: a sender that claimed it, or a thread of the
receiver that took it. -/
def CarryPc.held : CarryPc → Option Nat
  | .draw _ i _ | .store _ i _ _ | .unmark _ i _ | .publish _ i _ | .copy i _ _ _ | .release i _ _ _ => some i
  | _ => none

/-- What a thread knows of the slot it has to itself, and of the word it read. -/
def CarryPc.Ok (s : Inbox ι) : CarryPc → Prop
  | .claim _ _ w => w.st = .free
  | .age _ _ w | .pending _ _ w | .idle_word _ _ w | .mark_ms _ _ w | .mark_word _ _ w | .idle_ms _ _ w
  | .reclaim _ _ w => w.st = .posted
  | .draw _ i _ => (s.slot i).word.st = .writing
  | .store c i _ j => (s.slot i).word.st = .writing ∧
      ∀ k < j, ∀ f, carry_fields[k]? = some f → (s.slot i).field f = c.field f
  | .unmark c i _ | .publish c i _ => (s.slot i).word.st = .writing ∧ (s.slot i).field = c.field
  | .copy i n p out => ((s.slot i).word = ⟨n, .taking⟩ ∧ (s.slot i).post = some p ∧ .took p ∈ s.events) ∧
      out = (carry_fields.take out.length).map (s.slot i).field
  | .release i n p out => ((s.slot i).word = ⟨n, .taking⟩ ∧ (s.slot i).post = some p ∧ .took p ∈ s.events) ∧
      out = carry_fields.map (s.slot i).field
  | _ => True

/-- A slot that is posted or being taken has a post's fields in it. -/
def Inbox.Filled (s : Inbox ι) (i : Nat) : Prop :=
  (s.slot i).word.st = .posted ∨ (s.slot i).word.st = .taking → ∃ p b, (s.slot i).post = some p ∧
    s.posts[p]? = some b ∧ b.slot = i ∧ b.nonce = (s.slot i).word.nonce ∧ (s.slot i).field = b.field

/-- What was taken or cancelled is over: it is in no slot, and nothing takes it after. -/
structure Inbox.Log (s : Inbox ι) : Prop where
  bound : ∀ e ∈ s.events, e.post < s.posts.length
  gone : ∀ e ∈ s.events, ∀ i, (s.slot i).word.st = .posted → (s.slot i).post ≠ some e.post
  once : s.events.Pairwise fun e e' => ∀ p, e = .took p → e'.post ≠ p
  whole : ∀ i n out, (i, n, out) ∈ s.taken → ∃ p b, s.posts[p]? = some b ∧ b.slot = i ∧ b.nonce = n ∧
    out = carry_fields.map b.field ∧ .took p ∈ s.events

structure Inbox.Ok (s : Inbox ι) : Prop where
  pcs : ∀ x, (s.pc x).Ok s
  alone : ∀ x y i, (s.pc x).held = some i → (s.pc y).held = some i → x = y
  filled : ∀ i, s.Filled i
  log : s.Log

variable {s s' : Inbox ι} {p : CarryPc} {i : Nat}

theorem CarryPc.Ok.held_st (h : p.Ok s) (hi : p.held = some i) :
    (s.slot i).word.st = .writing ∨ (s.slot i).word.st = .taking := by
  cases p with
  | draw =>
    cases hi
    exact .inl h
  | store | unmark | publish =>
    cases hi
    exact .inl h.1
  | copy | release =>
    cases hi
    exact .inr (congrArg CarryWord.st h.1.1)
  | _ => cases hi

/-- Two slots alike but for the marks of staleness. -/
structure CarrySlot.Same (a b : CarrySlot) : Prop where
  word : b.word = a.word
  field : b.field = a.field
  post : b.post = a.post

theorem CarrySlot.Same.rfl {a : CarrySlot} : a.Same a := ⟨Eq.refl _, Eq.refl _, Eq.refl _⟩

theorem CarryPc.Ok.frame (h : p.Ok s) (hslot : ∀ i, p.held = some i → (s.slot i).Same (s'.slot i))
    (hevents : ∀ e ∈ s.events, e ∈ s'.events) : p.Ok s' := by
  cases p with
  | draw c i old =>
    have hsame := hslot i rfl
    rw [CarryPc.Ok, hsame.word]
    exact h
  | store c i n j | unmark c i n | publish c i n =>
    have hsame := hslot i rfl
    rw [CarryPc.Ok, hsame.word, hsame.field]
    exact h
  | copy i n q out | release i n q out =>
    have hsame := hslot i rfl
    rw [CarryPc.Ok, hsame.word, hsame.field, hsame.post]
    exact ⟨⟨h.1.1, h.1.2.1, hevents _ h.1.2.2⟩, h.2⟩
  | _ => exact h

theorem carry_next_held {p q : CarryPc} (hp : p.held = none) (hq : q.held = none) :
    (carry_next i p q).held = none := by
  unfold carry_next
  split
  · exact hp
  · exact hq

theorem carry_next_ok {p q : CarryPc} (hp : p.Ok s) (hq : q.Ok s) : (carry_next i p q).Ok s := by
  unfold carry_next
  split
  · exact hp
  · exact hq

end invariant

section changes

variable {ι : Type} {s : Inbox ι} {x : ι} {i : Nat} {q : CarryPc}

theorem Inbox.Ok.not_held (h : s.Ok) (hi : (s.slot i).word.st = .free ∨ (s.slot i).word.st = .posted) (y : ι) :
    (s.pc y).held ≠ some i := fun hy => by
  rcases (h.pcs y).held_st hy with hst | hst <;> rw [hst] at hi <;> rcases hi with hi | hi <;> cases hi

theorem Inbox.Ok.others (h : s.Ok) (hx : (s.pc x).held = some i) {y : ι} (hy : y ≠ x) : (s.pc y).held ≠ some i :=
  fun hyi => hy (h.alone y x i hyi hx)

theorem Inbox.Ok.elsewhere (h : s.Ok) {p : Nat} {b : CarryPost} (hb : s.posts[p]? = some b) {k : Nat}
    (hk : (s.slot k).word.st = .posted) (hne : k ≠ b.slot) : (s.slot k).post ≠ some p := fun hp => by
  obtain ⟨p', b', hp', hb', hslot, -⟩ := h.filled k (.inl hk)
  rw [hp] at hp'
  obtain rfl := some.inj hp'
  rw [hb] at hb'
  obtain rfl := some.inj hb'
  exact hne hslot.symm

variable {c : CarrySlot}

theorem Inbox.Log.same (h : s.Log) (hc : c.word.st ≠ .posted) (pc : ι → CarryPc) (g_carry_ctr : Nat) :
    (⟨update s.slot i c, g_carry_ctr, pc, s.posts, s.events, s.taken⟩ : Inbox ι).Log := by
  refine { h with gone := fun e he k hk => ?_ }
  dsimp only at hk ⊢
  by_cases hki : k = i
  · rw [hki, update_self] at hk
    exact absurd hk hc
  · rw [update_of_ne hki] at hk ⊢
    exact h.gone e he k hk

theorem Inbox.Log.event (h : s.Log) (hok : s.Ok) {e : CarryEvent} {b : CarryPost} (hb : s.posts[e.post]? = some b)
    (hc : c.word.st ≠ .posted) (hfresh : ∀ p, e = .took p → (s.slot b.slot).word.st = .posted ∧
      (s.slot b.slot).post = some p) (pc : ι → CarryPc) :
    (⟨update s.slot b.slot c, s.g_carry_ctr, pc, s.posts, e :: s.events, s.taken⟩ : Inbox ι).Log := by
  refine ⟨forall_mem_cons.2 ⟨(List.getElem?_eq_some_iff.1 hb).1, h.bound⟩, fun e' he' k hk => ?_,
    pairwise_cons.2 ⟨fun e' he' p hp heq => ?_, h.once⟩, fun i n out hout => ?_⟩
  · dsimp only at hk ⊢
    by_cases hki : k = b.slot
    · rw [hki, update_self] at hk
      exact absurd hk hc
    rw [update_of_ne hki] at hk ⊢
    rcases mem_cons.1 he' with rfl | he'
    · exact hok.elsewhere hb hk hki
    · exact h.gone e' he' k hk
  · -- a post that is still in its slot is in none of the events so far
    obtain ⟨hst, hpost⟩ := hfresh p hp
    exact h.gone e' he' b.slot hst (heq ▸ hpost)
  · obtain ⟨p, b', hb', hslot, hn, hval, hmem⟩ := h.whole i n out hout
    exact ⟨p, b', hb', hslot, hn, hval, mem_cons_of_mem _ hmem⟩

variable [DecidableEq ι]

theorem Inbox.Ok.quiet (h : s.Ok) {slot : Nat → CarrySlot} (g_carry_ctr : Nat)
    (hslot : ∀ k, (s.slot k).Same (slot k)) (hheld : q.held = (s.pc x).held) (hq : q.Ok s) :
    (⟨slot, g_carry_ctr, update s.pc x q, s.posts, s.events, s.taken⟩ : Inbox ι).Ok := by
  have hsame : ∀ y, (update s.pc x q y).held = (s.pc y).held :=
    (forall_update_iff s.pc fun y p => p.held = (s.pc y).held).2 ⟨hheld, fun _ _ => rfl⟩
  refine ⟨(forall_update_iff s.pc fun _ p => p.Ok _).2 ⟨?_, fun y _ => ?_⟩,
    fun y z k hy hz => h.alone y z k ((hsame y).symm.trans hy) ((hsame z).symm.trans hz),
    fun k => ?_, ⟨h.log.bound, fun e he k hk => ?_, h.log.once, h.log.whole⟩⟩
  · exact hq.frame (fun k _ => hslot k) fun e he => he
  · exact (h.pcs y).frame (fun k _ => hslot k) fun e he => he
  · have hfilled := h.filled k
    rw [Inbox.Filled] at hfilled ⊢
    rw [(hslot k).word, (hslot k).field, (hslot k).post]
    exact hfilled
  dsimp only at hk ⊢
  rw [(hslot k).word] at hk
  rw [(hslot k).post]
  exact h.log.gone e he k hk

theorem Inbox.Ok.change (h : s.Ok) {posts : List CarryPost} {events : List CarryEvent}
    {taken : List (Nat × Nat × List Int)} (hothers : ∀ y, y ≠ x → (s.pc y).held ≠ some i)
    (hheld : ∀ k, q.held = some k → k = i)
    (hposts : ∀ (p : Nat) (b : CarryPost), s.posts[p]? = some b → posts[p]? = some b)
    (hevents : ∀ e ∈ s.events, e ∈ events)
    (hq : q.Ok ⟨update s.slot i c, s.g_carry_ctr, update s.pc x q, posts, events, taken⟩)
    (hfilled : c.word.st = .posted ∨ c.word.st = .taking → ∃ p b, c.post = some p ∧ posts[p]? = some b ∧
      b.slot = i ∧ b.nonce = c.word.nonce ∧ c.field = b.field)
    (hlog : (⟨update s.slot i c, s.g_carry_ctr, update s.pc x q, posts, events, taken⟩ :
      Inbox ι).Log) :
    (⟨update s.slot i c, s.g_carry_ctr, update s.pc x q, posts, events, taken⟩ : Inbox ι).Ok := by
  have hslot (k : Nat) (hk : k ≠ i) : update s.slot i c k = s.slot k := update_of_ne hk _ _
  refine ⟨(forall_update_iff s.pc fun _ p => p.Ok _).2 ⟨hq, fun y hy => ?_⟩,
    fun y z k => slots.update_unique (P := fun p : CarryPc => p.held = some k) (fun y z => h.alone y z k)
      fun hk y hy hyk => hothers y hy (hheld k hk ▸ hyk), fun k => ?_, hlog⟩
  · refine (h.pcs y).frame (fun k hk => ?_) hevents
    have hne : k ≠ i := fun heq => hothers y hy (heq ▸ hk)
    show (s.slot k).Same (update s.slot i c k)
    rw [hslot k hne]
    exact .rfl
  rw [Inbox.Filled]
  dsimp only
  by_cases hk : k = i
  · rw [hk, update_self]
    exact hfilled
  rw [hslot k hk]
  intro hst
  obtain ⟨p, b, hp, hb, hrest⟩ := h.filled k hst
  exact ⟨p, b, hp, hposts p b hb, hrest⟩

end changes

section steps

variable {ι : Type} [DecidableEq ι] {s s' : Inbox ι} {x : ι}

theorem Inbox.Ok.moves (h : s.Ok) {q : CarryPc} (hheld : q.held = (s.pc x).held) (hq : q.Ok s) :
    (s.at_pc x q).Ok :=
  h.quiet s.g_carry_ctr (fun _ => .rfl) hheld hq

theorem Inbox.Ok.marks (h : s.Ok) {q : CarryPc} {i : Nat} {c : CarrySlot} (hc : (s.slot i).Same c)
    (hheld : q.held = (s.pc x).held) (hq : q.Ok s) : ((s.set i c).at_pc x q).Ok := by
  exact h.quiet s.g_carry_ctr
    ((forall_update_iff s.slot fun k c => (s.slot k).Same c).2 ⟨hc, fun _ _ => .rfl⟩) hheld hq

theorem Inbox.Ok.look (h : s.Ok) {host : Bool} (hgo : post_look s x host (s.pc x) = some s') : s'.Ok := by
  have hx := h.pcs x
  cases hpc : s.pc x <;> rw [hpc] at hx <;> rw [hpc, post_look] at hgo
  case scan c i =>
    cases hgo
    refine h.moves ?_ ?_
    · rw [hpc]
      split
      · rfl
      · exact carry_next_held rfl rfl
    split
    case isTrue hfree => exact hfree
    case isFalse => exact carry_next_ok trivial trivial
  case stale c i =>
    cases hgo
    refine h.moves ?_ ?_
    · rw [hpc]
      split
      · rfl
      · exact carry_next_held rfl rfl
    split
    case isTrue hposted => exact hposted
    case isFalse => exact carry_next_ok trivial trivial
  case idle_word c i w =>
    cases hgo
    refine h.moves ?_ ?_
    · rw [hpc]
      split <;> rfl
    split
    · exact hx
    · exact hx
  case mark_ms c i w =>
    cases hgo
    exact h.marks (q := .mark_word c i w) ⟨rfl, rfl, rfl⟩ (by rw [hpc]; rfl) hx
  case mark_word c i w =>
    cases hgo
    refine h.marks ⟨rfl, rfl, rfl⟩ ?_ (carry_next_ok trivial trivial)
    rw [hpc]
    exact carry_next_held rfl rfl
  -- the tests that go on to the next slot if they fail
  case age | pending | idle_ms =>
    cases hgo
    refine h.moves ?_ ?_
    · rw [hpc]
      split
      · exact carry_next_held rfl rfl
      · rfl
    split
    · exact carry_next_ok trivial trivial
    · exact hx
  all_goals cases hgo

theorem Inbox.Ok.grab (h : s.Ok) {i : Nat} (hi : (s.slot i).word.st = .free ∨ (s.slot i).word.st = .posted)
    (n old : Nat) (post : Option Nat) (c : CarryIn) :
    ((s.set i { s.slot i with word := ⟨n, .writing⟩, post }).at_pc x (.draw c i old)).Ok := by
  refine h.change (fun y _ => h.not_held hi y) (fun k hk => (some.inj hk).symm) (fun _ _ hb => hb)
    (fun _ he => he) ?_ ?_ (h.log.same (c := { s.slot i with word := ⟨n, .writing⟩, post }) nofun _ _)
  · exact congrArg (fun c : CarrySlot => c.word.st) (update_self i _ s.slot)
  · rintro (hst | hst) <;> cases hst

theorem carry_fields_mem (f : CarryField) : f ∈ carry_fields := by
  cases f <;> decide

theorem Inbox.Ok.stores (h : s.Ok) {c : CarryIn} {i n j : Nat} (hpc : s.pc x = .store c i n j) {f : CarryField}
    (hf : carry_fields[j]? = some f) :
    ((s.set i { s.slot i with field := update (s.slot i).field f (c.field f) }).at_pc x
      (.store c i n (j + 1))).Ok := by
  obtain ⟨hst, hstored⟩ : (CarryPc.store c i n j).Ok s := hpc ▸ h.pcs x
  have hwriting : (s.slot i).word.st ≠ .posted ∧ (s.slot i).word.st ≠ .taking := by
    rw [hst]
    exact ⟨nofun, nofun⟩
  refine h.change (fun y hy => h.others (by rw [hpc]; rfl) hy) (fun k hk => (some.inj hk).symm)
    (fun _ _ hb => hb) (fun _ he => he) ?_ ?_
    (h.log.same (c := { s.slot i with field := update (s.slot i).field f (c.field f) }) hwriting.1 _ _)
  · rw [CarryPc.Ok]
    dsimp only
    rw [update_self]
    refine ⟨hst, fun k hk f' hf' => ?_⟩
    dsimp only
    by_cases hff : f' = f
    · rw [hff, update_self]
    rw [update_of_ne hff]
    refine hstored k (Nat.lt_of_le_of_ne (Nat.le_of_lt_succ hk) fun heq => hff ?_) f' hf'
    rw [heq, hf] at hf'
    exact (some.inj hf').symm
  rintro (hposted | htaking)
  · exact absurd hposted hwriting.1
  · exact absurd htaking hwriting.2

theorem Inbox.Ok.publish (h : s.Ok) {c : CarryIn} {i n : Nat} (hpc : s.pc x = .publish c i n) :
    ({ s.set i { s.slot i with word := ⟨n, .posted⟩, post := some s.posts.length } with
      posts := s.posts ++ [({ slot := i, nonce := n, field := c.field } : CarryPost)] }.at_pc x .idle).Ok := by
  obtain ⟨-, hfield⟩ : (CarryPc.publish c i n).Ok s := hpc ▸ h.pcs x
  have hposts (p : Nat) (b : CarryPost) (hb : s.posts[p]? = some b) :
      (s.posts ++ [({ slot := i, nonce := n, field := c.field } : CarryPost)])[p]? = some b := by
    rw [List.getElem?_append_left (List.getElem?_eq_some_iff.1 hb).1]
    exact hb
  refine h.change (q := .idle) (fun y hy => h.others (by rw [hpc]; rfl) hy) nofun hposts (fun _ he => he) trivial ?_
    ⟨fun e he => ?_, fun e he k hk => ?_, h.log.once, fun i' n' out hout => ?_⟩
  · refine fun _ => ⟨s.posts.length, ⟨i, n, c.field⟩, rfl, ?_, rfl, rfl, hfield⟩
    rw [List.getElem?_append_right (Nat.le_refl _), Nat.sub_self]
    rfl
  · have hlt := h.log.bound e he
    dsimp only
    rw [length_append]
    omega
  · dsimp only at hk ⊢
    by_cases hki : k = i
    · -- a new post is none of those that are over
      rw [hki, update_self]
      intro heq
      have hlt := h.log.bound e he
      have := some.inj heq
      omega
    · rw [update_of_ne hki] at hk ⊢
      exact h.log.gone e he k hk
  · obtain ⟨p, b, hb, hrest⟩ := h.log.whole i' n' out hout
    exact ⟨p, b, hposts p b hb, hrest⟩

theorem Inbox.Ok.post (h : s.Ok) (hgo : post_go s x (s.pc x) = some s') : s'.Ok := by
  have hx := h.pcs x
  cases hpc : s.pc x <;> rw [hpc, post_go] at hgo
  case claim c i w =>
    split at hgo
    case isTrue hw =>
      cases hgo
      rw [hpc] at hx
      exact h.grab (.inl (hw ▸ hx)) w.nonce w.nonce (s.slot i).post c
    case isFalse =>
      cases hgo
      refine h.moves ?_ (carry_next_ok trivial trivial)
      rw [hpc]
      exact carry_next_held rfl rfl
  case reclaim c i w =>
    split at hgo
    case isTrue hw =>
      cases hgo
      rw [hpc] at hx
      exact h.grab (.inr (hw ▸ hx)) w.nonce w.nonce none c
    case isFalse =>
      cases hgo
      refine h.moves ?_ (carry_next_ok trivial trivial)
      rw [hpc]
      exact carry_next_held rfl rfl
  case draw c i old =>
    cases hgo
    rw [hpc] at hx
    refine h.quiet _ (fun _ => .rfl) ?_ ?_
    · rw [hpc]
      split <;> rfl
    split
    · exact hx
    · exact ⟨hx, fun k hk => absurd hk (Nat.not_lt_zero k)⟩
  case store c i n j =>
    cases hf : carry_fields[j]? with
    | some f =>
      rw [hf] at hgo
      cases hgo
      exact h.stores hpc hf
    | none =>
      rw [hf] at hgo
      cases hgo
      rw [hpc] at hx
      refine h.moves (q := .unmark c i n) (by rw [hpc]; rfl) ⟨hx.1, funext fun f => ?_⟩
      obtain ⟨k, hk⟩ := mem_iff_getElem?.1 (carry_fields_mem f)
      have hlen := List.getElem?_eq_none_iff.1 hf
      exact hx.2 k (Nat.lt_of_lt_of_le (List.getElem?_eq_some_iff.1 hk).1 hlen) f hk
  case unmark c i n =>
    cases hgo
    rw [hpc] at hx
    exact h.marks (q := .publish c i n) ⟨rfl, rfl, rfl⟩ (by rw [hpc]; rfl) hx
  case publish c i n =>
    cases hgo
    exact h.publish hpc
  all_goals cases hgo

theorem Inbox.Ok.takes (h : s.Ok) {i n : Nat} (hw : (s.slot i).word = ⟨n, .posted⟩) :
    ({ s.set i { s.slot i with word := ⟨n, .taking⟩ } with
      events := .took (((s.slot i).post).getD 0) :: s.events }.at_pc x
        (.copy i n (((s.slot i).post).getD 0) [])).Ok := by
  have hposted : (s.slot i).word.st = .posted := congrArg CarryWord.st hw
  obtain ⟨p, b, hp, hb, rfl, hn, hfield⟩ := h.filled i (.inl hposted)
  rw [hp, getD_some]
  refine h.change (fun y _ => h.not_held (.inr hposted) y) (fun k hk => (some.inj hk).symm) (fun _ _ hb => hb)
    (fun _ he => .tail _ he) ?_ (fun _ => ⟨p, b, hp, hb, rfl, ?_, hfield⟩)
    (h.log.event h (e := .took p) hb (c := { s.slot b.slot with word := ⟨n, .taking⟩ }) nofun (fun p' hp' => ?_) _)
  · rw [CarryPc.Ok]
    dsimp only
    rw [update_self]
    exact ⟨⟨rfl, hp, .head _⟩, rfl⟩
  · rw [hn, hw]
  · exact ⟨hposted, hp.trans (congrArg some (CarryEvent.took.inj hp'))⟩

theorem Inbox.Ok.releases (h : s.Ok) {i n p : Nat} {out : List Int} (hpc : s.pc x = .release i n p out) :
    ({ s.set i { s.slot i with word := ⟨n, .free⟩, post := none } with
      taken := (i, n, out) :: s.taken }.at_pc x .idle).Ok := by
  obtain ⟨⟨hw, hp, htook⟩, hout⟩ : (CarryPc.release i n p out).Ok s := hpc ▸ h.pcs x
  obtain ⟨p', b, hp', hb, hslot, hn, hfield⟩ := h.filled i (.inr (congrArg CarryWord.st hw))
  rw [hp] at hp'
  obtain rfl := some.inj hp'
  have hlog := h.log.same (i := i) (c := { s.slot i with word := ⟨n, .free⟩, post := none }) nofun
    (update s.pc x .idle) s.g_carry_ctr
  refine h.change (q := .idle) (fun y hy => h.others (by rw [hpc]; rfl) hy) nofun (fun _ _ hb => hb) (fun _ he => he)
    trivial ?_ { hlog with whole := fun i' n' out' hmem => ?_ }
  · rintro (hst | hst) <;> cases hst
  rcases mem_cons.1 hmem with heq | hmem
  · obtain ⟨hi', heq⟩ := Prod.mk.inj heq
    obtain ⟨hn', hout'⟩ := Prod.mk.inj heq
    rw [hi', hn', hout']
    refine ⟨p, b, hb, hslot, hn.trans (congrArg CarryWord.nonce hw), ?_, htook⟩
    rw [hout, hfield]
  · exact h.log.whole i' n' out' hmem

theorem Inbox.Ok.take (h : s.Ok) (hgo : take_go s x (s.pc x) = some s') : s'.Ok := by
  have hx := h.pcs x
  cases hpc : s.pc x <;> rw [hpc] at hx <;> rw [hpc, take_go] at hgo
  case word i n hs jc | hsig i n hs jc | jc i n jc =>
    cases hgo
    refine h.moves ?_ ?_
    · rw [hpc]
      split <;> rfl
    · split <;> trivial
  case take i n =>
    split at hgo
    case isTrue hw =>
      cases hgo
      exact h.takes hw
    case isFalse =>
      cases hgo
      exact h.moves (q := .idle) (by rw [hpc]; rfl) trivial
  case copy i n p out =>
    obtain ⟨hmine, hout⟩ := hx
    cases hf : carry_fields[out.length]? with
    | some f =>
      rw [hf] at hgo
      cases hgo
      refine h.moves (q := .copy i n p _) (by rw [hpc]; rfl) ⟨hmine, ?_⟩
      rw [length_append, length_singleton, take_add_one, hf, map_append, ← hout]
      rfl
    | none =>
      rw [hf] at hgo
      cases hgo
      have hlen := List.getElem?_eq_none_iff.1 hf
      refine h.moves (q := .release i n p out) (by rw [hpc]; rfl) ⟨hmine, ?_⟩
      rwa [take_of_length_le hlen] at hout
  case release i n p out =>
    cases hgo
    exact h.releases hpc
  all_goals cases hgo

theorem Inbox.Ok.cancels (h : s.Ok) {p : Nat} (hidle : s.pc x = .idle) (hgo : cancel_step s p = some s') : s'.Ok := by
  rw [cancel_step] at hgo
  cases hb : s.posts[p]? with
  | none =>
    rw [hb] at hgo
    cases hgo
  | some b =>
    rw [hb] at hgo
    dsimp only at hgo
    split at hgo
    case isTrue hw =>
      cases hgo
      have hposted : (s.slot b.slot).word.st = .posted := congrArg CarryWord.st hw
      have hsame : update s.pc x .idle = s.pc := by rw [← hidle, update_eq_self]
      have hchange : (⟨update s.slot b.slot { s.slot b.slot with word := ⟨b.nonce, .free⟩, post := none },
          s.g_carry_ctr, update s.pc x .idle, s.posts, .cancelled p :: s.events, s.taken⟩ : Inbox ι).Ok :=
        h.change (fun y _ => h.not_held (.inr hposted) y) nofun (fun _ _ hb => hb)
          (fun _ he => .tail _ he) trivial (by rintro (hst | hst) <;> cases hst)
          (h.log.event h (e := .cancelled p) hb (c := { s.slot b.slot with word := ⟨b.nonce, .free⟩, post := none })
            nofun nofun _)
      rw [hsame] at hchange
      exact hchange
    case isFalse =>
      cases hgo
      exact h

theorem Inbox.Ok.step {a : ι × CarryAct} (h : s.Ok) (hstep : CarryStep s a s') : s'.Ok := by
  obtain ⟨x, act⟩ := a
  cases act with
  | post c =>
    cases hpc : s.pc x <;> simp only [CarryStep, carry_step, hpc] at hstep
    case idle =>
      cases hstep
      exact h.moves (q := .scan c 0) (by rw [hpc]; rfl) trivial
    all_goals cases hstep
  | cancel p =>
    cases hpc : s.pc x <;> simp only [CarryStep, carry_step, hpc] at hstep
    case idle => exact h.cancels hpc hstep
    all_goals cases hstep
  | take i n hs jc =>
    cases hpc : s.pc x <;> simp only [CarryStep, carry_step, hpc] at hstep
    case idle =>
      obtain ⟨-, hstep⟩ := ite_none_right_eq_some.1 hstep
      cases hstep
      exact h.moves (q := .word i n hs jc) (by rw [hpc]; rfl) trivial
    all_goals cases hstep
  | go host =>
    simp only [CarryStep, carry_step] at hstep
    cases hlook : post_look s x host (s.pc x) with
    | some s₁ =>
      rw [hlook] at hstep
      exact h.look (hlook.trans hstep)
    | none =>
      rw [hlook] at hstep
      cases hpost : post_go s x (s.pc x) with
      | some s₁ =>
        rw [hpost] at hstep
        exact h.post (hpost.trans hstep)
      | none =>
        rw [hpost] at hstep
        exact h.take hstep

end steps

section runs

variable {ι : Type} {s : Inbox ι}

theorem Inbox.Ok.empty : (Inbox.empty ι).Ok :=
  ⟨fun _ => trivial, nofun, fun _ => (by rintro (hst | hst) <;> cases hst), ⟨nofun, nofun, .nil, nofun⟩⟩

/-- The slot whose payload and word are a sender's own: it has claimed the slot and not yet published the post. -/
def CarryPc.writing : CarryPc → Option Nat
  | .draw _ i _ | .store _ i _ _ | .unmark _ i _ | .publish _ i _ => some i
  | _ => none

variable [DecidableEq ι]

/-- In every interleaving a take returns all of what one post stored for that slot and nonce; a post taken or
cancelled is not taken again; and no two senders write the payload and the word of one slot at the same time. -/
theorem carried_whole_once {as : List (ι × CarryAct)} (h : Steps CarryStep (.empty ι) as s) :
    (∀ i n out, (i, n, out) ∈ s.taken → ∃ p b, s.posts[p]? = some b ∧ b.slot = i ∧ b.nonce = n ∧
        out = carry_fields.map b.field ∧ .took p ∈ s.events) ∧
      (s.events.Pairwise fun e e' => ∀ p, e = .took p → e'.post ≠ p) ∧
      ∀ x y i, (s.pc x).writing = some i → (s.pc y).writing = some i → x = y := by
  have hok : s.Ok := h.invariant (fun _ _ _ hs => hs.step) .empty
  have hheld (x : ι) (i : Nat) (hx : (s.pc x).writing = some i) : (s.pc x).held = some i := by
    cases hpc : s.pc x <;> rw [hpc] at hx <;> first | exact hx | cases hx
  exact ⟨hok.log.whole, hok.log.once, fun x y i hx hy => hok.alone x y i (hheld x i hx) (hheld y i hy)⟩

def carry_run (s : Inbox ι) : List (ι × CarryAct) → Option (Inbox ι)
  | [] => some s
  | a :: as => (carry_step s a.1 a.2).bind fun s' => carry_run s' as

theorem carry_run_steps {as : List (ι × CarryAct)} {s' : Inbox ι} (h : carry_run s as = some s') :
    Steps CarryStep s as s' := by
  induction as generalizing s with
  | nil => exact some.inj h ▸ .nil s
  | cons a as ih =>
    obtain ⟨s₁, hstep, h⟩ := bind_eq_some_iff.1 h
    exact .cons hstep (ih h)

def queued_signal : CarryIn :=
  { field := fun
      | .value => 7
      | .posted_ms => 5
      | .hsig => 34
      | .signo => 34
      | .code => -1
      | .pid => 9
      | _ => 0
    now := 5
    pid := 9
    now_eq := rfl }

/-- One thread posts the signal, and another takes it by its slot and nonce. -/
def carry_acts : List (Bool × CarryAct) :=
  (false, .post queued_signal) :: List.replicate 16 (false, .go false) ++
    (true, .take 0 78477 34 none) :: List.replicate 16 (true, .go false)

/-- A queued signal, posted and taken. -/
theorem carried_whole_once_queued : ∃ s : Inbox Bool, Steps CarryStep (.empty Bool) carry_acts s ∧
    s.taken = [(0, 78477, [7, 5, 0, 34, 34, -1, 0, 9, 0, 0])] ∧
    ∃ (p : Nat) (b : CarryPost), s.posts[p]? = some b ∧
        carry_fields.map b.field = [7, 5, 0, 34, 34, -1, 0, 9, 0, 0] := by
  have hrun : ((carry_run (.empty Bool) carry_acts).map Inbox.taken) =
      some [(0, 78477, [7, 5, 0, 34, 34, -1, 0, 9, 0, 0])] := by decide +kernel
  obtain ⟨s, hs, htaken⟩ := map_eq_some_iff.1 hrun
  have hsteps := carry_run_steps hs
  obtain ⟨p, b, hb, -, -, hout, -⟩ := (carried_whole_once hsteps).1 _ _ _ (htaken ▸ mem_cons_self)
  exact ⟨s, hsteps, htaken, p, b, hb, hout.symm⟩

/-- The slot the next access of a thread stores into. The marks of a stale post are stored by a sender that has not
claimed its slot. -/
def CarryPc.storing : CarryPc → Option Nat
  | .mark_ms _ i _ | .mark_word _ i _ | .store _ i _ _ | .unmark _ i _ | .publish _ i _ => some i
  | _ => none

def late_signal : CarryIn := ⟨fun _ => 5000, 5000, 9, rfl⟩

/-- Thread 0 posts, and each of the threads 1 to 63 claims the slot after. Thread 64, much later, finds none free and
goes to mark the post of slot 0 as stale; thread 0 cancels that post, and thread 65 claims its slot. -/
def mark_acts : List (Nat × CarryAct) :=
  let go (x n : Nat) := List.replicate n (x, CarryAct.go false)
  (0, .post queued_signal) :: go 0 16 ++
    ((List.range 63).flatMap fun k => (k + 1, .post queued_signal) :: go (k + 1) (k + 3)) ++
    (64, .post late_signal) :: go 64 68 ++ (0, .cancel 0) :: (65, .post queued_signal) :: go 65 3

set_option maxRecDepth 100000 in
/-- A sender marks a slot idle while another, who has claimed it, writes. -/
theorem marks_stored_by_another : ∃ s : Inbox Nat, Steps CarryStep (.empty Nat) mark_acts s ∧
    (s.pc 64).storing = some 0 ∧ (s.pc 65).storing = some 0 := by
  have hrun : (carry_run (.empty Nat) mark_acts).map (fun s => ((s.pc 64).storing, (s.pc 65).storing)) =
      some (some 0, some 0) := by decide +kernel
  obtain ⟨s, hs, hstoring⟩ := map_eq_some_iff.1 hrun
  obtain ⟨h64, h65⟩ := Prod.mk.inj hstoring
  exact ⟨s, carry_run_steps hs, h64, h65⟩

end runs

end arm64emu
