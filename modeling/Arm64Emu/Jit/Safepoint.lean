import Arm64Emu.Jit.Coherence

namespace arm64emu

open Function List

open transition

variable {ι : Type} [DecidableEq ι]

def Phase.StartsBelow (now : Nat) : Phase ι → Prop
  | .inval start .. | .bump start .. | .bumped start .. | .notify start .. => start < now
  | _ => True

/-- The thread `x` will start over at its next safepoint, if it is not doing so
already. -/
def JThread.Due (x : JThread ι) (gen : Nat) : Prop :=
  x.inval_gen_seen < gen ∧ (x.interrupt = true ∨ x.phase = .service)

/-- What an invalidation by `t` still owes the translation `b` of the thread `u`: to move the generation, and then to
raise the thread's flag. -/
def Phase.Owes (gen : Nat) (t u : ι) (x : JThread ι) (b : Trans) : Phase ι → Prop
  | .inval start _ tested marked => b.page ∈ tested → b.fetched < start → u ≠ t ∧ marked = true
  | .bump start tested => b.page ∈ tested → b.fetched < start → u ≠ t
  | .bumped start tested => b.page ∈ tested → b.fetched < start → u ≠ t ∧ x.inval_gen_seen < gen
  | .notify start tested todo => b.page ∈ tested → b.fetched < start →
      u ≠ t ∧ x.inval_gen_seen < gen ∧ (u ∈ todo ∨ x.interrupt = true ∨ x.phase = .service)
  | _ => True

/-- Every translation older than a completed invalidation of its page belongs to a thread due to start over, and is no
older than what had completed at its last safepoint. -/
structure Coherence.Ok (s : Coherence ι) : Prop where
  off : ∀ u b, (s.th u).active = false → ¬(s.th u).Holds b
  registered : ∀ u, (s.th u).active = true → u ∈ s.registry
  fetched_lt : ∀ u b, (s.th u).Holds b → b.fetched < s.now
  start_lt : ∀ u, (s.th u).phase.StartsBelow s.now
  completed_lt : ∀ p, s.completed p < s.now
  seen_le : ∀ u, (s.th u).inval_gen_seen ≤ s.g_jit_inval_gen
  due : ∀ u b, (s.th u).Holds b → b.fetched < s.completed b.page → (s.th u).Due s.g_jit_inval_gen
  owes : ∀ t u b, (s.th u).Holds b → (s.th t).phase.Owes s.g_jit_inval_gen t u (s.th u) b
  passed : ∀ u b, (s.th u).Holds b → (s.th u).passed b.page ≤ b.fetched
  passed_le : ∀ u p, (s.th u).passed p ≤ s.completed p

theorem Coherence.init_ok (ι : Type) : (Coherence.init ι).Ok := by
  have hholds (u : ι) (b : Trans) : ¬((Coherence.init ι).th u).Holds b := by
    rintro (h | h) <;> cases h
  refine ⟨fun u b _ => hholds u b, fun u h => ?_, fun u b h => absurd h (hholds u b), fun u => trivial,
    fun p => Nat.one_pos, fun u => Nat.zero_le _, fun u b h => absurd h (hholds u b),
    fun t u b h => absurd h (hholds u b), fun u b h => absurd h (hholds u b), fun u p => le_rfl⟩
  cases h

/-- What a step must do to the record of the thread it touches: take no older translation than now, keep the thread
due while it has translations, and owe what it should. -/
structure Replaces (s s' : Coherence ι) (t : ι) (x : JThread ι) : Prop where
  th : s'.th = update s.th t x
  gen : s.g_jit_inval_gen ≤ s'.g_jit_inval_gen
  completed : s'.completed = s.completed
  now : s.now ≤ s'.now
  registered : ∀ u, (s'.th u).active = true → u ∈ s'.registry
  off : ∀ b, x.active = false → ¬x.Holds b
  holds : ∀ b, x.Holds b → (s.th t).Holds b ∨ (s.now ≤ b.fetched ∧ b.fetched < s'.now)
  start_lt : x.phase.StartsBelow s'.now
  seen_le : x.inval_gen_seen ≤ s'.g_jit_inval_gen
  due : ∀ b, x.Holds b → (s.th t).inval_gen_seen < s.g_jit_inval_gen →
    x.inval_gen_seen < s'.g_jit_inval_gen ∧
      ((s.th t).interrupt = true ∨ (s.th t).phase = .service → x.interrupt = true ∨ x.phase = .service)
  owes : ∀ u b, (s'.th u).Holds b → x.phase.Owes s'.g_jit_inval_gen t u (s'.th u) b
  passed : ∀ b, x.Holds b → x.passed b.page ≤ b.fetched
  passed_le : ∀ p, x.passed p ≤ s.completed p

omit [DecidableEq ι] in
theorem Phase.StartsBelow.mono {p : Phase ι} {m n : Nat} (h : p.StartsBelow m) (hmn : m ≤ n) : p.StartsBelow n := by
  cases p with
  | inval | bump | bumped | notify => exact Nat.lt_of_lt_of_le h hmn
  | _ => trivial

omit [DecidableEq ι] in
/-- What is owed to a translation of a thread is owed to it after a step of
that thread too, and to a fresh translation nothing is owed. -/
theorem Phase.Owes.step {p : Phase ι} {gen gen' now : Nat} {t u : ι} {x x' : JThread ι} {b : Trans}
    (hstart : p.StartsBelow now) (hold : now ≤ b.fetched ∨ p.Owes gen t u x b)
    (hseen : x.inval_gen_seen < gen → x'.inval_gen_seen < gen')
    (hflag : x.inval_gen_seen < gen → x.interrupt = true ∨ x.phase = .service →
      x'.interrupt = true ∨ x'.phase = .service) : p.Owes gen' t u x' b := by
  cases p with
  | inval start todo tested marked | bump start tested =>
    intro hmem hlt
    have hstart : start < now := hstart
    exact (hold.resolve_left (by omega)) hmem hlt
  | bumped start tested =>
    intro hmem hlt
    have hstart : start < now := hstart
    obtain ⟨hne, hgen⟩ := (hold.resolve_left (by omega)) hmem hlt
    exact ⟨hne, hseen hgen⟩
  | notify start tested todo =>
    intro hmem hlt
    have hstart : start < now := hstart
    obtain ⟨hne, hgen, hflag'⟩ := (hold.resolve_left (by omega)) hmem hlt
    exact ⟨hne, hseen hgen, hflag'.imp_right (hflag hgen)⟩
  | _ => trivial

theorem Coherence.Ok.replace {s s' : Coherence ι} {t : ι} {x : JThread ι} (h : s.Ok) (r : Replaces s s' t x) :
    s'.Ok := by
  have hall (P : ι → JThread ι → Prop) (hself : P t x) (hother : ∀ u, u ≠ t → P u (s.th u)) (u : ι) :
      P u (s'.th u) := by
    rw [r.th]
    exact (forall_update_iff s.th P).2 ⟨hself, hother⟩ u
  refine ⟨fun u b => hall (fun _ y => y.active = false → ¬y.Holds b) (r.off b) (fun u _ => h.off u b) u, r.registered,
    fun u b => hall (fun _ y => y.Holds b → b.fetched < s'.now) (fun hb => ?_) (fun u _ hb => ?_) u,
    hall (fun _ y => y.phase.StartsBelow s'.now) r.start_lt fun u _ => (h.start_lt u).mono r.now, fun p => ?_,
    hall (fun _ y => y.inval_gen_seen ≤ s'.g_jit_inval_gen) r.seen_le fun u _ => (h.seen_le u).trans r.gen,
    fun u b => hall (fun _ y => y.Holds b → b.fetched < s'.completed b.page → y.Due s'.g_jit_inval_gen)
      (fun hb hlt => ?_) (fun u _ hb hlt => ?_) u, fun v u b hb => ?_,
    fun u b => hall (fun _ y => y.Holds b → y.passed b.page ≤ b.fetched) (r.passed b) (fun u _ => h.passed u b) u,
    fun u p => hall (fun _ y => y.passed p ≤ s'.completed p) ?_ (fun u _ => ?_) u⟩
  · rcases r.holds b hb with hb | hb
    · exact Nat.lt_of_lt_of_le (h.fetched_lt t b hb) r.now
    · exact hb.2
  · exact Nat.lt_of_lt_of_le (h.fetched_lt u b hb) r.now
  · rw [r.completed]
    exact Nat.lt_of_lt_of_le (h.completed_lt p) r.now
  · rw [r.completed] at hlt
    rcases r.holds b hb with hold | hnew
    · obtain ⟨hseen, hflag⟩ := h.due t b hold hlt
      obtain ⟨hseen', hflag'⟩ := r.due b hb hseen
      exact ⟨hseen', hflag' hflag⟩
    · have := h.completed_lt b.page
      omega
  · rw [r.completed] at hlt
    obtain ⟨hseen, hflag⟩ := h.due u b hb hlt
    exact ⟨Nat.lt_of_lt_of_le hseen r.gen, hflag⟩
  · refine hall (fun v y => y.phase.Owes s'.g_jit_inval_gen v u (s'.th u) b) (r.owes u b hb) (fun v _ => ?_) v
    revert hb
    refine hall (fun u y => y.Holds b → (s.th v).phase.Owes s'.g_jit_inval_gen v u y b) (fun hb => ?_)
      (fun u _ hb => ?_) u
    · refine @Phase.Owes.step _ _ s.g_jit_inval_gen _ _ _ _ (s.th t) _ _ (h.start_lt v) ?_
        (fun hseen => (r.due b hb hseen).1) fun hseen => (r.due b hb hseen).2
      rcases r.holds b hb with hold | hnew
      · exact .inr (h.owes v t b hold)
      · exact .inl hnew.1
    · exact Phase.Owes.step (h.start_lt v) (.inr (h.owes v u b hb))
        (fun hseen => Nat.lt_of_lt_of_le hseen r.gen) fun _ hflag => hflag
  · rw [r.completed]
    exact r.passed_le p
  · rw [r.completed]
    exact h.passed_le u p

section local_steps

variable {s : Coherence ι} {t : ι} {x : JThread ι}

theorem set_registered (h : s.Ok) (hactive : x.active = (s.th t).active) (u : ι)
    (hu : ((s.set t x).th u).active = true) : u ∈ s.registry := by
  by_cases hut : u = t
  · subst hut
    refine h.registered u ?_
    rw [← hactive]
    simpa [Coherence.set] using hu
  · refine h.registered u ?_
    simpa [Coherence.set, hut] using hu

/-- The steps that leave the registry, the generation and what has completed
alone, and do not move the thread's own view of either. -/
theorem Coherence.Ok.set_local (h : s.Ok) (hactive : x.active = (s.th t).active)
    (hholds : ∀ b, x.Holds b → (s.th t).Holds b ∨ (b.fetched = s.now ∧ x.active = true))
    (hstart : x.phase.StartsBelow (s.now + 1)) (hseen : x.inval_gen_seen = (s.th t).inval_gen_seen)
    (hflag : (s.th t).interrupt = true ∨ (s.th t).phase = .service → x.interrupt = true ∨ x.phase = .service)
    (howes : ∀ u b, ((s.set t x).th u).Holds b → x.phase.Owes s.g_jit_inval_gen t u ((s.set t x).th u) b)
    (hpassed : x.passed = (s.th t).passed) : (s.set t x).Ok := by
  refine h.replace ⟨rfl, le_rfl, rfl, Nat.le_succ _, set_registered h hactive, fun b hoff hb => ?_, fun b hb => ?_,
    hstart, ?_,
    fun b hb hlt => ⟨hseen ▸ hlt, hflag⟩, howes, fun b hb => ?_, fun p => ?_⟩
  · rcases hholds b hb with hb | ⟨-, hon⟩
    · exact h.off t b (hactive ▸ hoff) hb
    · rw [hon] at hoff
      cases hoff
  · rcases hholds b hb with hb | ⟨hnow, -⟩
    · exact .inl hb
    · exact .inr ⟨hnow.ge, Nat.lt_succ_of_le hnow.le⟩
  · rw [hseen]
    exact h.seen_le t
  · rw [hpassed]
    rcases hholds b hb with hb | ⟨hnow, -⟩
    · exact h.passed t b hb
    · rw [hnow]
      exact ((h.passed_le t b.page).trans_lt (h.completed_lt b.page)).le
  · rw [hpassed]
    exact h.passed_le t p

omit [DecidableEq ι] in
theorem Coherence.Ok.starts (h : s.Ok) {p : Phase ι} (hphase : (s.th t).phase = p) : p.StartsBelow s.now :=
  hphase ▸ h.start_lt t

omit [DecidableEq ι] in
theorem Coherence.Ok.owed (h : s.Ok) {p : Phase ι} (hphase : (s.th t).phase = p) {u : ι} {b : Trans}
    (hb : (s.th u).Holds b) : p.Owes s.g_jit_inval_gen t u (s.th u) b :=
  hphase ▸ h.owes t u b hb

omit [DecidableEq ι] in
theorem Coherence.Ok.codemap (h : s.Ok) (map : Nat → Bool) : Coherence.Ok { s with codemap := map } :=
  { h with }

omit [DecidableEq ι] in
/-- An invalidation may complete once every thread with an older translation of
its pages is due to start over. -/
theorem Coherence.Ok.complete (h : s.Ok) {start : Nat} {pages : List Nat} (hstart : start < s.now)
    (hdue : ∀ u b, (s.th u).Holds b → b.page ∈ pages → b.fetched < start → (s.th u).Due s.g_jit_inval_gen) :
    (s.complete start pages).Ok := by
  refine { h with completed_lt := fun p => ?_, due := fun u b hb hlt => ?_, passed_le := fun u p => ?_ }
  · show (if p ∈ pages then max start (s.completed p) else s.completed p) < s.now
    have := h.completed_lt p
    split <;> omega
  · change b.fetched < (if b.page ∈ pages then max start (s.completed b.page) else s.completed b.page) at hlt
    split at hlt
    next hmem =>
      rcases Nat.lt_or_ge b.fetched start with hb' | hb'
      · exact hdue u b hb hmem hb'
      · exact h.due u b hb (by omega)
    · exact h.due u b hb hlt
  show (s.th u).passed p ≤ if p ∈ pages then max start (s.completed p) else s.completed p
  have := h.passed_le u p
  split <;> omega

end local_steps

section steps

variable {s s' : Coherence ι} {t : ι} {start : Nat} {tested : List Nat}

variable {x : JThread ι}

omit [DecidableEq ι] in
theorem JThread.holds_table {b : Trans} {table : List Trans} (h : x.Holds b) (htable : x.table = table)
    (hphase : ∀ b, x.phase ≠ .fetched b) : b ∈ table :=
  htable ▸ h.resolve_right (hphase b)

theorem Coherence.Ok.set_empty (h : s.Ok) (hth : s'.th = update s.th t x)
    (hgen : s'.g_jit_inval_gen = s.g_jit_inval_gen) (hcompleted : s'.completed = s.completed)
    (hnow : s'.now = s.now + 1) (hreg : ∀ u, (s'.th u).active = true → u ∈ s'.registry) (hidle : x.phase = .idle)
    (htable : x.table = []) (hseen : x.inval_gen_seen ≤ s.g_jit_inval_gen) (hpassed : ∀ p, x.passed p ≤ s.completed p) :
    s'.Ok := by
  have hnone (b : Trans) : ¬x.Holds b := by
    rintro (hb | hb)
    · rw [htable] at hb
      cases hb
    · rw [hidle] at hb
      cases hb
  refine h.replace ⟨hth, hgen.ge, hcompleted, hnow ▸ Nat.le_succ _, hreg, fun b _ => hnone b,
    fun b hb => absurd hb (hnone b), ?_, hgen ▸ hseen, fun b hb => absurd hb (hnone b), fun u b _ => ?_,
    fun b hb => absurd hb (hnone b), hpassed⟩
  · rw [hidle]
    trivial
  · rw [hidle]
    trivial

/-- A thread passes a safepoint when nothing it holds is older than what has
completed. -/
theorem Coherence.Ok.pass (h : s.Ok) (hactive : x.active = (s.th t).active) (hidle : x.phase = .idle)
    (htable : x.table = (s.th t).table) (hseen : x.inval_gen_seen = (s.th t).inval_gen_seen)
    (hfresh : ∀ b, (s.th t).Holds b → ¬(s.th t).inval_gen_seen < s.g_jit_inval_gen ∨
      (x.interrupt = (s.th t).interrupt ∧ (s.th t).interrupt = false ∧ (s.th t).phase = .idle))
    (hpassed : x.passed = s.completed) : (s.set t x).Ok := by
  have hold (b : Trans) (hb : x.Holds b) : (s.th t).Holds b := by
    rcases hb with hb | hb
    · exact .inl (htable ▸ hb)
    · rw [hidle] at hb
      cases hb
  refine h.replace ⟨rfl, le_rfl, rfl, Nat.le_succ _, set_registered h hactive, fun b hoff hb =>
    h.off t b (hactive ▸ hoff) (hold b hb), fun b hb => .inl (hold b hb), ?_, hseen ▸ h.seen_le t,
    fun b hb hlt => ⟨hseen ▸ hlt, fun hflag => ?_⟩, fun u b _ => ?_, fun b hb => ?_, fun p => ?_⟩
  · rw [hidle]
    trivial
  · rcases hfresh b (hold b hb) with hnot | ⟨-, hclear, hi⟩
    · exact absurd hlt hnot
    · rw [hclear, hi] at hflag
      rcases hflag with hflag | hflag <;> cases hflag
  · rw [hidle]
    trivial
  · rw [hpassed]
    by_contra hlt
    obtain ⟨hgen, hflag⟩ := h.due t b (hold b hb) (Nat.lt_of_not_le hlt)
    rcases hfresh b (hold b hb) with hnot | ⟨-, hclear, hi⟩
    · exact hnot hgen
    · rw [hclear, hi] at hflag
      rcases hflag with hflag | hflag <;> cases hflag
  · rw [hpassed]

/-- The service starts over whenever the generation has moved since the thread last looked, so an idle thread without
its flag raised holds nothing owed. -/
theorem Coherence.Ok.service (h : s.Ok) :
    (s.set t { s.th t with
      phase := .idle
      inval_gen_seen := s.g_jit_inval_gen
      table := if s.g_jit_inval_gen ≠ (s.th t).inval_gen_seen then [] else (s.th t).table
      passed := s.completed }).Ok := by
  by_cases hgen : s.g_jit_inval_gen = (s.th t).inval_gen_seen
  · refine h.pass rfl rfl (if_neg (not_not.2 hgen)) hgen (fun b _ => .inl ?_) rfl
    exact fun hlt => Nat.lt_irrefl _ (hgen ▸ hlt)
  · exact h.set_empty rfl rfl rfl rfl (set_registered h rfl) rfl (if_pos hgen) le_rfl fun p => le_rfl

/-- One page of an invalidation: its own translations of a marked page go, the
others' are owed a new generation. -/
theorem Coherence.Ok.inval_page (h : s.Ok) {page : Nat} {todo : List Nat} {marked : Bool}
    (hphase : (s.th t).phase = .inval start (page :: todo) tested marked)
    (hunmarked : s.codemap page = false → ∀ u b, (s.th u).Holds b → b.page ≠ page) :
    (s.set t { s.th t with
      phase := .inval start todo (page :: tested) (marked || s.codemap page)
      table := if s.codemap page then (s.th t).table.filter fun b => b.page ≠ page else (s.th t).table }).Ok := by
  have hsub (b : Trans) (hb : b ∈ if s.codemap page then (s.th t).table.filter fun b => b.page ≠ page
      else (s.th t).table) : b ∈ (s.th t).table ∧ (s.codemap page = true → b.page ≠ page) := by
    split at hb
    · obtain ⟨hb, hne⟩ := mem_filter.1 hb
      exact ⟨hb, fun _ => by simpa using hne⟩
    next hnot => exact ⟨hb, fun hyes => absurd hyes hnot⟩
  have hstart : start < s.now := h.starts hphase
  refine h.set_local rfl (fun b hb => ?_) (Nat.lt_succ_of_lt hstart) rfl
    (fun hflag => .inl (hflag.resolve_right (by simp [hphase]))) (fun u b hb hmem hlt => ?_) rfl
  · rcases hb with hb | hb
    · exact .inl (.inl (hsub b hb).1)
    · cases hb
  by_cases hut : u = t
  · -- the thread's own translations of the page have just gone
    subst hut
    simp only [Coherence.set, update_self] at hb
    have hb := hsub b (JThread.holds_table hb rfl (by simp))
    rcases mem_cons.1 hmem with rfl | hmem
    · exact absurd rfl (hb.2 (by
        by_contra hnot
        exact hunmarked (by simpa using hnot) u b (.inl hb.1) rfl))
    · exact absurd rfl (h.owed hphase (.inl hb.1) hmem hlt).1
  simp only [Coherence.set, update_of_ne hut] at hb
  refine ⟨hut, ?_⟩
  rcases mem_cons.1 hmem with rfl | hmem
  · cases hmap : s.codemap b.page with
    | true => simp
    | false => exact absurd rfl (hunmarked hmap u b hb)
  · simp [(h.owed hphase hb hmem hlt).2]

theorem Coherence.Ok.inval_many (h : s.Ok) {pages : List Nat} (hidle : (s.th t).phase = .idle) :
    (s.set t { s.th t with
      phase := .bump s.now pages
      table := (s.th t).table.filter fun b => b.page ∉ pages }).Ok := by
  refine h.set_local rfl (fun b hb => ?_) (Nat.lt_succ_self _) rfl
    (fun hflag => .inl (hflag.resolve_right (by simp [hidle]))) (fun u b hb hmem hlt hut => ?_) rfl
  · rcases hb with hb | hb
    · exact .inl (.inl (mem_filter.1 hb).1)
    · cases hb
  subst hut
  simp only [Coherence.set, update_self] at hb
  have hb := (mem_filter.1 (JThread.holds_table hb rfl (by simp))).2
  exact absurd hmem (by simpa using hb)

/-- A step that only moves the thread on to a phase in which it holds the same
translations. -/
theorem Coherence.Ok.set_phase (h : s.Ok) {p : Phase ι} (hp : ∀ b, p ≠ .fetched b)
    (hstart : p.StartsBelow (s.now + 1)) (hservice : (s.th t).phase ≠ .service)
    (howes : ∀ u b, (s.th u).Holds b → p.Owes s.g_jit_inval_gen t u { s.th u with
      phase := if u = t then p else (s.th u).phase } b) :
    (s.set t { s.th t with phase := p }).Ok := by
  refine h.set_local rfl (fun b hb => .inl ?_) hstart rfl (fun hflag => .inl (hflag.resolve_right hservice))
    (fun u b hb => ?_) rfl
  · exact .inl (JThread.holds_table hb rfl hp)
  by_cases hut : u = t
  · subst hut
    simp only [Coherence.set, update_self] at hb ⊢
    have := howes u b (.inl (JThread.holds_table hb rfl hp))
    rwa [if_pos rfl] at this
  simp only [Coherence.set, update_of_ne hut] at hb ⊢
  have := howes u b hb
  rwa [if_neg hut] at this

theorem Coherence.Ok.end_loop (h : s.Ok) {marked : Bool} (hphase : (s.th t).phase = .inval start [] tested marked) :
    (s.end_loop t start tested marked).Ok := by
  have hstart : start < s.now := h.starts hphase
  have howes (u : ι) (b : Trans) (hb : (s.th u).Holds b) (hmem : b.page ∈ tested) (hlt : b.fetched < start) :
      u ≠ t ∧ marked = true := h.owed hphase hb hmem hlt
  unfold Coherence.end_loop
  cases marked with
  | true =>
    refine h.set_phase (by simp) (Nat.lt_succ_of_lt hstart) (by simp [hphase]) fun u b hb hmem hlt => ?_
    exact (howes u b hb hmem hlt).1
  | false =>
    have hc : (s.complete start tested).Ok :=
      h.complete hstart fun u b hb hmem hlt => by cases (howes u b hb hmem hlt).2
    exact hc.set_phase (by simp) trivial (by simp [Coherence.complete, hphase]) fun u b _ => trivial

/-- The generation moves. The thread's own view follows only if it was up to
date, and then it was not due to start over. -/
theorem Coherence.Ok.inval_bump (h : s.Ok) (hphase : (s.th t).phase = .bump start tested) :
    Coherence.Ok { s.set t { s.th t with
      phase := .bumped start tested
      inval_gen_seen := if (s.th t).inval_gen_seen = s.g_jit_inval_gen then s.g_jit_inval_gen + 1
        else (s.th t).inval_gen_seen } with g_jit_inval_gen := s.g_jit_inval_gen + 1 } := by
  have hstart : start < s.now := h.starts hphase
  have hold (b : Trans) (seen : Nat) (hb : ({ s.th t with
      phase := .bumped start tested, inval_gen_seen := seen } : JThread ι).Holds b) : (s.th t).Holds b :=
    .inl (JThread.holds_table hb rfl (by simp))
  have hle := h.seen_le t
  refine h.replace (t := t) ⟨rfl, Nat.le_succ _, rfl, Nat.le_succ _, set_registered h rfl,
    fun b hoff hb => h.off t b hoff (hold b _ hb), fun b hb => .inl (hold b _ hb), Nat.lt_succ_of_lt hstart, ?_,
    fun b hb hlt => ⟨?_, fun hflag => .inl (hflag.resolve_right (by simp [hphase]))⟩,
    fun u b hb hmem hlt => ?_, fun b hb => h.passed t b (hold b _ hb), h.passed_le t⟩
  · simp only
    split <;> omega
  · simp only
    rw [if_neg (Nat.ne_of_lt hlt)]
    omega
  by_cases hut : u = t
  · subst hut
    simp only [Coherence.set, update_self] at hb
    exact absurd rfl (h.owed hphase (hold b _ hb) hmem hlt)
  · simp only [Coherence.set, update_of_ne hut] at hb ⊢
    exact ⟨hut, Nat.lt_succ_of_le (h.seen_le u)⟩

theorem Coherence.Ok.notify_begin (h : s.Ok) (hphase : (s.th t).phase = .bumped start tested) :
    (s.set t { s.th t with phase := .notify start tested s.registry }).Ok := by
  have hstart : start < s.now := h.starts hphase
  refine h.set_phase (by simp) (Nat.lt_succ_of_lt hstart) (by simp [hphase]) fun u b hb hmem hlt => ?_
  obtain ⟨hne, hseen⟩ := h.owed hphase hb hmem hlt
  refine ⟨hne, hseen, .inl (h.registered u ?_)⟩
  by_contra hoff
  exact h.off u b (by simpa using hoff) hb

theorem Coherence.Ok.kick (h : s.Ok) (t : ι) : (s.set t { s.th t with interrupt := true }).Ok := by
  refine h.set_local rfl (fun b hb => .inl hb) ((h.start_lt t).mono (Nat.le_succ _)) rfl (fun _ => .inl rfl)
    (fun u b => ?_) rfl
  -- the flag of one thread is raised, and nothing else
  have hset : ∀ u, ∃ i, (s.set t { s.th t with interrupt := true }).th u = { s.th u with interrupt := i } ∧
      ((s.th u).interrupt = true → i = true) :=
    (forall_update_iff s.th fun u y => ∃ i, y = { s.th u with interrupt := i } ∧
      ((s.th u).interrupt = true → i = true)).2 ⟨⟨true, rfl, fun _ => rfl⟩, fun u _ => ⟨_, rfl, id⟩⟩
  obtain ⟨i, hu, hi⟩ := hset u
  rw [hu]
  intro hb
  exact Phase.Owes.step (h.start_lt t) (.inr (h.owes t u b hb)) id fun _ => Or.imp_left hi

theorem Coherence.Ok.notify (h : s.Ok) {u : ι} {todo : List ι}
    (hphase : (s.th t).phase = .notify start tested (u :: todo)) :
    ((s.set u { s.th u with interrupt := true }).set t
      { (update s.th u { s.th u with interrupt := true }) t with phase := .notify start tested todo }).Ok := by
  have hk := h.kick u
  have hphase' : ((s.set u { s.th u with interrupt := true }).th t).phase = .notify start tested (u :: todo) := by
    by_cases htu : t = u
    · subst htu
      simpa [Coherence.set] using hphase
    · simpa [Coherence.set, htu] using hphase
  have hstart : start < _ := hk.starts hphase'
  refine hk.set_phase (t := t) (by simp) (Nat.lt_succ_of_lt hstart) (by simp [hphase']) fun v b hb hmem hlt => ?_
  obtain ⟨hne, hseen, hflag⟩ := hk.owed hphase' hb hmem hlt
  refine ⟨hne, hseen, ?_⟩
  rw [if_neg hne]
  rcases hflag with hmem | hflag
  · rcases mem_cons.1 hmem with rfl | hmem
    · exact .inr (.inl (by simp [Coherence.set]))
    · exact .inl hmem
  · exact .inr hflag

theorem Coherence.Ok.notify_end (h : s.Ok) (hphase : (s.th t).phase = .notify start tested []) :
    ((s.complete start tested).set t { s.th t with phase := .idle }).Ok := by
  have hc : (s.complete start tested).Ok := h.complete (h.starts hphase) fun u b hb hmem hlt => by
    obtain ⟨-, hseen, hflag⟩ := h.owed hphase hb hmem hlt
    exact ⟨hseen, hflag.resolve_left not_mem_nil⟩
  exact hc.set_phase (by simp) trivial (by simp [Coherence.complete, hphase]) fun u b _ => trivial

end steps

/-- Every step keeps the invariant, given that an invalidation that finds a
page unmarked finds no translation of it. -/
theorem marked_step_ok {s s' : Coherence ι} {a : CohAct ι} (h : s.Ok) (hstep : MarkedStep s a s') : s'.Ok := by
  obtain ⟨hstep, hmarked⟩ := hstep
  cases hstep with
  | @enter t gen hoff hidle hgen =>
    refine h.set_empty rfl rfl rfl rfl (fun u hu => ?_) hidle rfl hgen (h.passed_le t)
    by_cases hut : u = t
    · exact hut ▸ mem_cons_self
    · refine mem_cons_of_mem _ (h.registered u ?_)
      simpa [Coherence.set, hut] using hu
  | @exit t hidle =>
    refine h.set_empty rfl rfl rfl rfl (fun u hu => ?_) hidle rfl (h.seen_le t) (h.passed_le t)
    by_cases hut : u = t
    · subst hut
      simp [Coherence.set] at hu
    · refine mem_filter.2 ⟨h.registered u ?_, by simpa using hut⟩
      simpa [Coherence.set, hut] using hu
  | @safepoint t hon hidle hclear => exact h.pass rfl hidle rfl rfl (fun b _ => .inr ⟨rfl, hclear, hidle⟩) rfl
  | @interrupted t hon hidle hset =>
    refine h.set_local rfl (fun b hb => .inl ?_) trivial rfl (fun _ => .inr rfl) (fun u b _ => trivial) rfl
    exact .inl (JThread.holds_table hb rfl (by simp))
  | @service t hphase => exact h.service
  | @fetch t page hon hidle =>
    refine h.set_local rfl (fun b hb => ?_) trivial rfl
      (fun hflag => .inl (hflag.resolve_right (by simp [hidle]))) (fun u b _ => trivial) rfl
    rcases hb with hb | hb
    · exact .inl (.inl hb)
    · cases hb
      exact .inr ⟨rfl, hon⟩
  | @abandon t b hphase | @mark_failed t b hphase =>
    exact h.set_phase (by simp) trivial (by simp [hphase]) fun u b _ => trivial
  | @insert t b hphase =>
    refine h.set_local rfl (fun c hb => .inl ?_) trivial rfl
      (fun hflag => .inl (hflag.resolve_right (by simp [hphase]))) (fun u b _ => trivial) rfl
    rcases mem_cons.1 (JThread.holds_table hb rfl (by simp)) with rfl | hb
    · exact .inr hphase
    · exact .inl hb
  | @mark t b hphase =>
    have hidle : (s.set t { s.th t with phase := .idle }).Ok :=
      h.set_phase (by simp) trivial (by simp [hphase]) fun u b _ => trivial
    exact hidle.codemap _
  | @flush t hidle => exact h.set_empty rfl rfl rfl rfl (set_registered h rfl) hidle rfl (h.seen_le t) (h.passed_le t)
  | @run t b hidle hb =>
    refine h.set_local rfl (fun b hb => .inl hb) ((h.start_lt t).mono (Nat.le_succ _)) rfl id (fun u b _ => ?_) rfl
    rw [hidle]
    trivial
  | @inval t pages hidle hfew =>
    refine h.set_phase (by simp) (Nat.lt_succ_self _) (by simp [hidle]) fun u b _ hmem => ?_
    cases hmem
  | @inval_many t pages hidle hmany => exact h.inval_many hidle
  | @inval_page t start page todo tested marked hphase =>
    exact h.inval_page hphase (hmarked t start page todo tested marked rfl hphase)
  | @inval_end t start tested marked hphase => exact h.end_loop hphase
  | @inval_bump t start tested hphase => exact h.inval_bump hphase
  | @notify_begin t start tested hphase => exact h.notify_begin hphase
  | @notify t u start tested todo hphase => exact h.notify hphase
  | @notify_end t start tested hphase => exact h.notify_end hphase
  | @kick t => exact h.kick t

/-- While invalidations find a page unmarked only if no thread has a translation of it: a translation that starts
executing was fetched no earlier than every invalidation of its page completed when the thread last passed a
safepoint. -/
theorem jit_invalidation_reaches {acts : List (CohAct ι)} {s s' : Coherence ι} {t : ι} {b : Trans}
    (hrun : Steps MarkedStep (Coherence.init ι) acts s) (hstart : CohStep s (.run t b) s') :
    (s.th t).passed b.page ≤ b.fetched := by
  have hok := hrun.invariant (fun _ _ _ h hstep => marked_step_ok h hstep) (Coherence.init_ok ι)
  cases hstart with
  | run hidle hb => exact hok.passed t b (.inl hb)

omit [DecidableEq ι] in
theorem marked_of_ne {s : Coherence ι} {a : CohAct ι} (ha : ∀ t, a ≠ .inval_page t) : Marked s a :=
  fun t _ _ _ _ _ heq => absurd heq (ha t)

omit [DecidableEq ι] in
theorem marked_of_codemap {s : Coherence ι} {t : ι} {start page : Nat} {todo tested : List Nat} {marked : Bool}
    (hphase : (s.th t).phase = .inval start (page :: todo) tested marked) (hmap : s.codemap page = true) :
    Marked s (.inval_page t) := by
  intro t' start' page' todo' tested' marked' heq hphase' hmap'
  cases heq
  rw [hphase] at hphase'
  cases hphase'
  rw [hmap] at hmap'
  cases hmap'

/-- Two threads: `false` translates page 1 and marks it, `true` invalidates it, and `false` starts over, translates
again and runs. -/
theorem jit_invalidation_reaches_retranslated :
    ∃ s s' : Coherence Bool, CohStep s (.run false ⟨1, 16⟩) s' ∧ (s.th false).passed 1 = 5 ∧
      (s.th false).passed 1 ≤ 16 := by
  have hstep {s s' : Coherence Bool} {a : CohAct Bool} (h : CohStep s a s') (ha : ∀ t, a ≠ .inval_page t) :
      MarkedStep s a s' := ⟨h, marked_of_ne ha⟩
  have hrun : ∃ acts s, Steps MarkedStep (Coherence.init Bool) acts s ∧
      (∃ s', CohStep s (.run false ⟨1, 16⟩) s') ∧ (s.th false).passed 1 = 5 := by
    refine ⟨_, _, .cons (hstep (@CohStep.enter Bool _ _ false 1 rfl rfl le_rfl) (by simp))
      (.cons (hstep (@CohStep.fetch Bool _ _ false 1 rfl rfl) (by simp))
      (.cons (hstep (@CohStep.insert Bool _ _ false _ rfl) (by simp))
      (.cons (hstep (@CohStep.mark Bool _ _ false _ rfl) (by simp))
      (.cons (hstep (@CohStep.inval Bool _ _ true [1] rfl (by decide)) (by simp))
      (.cons ⟨@CohStep.inval_page Bool _ _ true _ _ _ _ _ rfl, marked_of_codemap rfl rfl⟩
      (.cons (hstep (@CohStep.inval_end Bool _ _ true _ _ _ rfl) (by simp))
      (.cons (hstep (@CohStep.inval_bump Bool _ _ true _ _ rfl) (by simp))
      (.cons (hstep (@CohStep.notify_begin Bool _ _ true _ _ rfl) (by simp))
      (.cons (hstep (@CohStep.notify Bool _ _ true _ _ _ _ rfl) (by simp))
      (.cons (hstep (@CohStep.notify_end Bool _ _ true _ _ rfl) (by simp))
      (.cons (hstep (@CohStep.interrupted Bool _ _ false rfl rfl rfl) (by simp))
      (.cons (hstep (@CohStep.service Bool _ _ false rfl) (by simp))
      (.cons (hstep (@CohStep.safepoint Bool _ _ false rfl rfl rfl) (by simp))
      (.cons (hstep (@CohStep.fetch Bool _ _ false 1 rfl rfl) (by simp))
      (.cons (hstep (@CohStep.insert Bool _ _ false _ rfl) (by simp))
      (.cons (hstep (@CohStep.mark Bool _ _ false _ rfl) (by simp)) (.nil _))))))))))))))))),
      ⟨_, .run rfl ?_⟩, ?_⟩
    · exact .head _
    · rfl
  obtain ⟨acts, s, hrun, ⟨s', hs'⟩, hpassed⟩ := hrun
  exact ⟨s, s', hs', hpassed, jit_invalidation_reaches hrun hs'⟩

/-- Two threads: `false` has fetched page 1 when `true` invalidates it and finds it unmarked, so nobody is told;
`false` then inserts what it fetched and runs it. -/
theorem jit_invalidation_misses_unmarked :
    ∃ acts, ∃ s s' : Coherence Bool, Steps CohStep (Coherence.init Bool) acts s ∧
      CohStep s (.run false ⟨1, 2⟩) s' ∧ 2 < (s.th false).passed 1 := by
  refine ⟨_, _, _, .cons (@CohStep.enter Bool _ _ false 1 rfl rfl le_rfl)
    (.cons (@CohStep.fetch Bool _ _ false 1 rfl rfl) (.cons (@CohStep.inval Bool _ _ true [1] rfl (by decide))
    (.cons (@CohStep.inval_page Bool _ _ true _ _ _ _ _ rfl) (.cons (@CohStep.inval_end Bool _ _ true _ _ _ rfl)
    (.cons (@CohStep.insert Bool _ _ false _ rfl) (.cons (@CohStep.mark Bool _ _ false _ rfl)
    (.cons (@CohStep.safepoint Bool _ _ false rfl rfl rfl) (.nil _)))))))), .run rfl ?_, ?_⟩
  · exact .head _
  · decide

end arm64emu
