import Arm64Emu.Lib.Slots
import Arm64Emu.Ptrace.Links

namespace arm64emu

open Function

open transition

def LinkPc.Owns (j : Nat) : LinkPc → Prop
  | .fill _ _ e | .publish _ _ e | .untrace e _ | .unlink e _ => j = e
  | _ => False

def Absent (link : Nat → PtLink) (t : Int) : Prop := ∀ j, (link j).tracee ≠ t

/-- What a thread knows of the table between two accesses. -/
def LinkPc.Holds (link : Nat → PtLink) (collected : List (Nat × Nat)) : LinkPc → Prop
  | .idle | .reap _ | .collect _ _ | .named _ _ | .ours _ _ => True
  | .reaped _ t => 0 < t
  | .find _ t i => 0 < t ∧ ∀ j < i, (link j).tracee ≠ t
  | .found _ t e | .gone _ t e | .remake _ t e | .claimed _ t e | .mark t e | .mine _ e t | .detach t e
  | .detach_tracer t e | .detach_tracee t e | .exiting t e => 0 < t ∧ (link e).tracee = t
  | .take _ t _ i => 0 < t ∧ Absent link t ∧ i < PTRACE_MAX
  | .sweep _ t _ => 0 < t ∧ Absent link t
  | .stale _ t _ t' => 0 < t ∧ Absent link t ∧ 0 < t'
  | .fill _ t e => 0 < t ∧ Absent link t ∧ (link e).tracee = -1
  | .publish _ t e => 0 < t ∧ Absent link t ∧ (link e).tracee = -1 ∧ (link e).state = .running
  | .untrace e t | .unlink e t => 0 < t ∧ (link e).tracee = -1
  | .stopped _ e t => 0 < t ∧ (link e).tracee = t ∧ (link e).state ≠ .exited ∧
    ((link e).reported = false → ∀ n, (link e).stop ≤ n → (e, n) ∉ collected)
  | .unreported _ e t => 0 < t ∧ (link e).tracee = t ∧ (link e).state ≠ .exited ∧
    ∀ n, (link e).stop ≤ n → (e, n) ∉ collected
  | .returning e t n => 0 < t ∧ (link e).tracee = t ∧ (link e).state ≠ .exited ∧
    n ≤ (link e).stop ∧ (e, n) ∉ collected
  | .freeing e t n | .freed e t n => 0 < t ∧ (link e).tracee = t ∧ n ≤ (link e).stop ∧ (e, n) ∉ collected

/-- A change of a slot that others may make while a thread deals with the task it
names: a stop or a resumption, or a tracer that leaves. -/
structure Tame (l l' : PtLink) : Prop where
  tracee : l'.tracee = l.tracee
  stop : l.stop ≤ l'.stop
  state : l.tracee = -1 → l'.state = l.state
  exited : l'.state = .exited → l.state = .exited
  reported : l'.reported = false → l.reported = false ∨ l.stop < l'.stop

theorem Tame.refl (l : PtLink) : Tame l l := ⟨rfl, le_rfl, fun _ => rfl, id, .inl⟩

/-- What a step leaves as it is for a thread at `p`. -/
structure Spares (link link' : Nat → PtLink) (collected collected' : List (Nat × Nat)) (p : LinkPc) : Prop where
  named : ∀ t ∈ p.tasks, ∀ j, (link j).tracee = t → Tame (link j) (link' j)
  absent : ∀ t ∈ p.tasks, ∀ j, (link j).tracee ≠ t → (link' j).tracee ≠ t
  owned : ∀ j, p.Owns j → (link j).tracee = -1 → (link' j).tracee = -1 ∧ (link' j).state = (link j).state
  stops : ∀ t ∈ p.tasks, ∀ j n, (link j).tracee = t → (j, n) ∉ collected → (j, n) ∉ collected'

/-- What a thread knows survives the steps of the others. -/
theorem LinkPc.Holds.spared {link link' : Nat → PtLink} {collected collected' : List (Nat × Nat)} {p : LinkPc}
    (h : p.Holds link collected) (hs : Spares link link' collected collected' p)
    (hfresh : ∀ c ∈ collected, c.2 ≤ (link c.1).stop) : p.Holds link' collected' := by
  cases p with
  | idle | reap | collect | named | ours => trivial
  | reaped => exact h
  | find c t i => exact ⟨h.1, fun j hj => hs.absent t (.head _) j (h.2 j hj)⟩
  | found _ t e | gone _ t e | remake _ t e | claimed _ t e | mark t e | mine _ e t | detach t e
  | detach_tracer t e | detach_tracee t e | exiting t e =>
    exact ⟨h.1, (hs.named t (.head _) e h.2).tracee.trans h.2⟩
  | take _ t _ i => exact ⟨h.1, fun j => hs.absent t (.head _) j (h.2.1 j), h.2.2⟩
  | sweep _ t _ => exact ⟨h.1, fun j => hs.absent t (.head _) j (h.2 j)⟩
  | stale _ t _ _ => exact ⟨h.1, fun j => hs.absent t (.head _) j (h.2.1 j), h.2.2⟩
  | fill _ t e => exact ⟨h.1, fun j => hs.absent t (.head _) j (h.2.1 j), (hs.owned e rfl h.2.2).1⟩
  | publish _ t e =>
    obtain ⟨htracee, hstate⟩ := hs.owned e rfl h.2.2.1
    exact ⟨h.1, fun j => hs.absent t (.head _) j (h.2.1 j), htracee, hstate.trans h.2.2.2⟩
  | untrace e t | unlink e t => exact ⟨h.1, (hs.owned e rfl h.2).1⟩
  | stopped _ e t =>
    obtain ⟨hpos, htracee, hstate, hstops⟩ := h
    have htame := hs.named t (.head _) e htracee
    refine ⟨hpos, htame.tracee.trans htracee, fun hex => hstate (htame.exited hex), fun hrep n hn => ?_⟩
    refine hs.stops t (.head _) e n htracee ?_
    rcases htame.reported hrep with hold | hlt
    · exact hstops hold n (htame.stop.trans hn)
    · exact fun hmem => absurd (hfresh _ hmem) (not_le.mpr (hlt.trans_le hn))
  | unreported _ e t =>
    obtain ⟨hpos, htracee, hstate, hstops⟩ := h
    have htame := hs.named t (.head _) e htracee
    exact ⟨hpos, htame.tracee.trans htracee, fun hex => hstate (htame.exited hex),
      fun n hn => hs.stops t (.head _) e n htracee (hstops n (htame.stop.trans hn))⟩
  | returning e t n =>
    obtain ⟨hpos, htracee, hstate, hle, hnot⟩ := h
    have htame := hs.named t (.head _) e htracee
    exact ⟨hpos, htame.tracee.trans htracee, fun hex => hstate (htame.exited hex), hle.trans htame.stop,
      hs.stops t (.head _) e n htracee hnot⟩
  | freeing e t n | freed e t n =>
    obtain ⟨hpos, htracee, hle, hnot⟩ := h
    have htame := hs.named t (.head _) e htracee
    exact ⟨hpos, htame.tracee.trans htracee, hle.trans htame.stop, hs.stops t (.head _) e n htracee hnot⟩

theorem LinkPc.Holds.pos {link : Nat → PtLink} {collected : List (Nat × Nat)} {p : LinkPc}
    (h : p.Holds link collected) : ∀ t ∈ p.tasks, 0 < t := by
  intro t ht
  cases p with
  | idle | reap | reaped | collect | named | ours => cases ht
  | _ =>
    rw [List.mem_singleton.mp ht]
    exact h.1

theorem LinkPc.Holds.sentinel {link : Nat → PtLink} {collected : List (Nat × Nat)} {p : LinkPc} {j : Nat}
    (h : p.Holds link collected) (howns : p.Owns j) : (link j).tracee = -1 := by
  cases p with
  | fill _ t e =>
    cases howns
    exact h.2.2
  | publish _ t e =>
    cases howns
    exact h.2.2.1
  | untrace e _ | unlink e _ =>
    cases howns
    exact h.2
  | _ => cases howns

section runs

variable {ι : Type} {s s' : Registry ι}

/-- The threads deal with different tasks and have taken different slots, no two
slots name one task, and what a wait would return has not been returned. -/
structure Registry.Ok (s : Registry ι) : Prop where
  apart : ∀ x y t, t ∈ (s.pc x).tasks → t ∈ (s.pc y).tasks → x = y
  owners : ∀ x y j, (s.pc x).Owns j → (s.pc y).Owns j → x = y
  pcs : ∀ x, (s.pc x).Holds s.link s.collected
  bound : ∀ e, (s.link e).tracee ≠ 0 → e < PTRACE_MAX
  unique : ∀ e e', 0 < (s.link e).tracee → (s.link e').tracee = (s.link e).tracee → e' = e
  fresh : ∀ c ∈ s.collected, c.2 ≤ (s.link c.1).stop
  due : ∀ e, 0 < (s.link e).tracee →
    (s.link e).state = .exited ∨ (s.link e).state = .stopped ∧ (s.link e).reported = false →
      (e, (s.link e).stop) ∉ s.collected
  once : s.collected.Nodup
  handed : ∀ h ∈ s.handed, h.held = false

theorem Registry.init_ok (ι : Type) : (Registry.init ι).Ok where
  apart := fun _ _ _ h => nomatch h
  owners := fun _ _ _ h => h.elim
  pcs := fun _ => trivial
  bound := fun _ h => absurd rfl h
  unique := fun _ _ h => absurd h (lt_irrefl _)
  fresh := fun _ h => nomatch h
  due := fun _ h => absurd h (lt_irrefl _)
  once := List.nodup_nil
  handed := fun _ h => nomatch h

/-- No thread but `x` deals with the task. -/
def Registry.Alone (s : Registry ι) (x : ι) (t : Int) : Prop := ∀ y, y ≠ x → t ∉ (s.pc y).tasks

/-- How a thread may change a slot: as it likes if the slot is free, its own or names a task no other thread deals
with, and otherwise as anybody may. -/
def MayWrite (s : Registry ι) (x : ι) (j : Nat) (l l' : PtLink) : Prop :=
  ((l.tracee = 0 ∨ (s.pc x).Owns j ∨ 0 < l.tracee ∧ s.Alone x l.tracee) ∧
      (l'.tracee = 0 ∨ l'.tracee = -1 ∨ s.Alone x l'.tracee)) ∨
    Tame l l'

variable {x : ι}

theorem Registry.Ok.alone (hok : s.Ok) : ∀ t ∈ (s.pc x).tasks, s.Alone x t :=
  fun t ht y hy hty => hy (hok.apart y x t hty ht)

theorem MayWrite.keeps {j : Nat} {l l' : PtLink} {t : Int} (ht : 0 < t) (halone : s.Alone x t) (hl : l.tracee = t)
    (hl' : l'.tracee = l.tracee) : MayWrite s x j l l' := by
  rw [← hl] at ht halone
  exact .inl ⟨.inr (.inr ⟨ht, halone⟩), .inr (.inr (hl' ▸ halone))⟩

variable {collected : List (Nat × Nat)} {link : Nat → PtLink} {e : Nat} {l : PtLink} {p : LinkPc} {q : LinkPc}
  {i : Nat} {A : Int → Prop}

theorem Registry.Ok.spares (hok : s.Ok) {y : ι} (hy : y ≠ x)
    (hw : MayWrite s x e (s.link e) l)
    (hcoll : collected = s.collected ∨ ∃ n, collected = (e, n) :: s.collected ∧ s.Alone x (s.link e).tracee) :
    Spares s.link (update s.link e l) s.collected collected (s.pc y) := by
  have hpos := (hok.pcs y).pos
  refine ⟨fun t ht => (forall_update_iff s.link fun j l => (s.link j).tracee = t → Tame (s.link j) l).2
      ⟨fun hj => ?_, fun _ _ _ => .refl _⟩,
    fun t ht => (forall_update_iff s.link fun j l => (s.link j).tracee ≠ t → l.tracee ≠ t).2
      ⟨fun hj hl => ?_, fun _ _ => id⟩,
    (forall_update_iff s.link fun j l => (s.pc y).Owns j → (s.link j).tracee = -1 →
      l.tracee = -1 ∧ l.state = (s.link j).state).2 ⟨fun hj hsent => ?_, fun _ _ _ hsent => ⟨hsent, rfl⟩⟩,
    fun t ht j n hj hn => ?_⟩
  · -- a slot that names a task of `y` is not one `x` may do as it likes with
    rcases hw with ⟨hfree | howns | htask, -⟩ | htame
    · have := hpos t ht
      omega
    · have := (hok.pcs x).sentinel howns
      have := hpos t ht
      omega
    · rw [hj] at htask
      exact absurd ht (htask.2 y hy)
    · exact htame
  · rcases hw with ⟨-, hzero | hsent | htask⟩ | htame
    · have := hpos t ht
      omega
    · have := hpos t ht
      omega
    · exact htask y hy (hl ▸ ht)
    · exact hj (htame.tracee.symm.trans hl)
  · rcases hw with ⟨hfree | howns | htask, -⟩ | htame
    · rw [hsent] at hfree
      cases hfree
    · exact absurd (hok.owners y x e hj howns) hy
    · omega
    · exact ⟨htame.tracee.trans hsent, htame.state hsent⟩
  rcases hcoll with rfl | ⟨m, rfl, htask⟩
  · exact hn
  intro hmem
  rcases List.mem_cons.mp hmem with heq | hmem
  · cases heq
    rw [hj] at htask
    exact htask y hy ht
  · exact hn hmem

variable [DecidableEq ι]

/-- A step that moves the thread `x` to `q` and changes the slot `e` to `l`. -/
structure Registry.Acts (s s' : Registry ι) (x : ι) (q : LinkPc) (e : Nat) (l : PtLink) : Prop where
  link : s'.link = update s.link e l
  pc : s'.pc = update s.pc x q
  may : MayWrite s x e (s.link e) l
  stop : (s.link e).stop ≤ l.stop
  collected : s'.collected = s.collected ∨ ∃ n, s'.collected = (e, n) :: s.collected ∧
    s.Alone x (s.link e).tracee ∧ (e, n) ∉ s.collected ∧ n ≤ l.stop
  apart : ∀ t ∈ q.tasks, s.Alone x t
  owns : ∀ j, q.Owns j → (s.pc x).Owns j ∨ (s.link j).tracee ≠ -1
  holds : q.Holds s'.link s'.collected
  bound : l.tracee ≠ 0 → e < PTRACE_MAX
  unique : 0 < l.tracee → ∀ j, j ≠ e → (s.link j).tracee ≠ l.tracee
  due : 0 < l.tracee → l.state = .exited ∨ l.state = .stopped ∧ l.reported = false → (e, l.stop) ∉ s'.collected
  handed : ∀ h ∈ s'.handed, h.held = false

/-- A step keeps the invariant if it changes one slot, as the thread may. -/
theorem Registry.Ok.acts (hok : s.Ok) (ha : s.Acts s' x q e l) : s'.Ok := by
  have hself : s'.pc x = q := by rw [ha.pc, update_self]
  have hother (y : ι) (hy : y ≠ x) : s'.pc y = s.pc y := by rw [ha.pc, update_of_ne hy]
  have hslot : s'.link e = l := by rw [ha.link, update_self]
  have hslots (j : Nat) (hj : j ≠ e) : s'.link j = s.link j := by rw [ha.link, update_of_ne hj]
  have hin (c : Nat × Nat) (hc : c ∈ s.collected) : c ∈ s'.collected := by
    rcases ha.collected with h | ⟨n, h, -⟩
    · rwa [h]
    · rw [h]
      exact .tail _ hc
  refine ⟨fun y z t => ?_, fun y z j => ?_, fun y => ?_, fun j => ?_, fun j j' => ?_, fun c hc => ?_,
    fun j => ?_, ?_, ha.handed⟩
  · rw [ha.pc]
    exact slots.update_unique (P := fun p : LinkPc => t ∈ p.tasks) (fun y z => hok.apart y z t) (ha.apart t)
  · rw [ha.pc]
    refine slots.update_unique (P := fun p : LinkPc => p.Owns j) (fun y z => hok.owners y z j) fun hq w hw hwj => ?_
    rcases ha.owns j hq with howns | hne
    · exact hw (hok.owners w x j hwj howns)
    · exact hne ((hok.pcs w).sentinel hwj)
  · rcases eq_or_ne y x with rfl | hyx
    · rw [hself]
      exact ha.holds
    rw [hother y hyx, ha.link]
    refine (hok.pcs y).spared (hok.spares hyx ha.may ?_) hok.fresh
    exact ha.collected.imp_right fun ⟨n, h, htask, _⟩ => ⟨n, h, htask⟩
  · rcases eq_or_ne j e with rfl | hne
    · rw [hslot]
      exact ha.bound
    · rw [hslots j hne]
      exact hok.bound j
  · rw [ha.link]
    generalize ht : (update s.link e l j).tracee = t
    intro hpos heq
    exact slots.update_unique (P := fun l : PtLink => l.tracee = t)
      (fun i i' hi hi' => hok.unique i' i (hi' ▸ hpos) (hi.trans hi'.symm))
      (fun hl i hi hit => ha.unique (hl ▸ hpos) i hi (hit.trans hl.symm)) heq ht
  · have hold (c : Nat × Nat) (hc : c ∈ s.collected) : c.2 ≤ (s'.link c.1).stop := by
      rcases eq_or_ne c.1 e with he | hne
      · rw [he, hslot]
        exact (he ▸ hok.fresh c hc).trans ha.stop
      · rw [hslots _ hne]
        exact hok.fresh c hc
    rcases ha.collected with h | ⟨n, h, -, -, hle⟩
    · rw [h] at hc
      exact hold c hc
    rw [h] at hc
    rcases List.mem_cons.mp hc with rfl | hc
    · rw [hslot]
      exact hle
    · exact hold c hc
  · rcases eq_or_ne j e with rfl | hne
    · rw [hslot]
      exact ha.due
    rw [hslots j hne]
    intro hpos hstate hmem
    rcases ha.collected with h | ⟨n, h, -⟩
    · rw [h] at hmem
      exact hok.due j hpos hstate hmem
    rw [h] at hmem
    rcases List.mem_cons.mp hmem with heq | hmem
    · exact hne (congrArg Prod.fst heq)
    · exact hok.due j hpos hstate hmem
  rcases ha.collected with h | ⟨n, h, -, hnot, -⟩
  · rw [h]
    exact hok.once
  · rw [h]
    exact List.nodup_cons.mpr ⟨hnot, hok.once⟩

/-- The thread may be at `q`, dealing with tasks as `A`, without having written to the table. -/
def LinkPc.Fits (A : Int → Prop) (link : Nat → PtLink) (collected : List (Nat × Nat)) (q : LinkPc) : Prop :=
  (∀ t ∈ q.tasks, A t) ∧ (∀ j, ¬q.Owns j) ∧ q.Holds link collected

theorem scan_next_fits {next after : LinkPc}
    (hnext : i + 1 < PTRACE_MAX → next.Fits A link collected)
    (hafter : PTRACE_MAX ≤ i + 1 → after.Fits A link collected) : (scan_next i next after).Fits A link collected := by
  unfold scan_next
  split
  case isTrue h => exact hnext h
  case isFalse h => exact hafter (not_lt.mp h)

theorem Registry.Ok.moves (hok : s.Ok) (hfits : q.Fits (s.Alone x) s.link s.collected) : (s.at_pc x q).Ok :=
  hok.acts (e := 0) (l := s.link 0) {
    link := (update_eq_self ..).symm
    pc := rfl
    may := .inr (.refl _)
    stop := le_rfl
    collected := .inl rfl
    apart := hfits.1
    owns := fun j h => absurd h (hfits.2.1 j)
    holds := hfits.2.2
    bound := hok.bound 0
    unique := fun hpos j hj heq => hj (hok.unique 0 j hpos heq)
    due := hok.due 0
    handed := hok.handed }

theorem Registry.Ok.keeps (hok : s.Ok)
    (hlink : s'.link = update s.link e l) (hpc : s'.pc = update s.pc x q)
    (hcoll : s'.collected = s.collected) (hhanded : ∀ h ∈ s'.handed, h.held = false)
    (htracee : l.tracee = (s.link e).tracee) (hmay : MayWrite s x e (s.link e) l)
    (hstop : (s.link e).stop ≤ l.stop) (hapart : ∀ t ∈ q.tasks, s.Alone x t)
    (howns : ∀ j, q.Owns j → (s.pc x).Owns j) (hq : q.Holds (update s.link e l) s.collected)
    (hdue : 0 < l.tracee → l.state = .exited ∨ l.state = .stopped ∧ l.reported = false →
      (e, l.stop) ∉ s.collected) : s'.Ok :=
  hok.acts {
    link := hlink
    pc := hpc
    may := hmay
    stop := hstop
    collected := .inl hcoll
    apart := hapart
    owns := fun j h => .inl (howns j h)
    holds := by rwa [hlink, hcoll]
    bound := by
      rw [htracee]
      exact hok.bound e
    unique := by
      rw [htracee]
      exact fun hpos j hj heq => hj (hok.unique e j hpos heq)
    due := by rwa [hcoll]
    handed := hhanded }

theorem Registry.Ok.blanks (hok : s.Ok) {v : Int} (hv : v = 0 ∨ v = -1)
    (he : e < PTRACE_MAX)
    (hmay : (s.link e).tracee = 0 ∨ (s.pc x).Owns e ∨ 0 < (s.link e).tracee ∧ s.Alone x (s.link e).tracee)
    (hapart : ∀ t ∈ q.tasks, s.Alone x t)
    (howns : ∀ j, q.Owns j → (s.link j).tracee ≠ -1)
    (hq : q.Holds (update s.link e { s.link e with tracee := v }) s.collected) :
    ((s.set e { s.link e with tracee := v }).at_pc x q).Ok := by
  have hneg : ¬0 < v := by omega
  exact hok.acts (e := e) (l := { s.link e with tracee := v }) {
    link := rfl
    pc := rfl
    may := .inl ⟨hmay, hv.imp_right .inl⟩
    stop := le_rfl
    collected := .inl rfl
    apart := hapart
    owns := fun j h => .inr (howns j h)
    holds := hq
    bound := fun _ => he
    unique := fun hpos => absurd hpos hneg
    due := fun hpos => absurd hpos hneg
    handed := hok.handed }

omit [DecidableEq ι] in
theorem Registry.Ok.absent_of_scan (hok : s.Ok) {t : Int} (ht : 0 < t) (hi : PTRACE_MAX ≤ i + 1)
    (h : ∀ j < i + 1, (s.link j).tracee ≠ t) : Absent s.link t := by
  intro j hj
  rcases lt_or_ge j (i + 1) with hlt | hge
  · exact h j hlt hj
  · exact absurd (hok.bound j (by omega)) (by omega)

theorem Absent.blank {t v : Int} (h : ∀ j, j ≠ e → (link j).tracee ≠ t)
    (hv : v ≠ t) : Absent (update link e { link e with tracee := v }) t := by
  exact (forall_update_iff link fun _ l => l.tracee ≠ t).2 ⟨hv, h⟩

omit [DecidableEq ι] in
theorem Registry.Ok.not_held (hok : s.Ok) {t : Int} (ht : 0 < t) (he : (s.link e).tracee = t)
    (htracer : (s.link e).tracer ≤ 0) : s.held t = false := by
  refine List.any_eq_false.mpr fun j _ hj => ?_
  rw [Bool.and_eq_true, beq_iff_eq, decide_eq_true_eq] at hj
  have hje : j = e := hok.unique e j (by omega) (hj.1.trans he.symm)
  rw [hje] at hj
  omega

/-- The task a thread takes up in a step: one it starts a call about, and one whose slot a scan looked at and now
means to act on. -/
def Registry.takes_up (s : Registry ι) (x : ι) : LinkAct → List Int
  | .claim _ t | .detach t _ | .exit t _ => [t]
  | .claim_go true | .release_go true | .collect_go true =>
    match s.pc x with
    | .stale _ _ _ t | .reaped _ t => [t]
    | .ours _ i => [(s.link i).tracee]
    | _ => []
  | _ => []

/-- A wait still finds its own link published when it loads the task, and a task asks to be traced only while nobody
traces it. -/
def Registry.Fair (s : Registry ι) : LinkPc → Prop
  | .ours _ i => 0 < (s.link i).tracee
  | .claimed (.traceme _) _ e => (s.link e).tracer ≤ 0
  | _ => True

/-- The conditions on a run: a thread takes up a task only while no other deals with it, and its step is fair. -/
def GoodLinkStep (pid : ι → Int) (s : Registry ι) (a : ι × LinkAct) (s' : Registry ι) : Prop :=
  link_step pid s a.1 a.2 = some s' ∧ (∀ t ∈ s.takes_up a.1 a.2, s.Alone a.1 t) ∧ s.Fair (s.pc a.1)

theorem free_fits (hq : q.tasks = []) (howns : ∀ j, ¬q.Owns j) (hholds : q.Holds link collected) :
    q.Fits A link collected :=
  ⟨fun _ ht => absurd (hq ▸ ht) List.not_mem_nil, howns, hholds⟩

theorem idle_fits (link : Nat → PtLink) (collected : List (Nat × Nat)) : LinkPc.idle.Fits A link collected :=
  free_fits rfl (fun _ => id) trivial

theorem sweep_next_fits {c : Claim} {t : Int} (ht : 0 < t) (halone : ∀ u ∈ [t], A u) (habs : Absent link t) :
    (scan_next i (.sweep c t (i + 1)) (.take c t true 0)).Fits A link collected :=
  scan_next_fits (fun _ => ⟨halone, fun _ => id, ht, habs⟩) fun _ => ⟨halone, fun _ => id, ht, habs, by decide⟩

theorem claim_go_ok {host : Bool} (hok : s.Ok) (hp : s.pc x = p)
    (htakes : ∀ t ∈ s.takes_up x (.claim_go host), s.Alone x t) (hfair : s.Fair p)
    (h : claim_go s x host p = some s') : s'.Ok := by
  have hx := hok.pcs x
  have halone := hok.alone (x := x)
  rw [hp] at hx halone
  cases p with
  | find c t i =>
    obtain ⟨ht, hscan⟩ := hx
    cases h
    refine hok.moves ?_
    split
    case isTrue hfound => exact ⟨halone, fun _ => id, ht, hfound⟩
    case isFalse hnot =>
      have hscan' (j : Nat) (hj : j < i + 1) : (s.link j).tracee ≠ t := by
        rcases Nat.lt_succ_iff_lt_or_eq.mp hj with hlt | rfl
        · exact hscan j hlt
        · exact hnot
      exact scan_next_fits (fun _ => ⟨halone, fun _ => id, ht, hscan'⟩)
        fun hi => ⟨halone, fun _ => id, ht, hok.absent_of_scan ht hi hscan', by decide⟩
  | found c t e | gone c t e =>
    cases h
    refine hok.moves ?_
    split
    · exact ⟨halone, fun _ => id, hx⟩
    · exact ⟨halone, fun _ => id, hx⟩
  | remake c t e =>
    obtain ⟨ht, he⟩ := hx
    rw [claim_go, if_pos he] at h
    cases h
    refine hok.blanks (.inr rfl) (hok.bound e (by omega)) (.inr (.inr ?_)) halone ?_ ⟨ht, ?_, ?_⟩
    · rw [he]
      exact ⟨ht, halone t (.head _)⟩
    · rintro j rfl
      omega
    · exact .blank (fun j hj heq => hj (hok.unique e j (by omega) (heq.trans he.symm))) (by omega)
    · rw [update_self]
  | take c t again i =>
    obtain ⟨ht, habs, hi⟩ := hx
    rw [claim_go] at h
    split at h
    case isTrue hfree =>
      cases h
      refine hok.blanks (.inr rfl) hi (.inl hfree) halone ?_ ⟨ht, .blank (fun j _ => habs j) (by omega), ?_⟩
      · rintro j rfl
        omega
      · rw [update_self]
    case isFalse =>
      cases h
      refine hok.moves (scan_next_fits (fun hnext => ⟨halone, fun _ => id, ht, habs, hnext⟩) fun _ => ?_)
      split
      · exact idle_fits ..
      · exact ⟨halone, fun _ => id, ht, habs⟩
  | fill c t e =>
    obtain ⟨ht, habs, he⟩ := hx
    cases h
    refine hok.keeps rfl rfl rfl hok.handed rfl (.inl ⟨.inr (.inl (hp ▸ rfl)), .inr (.inl he)⟩) le_rfl halone
      (fun j hj => hp ▸ hj) ⟨ht, fun j => ?_, ?_, ?_⟩ fun hpos => ?_
    · refine (forall_update_iff s.link fun _ l => l.tracee ≠ t).2 ⟨?_, fun j _ => habs j⟩ j
      exact habs e
    · rw [update_self]
      exact he
    · rw [update_self]
    · exact absurd hpos (by rw [he]; decide)
  | publish c t e =>
    obtain ⟨ht, habs, he, hstate⟩ := hx
    cases h
    refine hok.acts (e := e) (l := { s.link e with tracee := t }) {
      link := rfl
      pc := rfl
      may := .inl ⟨.inr (.inl (hp ▸ rfl)), .inr (.inr (halone t (.head _)))⟩
      stop := le_rfl
      collected := .inl rfl
      apart := halone
      owns := fun j h => h.elim
      holds := ⟨ht, ?_⟩
      bound := fun _ => hok.bound e (by omega)
      unique := fun _ j _ => habs j
      due := fun _ hdue => ?_
      handed := hok.handed }
    · change (update s.link e _ e).tracee = t
      rw [update_self]
    · rw [hstate] at hdue
      rcases hdue with hdue | ⟨hdue, -⟩ <;> cases hdue
  | claimed c t e =>
    obtain ⟨ht, he⟩ := hx
    cases c with
    | attach q =>
      rw [claim_go] at h
      split at h
      case isTrue htracer =>
        cases h
        refine hok.keeps rfl rfl rfl (fun hd hhd => ?_) rfl (.keeps ht (halone t (.head _)) he rfl) le_rfl halone
          (fun j hj => hj.elim) ⟨ht, ?_⟩ (hok.due e)
        · rcases List.mem_cons.mp hhd with rfl | hhd
          · exact hok.not_held ht he htracer.le
          · exact hok.handed hd hhd
        · rw [update_self]
          exact he
      case isFalse =>
        cases h
        exact hok.moves (idle_fits ..)
    | traceme q =>
      cases h
      refine hok.keeps rfl rfl rfl (fun hd hhd => ?_) rfl (.keeps ht (halone t (.head _)) he rfl) le_rfl
          (fun _ => nofun)
        (fun j hj => hj.elim) trivial (hok.due e)
      rcases List.mem_cons.mp hhd with rfl | hhd
      · exact hok.not_held ht he hfair
      · exact hok.handed hd hhd
  | mark t e =>
    obtain ⟨ht, he⟩ := hx
    cases h
    exact hok.keeps rfl rfl rfl hok.handed rfl (.keeps ht (halone t (.head _)) he rfl) le_rfl (fun _ => nofun)
      (fun j hj => hj.elim) trivial (hok.due e)
  | sweep c t i =>
    obtain ⟨ht, habs⟩ := hx
    cases h
    refine hok.moves ?_
    split
    case isTrue hpos => exact ⟨halone, fun _ => id, ht, habs, hpos⟩
    case isFalse => exact sweep_next_fits ht halone habs
  | stale c t i t' =>
    obtain ⟨ht, habs, ht'⟩ := hx
    rw [claim_go] at h
    split at h
    case isTrue hi =>
      cases h
      obtain ⟨rfl, rfl⟩ := hi
      have hfits : (scan_next i (.sweep c t (i + 1)) (.take c t true 0)).Fits (s.Alone x)
          (update s.link i { s.link i with tracee := 0 }) s.collected :=
        sweep_next_fits ht halone (.blank (fun j _ => habs j) (by omega))
      refine hok.blanks (.inl rfl) (hok.bound i (by omega)) (.inr (.inr ⟨ht', htakes _ ?_⟩)) hfits.1
        (fun j hj => absurd hj (hfits.2.1 j)) hfits.2.2
      rw [Registry.takes_up, hp]
      exact .head _
    case isFalse =>
      cases h
      exact hok.moves (sweep_next_fits ht halone habs)
  | _ => cases h

theorem reap_next_fits : (scan_next i (.reap (i + 1)) .idle).Fits A link collected :=
  scan_next_fits (fun _ => free_fits rfl (fun _ => id) trivial) fun _ => idle_fits ..

theorem release_go_ok {host : Bool} (hok : s.Ok) (hp : s.pc x = p)
    (htakes : ∀ t ∈ s.takes_up x (.release_go host), s.Alone x t)
    (h : release_go s x host p = some s') : s'.Ok := by
  have hx := hok.pcs x
  have halone := hok.alone (x := x)
  rw [hp] at hx halone
  cases p with
  | reap i =>
    cases h
    refine hok.moves ?_
    split
    case isTrue hpos => exact free_fits rfl (fun _ => id) hpos
    case isFalse => exact reap_next_fits
  | reaped i t =>
    have ht : 0 < t := hx
    rw [release_go] at h
    split at h
    case isTrue hi =>
      cases h
      obtain ⟨rfl, rfl⟩ := hi
      have htake : s.Alone x (s.link i).tracee := htakes _ (by rw [Registry.takes_up, hp]; exact .head _)
      refine hok.blanks (.inr rfl) (hok.bound i (by omega)) (.inr (.inr ⟨ht, htake⟩)) ?_ ?_ ⟨ht, ?_⟩
      · intro t ht
        rwa [List.mem_singleton.mp ht]
      · rintro j rfl
        omega
      · rw [update_self]
    case isFalse =>
      cases h
      exact hok.moves reap_next_fits
  | untrace i t =>
    obtain ⟨ht, hi⟩ := hx
    cases h
    refine hok.keeps rfl rfl rfl hok.handed rfl (.inl ⟨.inr (.inl (hp ▸ rfl)), .inr (.inl hi)⟩) le_rfl halone
      (fun j hj => hp ▸ hj) ⟨ht, ?_⟩ (hok.due i)
    rw [update_self]
    exact hi
  | unlink i t =>
    obtain ⟨ht, hi⟩ := hx
    cases h
    have hfits : (scan_next i (.reap (i + 1)) .idle).Fits (s.Alone x)
        (update s.link i { s.link i with tracee := 0 }) s.collected := reap_next_fits
    exact hok.blanks (.inl rfl) (hok.bound i (by omega)) (.inr (.inl (hp ▸ rfl))) hfits.1
      (fun j hj => absurd hj (hfits.2.1 j)) hfits.2.2
  | detach t e =>
    obtain ⟨ht, he⟩ := hx
    cases h
    refine hok.keeps rfl rfl rfl hok.handed rfl (.keeps ht (halone t (.head _)) he rfl) le_rfl halone
      (fun j hj => hj.elim) ⟨ht, ?_⟩ fun _ hdue => ?_
    · rw [update_self]
      exact he
    · rcases hdue with hdue | ⟨hdue, -⟩ <;> cases hdue
  | detach_tracer t e =>
    obtain ⟨ht, he⟩ := hx
    cases h
    refine hok.keeps rfl rfl rfl hok.handed rfl (.keeps ht (halone t (.head _)) he rfl) le_rfl halone
      (fun j hj => hj.elim) ⟨ht, ?_⟩ (hok.due e)
    rw [update_self]
    exact he
  | detach_tracee t e =>
    obtain ⟨ht, he⟩ := hx
    cases h
    refine hok.blanks (.inl rfl) (hok.bound e (by omega)) (.inr (.inr ?_)) (fun _ => nofun) (fun j hj => hj.elim)
      trivial
    rw [he]
    exact ⟨ht, halone t (.head _)⟩
  | exiting t e =>
    obtain ⟨ht, he⟩ := hx
    cases h
    exact hok.keeps rfl rfl rfl hok.handed rfl (.keeps ht (halone t (.head _)) he rfl) (Nat.le_succ _) (fun _ => nofun)
      (fun j hj => hj.elim) trivial fun _ _ hmem => absurd (hok.fresh _ hmem) (Nat.not_succ_le_self _)
  | _ => cases h

theorem collect_next_fits {keep : Bool} : (scan_next i (.collect keep (i + 1)) .idle).Fits A link collected :=
  scan_next_fits (fun _ => free_fits rfl (fun _ => id) trivial) fun _ => idle_fits ..

omit [DecidableEq ι] in
theorem Registry.Ok.due_from (hok : s.Ok) (hnot : (e, (s.link e).stop) ∉ s.collected) (n : Nat)
    (hn : (s.link e).stop ≤ n) : (e, n) ∉ s.collected := by
  rcases hn.eq_or_lt with rfl | hlt
  · exact hnot
  · exact fun hmem => absurd (hok.fresh _ hmem) (not_le.mpr hlt)

variable {pid : ι → Int}

theorem collect_go_ok {host : Bool} (hok : s.Ok) (hp : s.pc x = p)
    (htakes : ∀ t ∈ s.takes_up x (.collect_go host), s.Alone x t) (hfair : s.Fair p)
    (h : collect_go pid s x host p = some s') : s'.Ok := by
  have hx := hok.pcs x
  have halone := hok.alone (x := x)
  rw [hp] at hx halone
  cases p with
  | collect keep i =>
    cases h
    refine hok.moves ?_
    split
    · exact free_fits rfl (fun _ => id) trivial
    · exact collect_next_fits
  | named keep i =>
    cases h
    refine hok.moves ?_
    split
    · exact free_fits rfl (fun _ => id) trivial
    · exact collect_next_fits
  | ours keep i =>
    cases h
    refine hok.moves ?_
    split
    case isTrue hhost =>
      rw [hhost, Registry.takes_up, hp] at htakes
      exact ⟨htakes, fun _ => id, hfair, rfl⟩
    case isFalse => exact collect_next_fits
  | mine keep i t =>
    obtain ⟨ht, hi⟩ := hx
    cases h
    refine hok.moves ?_
    split
    case h_1 hstate =>
      split
      · exact collect_next_fits
      split
      · exact idle_fits ..
      · exact ⟨halone, fun _ => id, ht, hi, le_rfl, hok.due i (by omega) (.inl hstate)⟩
    case h_2 hstate =>
      refine ⟨halone, fun _ => id, ht, hi, by rw [hstate]; exact nofun, fun hrep => ?_⟩
      exact hok.due_from (hok.due i (by omega) (.inr ⟨hstate, hrep⟩))
    case h_3 => exact collect_next_fits
  | stopped keep i t =>
    obtain ⟨ht, hi, hstate, hstops⟩ := hx
    cases h
    refine hok.moves ?_
    split
    case isTrue => exact collect_next_fits
    case isFalse hrep =>
      rw [not_or, Bool.not_eq_true] at hrep
      exact ⟨halone, fun _ => id, ht, hi, hstate, hstops hrep.1⟩
  | unreported keep i t =>
    obtain ⟨ht, hi, hstate, hstops⟩ := hx
    cases h
    refine hok.moves ?_
    split
    · exact idle_fits ..
    · exact ⟨halone, fun _ => id, ht, hi, hstate, le_rfl, hstops _ le_rfl⟩
  | returning i t n =>
    obtain ⟨ht, hi, hstate, hle, hnot⟩ := hx
    have htask : s.Alone x (s.link i).tracee := hi ▸ halone t (.head _)
    cases h
    exact hok.acts (e := i) (l := { s.link i with reported := true }) {
      link := rfl
      pc := rfl
      may := .keeps ht (halone t (.head _)) hi rfl
      stop := le_rfl
      collected := .inr ⟨n, rfl, htask, hnot, hle⟩
      apart := fun _ => nofun
      owns := fun j hj => hj.elim
      holds := trivial
      bound := hok.bound i
      unique := fun hpos j hj heq => hj (hok.unique i j hpos heq)
      due := fun _ hdue => by
        rcases hdue with hdue | ⟨-, hdue⟩
        · exact absurd hdue hstate
        · cases hdue
      handed := hok.handed }
  | freeing i t n =>
    obtain ⟨ht, hi, hle, hnot⟩ := hx
    cases h
    refine hok.keeps rfl rfl rfl hok.handed rfl (.keeps ht (halone t (.head _)) hi rfl) le_rfl halone
      (fun j hj => hj.elim) ⟨ht, ?_, ?_, hnot⟩ (hok.due i)
    · rw [update_self]
      exact hi
    · rw [update_self]
      exact hle
  | freed i t n =>
    obtain ⟨ht, hi, hle, hnot⟩ := hx
    have htask : s.Alone x (s.link i).tracee := hi ▸ halone t (.head _)
    cases h
    exact hok.acts (e := i) (l := { s.link i with tracee := 0 }) {
      link := rfl
      pc := rfl
      may := .inl ⟨.inr (.inr ⟨hi ▸ ht, htask⟩), .inl rfl⟩
      stop := le_rfl
      collected := .inr ⟨n, rfl, htask, hnot, hle⟩
      apart := fun _ => nofun
      owns := fun j hj => hj.elim
      holds := trivial
      bound := fun hne => absurd rfl hne
      unique := fun hpos => absurd hpos (lt_irrefl _)
      due := fun hpos => absurd hpos (lt_irrefl _)
      handed := hok.handed }
  | _ => cases h

theorem Spares.of_tame
    (htame : Tame (link e) l) : Spares link (update link e l) collected collected p := by
  have hall : ∀ j, Tame (link j) (update link e l j) :=
    (forall_update_iff link fun j l => Tame (link j) l).2 ⟨htame, fun _ _ => .refl _⟩
  exact ⟨fun t _ j _ => hall j, fun t _ j hj heq => hj ((hall j).tracee.symm.trans heq),
    fun j _ hsent => ⟨(hall j).tracee.trans hsent, (hall j).state hsent⟩, fun _ _ _ _ _ => id⟩

theorem Registry.Ok.tamed (hok : s.Ok) (x : ι) (htame : Tame (s.link e) l)
    (hdue : 0 < l.tracee → l.state = .exited ∨ l.state = .stopped ∧ l.reported = false →
      (e, l.stop) ∉ s.collected) : (s.set e l).Ok := by
  refine hok.keeps (x := x) (q := s.pc x) rfl (update_eq_self ..).symm rfl hok.handed htame.tracee
    (.inr htame) htame.stop hok.alone (fun _ => id) ?_ hdue
  exact (hok.pcs x).spared (.of_tame htame) hok.fresh

/-- One step of any thread. -/
theorem link_step_ok {a : ι × LinkAct} (hok : s.Ok) (h : GoodLinkStep pid s a s') : s'.Ok := by
  obtain ⟨x, a⟩ := a
  obtain ⟨hstep, htakes, hfair⟩ := h
  cases a with
  | claim c t =>
    obtain ⟨⟨-, ht⟩, rfl⟩ := Option.ite_none_right_eq_some.mp hstep |>.imp_right Option.some.inj
    exact hok.moves ⟨htakes, fun _ => id, ht, fun j hj => absurd hj (Nat.not_lt_zero j)⟩
  | reap | collect keep =>
    obtain ⟨-, rfl⟩ := Option.ite_none_right_eq_some.mp hstep |>.imp_right Option.some.inj
    exact hok.moves (free_fits rfl (fun _ => id) trivial)
  | detach t e | exit t e =>
    obtain ⟨⟨-, ht⟩, rfl⟩ := Option.ite_none_right_eq_some.mp hstep |>.imp_right Option.some.inj
    exact hok.moves ⟨htakes, fun _ => id, ht⟩
  | stop t e =>
    obtain ⟨⟨ht, he⟩, rfl⟩ := Option.ite_none_right_eq_some.mp hstep |>.imp_right Option.some.inj
    refine hok.tamed x ⟨rfl, Nat.le_succ _, fun hsent => ?_, fun hex => ?_, fun _ => .inr (Nat.lt_succ_self _)⟩
      fun _ _ hmem => absurd (hok.fresh _ hmem) (Nat.not_succ_le_self _)
    · omega
    · cases hex
  | resume t e =>
    obtain ⟨⟨ht, he⟩, rfl⟩ := Option.ite_none_right_eq_some.mp hstep |>.imp_right Option.some.inj
    refine hok.tamed x ⟨rfl, le_rfl, fun hsent => ?_, fun hex => ?_, .inl⟩ fun _ hdue => ?_
    · omega
    · cases hex
    · rcases hdue with hdue | ⟨hdue, -⟩ <;> cases hdue
  | release q e =>
    obtain ⟨-, rfl⟩ := Option.ite_none_right_eq_some.mp hstep |>.imp_right Option.some.inj
    exact hok.tamed x ⟨rfl, le_rfl, fun _ => rfl, id, .inl⟩ (hok.due e)
  | claim_go host => exact claim_go_ok hok rfl htakes hfair hstep
  | release_go host => exact release_go_ok hok rfl htakes hstep
  | collect_go host => exact collect_go_ok hok rfl htakes hfair hstep

end runs

instance {ι : Type} (s : Registry ι) (p : LinkPc) : Decidable (s.Fair p) := by
  unfold Registry.Fair
  split <;> infer_instance

/-- A run of threads, none of which takes up a task another deals with. -/
def good_run {n : Nat} (pid : Fin n → Int) (s : Registry (Fin n)) :
    List (Fin n × LinkAct) → Option (Registry (Fin n))
  | [] => some s
  | (x, a) :: as =>
    if (∀ t ∈ s.takes_up x a, ∀ y, y ≠ x → t ∉ (s.pc y).tasks) ∧ s.Fair (s.pc x) then
      (link_step pid s x a).bind fun s' => good_run pid s' as
    else none

theorem good_run_steps {n : Nat} {pid : Fin n → Int} {s s' : Registry (Fin n)} {as : List (Fin n × LinkAct)}
    (h : good_run pid s as = some s') : Steps (GoodLinkStep pid) s as s' := by
  induction as generalizing s with
  | nil =>
    cases h
    exact .nil _
  | cons a as ih =>
    obtain ⟨hgood, h⟩ := Option.ite_none_right_eq_some.mp h
    obtain ⟨t, hstep, hrest⟩ := Option.bind_eq_some_iff.mp h
    exact .cons ⟨hstep, hgood⟩ (ih hrest)

/-- The next `k` accesses of the call a thread is in. -/
def accesses {ι : Type} (x : ι) (k : Nat) (a : LinkAct) : List (ι × LinkAct) := List.replicate k (x, a)

/-- Processes 1 and 2 attach to tasks 7 and 8 at the same time, both tasks stop, and while process 1 deals with task 7
the wait of process 2 goes past its link and collects the stop of task 8. -/
def attach_run : List (Fin 2 × LinkAct) := List.flatten [
  [(0, .claim (.attach 1) 7), (1, .claim (.attach 2) 8)], accesses 0 PTRACE_MAX (.claim_go false),
  accesses 1 PTRACE_MAX (.claim_go false), accesses 0 5 (.claim_go false), accesses 1 6 (.claim_go false),
  [(0, .stop 7 0), (1, .stop 8 1), (0, .collect false), (1, .collect false)],
  accesses 0 5 (.collect_go true), accesses 1 9 (.collect_go true), accesses 0 2 (.collect_go true)]

end arm64emu
