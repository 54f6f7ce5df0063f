import Mathlib
import Arm64Emu.Core.Types
import Arm64Emu.Lib.Steps

namespace arm64emu

open transition

/-- The signals that flush each other: a stop signal, and SIGCONT. -/
inductive JcKind where
  | stop
  | cont
  deriving DecidableEq

/-- A job-control record, with the generation loaded with it. -/
structure JcPend where
  kind : JcKind
  gen : u32
  deriving DecidableEq

/-- The two generations, the captures between their load and their bump, and the
captures made, with the latest first. -/
structure JcState (ι : Type) where
  jc_contgen : u32
  jc_stopgen : u32
  held : ι → Option JcPend
  caught : List JcPend

def JcState.init (ι : Type) : JcState ι := ⟨0, 0, fun _ => none, []⟩

section captures

variable {ι : Type}

/-- The generation a capture of this kind loads, which the other kind bumps. -/
def JcState.gen (s : JcState ι) : JcKind → u32
  | .stop => s.jc_contgen
  | .cont => s.jc_stopgen

def sig_jc_flushed (s : JcState ι) (p : JcPend) : Bool := p.gen != s.gen p.kind

/-- A serial order of captures, the latest first: each survives exactly when all that
follow it are of its kind. -/
def SerialOrder (s : JcState ι) (l : List JcPend) : Prop :=
  ∀ newer p older, l = newer ++ p :: older → (sig_jc_flushed s p = false ↔ ∀ q ∈ newer, q.kind = p.kind)

def others (k : JcKind) (l : List JcPend) : Nat := l.countP fun q => decide (q.kind ≠ k)

/-- Each generation counts the captures that bump it, and each capture has loaded the
count of those before it. -/
structure JcState.Ok (s : JcState ι) : Prop where
  gen_eq : ∀ k, s.gen k = BitVec.ofNat 32 (others k s.caught)
  loaded : ∀ newer p older, s.caught = newer ++ p :: older → p.gen = BitVec.ofNat 32 (others p.kind older)

theorem JcState.Ok.serial {s : JcState ι} (hok : s.Ok) (hfew : s.caught.length < 2 ^ 32) :
    SerialOrder s s.caught := by
  intro newer p older h
  have hsum : others p.kind s.caught = others p.kind newer + others p.kind older := by
    rw [h, others, List.countP_append, List.countP_cons]
    simp [others]
  have hnone : others p.kind newer = 0 ↔ ∀ q ∈ newer, q.kind = p.kind := by
    simp [others, List.countP_eq_zero]
  have hlt : others p.kind s.caught < 2 ^ 32 := Nat.lt_of_le_of_lt List.countP_le_length hfew
  rw [sig_jc_flushed, bne_eq_false_iff_eq, hok.gen_eq, hok.loaded newer p older h, ← hnone, ← BitVec.toNat_inj,
    BitVec.toNat_ofNat, BitVec.toNat_ofNat, Nat.mod_eq_of_lt hlt, Nat.mod_eq_of_lt (by omega)]
  omega

variable [DecidableEq ι]

inductive JcAct where
  | load (k : JcKind)
  | bump

/-- One step of a thread. -/
def jc_step (s : JcState ι) (x : ι) : JcAct → Option (JcState ι)
  | .load k =>
    match s.held x with
    | none => some { s with held := Function.update s.held x (some ⟨k, s.gen k⟩) }
    | some _ => none
  | .bump =>
    match s.held x with
    | none => none
    | some p =>
      let s := { s with held := Function.update s.held x none, caught := p :: s.caught }
      match p.kind with
      | .stop => some { s with jc_stopgen := s.jc_stopgen + 1#32 }
      | .cont => some { s with jc_contgen := s.jc_contgen + 1#32 }

def JcStep (s : JcState ι) (a : ι × JcAct) (s' : JcState ι) : Prop := jc_step s a.1 a.2 = some s'

/-- A step that finds a capture it completes still whole: no capture of the other kind
was completed since its load. -/
def WholeStep (s : JcState ι) (a : ι × JcAct) (s' : JcState ι) : Prop :=
  JcStep s a s' ∧ (a.2 = .bump → ∀ p, s.held a.1 = some p → p.gen = s.gen p.kind)

theorem jc_step_cases {s s' : JcState ι} {x : ι} {a : JcAct} (h : jc_step s x a = some s') :
    (s'.caught = s.caught ∧ s'.gen = s.gen) ∨
      ∃ p, a = .bump ∧ s.held x = some p ∧ s'.caught = p :: s.caught ∧
        ∀ k, s'.gen k = if p.kind ≠ k then s.gen k + 1#32 else s.gen k := by
  cases a with
  | load k =>
    simp only [jc_step] at h
    split at h
    · cases h
      exact .inl ⟨rfl, by funext k; cases k <;> rfl⟩
    · cases h
  | bump =>
    simp only [jc_step] at h
    split at h
    · cases h
    rename_i p hp
    refine .inr ⟨p, rfl, hp, ?_⟩
    split at h <;> rename_i hkind <;> cases h <;> refine ⟨rfl, fun k => ?_⟩ <;> rw [hkind] <;> cases k <;> rfl

theorem JcState.Ok.step {s s' : JcState ι} {a : ι × JcAct} (hok : s.Ok) (h : WholeStep s a s') : s'.Ok := by
  obtain ⟨hstep, hwhole⟩ := h
  obtain ⟨hcaught, hgen⟩ | ⟨p, hbump, hheld, hcaught, hgen⟩ := jc_step_cases hstep
  · exact ⟨fun k => by rw [hgen, hcaught, hok.gen_eq], fun newer p older h => hok.loaded newer p older (hcaught ▸ h)⟩
  refine ⟨fun k => ?_, fun newer q older h => ?_⟩
  · rw [hgen, hcaught, others, List.countP_cons, hok.gen_eq]
    by_cases hk : p.kind = k
    · simp [hk, others]
    · simp [hk, others, BitVec.ofNat_add]
  rw [hcaught] at h
  cases newer with
  | nil =>
    obtain ⟨rfl, rfl⟩ := List.cons.inj h
    rw [hwhole hbump p hheld, hok.gen_eq]
  | cons q' newer => exact hok.loaded newer q older (List.cons.inj h).2

end captures

/-- Where every capture is whole, the captures flush each other in the order they were
completed in, and the last one survives. -/
theorem captures_flush_serially {ι : Type} [DecidableEq ι] {acts : List (ι × JcAct)} {s : JcState ι}
    (hrun : Steps WholeStep (.init ι) acts s) (hfew : s.caught.length < 2 ^ 32) :
    SerialOrder s s.caught ∧ ∀ p older, s.caught = p :: older → sig_jc_flushed s p = false := by
  have hinit : (JcState.init ι).Ok :=
    ⟨fun k => by cases k <;> rfl, fun newer p older h => by simp [JcState.init] at h⟩
  have hserial := (hrun.invariant (fun _ _ _ hok h => hok.step h) hinit).serial hfew
  exact ⟨hserial, fun p older h => (hserial [] p older h).2 fun q hq => (List.not_mem_nil hq).elim⟩

/-- A stop signal, then SIGCONT on another thread. -/
theorem captures_flush_serially_stop_cont : ∃ s : JcState Bool,
    Steps WholeStep (.init Bool) [(false, .load .stop), (false, .bump), (true, .load .cont), (true, .bump)] s ∧
      s.caught = [⟨.cont, 1#32⟩, ⟨.stop, 0#32⟩] ∧ SerialOrder s s.caught := by
  have hrun : ∃ s : JcState Bool, Steps WholeStep (.init Bool)
      [(false, .load .stop), (false, .bump), (true, .load .cont), (true, .bump)] s ∧
        s.caught = [⟨.cont, 1#32⟩, ⟨.stop, 0#32⟩] :=
    ⟨_, .cons ⟨rfl, fun h => by cases h⟩ (.cons ⟨rfl, fun _ p h => by cases h; rfl⟩
      (.cons ⟨rfl, fun h => by cases h⟩ (.cons ⟨rfl, fun _ p h => by cases h; rfl⟩ (.nil _)))), rfl⟩
  obtain ⟨s, hsteps, hcaught⟩ := hrun
  exact ⟨s, hsteps, hcaught, (captures_flush_serially hsteps (by rw [hcaught]; decide)).1⟩

/-- A stop signal and SIGCONT whose loads both come before their bumps flush each other:
neither survives, in whatever order they are put. -/
theorem crossed_captures_lost : ∃ s : JcState Bool,
    Steps JcStep (.init Bool) [(false, .load .stop), (true, .load .cont), (false, .bump), (true, .bump)] s ∧
      (∀ p ∈ s.caught, sig_jc_flushed s p = true) ∧ ∀ l, l.Perm s.caught → ¬ SerialOrder s l := by
  refine ⟨_, .cons rfl (.cons rfl (.cons rfl (.cons rfl (.nil _)))), by decide, fun l hperm hserial => ?_⟩
  cases l with
  | nil => exact absurd hperm.length_eq (by decide)
  | cons p l =>
    have hsurvives := (hserial [] p l rfl).2 fun q hq => (List.not_mem_nil hq).elim
    have hflushed : ∀ q ∈ [(⟨.cont, 0#32⟩ : JcPend), ⟨.stop, 0#32⟩],
        sig_jc_flushed (⟨1#32, 1#32, fun _ => none, []⟩ : JcState Bool) q = true := by decide
    exact Bool.noConfusion (hsurvives.symm.trans (hflushed p (hperm.subset (.head _ ..))))

end arm64emu
