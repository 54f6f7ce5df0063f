import Mathlib
import Arm64Emu.Ipc.Memfd

namespace arm64emu

open List Option

open Function

open transition keytab

section keys

variable {h : Host} {g : MfdTab} {e : MfdEntry} {f : FileId} {i : Nat}

def MfdEntry.key (e : MfdEntry) : Option FileId := if e.used then some e.file else none

theorem MfdEntry.key_eq_some : e.key = some f ↔ e.used = true ∧ e.file = f := by
  unfold MfdEntry.key
  split_ifs with hused
  · simp [hused]
  · simp [hused]

theorem MfdEntry.key_eq_none : e.key = none ↔ e.used = false := by
  unfold MfdEntry.key
  split_ifs with hused
  · simp [hused]
  · simp [hused]

theorem mfd_hold_add_key (h : Host) (e : MfdEntry) (pid : Int) : (mfd_hold_add h e pid).key = e.key := by
  unfold mfd_hold_add
  split
  · rfl
  split
  · rfl
  · dsimp only
    split_ifs <;> rfl

/-- Seals and mappings are nothing to the slots and the holders. -/
theorem mfd_seal_frame (h : Host) (e : MfdEntry) (val : u32) :
    (mfd_seal h e val).1.key = e.key ∧ (mfd_seal h e val).1.hold = e.hold := by
  unfold mfd_seal
  dsimp only
  split_ifs <;> exact ⟨rfl, rfl⟩

theorem mfd_map_frame (h : Host) (e : MfdEntry) (pid val : Int) :
    (if 0 < val then mfd_map h e pid else mfd_unmap e pid).key = e.key ∧
      (if 0 < val then mfd_map h e pid else mfd_unmap e pid).hold = e.hold := by
  unfold mfd_map
  dsimp only
  split_ifs <;> exact ⟨rfl, rfl⟩

theorem mfd_find_none : mfd_find g f = none ↔ ∀ i < MFD_TAB_MAX, (g i).key ≠ some f := by
  simp [mfd_find, MfdEntry.key_eq_some]

theorem mfd_find_some (hfind : mfd_find g f = some i) : i < MFD_TAB_MAX ∧ (g i).key = some f := by
  have hmem := mem_range.1 (mem_of_find?_eq_some hfind)
  have hfound := List.find?_some hfind
  simp only [Bool.and_eq_true, beq_iff_eq] at hfound
  exact ⟨hmem, MfdEntry.key_eq_some.2 hfound⟩

theorem mfd_free_none : mfd_free g = none ↔ ∀ i < MFD_TAB_MAX, (g i).key ≠ none := by
  simp [mfd_free, MfdEntry.key_eq_none]

theorem mfd_free_some (hfree : mfd_free g = some i) : i < MFD_TAB_MAX ∧ (g i).key = none := by
  have hmem := mem_range.1 (mem_of_find?_eq_some hfree)
  have hfound := List.find?_some hfree
  rw [Bool.not_eq_true'] at hfound
  exact ⟨hmem, MfdEntry.key_eq_none.2 hfound⟩

end keys

section registered

def MfdReq.file : MfdReq → Option FileId
  | .reg _ size _ name st _ => if 0 < size ∧ name = none then none else st
  | .mode_set _ _ st _ => st
  | _ => none

def MfdReq.pinned : MfdReq → Bool
  | .reg _ _ _ _ _ pin | .mode_set _ _ _ pin => pin.isSome
  | _ => false

def MfdReq.anew : MfdReq → Bool
  | .reg .. => true
  | _ => false

/-- The files registered after a request: nothing but a second registration that cannot
be pinned takes one away. -/
def registered_after (ks : List FileId) (q : MfdReq) : List FileId :=
  match q.file with
  | none => ks
  | some f =>
    if f ∈ ks then if q.anew && !q.pinned then ks.erase f else ks
    else if ks.length < MFD_TAB_MAX ∧ q.pinned then f :: ks else ks

def registered (acts : List (Host × MfdReq)) : List FileId := acts.foldl (fun ks a => registered_after ks a.2) []

variable {h : Host} {g g' : MfdTab} {ks : List FileId} {f : FileId} {i : Nat} {e : MfdEntry}

def Registers (g : MfdTab) (ks : List FileId) : Prop := keytab.Holds MFD_TAB_MAX (MfdEntry.key ∘ g) ks

theorem Registers.same (hg : Registers g ks) (he : e.key = (g i).key) : Registers (update g i e) ks := by
  unfold Registers
  rw [comp_update, he, ← comp_apply (f := MfdEntry.key), update_eq_self]
  exact hg

theorem Registers.insert (hg : Registers g ks) (hfree : mfd_free g = some i) (hf : f ∉ ks) (he : e.key = some f) :
    Registers (update g i e) (f :: ks) := by
  unfold Registers
  rw [comp_update, he]
  obtain ⟨hi, hnone⟩ := mfd_free_some hfree
  exact Holds.insert hg hi hnone hf

theorem Registers.erase (hg : Registers g ks) (hfind : mfd_find g f = some i) :
    Registers (update g i .zero) (ks.erase f) := by
  unfold Registers
  rw [comp_update]
  obtain ⟨hi, hkey⟩ := mfd_find_some hfind
  exact Holds.erase hg hi hkey

theorem Registers.find_none (hg : Registers g ks) : mfd_find g f = none ↔ f ∉ ks := by
  rw [mfd_find_none]
  exact (Holds.not_mem hg).symm

theorem Registers.find_some (hg : Registers g ks) (hfind : mfd_find g f = some i) : f ∈ ks := by
  by_contra hf
  rw [hg.find_none.2 hf] at hfind
  cases hfind

theorem Registers.free_none (hg : Registers g ks) : mfd_free g = none ↔ ks.length = MFD_TAB_MAX := by
  rw [mfd_free_none]
  exact (Holds.full_iff hg).symm

theorem Registers.not_full (hg : Registers g ks) (hfree : mfd_free g = none) : ¬ ks.length < MFD_TAB_MAX :=
  (hg.free_none.1 hfree).not_lt

theorem Registers.free_some (hg : Registers g ks) (hfree : mfd_free g = some i) : ks.length < MFD_TAB_MAX := by
  refine lt_of_le_of_ne (Holds.length_le hg) fun hfull => ?_
  rw [hg.free_none.2 hfull] at hfree
  cases hfree

theorem registered_after_none {q : MfdReq} (hq : q.file = none) : registered_after ks q = ks := by
  rw [registered_after, hq]

theorem registered_after_some {q : MfdReq} (hq : q.file = some f) :
    registered_after ks q =
      if f ∈ ks then if q.anew && !q.pinned then ks.erase f else ks
      else if ks.length < MFD_TAB_MAX ∧ q.pinned then f :: ks else ks := by
  rw [registered_after, hq]

theorem mfd_do_reg_registers (hg : Registers g ks) (h : Host) (pid : Int) (size : Nat) (val : u32)
    (name : Option (List bytes.Byte)) (st : Option FileId) (pin : Option Int) :
    Registers (mfd_do_reg h g pid size val name st pin).1
      (registered_after ks (.reg pid size val name st pin)) := by
  by_cases hname : 0 < size ∧ name = none
  · have hfile : (MfdReq.reg pid size val name st pin).file = none := if_pos hname
    rw [mfd_do_reg.eq_def, if_pos hname, registered_after_none hfile]
    exact hg
  have hfile : (MfdReq.reg pid size val name st pin).file = st := if_neg hname
  rw [mfd_do_reg.eq_def, if_neg hname]
  cases st with
  | none =>
    rw [registered_after_none hfile]
    exact hg
  | some f =>
    rw [registered_after_some hfile]
    dsimp only
    cases hfind : mfd_find g f with
    | some i =>
      rw [if_pos (hg.find_some hfind)]
      cases pin with
      | none => exact hg.erase hfind
      | some fd =>
        refine hg.same ?_
        rw [mfd_hold_add_key, (mfd_find_some hfind).2]
        rfl
    | none =>
      rw [if_neg (hg.find_none.1 hfind), none_or]
      cases hfree : mfd_free g with
      | none =>
        rw [if_neg fun hlt => hg.not_full hfree hlt.1]
        exact hg
      | some i =>
        cases pin with
        | none =>
          rw [if_neg fun hlt => Bool.false_ne_true hlt.2]
          exact hg.same (mfd_free_some hfree).2.symm
        | some fd =>
          rw [if_pos ⟨hg.free_some hfree, rfl⟩]
          exact hg.insert hfree (hg.find_none.1 hfind) (mfd_hold_add_key h _ pid)

theorem mfd_do_mode_set_registers (hg : Registers g ks) (h : Host) (pid : Int) (val : u32) (st : Option FileId)
    (pin : Option Int) :
    Registers (mfd_do_mode_set h g pid val st pin).1 (registered_after ks (.mode_set pid val st pin)) := by
  cases st with
  | none => exact hg
  | some f =>
    rw [registered_after_some (f := f) rfl, mfd_do_mode_set]
    cases hfind : mfd_find g f with
    | some i =>
      rw [if_pos (hg.find_some hfind)]
      exact hg.same (mfd_hold_add_key h _ pid)
    | none =>
      rw [if_neg (hg.find_none.1 hfind)]
      cases hfree : mfd_free g with
      | none =>
        rw [if_neg fun hlt => hg.not_full hfree hlt.1]
        exact hg
      | some i =>
        cases pin with
        | none =>
          rw [if_neg fun hlt => Bool.false_ne_true hlt.2]
          exact hg
        | some fd =>
          rw [if_pos ⟨hg.free_some hfree, rfl⟩]
          exact hg.insert hfree (hg.find_none.1 hfind) (mfd_hold_add_key h _ pid)

theorem mfd_any_live_key (h : Host) (g : MfdTab) (i : Nat) : ((mfd_any_live h g).1 i).key = (g i).key := by
  unfold mfd_any_live
  dsimp only
  split_ifs <;> rfl

theorem mfd_serve_registers (hg : Registers g ks) (h : Host) (q : MfdReq) :
    Registers (mfd_serve h g q).1 (registered_after ks q) := by
  cases q with
  | reg pid size val name st pin => exact mfd_do_reg_registers hg h pid size val name st pin
  | look pid f =>
    rw [mfd_serve, mfd_do_look]
    split
    · exact hg
    split_ifs
    · exact hg.same (mfd_hold_add_key h _ pid)
    · exact hg
  | add_seal f val =>
    rw [mfd_serve, mfd_do_seal]
    split
    · exact hg
    split_ifs
    · exact hg.same (mfd_seal_frame h _ val).1
    · exact hg
  | map pid f val =>
    rw [mfd_serve, mfd_do_map]
    split
    · exact hg
    split
    · exact hg.same (mfd_map_frame h _ pid val).1
    · exact hg
  | mode_get f =>
    rw [mfd_serve, mfd_do_mode_get]
    split
    · exact hg
    split_ifs
    · exact hg
    · exact hg
  | mode_set pid val st pin => exact mfd_do_mode_set_registers hg h pid val st pin
  | idle =>
    have hkeys : MfdEntry.key ∘ (mfd_any_live h g).1 = MfdEntry.key ∘ g := funext (mfd_any_live_key h g)
    rw [mfd_serve, Registers, hkeys]
    exact hg

theorem mfd_steps_registers {acts : List (Host × MfdReq)} (hrun : Steps MfdStep g acts g') (hg : Registers g ks) :
    Registers g' (acts.foldl (fun ks a => registered_after ks a.2) ks) := by
  induction hrun generalizing ks with
  | nil => exact hg
  | cons hstep _ ih =>
    obtain rfl := hstep
    exact ih (mfd_serve_registers hg _ _)

theorem mfd_run_registers {acts : List (Host × MfdReq)} (hrun : Steps MfdStep .empty acts g) :
    Registers g (registered acts) := mfd_steps_registers hrun holds_empty

/-- A request is refused for want of a slot when its file is not registered and the
registry is full, whoever still lives. -/
theorem mfd_serve_full (hg : Registers g ks) (h : Host) {q : MfdReq} (hq : q.file = some f) :
    (mfd_serve h g q).2 = - ENFILE ↔ f ∉ ks ∧ ks.length = MFD_TAB_MAX := by
  rw [← hg.find_none, ← hg.free_none]
  cases q with
  | look pid f' | add_seal f' val | map pid f' val | mode_get f' | idle => cases hq
  | reg pid size val name st pin =>
    rw [MfdReq.file] at hq
    split_ifs at hq with hname
    subst hq
    rw [mfd_serve, mfd_do_reg, if_neg hname]
    cases hfind : mfd_find g f <;> cases hfree : mfd_free g <;> cases pin <;> simp [ENFILE, EMFILE]
  | mode_set pid val st pin =>
    rw [MfdReq.file] at hq
    subst hq
    rw [mfd_serve, mfd_do_mode_set]
    cases hfind : mfd_find g f <;> cases hfree : mfd_free g <;> cases pin <;> simp [ENFILE, EMFILE, mfd_hold_mode]

end registered

section refused

variable {g : MfdTab} {acts : List (Host × MfdReq)} {q : MfdReq} {f : FileId}

def LiveHolder (h : Host) (g : MfdTab) (f : FileId) : Prop :=
  ∃ i < MFD_TAB_MAX, (g i).key = some f ∧ ∃ r ∈ (g i).hold, 0 < r.stamp ∧ h.starttime r.key = r.stamp

/-- A registration is refused only while 256 other memfds each have a live recorded holder, exactly when so many
registered before all have one. -/
theorem memfd_refused_full (hrun : Steps MfdStep .empty acts g) (h : Host) (hq : q.file = some f) :
    ((mfd_serve h g q).2 = - ENFILE → ∃ others : List FileId, others.Nodup ∧ others.length = MFD_TAB_MAX ∧
      f ∉ others ∧ ∀ f' ∈ others, LiveHolder h g f') ↔
    (f ∉ registered acts → (registered acts).length = MFD_TAB_MAX → ∀ f' ∈ registered acts, LiveHolder h g f') := by
  have hg := mfd_run_registers hrun
  rw [mfd_serve_full hg h hq]
  constructor
  · intro hclaim hf hfull f' hf'
    obtain ⟨others, hnodup, hlen, -, hlive⟩ := hclaim ⟨hf, hfull⟩
    -- the others are registered, and as many, so they are all there are
    have hsub : others ⊆ registered acts := fun k hk => by
      obtain ⟨i, hi, hkey, -⟩ := hlive k hk
      exact (hg.mem_iff k).2 ⟨i, hi, hkey⟩
    have hperm := (subperm_of_subset hnodup hsub).perm_of_length_le (hfull.trans hlen.symm).le
    exact hlive f' (hperm.mem_iff.2 hf')
  · rintro hcond ⟨hf, hfull⟩
    exact ⟨registered acts, hg.nodup, hfull, hf, hcond hf hfull⟩

end refused

section rows

variable {h : Host} {g g' : MfdTab} {e : MfdEntry} {P : Int → Nat → Prop}

def MfdEntry.HeldBy (P : Int → Nat → Prop) (e : MfdEntry) : Prop := ∀ r ∈ e.hold, P r.key r.stamp

theorem MfdEntry.HeldBy.zero : MfdEntry.zero.HeldBy P := fun _ hr => nomatch hr

theorem MfdEntry.HeldBy.of_hold {e' : MfdEntry} (he : e.HeldBy P) (hhold : e'.hold = e.hold) : e'.HeldBy P := by
  unfold MfdEntry.HeldBy
  rw [hhold]
  exact he

theorem MfdEntry.HeldBy.reclaim (he : e.HeldBy P) (h : Host) : (mfd_hold_reclaim h e).HeldBy P := by
  intro r hr
  have hperm := holders.reclaim_perm h.starttime e.hold 0 fun r hr => absurd hr (by simp)
  exact he r (mem_of_mem_filter (hperm.mem_iff.1 hr))

theorem MfdEntry.HeldBy.append (he : e.HeldBy P) {pid : Int} {start : Nat} (hpid : P pid start) :
    (if e.hold.length = MFD_HOLD_TRACK then e else { e with hold := e.hold ++ [⟨pid, start, 0⟩] }).HeldBy P := by
  split_ifs
  · exact he
  intro r hr
  rcases mem_append.1 hr with hr | hr
  · exact he r hr
  · rw [mem_singleton.1 hr]
    exact hpid

theorem MfdEntry.HeldBy.stamp (he : e.HeldBy P) {pid : Int} {start : Nat} (hpid : P pid start) {i : Nat}
    (hi : e.hold.findIdx? (fun r => r.key = pid) = some i) :
    ({ e with hold := e.hold.modify i fun r => { r with stamp := start } } : MfdEntry).HeldBy P := by
  intro r hr
  obtain ⟨hlt, hkey, -⟩ := List.findIdx?_eq_some_iff_getElem.1 hi
  rw [decide_eq_true_eq] at hkey
  obtain ⟨j, hj⟩ := mem_iff_getElem?.1 hr
  rw [List.getElem?_modify] at hj
  obtain ⟨r', hr', rfl⟩ := map_eq_some_iff.1 hj
  by_cases hij : i = j
  · subst hij
    rw [List.getElem?_eq_getElem hlt] at hr'
    rw [if_pos rfl, ← some.inj hr', hkey]
    exact hpid
  · rw [if_neg hij]
    exact he r' (mem_of_getElem? hr')

theorem MfdEntry.HeldBy.add (he : e.HeldBy P) (h : Host) {pid : Int} (hpid : P pid (h.starttime pid)) :
    (mfd_hold_add h e pid).HeldBy P := by
  unfold mfd_hold_add
  by_cases hpos : pid ≤ 0
  · rw [if_pos hpos]
    exact he
  rw [if_neg hpos]
  split
  · next i hi => exact he.stamp hpid hi
  have hfull : (if e.hold.length = MFD_HOLD_TRACK then mfd_hold_reclaim h e else e).HeldBy P := by
    split_ifs
    · exact he.reclaim h
    · exact he
  exact hfull.append hpid

def MfdReq.caller : MfdReq → Option Int
  | .reg pid .. | .look pid _ | .mode_set pid .. => some pid
  | _ => none

theorem held_by_update (hg : ∀ i, (g i).HeldBy P) (he : e.HeldBy P) (i j : Nat) :
    (update g i e j).HeldBy P :=
  (forall_update_iff g fun _ e => e.HeldBy P).2 ⟨he, fun j _ => hg j⟩ j

theorem mfd_serve_held_by (hg : ∀ i, (g i).HeldBy P) (h : Host) (q : MfdReq)
    (hq : ∀ pid ∈ q.caller, P pid (h.starttime pid)) : ∀ i, ((mfd_serve h g q).1 i).HeldBy P := by
  cases q with
  | reg pid size val name st pin =>
    rw [mfd_serve, mfd_do_reg.eq_def]
    split
    · exact hg
    split
    · exact hg
    split
    · exact hg
    split
    · exact held_by_update hg .zero _
    · refine held_by_update hg (MfdEntry.HeldBy.add ?_ h (hq pid rfl)) _
      exact MfdEntry.HeldBy.zero
  | look pid f =>
    rw [mfd_serve, mfd_do_look]
    split
    · exact hg
    split
    · exact held_by_update hg ((hg _).add h (hq pid rfl)) _
    · exact hg
  | add_seal f val =>
    rw [mfd_serve, mfd_do_seal]
    split
    · exact hg
    split
    · exact held_by_update hg ((hg _).of_hold (mfd_seal_frame h _ val).2) _
    · exact hg
  | map pid f val =>
    rw [mfd_serve, mfd_do_map]
    split
    · exact hg
    split
    · exact held_by_update hg ((hg _).of_hold (mfd_map_frame h _ pid val).2) _
    · exact hg
  | mode_get f =>
    rw [mfd_serve, mfd_do_mode_get]
    split
    · exact hg
    split
    · exact hg
    · exact hg
  | mode_set pid val st pin =>
    have hset (i : Nat) (e : MfdEntry) (he : e.HeldBy P) (j : Nat) :
        ((mfd_hold_mode h g pid val i e).1 j).HeldBy P := by
      refine held_by_update hg (MfdEntry.HeldBy.add ?_ h (hq pid rfl)) i j
      exact he
    rw [mfd_serve, mfd_do_mode_set.eq_def]
    split
    · exact hg
    split
    · exact hset _ _ (hg _)
    split
    · exact hg
    split
    · exact hg
    · exact hset _ _ MfdEntry.HeldBy.zero
  | idle =>
    intro i
    rw [mfd_serve, mfd_any_live]
    dsimp only
    split
    · exact (hg i).reclaim h
    · exact hg i

theorem mfd_run_held_by {acts : List (Host × MfdReq)} (hrun : Steps MfdStep g acts g')
    (hcaller : ∀ a ∈ acts, ∀ pid ∈ a.2.caller, P pid (a.1.starttime pid)) (hg : ∀ i, (g i).HeldBy P) (i : Nat) :
    (g' i).HeldBy P := by
  induction hrun with
  | nil => exact hg i
  | cons hstep _ ih =>
    obtain rfl := hstep
    exact ih (fun a ha => hcaller a (.tail _ ha))
      (mfd_serve_held_by hg _ _ (hcaller _ (.head _)))

end rows

def one_alive (pid : Int) : Host := ⟨0, 0, fun p => if p = pid then 1 else 0⟩

def memfd_of (n : Nat) : FileId := (1#64, BitVec.ofNat 64 n)

def reg_by_7 (n : Nat) : Host × MfdReq := (one_alive 7, .reg 7 0 0#32 none (some (memfd_of n)) (some 3))

def mfd_run (g : MfdTab) (acts : List (Host × MfdReq)) : MfdTab := acts.foldl (fun g a => (mfd_serve a.1 g a.2).1) g

theorem mfd_run_steps (g : MfdTab) (acts : List (Host × MfdReq)) : Steps MfdStep g acts (mfd_run g acts) := by
  induction acts generalizing g with
  | nil => exact .nil g
  | cons a as ih => exact .cons rfl (ih _)

theorem memfd_of_not_mem {n : Nat} (hn : n ≤ MFD_TAB_MAX) : memfd_of n ∉ ((List.range n).map memfd_of).reverse := by
  intro hmem
  obtain ⟨k, hk, heq⟩ := mem_map.1 (mem_reverse.1 hmem)
  have hlt := mem_range.1 hk
  have hnat := congrArg (fun f : FileId => f.2.toNat) heq
  simp only [memfd_of, BitVec.toNat_ofNat] at hnat
  unfold MFD_TAB_MAX at hn
  omega

theorem registered_by_7 {n : Nat} (hn : n ≤ MFD_TAB_MAX) :
    registered ((List.range n).map reg_by_7) = ((List.range n).map memfd_of).reverse := by
  induction n with
  | zero => rfl
  | succ n ih =>
    have hnew := memfd_of_not_mem (Nat.le_of_succ_le hn)
    have hroom : ((List.range n).map memfd_of).reverse.length < MFD_TAB_MAX := by
      rw [length_reverse, length_map, length_range]
      exact hn
    have hih := ih (Nat.le_of_succ_le hn)
    unfold registered at hih ⊢
    rw [range_succ, map_append, foldl_append, hih, map_append, reverse_append]
    rw [map_singleton, foldl_cons, foldl_nil, registered_after_some (f := memfd_of n) rfl,
      if_neg hnew, if_pos ⟨hroom, rfl⟩]
    rfl

def all_by_7 : List (Host × MfdReq) := (List.range MFD_TAB_MAX).map reg_by_7

theorem all_by_7_full {g : MfdTab} (hrun : Steps MfdStep .empty all_by_7 g) (h : Host) {q : MfdReq}
    (hq : q.file = some (memfd_of 256)) : (mfd_serve h g q).2 = - ENFILE := by
  have hg := mfd_run_registers hrun
  rw [all_by_7, registered_by_7 le_rfl] at hg
  refine (mfd_serve_full hg h hq).2 ⟨memfd_of_not_mem le_rfl, ?_⟩
  rw [length_reverse, length_map, length_range]

/-- Every entry that process 7 has registered has it for a holder. -/
theorem reg_by_7_holds {g : MfdTab} (hg : ∀ i, (g i).used = true → ⟨7, 1, 0⟩ ∈ (g i).hold) (n i : Nat)
    (hused : ((mfd_serve (one_alive 7) g (reg_by_7 n).2).1 i).used = true) :
    ⟨7, 1, 0⟩ ∈ ((mfd_serve (one_alive 7) g (reg_by_7 n).2).1 i).hold := by
  revert hused
  rw [reg_by_7, mfd_serve, mfd_do_reg, if_neg (by decide)]
  dsimp only
  cases (mfd_find g (memfd_of n)).or (mfd_free g) with
  | none => exact hg i
  | some j =>
    dsimp only
    by_cases hij : i = j
    · subst hij
      rw [update_self]
      exact fun _ => mem_cons_self
    · rw [update_of_ne hij]
      exact hg i

theorem all_by_7_holds : ∀ i, ((mfd_run .empty all_by_7) i).used = true →
    ⟨7, 1, 0⟩ ∈ (mfd_run .empty all_by_7 i).hold := by
  rw [all_by_7]
  induction MFD_TAB_MAX with
  | zero => exact fun i hi => nomatch hi
  | succ n ih =>
    rw [range_succ, map_append, mfd_run, foldl_append, ← mfd_run]
    exact reg_by_7_holds ih n

theorem Registers.live {g : MfdTab} {ks : List FileId} (hg : Registers g ks)
    (hholds : ∀ i, (g i).used = true → ⟨7, 1, 0⟩ ∈ (g i).hold) {f : FileId} (hf : f ∈ ks) :
    LiveHolder (one_alive 7) g f := by
  obtain ⟨i, hi, hkey⟩ := (hg.mem_iff f).1 hf
  exact ⟨i, hi, hkey, ⟨7, 1, 0⟩, hholds i (MfdEntry.key_eq_some.1 hkey).1, Nat.one_pos, rfl⟩

/-- Process 7 has registered 256 memfds, lives, and is refused one more. -/
theorem memfd_refused_full_live : ∃ g, Steps MfdStep .empty all_by_7 g ∧
    (mfd_serve (one_alive 7) g (reg_by_7 256).2).2 = - ENFILE ∧ ∃ others : List FileId, others.Nodup ∧
      others.length = MFD_TAB_MAX ∧ memfd_of 256 ∉ others ∧ ∀ f' ∈ others, LiveHolder (one_alive 7) g f' := by
  have hsteps := mfd_run_steps .empty all_by_7
  have hrefused := all_by_7_full hsteps (one_alive 7) (q := (reg_by_7 256).2) rfl
  refine ⟨_, hsteps, hrefused, (memfd_refused_full hsteps (one_alive 7) rfl).2 (fun _ _ f' hf' => ?_) hrefused⟩
  exact (mfd_run_registers hsteps).live all_by_7_holds hf'

/-- A process registers 256 memfds and dies: a memfd of another process is refused, though no recorded holder of any
entry lives. -/
theorem dead_holders_fill_registry : ∃ g, Steps MfdStep .empty all_by_7 g ∧
    (mfd_serve (one_alive 8) g (.reg 8 0 0#32 none (some (memfd_of 256)) (some 3))).2 = - ENFILE ∧
      ∀ f, ¬ LiveHolder (one_alive 8) g f := by
  have hsteps := mfd_run_steps .empty all_by_7
  refine ⟨_, hsteps, all_by_7_full hsteps (one_alive 8) rfl, ?_⟩
  rintro f ⟨i, -, -, r, hr, hpos, hlive⟩
  -- every row is process 7's, which has no start time any more
  have hseven := mfd_run_held_by (P := fun pid _ => pid = 7) hsteps (fun a ha pid hpid => ?_)
    (fun _ => MfdEntry.HeldBy.zero) i r hr
  · rw [show r.key = 7 from hseven] at hlive
    have hgone : (one_alive 8).starttime 7 = 0 := rfl
    omega
  obtain ⟨n, -, rfl⟩ := mem_map.1 ha
  exact (some.inj hpid).symm

end arm64emu
