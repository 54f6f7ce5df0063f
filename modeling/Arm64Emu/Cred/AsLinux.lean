import Mathlib
import Arm64Emu.Cred.Setid

namespace arm64emu

def named (u : u32) : Option u32 := if u = ID_KEEP then none else some u

/-- What a refused or granted call leaves of the ids of a kind, and its answer. -/
def id_answer (c : linux.Ids u32) : Except linux.Refusal (linux.Ids u32) → linux.Ids u32 × Int
  | .ok c' => (c', 0)
  | .error .perm => (c, - EPERM)
  | .error .inval => (c, - EINVAL)

def uid_answer (c : linux.Creds u32) (x : Except linux.Refusal (linux.Ids u32)) : linux.Creds u32 × Int :=
  ({ c with uid := (id_answer c.uid x).1 }, (id_answer c.uid x).2)

def gid_answer (c : linux.Creds u32) (x : Except linux.Refusal (linux.Ids u32)) : linux.Creds u32 × Int :=
  ({ c with gid := (id_answer c.gid x).1 }, (id_answer c.gid x).2)

def img_shown (m : NetIds) (img : ImgSt) : linux.Image u32 where
  owner := named (remap_uid m img.st_uid)
  group := named (remap_gid m img.st_gid)
  setuid := decide (img.st_mode &&& S_ISUID ≠ 0#32)
  setgid := decide (img.st_mode &&& (S_ISGID ||| S_IXGRP) = S_ISGID ||| S_IXGRP)

/-- The calls on Linux, for a process whose privilege is effective uid 0. -/
def linux_call (lowers : Bool) (m : NetIds) (c : linux.Creds u32) : IdCall → linux.Creds u32 × Int
  | .setuid a0 => uid_answer c (c.uid.set (c.uid.eff = 0#32) (named (a0.setWidth 32)))
  | .setgid a0 => gid_answer c (c.gid.set (c.uid.eff = 0#32) (named (a0.setWidth 32)))
  | .setreuid a0 a1 =>
    uid_answer c (c.uid.setre (c.uid.eff = 0#32) (named (a0.setWidth 32)) (named (a1.setWidth 32)))
  | .setregid a0 a1 =>
    gid_answer c (c.gid.setre (c.uid.eff = 0#32) (named (a0.setWidth 32)) (named (a1.setWidth 32)))
  | .setresuid a0 a1 a2 =>
    uid_answer c (c.uid.setres (c.uid.eff = 0#32) (named (a0.setWidth 32)) (named (a1.setWidth 32))
      (named (a2.setWidth 32)))
  | .setresgid a0 a1 a2 =>
    gid_answer c (c.gid.setres (c.uid.eff = 0#32) (named (a0.setWidth 32)) (named (a1.setWidth 32))
      (named (a2.setWidth 32)))
  | .setfsuid a0 => ({ c with uid := c.uid.setfs (c.uid.eff = 0#32) (named (a0.setWidth 32)) }, c.uid.fs.toNat)
  | .setfsgid a0 => ({ c with gid := c.gid.setfs (c.uid.eff = 0#32) (named (a0.setWidth 32)) }, c.gid.fs.toNat)
  | .execve nnp img dt => if dt < 0 then (c, dt) else (c.exec lowers nnp (img_shown m img), 0)

section bodies

variable (priv : Bool) (c : linux.Ids u32) (u : u32) (ru eu su : u32) (in_set : u32 → Bool)

def id_kept (out : linux.Ids u32 × Int) : linux.Ids u32 × Int := (if out.2 = 0 then out.1 else c, out.2)

theorem id_kept_ok (c' : linux.Ids u32) : id_kept c (c', 0) = id_answer c (.ok c') := rfl

theorem id_kept_perm (c' : linux.Ids u32) : id_kept c (c', - EPERM) = id_answer c (.error .perm) := rfl

theorem setid_body_linux {u : u32} (hu : u ≠ ID_KEEP) :
    id_kept c (setid_body priv c u) = id_answer c (c.set priv (named u)) := by
  unfold setid_body named linux.Ids.set
  rw [if_neg hu]
  dsimp only
  split_ifs
  · exact id_kept_ok c _
  · exact id_kept_ok c _
  · exact id_kept_perm c _

/-- The id -1 is refused as invalid on Linux, and never so here. -/
theorem setid_body_keep : (setid_body priv c ID_KEEP).2 ≠ (id_answer c (c.set priv (named ID_KEEP))).2 := by
  have hinval : (id_answer c (c.set priv (named ID_KEEP))).2 = - EINVAL := rfl
  have hret : (setid_body priv c ID_KEEP).2 = 0 ∨ (setid_body priv c ID_KEEP).2 = - EPERM := by
    unfold setid_body
    split_ifs <;> simp
  rw [hinval]
  rcases hret with hret | hret
  · rw [hret]
    decide
  · rw [hret]
    decide

theorem forall_named (p : u32 → Prop) : (∀ v ∈ named u, p v) ↔ (u ≠ ID_KEEP → p u) := by
  unfold named
  split_ifs with hu
  · simp [hu]
  · simp [hu]

theorem exists_named (p : u32 → Prop) : (∃ v ∈ named u, p v) ↔ u ≠ ID_KEEP ∧ p u := by
  unfold named
  split_ifs with hu
  · simp [hu]
  · simp [hu]

theorem isSome_named : (named u).isSome = true ↔ u ≠ ID_KEEP := by
  unfold named
  split_ifs with hu
  · simp [hu]
  · simp [hu]

theorem getD_named (u v : u32) : (named u).getD v = if u = ID_KEEP then v else u := by
  unfold named
  split_ifs with hu
  · rfl
  · rfl

theorem setreid_body_ids (ru eu : u32) :
    (setreid_body priv c ru eu).1 =
      { real := if ru = ID_KEEP then c.real else ru
        eff := if eu = ID_KEEP then c.eff else eu
        saved := if ru ≠ ID_KEEP ∨ (eu ≠ ID_KEEP ∧ eu ≠ c.real) then if eu = ID_KEEP then c.eff else eu else c.saved
        fs := if eu = ID_KEEP then c.eff else eu } := by
  unfold setreid_body
  by_cases hr : ru = ID_KEEP <;> by_cases he : eu = ID_KEEP <;> simp only [hr, he, ne_eq, not_true_eq_false,
    not_false_eq_true, if_true, if_false, false_or, true_or, true_and, false_and]
  split_ifs <;> rfl

theorem setreid_body_ret (ru eu : u32) :
    (setreid_body priv c ru eu).2 =
      if (ru ≠ ID_KEEP → priv = true ∨ ru = c.real ∨ ru = c.eff) ∧ (eu ≠ ID_KEEP → priv = true ∨ c.has eu) then 0
      else - EPERM := by
  unfold setreid_body linux.Ids.has
  cases priv with
  | true => simp
  | false =>
    simp only [Bool.not_false, true_and, Bool.false_eq_true, false_or]
    split_ifs <;> first | rfl | (exfalso; tauto)

theorem setreid_body_linux (ru eu : u32) :
    id_kept c (setreid_body priv c ru eu) = id_answer c (c.setre priv (named ru) (named eu)) := by
  unfold id_kept linux.Ids.setre
  rw [setreid_body_ids, setreid_body_ret]
  simp only [forall_named, exists_named, isSome_named, getD_named]
  split_ifs <;> first | rfl | contradiction

theorem setresid_body_ids :
    (setresid_body priv c in_set ru eu su).1 =
      { real := if ru = ID_KEEP then c.real else ru
        eff := if eu = ID_KEEP then c.eff else eu
        saved := if su = ID_KEEP then c.saved else su
        fs := if eu = ID_KEEP then c.eff else eu } := by
  unfold setresid_body
  by_cases hr : ru = ID_KEEP <;> by_cases he : eu = ID_KEEP <;> by_cases hs : su = ID_KEEP <;> simp [hr, he, hs]

theorem setresid_body_ret (hin : ∀ u, in_set u = true ↔ c.has u) :
    (setresid_body priv c in_set ru eu su).2 =
      if priv = true ∨ ((ru ≠ ID_KEEP → c.has ru) ∧ (eu ≠ ID_KEEP → c.has eu) ∧ (su ≠ ID_KEEP → c.has su)) then 0
      else - EPERM := by
  have hout (u : u32) : (!in_set u) = true ↔ ¬ c.has u := by rw [← hin, Bool.not_eq_true', Bool.not_eq_true]
  unfold setresid_body
  simp only [hout]
  cases priv with
  | true => simp
  | false =>
    by_cases hr : ru ≠ ID_KEEP → c.has ru <;> by_cases he : eu ≠ ID_KEEP → c.has eu <;>
      by_cases hs : su ≠ ID_KEEP → c.has su <;> simp_all

theorem setresid_body_linux (hin : ∀ u, in_set u = true ↔ c.has u) :
    id_kept c (setresid_body priv c in_set ru eu su) =
      id_answer c (c.setres priv (named ru) (named eu) (named su)) := by
  unfold id_kept linux.Ids.setres
  rw [setresid_body_ids, setresid_body_ret priv c ru eu su in_set hin]
  simp only [forall_named, getD_named]
  split_ifs <;> first | rfl | contradiction

theorem setfsid_body_linux : setfsid_body priv c u = c.setfs priv (named u) := by
  unfold setfsid_body named
  by_cases hu : u = ID_KEEP
  · rw [if_pos hu, if_neg fun h => h.1 hu, linux.Ids.setfs]
  · rw [if_neg hu, linux.Ids.setfs]
    simp only [hu, ne_eq, not_false_eq_true, true_and, linux.Ids.has, or_assoc]

end bodies

section calls

variable (lowers : Bool) (m : NetIds) (i : Ident) (c : linux.Ids u32) (img : ImgSt) (cr : Cred)

def Cred.ids (cr : Cred) : linux.Creds u32 := ⟨cr.uids, cr.gids⟩

def id_view (out : Ident × Int) : linux.Creds u32 × Int := (out.1.cred.ids, out.2)

theorem in_uset_has (u : u32) : in_uset cr u = true ↔ cr.uids.has u := by
  simp only [in_uset, linux.Ids.has, Cred.uids, Bool.or_eq_true, decide_eq_true_eq, or_assoc]

theorem in_gset_has (u : u32) : in_gset cr u = true ↔ cr.gids.has u := by
  simp only [in_gset, linux.Ids.has, Cred.gids, Bool.or_eq_true, decide_eq_true_eq, or_assoc]

theorem cred_update_uids_view (out : linux.Ids u32 × Int) {x : Except linux.Refusal (linux.Ids u32)}
    (h : id_kept i.cred.uids out = id_answer i.cred.uids x) :
    id_view (cred_update_uids i out) = uid_answer i.cred.ids x := by
  have hview : id_view (cred_update_uids i out) =
      ({ i.cred.ids with uid := (id_kept i.cred.uids out).1 }, (id_kept i.cred.uids out).2) := by
    unfold id_view cred_update_uids cred_update id_kept
    split_ifs <;> rfl
  rw [hview, h]
  rfl

theorem cred_update_gids_view (out : linux.Ids u32 × Int) {x : Except linux.Refusal (linux.Ids u32)}
    (h : id_kept i.cred.gids out = id_answer i.cred.gids x) :
    id_view (cred_update_gids i out) = gid_answer i.cred.ids x := by
  have hview : id_view (cred_update_gids i out) =
      ({ i.cred.ids with gid := (id_kept i.cred.gids out).1 }, (id_kept i.cred.gids out).2) := by
    unfold id_view cred_update_gids cred_update id_kept
    split_ifs <;> rfl
  rw [hview, h]
  rfl

/-- What an exec must meet for the ids to stay Linux's. -/
structure ExecAgrees (lowers : Bool) (m : NetIds) (nnp : Bool) (img : ImgSt) (cr : Cred) : Prop where
  -- an image that does not give its owner away leaves the saved and filesystem ids as they are
  uid : setid_uid nnp img = false → cr.suid = cr.euid ∧ cr.fsuid = cr.euid
  gid : setid_gid nnp img = false → cr.sgid = cr.egid ∧ cr.fsgid = cr.egid
  lowered : lowers = true → nnp = true → cr.euid = cr.ruid ∧ cr.egid = cr.rgid
  -- -1 is taken for an owner
  named : remap_uid m img.st_uid = ID_KEEP ∨ remap_gid m img.st_gid = ID_KEEP →
    (setid_uid nnp img = true → remap_uid m img.st_uid = cr.euid) ∧
      (setid_gid nnp img = true → remap_gid m img.st_gid = cr.egid)

/-- What a call must meet for the ids to stay Linux's. -/
def CallAgrees : IdCall → Prop
  | .setuid a0 | .setgid a0 => a0.setWidth 32 ≠ ID_KEEP
  | .execve nnp img dt => dt < 0 ∨ ExecAgrees lowers m nnp img i.cred
  | _ => True

theorem do_execve_view (hfake : m.fake_id = true) (nnp : Bool) (img : ImgSt) {dt : Int} (hdt : ¬ dt < 0) :
    id_view (do_execve m nnp img i dt) =
      (⟨if setid_uid nnp img then i.cred.uids.exec (remap_uid m img.st_uid) else i.cred.uids,
        if setid_gid nnp img then i.cred.gids.exec (remap_gid m img.st_gid) else i.cred.gids⟩, 0) := by
  unfold do_execve
  rw [if_neg hdt, hfake]
  cases setid_uid nnp img <;> cases setid_gid nnp img <;> rfl

theorem ids_eq_exec (e : u32) : c = c.exec e ↔ c.eff = e ∧ c.saved = e ∧ c.fs = e := by
  cases c
  simp [linux.Ids.exec]

theorem raised_eq_taken (bit : Bool) (id : u32) :
    (if bit then c.exec id else c) = c.exec (if bit then id else c.eff) ↔
      (bit = false → c.saved = c.eff ∧ c.fs = c.eff) := by
  cases bit with
  | false => simp [ids_eq_exec]
  | true => simp

theorem raised_eq_kept (bit : Bool) (id : u32) :
    (if bit then c.exec id else c) = c.exec c.eff ↔
      (bit = false → c.saved = c.eff ∧ c.fs = c.eff) ∧ (bit = true → id = c.eff) := by
  cases bit with
  | false => simp [ids_eq_exec]
  | true => simp [linux.Ids.exec]

theorem setid_uid_nnp : setid_uid true img = false := rfl

theorem setid_gid_nnp : setid_gid true img = false := rfl

theorem linux_exec_nnp (u g : linux.Ids u32) :
    (⟨u, g⟩ : linux.Creds u32).exec lowers true (img_shown m img) =
      if lowers = true ∧ (u.eff ≠ u.real ∨ g.eff ≠ g.real) then ⟨u.exec u.real, g.exec g.real⟩
      else ⟨u.exec u.eff, g.exec g.eff⟩ := by
  unfold linux.Creds.exec linux.Image.ask
  simp only [Bool.not_true, Bool.false_and, Bool.false_eq_true, if_false, Option.getD_none, Bool.and_true,
    Bool.and_eq_true, decide_eq_true_eq]

theorem linux_exec_setid (u g : linux.Ids u32) :
    (⟨u, g⟩ : linux.Creds u32).exec lowers false (img_shown m img) =
      if remap_uid m img.st_uid ≠ ID_KEEP ∧ remap_gid m img.st_gid ≠ ID_KEEP then
        ⟨u.exec (if setid_uid false img then remap_uid m img.st_uid else u.eff),
          g.exec (if setid_gid false img then remap_gid m img.st_gid else g.eff)⟩
      else ⟨u.exec u.eff, g.exec g.eff⟩ := by
  unfold linux.Creds.exec linux.Image.ask
  simp only [Bool.and_false, Bool.false_and, Bool.false_eq_true, if_false]
  by_cases hu : remap_uid m img.st_uid = ID_KEEP <;> by_cases hg : remap_gid m img.st_gid = ID_KEEP
  all_goals
    simp only [img_shown, named, hu, hg, if_true, if_false, setid_uid, setid_gid, Option.isSome_none,
      Option.isSome_some, Bool.and_false, Bool.and_true, Bool.not_false, Bool.true_and, Bool.false_eq_true, ne_eq,
      not_true_eq_false, not_false_eq_true, and_self, and_true, and_false, Option.getD_none]
  split_ifs <;> rfl

theorem ExecAgrees.nnp_iff :
    ExecAgrees lowers m true img cr ↔ (cr.suid = cr.euid ∧ cr.fsuid = cr.euid) ∧
      (cr.sgid = cr.egid ∧ cr.fsgid = cr.egid) ∧ (lowers = true → cr.euid = cr.ruid ∧ cr.egid = cr.rgid) := by
  constructor
  · intro h
    exact ⟨h.uid rfl, h.gid rfl, fun hl => h.lowered hl rfl⟩
  rintro ⟨huid, hgid, hlow⟩
  refine ⟨fun _ => huid, fun _ => hgid, fun hl _ => hlow hl, fun _ => ⟨fun h => ?_, fun h => ?_⟩⟩
  · rw [setid_uid_nnp] at h
    cases h
  · rw [setid_gid_nnp] at h
    cases h

theorem ExecAgrees.setid_iff :
    ExecAgrees lowers m false img cr ↔
      (setid_uid false img = false → cr.suid = cr.euid ∧ cr.fsuid = cr.euid) ∧
      (setid_gid false img = false → cr.sgid = cr.egid ∧ cr.fsgid = cr.egid) ∧
      (remap_uid m img.st_uid = ID_KEEP ∨ remap_gid m img.st_gid = ID_KEEP →
        (setid_uid false img = true → remap_uid m img.st_uid = cr.euid) ∧
          (setid_gid false img = true → remap_gid m img.st_gid = cr.egid)) := by
  constructor
  · intro h
    exact ⟨h.uid, h.gid, h.named⟩
  · rintro ⟨huid, hgid, hnamed⟩
    exact ⟨huid, hgid, fun _ h => absurd h Bool.false_ne_true, hnamed⟩

theorem do_execve_agrees (hfake : m.fake_id = true) (nnp : Bool) (img : ImgSt) {dt : Int} (hdt : ¬ dt < 0) :
    id_view (do_execve m nnp img i dt) = (i.cred.ids.exec lowers nnp (img_shown m img), 0) ↔
      ExecAgrees lowers m nnp img i.cred := by
  rw [do_execve_view m i hfake nnp img hdt, Prod.mk.injEq, and_iff_left rfl]
  cases nnp with
  | true =>
    rw [Cred.ids, linux_exec_nnp, setid_uid_nnp, setid_gid_nnp, ExecAgrees.nnp_iff]
    rw [if_neg Bool.false_ne_true, if_neg Bool.false_ne_true]
    by_cases hl : lowers = true ∧ (i.cred.uids.eff ≠ i.cred.uids.real ∨ i.cred.gids.eff ≠ i.cred.gids.real)
    · -- Linux takes an effective id back
      rw [if_pos hl, linux.Creds.mk.injEq, ids_eq_exec, ids_eq_exec]
      constructor
      · rintro ⟨⟨huid, -⟩, hgid, -⟩
        exact absurd hl.2 (not_or.2 ⟨not_not.2 huid, not_not.2 hgid⟩)
      rintro ⟨-, -, hlow⟩
      obtain ⟨huid, hgid⟩ := hlow hl.1
      exact absurd hl.2 (not_or.2 ⟨not_not.2 huid, not_not.2 hgid⟩)
    rw [if_neg hl, linux.Creds.mk.injEq, ids_eq_exec, ids_eq_exec]
    simp only [Cred.uids, Cred.gids, true_and] at hl ⊢
    refine and_congr_right fun _ => (and_iff_left fun hlow => ?_).symm
    by_contra hne
    exact hl ⟨hlow, by tauto⟩
  | false =>
    rw [Cred.ids, linux_exec_setid, ExecAgrees.setid_iff]
    by_cases hnamed : remap_uid m img.st_uid ≠ ID_KEEP ∧ remap_gid m img.st_gid ≠ ID_KEEP
    · rw [if_pos hnamed, linux.Creds.mk.injEq, raised_eq_taken, raised_eq_taken]
      refine and_congr_right fun _ => (and_iff_left fun hkeep => ?_).symm
      exact absurd hkeep (not_or.2 hnamed)
    rw [if_neg hnamed, linux.Creds.mk.injEq, raised_eq_kept, raised_eq_kept]
    have hkeep : remap_uid m img.st_uid = ID_KEEP ∨ remap_gid m img.st_gid = ID_KEEP := by tauto
    simp only [hkeep, true_imp_iff, Cred.uids, Cred.gids]
    exact and_and_and_comm.trans and_assoc

theorem id_call_agrees (hfake : m.fake_id = true) (a : IdCall) :
    id_view (id_call m i a) = linux_call lowers m i.cred.ids a ↔ CallAgrees lowers m i a := by
  cases a with
  | setuid a0 =>
    refine ⟨fun h hkeep => ?_, fun hkeep => cred_update_uids_view i _ (setid_body_linux _ _ hkeep)⟩
    have hret := congrArg Prod.snd h
    simp only [id_view, id_call, setuid, linux_call, hkeep] at hret
    exact setid_body_keep _ _ hret
  | setgid a0 =>
    refine ⟨fun h hkeep => ?_, fun hkeep => cred_update_gids_view i _ (setid_body_linux _ _ hkeep)⟩
    have hret := congrArg Prod.snd h
    simp only [id_view, id_call, setgid, linux_call, hkeep] at hret
    exact setid_body_keep _ _ hret
  | setreuid a0 a1 => exact iff_of_true (cred_update_uids_view i _ (setreid_body_linux _ _ _ _)) trivial
  | setregid a0 a1 => exact iff_of_true (cred_update_gids_view i _ (setreid_body_linux _ _ _ _)) trivial
  | setresuid a0 a1 a2 =>
    exact iff_of_true
      (cred_update_uids_view i _ (setresid_body_linux _ _ _ _ _ _ (in_uset_has i.cred))) trivial
  | setresgid a0 a1 a2 =>
    exact iff_of_true
      (cred_update_gids_view i _ (setresid_body_linux _ _ _ _ _ _ (in_gset_has i.cred))) trivial
  | setfsuid a0 =>
    refine iff_of_true ?_ trivial
    simp only [id_view, id_call, setfsuid, linux_call, setfsid_body_linux]
    rfl
  | setfsgid a0 =>
    refine iff_of_true ?_ trivial
    simp only [id_view, id_call, setfsgid, linux_call, setfsid_body_linux]
    rfl
  | execve nnp img dt =>
    by_cases hdt : dt < 0
    · refine iff_of_true ?_ (Or.inl hdt)
      simp only [id_view, id_call, do_execve, linux_call, if_pos hdt]
    · simp only [id_call, linux_call, CallAgrees, hdt, false_or]
      exact do_execve_agrees lowers m i hfake nnp img hdt

end calls

section runs

variable (lowers : Bool) (m : NetIds)

/-- The ids and the result after each call. -/
def id_run (i : Ident) : List IdCall → List (linux.Creds u32 × Int)
  | [] => []
  | a :: as => id_view (id_call m i a) :: id_run (id_call m i a).1 as

/-- The same on Linux. -/
def linux_run (c : linux.Creds u32) : List IdCall → List (linux.Creds u32 × Int)
  | [] => []
  | a :: as => linux_call lowers m c a :: linux_run (linux_call lowers m c a).1 as

/-- Every call of the run agrees. -/
def RunAgrees (i : Ident) : List IdCall → Prop
  | [] => True
  | a :: as => CallAgrees lowers m i a ∧ RunAgrees (id_call m i a).1 as

/-- A run under a fake identity is the run on Linux, call by call, exactly when no call
sets an id to -1 by `setuid` or `setgid` and every exec meets `ExecAgrees`. -/
theorem fake_ids_as_linux (hfake : m.fake_id = true) (i : Ident) (calls : List IdCall) :
    id_run m i calls = linux_run lowers m i.cred.ids calls ↔ RunAgrees lowers m i calls := by
  induction calls generalizing i with
  | nil => exact iff_of_true rfl trivial
  | cons a as ih =>
    rw [id_run, linux_run, RunAgrees, List.cons.injEq, id_call_agrees lowers m i hfake, ← ih]
    -- the call agrees, so Linux goes on from the same ids
    refine and_congr_right fun hagrees => ?_
    rw [← (id_call_agrees lowers m i hfake a).2 hagrees]
    rfl

def root_conf : NetIds := ⟨true, 0#32, 0#32, 1000#32, 1000#32, 0#32, 0#32, 0#32, 0#32, 0#32, 0#32,
  fun _ => false, fun _ => false⟩

def root_ident : Ident := ⟨⟨0#32, 0#32, 0#32, 0#32, 0#32, 0#32, 0#32, 0#32⟩, 0#32⟩

/-- A user becomes root by a set-user-ID image, here as on Linux. -/
theorem fake_ids_as_linux_su :
    id_run root_conf root_ident [.setuid 1001#64, .execve false ⟨0o4755#32, 0#32, 0#32⟩ 0] =
      linux_run true root_conf root_ident.cred.ids [.setuid 1001#64, .execve false ⟨0o4755#32, 0#32, 0#32⟩ 0] :=
  (fake_ids_as_linux true root_conf rfl root_ident _).2
    ⟨(by decide : (1001#64).setWidth 32 ≠ ID_KEEP), Or.inr ⟨by decide, by decide, by decide, by decide⟩, trivial⟩

/-- Root is given up but for the saved uid, an image that is not set-user-ID is run, and it takes root up again, which
Linux refuses. -/
theorem saved_root_taken_again :
    (id_run root_conf root_ident [.setresuid 1001#64 1001#64 0#64, .execve false ⟨0o755#32, 0#32, 0#32⟩ 0,
      .setresuid 0#64 0#64 0#64]).map (fun r => (r.1.uid.eff, r.2)) = [(1001#32, 0), (1001#32, 0), (0#32, 0)] ∧
    ∀ lowers, (linux_run lowers root_conf root_ident.cred.ids [.setresuid 1001#64 1001#64 0#64,
      .execve false ⟨0o755#32, 0#32, 0#32⟩ 0, .setresuid 0#64 0#64 0#64]).map (fun r => (r.1.uid.eff, r.2)) =
        [(1001#32, 0), (1001#32, 0), (1001#32, - EPERM)] := by
  decide

end runs

/-- All ids of a kind are ones that `P` allows. -/
def IdsAmong (P : u32 → Prop) (c : linux.Ids u32) : Prop := P c.real ∧ P c.eff ∧ P c.saved ∧ P c.fs

def Ident.Among (U V : u32 → Prop) (i : Ident) : Prop := IdsAmong U i.cred.uids ∧ IdsAmong V i.cred.gids

section confined

variable {P U V : u32 → Prop} {c : linux.Ids u32} {i : Ident} {u ru eu su : u32}

theorem among_ite {q : Prop} [Decidable q] {a b : linux.Ids u32} (ha : q → IdsAmong P a) (hb : IdsAmong P b) :
    IdsAmong P (if q then a else b) := by
  split
  next hq => exact ha hq
  next => exact hb

section set

variable {q : Prop} [Decidable q] {v : u32}

theorem IdsAmong.set_real (h : IdsAmong P c) (hv : q → P v) : IdsAmong P (if q then { c with real := v } else c) :=
  among_ite (fun hq => ⟨hv hq, h.2⟩) h

theorem IdsAmong.set_eff (h : IdsAmong P c) (hv : q → P v) : IdsAmong P (if q then { c with eff := v } else c) :=
  among_ite (fun hq => ⟨h.1, hv hq, h.2.2⟩) h

theorem IdsAmong.set_saved (h : IdsAmong P c) (hv : q → P v) : IdsAmong P (if q then { c with saved := v } else c) :=
  among_ite (fun hq => ⟨h.1, h.2.1, hv hq, h.2.2.2⟩) h

end set

theorem setid_body_among (h : IdsAmong P c) : IdsAmong P (setid_body false c u).1 := by
  unfold setid_body
  rw [if_neg Bool.false_ne_true, apply_ite Prod.fst]
  refine among_ite (fun hu => ?_) h
  have hP : P u := hu.elim (fun hu => hu ▸ h.1) fun hu => hu ▸ h.2.2.1
  exact ⟨h.1, hP, h.2.2.1, hP⟩

theorem setreid_body_among (h : IdsAmong P c) (hok : (setreid_body false c ru eu).2 = 0) :
    IdsAmong P (setreid_body false c ru eu).1 := by
  have hperm : -EPERM ≠ 0 := by decide
  unfold setreid_body at hok ⊢
  dsimp only at hok ⊢
  split at hok
  next => exact absurd hok hperm
  next heu =>
  split at hok
  next => exact absurd hok hperm
  next hru =>
  have hreal (hk : ru ≠ ID_KEEP) : P ru := by
    by_cases hr : ru = c.real
    · exact hr ▸ h.1
    · have he : ru = c.eff := not_not.mp fun he => hru ⟨hk, rfl, hr, he⟩
      exact he ▸ h.2.1
  have heff (hk : eu ≠ ID_KEEP) : P eu := by
    by_cases hr : eu = c.real
    · exact hr ▸ h.1
    by_cases he : eu = c.eff
    · exact he ▸ h.2.1
    · have hs : eu = c.saved := not_not.mp fun hs => heu ⟨hk, rfl, hr, he, hs⟩
      exact hs ▸ h.2.2.1
  have h₁ := (h.set_real hreal).set_eff heff
  have h₂ := h₁.set_saved (q := ru ≠ ID_KEEP ∨ eu ≠ ID_KEEP ∧ eu ≠ c.real) fun _ => h₁.2.1
  exact ⟨h₂.1, h₂.2.1, h₂.2.2.1, h₂.2.1⟩

theorem setresid_body_among (h : IdsAmong P c) {in_set : u32 → Bool}
    (hset : ∀ v, in_set v = (v = c.real || v = c.eff || v = c.saved))
    (hok : (setresid_body false c in_set ru eu su).2 = 0) : IdsAmong P (setresid_body false c in_set ru eu su).1 := by
  have hperm : -EPERM ≠ 0 := by decide
  unfold setresid_body at hok ⊢
  dsimp only at hok ⊢
  split at hok
  next => exact absurd hok hperm
  next hin =>
  have hmem {v : u32} (hv : in_set v = true) : P v := by
    rw [hset, Bool.or_eq_true, Bool.or_eq_true, decide_eq_true_iff, decide_eq_true_iff, decide_eq_true_iff] at hv
    rcases hv with (rfl | rfl) | rfl
    · exact h.1
    · exact h.2.1
    · exact h.2.2.1
  simp only [Bool.not_false, true_and, Bool.not_eq_true', not_or, not_and, Bool.not_eq_false] at hin
  obtain ⟨hr, he, hs⟩ := hin
  have hall := ((h.set_real fun hk => hmem (hr hk)).set_eff fun hk => hmem (he hk)).set_saved fun hk => hmem (hs hk)
  exact ⟨hall.1, hall.2.1, hall.2.2.1, hall.2.1⟩

theorem setfsid_body_among (h : IdsAmong P c) : IdsAmong P (setfsid_body false c u) := by
  refine among_ite (fun hu => ⟨h.1, h.2.1, h.2.2.1, ?_⟩) h
  rcases hu.2 with hu | rfl | rfl | rfl | rfl
  · cases hu
  · exact h.1
  · exact h.2.1
  · exact h.2.2.1
  · exact h.2.2.2

theorem cred_update_among (h : i.Among U V) {nc : Cred} {r : Int} (hnc : r = 0 → (⟨nc, nc.ruid⟩ : Ident).Among U V) :
    (cred_update i nc r).1.Among U V := by
  unfold cred_update
  split
  next hok => exact hnc hok
  next => exact h

/-- One call of a process that is not root. -/
theorem id_call_among (m : NetIds) (h : i.Among U V) (hroot : ¬U 0#32) (a : IdCall)
    (hexec : ∀ nnp img dt, a = .execve nnp img dt → nnp = true) : (id_call m i a).1.Among U V := by
  have hpriv : cred_priv i.cred = false := decide_eq_false fun h0 => hroot (h0 ▸ h.1.2.1)
  cases a <;> simp only [id_call, setuid, setgid, setreuid, setregid, setresuid, setresgid, setfsuid, setfsgid, hpriv]
  case setuid => exact cred_update_among h fun _ => ⟨setid_body_among h.1, h.2⟩
  case setgid => exact cred_update_among h fun _ => ⟨h.1, setid_body_among h.2⟩
  case setreuid => exact cred_update_among h fun hok => ⟨setreid_body_among h.1 hok, h.2⟩
  case setregid => exact cred_update_among h fun hok => ⟨h.1, setreid_body_among h.2 hok⟩
  case setresuid => exact cred_update_among h fun hok => ⟨setresid_body_among h.1 (fun _ => rfl) hok, h.2⟩
  case setresgid => exact cred_update_among h fun hok => ⟨h.1, setresid_body_among h.2 (fun _ => rfl) hok⟩
  case setfsuid => exact ⟨setfsid_body_among h.1, h.2⟩
  case setfsgid => exact ⟨h.1, setfsid_body_among h.2⟩
  case execve nnp img dt =>
    obtain rfl := hexec nnp img dt rfl
    simp only [do_execve, setid_uid, setid_gid, Bool.not_true, Bool.false_and, Bool.and_false]
    split <;> exact h

end confined

/-- A process without root among its uids never has an id that it did not start with,
if every exec is with no_new_privs. -/
theorem ids_never_gained (m : NetIds) (i : Ident) (U V : u32 → Prop) (calls : List IdCall) (hroot : ¬U 0#32)
    (h : i.Among U V) (hexec : ∀ nnp img dt, .execve nnp img dt ∈ calls → nnp = true) :
    (calls.foldl (fun i a => (id_call m i a).1) i).Among U V := by
  induction calls generalizing i with
  | nil => exact h
  | cons a calls ih =>
    have hcall := id_call_among m h hroot a fun nnp img dt ha => hexec nnp img dt (ha ▸ .head _)
    exact ih _ hcall fun nnp img dt ha => hexec nnp img dt (.tail _ ha)

/-- A user runs a set-user-ID image of root's and asks to be root. -/
theorem ids_never_gained_user :
    ([.execve true ⟨0o4755#32, 0#32, 0#32⟩ 0, .setuid 0#64].foldl (fun i a => (id_call root_conf i a).1)
      ⟨⟨7#32, 7#32, 7#32, 7#32, 5#32, 5#32, 5#32, 5#32⟩, 7#32⟩).Among (· = 7#32) (· = 5#32) :=
  ids_never_gained root_conf _ _ _ _ (by decide) ⟨⟨rfl, rfl, rfl, rfl⟩, rfl, rfl, rfl, rfl⟩ (by simp)

end arm64emu
