import Mathlib
import Arm64Emu.Ipc.Msg

open slots

namespace arm64emu

open List Option

/-- The counts of a queue are those of its messages. -/
structure MsgQ.Ok (q : MsgQ) : Prop where
  cbytes : q.cbytes = (q.msgs.map GMsg.size).sum
  qnum : q.qnum = q.msgs.length

/-- Every queue is in order, and no two have one id. -/
structure MsgTab.Ok (t : MsgTab) : Prop where
  queue : ∀ i q, t.msq i = some q → q.Ok
  unique : ∀ i j q q', t.msq i = some q → t.msq j = some q' → q.msqid = q'.msqid → i = j
  bound : ∀ i q, t.msq i = some q → i < MSG_QUEUE_MAX ∧ 0 < q.msqid

section tables

variable {t : MsgTab} {i : Nat} {q : MsgQ} {id : Int}

theorem MsgTab.empty_ok : MsgTab.empty.Ok :=
  ⟨fun _ _ hq => (by cases hq), fun _ _ _ _ hq => (by cases hq), fun _ _ hq => (by cases hq)⟩

theorem msg_find_some (hfind : msg_find t id = some (i, q)) : t.msq i = some q ∧ q.msqid = id := by
  unfold msg_find at hfind
  split at hfind
  · cases hfind
  obtain ⟨j, hj, hmap⟩ := bind_eq_some_iff.1 hfind
  obtain ⟨q', hq', heq⟩ := map_eq_some_iff.1 hmap
  obtain ⟨-, q'', hq'', hid⟩ := find_some hj
  cases heq
  rw [hq', some.injEq] at hq''
  subst hq''
  exact ⟨hq', of_decide_eq_true hid⟩

theorem msg_find_of_mem (hok : t.Ok) (hq : t.msq i = some q) : msg_find t q.msqid = some (i, q) := by
  obtain ⟨hlt, hpos⟩ := hok.bound i q hq
  have hfind : (find MSG_QUEUE_MAX t.msq fun q' => q'.msqid = q.msqid) = some i := by
    refine find_unique (fun j k a b ha hb hpa hpb => ?_) hlt hq (decide_eq_true rfl)
    exact hok.unique j k a b ha hb ((of_decide_eq_true hpa).trans (of_decide_eq_true hpb).symm)
  rw [msg_find, if_neg (by omega), hfind, bind_some, hq, map_some]

end tables

/-- A message of the type a `msgrcv` asks for. -/
def Wanted (msgtyp : Int) (msgflg : BitVec 32) (m : GMsg) : Prop :=
  msgtyp = 0 ∨ (0 < msgtyp ∧ if msg_except msgflg then m.mtype ≠ msgtyp else m.mtype = msgtyp) ∨
    (msgtyp < 0 ∧ m.mtype ≤ if msgtyp = -9223372036854775808 then 9223372036854775807 else -msgtyp)

section pick

variable {msgtyp : Int} {msgflg : BitVec 32} {ms : List GMsg} {i k : Nat} {m : GMsg} {best : Option (Nat × GMsg)}

theorem wanted_iff : Wanted msgtyp msgflg m ↔ msg_matches m msgtyp msgflg = true := by
  unfold Wanted msg_matches
  rcases lt_trichotomy msgtyp 0 with hneg | rfl | hpos
  · simp only [hneg.ne, hneg.not_gt, hneg, false_or, false_and, true_and, if_false]
    exact decide_eq_true_iff.symm
  · simp
  · simp only [hpos.ne', hpos, hpos.not_gt, false_or, true_and, false_and, or_false, if_true, if_false]
    split <;> simp

theorem msg_pick_loop_none (ms : List GMsg) (i : Nat) (best : Option (Nat × GMsg)) :
    msg_pick_loop msgtyp msgflg ms i best = none ↔ best = none ∧ ∀ m ∈ ms, ¬Wanted msgtyp msgflg m := by
  induction ms generalizing i best with
  | nil => simp [msg_pick_loop]
  | cons m ms ih =>
    rw [msg_pick_loop, forall_mem_cons]
    by_cases hmatch : msg_matches m msgtyp msgflg = true
    · have hwanted := wanted_iff.2 hmatch
      have hno : ¬(best = none ∧ ¬Wanted msgtyp msgflg m ∧ ∀ m ∈ ms, ¬Wanted msgtyp msgflg m) :=
        fun hall => hall.2.1 hwanted
      rw [if_neg (not_not.2 hmatch), iff_false_right hno]
      split
      · exact some_ne_none _
      split
      · rw [ih]
        exact fun hall => some_ne_none _ hall.1
      next hkept =>
        rw [ih]
        rintro ⟨rfl, -⟩
        exact hkept rfl
    · rw [if_pos hmatch, ih, wanted_iff]
      simp [hmatch]

/-- `msg_pick` finds nothing exactly if no message is of the type asked for. -/
theorem msg_pick_none {q : MsgQ} : msg_pick q msgtyp msgflg = none ↔ ∀ m ∈ q.msgs, ¬Wanted msgtyp msgflg m := by
  rw [msg_pick, msg_pick_loop_none]
  exact and_iff_right rfl

/-- A message that a `msgrcv` prefers: the first of the list, and for a negative type the first of the lowest type. -/
def Preferred (msgtyp : Int) (k : Nat) (m : GMsg) (k' : Nat) (m' : GMsg) : Prop :=
  if 0 ≤ msgtyp then k ≤ k' else m.mtype < m'.mtype ∨ (m.mtype = m'.mtype ∧ k ≤ k')

theorem msg_pick_loop_first (htyp : 0 ≤ msgtyp) (hpick : msg_pick_loop msgtyp msgflg ms i none = some (k, m)) :
    ∃ j, k = i + j ∧ ms[j]? = some m ∧ msg_matches m msgtyp msgflg = true ∧
      ∀ j' m', ms[j']? = some m' → msg_matches m' msgtyp msgflg = true → j ≤ j' := by
  induction ms generalizing i with
  | nil => cases hpick
  | cons m₀ ms ih =>
    rw [msg_pick_loop, if_pos htyp] at hpick
    split at hpick
    next hno =>
      obtain ⟨j, rfl, hj, hmatch, hleast⟩ := ih hpick
      refine ⟨j + 1, by omega, hj, hmatch, fun j' m' hj' hm' => ?_⟩
      cases j' with
      | zero =>
        cases hj'
        exact absurd hm' hno
      | succ j' => exact Nat.succ_le_succ (hleast j' m' hj' hm')
    rename_i hyes
    cases hpick
    exact ⟨0, rfl, rfl, not_not.1 hyes, fun j' _ _ _ => Nat.zero_le j'⟩

theorem least_cons {m m₀ : GMsg} {ms : List GMsg} {j : Nat}
    (hleast : ∀ j' m', ms[j']? = some m' → msg_matches m' msgtyp msgflg = true →
      m.mtype < m'.mtype ∨ (m.mtype = m'.mtype ∧ j ≤ j'))
    (hhead : msg_matches m₀ msgtyp msgflg = true → m.mtype < m₀.mtype) (j' : Nat) (m' : GMsg)
    (hj' : (m₀ :: ms)[j']? = some m') (hm' : msg_matches m' msgtyp msgflg = true) :
    m.mtype < m'.mtype ∨ (m.mtype = m'.mtype ∧ j + 1 ≤ j') := by
  cases j' with
  | zero =>
    cases hj'
    exact .inl (hhead hm')
  | succ j' => exact (hleast j' m' hj' hm').imp_right fun h => ⟨h.1, Nat.succ_le_succ h.2⟩

/-- For a negative type the loop ends with the best it started with, or with the
first of the lowest type it came to. -/
theorem msg_pick_loop_lowest (htyp : ¬0 ≤ msgtyp) (hpick : msg_pick_loop msgtyp msgflg ms i best = some (k, m)) :
    (best = some (k, m) ∧ ∀ m' ∈ ms, msg_matches m' msgtyp msgflg = true → m.mtype ≤ m'.mtype) ∨
      ∃ j, k = i + j ∧ ms[j]? = some m ∧ msg_matches m msgtyp msgflg = true ∧
        (∀ b, best = some b → m.mtype < b.2.mtype) ∧
        ∀ j' m', ms[j']? = some m' → msg_matches m' msgtyp msgflg = true →
          m.mtype < m'.mtype ∨ (m.mtype = m'.mtype ∧ j ≤ j') := by
  induction ms generalizing i best with
  | nil => exact .inl ⟨hpick, fun m' hm' => nomatch hm'⟩
  | cons m₀ ms ih =>
    rw [msg_pick_loop, if_neg htyp] at hpick
    split at hpick
    next hno =>
      rcases ih hpick with ⟨hbest, hall⟩ | ⟨j, rfl, hj, hmatch, hbetter, hleast⟩
      · refine .inl ⟨hbest, fun m' hm' hmatch' => ?_⟩
        rcases mem_cons.1 hm' with rfl | hm'
        · exact absurd hmatch' hno
        · exact hall m' hm' hmatch'
      · exact .inr ⟨j + 1, by omega, hj, hmatch, hbetter, least_cons hleast fun hm => absurd hm hno⟩
    rename_i hyes
    rw [not_not] at hyes
    split at hpick
    next hnew =>
      rcases ih hpick with ⟨hbest, hall⟩ | ⟨j, rfl, hj, hmatch, hbetter, hleast⟩
      · -- the message at the head is the one
        cases hbest
        refine .inr ⟨0, rfl, rfl, hyes, fun b hb => ?_, fun j' m' hj' hm' => ?_⟩
        · subst hb
          exact of_decide_eq_true hnew
        cases j' with
        | zero =>
          cases hj'
          exact .inr ⟨rfl, le_rfl⟩
        | succ j' =>
          exact (hall m' (mem_of_getElem? hj') hm').lt_or_eq.imp_right fun h => ⟨h, Nat.zero_le _⟩
      have hlow := hbetter _ rfl
      refine .inr ⟨j + 1, by omega, hj, hmatch, fun b hb => ?_, least_cons hleast fun _ => hlow⟩
      subst hb
      exact hlow.trans (of_decide_eq_true hnew)
    rename_i hold
    rcases ih hpick with ⟨hbest, hall⟩ | ⟨j, rfl, hj, hmatch, hbetter, hleast⟩
    · refine .inl ⟨hbest, fun m' hm' hmatch' => ?_⟩
      rcases mem_cons.1 hm' with rfl | hm'
      · subst hbest
        exact not_lt.1 fun hlt => hold (decide_eq_true hlt)
      · exact hall m' hm' hmatch'
    refine .inr ⟨j + 1, by omega, hj, hmatch, hbetter, least_cons hleast fun _ => ?_⟩
    cases best with
    | none => exact absurd rfl hold
    | some b =>
      have hle : b.2.mtype ≤ m₀.mtype := not_lt.1 fun hlt => hold (decide_eq_true hlt)
      exact (hbetter b rfl).trans_le hle

theorem msg_pick_some {q : MsgQ} (hpick : msg_pick q msgtyp msgflg = some (k, m)) :
    q.msgs[k]? = some m ∧ msg_matches m msgtyp msgflg = true ∧
      ∀ k' m', q.msgs[k']? = some m' → msg_matches m' msgtyp msgflg = true → Preferred msgtyp k m k' m' := by
  unfold msg_pick at hpick
  by_cases htyp : 0 ≤ msgtyp
  · obtain ⟨j, rfl, hj, hmatch, hleast⟩ := msg_pick_loop_first htyp hpick
    rw [Nat.zero_add]
    refine ⟨hj, hmatch, fun k' m' hk' hm' => ?_⟩
    rw [Preferred, if_pos htyp]
    exact hleast k' m' hk' hm'
  rcases msg_pick_loop_lowest htyp hpick with ⟨hbest, -⟩ | ⟨j, rfl, hj, hmatch, -, hleast⟩
  · cases hbest
  rw [Nat.zero_add]
  refine ⟨hj, hmatch, fun k' m' hk' hm' => ?_⟩
  rw [Preferred, if_neg htyp]
  exact hleast k' m' hk' hm'

end pick

section counts

variable {q : MsgQ} {h : Host} {m : GMsg} {k : Nat}

theorem msg_enqueue_ok (hok : q.Ok) (h : Host) (m : GMsg) (pid : Int) : (msg_enqueue h q m pid).Ok := by
  constructor
  · rw [msg_enqueue]
    simp only [map_append, sum_append, map_cons, map_nil, sum_cons, sum_nil, hok.cbytes,
      Nat.add_zero]
  · rw [msg_enqueue]
    simp only [length_append, length_cons, length_nil, hok.qnum]

theorem msg_unlink_ok (hok : q.Ok) (hk : q.msgs[k]? = some m) : (msg_unlink q k m).Ok := by
  constructor
  · obtain ⟨hlt, hm⟩ := List.getElem?_eq_some_iff.1 hk
    have hsum := add_sum_eraseIdx (l := q.msgs.map GMsg.size) (i := k) (by rwa [length_map])
      fun _ _ => AddCommute.all _ _
    rw [getElem_map, hm, eraseIdx_map] at hsum
    rw [msg_unlink]
    dsimp only
    rw [hok.cbytes]
    omega
  have hlt := (List.getElem?_eq_some_iff.1 hk).1
  rw [msg_unlink]
  dsimp only
  rw [hok.qnum, length_eraseIdx_of_lt hlt]

end counts

end arm64emu
