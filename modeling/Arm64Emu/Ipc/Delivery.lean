import Mathlib
import Arm64Emu.Ipc.Calls
import Arm64Emu.Ipc.Order

open slots transition

namespace arm64emu

open List

open Function

/-- What is on record of a queue: its limit, every message it has accepted, in order,
and the numbers of those that have been received. -/
structure SpecQueue where
  qbytes : Nat
  accepted : List GMsg
  received : List Nat

/-- The messages not yet received, in the order of acceptance, with their numbers. -/
def SpecQueue.left (q : SpecQueue) : List (GMsg × Nat) := q.accepted.zipIdx.filter fun p => p.2 ∉ q.received

def SpecQueue.stored (q : SpecQueue) : List GMsg := q.left.map Prod.fst

/-- The message a `msgrcv` has to take: of those asked for the first, and for a
negative type the first of the lowest type. -/
def SpecQueue.Selects (q : SpecQueue) (msgtyp : Int) (msgflg : BitVec 32) (m : GMsg) (n : Nat) : Prop :=
  (m, n) ∈ q.left ∧ Wanted msgtyp msgflg m ∧
    ∀ m' n', (m', n') ∈ q.left → Wanted msgtyp msgflg m' → Preferred msgtyp n m n' m'

/-- What happens to queues; a receive with the connection it is on and the reply. -/
inductive MsgEvent where
  | created (id : Int)
  | accepted (id : Int) (m : GMsg)
  | received (id : Int) (c : Nat) (msgtyp : Int) (msgsz : Nat) (msgflg : BitVec 32) (r : Reply)
  | limited (id : Int) (qbytes : Nat)
  | removed (id : Int)

abbrev SpecTab := Int → Option SpecQueue

/-- The queues by their contract. A send keeps both limits; a receive takes the message it has to, whole or cut under
`MSG_NOERROR`. -/
inductive SpecStep : SpecTab → MsgEvent → SpecTab → Prop where
  | created {t : SpecTab} {id : Int} : t id = none →
    SpecStep t (.created id) (update t id (some ⟨G_MSGMNB, [], []⟩))
  | accepted {t : SpecTab} {id : Int} {q : SpecQueue} {m : GMsg} : t id = some q →
    (q.stored.map GMsg.size).sum + m.size ≤ q.qbytes → q.stored.length + 1 ≤ q.qbytes →
    SpecStep t (.accepted id m) (update t id (some { q with accepted := q.accepted ++ [m] }))
  | received {t : SpecTab} {id : Int} {q : SpecQueue} {c : Nat} {msgtyp : Int} {msgsz : Nat} {msgflg : BitVec 32}
    {m : GMsg} {n : Nat} : t id = some q → q.Selects msgtyp msgflg m n →
    m.size ≤ msgsz ∨ msg_noerror msgflg = true →
    SpecStep t (.received id c msgtyp msgsz msgflg ⟨(min m.size msgsz : Nat), m.mtype, m.data.take msgsz⟩)
      (update t id (some { q with received := n :: q.received }))
  | limited {t : SpecTab} {id : Int} {q : SpecQueue} {qbytes : Nat} : t id = some q →
    SpecStep t (.limited id qbytes) (update t id (some { q with qbytes := qbytes }))
  | removed {t : SpecTab} {id : Int} {q : SpecQueue} : t id = some q →
    SpecStep t (.removed id) (update t id none)

/-- A queue holds the messages of the abstract one, in order. -/
structure QueueMatches (q : MsgQ) (sq : SpecQueue) : Prop where
  msgs : q.msgs = sq.stored
  qbytes : q.qbytes = sq.qbytes
  number : ∀ n ∈ sq.received, n < sq.accepted.length
  once : sq.received.Nodup

/-- Every queue of the table matches. -/
structure TabMatches (t : MsgTab) (st : SpecTab) : Prop where
  ok : t.Ok
  queue : ∀ i q, t.msq i = some q → ∃ sq, st q.msqid = some sq ∧ QueueMatches q sq
  only : ∀ id sq, st id = some sq → ∃ i q, t.msq i = some q ∧ q.msqid = id

section spec

variable {sq : SpecQueue} {q : MsgQ} {m : GMsg} {n k : Nat} {msgtyp : Int} {msgflg : BitVec 32}

theorem left_pairwise (sq : SpecQueue) : sq.left.Pairwise fun p p' => p.2 < p'.2 := by
  unfold SpecQueue.left
  refine List.Pairwise.filter _ ?_
  rw [pairwise_iff_getElem]
  intro i j hi hj hlt
  simpa using hlt

theorem mem_left : (m, n) ∈ sq.left ↔ sq.accepted[n]? = some m ∧ n ∉ sq.received := by
  unfold SpecQueue.left
  rw [mem_filter, mk_mem_zipIdx_iff_getElem?, decide_eq_true_iff]

theorem stored_accept (hnumber : ∀ n ∈ sq.received, n < sq.accepted.length) (m : GMsg) :
    SpecQueue.stored { sq with accepted := sq.accepted ++ [m] } = sq.stored ++ [m] := by
  have hnew : sq.accepted.length ∉ sq.received := fun hmem => lt_irrefl _ (hnumber _ hmem)
  unfold SpecQueue.stored SpecQueue.left
  rw [zipIdx_append, filter_append, map_append]
  simp [hnew]

theorem filter_number {l : List (GMsg × Nat)} (hl : l.Pairwise fun p p' => p.2 < p'.2) (hk : l[k]? = some (m, n)) :
    l.filter (fun p => p.2 ≠ n) = l.eraseIdx k := by
  induction l generalizing k with
  | nil => cases hk
  | cons p l ih =>
    obtain ⟨hhead, htail⟩ := pairwise_cons.1 hl
    cases k with
    | zero =>
      cases hk
      rw [filter_cons_of_neg (by simp), eraseIdx_cons_zero, filter_eq_self]
      exact fun p' hp' => decide_eq_true (hhead p' hp').ne'
    | succ k =>
      have hlt : p.2 < n := hhead (m, n) (mem_of_getElem? hk)
      rw [filter_cons_of_pos (by simp [hlt.ne]), eraseIdx_cons_succ, ih htail hk]

theorem left_receive (hk : sq.left[k]? = some (m, n)) :
    SpecQueue.left { sq with received := n :: sq.received } = sq.left.eraseIdx k := by
  rw [← filter_number (left_pairwise sq) hk, SpecQueue.left, SpecQueue.left, filter_filter]
  refine filter_congr fun p _ => ?_
  simp only [mem_cons, not_or, Bool.decide_and]

theorem QueueMatches.selects (hq : QueueMatches q sq) (hpick : msg_pick q msgtyp msgflg = some (k, m)) :
    ∃ n, sq.left[k]? = some (m, n) ∧ sq.Selects msgtyp msgflg m n := by
  obtain ⟨hk, hmatch, hbest⟩ := msg_pick_some hpick
  rw [hq.msgs, SpecQueue.stored] at hk hbest
  rw [List.getElem?_map, Option.map_eq_some_iff] at hk
  obtain ⟨⟨m₀, n⟩, hk, rfl⟩ := hk
  refine ⟨n, hk, mem_of_getElem? hk, wanted_iff.2 hmatch, fun m' n' hmem hwanted => ?_⟩
  obtain ⟨k', hk'⟩ := mem_iff_getElem?.1 hmem
  have hpref := hbest k' m' (by rw [List.getElem?_map, hk', Option.map_some]) (wanted_iff.1 hwanted)
  -- places in the list are in the order of the numbers
  have hle : k ≤ k' → n ≤ n' := by
    intro hkk'
    rcases hkk'.lt_or_eq with hlt | rfl
    · obtain ⟨hb, hkb⟩ := List.getElem?_eq_some_iff.1 hk
      obtain ⟨hb', hkb'⟩ := List.getElem?_eq_some_iff.1 hk'
      have hpair := pairwise_iff_getElem.1 (left_pairwise sq) k k' hb hb' hlt
      rw [hkb, hkb'] at hpair
      exact hpair.le
    rw [hk, Option.some.injEq] at hk'
    cases hk'
    exact le_rfl
  unfold Preferred at hpref ⊢
  split at hpref
  next htyp =>
    rw [if_pos htyp]
    exact hle hpref
  rename_i htyp
  rw [if_neg htyp]
  exact hpref.imp_right fun h => ⟨h.1, hle h.2⟩

theorem Preferred.antisymm {n' : Nat} {m' : GMsg} (h : Preferred msgtyp n m n' m') (h' : Preferred msgtyp n' m' n m) :
    n = n' := by
  unfold Preferred at h h'
  split at h
  next htyp =>
    rw [if_pos htyp] at h'
    exact le_antisymm h h'
  rename_i htyp
  rw [if_neg htyp] at h'
  omega

/-- The message a receive has to take is the one `msg_pick` finds. -/
theorem QueueMatches.picks (hq : QueueMatches q sq) (hselects : sq.Selects msgtyp msgflg m n) :
    ∃ k, msg_pick q msgtyp msgflg = some (k, m) := by
  obtain ⟨hmem, hwanted, hbest⟩ := hselects
  cases hpick : msg_pick q msgtyp msgflg with
  | none =>
    rw [msg_pick_none, hq.msgs] at hpick
    exact absurd hwanted (hpick m (mem_map_of_mem hmem))
  | some km =>
    obtain ⟨k, m'⟩ := km
    obtain ⟨n', -, hmem', hwanted', hbest'⟩ := hq.selects hpick
    obtain rfl := (hbest m' n' hmem' hwanted').antisymm (hbest' m n hmem hwanted)
    have hsame := (mem_left.1 hmem).1.symm.trans (mem_left.1 hmem').1
    rw [Option.some.injEq] at hsame
    exact ⟨k, by rw [hsame]⟩

end spec

section tables

variable {t : MsgTab} {st : SpecTab} {h : Host} {id pid : Int} {i : Nat} {q q' : MsgQ} {sq sq' : SpecQueue} {m : GMsg}

theorem TabMatches.find (ht : TabMatches t st) (hfind : msg_find t id = some (i, q)) :
    t.msq i = some q ∧ q.msqid = id ∧ ∃ sq, st id = some sq ∧ QueueMatches q sq := by
  obtain ⟨hq, rfl⟩ := msg_find_some hfind
  exact ⟨hq, rfl, ht.queue i q hq⟩

theorem MsgTab.Ok.write (hok : t.Ok) (hq : t.msq i = some q) (hid : q'.msqid = q.msqid) (hq' : q'.Ok) :
    MsgTab.Ok { t with msq := update t.msq i (some q') } := by
  have hrow : ∀ j p, update t.msq i (some q') j = some p → ∃ p₀, t.msq j = some p₀ ∧ p.msqid = p₀.msqid ∧
      p.Ok := forall_update_some ⟨q, hq, hid, hq'⟩ fun j p hp => ⟨p, hp, rfl, hok.queue j p hp⟩
  refine ⟨fun j p hp => ?_, fun j k p p' hp hp' heq => ?_, fun j p hp => ?_⟩
  · obtain ⟨-, -, -, hpok⟩ := hrow j p hp
    exact hpok
  · obtain ⟨p₀, hp₀, hid₀, -⟩ := hrow j p hp
    obtain ⟨p₁, hp₁, hid₁, -⟩ := hrow k p' hp'
    exact hok.unique j k p₀ p₁ hp₀ hp₁ (by rw [← hid₀, ← hid₁, heq])
  obtain ⟨p₀, hp₀, hid₀, -⟩ := hrow j p hp
  rw [hid₀]
  exact hok.bound j p₀ hp₀

theorem TabMatches.write (ht : TabMatches t st) (hq : t.msq i = some q) (hid : q'.msqid = q.msqid) (hok : q'.Ok)
    (hmatches : QueueMatches q' sq') :
    TabMatches { t with msq := update t.msq i (some q') } (update st q.msqid (some sq')) := by
  refine ⟨ht.ok.write hq hid hok, fun j p hp => ?_, fun id' sq hsq => ?_⟩
  · rcases update_some hp with ⟨rfl, heq⟩ | ⟨hne, hp⟩
    · cases heq
      rw [hid, update_self]
      exact ⟨sq', rfl, hmatches⟩
    have hidne : p.msqid ≠ q.msqid := fun heq => hne (ht.ok.unique j i p q hp hq heq)
    rw [update_of_ne hidne]
    exact ht.queue j p hp
  by_cases heq : id' = q.msqid
  · exact ⟨i, q', update_self .., heq ▸ hid⟩
  rw [update_of_ne heq] at hsq
  obtain ⟨j, p, hp, hpid⟩ := ht.only id' sq hsq
  have hne : j ≠ i := by
    rintro rfl
    rw [hq, Option.some.injEq] at hp
    exact heq (by rw [← hpid, hp])
  exact ⟨j, p, (update_of_ne hne ..).trans hp, hpid⟩

theorem msg_try_snd_spec (ht : TabMatches t st) (hfind : msg_find t id = some (i, q)) (h : Host) (m : GMsg)
    (pid : Int) : ((msg_try_snd h t i q m pid).1 = t ∧ ∀ r, (msg_try_snd h t i q m pid).2 ≠ .done r) ∨
      ((∃ r, (msg_try_snd h t i q m pid).2 = .done r) ∧
        ∃ st', SpecStep st (.accepted id m) st' ∧ TabMatches (msg_try_snd h t i q m pid).1 st') := by
  obtain ⟨hq, rfl, sq, hsq, hmatches⟩ := ht.find hfind
  have hok := ht.ok.queue i q hq
  unfold msg_try_snd
  split
  next hfits =>
    obtain ⟨hbytes, hnum⟩ := of_decide_eq_true hfits
    rw [hok.cbytes, hmatches.msgs, hmatches.qbytes] at hbytes
    rw [hok.qnum, hmatches.msgs, hmatches.qbytes] at hnum
    refine .inr ⟨⟨_, rfl⟩, _, .accepted hsq hbytes hnum, ?_⟩
    refine ht.write hq rfl (msg_enqueue_ok hok h m pid) ⟨?_, hmatches.qbytes, fun n hn => ?_, hmatches.once⟩
    · rw [stored_accept hmatches.number, ← hmatches.msgs]
      rfl
    · rw [length_append]
      exact Nat.lt_add_right _ (hmatches.number n hn)
  next => exact .inl ⟨rfl, fun r => CallOutcome.noConfusion⟩

theorem cut_size (m : GMsg) (msgsz : Nat) : (if m.size ≤ msgsz then m.size else msgsz) = min m.size msgsz := by
  rw [Nat.min_def]

theorem cut_data (m : GMsg) (msgsz : Nat) : m.data.take (min m.size msgsz) = m.data.take msgsz := by
  rw [Nat.min_comm, GMsg.size, ← take_eq_take_min]

theorem msg_try_rcv_spec (ht : TabMatches t st) (hfind : msg_find t id = some (i, q)) (h : Host) (msgtyp : Int)
    (msgsz : Nat) (msgflg : BitVec 32) (pid : Int) (c : Nat) :
    ((msg_try_rcv h t i q msgtyp msgsz msgflg pid).1 = t ∧
        ∀ r, (msg_try_rcv h t i q msgtyp msgsz msgflg pid).2 ≠ .done r) ∨
      ∃ r st', (msg_try_rcv h t i q msgtyp msgsz msgflg pid).2 = .done r ∧
        SpecStep st (.received id c msgtyp msgsz msgflg r) st' ∧
        TabMatches (msg_try_rcv h t i q msgtyp msgsz msgflg pid).1 st' := by
  obtain ⟨hq, rfl, sq, hsq, hmatches⟩ := ht.find hfind
  have hok := ht.ok.queue i q hq
  unfold msg_try_rcv
  split
  · exact .inl ⟨rfl, fun r => CallOutcome.noConfusion⟩
  rename_i k m hpick
  split
  · exact .inl ⟨rfl, fun r => CallOutcome.noConfusion⟩
  rename_i hfits
  obtain ⟨n, hk, hselects⟩ := hmatches.selects hpick
  obtain ⟨hmem, -⟩ := mem_left.1 (mem_of_getElem? hk)
  have hnew : n ∉ sq.received := (mem_left.1 (mem_of_getElem? hk)).2
  have hsize : m.size ≤ msgsz ∨ msg_noerror msgflg = true := by
    by_cases hle : m.size ≤ msgsz
    · exact .inl hle
    · exact .inr (by_contra fun hno => hfits ⟨not_le.1 hle, hno⟩)
  refine .inr ⟨_, update st q.msqid (some { sq with received := n :: sq.received }), rfl, ?_,
    ht.write hq rfl ?_ ?_⟩
  · rw [cut_size, cut_data]
    exact .received hsq hselects hsize
  · have hunlink := msg_unlink_ok hok (msg_pick_some hpick).1
    exact ⟨hunlink.cbytes, hunlink.qnum⟩
  refine ⟨?_, hmatches.qbytes, fun n' hn' => ?_, nodup_cons.2 ⟨hnew, hmatches.once⟩⟩
  · rw [SpecQueue.stored, left_receive hk, ← eraseIdx_map, ← SpecQueue.stored, ← hmatches.msgs]
    rfl
  rcases mem_cons.1 hn' with rfl | hn'
  · exact (List.getElem?_eq_some_iff.1 hmem).1
  · exact hmatches.number n' hn'

theorem TabMatches.found (ht : TabMatches t st) (hsq : st id = some sq) :
    ∃ i q, msg_find t id = some (i, q) ∧ q.Ok ∧ QueueMatches q sq := by
  obtain ⟨i, q, hq, rfl⟩ := ht.only id sq hsq
  obtain ⟨sq', hsq', hmatches⟩ := ht.queue i q hq
  rw [hsq, Option.some.injEq] at hsq'
  subst hsq'
  exact ⟨i, q, msg_find_of_mem ht.ok hq, ht.ok.queue i q hq, hmatches⟩

theorem msg_try_snd_room (hok : q.Ok) (hmatches : QueueMatches q sq)
    (hbytes : (sq.stored.map GMsg.size).sum + m.size ≤ sq.qbytes) (hnum : sq.stored.length + 1 ≤ sq.qbytes)
    (h : Host) (t : MsgTab) (i : Nat) (pid : Int) : (msg_try_snd h t i q m pid).2 = .done (.of 0) := by
  rw [← hmatches.msgs, ← hok.cbytes, ← hmatches.qbytes] at hbytes
  rw [← hmatches.msgs, ← hok.qnum, ← hmatches.qbytes] at hnum
  have hfits : msg_fits q m.size = true := decide_eq_true ⟨hbytes, hnum⟩
  rw [msg_try_snd, if_pos hfits]

/-- What a `msgrcv` with room for `msgsz` bytes returns of a message. -/
def delivered (m : GMsg) (msgsz : Nat) : Reply := ⟨(min m.size msgsz : Nat), m.mtype, m.data.take msgsz⟩

theorem msg_try_rcv_selected {msgtyp : Int} {msgsz n : Nat} {msgflg : BitVec 32} (hmatches : QueueMatches q sq)
    (hselects : sq.Selects msgtyp msgflg m n) (hsize : m.size ≤ msgsz ∨ msg_noerror msgflg = true)
    (h : Host) (t : MsgTab) (i : Nat) (pid : Int) :
    (msg_try_rcv h t i q msgtyp msgsz msgflg pid).2 = .done (delivered m msgsz) := by
  obtain ⟨k, hpick⟩ := hmatches.picks hselects
  have hfits : ¬(msgsz < m.size ∧ ¬msg_noerror msgflg = true) := by
    rintro ⟨hlt, hno⟩
    exact hsize.elim (not_le.2 hlt) hno
  simp only [msg_try_rcv, hpick, if_neg hfits, delivered, cut_size, cut_data]

theorem msg_alloc_id_fresh {next : Int} (halloc : msg_alloc_id t = (next, some id)) :
    0 < id ∧ msg_find t id = none := by
  unfold msg_alloc_id at halloc
  generalize MSG_QUEUE_MAX * 4 = tries at halloc
  generalize t.next_msqid = first at halloc
  induction tries generalizing first with
  | zero => cases halloc
  | succ tries ih =>
    rw [msg_alloc_id_loop] at halloc
    split at halloc
    next hfresh =>
      cases halloc
      exact hfresh
    next => exact ih _ halloc

theorem msg_find_of_nonpos (hid : id ≤ 0) (t : MsgTab) : msg_find t id = none := by
  rw [msg_find, if_pos hid]

theorem msg_do_get_cases (h : Host) (t : MsgTab) (c : Caller) (key : Int) (flg : GetFlags) :
    ((msg_do_get h t c key flg).1.msq = t.msq ∧ (msg_do_get h t c key flg).2 ≤ 0) ∨
      (∃ i q, t.msq i = some q ∧ (msg_do_get h t c key flg).2 = q.msqid ∧
        (msg_do_get h t c key flg).1.msq = update t.msq i (some { q with tpid := c.pid })) ∨
      ∃ i q, i < MSG_QUEUE_MAX ∧ t.msq i = none ∧ 0 < q.msqid ∧ msg_find t q.msqid = none ∧
        (msg_do_get h t c key flg).2 = q.msqid ∧ (msg_do_get h t c key flg).1.msq = update t.msq i (some q) ∧
        q.msgs = [] ∧ q.qbytes = G_MSGMNB ∧ q.Ok := by
  unfold msg_do_get
  dsimp only
  split
  next i q hkeyed =>
    split
    · exact .inl ⟨rfl, by dsimp only; decide⟩
    split
    · exact .inl ⟨rfl, by dsimp only; decide⟩
    obtain ⟨j, -, hmap⟩ := Option.bind_eq_some_iff.1 hkeyed
    obtain ⟨q', hq', heq⟩ := Option.map_eq_some_iff.1 hmap
    cases heq
    exact .inr (.inl ⟨i, q, hq', rfl, rfl⟩)
  split
  · exact .inl ⟨rfl, by dsimp only; decide⟩
  split
  · exact .inl ⟨rfl, by dsimp only; decide⟩
  next slot hslot =>
    obtain ⟨hlt, hfree⟩ := free_some hslot
    split
    · exact .inl ⟨rfl, by dsimp only; decide⟩
    rename_i next' id halloc
    obtain ⟨hpos, hfresh⟩ := msg_alloc_id_fresh halloc
    exact .inr (.inr ⟨slot, _, hlt, hfree, hpos, hfresh, rfl, rfl, rfl, rfl, rfl, rfl⟩)

theorem TabMatches.congr {t' : MsgTab} (ht : TabMatches t st) (hmsq : t'.msq = t.msq) : TabMatches t' st := by
  refine ⟨⟨?_, ?_, ?_⟩, ?_, ?_⟩ <;> rw [hmsq]
  · exact ht.ok.queue
  · exact ht.ok.unique
  · exact ht.ok.bound
  · exact ht.queue
  · exact ht.only

theorem TabMatches.create {t' : MsgTab} (ht : TabMatches t st) (hi : i < MSG_QUEUE_MAX) (hfree : t.msq i = none)
    (hpos : 0 < q.msqid) (hfresh : msg_find t q.msqid = none) (hok : q.Ok) (hmatches : QueueMatches q sq)
    (hmsq : t'.msq = update t.msq i (some q)) :
    st q.msqid = none ∧ TabMatches t' (update st q.msqid (some sq)) := by
  have hother : ∀ j p, t.msq j = some p → p.msqid ≠ q.msqid := by
    intro j p hp heq
    rw [← heq, msg_find_of_mem ht.ok hp] at hfresh
    cases hfresh
  refine ⟨?_, ⟨?_, ?_, ?_⟩, ?_, ?_⟩
  · cases hst : st q.msqid with
    | none => rfl
    | some sq₀ =>
      obtain ⟨j, p, hp, hpid⟩ := ht.only _ sq₀ hst
      exact absurd hpid (hother j p hp)
  all_goals rw [hmsq]
  · exact forall_update_some hok ht.ok.queue
  · exact update_some_unique (R := fun p p' : MsgQ => p.msqid = p'.msqid) (fun _ _ => Eq.symm) ht.ok.unique hother
  · exact forall_update_some ⟨hi, hpos⟩ ht.ok.bound
  · refine forall_update_some ⟨sq, update_self .., hmatches⟩ fun j p hp => ?_
    rw [update_of_ne (hother j p hp)]
    exact ht.queue j p hp
  intro id' sq₀ hsq
  by_cases heq : id' = q.msqid
  · exact ⟨i, q, update_self .., heq.symm⟩
  rw [update_of_ne heq] at hsq
  obtain ⟨j, p, hp, hpid⟩ := ht.only id' sq₀ hsq
  exact ⟨j, p, (update_of_ne (ne_of_free hfree hp) ..).trans hp, hpid⟩

theorem TabMatches.remove (ht : TabMatches t st) (hq : t.msq i = some q) :
    TabMatches { t with msq := update t.msq i none } (update st q.msqid none) := by
  have hrow : ∀ j p, update t.msq i none j = some p → j ≠ i ∧ t.msq j = some p := fun _ _ => update_none_some
  refine ⟨⟨?_, ?_, ?_⟩, ?_, ?_⟩
  · exact fun j p hp => ht.ok.queue j p (hrow j p hp).2
  · exact fun j k p p' hp hp' => ht.ok.unique j k p p' (hrow j p hp).2 (hrow k p' hp').2
  · exact fun j p hp => ht.ok.bound j p (hrow j p hp).2
  · intro j p hp
    obtain ⟨hne, hp⟩ := hrow j p hp
    have hidne : p.msqid ≠ q.msqid := fun heq => hne (ht.ok.unique j i p q hp hq heq)
    rw [update_of_ne hidne]
    exact ht.queue j p hp
  intro id' sq₀ hsq
  by_cases heq : id' = q.msqid
  · subst heq
    rw [update_self] at hsq
    cases hsq
  rw [update_of_ne heq] at hsq
  obtain ⟨j, p, hp, hpid⟩ := ht.only id' sq₀ hsq
  have hne : j ≠ i := by
    rintro rfl
    rw [hq, Option.some.injEq] at hp
    exact heq (by rw [← hpid, hp])
  exact ⟨j, p, (update_of_ne hne ..).trans hp, hpid⟩

end tables

/-- What an attempt at a parked call, or at a new one, is on record as. -/
def call_event (c : Nat) (op : WaitOp) (id : Int) : CallOutcome → List MsgEvent
  | .done r =>
    match op with
    | .sem .. => []
    | .snd m => [.accepted id m]
    | .rcv msgtyp msgsz msgflg => [.received id c msgtyp msgsz msgflg r]
  | _ => []

def PassTurn.events (t : PassTurn) : List MsgEvent :=
  call_event t.w.cfd t.w.op t.w.id (attempt t.h t.b t.w.op t.w.id t.w.pid).2

def rescan_events (h : Nat → Nat → Host) (b : Broker) : List MsgEvent :=
  (rescan_turns h b).flatten.flatMap PassTurn.events

/-- What a request does to the message queues. -/
def serve_events (h : Host) (b : Broker) (c : Nat) (q : Caller) : BReq → List MsgEvent
  | .msgget key flg =>
    let res := msg_do_get h b.msg q key flg
    if (msg_find b.msg res.2).isNone ∧ (msg_find res.1 res.2).isSome then [.created res.2] else []
  | .msgctl msqid (.ipcSet qbytes mode uid gid) =>
    if (msg_do_ctl h b q msqid (.ipcSet qbytes mode uid gid)).2 = 0 then [.limited msqid qbytes.toNat] else []
  | .msgctl msqid .rmid => if (msg_do_ctl h b q msqid .rmid).2 = 0 then [.removed msqid] else []
  | .msgsnd msqid m _ _ =>
    if G_MSGMAX < m.size ∨ m.mtype ≤ 0 then []
    else
      match msg_find b.msg msqid with
      | none => []
      | some (i, mq) =>
        if ¬ipc_access mq.perm q 2#32 then []
        else call_event c (.snd m) msqid (msg_try_snd h b.msg i mq m q.pid).2
  | .msgrcv msqid msgtyp msgsz flg _ =>
    match msg_find b.msg msqid with
    | none => []
    | some (i, mq) =>
      if ¬ipc_access mq.perm q 4#32 then []
      else call_event c (.rcv msgtyp msgsz flg) msqid (msg_try_rcv h b.msg i mq msgtyp msgsz flg q.pid).2
  | _ => []

def accept_events (h : Host) (b : Broker) : Option (Nat × Option (Caller × BReq)) → List MsgEvent
  | some (c, some (q, req)) => serve_events h b c q req
  | _ => []

def ready_events (b : Broker) : Option Ready → List MsgEvent
  | none => []
  | some rd =>
    accept_events rd.hserve (parked_events rd.parked b) rd.accept ++
      rescan_events rd.hscan (serve_accept rd.hserve (parked_events rd.parked b) rd.accept)

def reclaimed (h : Host) (b : Broker) : Broker :=
  let b := waiters_end (fun w => if h.starttime w.pid ≠ w.start then some .drop else none) b
  { b with tab := sem_reclaim h b.tab }

def reclaim_events (b : Broker) : Option (Host × (Nat → Nat → Host)) → List MsgEvent
  | none => []
  | some (h, hscan) => rescan_events hscan (reclaimed h b)

/-- What a turn of the broker is on record as, in the order it happens. -/
def turn_events (t : Turn) (b : Broker) : List MsgEvent :=
  let b₁ := waiters_expire t.now (serve_ready b t.ready)
  ready_events b t.ready ++ (reclaim_events b₁ t.tick ++ reclaim_events (reclaim_if b₁ t.tick) t.idle)

/-- The delivery a receive makes. -/
def MsgEvent.delivery : MsgEvent → Option (Nat × Reply)
  | .received _ c _ _ _ r => some (c, r)
  | _ => none

/-- The broker goes from `b` to `b'` by events the contract allows; each message
received is in a reply of its own. -/
structure Recorded (b : Broker) (evs : List MsgEvent) (b' : Broker) : Prop where
  spec : ∀ st, TabMatches b.msg st → ∃ st', Steps SpecStep st evs st' ∧ TabMatches b'.msg st'
  sent : ∃ new, b'.sent = new ++ b.sent ∧ (evs.filterMap MsgEvent.delivery).reverse.Sublist new

section record

variable {b b' b'' : Broker} {evs evs' : List MsgEvent} {c i : Nat} {op : WaitOp} {id pid : Int} {h : Host}

variable {st : SpecTab}

theorem Recorded.trans (hr : Recorded b evs b') (hr' : Recorded b' evs' b'') : Recorded b (evs ++ evs') b'' := by
  refine ⟨fun st hst => ?_, ?_⟩
  · obtain ⟨st', hsteps, hst'⟩ := hr.spec st hst
    obtain ⟨st'', hsteps', hst''⟩ := hr'.spec st' hst'
    exact ⟨st'', hsteps.append hsteps', hst''⟩
  obtain ⟨new, hnew, hsub⟩ := hr.sent
  obtain ⟨new', hnew', hsub'⟩ := hr'.sent
  refine ⟨new' ++ new, by rw [hnew', hnew, append_assoc], ?_⟩
  rw [filterMap_append, reverse_append]
  exact hsub'.append hsub

theorem Recorded.quiet (hmsg : b'.msg = b.msg) (hsent : ∃ new, b'.sent = new ++ b.sent) : Recorded b [] b' := by
  obtain ⟨new, hnew⟩ := hsent
  refine ⟨fun st hst => ⟨st, .nil st, hmsg ▸ hst⟩, new, hnew, nil_sublist new⟩

theorem Recorded.with_tab (hr : Recorded b evs b') (t : SemTab) : Recorded b evs { b' with tab := t } :=
  ⟨hr.spec, hr.sent⟩

theorem Recorded.refl (b : Broker) : Recorded b [] b := .quiet rfl ⟨[], rfl⟩

theorem Recorded.answer (hmsg : b'.msg = b.msg) (hsent : b'.sent = b.sent) (r : Reply) :
    Recorded b [] (answer b' c r) :=
  .quiet hmsg ⟨[(c, r)], by rw [arm64emu.answer, ← hsent]; rfl⟩

variable {t : MsgTab}

theorem Recorded.settle {res : CallOutcome} (hmsg : b'.msg = t) (hsent : b'.sent = b.sent)
    (hspec : ∀ st, TabMatches b.msg st → ∃ st', Steps SpecStep st (call_event c op id res) st' ∧ TabMatches t st') :
    Recorded b (call_event c op id res) (settle b' c res) := by
  refine ⟨fun st hst => ?_, ?_⟩
  · obtain ⟨st', hsteps, hst'⟩ := hspec st hst
    refine ⟨st', hsteps, ?_⟩
    rw [(settle_frame b' c res).2.2.2.2, hmsg]
    exact hst'
  cases res with
  | block k => exact ⟨[], hsent, nil_sublist _⟩
  | error e => exact ⟨[(c, .of e)], by rw [arm64emu.settle, arm64emu.answer, hsent]; rfl, nil_sublist _⟩
  | done r =>
    refine ⟨[(c, r)], by rw [arm64emu.settle, arm64emu.answer, hsent]; rfl, ?_⟩
    cases op with
    | sem sops blk | snd m => exact nil_sublist _
    | rcv msgtyp msgsz msgflg => exact List.Sublist.refl _

theorem Recorded.settle_msg {res : CallOutcome}
    (hspec : ∀ st, TabMatches b.msg st → ∃ st', Steps SpecStep st (call_event c op id res) st' ∧ TabMatches t st') :
    Recorded b (call_event c op id res) (arm64emu.settle { b with msg := t } c res) :=
  .settle rfl rfl hspec

theorem no_event_spec {c : Nat} {op : WaitOp} {res : CallOutcome} (h : ∀ r, res ≠ .done r) :
    Steps SpecStep st (call_event c op id res) st := by
  cases res with
  | done r => exact absurd rfl (h r)
  | block k | error e => exact .nil st

theorem snd_event_spec {q : MsgQ} (ht : TabMatches t st)
    (hfind : msg_find t id = some (i, q)) (h : Host) (m : GMsg) (pid : Int) (c : Nat) :
    ∃ st', Steps SpecStep st (call_event c (.snd m) id (msg_try_snd h t i q m pid).2) st' ∧
      TabMatches (msg_try_snd h t i q m pid).1 st' := by
  rcases msg_try_snd_spec ht hfind h m pid with ⟨hsame, hno⟩ | ⟨⟨r, hr⟩, st', hstep, hst'⟩
  · exact ⟨st, no_event_spec hno, by rw [hsame]; exact ht⟩
  · rw [hr]
    exact ⟨st', .single hstep, hst'⟩

theorem rcv_event_spec {q : MsgQ} (ht : TabMatches t st)
    (hfind : msg_find t id = some (i, q)) (h : Host) (msgtyp : Int) (msgsz : Nat) (msgflg : BitVec 32) (pid : Int)
    (c : Nat) : ∃ st', Steps SpecStep st (call_event c (.rcv msgtyp msgsz msgflg) id
        (msg_try_rcv h t i q msgtyp msgsz msgflg pid).2) st' ∧
      TabMatches (msg_try_rcv h t i q msgtyp msgsz msgflg pid).1 st' := by
  rcases msg_try_rcv_spec ht hfind h msgtyp msgsz msgflg pid c with ⟨hsame, hno⟩ | ⟨r, st', hr, hstep, hst'⟩
  · exact ⟨st, no_event_spec hno, by rw [hsame]; exact ht⟩
  · rw [hr]
    exact ⟨st', .single hstep, hst'⟩

theorem attempt_spec (ht : TabMatches b.msg st) (h : Host) (c : Nat) (op : WaitOp) (id pid : Int) :
    ∃ st', Steps SpecStep st (call_event c op id (attempt h b op id pid).2) st' ∧
      TabMatches (attempt h b op id pid).1.msg st' := by
  cases op with
  | sem sops blk =>
    refine ⟨st, ?_, ?_⟩
    · cases (attempt h b (.sem sops blk) id pid).2 <;> exact .nil st
    · rw [attempt]
      split <;> exact ht
  | snd m =>
    rw [attempt]
    split
    · exact ⟨st, .nil st, ht⟩
    next i q hfind => exact snd_event_spec ht hfind h m pid c
  | rcv msgtyp msgsz msgflg =>
    rw [attempt]
    split
    · exact ⟨st, .nil st, ht⟩
    next i q hfind => exact rcv_event_spec ht hfind h msgtyp msgsz msgflg pid c

theorem PassTurn.recorded (t : PassTurn) : Recorded t.b t.events t.after := by
  have hspec : ∀ st, TabMatches t.b.msg st → ∃ st', Steps SpecStep st t.events st' ∧
      TabMatches (attempt t.h t.b t.w.op t.w.id t.w.pid).1.msg st' :=
    fun st hst => attempt_spec hst t.h t.w.cfd t.w.op t.w.id t.w.pid
  have hsent := (attempt_frame t.h t.b t.w.op t.w.id t.w.pid).2.2.2.1
  have hsettle := Recorded.settle rfl hsent hspec
  unfold PassTurn.after
  rcases rescan_one_cases t.h t.b t.i t.w with ⟨k, hblk, heq⟩ | ⟨-, heq⟩
  · rw [heq]
    refine ⟨hspec, [], hsent, ?_⟩
    rw [PassTurn.events, hblk]
    exact nil_sublist _
  · rw [heq]
    exact ⟨hsettle.spec, hsettle.sent⟩

theorem rescan_pass_recorded (h : Nat → Host) (turns : Nat) (b : Broker) (last : Nat) :
    Recorded b ((pass_turns h turns b last).flatMap PassTurn.events) (rescan_pass h turns b last).1 := by
  induction turns generalizing b last with
  | zero => exact .refl b
  | succ turns ih =>
    rw [rescan_pass, pass_turns]
    cases hnext : next_waiter b last with
    | none => exact .refl b
    | some iw =>
      obtain ⟨i, w⟩ := iw
      rw [flatMap_cons]
      exact (PassTurn.recorded ⟨b, h w.seq, i, w⟩).trans (ih _ _)

theorem ipc_rescan_recorded (h : Nat → Nat → Host) (b : Broker) : Recorded b (rescan_events h b) (ipc_rescan h b) := by
  unfold rescan_events rescan_turns ipc_rescan
  generalize IPC_WAITER_MAX + 1 = passes
  induction passes generalizing b with
  | zero => exact .refl b
  | succ passes ih =>
    have hpass := rescan_pass_recorded (h passes) IPC_WAITER_MAX b 0
    rw [rescan_loop, loop_turns, flatten_cons, flatMap_append]
    split
    · exact hpass.trans (ih _)
    · rw [flatten_nil, flatMap_nil, append_nil]
      exact hpass

theorem waiter_end_recorded (act : Waiter → Option WaiterEnd) (b : Broker) (i : Nat) :
    Recorded b [] (waiter_end act b i) := by
  rcases waiter_end_cases act b i with ⟨heq, -⟩ | ⟨w, -, -, heq⟩ | ⟨w, r, -, -, heq⟩
  · rw [heq]
    exact .refl b
  · rw [heq]
    exact .quiet rfl ⟨[], rfl⟩
  · rw [heq]
    exact .quiet rfl ⟨[(w.cfd, r)], rfl⟩

theorem waiters_end_recorded (act : Waiter → Option WaiterEnd) (b : Broker) : Recorded b [] (waiters_end act b) := by
  unfold waiters_end
  induction List.range IPC_WAITER_MAX generalizing b with
  | nil => exact .refl b
  | cons i l ih => exact (waiter_end_recorded act b i).trans (ih _)

theorem waiters_eidrm_recorded (b : Broker) (id : Int) (sem : Bool) : Recorded b [] (waiters_eidrm b id sem) := by
  rw [waiters_eidrm]
  exact waiters_end_recorded _ b

theorem park_or_recorded {op' : WaitOp} {timeout_ns e : Int} (h : Host) (b : Broker) (c : Nat) :
    Recorded b [] (park_or h b c op' id pid timeout_ns e) := by
  unfold park_or waiter_park
  cases free IPC_WAITER_MAX b.wait with
  | none => exact .answer rfl rfl _
  | some i => exact .quiet rfl ⟨[], rfl⟩

theorem sem_do_ctl_recorded (h : Host) (b : Broker) (q : Caller) (semid semnum : Int) (cmd : SemCmd) :
    Recorded b [] (sem_do_ctl h b q semid semnum cmd).1 := by
  rcases sem_do_ctl_cases h b q semid semnum cmd with heq | ⟨val, heq⟩ | ⟨i, s, -, ⟨s', heq, -⟩ | heq⟩ <;> rw [heq]
  · exact .refl b
  · exact (Recorded.refl b).with_tab _
  · exact (Recorded.refl b).with_tab _
  · exact (waiters_eidrm_recorded b s.semid true).with_tab _

theorem msgget_recorded (h : Host) (b : Broker) (c : Nat) (q : Caller) (key : Int) (flg : GetFlags) :
    Recorded b (serve_events h b c q (.msgget key flg)) (ipc_serve h b c q (.msgget key flg)) := by
  rw [serve_events, ipc_serve]
  refine ⟨fun st hst => ?_, [(c, .of (msg_do_get h b.msg q key flg).2)], rfl, ?_⟩
  · rcases msg_do_get_cases h b.msg q key flg with ⟨hmsq, hneg⟩ | ⟨i, mq, hmq, hid, hmsq⟩ |
      ⟨i, mq, hi, hfree, hpos, hfresh, hid, hmsq, hmsgs, hqbytes, hok⟩
    · rw [msg_find_of_nonpos hneg, msg_find_of_nonpos hneg]
      exact ⟨st, .nil st, hst.congr hmsq⟩
    · obtain ⟨sq, hsq, hmatches⟩ := hst.queue i mq hmq
      have hokq := hst.ok.queue i mq hmq
      rw [hid, msg_find_of_mem hst.ok hmq]
      have hrow : QueueMatches { mq with tpid := q.pid } sq :=
        { hmatches with }
      have hokrow : MsgQ.Ok { mq with tpid := q.pid } := ⟨hokq.cbytes, hokq.qnum⟩
      have hwrite := hst.write hmq (by rfl) hokrow hrow
      have hself : update st mq.msqid (some sq) = st := update_eq_self_iff.2 hsq.symm
      rw [hself] at hwrite
      exact ⟨st, .nil st, hwrite.congr hmsq⟩
    have hrow : QueueMatches mq ⟨G_MSGMNB, [], []⟩ :=
      ⟨hmsgs, hqbytes, fun n hn => absurd hn not_mem_nil, nodup_nil⟩
    obtain ⟨hnone, hcreate⟩ := hst.create hi hfree hpos hfresh hok hrow hmsq
    have hmq : (msg_do_get h b.msg q key flg).1.msq i = some mq := by rw [hmsq, update_self]
    rw [hid, hfresh, msg_find_of_mem hcreate.ok hmq]
    exact ⟨_, .single (.created hnone), hcreate⟩
  · split <;> exact nil_sublist _

theorem msgctl_set_cases (h : Host) (b : Broker) (q : Caller) (msqid qbytes : Int) (mode : BitVec 32) (uid gid : Nat) :
    ((msg_do_ctl h b q msqid (.ipcSet qbytes mode uid gid)).1 = b ∧
        (msg_do_ctl h b q msqid (.ipcSet qbytes mode uid gid)).2 ≠ 0) ∨
      ∃ i mq mq', msg_find b.msg msqid = some (i, mq) ∧ msg_do_ctl h b q msqid (.ipcSet qbytes mode uid gid) =
          ({ b with msg := { b.msg with msq := update b.msg.msq i (some mq') } }, 0) ∧
        mq'.msqid = mq.msqid ∧ mq'.msgs = mq.msgs ∧ mq'.qbytes = qbytes.toNat ∧ (mq.Ok → mq'.Ok) := by
  unfold msg_do_ctl
  dsimp only
  split
  · exact .inl ⟨rfl, by dsimp only; decide⟩
  next i mq hfind =>
    split
    · exact .inl ⟨rfl, by dsimp only; decide⟩
    split
    · exact .inl ⟨rfl, by dsimp only; decide⟩
    split
    · exact .inl ⟨rfl, by dsimp only; decide⟩
    · exact .inr ⟨i, mq, _, hfind, rfl, rfl, rfl, rfl, fun hok => ⟨hok.cbytes, hok.qnum⟩⟩

theorem msgctl_rmid_cases (h : Host) (b : Broker) (q : Caller) (msqid : Int) :
    ((msg_do_ctl h b q msqid .rmid).1 = b ∧ (msg_do_ctl h b q msqid .rmid).2 ≠ 0) ∨
      ∃ i mq b', msg_find b.msg msqid = some (i, mq) ∧ b' = waiters_eidrm b mq.msqid false ∧
        msg_do_ctl h b q msqid .rmid =
          ({ b' with msg := { b'.msg with msq := update b'.msg.msq i none } }, 0) := by
  unfold msg_do_ctl
  dsimp only
  split
  · exact .inl ⟨rfl, by dsimp only; decide⟩
  next i mq hfind =>
    split
    · exact .inr ⟨i, mq, _, hfind, rfl, rfl⟩
    · exact .inl ⟨rfl, by dsimp only; decide⟩

theorem msg_do_ctl_recorded (h : Host) (b : Broker) (c : Nat) (q : Caller) (msqid : Int) (cmd : MsgCmd) :
    Recorded b (serve_events h b c q (.msgctl msqid cmd)) (msg_do_ctl h b q msqid cmd).1 := by
  cases cmd with
  | info => exact .refl b
  | stat | ipcStat | unknown =>
    unfold msg_do_ctl
    dsimp only
    repeat' split
    all_goals exact .refl b
  | ipcSet qbytes mode uid gid =>
    rw [serve_events]
    rcases msgctl_set_cases h b q msqid qbytes mode uid gid with ⟨hsame, hne⟩ |
      ⟨i, mq, mq', hfind, heq, hid, hmsgs, hqbytes, hok⟩
    · rw [hsame, if_neg hne]
      exact .refl b
    rw [heq, if_pos rfl]
    refine ⟨fun st hst => ?_, [], rfl, nil_sublist _⟩
    obtain ⟨hmq, rfl, sq, hsq, hmatches⟩ := hst.find hfind
    exact ⟨_, .single (.limited hsq), hst.write hmq hid (hok (hst.ok.queue i mq hmq))
      ⟨hmsgs.trans hmatches.msgs, hqbytes, hmatches.number, hmatches.once⟩⟩
  | rmid =>
    rw [serve_events]
    rcases msgctl_rmid_cases h b q msqid with ⟨hsame, hne⟩ | ⟨i, mq, b', hfind, hb', heq⟩
    · rw [hsame, if_neg hne]
      exact .refl b
    have hended := waiters_eidrm_recorded b mq.msqid false
    have hmsg := (waiters_end_spec
      (fun w => if w.id = mq.msqid ∧ w.op.isSem = false then some (.reply (.of (-EIDRM))) else none) b).1.msg
    rw [← waiters_eidrm, ← hb'] at hmsg
    rw [← hb'] at hended
    obtain ⟨new, hnew, -⟩ := hended.sent
    rw [heq, if_pos rfl]
    refine ⟨fun st hst => ?_, new, hnew, nil_sublist _⟩
    obtain ⟨hmq, rfl, sq, hsq, -⟩ := hst.find hfind
    rw [hmsg]
    exact ⟨_, .single (.removed hsq), hst.remove hmq⟩

theorem Recorded.reply (hr : Recorded b evs b') (c : Nat) (r : Reply) : Recorded b evs (arm64emu.answer b' c r) := by
  have htrans := hr.trans (Recorded.answer (c := c) rfl rfl r)
  rwa [append_nil] at htrans

theorem ipc_serve_recorded (h : Host) (b : Broker) (c : Nat) (q : Caller) (rq : BReq) :
    Recorded b (serve_events h b c q rq) (ipc_serve h b c q rq) := by
  have hb := Recorded.refl b
  cases rq with
  | semget key nsems flg => exact (hb.with_tab _).reply c _
  | semexit =>
    rw [ipc_serve]
    exact (hb.with_tab _).reply c _
  | semop semid sops timeout_ns =>
    rw [ipc_serve]
    split
    next tab blk hop => exact (hb.with_tab tab).trans (park_or_recorded h _ c)
    rename_i tab res _ hop
    have htab := hb.with_tab tab
    cases res with
    | applied => exact .quiet rfl ⟨[(c, .of 0)], rfl⟩
    | block blk => exact htab
    | error e => exact htab.reply c _
  | semctl semid semnum cmd => exact (sem_do_ctl_recorded h b q semid semnum cmd).reply c _
  | setall semid vals =>
    rw [ipc_serve]
    split
    · exact hb
    · exact (hb.with_tab _).reply c _
  | msgget key flg => exact msgget_recorded h b c q key flg
  | msgctl msqid cmd => exact (msg_do_ctl_recorded h b c q msqid cmd).reply c _
  | msgsnd msqid m flg timeout_ns =>
    rw [serve_events, ipc_serve]
    split
    · exact hb
    cases hfind : msg_find b.msg msqid with
    | none => exact hb.reply c _
    | some imq =>
      obtain ⟨i, mq⟩ := imq
      have hsettle := Recorded.settle_msg fun st hst => snd_event_spec hst hfind h m q.pid c
      dsimp only
      split
      · exact hb.reply c _
      cases hop : msg_try_snd h b.msg i mq m q.pid with
      | mk msg res =>
        rw [hop] at hsettle
        cases res with
        | block blk =>
          dsimp only
          split
          · exact hb.reply c _
          · exact park_or_recorded h b c
        | error e | done r => exact hsettle
  | msgrcv msqid msgtyp msgsz flg timeout_ns =>
    rw [serve_events, ipc_serve]
    cases hfind : msg_find b.msg msqid with
    | none => exact hb.reply c _
    | some imq =>
      obtain ⟨i, mq⟩ := imq
      have hsettle := Recorded.settle_msg fun st hst => rcv_event_spec hst hfind h msgtyp msgsz flg q.pid c
      dsimp only
      split
      · exact hb.reply c _
      cases hop : msg_try_rcv h b.msg i mq msgtyp msgsz flg q.pid with
      | mk msg res =>
        rw [hop] at hsettle
        cases res with
        | block blk =>
          dsimp only
          split
          · exact hb.reply c _
          · exact park_or_recorded h b c
        | error e | done r => exact hsettle
  | other ret => exact hb.reply c _

theorem ready_recorded (b : Broker) (o : Option Ready) : Recorded b (ready_events b o) (serve_ready b o) := by
  cases o with
  | none => exact .refl b
  | some rd =>
    have hparked : Recorded b [] (parked_events rd.parked b) := by
      rw [parked_events]
      exact waiters_end_recorded _ b
    have haccept : ∀ b, Recorded b (accept_events rd.hserve b rd.accept) (serve_accept rd.hserve b rd.accept) := by
      intro b
      cases haccept : rd.accept with
      | none => exact .refl b
      | some conn =>
        obtain ⟨c, rq⟩ := conn
        cases rq with
        | none => exact .refl b
        | some qr => exact ipc_serve_recorded rd.hserve b c qr.1 qr.2
    exact hparked.trans ((haccept _).trans (ipc_rescan_recorded rd.hscan _))

theorem reclaim_recorded (b : Broker) (o : Option (Host × (Nat → Nat → Host))) :
    Recorded b (reclaim_events b o) (reclaim_if b o) := by
  cases o with
  | none => exact .refl b
  | some hh =>
    obtain ⟨h, hscan⟩ := hh
    have hended : Recorded b [] (reclaimed h b) := by
      rw [reclaimed]
      exact (waiters_end_recorded _ b).with_tab _
    rw [reclaim_events, reclaim_if, ipc_reclaim, ← reclaimed]
    exact hended.trans (ipc_rescan_recorded hscan _)

theorem broker_turn_recorded (t : Turn) (b : Broker) : Recorded b (turn_events t b) (broker_turn t b) := by
  have hexpire : ∀ b, Recorded b [] (waiters_expire t.now b) := by
    intro b
    have hnow : Recorded b [] { b with now := t.now } := .quiet rfl ⟨[], rfl⟩
    rw [waiters_expire]
    exact hnow.trans (waiters_end_recorded _ _)
  have hready := (ready_recorded b t.ready).trans (hexpire _)
  rw [append_nil] at hready
  rw [turn_events, broker_turn]
  exact hready.trans ((reclaim_recorded _ t.tick).trans (reclaim_recorded _ t.idle))

end record

/-- The broker after a number of turns, and what they are on record as. -/
def broker_run (turns : List Turn) : Broker × List MsgEvent :=
  turns.foldl (fun run t => (broker_turn t run.1, run.2 ++ turn_events t run.1)) (.empty, [])

/-- What a run did is what its log says. -/
theorem broker_run_recorded (turns : List Turn) : Recorded .empty (broker_run turns).2 (broker_run turns).1 := by
  induction turns using List.reverseRecOn with
  | nil => exact .refl _
  | append_singleton turns t ih =>
    rw [broker_run, foldl_append, foldl_cons, foldl_nil, ← broker_run]
    exact ih.trans (broker_turn_recorded t _)

/-- The queues of a run are those of the abstract store. -/
theorem broker_run_matches (turns : List Turn) :
    ∃ st, Steps SpecStep (fun _ => none) (broker_run turns).2 st ∧ TabMatches (broker_run turns).1.msg st :=
  (broker_run_recorded turns).spec _
    ⟨MsgTab.empty_ok, fun i q hq => (by cases hq), fun id sq hsq => (by cases hsq)⟩

/-- What the broker has come to in a run with its callers is what its turns alone
make of it. -/
theorem sys_run_turns {s : System} (hrun : Relation.ReflTransGen SysStep .init s) :
    ∃ turns, s.broker = (broker_run turns).1 := by
  induction hrun with
  | refl => exact ⟨[], rfl⟩
  | tail _ hstep ih =>
    obtain ⟨turns, hturns⟩ := ih
    cases hstep with
    | @turn t ht =>
      refine ⟨turns ++ [t], ?_⟩
      rw [broker_run, foldl_append, foldl_cons, foldl_nil, ← broker_run, ← hturns, System.turn]
    | call | signal | reply | closed | die => exact ⟨turns, hturns⟩

/-- In every interleaving of callers with the broker the semaphore, undo and queue tables are in range and keyed by
unique ids, the counts of a queue are those of its messages, and no two parked calls have one place in the queue. -/
theorem ipc_tables_ok {s : System} (hrun : Relation.ReflTransGen SysStep .init s) :
    s.broker.tab.Ok ∧ s.broker.msg.Ok ∧ WaitOk s.broker := by
  have hs := sys_run_ok hrun
  obtain ⟨turns, hturns⟩ := sys_run_turns hrun
  obtain ⟨st, -, hmatches⟩ := broker_run_matches turns
  exact ⟨hs.poll.ok.tab, hturns ▸ hmatches.ok, hs.poll.ok.wait⟩

def parked_broker : Broker := (after_calls parked_calls).broker

set_option maxRecDepth 100000 in
/-- Every table has something in it. -/
theorem ipc_tables_ok_parked : (parked_broker.tab.Ok ∧ parked_broker.msg.Ok ∧ WaitOk parked_broker) ∧
    ((parked_broker.tab.sem 0).isSome ∧ (parked_broker.tab.undo 0).isSome ∧ (parked_broker.msg.msq 0).isSome ∧
      (parked_broker.wait 0).isSome) := by
  refine ⟨?_, by decide +kernel⟩
  rw [parked_broker]
  exact ipc_tables_ok (after_calls_run parked_calls).1

end arm64emu
