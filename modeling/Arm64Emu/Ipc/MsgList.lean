import Mathlib
import Arm64Emu.Lib.Linked
import Arm64Emu.Ipc.Delivery

open slots transition linked

namespace arm64emu

open Option

/-- The loop of `msg_pick` over the cells, from the one at `cur` on, each with the one before it. A queue of `turns`
messages needs one turn for each. -/
def msg_pick_cells (h : Heap GMsg) (msgtyp : Int) (msgflg : BitVec 32) :
    Nat → Option Nat → Option Nat → Option (Nat × Option Nat) → Option (Nat × Option Nat)
  | 0, _, _, best => best
  | turns + 1, cur, prev, best =>
    match cur.bind fun a => (h a).map fun c => (a, c) with
    | none => best
    | some (a, c) =>
      if ¬msg_matches c.val msgtyp msgflg then msg_pick_cells h msgtyp msgflg turns c.next (some a) best
      else if 0 ≤ msgtyp then some (a, prev)
      else if best.all (fun b => (h b.1).all fun cb => c.val.mtype < cb.val.mtype) then
        msg_pick_cells h msgtyp msgflg turns c.next (some a) (some (a, prev))
      else msg_pick_cells h msgtyp msgflg turns c.next (some a) best

def cell_at (as : List Nat) (k : Nat) : Option (Nat × Option Nat) := as[k]?.map fun a => (a, prev_of as k)

section cells

variable {h : Heap GMsg} {l : Ends} {pre as : List Nat} {ms : List GMsg} {p : Option Nat} {turns : Nat} {msgtyp : Int}
  {msgflg : BitVec 32} {best : Option (Nat × GMsg)}

theorem cell_at_end (pre as : List Nat) (a : Nat) : cell_at (pre ++ a :: as) pre.length = some (a, pre.getLast?) := by
  have hprev : prev_of (pre ++ a :: as) pre.length = pre.getLast? := by
    rcases List.eq_nil_or_concat pre with rfl | ⟨pre, b, rfl⟩
    · rfl
    · rw [List.concat_eq_append, List.getLast?_concat]
      simp [prev_of]
  rw [cell_at, hprev, List.getElem?_append_right le_rfl, Nat.sub_self]
  rfl

theorem msg_pick_cells_eq (hc : Chain h p as ms) (hturns : ms.length ≤ turns)
    (hbest : ∀ k m, best = some (k, m) → k < pre.length ∧ ∃ a n, pre[k]? = some a ∧ h a = some ⟨m, n⟩) :
    msg_pick_cells h msgtyp msgflg turns p pre.getLast? (best.bind fun b => cell_at (pre ++ as) b.1) =
      (msg_pick_loop msgtyp msgflg ms pre.length best).bind fun b => cell_at (pre ++ as) b.1 := by
  induction ms generalizing p pre as turns best with
  | nil =>
    cases as with
    | cons a as => exact hc.elim
    | nil =>
      cases hc
      cases turns <;> rfl
  | cons m ms ih =>
    cases as with
    | nil => exact hc.elim
    | cons a as =>
      obtain ⟨rfl, n, hcell, hrest⟩ := hc
      cases turns with
      | zero => cases hturns
      | succ turns =>
        have hturns' : ms.length ≤ turns := Nat.le_of_succ_le_succ hturns
        have hlist : pre ++ a :: as = (pre ++ [a]) ++ as := by simp
        have hlast : (pre ++ [a]).getLast? = some a := List.getLast?_concat
        have hlen : (pre ++ [a]).length = pre.length + 1 := by simp
        have hold : ∀ k m', best = some (k, m') →
            k < (pre ++ [a]).length ∧ ∃ a' n', (pre ++ [a])[k]? = some a' ∧ h a' = some ⟨m', n'⟩ := by
          intro k m' hb
          obtain ⟨hk, a', n', ha', hcell'⟩ := hbest k m' hb
          exact ⟨by omega, a', n', by rw [List.getElem?_append_left hk, ha'], hcell'⟩
        have hhere := cell_at_end pre as a
        have hnew : ∀ k m', some (pre.length, m) = some (k, m') →
            k < (pre ++ [a]).length ∧ ∃ a' n', (pre ++ [a])[k]? = some a' ∧ h a' = some ⟨m', n'⟩ := by
          intro k m' hb
          cases hb
          exact ⟨by omega, a, n, by simp, hcell⟩
        have hskip := ih hrest hturns' hold
        have htake := ih hrest hturns' hnew
        rw [hlast, hlen, ← hlist] at hskip htake
        rw [bind_some, hhere] at htake
        -- the best so far is the same message
        have hall : ((best.bind fun b => cell_at (pre ++ a :: as) b.1).all fun b =>
            (h b.1).all fun cb => decide (m.mtype < cb.val.mtype)) =
              best.all fun b => decide (m.mtype < b.2.mtype) := by
          cases best with
          | none => rfl
          | some b =>
            obtain ⟨hk, a', n', ha', hcell'⟩ := hbest b.1 b.2 rfl
            rw [bind_some, cell_at, List.getElem?_append_left hk, ha', map_some, all_some, hcell',
              all_some, all_some]
        rw [msg_pick_cells, msg_pick_loop]
        simp only [bind_some, hcell, map_some, hall]
        split
        · exact hskip
        split
        · rw [bind_some, hhere]
        split
        · exact htake
        · exact hskip

/-- What the cells of a queue do is what its list does: a message enqueued is linked
behind the last cell, and the one picked is unlinked from its place. -/
def CellsRefine (q : MsgQ) : Prop := ∀ (cells : Heap GMsg) (l : Ends) (as : List Nat), Holds cells l as q.msgs →
  (∀ (h : Host) (m : GMsg) (pid : Int) (a : Nat), a ∉ as →
    Holds (push cells l a m).1 (push cells l a m).2 (as ++ [a]) (msg_enqueue h q m pid).msgs) ∧
  ∀ (msgtyp : Int) (msgflg : BitVec 32) (turns : Nat), q.msgs.length ≤ turns →
    (msg_pick_cells cells msgtyp msgflg turns l.head none none =
      (msg_pick q msgtyp msgflg).bind fun b => cell_at as b.1) ∧
    ∀ k m, msg_pick q msgtyp msgflg = some (k, m) → ∃ a n, cell_at as k = some (a, prev_of as k) ∧
      cells a = some ⟨m, n⟩ ∧
      Holds (unlink cells l a (prev_of as k)).1 (unlink cells l a (prev_of as k)).2 (as.eraseIdx k)
        (msg_unlink q k m).msgs

theorem cells_refine (q : MsgQ) : CellsRefine q := by
  intro cells l as hl
  refine ⟨fun h m pid a ha => hl.push ha m, fun msgtyp msgflg turns hturns => ⟨?_, fun k m hpick => ?_⟩⟩
  · have hnone : ∀ k m, (none : Option (Nat × GMsg)) = some (k, m) →
        k < ([] : List Nat).length ∧ ∃ a n, ([] : List Nat)[k]? = some a ∧ cells a = some ⟨m, n⟩ := by
      intro k m hb
      cases hb
    exact msg_pick_cells_eq hl.chain hturns hnone
  · obtain ⟨a, n, ha, hcell⟩ := hl.chain.cell (msg_pick_some hpick).1
    exact ⟨a, n, by rw [cell_at, ha, map_some], hcell, hl.unlink ha⟩

end cells

def MayUse (b : Broker) (id : Int) (q : Caller) (req : BitVec 32) : Prop :=
  ∀ i mq, msg_find b.msg id = some (i, mq) → ipc_access mq.perm q req = true

/-- A queue serves whom it can, from a parked call and from a new request alike: a send both limits allow is
accepted, and a receive is done with the message it has to take, if that fits or may be cut. -/
structure Prompt (b : Broker) (id : Int) (sq : SpecQueue) : Prop where
  snd : ∀ m : GMsg, (sq.stored.map GMsg.size).sum + m.size ≤ sq.qbytes → sq.stored.length + 1 ≤ sq.qbytes →
    (∀ h i w, w.op = .snd m → w.id = id → (rescan_one h b i w).1.sent = (w.cfd, .of 0) :: b.sent) ∧
      ∀ h c q msgflg ns, m.size ≤ G_MSGMAX → 0 < m.mtype → MayUse b id q 2#32 →
        (ipc_serve h b c q (.msgsnd id m msgflg ns)).sent = (c, .of 0) :: b.sent
  rcv : ∀ msgtyp msgsz msgflg m n, sq.Selects msgtyp msgflg m n → m.size ≤ msgsz ∨ msg_noerror msgflg = true →
    (∀ h i w, w.op = .rcv msgtyp msgsz msgflg → w.id = id →
      (rescan_one h b i w).1.sent = (w.cfd, delivered m msgsz) :: b.sent) ∧
      ∀ h c q ns, MayUse b id q 4#32 →
        (ipc_serve h b c q (.msgrcv id msgtyp msgsz msgflg ns)).sent = (c, delivered m msgsz) :: b.sent

section prompt

variable {b : Broker} {st : SpecTab} {id : Int} {sq : SpecQueue} {h : Host} {i : Nat} {w : Waiter} {r : Reply}

theorem rescan_one_done (hatt : (attempt h b w.op w.id w.pid).2 = .done r) :
    (rescan_one h b i w).1.sent = (w.cfd, r) :: b.sent := by
  obtain ⟨-, -, -, hsent, -⟩ := attempt_frame h b w.op w.id w.pid
  rcases rescan_one_cases h b i w with ⟨k, hblk, -⟩ | ⟨-, heq⟩
  · rw [hblk] at hatt
    cases hatt
  · rw [heq, hatt, waiter_free, settle, answer, ← hsent]

theorem TabMatches.prompt (ht : TabMatches b.msg st) (hsq : st id = some sq) : Prompt b id sq := by
  obtain ⟨i, mq, hfind, hok, hmatches⟩ := ht.found hsq
  constructor
  · intro m hbytes hnum
    have hdone h pid := msg_try_snd_room hok hmatches hbytes hnum h b.msg i pid
    refine ⟨fun h j w hop hid => rescan_one_done ?_, fun h c q msgflg ns hsize htype hmay => ?_⟩
    · simp only [hop, hid, attempt, hfind, hdone]
    · have hgood : ¬(G_MSGMAX < m.size ∨ m.mtype ≤ 0) := by omega
      have hd := hdone h q.pid
      rw [ipc_serve, if_neg hgood]
      simp only [hfind, hmay i mq hfind, not_true, if_false]
      cases hop : msg_try_snd h b.msg i mq m q.pid with
      | mk msg res =>
        rw [hop] at hd
        cases hd
        rfl
  · intro msgtyp msgsz msgflg m n hselects hsize
    have hdone h pid := msg_try_rcv_selected hmatches hselects hsize h b.msg i pid
    refine ⟨fun h j w hop hid => rescan_one_done ?_, fun h c q ns hmay => ?_⟩
    · simp only [hop, hid, attempt, hfind, hdone]
    · have hd := hdone h q.pid
      rw [ipc_serve]
      simp only [hfind, hmay i mq hfind, not_true, if_false]
      cases hop : msg_try_rcv h b.msg i mq msgtyp msgsz msgflg q.pid with
      | mk msg res =>
        rw [hop] at hd
        cases hd
        rfl

end prompt

/-- Over every sequence of turns a queue stores what it accepted and has not delivered, in order, with the counts of
that list; sends keep both limits, each receive takes the message it has to, none waits that could be served, and the
linked cells do what the lists do. -/
theorem msg_queues_lossless (turns : List Turn) :
    (∃ st, Steps SpecStep (fun _ => none) (broker_run turns).2 st ∧ TabMatches (broker_run turns).1.msg st ∧
        ∀ id sq, st id = some sq → Prompt (broker_run turns).1 id sq) ∧
      ((broker_run turns).2.filterMap MsgEvent.delivery).reverse.Sublist (broker_run turns).1.sent ∧
      ∀ q, CellsRefine q := by
  obtain ⟨st, hsteps, hmatches⟩ := broker_run_matches turns
  obtain ⟨new, hnew, hsub⟩ := (broker_run_recorded turns).sent
  have hsent : (broker_run turns).1.sent = new := by rw [hnew, Broker.empty, List.append_nil]
  rw [hsent]
  exact ⟨⟨st, hsteps, hmatches, fun id sq hsq => hmatches.prompt hsq⟩, hsub, cells_refine⟩

end arm64emu
