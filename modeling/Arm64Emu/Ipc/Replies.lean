import Mathlib
import Arm64Emu.Ipc.Rescan

open slots

namespace arm64emu

open List

def BReq.isCall : BReq → Bool
  | .semop .. => true
  | .msgsnd .. => true
  | .msgrcv .. => true
  | _ => false

/-- The waiter is the parked form of the call. -/
def ParkedAs : BReq → WaitOp → Prop
  | .semop _ sops _, .sem sops' _ => sops' = sops
  | .msgsnd _ m _ _, .snd m' => m' = m
  | .msgrcv _ msgtyp msgsz flg _, .rcv msgtyp' msgsz' flg' => msgtyp' = msgtyp ∧ msgsz' = msgsz ∧ flg' = flg
  | _, _ => False

/-- The data that come with a result: as many bytes as it says, and no more than a
`msgrcv` has asked for. -/
def OpFits (r : Reply) : WaitOp → Prop
  | .rcv _ msgsz _ => r.ret ≤ msgsz ∧ r.ret = r.data.length
  | _ => r.ret = 0

/-- The reply is of the kind the call expects. -/
def ReplyFits (r : Reply) : BReq → Prop
  | .msgrcv _ _ msgsz _ _ => 0 ≤ r.ret → r.ret ≤ msgsz ∧ r.ret = r.data.length
  | _ => r.ret ≤ 0

section outcomes

variable {h : Host} {b : Broker} {op : WaitOp} {id pid : Int} {rq : BReq} {r : Reply} {k : Nat}

theorem ParkedAs.set_blk (hp : ParkedAs rq op) : ParkedAs rq (op.set_blk k) := by
  cases rq <;> cases op <;> exact hp

theorem ParkedAs.fits (hp : ParkedAs rq op) (hr : OpFits r op) : ReplyFits r rq := by
  cases rq with
  | semop semid sops timeout =>
    cases op with
    | sem sops' blk => exact le_of_eq hr
    | snd m => cases hp
    | rcv msgtyp msgsz flg => cases hp
  | msgsnd msqid m flg timeout =>
    cases op with
    | sem sops blk => cases hp
    | snd m' => exact le_of_eq hr
    | rcv msgtyp msgsz flg => cases hp
  | msgrcv msqid msgtyp msgsz flg timeout =>
    cases op with
    | sem sops blk => cases hp
    | snd m => cases hp
    | rcv msgtyp' msgsz' flg' =>
      obtain ⟨-, rfl, -⟩ := hp
      exact fun _ => hr
  | _ => cases op <;> cases hp

theorem ReplyFits.of_neg (hr : r.ret < 0) (rq : BReq) : ReplyFits r rq := by
  cases rq with
  | msgrcv msqid msgtyp msgsz flg timeout => exact fun hpos => absurd hpos (not_le.2 hr)
  | _ => exact hr.le

/-- How an attempt that does not block ends: a failure with an error, a success
with a result that fits. -/
def OutcomeOk (op : WaitOp) : CallOutcome → Prop
  | .block _ => True
  | .error e => e < 0
  | .done r => 0 ≤ r.ret ∧ OpFits r op

theorem sem_scan_error {ops : List Sembuf} {i : Nat} {val adj : Nat → Int} {room : Bool} {e : Int}
    (hscan : sem_scan ops i val adj room = some (k, .error e)) : e < 0 := by
  induction ops generalizing i val adj with
  | nil => cases hscan
  | cons op ops ih =>
    rw [sem_scan] at hscan
    split at hscan
    next stop hone =>
      cases hscan
      unfold sem_scan_one at hone
      dsimp only at hone
      split at hone
      · split at hone <;> cases hone
        decide
      split at hone
      · cases hone
        decide
      split at hone
      · split at hone
        · cases hone
          decide
        · split at hone <;> cases hone
          decide
      · cases hone
    next => exact ih hscan

theorem sem_try_op_outcome {t : SemTab} {i : Nat} {s : SemSet} (hok : t.Ok) (hs : t.sem i = some s)
    (sops : List Sembuf) (blk : Nat) :
    OutcomeOk (.sem sops blk) (sem_outcome (sem_try_op h t i s sops pid).2) := by
  cases hres : (sem_try_op h t i s sops pid).2 with
  | applied => exact ⟨le_rfl, rfl⟩
  | block k => trivial
  | error e =>
    rw [sem_try_op] at hres
    split at hres
    · cases hres
      exact (by decide : -EFBIG < 0)
    have hscan := sem_try_loop_scan h sops 0 (hok.tryState hs pid)
    split at hres
    next st k stop hloop =>
      rw [hloop] at hscan
      cases stop with
      | block => cases hres
      | error e' =>
        cases hres
        exact sem_scan_error hscan.symm
    next => cases hres

theorem msg_try_snd_outcome (h : Host) (t : MsgTab) (i : Nat) (q : MsgQ) (m : GMsg) (pid : Int) :
    OutcomeOk (.snd m) (msg_try_snd h t i q m pid).2 := by
  unfold msg_try_snd
  split
  · exact ⟨le_rfl, rfl⟩
  · trivial

theorem msg_try_rcv_outcome (h : Host) (t : MsgTab) (i : Nat) (q : MsgQ) (msgtyp : Int) (msgsz : Nat)
    (msgflg : BitVec 32) (pid : Int) :
    OutcomeOk (.rcv msgtyp msgsz msgflg) (msg_try_rcv h t i q msgtyp msgsz msgflg pid).2 := by
  unfold msg_try_rcv
  split
  · trivial
  next j m hpick =>
    split
    · exact (by decide : -E2BIG < 0)
    have hlen : (m.data.take (if m.size ≤ msgsz then m.size else msgsz)).length =
        if m.size ≤ msgsz then m.size else msgsz := by
      rw [length_take]
      unfold GMsg.size
      split <;> omega
    refine ⟨Int.natCast_nonneg _, ?_, ?_⟩
    · dsimp only
      split <;> omega
    · dsimp only
      rw [hlen]

theorem attempt_outcome (hok : b.tab.Ok) (h : Host) (op : WaitOp) (id pid : Int) :
    OutcomeOk op (attempt h b op id pid).2 := by
  cases op with
  | sem sops blk =>
    unfold attempt
    dsimp only
    split
    · exact (by decide : -EIDRM < 0)
    next i s hfind => exact sem_try_op_outcome hok (sem_find_some hfind).1 sops blk
  | snd m =>
    unfold attempt
    dsimp only
    split
    · exact (by decide : -EIDRM < 0)
    · exact msg_try_snd_outcome ..
  | rcv msgtyp msgsz msgflg =>
    unfold attempt
    dsimp only
    split
    · exact (by decide : -EIDRM < 0)
    · exact msg_try_rcv_outcome ..

end outcomes

/-- What the books are kept against: connections accepted, their requests, connections closed without a reply, replies
sent. -/
structure Books where
  acc : Nat → Prop
  req : Nat → Option BReq
  shut : Nat → Prop
  base : List (Nat × Reply)

/-- The books of the broker: a parked connection has had no reply and no effect, a connection has one reply at most,
and a call is told success exactly if it has taken effect. -/
structure BooksKept (bk : Books) (b : Broker) : Prop where
  parked : ∀ i w, b.wait i = some w → bk.acc w.cfd ∧ ∃ rq, bk.req w.cfd = some rq ∧ ParkedAs rq w.op
  owner : ∀ i j w v, b.wait i = some w → b.wait j = some v → w.cfd = v.cfd → i = j
  unsent : ∀ i w, b.wait i = some w → w.cfd ∉ b.took ∧ w.cfd ∉ b.sent.map Prod.fst
  sent : ∀ c r, (c, r) ∈ b.sent → bk.acc c ∧
    ∀ rq, bk.req c = some rq → rq.isCall = true → ReplyFits r rq ∧ (0 ≤ r.ret ↔ c ∈ b.took)
  once : (b.sent.map Prod.fst).Nodup
  took : ∀ c, c ∈ b.took → c ∈ b.sent.map Prod.fst
  took_once : b.took.Nodup
  shut : ∀ c, bk.shut c → c ∉ b.sent.map Prod.fst ∧ ∀ i w, b.wait i = some w → w.cfd ≠ c
  base : ∀ p ∈ bk.base, p ∈ b.sent

/-- An accepted connection that is not parked and has had no reply. -/
structure OpenConn (bk : Books) (b : Broker) (c : Nat) : Prop where
  acc : bk.acc c
  live : ¬bk.shut c
  unparked : ∀ i w, b.wait i = some w → w.cfd ≠ c
  unsent : c ∉ b.took ∧ c ∉ b.sent.map Prod.fst

section ledger

variable {bk : Books} {b b' : Broker} {c i : Nat} {w : Waiter} {r : Reply}

theorem BooksKept.congr (hl : BooksKept bk b)
    (hwait : ∀ i w', b'.wait i = some w' → ∃ w, b.wait i = some w ∧ SameCall w w')
    (hsent : b'.sent = b.sent) (htook : b'.took = b.took) : BooksKept bk b' := by
  have hcfd : ∀ i w', b'.wait i = some w' → ∃ w, b.wait i = some w ∧ w'.cfd = w.cfd := by
    intro i w' hw'
    obtain ⟨w, hw, rfl | ⟨blk, rfl⟩⟩ := hwait i w' hw'
    · exact ⟨_, hw, rfl⟩
    · exact ⟨w, hw, rfl⟩
  refine ⟨fun i w' hw' => ?_, fun i j w' v' hw' hv' heq => ?_, fun i w' hw' => ?_, ?_, ?_, ?_, ?_,
    fun c hc => ⟨?_, fun i w' hw' => ?_⟩, ?_⟩
  · obtain ⟨w, hw, rfl | ⟨blk, rfl⟩⟩ := hwait i w' hw'
    · exact hl.parked i _ hw
    · obtain ⟨hacc, rq, hrq, hp⟩ := hl.parked i w hw
      exact ⟨hacc, rq, hrq, hp.set_blk⟩
  · obtain ⟨w, hw, hwc⟩ := hcfd i w' hw'
    obtain ⟨v, hv, hvc⟩ := hcfd j v' hv'
    exact hl.owner i j w v hw hv (by rw [← hwc, ← hvc, heq])
  · obtain ⟨w, hw, hwc⟩ := hcfd i w' hw'
    rw [hwc, hsent, htook]
    exact hl.unsent i w hw
  · rw [hsent, htook]
    exact hl.sent
  · rw [hsent]
    exact hl.once
  · rw [hsent, htook]
    exact hl.took
  · rw [htook]
    exact hl.took_once
  · rw [hsent]
    exact (hl.shut c hc).1
  · obtain ⟨w, hw, hwc⟩ := hcfd i w' hw'
    rw [hwc]
    exact (hl.shut c hc).2 i w hw
  · rw [hsent]
    exact hl.base

theorem BooksKept.free (hl : BooksKept bk b) (i : Nat) : BooksKept bk (waiter_free b i) := by
  exact hl.congr (fun j w hw => ⟨w, (update_none_some hw).2, .inl rfl⟩) rfl rfl

theorem BooksKept.open (hl : BooksKept bk b) (hw : b.wait i = some w) : OpenConn bk (waiter_free b i) w.cfd := by
  refine ⟨(hl.parked i w hw).1, fun hshut => (hl.shut _ hshut).2 i w hw rfl, fun j v hv heq => ?_,
    hl.unsent i w hw⟩
  obtain ⟨hji, hjv⟩ := update_none_some hv
  exact hji (hl.owner j i v w hjv hw heq)

theorem BooksKept.answer (hl : BooksKept bk b) (ho : OpenConn bk b c)
    (hr : ∀ rq, bk.req c = some rq → rq.isCall = true → r.ret < 0) : BooksKept bk (answer b c r) := by
  refine ⟨hl.parked, hl.owner, fun i w hw => ?_, fun c' r' hmem => ?_, ?_, fun c' hc' => ?_, hl.took_once,
    fun c' hc' => ⟨fun hmem => ?_, (hl.shut c' hc').2⟩, fun p hp => .tail _ (hl.base p hp)⟩
  · refine ⟨(hl.unsent i w hw).1, fun hmem => ?_⟩
    rcases mem_cons.1 hmem with heq | hmem
    · exact ho.unparked i w hw heq
    · exact (hl.unsent i w hw).2 hmem
  · rcases mem_cons.1 hmem with heq | hmem
    · cases heq
      refine ⟨ho.acc, fun rq hrq hcall => ?_⟩
      have hneg := hr rq hrq hcall
      exact ⟨.of_neg hneg rq, fun hpos => absurd hpos (not_le.2 hneg), fun htook => absurd htook ho.unsent.1⟩
    · exact hl.sent c' r' hmem
  · exact nodup_cons.2 ⟨ho.unsent.2, hl.once⟩
  · exact .tail _ (hl.took c' hc')
  rcases mem_cons.1 hmem with rfl | hmem
  · exact ho.live hc'
  · exact (hl.shut c' hc').1 hmem

theorem BooksKept.grant (hl : BooksKept bk b) (ho : OpenConn bk b c) (hr : 0 ≤ r.ret)
    (hfits : ∀ rq, bk.req c = some rq → ReplyFits r rq) :
    BooksKept bk (arm64emu.answer { b with took := c :: b.took } c r) := by
  refine ⟨hl.parked, hl.owner, fun i w hw => ⟨fun hmem => ?_, fun hmem => ?_⟩, fun c' r' hmem => ?_, ?_,
    fun c' hc' => ?_, nodup_cons.2 ⟨ho.unsent.1, hl.took_once⟩,
    fun c' hc' => ⟨fun hmem => ?_, (hl.shut c' hc').2⟩, fun p hp => .tail _ (hl.base p hp)⟩
  · rcases mem_cons.1 hmem with heq | hmem
    · exact ho.unparked i w hw heq
    · exact (hl.unsent i w hw).1 hmem
  · rcases mem_cons.1 hmem with heq | hmem
    · exact ho.unparked i w hw heq
    · exact (hl.unsent i w hw).2 hmem
  · rcases mem_cons.1 hmem with heq | hmem
    · cases heq
      exact ⟨ho.acc, fun rq hrq _ => ⟨hfits rq hrq, fun _ => .head _, fun _ => hr⟩⟩
    obtain ⟨hacc, hcall⟩ := hl.sent c' r' hmem
    refine ⟨hacc, fun rq hrq hc => ⟨(hcall rq hrq hc).1, ?_⟩⟩
    have hne : c' ≠ c := by
      rintro rfl
      exact ho.unsent.2 (mem_map.2 ⟨(c', r'), hmem, rfl⟩)
    rw [(hcall rq hrq hc).2]
    exact ⟨mem_cons_of_mem c, fun hmem => (mem_cons.1 hmem).resolve_left hne⟩
  · exact nodup_cons.2 ⟨ho.unsent.2, hl.once⟩
  · rcases mem_cons.1 hc' with rfl | hc'
    · exact .head _
    · exact .tail _ (hl.took c' hc')
  rcases mem_cons.1 hmem with rfl | hmem
  · exact ho.live hc'
  · exact (hl.shut c' hc').1 hmem

theorem BooksKept.settle (hl : BooksKept bk b) (ho : OpenConn bk b c) {op : WaitOp} {res : CallOutcome}
    (hparked : ∀ rq, bk.req c = some rq → ParkedAs rq op) (hres : OutcomeOk op res) :
    BooksKept bk (settle b c res) := by
  cases res with
  | block k => exact hl
  | error e => exact hl.answer ho fun _ _ _ => hres
  | done r => exact hl.grant ho hres.1 fun rq hrq => (hparked rq hrq).fits hres.2

end ledger

/-- The invariant of the daemon's tables and books. -/
structure Broker.Ok (bk : Books) (b : Broker) : Prop where
  tab : b.tab.Ok
  wait : WaitOk b
  ledger : BooksKept bk b

section broker

variable {bk : Books} {b b' : Broker} {c i : Nat} {w : Waiter} {r : Reply} {h : Host} (act : Waiter → Option WaiterEnd)

theorem Broker.Ok.with_tab (hok : b.Ok bk) {t : SemTab} (ht : t.Ok) : Broker.Ok bk { b with tab := t } :=
  ⟨ht, ⟨hok.wait.bound, hok.wait.seq, hok.wait.unique, hok.wait.pos⟩,
    hok.ledger.congr (fun _ w hw => ⟨w, hw, .inl rfl⟩) rfl rfl⟩

theorem Broker.Ok.with_msg (hok : b.Ok bk) (t : MsgTab) : Broker.Ok bk { b with msg := t } :=
  ⟨hok.tab, ⟨hok.wait.bound, hok.wait.seq, hok.wait.unique, hok.wait.pos⟩,
    hok.ledger.congr (fun _ w hw => ⟨w, hw, .inl rfl⟩) rfl rfl⟩

theorem Broker.Ok.attempt (hok : b.Ok bk) (h : Host) (op : WaitOp) (id pid : Int) :
    (attempt h b op id pid).1.Ok bk := by
  obtain ⟨hwait, hseq, hnow, hsent, htook⟩ := attempt_frame h b op id pid
  have hrows : ∀ i w, (arm64emu.attempt h b op id pid).1.wait i = some w → ∃ v, b.wait i = some v ∧ SameCall v w :=
    fun i w hw => ⟨w, hwait ▸ hw, .inl rfl⟩
  exact ⟨attempt_ok hok.tab h op id pid, hok.wait.shrinks ⟨hrows, hseq, hnow⟩, hok.ledger.congr hrows hsent htook⟩

theorem waiter_free_self (b : Broker) (i : Nat) : (waiter_free b i).wait i = none := Function.update_self ..

theorem shrinks_free (b : Broker) (i : Nat) : Shrinks b (waiter_free b i) := by
  exact ⟨fun j w hw => ⟨w, (update_none_some hw).2, .inl rfl⟩, rfl, rfl⟩

theorem settle_free (b : Broker) (i c : Nat) (res : CallOutcome) :
    waiter_free (settle b c res) i = settle (waiter_free b i) c res := by
  cases res <;> rfl

theorem WaitOk.settle (hwait : WaitOk b) (c : Nat) (res : CallOutcome) : WaitOk (settle b c res) := by
  obtain ⟨hw, hseq, hnow, -⟩ := settle_frame b c res
  exact hwait.shrinks ⟨fun i w h => ⟨w, hw ▸ h, .inl rfl⟩, hseq, hnow⟩

theorem rescan_one_kept (hok : b.Ok bk) (hw : b.wait i = some w) : (rescan_one h b i w).1.Ok bk := by
  have hatt := hok.attempt h w.op w.id w.pid
  have hwait : (attempt h b w.op w.id w.pid).1.wait i = some w := by
    rw [(attempt_frame h b w.op w.id w.pid).1, hw]
  have hout := attempt_outcome hok.tab h w.op w.id w.pid
  refine ⟨rescan_one_ok hok.tab h i w, hok.wait.shrinks (rescan_one_shrinks hw), ?_⟩
  rcases rescan_one_cases h b i w with ⟨k, -, heq⟩ | ⟨-, heq⟩
  · rw [heq]
    refine hatt.ledger.congr (fun j v hv => ?_) rfl rfl
    rcases update_some hv with ⟨rfl, hself⟩ | ⟨-, hjv⟩
    · cases hself
      exact ⟨w, hwait, .inr ⟨k, rfl⟩⟩
    · rw [← (attempt_frame h b w.op w.id w.pid).1] at hjv
      exact ⟨v, hjv, .inl rfl⟩
  rw [heq]
  dsimp only
  rw [settle_free]
  refine (hatt.ledger.free i).settle (hatt.ledger.open hwait) (fun rq hrq => ?_) hout
  obtain ⟨-, rq', hrq', hp⟩ := hatt.ledger.parked i w hwait
  rw [hrq', Option.some.injEq] at hrq
  exact hrq ▸ hp

theorem ipc_rescan_kept {h : Nat → Nat → Host} (hok : b.Ok bk) : (ipc_rescan h b).Ok bk := by
  refine ipc_rescan_induction (fun h b i w hb hw => ?_) hok
  exact rescan_one_kept hb hw

theorem ipc_rescan_shrinks {h : Nat → Nat → Host} (b : Broker) : Shrinks b (ipc_rescan h b) := by
  have hone : ∀ h b' i w, Shrinks b b' → b'.wait i = some w → Shrinks b (rescan_one h b' i w).1 :=
    fun h b' i w hb hw => hb.trans (rescan_one_shrinks hw)
  exact ipc_rescan_induction hone (.refl b)

/-- What ends waiters from outside keeps the books if it replies with errors. -/
def ActOk (act : Waiter → Option WaiterEnd) : Prop := ∀ w r, act w = some (.reply r) → r.ret < 0

theorem waiter_end_cases (b : Broker) (i : Nat) :
    (waiter_end act b i = b ∧ ∀ w, b.wait i = some w → act w = none) ∨
      (∃ w, b.wait i = some w ∧ act w = some .drop ∧ waiter_end act b i = waiter_free b i) ∨
      ∃ w r, b.wait i = some w ∧ act w = some (.reply r) ∧
        waiter_end act b i = arm64emu.answer (waiter_free b i) w.cfd r := by
  unfold waiter_end
  cases hw : b.wait i with
  | none => exact .inl ⟨rfl, fun w hw => by cases hw⟩
  | some w =>
    dsimp only
    cases hact : act w with
    | none => exact .inl ⟨rfl, fun w' hw' => by cases hw'; exact hact⟩
    | some e =>
      cases e with
      | reply r => exact .inr (.inr ⟨w, r, rfl, hact, rfl⟩)
      | drop => exact .inr (.inl ⟨w, rfl, hact, rfl⟩)

/-- What ending parked calls leaves as it was. -/
structure WaitersEnded (b b' : Broker) : Prop where
  shrinks : Shrinks b b'
  tab : b'.tab = b.tab
  msg : b'.msg = b.msg
  same : ∀ i w, b'.wait i = some w → b.wait i = some w
  took : b'.took = b.took
  sent : ∀ c ∈ b'.sent.map Prod.fst, c ∈ b.sent.map Prod.fst ∨ ∃ i w, b.wait i = some w ∧ w.cfd = c

theorem WaitersEnded.refl (b : Broker) : WaitersEnded b b :=
  ⟨.refl b, rfl, rfl, fun _ _ hw => hw, rfl, fun _ hc => .inl hc⟩

theorem WaitersEnded.trans {b'' : Broker} (h : WaitersEnded b b') (h' : WaitersEnded b' b'') : WaitersEnded b b'' := by
  refine ⟨h.shrinks.trans h'.shrinks, h'.tab.trans h.tab, h'.msg.trans h.msg,
    fun i w hw => h.same i w (h'.same i w hw), h'.took.trans h.took, fun c hc => ?_⟩
  rcases h'.sent c hc with hc | ⟨i, w, hw, hcfd⟩
  · exact h.sent c hc
  · exact .inr ⟨i, w, h.same i w hw, hcfd⟩

theorem waiter_end_ended (b : Broker) (i : Nat) : WaitersEnded b (waiter_end act b i) := by
  have hsame : ∀ j w, (waiter_free b i).wait j = some w → b.wait j = some w := fun _ _ hw => (update_none_some hw).2
  have hfree := shrinks_free b i
  rcases waiter_end_cases act b i with ⟨heq, -⟩ | ⟨w, -, -, heq⟩ | ⟨w, r, hw, -, heq⟩
  · rw [heq]
    exact .refl b
  · rw [heq]
    exact ⟨hfree, rfl, rfl, hsame, rfl, fun _ hc => .inl hc⟩
  rw [heq]
  refine ⟨⟨hfree.wait, rfl, rfl⟩, rfl, rfl, hsame, rfl, fun c hc => ?_⟩
  rcases mem_cons.1 hc with rfl | hc
  · exact .inr ⟨i, w, hw, rfl⟩
  · exact .inl hc

theorem waiter_end_kept {act : Waiter → Option WaiterEnd} (hact : ActOk act) (hok : b.Ok bk) (i : Nat) :
    (waiter_end act b i).Ok bk := by
  have hended := waiter_end_ended act b i
  refine ⟨hended.tab ▸ hok.tab, hok.wait.shrinks hended.shrinks, ?_⟩
  rcases waiter_end_cases act b i with ⟨heq, -⟩ | ⟨w, -, -, heq⟩ | ⟨w, r, hw, hr, heq⟩
  · rw [heq]
    exact hok.ledger
  · rw [heq]
    exact hok.ledger.free i
  · rw [heq]
    exact (hok.ledger.free i).answer (hok.ledger.open hw) fun _ _ _ => hact w r hr

theorem waiters_end_list (l : List Nat) (b : Broker) :
    WaitersEnded b (l.foldl (waiter_end act) b) ∧
      ∀ i ∈ l, ∀ w, (l.foldl (waiter_end act) b).wait i = some w → act w = none := by
  induction l generalizing b with
  | nil => exact ⟨.refl b, fun i hi => nomatch hi⟩
  | cons j l ih =>
    rw [foldl_cons]
    obtain ⟨hended, hgone⟩ := ih (waiter_end act b j)
    refine ⟨(waiter_end_ended act b j).trans hended, fun i hi w hw => ?_⟩
    rcases mem_cons.1 hi with rfl | hi
    · have hw' := hended.same i w hw
      rcases waiter_end_cases act b i with ⟨heq, hnone⟩ | ⟨v, -, -, heq⟩ | ⟨v, r, -, -, heq⟩
      · rw [heq] at hw'
        exact hnone w hw'
      · rw [heq, waiter_free_self] at hw'
        cases hw'
      · rw [heq] at hw'
        cases (waiter_free_self b i).symm.trans hw'
    · exact hgone i hi w hw

theorem waiters_end_spec (b : Broker) :
    WaitersEnded b (waiters_end act b) ∧
      ∀ i < IPC_WAITER_MAX, ∀ w, (waiters_end act b).wait i = some w → act w = none := by
  obtain ⟨hended, hgone⟩ := waiters_end_list act (List.range IPC_WAITER_MAX) b
  rw [waiters_end]
  exact ⟨hended, fun i hi => hgone i (mem_range.2 hi)⟩

theorem OpenConn.ended (ho : OpenConn bk b c) (hended : WaitersEnded b b') : OpenConn bk b' c := by
  refine ⟨ho.acc, ho.live, fun i w hw => ho.unparked i w (hended.same i w hw), hended.took ▸ ho.unsent.1, fun hc => ?_⟩
  rcases hended.sent c hc with hc | ⟨i, w, hw, hcfd⟩
  · exact ho.unsent.2 hc
  · exact ho.unparked i w hw hcfd

theorem waiters_end_kept {act : Waiter → Option WaiterEnd} (hact : ActOk act) (hok : b.Ok bk) :
    (waiters_end act b).Ok bk := by
  unfold waiters_end
  induction List.range IPC_WAITER_MAX generalizing b with
  | nil => exact hok
  | cons i l ih =>
    rw [foldl_cons]
    exact ih (waiter_end_kept hact hok i)

end broker

end arm64emu
