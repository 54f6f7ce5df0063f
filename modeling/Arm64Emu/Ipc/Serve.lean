import Mathlib
import Arm64Emu.Ipc.Replies

open slots

namespace arm64emu

/-- The broker's state in order, with a connection to be replied to. -/
structure Serving (bk : Books) (c : Nat) (b : Broker) : Prop where
  ok : b.Ok bk
  conn : OpenConn bk b c

section serve

variable {bk : Books} {b : Broker} {c : Nat} {h : Host} {rq : BReq} {r : Reply}

theorem Serving.with_tab (hs : Serving bk c b) {t : SemTab} (ht : t.Ok) : Serving bk c { b with tab := t } :=
  ⟨hs.ok.with_tab ht, hs.conn.acc, hs.conn.live, hs.conn.unparked, hs.conn.unsent⟩

theorem Serving.with_msg (hs : Serving bk c b) (t : MsgTab) : Serving bk c { b with msg := t } :=
  ⟨hs.ok.with_msg t, hs.conn.acc, hs.conn.live, hs.conn.unparked, hs.conn.unsent⟩

theorem Serving.waiters_end (hs : Serving bk c b) {act : Waiter → Option WaiterEnd} (hact : ActOk act) :
    Serving bk c (waiters_end act b) :=
  ⟨waiters_end_kept hact hs.ok, hs.conn.ended (waiters_end_spec act b).1⟩

theorem WaitOk.answer (hwait : WaitOk b) (c : Nat) (r : Reply) : WaitOk (answer b c r) :=
  { hwait with }

theorem Serving.answer (hs : Serving bk c b) (hr : ∀ rq, bk.req c = some rq → rq.isCall = true → r.ret < 0) :
    (answer b c r).Ok bk :=
  ⟨hs.ok.tab, hs.ok.wait.answer c r, hs.ok.ledger.answer hs.conn hr⟩

theorem Serving.refuse (hs : Serving bk c b) {e : Int} (he : e < 0) : (arm64emu.answer b c (.of e)).Ok bk :=
  hs.answer fun _ _ _ => he

theorem Serving.reply (hs : Serving bk c b) (hreq : bk.req c = some rq) (hrq : rq.isCall = false) :
    (arm64emu.answer b c r).Ok bk := by
  refine hs.answer fun rq' hreq' hcall => ?_
  rw [hreq, Option.some.injEq] at hreq'
  rw [← hreq', hrq] at hcall
  cases hcall

theorem Serving.settle (hs : Serving bk c b) (hreq : bk.req c = some rq) {op : WaitOp} {res : CallOutcome}
    (hp : ParkedAs rq op) (hres : OutcomeOk op res) : (settle b c res).Ok bk := by
  refine ⟨?_, hs.ok.wait.settle c res, hs.ok.ledger.settle hs.conn (fun rq' hrq' => ?_) hres⟩
  · rw [(settle_frame b c res).2.2.2.1]
    exact hs.ok.tab
  · rw [hreq, Option.some.injEq] at hrq'
    exact hrq' ▸ hp

theorem WaitOk.park {i : Nat} {w : Waiter} (hwait : WaitOk b) (hi : i < IPC_WAITER_MAX) (hseq : w.seq = b.wait_seq) :
    WaitOk { b with wait := Function.update b.wait i (some w), wait_seq := b.wait_seq + 1 } := by
  have hpos := hwait.pos
  refine ⟨forall_update_some hi hwait.bound, forall_update_some ?_ fun j v hjv => ?_,
    update_some_unique (R := fun v u : Waiter => v.seq = u.seq) (fun _ _ => Eq.symm) hwait.unique fun j v hjv heq => ?_,
    Nat.succ_pos _⟩
  · dsimp only
    omega
  · have hlt := hwait.seq j v hjv
    dsimp only
    omega
  · have hlt := hwait.seq j v hjv
    omega

theorem BooksKept.park {i : Nat} {w : Waiter} (hl : BooksKept bk b) (ho : OpenConn bk b c) (hcfd : w.cfd = c)
    (hreq : bk.req c = some rq) (hp : ParkedAs rq w.op) :
    BooksKept bk { b with wait := Function.update b.wait i (some w), wait_seq := b.wait_seq + 1 } := by
  refine ⟨forall_update_some ?_ hl.parked,
    update_some_unique (R := fun v u : Waiter => v.cfd = u.cfd) (fun _ _ => Eq.symm) hl.owner fun j v hjv heq => ?_,
    forall_update_some ?_ hl.unsent, hl.sent, hl.once, hl.took, hl.took_once,
    fun c' hc' => ⟨(hl.shut c' hc').1, forall_update_some ?_ (hl.shut c' hc').2⟩, hl.base⟩
  · rw [hcfd]
    exact ⟨ho.acc, rq, hreq, hp⟩
  · exact ho.unparked j v hjv (heq.trans hcfd)
  · rw [hcfd]
    exact ho.unsent
  rw [hcfd]
  rintro rfl
  exact ho.live hc'

theorem Serving.park_or (hs : Serving bk c b) (hreq : bk.req c = some rq) {op : WaitOp}
    (hp : ParkedAs rq op) {e : Int} (he : e < 0) (id pid timeout_ns : Int) :
    (park_or h b c op id pid timeout_ns e).Ok bk := by
  unfold arm64emu.park_or waiter_park
  cases hfree : free IPC_WAITER_MAX b.wait with
  | none => exact hs.refuse he
  | some i =>
    exact ⟨hs.ok.tab, hs.ok.wait.park (free_some hfree).1 rfl, hs.ok.ledger.park hs.conn rfl hreq hp⟩

theorem eidrm_act (id : Int) (sem : Bool) : ActOk fun w =>
    if w.id = id ∧ w.op.isSem = sem then some (.reply (.of (-EIDRM))) else none := by
  intro w r hact
  dsimp only at hact
  split at hact
  · cases hact
    exact (by decide : -EIDRM < 0)
  · cases hact

/-- A control request changes nothing, or one set, or ends the waits on a set and
frees it. -/
theorem sem_do_ctl_cases (h : Host) (b : Broker) (q : Caller) (id semnum : Int) (cmd : SemCmd) :
    (sem_do_ctl h b q id semnum cmd).1 = b ∨
      (∃ val, (sem_do_ctl h b q id semnum cmd).1 = { b with tab := (sem_setval h b.tab q id semnum val).1 }) ∨
      ∃ i s, b.tab.sem i = some s ∧
        ((∃ s', (sem_do_ctl h b q id semnum cmd).1 =
            { b with tab := { b.tab with sem := Function.update b.tab.sem i (some s') } } ∧
              s'.semid = s.semid ∧ s'.val = s.val) ∨
          (sem_do_ctl h b q id semnum cmd).1 = { waiters_eidrm b s.semid true with
            tab := sem_free_set (waiters_eidrm b s.semid true).tab i s }) := by
  unfold sem_do_ctl
  split
  · exact .inl rfl
  · refine .inl ?_
    repeat' split
    all_goals rfl
  next val => exact .inr (.inl ⟨val, rfl⟩)
  next =>
    split
    · exact .inl rfl
    next i s hfind =>
      obtain ⟨hset, -⟩ := sem_find_some hfind
      dsimp only
      split
      case h_3 =>
        split
        · exact .inr (.inr ⟨i, s, hset, .inl ⟨_, rfl, rfl, rfl⟩⟩)
        · exact .inl rfl
      case h_4 =>
        split
        · exact .inr (.inr ⟨i, s, hset, .inr rfl⟩)
        · exact .inl rfl
      -- the other commands only read
      all_goals
        refine .inl ?_
        repeat' split
        all_goals rfl

theorem sem_do_ctl_kept (hs : Serving bk c b) (q : Caller) (id semnum : Int) (cmd : SemCmd) :
    Serving bk c (sem_do_ctl h b q id semnum cmd).1 := by
  rcases sem_do_ctl_cases h b q id semnum cmd with heq | ⟨val, heq⟩ | ⟨i, s, hset, ⟨s', heq, hid, hval⟩ | heq⟩ <;>
    rw [heq]
  · exact hs
  · exact hs.with_tab (sem_setval_ok hs.ok.tab q id semnum val)
  · exact hs.with_tab (hs.ok.tab.replace hset hid (hval ▸ hs.ok.tab.val i s hset) hs.ok.tab.undo)
  · have hended := hs.waiters_end (eidrm_act s.semid true)
    exact hended.with_tab (sem_free_set_ok hended.ok.tab i s)

theorem msg_do_ctl_kept (hs : Serving bk c b) (q : Caller) (id : Int) (cmd : MsgCmd) :
    Serving bk c (msg_do_ctl h b q id cmd).1 := by
  unfold msg_do_ctl
  split
  · exact hs
  · split
    · exact hs
    split
    · exact hs
    · split <;> exact hs
  next =>
    split
    · exact hs
    next i mq hfind =>
      split
      · split <;> exact hs
      · split
        · exact hs
        split
        · exact hs
        split
        · exact hs
        · exact hs.with_msg _
      · split
        · exact (hs.waiters_end (eidrm_act mq.msqid false)).with_msg _
        · exact hs
      · exact hs

theorem sem_serve_op_outcome {t : SemTab} (hok : t.Ok) (q : Caller) (semid : Int) (sops : List Sembuf) (blk : Nat) :
    OutcomeOk (.sem sops blk) (sem_outcome (sem_serve_op h t q semid sops).2) := by
  unfold sem_serve_op
  split
  · exact (by decide : -EINVAL < 0)
  split
  · exact (by decide : -E2BIG < 0)
  split
  · exact (by decide : -EINVAL < 0)
  next i s hfind =>
    split
    · exact (by decide : -EFBIG < 0)
    split
    · exact (by decide : -EACCES < 0)
    · exact sem_try_op_outcome hok (sem_find_some hfind).1 sops blk

theorem ipc_serve_kept (hs : Serving bk c b) (hreq : bk.req c = some rq) (q : Caller) :
    (ipc_serve h b c q rq).Ok bk := by
  cases rq with
  | semget key nsems flg => exact (hs.with_tab (sem_do_get_ok hs.ok.tab q key nsems flg)).reply hreq rfl
  | semexit =>
    dsimp only [ipc_serve, sem_exit_pid]
    exact (hs.with_tab (sem_apply_rows_ok hs.ok.tab _)).reply hreq rfl
  | semop semid sops timeout_ns =>
    have htab := sem_serve_op_ok (h := h) hs.ok.tab q semid sops
    have hout := sem_serve_op_outcome (h := h) hs.ok.tab q semid sops 0
    have hp : ∀ blk, ParkedAs (.semop semid sops timeout_ns) (.sem sops blk) := fun _ => rfl
    rw [ipc_serve]
    split
    next tab blk hop =>
      rw [hop] at htab
      exact (hs.with_tab htab).park_or hreq (hp blk) (by decide) semid q.pid timeout_ns
    rename_i tab res _ hop
    rw [hop] at htab hout
    exact (hs.with_tab htab).settle hreq (hp 0) hout
  | semctl semid semnum cmd => exact (sem_do_ctl_kept hs q semid semnum cmd).reply hreq rfl
  | setall semid vals =>
    rw [ipc_serve]
    split
    · exact hs.ok
    · exact (hs.with_tab (sem_setall_ok hs.ok.tab q semid vals)).reply hreq rfl
  | msgget key flg => exact (hs.with_msg _).reply hreq rfl
  | msgctl msqid cmd => exact (msg_do_ctl_kept hs q msqid cmd).reply hreq rfl
  | msgsnd msqid m flg timeout_ns =>
    have hp : ParkedAs (.msgsnd msqid m flg timeout_ns) (.snd m) := rfl
    rw [ipc_serve]
    split
    · exact hs.ok
    split
    · exact hs.refuse (by decide)
    next i mq hfind =>
      split
      · exact hs.refuse (by decide)
      have hout := msg_try_snd_outcome h b.msg i mq m q.pid
      split
      · split
        · exact hs.refuse (by decide)
        · exact hs.park_or hreq hp (by decide) msqid q.pid timeout_ns
      next msg res _ hop =>
        rw [hop] at hout
        exact (hs.with_msg msg).settle hreq hp hout
  | msgrcv msqid msgtyp msgsz flg timeout_ns =>
    have hp : ParkedAs (.msgrcv msqid msgtyp msgsz flg timeout_ns) (.rcv msgtyp msgsz flg) := ⟨rfl, rfl, rfl⟩
    rw [ipc_serve]
    split
    · exact hs.refuse (by decide)
    next i mq hfind =>
      split
      · exact hs.refuse (by decide)
      have hout := msg_try_rcv_outcome h b.msg i mq msgtyp msgsz flg q.pid
      split
      · split
        · exact hs.refuse (by decide)
        · exact hs.park_or hreq hp (by decide) msqid q.pid timeout_ns
      next msg res _ hop =>
        rw [hop] at hout
        exact (hs.with_msg msg).settle hreq hp hout
  | other ret => exact hs.reply hreq rfl

end serve

end arm64emu
