import Mathlib
import Arm64Emu.Ipc.Serve

open slots

namespace arm64emu

open Function

/-- The broker as it goes back to `poll`: its state in order, every parked call
stuck, and no deadline past. -/
structure AtPoll (bk : Books) (b : Broker) : Prop where
  ok : b.Ok bk
  stuck : AllStuck b
  timely : ∀ i w, b.wait i = some w → w.deadline_ms < 0 ∨ b.now < w.deadline_ms

def Turn.accepted (t : Turn) : Option (Nat × Option (Caller × BReq)) := t.ready.bind Ready.accept

def Books.accept (bk : Books) (o : Option (Nat × Option (Caller × BReq))) : Books :=
  { bk with acc := fun c => bk.acc c ∨ ∃ rq, o = some (c, rq) }

/-- A connection that is accepted is a new one, with its own request. -/
def Accepts (bk : Books) (o : Option (Nat × Option (Caller × BReq))) : Prop :=
  ∀ c rq, o = some (c, rq) → ¬bk.acc c ∧ ¬bk.shut c ∧ ∀ q rq', rq = some (q, rq') → bk.req c = some rq'

section turn

variable {bk : Books} {b b' : Broker} {c : Nat} {o : Option (Nat × Option (Caller × BReq))}

theorem BooksKept.accept (hl : BooksKept bk b) (o : Option (Nat × Option (Caller × BReq))) :
    BooksKept (bk.accept o) b :=
  { hl with
    parked := fun i w hw => ⟨.inl (hl.parked i w hw).1, (hl.parked i w hw).2⟩
    sent := fun c r hmem => ⟨.inl (hl.sent c r hmem).1, (hl.sent c r hmem).2⟩ }

theorem Broker.Ok.accept (hok : b.Ok bk) (o : Option (Nat × Option (Caller × BReq))) : b.Ok (bk.accept o) :=
  { hok with ledger := hok.ledger.accept o }

theorem BooksKept.fresh (hl : BooksKept bk b) (hacc : ¬bk.acc c) (hshut : ¬bk.shut c) {rq : Option (Caller × BReq)} :
    OpenConn (bk.accept (some (c, rq))) b c := by
  have hsent : c ∉ b.sent.map Prod.fst := by
    intro hmem
    obtain ⟨⟨c', r⟩, hp, rfl⟩ := List.mem_map.1 hmem
    exact hacc (hl.sent _ r hp).1
  refine ⟨.inr ⟨rq, rfl⟩, hshut, fun i w hw heq => ?_, fun htook => hsent (hl.took c htook), hsent⟩
  exact hacc (heq ▸ (hl.parked i w hw).1)

theorem serve_accept_kept {h : Host} (hok : b.Ok bk) (ho : Accepts bk o) : (serve_accept h b o).Ok (bk.accept o) := by
  unfold serve_accept
  split
  next c q rq =>
    obtain ⟨hacc, hshut, hreq⟩ := ho c _ rfl
    exact ipc_serve_kept ⟨hok.accept _, hok.ledger.fresh hacc hshut⟩ (hreq q rq rfl) q
  next => exact hok.accept o

theorem parked_act (ev : Nat → Option ParkedEvent) : ActOk fun w => (ev w.cfd).map fun
    | .cancel => .reply (.of (-EINTR))
    | .gone => .drop := by
  intro w r hact
  obtain ⟨e, -, heq⟩ := Option.map_eq_some_iff.1 hact
  cases e with
  | cancel =>
    cases heq
    exact (by decide : -EINTR < 0)
  | gone => cases heq

theorem expire_act (now : Int) : ActOk fun w =>
    if w.deadline_ms < 0 ∨ now < w.deadline_ms then none else some (.reply (.of (-EAGAIN))) := by
  intro w r hact
  dsimp only at hact
  split at hact
  · cases hact
  · cases hact
    exact (by decide : -EAGAIN < 0)

theorem reclaim_act (h : Host) : ActOk fun w => if h.starttime w.pid ≠ w.start then some .drop else none := by
  intro w r hact
  dsimp only at hact
  split at hact <;> cases hact

theorem AllStuck.ended (hstuck : AllStuck b) (hok : b.tab.Ok) (hended : WaitersEnded b b') : AllStuck b' := by
  intro i w hw
  refine (hstuck i w (hended.same i w hw)).quiet hok ⟨hended.msg, by rw [hended.tab], ?_⟩
  rw [hended.tab]
  exact .refl hok.undo

theorem serve_ready_kept (hb : b.Ok bk) (hstuck : AllStuck b) {rd : Option Ready}
    (ho : Accepts bk (rd.bind Ready.accept)) :
    (serve_ready b rd).Ok (bk.accept (rd.bind Ready.accept)) ∧ AllStuck (serve_ready b rd) := by
  cases rd with
  | none => exact ⟨hb.accept none, hstuck⟩
  | some rd =>
    have hparked : (parked_events rd.parked b).Ok bk := waiters_end_kept (parked_act rd.parked) hb
    have hserved := serve_accept_kept (h := rd.hserve) hparked ho
    exact ⟨ipc_rescan_kept hserved, ipc_rescan_stuck hserved.tab hserved.wait⟩

theorem Shrinks.timely (hs : Shrinks b b') (ht : ∀ i w, b.wait i = some w → w.deadline_ms < 0 ∨ b.now < w.deadline_ms) :
    ∀ i w, b'.wait i = some w → w.deadline_ms < 0 ∨ b'.now < w.deadline_ms := by
  intro i w' hw'
  obtain ⟨w, hw, hsame⟩ := hs.wait i w' hw'
  have hdeadline : w'.deadline_ms = w.deadline_ms := by
    rcases hsame with rfl | ⟨blk, rfl⟩ <;> rfl
  rw [hdeadline, hs.now]
  exact ht i w hw

theorem waiters_expire_atPoll (hb : b.Ok bk) (hstuck : AllStuck b) (now : Int) :
    AtPoll bk (waiters_expire now b) := by
  have hb' : Broker.Ok bk { b with now := now } :=
    ⟨hb.tab, ⟨hb.wait.bound, hb.wait.seq, hb.wait.unique, hb.wait.pos⟩,
      hb.ledger.congr (fun _ w hw => ⟨w, hw, .inl rfl⟩) rfl rfl⟩
  have hstuck' : AllStuck { b with now := now } := fun i w hw =>
    (hstuck i w hw).quiet hb.tab ⟨rfl, rfl, .refl hb.tab.undo⟩
  have hkept := waiters_end_kept (expire_act now) hb'
  obtain ⟨hended, hgone⟩ := waiters_end_spec
    (fun w => if w.deadline_ms < 0 ∨ now < w.deadline_ms then none else some (.reply (.of (-EAGAIN))))
    { b with now := now }
  rw [waiters_expire]
  refine ⟨hkept, hstuck'.ended hb.tab hended, fun i w hw => ?_⟩
  rw [hended.shrinks.now]
  have hnone := hgone i (hkept.wait.bound i w hw) w hw
  split at hnone
  next hlive => exact hlive
  next => cases hnone

theorem rescan_atPoll {hscan : Nat → Nat → Host} (hok : b.Ok bk) {t : SemTab} (ht : t.Ok)
    (htimely : ∀ i w, b.wait i = some w → w.deadline_ms < 0 ∨ b.now < w.deadline_ms) :
    AtPoll bk (ipc_rescan hscan { b with tab := t }) := by
  have hok' := hok.with_tab ht
  exact ⟨ipc_rescan_kept hok', ipc_rescan_stuck hok'.tab hok'.wait, (ipc_rescan_shrinks _).timely htimely⟩

theorem reclaim_if_atPoll (hb : AtPoll bk b) (o : Option (Host × (Nat → Nat → Host))) : AtPoll bk (reclaim_if b o) := by
  unfold reclaim_if
  split
  · exact hb
  next h hscan =>
    have hkept := waiters_end_kept (reclaim_act h) hb.ok
    obtain ⟨hended, -⟩ :=
      waiters_end_spec (fun w => if h.starttime w.pid ≠ w.start then some .drop else none) b
    rw [ipc_reclaim, sem_reclaim]
    exact rescan_atPoll hkept (sem_apply_rows_ok hkept.tab _) (hended.shrinks.timely hb.timely)

theorem broker_turn_atPoll (hb : AtPoll bk b) {t : Turn} (ht : Accepts bk t.accepted) :
    AtPoll (bk.accept t.accepted) (broker_turn t b) := by
  obtain ⟨hok, hstuck⟩ := serve_ready_kept hb.ok hb.stuck ht
  exact reclaim_if_atPoll (reclaim_if_atPoll (waiters_expire_atPoll hok hstuck t.now) t.tick) t.idle

end turn

def Untouched (b b' : Broker) : Prop :=
  b'.tab.sem = b.tab.sem ∧ (∀ pid sid n, pid_adj b'.tab.undo pid sid n = pid_adj b.tab.undo pid sid n) ∧ b'.msg = b.msg

/-- The operation has been done: the vector applied, the message put at the end of
its queue, or the message that was picked taken out and returned. -/
def Applied (b : Broker) (id pid : Int) (b' : Broker) (r : Reply) : WaitOp → Prop
  | .sem sops _ => VectorDone b.tab pid id sops b'.tab .applied ∧ b'.msg = b.msg
  | .snd m => ∃ i q q', msg_find b.msg id = some (i, q) ∧ q'.msgs = q.msgs ++ [m] ∧
      b'.msg.msq = update b.msg.msq i (some q') ∧ b'.tab = b.tab
  | .rcv msgtyp msgsz msgflg => ∃ i q q' k m, msg_find b.msg id = some (i, q) ∧
      msg_pick q msgtyp msgflg = some (k, m) ∧ q'.msgs = q.msgs.eraseIdx k ∧
      b'.msg.msq = update b.msg.msq i (some q') ∧ b'.tab = b.tab ∧
      r.mtype = m.mtype ∧ r.data = m.data.take (if m.size ≤ msgsz then m.size else msgsz)

/-- A call handled: it takes effect and is replied to, or nothing is touched. -/
def CallStep (b : Broker) (c : Nat) (op : WaitOp) (id pid : Int) (b' : Broker) : Prop :=
  (b'.took = c :: b.took ∧ ∃ r, (c, r) ∈ b'.sent ∧ Applied b id pid b' r op) ∨
    (b'.took = b.took ∧ Untouched b b')

section effects

variable {b b₁ : Broker} {c i : Nat} {w : Waiter} {h : Host} {op : WaitOp} {id pid : Int} {res : CallOutcome}

/-- What a try leaves: the operation applied, or nothing touched. -/
def AttemptDone (b : Broker) (op : WaitOp) (id pid : Int) (b' : Broker) : CallOutcome → Prop
  | .done r => Applied b id pid b' r op
  | _ => Untouched b b'

theorem sem_outcome_done {t t' : SemTab} {sops : List Sembuf} {blk : Nat} {semid : Int} {res : TryResult}
    (hb : b.tab = t) (hb₁ : b₁.tab = t') (hmsg : b₁.msg = b.msg) (hdone : VectorDone t pid semid sops t' res) :
    AttemptDone b (.sem sops blk) semid pid b₁ (sem_outcome res) := by
  subst hb hb₁
  cases res with
  | applied => exact ⟨hdone, hmsg⟩
  | block k | error e =>
    obtain ⟨hsem, hadj⟩ := hdone.refused (by simp)
    exact ⟨hsem, hadj, hmsg⟩

theorem msg_try_snd_done {q : MsgQ} (hfind : msg_find b.msg id = some (i, q)) (m : GMsg) (pid : Int) :
    AttemptDone b (.snd m) id pid { b with msg := (msg_try_snd h b.msg i q m pid).1 }
      (msg_try_snd h b.msg i q m pid).2 := by
  unfold msg_try_snd
  split
  · exact ⟨i, q, msg_enqueue h q m pid, hfind, rfl, rfl, rfl⟩
  · exact ⟨rfl, fun _ _ _ => rfl, rfl⟩

theorem msg_try_rcv_done {q : MsgQ} (hfind : msg_find b.msg id = some (i, q)) (msgtyp : Int) (msgsz : Nat)
    (msgflg : BitVec 32) (pid : Int) :
    AttemptDone b (.rcv msgtyp msgsz msgflg) id pid
      { b with msg := (msg_try_rcv h b.msg i q msgtyp msgsz msgflg pid).1 }
      (msg_try_rcv h b.msg i q msgtyp msgsz msgflg pid).2 := by
  unfold msg_try_rcv
  split
  · exact ⟨rfl, fun _ _ _ => rfl, rfl⟩
  next k m hpick =>
    split
    · exact ⟨rfl, fun _ _ _ => rfl, rfl⟩
    · exact ⟨i, q, _, k, m, hfind, hpick, rfl, rfl, rfl, rfl, rfl⟩

theorem attempt_done (hok : b.tab.Ok) (h : Host) (op : WaitOp) (id pid : Int) :
    AttemptDone b op id pid (attempt h b op id pid).1 (attempt h b op id pid).2 := by
  cases op with
  | sem sops blk =>
    unfold attempt
    dsimp only
    split
    · exact ⟨rfl, fun _ _ _ => rfl, rfl⟩
    next i s hfind =>
      obtain ⟨hs, rfl⟩ := sem_find_some hfind
      exact sem_outcome_done rfl rfl rfl (sem_try_op_done hok hs sops pid)
  | snd m =>
    unfold attempt
    dsimp only
    split
    · exact ⟨rfl, fun _ _ _ => rfl, rfl⟩
    next i q hfind => exact msg_try_snd_done hfind m pid
  | rcv msgtyp msgsz msgflg =>
    unfold attempt
    dsimp only
    split
    · exact ⟨rfl, fun _ _ _ => rfl, rfl⟩
    next i q hfind => exact msg_try_rcv_done hfind msgtyp msgsz msgflg pid

theorem AttemptDone.settle (hdone : AttemptDone b op id pid b₁ res) (htook : b₁.took = b.took) (c : Nat) :
    CallStep b c op id pid (settle b₁ c res) := by
  cases res with
  | block k | error e => exact .inr ⟨htook, hdone⟩
  | done r =>
    refine .inl ⟨?_, r, .head _, ?_⟩
    · rw [← htook]
      rfl
    · cases op <;> exact hdone

theorem rescan_one_step (hok : b.tab.Ok) (h : Host) (i : Nat) (w : Waiter) :
    CallStep b w.cfd w.op w.id w.pid (rescan_one h b i w).1 := by
  have hdone := attempt_done hok h w.op w.id w.pid
  obtain ⟨-, -, -, -, htook⟩ := attempt_frame h b w.op w.id w.pid
  rcases rescan_one_cases h b i w with ⟨k, hblk, heq⟩ | ⟨-, heq⟩
  · rw [hblk] at hdone
    rw [heq]
    exact .inr ⟨htook, hdone⟩
  have hstep := hdone.settle htook w.cfd
  rw [heq]
  unfold CallStep Applied Untouched at hstep ⊢
  exact hstep

def BReq.objId : BReq → Int
  | .semop semid _ _ => semid
  | .msgsnd msqid _ _ _ => msqid
  | .msgrcv msqid _ _ _ _ => msqid
  | _ => 0

theorem park_or_untouched {op' : WaitOp} {id' pid' timeout_ns e : Int} (htook : b₁.took = b.took)
    (hsame : Untouched b b₁) : CallStep b c op id pid (park_or h b₁ c op' id' pid' timeout_ns e) := by
  unfold park_or waiter_park
  cases free IPC_WAITER_MAX b₁.wait with
  | none | some i => exact .inr ⟨htook, hsame⟩

theorem untouched_refl (b : Broker) : Untouched b b := ⟨rfl, fun _ _ _ => rfl, rfl⟩

theorem CallStep.refused (r : Reply) : CallStep b c op id pid (answer b c r) := .inr ⟨rfl, untouched_refl b⟩

theorem ipc_serve_step {rq : BReq} (hok : b.tab.Ok) (hp : ParkedAs rq op) (h : Host) (c : Nat) (q : Caller) :
    CallStep b c op rq.objId q.pid (ipc_serve h b c q rq) := by
  cases rq with
  | semop semid sops timeout_ns =>
    cases op with
    | sem sops' blk =>
      cases hp
      have hdone := sem_serve_op_done (h := h) hok q semid sops
      rw [ipc_serve]
      split
      next tab blk' hop =>
        rw [hop] at hdone
        obtain ⟨hsem, hadj⟩ := hdone.refused (by simp)
        exact park_or_untouched rfl ⟨hsem, hadj, rfl⟩
      rename_i tab res _ hop
      rw [hop] at hdone
      have hatt : AttemptDone b (.sem sops blk) semid q.pid { b with tab := tab } (sem_outcome res) :=
        sem_outcome_done rfl rfl rfl hdone
      exact hatt.settle rfl c
    | snd m => cases hp
    | rcv msgtyp msgsz flg => cases hp
  | msgsnd msqid m flg timeout_ns =>
    cases op with
    | sem sops blk => cases hp
    | snd m' =>
      cases hp
      rw [ipc_serve]
      split
      · exact .inr ⟨rfl, untouched_refl b⟩
      split
      · exact .refused _
      next i mq hfind =>
        split
        · exact .refused _
        have hdone := msg_try_snd_done (h := h) hfind m q.pid
        split
        · split
          · exact .refused _
          · exact park_or_untouched rfl (untouched_refl b)
        next msg res _ hop =>
          rw [hop] at hdone
          exact hdone.settle rfl c
    | rcv msgtyp msgsz flg => cases hp
  | msgrcv msqid msgtyp msgsz flg timeout_ns =>
    cases op with
    | sem sops blk => cases hp
    | snd m => cases hp
    | rcv msgtyp' msgsz' flg' =>
      obtain ⟨rfl, rfl, rfl⟩ := hp
      rw [ipc_serve]
      split
      · exact .refused _
      next i mq hfind =>
        split
        · exact .refused _
        have hdone := msg_try_rcv_done (h := h) hfind msgtyp' msgsz' flg' q.pid
        split
        · split
          · exact .refused _
          · exact park_or_untouched rfl (untouched_refl b)
        next msg res _ hop =>
          rw [hop] at hdone
          exact hdone.settle rfl c
  | _ => cases op <;> cases hp

end effects

/-- Where a caller is: it waits for its reply, has returned from the call, or is
gone. -/
inductive CallPhase where
  | waiting
  | returned (ret : Int)
  | dead
  deriving DecidableEq

/-- A caller in `ipc_wait_rpc`, with whether it has sent a cancel. -/
structure Client where
  caller : Caller
  rq : BReq
  cancelled : Bool
  phase : CallPhase

/-- The broker and its callers; `acc` are the connections it has accepted. -/
structure System where
  broker : Broker
  client : Nat → Option Client
  acc : Nat → Bool

def System.init : System := ⟨.empty, fun _ => none, fun _ => false⟩

/-- What `ipc_wait_rpc` makes of a reply: the data of a `msgrcv` are to follow, and
to fit the buffer. -/
def ipc_result (rq : BReq) (r : Reply) : Int :=
  match rq with
  | .msgrcv _ _ msgsz _ _ =>
    if 0 < r.ret ∧ ((msgsz : Int) < r.ret ∨ (r.data.length : Int) < r.ret) then -EIDRM else r.ret
  | _ => r.ret

/-- A connection the broker has closed without a reply. -/
def ClosedConn (s : System) (c : Nat) : Prop :=
  s.acc c = true ∧ c ∉ s.broker.sent.map Prod.fst ∧ ∀ i w, s.broker.wait i = some w → w.cfd ≠ c

/-- What a turn finds on its connections is what the callers have done: a cancel sent, the end of a caller no longer
waiting, the request of a connection not accepted before. -/
structure TurnFrom (s : System) (t : Turn) : Prop where
  cancel : ∀ rd c, t.ready = some rd → rd.parked c = some .cancel → ∃ cl, s.client c = some cl ∧ cl.cancelled = true
  gone : ∀ rd c, t.ready = some rd → rd.parked c = some .gone → ∃ cl, s.client c = some cl ∧ cl.phase ≠ .waiting
  accept : ∀ c rq, t.accepted = some (c, rq) → s.acc c = false ∧
    ∃ cl, s.client c = some cl ∧ ∀ q rq', rq = some (q, rq') → q = cl.caller ∧ rq' = cl.rq

def System.set (s : System) (c : Nat) (cl : Client) : System := { s with client := update s.client c (some cl) }

/-- One turn of the daemon, which may accept calls. -/
def System.turn (s : System) (t : Turn) : System :=
  { s with
    broker := broker_turn t s.broker
    acc := fun c => s.acc c || t.accepted.any fun a => a.1 == c }

/-- A step of the daemon or of a caller. -/
inductive SysStep : System → System → Prop where
  | call {s : System} {c : Nat} (q : Caller) (rq : BReq) : s.client c = none → s.acc c = false →
      SysStep s (s.set c ⟨q, rq, false, .waiting⟩)
  | signal {s : System} {c : Nat} {cl : Client} : s.client c = some cl → cl.phase = .waiting →
      SysStep s (s.set c { cl with cancelled := true })
  | reply {s : System} {c : Nat} {cl : Client} {r : Reply} : s.client c = some cl → cl.phase = .waiting →
      (c, r) ∈ s.broker.sent → SysStep s (s.set c { cl with phase := .returned (ipc_result cl.rq r) })
  | closed {s : System} {c : Nat} {cl : Client} : s.client c = some cl → cl.phase = .waiting → ClosedConn s c →
      SysStep s (s.set c { cl with phase := .returned (-EIDRM) })
  | die {s : System} {c : Nat} {cl : Client} : s.client c = some cl → SysStep s (s.set c { cl with phase := .dead })
  | turn {s : System} {t : Turn} : TurnFrom s t → SysStep s (s.turn t)

def System.books (s : System) : Books :=
  ⟨fun c => s.acc c = true, fun c => (s.client c).map Client.rq, fun _ => False, []⟩

/-- A caller that has returned was told what the broker has sent it, or was told
of an end it came to without a reply. -/
structure System.Ok (s : System) : Prop where
  poll : AtPoll s.books s.broker
  known : ∀ c, s.acc c = true → (s.client c).isSome = true
  told : ∀ c cl ret, s.client c = some cl → cl.phase = .returned ret →
    (∃ r, (c, r) ∈ s.broker.sent ∧ ret = ipc_result cl.rq r) ∨ (ret = -EIDRM ∧ ClosedConn s c)

section system

variable {s s' : System} {c : Nat} {cl cl' : Client} {t : Turn}

theorem BooksKept.books {bk bk' : Books} {b : Broker} (hl : BooksKept bk b) (hacc : bk'.acc = bk.acc)
    (hreq : ∀ c, bk.acc c → bk'.req c = bk.req c) (hshut : ∀ c, ¬bk'.shut c) (hbase : bk'.base = []) :
    BooksKept bk' b := by
  refine { hl with
    parked := fun i w hw => ?_, sent := fun c r hmem => ?_, shut := fun c hc => absurd hc (hshut c)
    base := fun p hp => ?_ }
  · obtain ⟨hw', rq, hrq, hp⟩ := hl.parked i w hw
    exact ⟨hacc ▸ hw', rq, (hreq _ hw').trans hrq, hp⟩
  · obtain ⟨hc, hcall⟩ := hl.sent c r hmem
    exact ⟨hacc ▸ hc, fun rq hrq => hcall rq ((hreq c hc).symm.trans hrq)⟩
  · rw [hbase] at hp
    exact nomatch hp

theorem AtPoll.books {bk bk' : Books} {b : Broker} (hb : AtPoll bk b) (hacc : bk'.acc = bk.acc)
    (hreq : ∀ c, bk.acc c → bk'.req c = bk.req c) (hshut : ∀ c, ¬bk'.shut c) (hbase : bk'.base = []) :
    AtPoll bk' b :=
  { hb with ok := { hb.ok with ledger := hb.ok.ledger.books hacc hreq hshut hbase } }

theorem set_client_self (s : System) (c : Nat) (cl : Client) : (s.set c cl).client c = some cl := update_self ..

theorem set_client_ne {c' : Nat} (hne : c' ≠ c) : (s.set c cl).client c' = s.client c' := update_of_ne hne ..

theorem System.Ok.set (hs : s.Ok) (hreq : s.acc c = true → (s.client c).map Client.rq = some cl.rq)
    (htold : ∀ ret, cl.phase = .returned ret →
      (∃ r, (c, r) ∈ s.broker.sent ∧ ret = ipc_result cl.rq r) ∨ (ret = -EIDRM ∧ ClosedConn s c)) :
    (s.set c cl).Ok := by
  refine ⟨hs.poll.books rfl (fun c' hc' => ?_) (fun _ h => h) rfl, fun c' hc' => ?_, fun c' cl' ret hcl' hret => ?_⟩
  · dsimp only [System.books]
    by_cases heq : c' = c
    · subst heq
      rw [set_client_self, hreq hc', Option.map_some]
    · rw [set_client_ne heq]
  · by_cases heq : c' = c
    · subst heq
      rw [set_client_self]
      rfl
    · rw [set_client_ne heq]
      exact hs.known c' hc'
  rcases update_some hcl' with ⟨rfl, hself⟩ | ⟨-, hold⟩
  · cases hself
    exact htold ret hret
  · exact hs.told c' cl' ret hold hret

theorem System.Ok.turn (hs : s.Ok) (ht : TurnFrom s t) : (s.turn t).Ok := by
  have hledger := hs.poll.ok.ledger
  -- the books of the turn: what is closed and what is sent now
  let bk : Books := { s.books with shut := ClosedConn s, base := s.broker.sent }
  have hpoll : AtPoll bk s.broker :=
    { hs.poll with
      ok := { hs.poll.ok with ledger := { hledger with shut := fun _ hc => hc.2, base := fun _ hp => hp } } }
  have haccepts : Accepts bk t.accepted := by
    intro c rq hc
    obtain ⟨hacc, cl, hcl, hrq⟩ := ht.accept c rq hc
    refine ⟨fun h => ?_, fun h => ?_, fun q rq' heq => ?_⟩
    · rw [h] at hacc
      cases hacc
    · rw [h.1] at hacc
      cases hacc
    · obtain ⟨-, rfl⟩ := hrq q rq' heq
      exact congrArg (Option.map Client.rq) hcl
  have hturn := broker_turn_atPoll hpoll haccepts
  have hacc : ∀ c, (s.turn t).acc c = true ↔ s.acc c = true ∨ ∃ rq, t.accepted = some (c, rq) := by
    intro c
    rw [System.turn, Bool.or_eq_true]
    cases t.accepted with
    | none => simp
    | some a => simp [Prod.ext_iff]
  refine ⟨hturn.books (funext fun c => propext (hacc c)) (fun _ _ => rfl) (fun _ h => h) rfl, fun c hc => ?_,
    fun c cl ret hcl hret => ?_⟩
  · rcases (hacc c).1 hc with hc | ⟨rq, hc⟩
    · exact hs.known c hc
    obtain ⟨-, cl, hcl, -⟩ := ht.accept c rq hc
    rw [System.turn, hcl]
    rfl
  rcases hs.told c cl ret hcl hret with ⟨r, hmem, heq⟩ | ⟨heq, hclosed⟩
  · exact .inl ⟨r, hturn.ok.ledger.base _ hmem, heq⟩
  · exact .inr ⟨heq, (hacc c).2 (.inl hclosed.1), hturn.ok.ledger.shut c hclosed⟩

theorem sys_step_ok (hs : s.Ok) (hstep : SysStep s s') : s'.Ok := by
  cases hstep with
  | call q rq hnone hacc =>
    refine hs.set (fun hc => ?_) fun ret hret => by cases hret
    rw [hacc] at hc
    cases hc
  | signal hcl hphase =>
    refine hs.set (fun _ => by rw [hcl]; rfl) fun ret hret => ?_
    rw [hphase] at hret
    cases hret
  | reply hcl hphase hmem =>
    refine hs.set (fun _ => by rw [hcl]; rfl) fun ret hret => ?_
    cases hret
    exact .inl ⟨_, hmem, rfl⟩
  | closed hcl hphase hclosed =>
    refine hs.set (fun _ => by rw [hcl]; rfl) fun ret hret => ?_
    cases hret
    exact .inr ⟨rfl, hclosed⟩
  | die hcl => exact hs.set (fun _ => by rw [hcl]; rfl) fun ret hret => by cases hret
  | turn ht => exact hs.turn ht

theorem system_init_ok : System.init.Ok := by
  refine ⟨⟨⟨SemTab.empty_ok, ⟨?_, ?_, ?_, Nat.one_pos⟩, ⟨?_, ?_, ?_, ?_, List.nodup_nil, ?_, List.nodup_nil, ?_, ?_⟩⟩,
    ?_, ?_⟩, ?_, ?_⟩ <;> intro _ <;> intros <;> contradiction

/-- Every run of callers and daemon keeps the invariant. -/
theorem sys_run_ok (hrun : Relation.ReflTransGen SysStep .init s) : s.Ok := by
  induction hrun with
  | refl => exact system_init_ok
  | tail _ hstep ih => exact sys_step_ok ih hstep

theorem ipc_result_eq {rq : BReq} {r : Reply} (hfits : ReplyFits r rq) : ipc_result rq r = r.ret := by
  unfold ipc_result
  split
  next msgsz _ _ =>
    refine if_neg ?_
    rintro ⟨hpos, hbad⟩
    obtain ⟨hle, hlen⟩ := hfits hpos.le
    omega
  next => rfl

theorem System.Ok.agrees (hs : s.Ok) (hcl : s.client c = some cl) (hcall : cl.rq.isCall = true) {ret : Int}
    (hret : cl.phase = .returned ret) : 0 ≤ ret ↔ c ∈ s.broker.took := by
  have hledger := hs.poll.ok.ledger
  have hreq : s.books.req c = some cl.rq := congrArg (Option.map Client.rq) hcl
  rcases hs.told c cl ret hcl hret with ⟨r, hmem, rfl⟩ | ⟨rfl, -, hunsent, -⟩
  · obtain ⟨hfits, hiff⟩ := (hledger.sent c r hmem).2 cl.rq hreq hcall
    rw [ipc_result_eq hfits]
    exact hiff
  · refine ⟨fun h => absurd h (by decide), fun htook => absurd (hledger.took c htook) hunsent⟩

/-- When the broker goes back to waiting no parked call could complete or has to fail on the tables, and no deadline is
past; a connection has one reply and one effect at most; a caller is told success exactly if its operation has taken
effect. -/
theorem parked_calls_agree (hrun : Relation.ReflTransGen SysStep .init s) :
    (∀ i w, s.broker.wait i = some w → Waits s.broker w.id w.pid w.op ∧
        (w.deadline_ms < 0 ∨ s.broker.now < w.deadline_ms)) ∧
      (s.broker.sent.map Prod.fst).Nodup ∧ s.broker.took.Nodup ∧
      (∀ c cl ret, s.client c = some cl → cl.rq.isCall = true → cl.phase = .returned ret →
        (0 ≤ ret ↔ c ∈ s.broker.took)) ∧
      (∀ b h i w, SemTab.Ok b.tab → CallStep b w.cfd w.op w.id w.pid (rescan_one h b i w).1) ∧
      (∀ b h c q rq op, SemTab.Ok b.tab → ParkedAs rq op →
        CallStep b c op rq.objId q.pid (ipc_serve h b c q rq)) := by
  have hs := sys_run_ok hrun
  refine ⟨fun i w hw => ⟨Stuck.waits (hs.poll.stuck i w hw), hs.poll.timely i w hw⟩,
    hs.poll.ok.ledger.once, hs.poll.ok.ledger.took_once, fun c cl ret hcl hcall hret => hs.agrees hcl hcall hret,
    fun b h i w hok => rescan_one_step hok h i w, fun b h c q rq op hok hp => ipc_serve_step hok hp h c q⟩

end system

/-- A turn of the broker on the request of a caller. -/
def call_turn (c : Nat) (q : Caller) (rq : BReq) : Turn :=
  let h : Host := ⟨0, 0, fun _ => 1⟩
  ⟨some ⟨fun _ => none, some (c, some (q, rq)), h, fun _ _ => h⟩, 0, none, none⟩

/-- The requests, the last one first, each made by a process of its own and served. -/
def after_calls : List BReq → System
  | [] => .init
  | rq :: rqs =>
    let q : Caller := ⟨rqs.length + 7, 0, 0⟩
    ((after_calls rqs).set rqs.length ⟨q, rq, false, .waiting⟩).turn (call_turn rqs.length q rq)

theorem after_calls_run (rqs : List BReq) : Relation.ReflTransGen SysStep .init (after_calls rqs) ∧
    ∀ c, rqs.length ≤ c → (after_calls rqs).client c = none ∧ (after_calls rqs).acc c = false := by
  induction rqs with
  | nil => exact ⟨.refl, fun _ _ => ⟨rfl, rfl⟩⟩
  | cons rq rqs ih =>
    obtain ⟨hrun, hfresh⟩ := ih
    obtain ⟨hnone, hacc⟩ := hfresh rqs.length le_rfl
    refine ⟨.tail (.tail hrun (.call ⟨rqs.length + 7, 0, 0⟩ rq hnone hacc)) (.turn ⟨?_, ?_, ?_⟩), fun c hc => ?_⟩
    · intro rd c hrd hc
      cases hrd
      cases hc
    · intro rd c hrd hc
      cases hrd
      cases hc
    · intro c o hc
      cases hc
      exact ⟨hacc, _, set_client_self .., fun q rq' hq => by cases hq; exact ⟨rfl, rfl⟩⟩
    have hlt : rqs.length < c := hc
    obtain ⟨hnone', hacc'⟩ := hfresh c hlt.le
    rw [after_calls, System.turn]
    dsimp only
    refine ⟨(set_client_ne hlt.ne').trans hnone', ?_⟩
    have hother : (rqs.length == c) = false := beq_false_of_ne hlt.ne
    rw [System.set, hacc', call_turn, Turn.accepted, Bool.false_or]
    exact hother

/-- A set with one semaphore raised under `SEM_UNDO`, a queue, and a receive on it. -/
def parked_calls : List BReq :=
  [.msgrcv 1 0 8 0#32 (-1), .msgget 0 ⟨true, false, 0o600#32⟩, .semop 1 [⟨0, 1, 0x1000#16⟩] (-1),
    .semget 0 1 ⟨true, false, 0o600#32⟩]

/-- Then a send, which the parked receive is granted by. -/
def granted_calls : List BReq := .msgsnd 1 ⟨1, [5]⟩ 0#32 (-1) :: parked_calls

set_option maxRecDepth 100000 in
/-- A receive is parked on an empty queue and granted by the next send. -/
theorem parked_calls_agree_granted :
    (∃ w, (after_calls parked_calls).broker.wait 0 = some w ∧ w.cfd = 3 ∧
        Waits (after_calls parked_calls).broker w.id w.pid w.op) ∧
      ∃ s cl, Relation.ReflTransGen SysStep (after_calls granted_calls) s ∧ s.client 3 = some cl ∧
        cl.phase = .returned 1 ∧ (0 ≤ (1 : Int) ↔ 3 ∈ s.broker.took) ∧ 3 ∈ s.broker.took := by
  have hparked : ((after_calls parked_calls).broker.wait 0).map Waiter.cfd = some 3 := by decide +kernel
  obtain ⟨w, hw, hcfd⟩ := Option.map_eq_some_iff.1 hparked
  refine ⟨⟨w, hw, hcfd, ((parked_calls_agree (after_calls_run parked_calls).1).1 0 w hw).1⟩, ?_⟩
  have hsent : ((after_calls granted_calls).broker.sent.map fun p => (p.1, p.2.ret, p.2.data)).head? =
      some (3, 1, [5]) := by
    decide +kernel
  obtain ⟨⟨c, r⟩, hmem, heq⟩ := List.mem_map.1 (List.mem_of_head? hsent)
  simp only [Prod.mk.injEq] at heq
  obtain ⟨rfl, hret, hdata⟩ := heq
  have hresult : ipc_result (.msgrcv 1 0 8 0#32 (-1)) r = 1 := by
    rw [ipc_result, hret, hdata]
    rfl
  have hcl : (after_calls granted_calls).client 3 = some ⟨⟨10, 0, 0⟩, .msgrcv 1 0 8 0#32 (-1), false, .waiting⟩ := rfl
  have hstep := SysStep.reply hcl rfl hmem
  dsimp only at hstep
  rw [hresult] at hstep
  have hrun := (after_calls_run granted_calls).1.tail hstep
  have hagree := (parked_calls_agree hrun).2.2.2.1 3 _ 1 (set_client_self ..) rfl rfl
  exact ⟨_, _, .single hstep, set_client_self .., rfl, hagree, hagree.1 (by decide)⟩

end arm64emu
