import Mathlib
import Arm64Emu.Ipc.Msg

open slots

namespace arm64emu

open Function

def IPC_WAITER_MAX : Nat := 512

/-- What a parked caller waits to do. -/
inductive WaitOp where
  | sem (sops : List Sembuf) (blk : Nat)
  | snd (msg : GMsg)
  | rcv (msgtyp : Int) (msgsz : Nat) (msgflg : BitVec 32)

/-- A parked caller. -/
structure Waiter where
  cfd : Nat
  op : WaitOp
  id : Int
  pid : Int
  start : Nat
  seq : Nat
  deadline_ms : Int

/-- The state of the broker, with its last clock reading, what it has sent to each connection and the connections
whose operation has taken effect. -/
structure Broker where
  tab : SemTab
  msg : MsgTab
  wait : Table Waiter
  wait_seq : Nat
  now : Int
  sent : List (Nat × Reply)
  took : List Nat

def Broker.empty : Broker := ⟨.empty, .empty, fun _ => none, 1, 0, [], []⟩

def answer (b : Broker) (c : Nat) (r : Reply) : Broker := { b with sent := (c, r) :: b.sent }

def waiter_free (b : Broker) (i : Nat) : Broker := { b with wait := update b.wait i none }

def waiter_reply (b : Broker) (i : Nat) (w : Waiter) (r : Reply) : Broker := waiter_free (answer b w.cfd r) i

/-- The deadline of a wait: the timeout in milliseconds, rounded up. -/
def deadline_of (h : Host) (timeout_ns : Int) : Int :=
  if 0 ≤ timeout_ns then
    let t := if 9223372036854775807 - 1000000 < timeout_ns then 9223372036854775807 - 1000000 else timeout_ns
    h.mono_ms + (t + 999999) / 1000000
  else -1

/-- Parks a caller in the first free slot. -/
def waiter_park (h : Host) (b : Broker) (c : Nat) (op : WaitOp) (id pid timeout_ns : Int) : Option Broker :=
  (free IPC_WAITER_MAX b.wait).map fun i =>
    { b with
      wait := update b.wait i
        (some ⟨c, op, id, pid, h.starttime pid, b.wait_seq, deadline_of h timeout_ns⟩)
      wait_seq := b.wait_seq + 1 }

/-- The operation a parked vector is blocked at. -/
def Waiter.blocked_on (w : Waiter) : Option Sembuf :=
  match w.op with
  | .sem sops blk => sops[blk]?
  | _ => none

/-- `GETNCNT` and `GETZCNT`. -/
def sem_count_waiters (b : Broker) (semid semnum : Int) (zero : Bool) : Int :=
  ((List.range IPC_WAITER_MAX).filter fun i => (b.wait i).any fun w =>
    w.id = semid ∧ w.blocked_on.any fun op =>
      (op.sem_num : Int) = semnum ∧ if zero then op.sem_op = 0 else op.sem_op < 0).length

/-- How a parked call ends. -/
inductive WaiterEnd where
  | reply (r : Reply)
  | drop

/-- Answers a parked caller and frees its slot. -/
def waiter_end (act : Waiter → Option WaiterEnd) (b : Broker) (i : Nat) : Broker :=
  match b.wait i with
  | none => b
  | some w =>
    match act w with
    | none => b
    | some (.reply r) => waiter_reply b i w r
    | some .drop => waiter_free b i

def waiters_end (act : Waiter → Option WaiterEnd) (b : Broker) : Broker :=
  (List.range IPC_WAITER_MAX).foldl (waiter_end act) b

def WaitOp.isSem : WaitOp → Bool
  | .sem .. => true
  | _ => false

def waiters_eidrm (b : Broker) (id : Int) (sem : Bool) : Broker :=
  waiters_end (fun w => if w.id = id ∧ w.op.isSem = sem then some (.reply (.of (-EIDRM))) else none) b

/-- Ends the calls whose time is up. -/
def waiters_expire (now : Int) (b : Broker) : Broker :=
  waiters_end (fun w => if w.deadline_ms < 0 ∨ now < w.deadline_ms then none else some (.reply (.of (-EAGAIN))))
    { b with now := now }

def sem_outcome : TryResult → CallOutcome
  | .applied => .done (.of 0)
  | .block blk => .block blk
  | .error e => .error e

/-- A try of the operation, on the tables as they are. -/
def attempt (h : Host) (b : Broker) (op : WaitOp) (id pid : Int) : Broker × CallOutcome :=
  match op with
  | .sem sops _ =>
    match sem_find b.tab id with
    | none => (b, .error (-EIDRM))
    | some (i, s) =>
      let res := sem_try_op h b.tab i s sops pid
      ({ b with tab := res.1 }, sem_outcome res.2)
  | .snd m =>
    match msg_find b.msg id with
    | none => (b, .error (-EIDRM))
    | some (i, q) =>
      let res := msg_try_snd h b.msg i q m pid
      ({ b with msg := res.1 }, res.2)
  | .rcv msgtyp msgsz msgflg =>
    match msg_find b.msg id with
    | none => (b, .error (-EIDRM))
    | some (i, q) =>
      let res := msg_try_rcv h b.msg i q msgtyp msgsz msgflg pid
      ({ b with msg := res.1 }, res.2)

/-- The answer of a try that did not block. -/
def settle (b : Broker) (c : Nat) : CallOutcome → Broker
  | .block _ => b
  | .error e => answer b c (.of e)
  | .done r => answer { b with took := c :: b.took } c r

def WaitOp.set_blk (blk : Nat) : WaitOp → WaitOp
  | .sem sops _ => .sem sops blk
  | op => op

/-- One turn of the inner loop of `ipc_rescan`; with it, whether there was
progress. -/
def rescan_one (h : Host) (b : Broker) (i : Nat) (w : Waiter) : Broker × Bool :=
  match attempt h b w.op w.id w.pid with
  | (b', .block blk) => ({ b' with wait := update b'.wait i (some { w with op := w.op.set_blk blk }) }, false)
  | (b', res) => (waiter_free (settle b' w.cfd res) i, true)

/-- The next waiter of a pass: the one with the least sequence number over `last`. -/
@[irreducible]
def next_waiter (b : Broker) (last : Nat) : Option (Nat × Waiter) :=
  least IPC_WAITER_MAX b.wait (fun w => decide (last < w.seq)) Waiter.seq

/-- The inner loop of `ipc_rescan` from the sequence number `last` on; a pass has
one turn at most for each slot of the table. -/
def rescan_pass (h : Nat → Host) : Nat → Broker → Nat → Broker × Bool
  | 0, b, _ => (b, false)
  | turns + 1, b, last =>
    match next_waiter b last with
    | none => (b, false)
    | some (i, w) =>
      let one := rescan_one (h w.seq) b i w
      let rest := rescan_pass h turns one.1 w.seq
      (rest.1, one.2 || rest.2)

/-- The outer loop of `ipc_rescan`: passes until one makes no progress, at most one more than the table has slots. -/
def rescan_loop (h : Nat → Nat → Host) : Nat → Broker → Broker
  | 0, b => b
  | passes + 1, b =>
    let res := rescan_pass (h passes) IPC_WAITER_MAX b 0
    if res.2 then rescan_loop h passes res.1 else res.1

def ipc_rescan (h : Nat → Nat → Host) (b : Broker) : Broker := rescan_loop h (IPC_WAITER_MAX + 1) b

def ipc_set_perm (o : IpcPerm) (mode : BitVec 32) (uid gid : Nat) : IpcPerm :=
  { o with mode := (o.mode &&& ~~~0o777#32) ||| (mode &&& 0o777#32), uid := uid, gid := gid }

def max_index {α : Type} (cap : Nat) (tab : Table α) : Int :=
  ((List.range cap).reverse.find? fun i => (tab i).isSome).elim (-1) Int.ofNat

/-- The commands of `semctl`, `SETALL` apart. -/
inductive SemCmd where
  | info
  | stat (any : Bool)
  | nsems
  | ipcStat
  | ipcSet (mode : BitVec 32) (uid gid : Nat)
  | rmid
  | getall
  | getval
  | getpid
  | getncnt
  | getzcnt
  | setval (val : Int)
  | unknown

/-- `semctl` by its command. -/
def sem_do_ctl (h : Host) (b : Broker) (q : Caller) (id semnum : Int) (cmd : SemCmd) : Broker × Int :=
  match cmd with
  | .info => (b, max_index SEM_SET_MAX b.tab.sem)
  | .stat any =>
    if id < 0 ∨ (SEM_SET_MAX : Int) ≤ id then (b, -EINVAL)
    else
      match b.tab.sem id.toNat with
      | none => (b, -EINVAL)
      | some s => if ¬any ∧ ¬ipc_access s.perm q 4#32 then (b, -EACCES) else (b, s.semid)
  | .setval val =>
    let res := sem_setval h b.tab q id semnum val
    ({ b with tab := res.1 }, res.2)
  | _ =>
    match sem_find b.tab id with
    | none => (b, -EINVAL)
    | some (i, s) =>
      let read (b : Broker) (v : Int) : Broker × Int := if ipc_access s.perm q 4#32 then (b, v) else (b, -EACCES)
      let ranged (v : Int) : Broker × Int :=
        if semnum < 0 ∨ (s.nsems : Int) ≤ semnum then (b, -EINVAL) else read b v
      match cmd with
      | .nsems => (b, s.nsems)
      | .ipcStat => read b 0
      | .ipcSet mode uid gid =>
        if ipc_owner s.perm q then
          let s' : SemSet := { s with perm := ipc_set_perm s.perm mode uid gid, ctime := h.time }
          ({ b with tab := { b.tab with sem := update b.tab.sem i (some s') } }, 0)
        else (b, -EPERM)
      | .rmid =>
        if ipc_owner s.perm q then
          let b := waiters_eidrm b s.semid true
          ({ b with tab := sem_free_set b.tab i s }, 0)
        else (b, -EPERM)
      | .getall => read b 0
      | .getval => ranged (s.val semnum.toNat)
      | .getpid => ranged (s.lpid semnum.toNat)
      | .getncnt => ranged (sem_count_waiters b s.semid semnum false)
      | .getzcnt => ranged (sem_count_waiters b s.semid semnum true)
      | _ => (b, -EINVAL)

/-- The commands of `msgctl`. -/
inductive MsgCmd where
  | info
  | stat (any : Bool)
  | ipcStat
  | ipcSet (qbytes : Int) (mode : BitVec 32) (uid gid : Nat)
  | rmid
  | unknown

/-- `msgctl` by its command. -/
def msg_do_ctl (h : Host) (b : Broker) (q : Caller) (id : Int) (cmd : MsgCmd) : Broker × Int :=
  match cmd with
  | .info => (b, max_index MSG_QUEUE_MAX b.msg.msq)
  | .stat any =>
    if id < 0 ∨ (MSG_QUEUE_MAX : Int) ≤ id then (b, -EINVAL)
    else
      match b.msg.msq id.toNat with
      | none => (b, -EINVAL)
      | some mq => if ¬any ∧ ¬ipc_access mq.perm q 4#32 then (b, -EACCES) else (b, mq.msqid)
  | _ =>
    match msg_find b.msg id with
    | none => (b, -EINVAL)
    | some (i, mq) =>
      match cmd with
      | .ipcStat => if ipc_access mq.perm q 4#32 then (b, 0) else (b, -EACCES)
      | .ipcSet qbytes mode uid gid =>
        if ¬ipc_owner mq.perm q then (b, -EPERM)
        else if qbytes < 0 then (b, -EINVAL)
        else if (G_MSGMNB : Int) < qbytes ∧ q.uid ≠ 0 then (b, -EPERM)
        else
          let mq' : MsgQ :=
            { mq with qbytes := qbytes.toNat, perm := ipc_set_perm mq.perm mode uid gid, ctime := h.time }
          ({ b with msg := { b.msg with msq := update b.msg.msq i (some mq') } }, 0)
      | .rmid =>
        if ipc_owner mq.perm q then
          let b := waiters_eidrm b mq.msqid false
          ({ b with msg := { b.msg with msq := update b.msg.msq i none } }, 0)
        else (b, -EPERM)
      | _ => (b, -EINVAL)

/-- A request to the daemon. -/
inductive BReq where
  | semget (key : Int) (nsems : Nat) (flg : GetFlags)
  | semexit
  | semop (semid : Int) (sops : List Sembuf) (timeout_ns : Int)
  | semctl (semid semnum : Int) (cmd : SemCmd)
  | setall (semid : Int) (vals : List Int)
  | msgget (key : Int) (flg : GetFlags)
  | msgctl (msqid : Int) (cmd : MsgCmd)
  | msgsnd (msqid : Int) (m : GMsg) (flg : BitVec 32) (timeout_ns : Int)
  | msgrcv (msqid msgtyp : Int) (msgsz : Nat) (flg : BitVec 32) (timeout_ns : Int)
  | other (ret : Int)

/-- An operation that has to sleep is parked, or fails with `e` if the table is
full. -/
def park_or (h : Host) (b : Broker) (c : Nat) (op : WaitOp) (id pid timeout_ns e : Int) : Broker :=
  match waiter_park h b c op id pid timeout_ns with
  | some b' => b'
  | none => answer b c (.of e)

/-- One request: done at once, or parked. -/
def ipc_serve (h : Host) (b : Broker) (c : Nat) (q : Caller) : BReq → Broker
  | .semget key nsems flg =>
    let res := sem_do_get h b.tab q key nsems flg
    answer { b with tab := res.1 } c (.of res.2)
  | .semexit => answer { b with tab := sem_exit_pid h b.tab q.pid } c (.of 0)
  | .semop semid sops timeout_ns =>
    match sem_serve_op h b.tab q semid sops with
    | (tab, .block blk) => park_or h { b with tab := tab } c (.sem sops blk) semid q.pid timeout_ns (-EAGAIN)
    | (tab, res) => settle { b with tab := tab } c (sem_outcome res)
  | .semctl semid semnum cmd =>
    let res := sem_do_ctl h b q semid semnum cmd
    answer res.1 c (.of res.2)
  | .setall semid vals =>
    if vals.length = 0 ∨ G_SEMMSL < vals.length then b
    else
      let res := sem_setall h b.tab q semid vals
      answer { b with tab := res.1 } c (.of res.2)
  | .msgget key flg =>
    let res := msg_do_get h b.msg q key flg
    answer { b with msg := res.1 } c (.of res.2)
  | .msgctl msqid cmd =>
    let res := msg_do_ctl h b q msqid cmd
    answer res.1 c (.of res.2)
  | .msgsnd msqid m flg timeout_ns =>
    if G_MSGMAX < m.size ∨ m.mtype ≤ 0 then b
    else
      match msg_find b.msg msqid with
      | none => answer b c (.of (-EINVAL))
      | some (i, mq) =>
        if ¬ipc_access mq.perm q 2#32 then answer b c (.of (-EACCES))
        else
          match msg_try_snd h b.msg i mq m q.pid with
          | (_, .block _) =>
            if msg_nowait flg then answer b c (.of (-EAGAIN))
            else park_or h b c (.snd m) msqid q.pid timeout_ns (-EAGAIN)
          | (msg, res) => settle { b with msg := msg } c res
  | .msgrcv msqid msgtyp msgsz flg timeout_ns =>
    match msg_find b.msg msqid with
    | none => answer b c (.of (-EINVAL))
    | some (i, mq) =>
      if ¬ipc_access mq.perm q 4#32 then answer b c (.of (-EACCES))
      else
        match msg_try_rcv h b.msg i mq msgtyp msgsz flg q.pid with
        | (_, .block _) =>
          if msg_nowait flg then answer b c (.of (-ENOMSG))
          else park_or h b c (.rcv msgtyp msgsz flg) msqid q.pid timeout_ns (-ENOMSG)
        | (msg, res) => settle { b with msg := msg } c res
  | .other ret => answer b c (.of ret)

/-- `ipc_reclaim`, the shared memory apart: waiters and undo rows of processes that
are gone. -/
def ipc_reclaim (h : Host) (hscan : Nat → Nat → Host) (b : Broker) : Broker :=
  let b := waiters_end (fun w => if h.starttime w.pid ≠ w.start then some .drop else none) b
  ipc_rescan hscan { b with tab := sem_reclaim h b.tab }

/-- What the broker reads from a parked connection that has something to read: a
cancel, or its end. -/
inductive ParkedEvent where
  | cancel
  | gone

def parked_events (ev : Nat → Option ParkedEvent) (b : Broker) : Broker :=
  waiters_end (fun w => (ev w.cfd).map fun
    | .cancel => .reply (.of (-EINTR))
    | .gone => .drop) b

/-- What a `poll` that returns with events leads to: events of parked connections,
and a new connection with its request, if one could be read. -/
structure Ready where
  parked : Nat → Option ParkedEvent
  accept : Option (Nat × Option (Caller × BReq))
  hserve : Host
  hscan : Nat → Nat → Host

/-- A request on a new connection. -/
def serve_accept (h : Host) (b : Broker) : Option (Nat × Option (Caller × BReq)) → Broker
  | some (c, some (q, req)) => ipc_serve h b c q req
  | _ => b

/-- One turn of `ipc_broker` from `poll` to `poll`; each of the two reclaims, of
the tick and of the idle check, if it is due. -/
structure Turn where
  ready : Option Ready
  now : Int
  tick : Option (Host × (Nat → Nat → Host))
  idle : Option (Host × (Nat → Nat → Host))

/-- What is ready: parked callers, then a new connection, then the rescan. -/
def serve_ready (b : Broker) : Option Ready → Broker
  | none => b
  | some rd => ipc_rescan rd.hscan (serve_accept rd.hserve (parked_events rd.parked b) rd.accept)

/-- The tick, when it is due. -/
def reclaim_if (b : Broker) : Option (Host × (Nat → Nat → Host)) → Broker
  | none => b
  | some (h, hscan) => ipc_reclaim h hscan b

def broker_turn (t : Turn) (b : Broker) : Broker :=
  reclaim_if (reclaim_if (waiters_expire t.now (serve_ready b t.ready)) t.tick) t.idle

end arm64emu
