import Mathlib
import Arm64Emu.Ipc.Sem
import Arm64Emu.Lib.Bytes

open slots bytes

namespace arm64emu

open Function

def MSG_QUEUE_MAX : Nat := 1024

def G_MSGMAX : Nat := 8192

def G_MSGMNB : Nat := 16384

/-- A message. -/
structure GMsg where
  mtype : Int
  data : List Byte

def GMsg.size (m : GMsg) : Nat := m.data.length

/-- A message queue. -/
structure MsgQ where
  msqid : Int
  perm : IpcPerm
  stime : Int
  rtime : Int
  ctime : Int
  cbytes : Nat
  qnum : Nat
  qbytes : Nat
  lspid : Int
  lrpid : Int
  cpid : Int
  tpid : Int
  msgs : List GMsg

/-- The queues, and the sequence of their ids. -/
structure MsgTab where
  msq : Table MsgQ
  next_msqid : Int

def MsgTab.empty : MsgTab := ⟨fun _ => none, 1⟩

def msg_find (t : MsgTab) (msqid : Int) : Option (Nat × MsgQ) :=
  if msqid ≤ 0 then none
  else (find MSG_QUEUE_MAX t.msq fun q => q.msqid = msqid).bind fun i => (t.msq i).map fun q => (i, q)

def msg_alloc_id_loop (t : MsgTab) : Nat → Int → Int × Option Int
  | 0, next => (next, none)
  | tries + 1, next =>
    let after := if next + 1 = 2147483648 then 1 else next + 1
    if 0 < next ∧ msg_find t next = none then (after, some next) else msg_alloc_id_loop t tries after

def msg_alloc_id (t : MsgTab) : Int × Option Int := msg_alloc_id_loop t (MSG_QUEUE_MAX * 4) t.next_msqid

/-- `msgget`. -/
def msg_do_get (h : Host) (t : MsgTab) (q : Caller) (key : Int) (flg : GetFlags) : MsgTab × Int :=
  let keyed := if key = 0 then none else find MSG_QUEUE_MAX t.msq fun mq => mq.perm.key = key
  match keyed.bind fun i => (t.msq i).map fun mq => (i, mq) with
  | some (i, mq) =>
    if flg.creat ∧ flg.excl then (t, -EEXIST)
    else if ¬ipc_access mq.perm q 4#32 then (t, -EACCES)
    else ({ t with msq := update t.msq i (some { mq with tpid := q.pid }) }, mq.msqid)
  | none =>
    if key ≠ 0 ∧ ¬flg.creat then (t, -ENOENT)
    else
      match free MSG_QUEUE_MAX t.msq with
      | none => (t, -ENOSPC)
      | some slot =>
        match msg_alloc_id t with
        | (next, none) => ({ t with next_msqid := next }, -ENOSPC)
        | (next, some id) =>
          let mq : MsgQ :=
            { msqid := id, stime := 0, rtime := 0, ctime := h.time, cbytes := 0, qnum := 0, qbytes := G_MSGMNB
              perm := ⟨key, flg.mode &&& 0o777#32, q.uid, q.gid, q.uid, q.gid⟩
              lspid := 0, lrpid := 0, cpid := q.pid, tpid := q.pid, msgs := [] }
          ({ msq := update t.msq slot (some mq), next_msqid := next }, id)

def msg_nowait (flg : BitVec 32) : Bool := flg.getLsbD 11

def msg_noerror (flg : BitVec 32) : Bool := flg.getLsbD 12

def msg_except (flg : BitVec 32) : Bool := flg.getLsbD 13

/-- Whether a receive of this type and these flags takes the message. -/
def msg_matches (m : GMsg) (msgtyp : Int) (msgflg : BitVec 32) : Bool :=
  if msgtyp = 0 then true
  else if 0 < msgtyp then (if msg_except msgflg then m.mtype ≠ msgtyp else m.mtype = msgtyp)
  else
    -- the least `s64` cannot be negated
    let limit := if msgtyp = -9223372036854775808 then 9223372036854775807 else -msgtyp
    m.mtype ≤ limit

/-- The loop of `msg_pick` at message `i` of the queue, with the best so far. -/
def msg_pick_loop (msgtyp : Int) (msgflg : BitVec 32) : List GMsg → Nat → Option (Nat × GMsg) → Option (Nat × GMsg)
  | [], _, best => best
  | m :: ms, i, best =>
    if ¬msg_matches m msgtyp msgflg then msg_pick_loop msgtyp msgflg ms (i + 1) best
    else if 0 ≤ msgtyp then some (i, m)
    else if best.all (fun b => m.mtype < b.2.mtype) then msg_pick_loop msgtyp msgflg ms (i + 1) (some (i, m))
    else msg_pick_loop msgtyp msgflg ms (i + 1) best

/-- `msg_pick`: the message a `msgrcv` takes, with its place in the queue. -/
def msg_pick (q : MsgQ) (msgtyp : Int) (msgflg : BitVec 32) : Option (Nat × GMsg) :=
  msg_pick_loop msgtyp msgflg q.msgs 0 none

def msg_unlink (q : MsgQ) (i : Nat) (m : GMsg) : MsgQ :=
  { q with msgs := q.msgs.eraseIdx i, cbytes := q.cbytes - m.size, qnum := q.qnum - 1 }

def msg_fits (q : MsgQ) (size : Nat) : Bool := q.cbytes + size ≤ q.qbytes ∧ q.qnum + 1 ≤ q.qbytes

/-- The message at the end of its queue. -/
def msg_enqueue (h : Host) (q : MsgQ) (m : GMsg) (pid : Int) : MsgQ :=
  { q with
    msgs := q.msgs ++ [m]
    cbytes := q.cbytes + m.size
    qnum := q.qnum + 1
    lspid := pid
    stime := h.time
    tpid := pid }

/-- What the broker sends back: the result, and for a `msgrcv` the type and the
data of the message. -/
structure Reply where
  ret : Int
  mtype : Int
  data : List Byte

def Reply.of (ret : Int) : Reply := ⟨ret, 0, []⟩

/-- How an attempt at a `semop`, `msgsnd` or `msgrcv` ends: it has to wait, it
fails without effect, or it has taken effect. -/
inductive CallOutcome where
  | block (blk : Nat)
  | error (e : Int)
  | done (r : Reply)

/-- A send, which blocks while the queue is full. -/
def msg_try_snd (h : Host) (t : MsgTab) (i : Nat) (q : MsgQ) (m : GMsg) (pid : Int) : MsgTab × CallOutcome :=
  if msg_fits q m.size then
    ({ t with msq := update t.msq i (some (msg_enqueue h q m pid)) }, .done (.of 0))
  else (t, .block 0)

/-- A receive: the selected message, or an error, or a block. -/
def msg_try_rcv (h : Host) (t : MsgTab) (i : Nat) (q : MsgQ) (msgtyp : Int) (msgsz : Nat) (msgflg : BitVec 32)
    (pid : Int) : MsgTab × CallOutcome :=
  match msg_pick q msgtyp msgflg with
  | none => (t, .block 0)
  | some (k, m) =>
    if msgsz < m.size ∧ ¬msg_noerror msgflg then (t, .error (-E2BIG))
    else
      let n := if m.size ≤ msgsz then m.size else msgsz
      let q' : MsgQ := { msg_unlink q k m with lrpid := pid, rtime := h.time, tpid := pid }
      ({ t with msq := update t.msq i (some q') }, .done ⟨n, m.mtype, m.data.take n⟩)

end arm64emu
