import Mathlib
import Arm64Emu.Core.Errno
import Arm64Emu.Lib.Slots

open slots

namespace arm64emu

open Function

def SEM_SET_MAX : Nat := 1024

def SEM_UNDO_MAX : Nat := 4096

def G_SEMVMX : Int := 32767

def G_SEMAEM : Int := 32767

def G_SEMMSL : Nat := 32000

def G_SEMOPM : Nat := 500

def to_u16 (v : Int) : Int := v % 65536

def to_s16 (v : Int) : Int := (v + 32768) % 65536 - 32768

/-- What the host tells the broker: the wall clock, the monotonic clock in
milliseconds, and the start time of a pid, 0 where there is no such process. -/
structure Host where
  time : Int
  mono_ms : Int
  starttime : Int → Nat

/-- The owner, creator and mode of an object. -/
structure IpcPerm where
  key : Int
  mode : BitVec 32
  uid : Nat
  gid : Nat
  cuid : Nat
  cgid : Nat

/-- The caller as the daemon knows it. -/
structure Caller where
  pid : Int
  uid : Nat
  gid : Nat

/-- Whether the caller's class of the mode grants the access. -/
def ipc_access (o : IpcPerm) (q : Caller) (req : BitVec 32) : Bool :=
  if q.uid = 0 then true
  else
    let granted :=
      if q.uid = o.uid ∨ q.uid = o.cuid then (o.mode >>> 6) &&& 7
      else if q.gid = o.gid ∨ q.gid = o.cgid then (o.mode >>> 3) &&& 7
      else o.mode &&& 7
    req &&& ~~~granted = 0#32

def ipc_owner (o : IpcPerm) (q : Caller) : Bool := q.uid = 0 ∨ q.uid = o.uid ∨ q.uid = o.cuid

/-- One operation of a vector. -/
structure Sembuf where
  sem_num : Nat
  sem_op : Int
  sem_flg : BitVec 16

def Sembuf.nowait (op : Sembuf) : Bool := op.sem_flg.getLsbD 11

def Sembuf.undo (op : Sembuf) : Bool := op.sem_flg.getLsbD 12

/-- A semaphore set; `val` and `lpid` are its arrays of `nsems` entries. -/
structure SemSet where
  semid : Int
  perm : IpcPerm
  nsems : Nat
  otime : Int
  ctime : Int
  val : Nat → Int
  lpid : Nat → Int
  cpid : Int
  tpid : Int

/-- One process's adjustments for one set. -/
structure SemUndo where
  pid : Int
  start : Nat
  semid : Int
  adj : Nat → Int

/-- The sets, the undo rows and the sequence of ids. -/
structure SemTab where
  sem : Table SemSet
  undo : Table SemUndo
  next_semid : Int

def SemTab.empty : SemTab := ⟨fun _ => none, fun _ => none, 1⟩

def sem_find (t : SemTab) (semid : Int) : Option (Nat × SemSet) :=
  if semid ≤ 0 then none
  else (find SEM_SET_MAX t.sem fun s => s.semid = semid).bind fun i => (t.sem i).map fun s => (i, s)

/-- `sem_alloc_id` with `tries` attempts left. The counter is an `s32`, and wraps
to 1. -/
def sem_alloc_id_loop (t : SemTab) : Nat → Int → Int × Option Int
  | 0, next => (next, none)
  | tries + 1, next =>
    let after := if next + 1 = 2147483648 then 1 else next + 1
    if 0 < next ∧ sem_find t next = none then (after, some next) else sem_alloc_id_loop t tries after

def sem_alloc_id (t : SemTab) : Int × Option Int := sem_alloc_id_loop t (SEM_SET_MAX * 4) t.next_semid

def undo_of (pid semid : Int) (u : SemUndo) : Bool := u.pid = pid ∧ u.semid = semid

/-- `sem_undo_find(pid, s, 1)`: the row of a process for a set, made if there is
none and a slot is free. -/
def sem_undo_find (h : Host) (undo : Table SemUndo) (pid semid : Int) : Table SemUndo × Option Nat :=
  match find SEM_UNDO_MAX undo (undo_of pid semid) with
  | some i => (undo, some i)
  | none =>
    match free SEM_UNDO_MAX undo with
    | none => (undo, none)
    | some i => (update undo i (some ⟨pid, h.starttime pid, semid, fun _ => 0⟩), some i)

/-- `sem_undo_clear`; `none` clears the whole row. -/
def sem_undo_clear (t : SemTab) (semid : Int) (semnum : Option Nat) : Table SemUndo := fun i =>
  (t.undo i).map fun u =>
    if u.semid ≠ semid then u
    else
      match sem_find t semid, semnum with
      | none, _ => u
      | some (_, s), none => { u with adj := fun n => if n < s.nsems then 0 else u.adj n }
      | some (_, s), some n => if n < s.nsems then { u with adj := update u.adj n 0 } else u

/-- A value brought into `0..G_SEMVMX`. -/
def sem_clamp (v : Int) : Int :=
  let v := if v < 0 then 0 else v
  if G_SEMVMX < v then G_SEMVMX else v

def sem_undo_set (h : Host) (u : SemUndo) (s : SemSet) : SemSet :=
  let touched := (List.range s.nsems).any fun n => u.adj n ≠ 0
  { s with
    val := fun n => if n < s.nsems ∧ u.adj n ≠ 0 then to_u16 (sem_clamp (s.val n + u.adj n)) else s.val n
    lpid := fun n => if n < s.nsems ∧ u.adj n ≠ 0 then u.pid else s.lpid n
    otime := if touched then h.time else s.otime }

/-- Adds a row's adjustments to its set, clamped. -/
def sem_undo_apply (h : Host) (t : SemTab) (i : Nat) : SemTab :=
  match t.undo i with
  | none => t
  | some u =>
    match sem_find t u.semid with
    | none => { t with undo := update t.undo i none }
    | some (j, s) =>
      { t with
        sem := update t.sem j (some (sem_undo_set h u s))
        undo := update t.undo i none }

def sem_free_set (t : SemTab) (i : Nat) (s : SemSet) : SemTab :=
  { t with
    sem := update t.sem i none
    undo := fun k => (t.undo k).filter fun u => u.semid ≠ s.semid }

/-- The state of `sem_try_op` between two operations: the live values, the undo
table, and the row once the first `SEM_UNDO` operation has looked it up. -/
structure TryState where
  val : Nat → Int
  undo : Table SemUndo
  row : Option Nat

/-- Why a vector stopped. -/
inductive TryStop where
  | block
  | error (e : Int)
  deriving DecidableEq

def row_adj (undo : Table SemUndo) (r n : Nat) : Int := ((undo r).map fun u => u.adj n).getD 0

def set_row_adj (undo : Table SemUndo) (r n : Nat) (v : Int) : Table SemUndo :=
  update undo r ((undo r).map fun u => { u with adj := update u.adj n v })

/-- The undo row of the vector: looked up, or made, at its first `SEM_UNDO`
operation. -/
def sem_try_row (h : Host) (pid semid : Int) (undo : Table SemUndo) : Option Nat → Table SemUndo × Option Nat
  | some r => (undo, some r)
  | none => sem_undo_find h undo pid semid

/-- One operation of a vector, on what the earlier ones left. -/
def sem_try_one (h : Host) (pid semid : Int) (st : TryState) (op : Sembuf) : TryState × Option TryStop :=
  let v := st.val op.sem_num + op.sem_op
  if (op.sem_op = 0 ∧ st.val op.sem_num ≠ 0) ∨ v < 0 then
    (st, some (if op.nowait then .error (-EAGAIN) else .block))
  else if G_SEMVMX < v then (st, some (.error (-ERANGE)))
  else if op.undo then
    match sem_try_row h pid semid st.undo st.row with
    | (undo, none) => ({ st with undo := undo }, some (.error (-ENOMEM)))
    | (undo, some r) =>
      let adj := row_adj undo r op.sem_num - op.sem_op
      if adj < -G_SEMAEM - 1 ∨ G_SEMAEM < adj then ({ st with undo := undo, row := some r }, some (.error (-ERANGE)))
      else
        ({ val := update st.val op.sem_num (to_u16 v)
           undo := set_row_adj undo r op.sem_num (to_s16 adj)
           row := some r }, none)
  else ({ st with val := update st.val op.sem_num (to_u16 v) }, none)

/-- The operations in order, up to the first that cannot proceed; with it, its
index. -/
def sem_try_loop (h : Host) (pid semid : Int) : List Sembuf → Nat → TryState → TryState × Option (Nat × TryStop)
  | [], _, st => (st, none)
  | op :: ops, i, st =>
    match sem_try_one h pid semid st op with
    | (st, some stop) => (st, some (i, stop))
    | (st, none) => sem_try_loop h pid semid ops (i + 1) st

/-- Takes one operation back. -/
def sem_back_one (op : Sembuf) (st : TryState) : TryState :=
  { st with
    val := update st.val op.sem_num (to_u16 (st.val op.sem_num - op.sem_op))
    undo :=
      match st.row with
      | some r =>
        if op.undo then set_row_adj st.undo r op.sem_num (to_s16 (row_adj st.undo r op.sem_num + op.sem_op))
        else st.undo
      | none => st.undo }

/-- The results of `sem_try_op`: 0, 1 with the index of the operation that blocks,
or an error. -/
inductive TryResult where
  | applied
  | block (blk : Nat)
  | error (e : Int)
  deriving DecidableEq

/-- A set with a vector committed: every semaphore it refers to is stamped with
the pid. -/
def sem_stamp (h : Host) (s : SemSet) (sops : List Sembuf) (pid : Int) (val : Nat → Int) : SemSet :=
  { s with
    val := val
    lpid := fun n => if sops.any (fun op => op.sem_num = n) then pid else s.lpid n
    otime := h.time
    tpid := pid }

/-- The vector, taken back whole when an operation stops it. -/
def sem_try_op (h : Host) (t : SemTab) (i : Nat) (s : SemSet) (sops : List Sembuf) (pid : Int) :
    SemTab × TryResult :=
  if sops.any (fun op => s.nsems ≤ op.sem_num) then (t, .error (-EFBIG))
  else
    match sem_try_loop h pid s.semid sops 0 ⟨s.val, t.undo, none⟩ with
    | (st, some (k, stop)) =>
      -- the applied prefix is rolled back from its last operation to its first
      let st := (sops.take k).foldr sem_back_one st
      ({ t with sem := update t.sem i (some { s with val := st.val }), undo := st.undo },
        match stop with
        | .block => .block k
        | .error e => .error e)
    | (st, none) =>
      ({ t with sem := update t.sem i (some (sem_stamp h s sops pid st.val)), undo := st.undo }, .applied)

structure GetFlags where
  creat : Bool
  excl : Bool
  mode : BitVec 32

/-- `semget`. -/
def sem_do_get (h : Host) (t : SemTab) (q : Caller) (key : Int) (nsems : Nat) (flg : GetFlags) : SemTab × Int :=
  let keyed := if key = 0 then none else find SEM_SET_MAX t.sem fun s => s.perm.key = key
  match keyed.bind fun i => (t.sem i).map fun s => (i, s) with
  | some (i, s) =>
    if flg.creat ∧ flg.excl then (t, -EEXIST)
    else if nsems ≠ 0 ∧ s.nsems < nsems then (t, -EINVAL)
    else if ¬ipc_access s.perm q 4#32 then (t, -EACCES)
    else ({ t with sem := update t.sem i (some { s with tpid := q.pid }) }, s.semid)
  | none =>
    if key ≠ 0 ∧ ¬flg.creat then (t, -ENOENT)
    else if nsems = 0 ∨ G_SEMMSL < nsems then (t, -EINVAL)
    else
      match free SEM_SET_MAX t.sem with
      | none => (t, -ENOSPC)
      | some slot =>
        match sem_alloc_id t with
        | (next, none) => ({ t with next_semid := next }, -ENOSPC)
        | (next, some id) =>
          let s : SemSet :=
            { semid := id, nsems := nsems, otime := 0, ctime := h.time, val := fun _ => 0, lpid := fun _ => 0
              perm := ⟨key, flg.mode &&& 0o777#32, q.uid, q.gid, q.uid, q.gid⟩, cpid := q.pid, tpid := q.pid }
          ({ t with sem := update t.sem slot (some s), next_semid := next }, id)

/-- The access a vector asks for: to alter the set, unless it only waits. -/
def semop_access (sops : List Sembuf) : BitVec 32 := if sops.any (fun op => op.sem_op ≠ 0) then 2#32 else 4#32

/-- The checks of `ipc_serve` on a `REQ_SEMOP`, and the first attempt. -/
def sem_serve_op (h : Host) (t : SemTab) (q : Caller) (semid : Int) (sops : List Sembuf) : SemTab × TryResult :=
  if sops.length = 0 then (t, .error (-EINVAL))
  else if G_SEMOPM < sops.length then (t, .error (-E2BIG))
  else
    match sem_find t semid with
    | none => (t, .error (-EINVAL))
    | some (i, s) =>
      if sops.any (fun op => s.nsems ≤ op.sem_num) then (t, .error (-EFBIG))
      else if ¬ipc_access s.perm q (semop_access sops) then (t, .error (-EACCES))
      else sem_try_op h t i s sops q.pid

/-- `SETVAL`: the value, with every adjustment of it cleared. -/
def sem_setval (h : Host) (t : SemTab) (q : Caller) (semid semnum val : Int) : SemTab × Int :=
  match sem_find t semid with
  | none => (t, -EINVAL)
  | some (i, s) =>
    if semnum < 0 ∨ (s.nsems : Int) ≤ semnum then (t, -EINVAL)
    else if ¬ipc_access s.perm q 2#32 then (t, -EACCES)
    else if val < 0 ∨ G_SEMVMX < val then (t, -ERANGE)
    else
      let n := semnum.toNat
      let s' : SemSet := { s with
        val := update s.val n (to_u16 val)
        lpid := update s.lpid n q.pid
        ctime := h.time
        tpid := q.pid }
      ({ t with sem := update t.sem i (some s'), undo := sem_undo_clear t s.semid (some n) }, 0)

/-- `SETALL`, likewise. -/
def sem_setall (h : Host) (t : SemTab) (q : Caller) (semid : Int) (vals : List Int) : SemTab × Int :=
  match sem_find t semid with
  | none => (t, -EINVAL)
  | some (i, s) =>
    if vals.length ≠ s.nsems then (t, -EINVAL)
    else if ¬ipc_access s.perm q 2#32 then (t, -EACCES)
    else if vals.any (fun v => G_SEMVMX < to_u16 v) then (t, -ERANGE)
    else
      let s' : SemSet := { s with
        val := fun n => if n < s.nsems then to_u16 (vals.getD n 0) else s.val n
        lpid := fun n => if n < s.nsems then q.pid else s.lpid n
        ctime := h.time
        tpid := q.pid }
      ({ t with sem := update t.sem i (some s'), undo := sem_undo_clear t s.semid none }, 0)

def sem_rmid (t : SemTab) (q : Caller) (semid : Int) : SemTab × Int :=
  match sem_find t semid with
  | none => (t, -EINVAL)
  | some (i, s) => if ipc_owner s.perm q then (sem_free_set t i s, 0) else (t, -EPERM)

def sem_apply_row (h : Host) (f : SemUndo → Bool) (t : SemTab) (i : Nat) : SemTab :=
  if (t.undo i).any f then sem_undo_apply h t i else t

/-- `sem_undo_apply` of every row that satisfies `f`, in the order of the table. -/
def sem_apply_rows (h : Host) (f : SemUndo → Bool) (t : SemTab) : SemTab :=
  (List.range SEM_UNDO_MAX).foldl (sem_apply_row h f) t

def sem_exit_pid (h : Host) (t : SemTab) (pid : Int) : SemTab := sem_apply_rows h (fun u => u.pid = pid) t

def sem_reclaim (h : Host) (t : SemTab) : SemTab := sem_apply_rows h (fun u => h.starttime u.pid ≠ u.start) t

end arm64emu
