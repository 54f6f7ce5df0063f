import Mathlib
import Arm64Emu.Core.Errno
import Arm64Emu.Lib.Slots
import Arm64Emu.Lib.Steps

open transition

namespace arm64emu

abbrev Path := List Char

def PATH_MAX : Nat := 4096
def BIND_MAX : Nat := 64

/-- `strncmp` with the whole of `pre`, ending at a component boundary of `path`. -/
def path_under (pre path : Path) : Bool :=
  pre.isPrefixOf path && match path.drop pre.length with
    | [] => true
    | c :: _ => c == '/'

section table

/-- A mount: its guest mount point, its host source, whether it is read-only, the
`BIND_LOCKED` and `BIND_LOCK_RO` bits and its place in the mount order. -/
structure Bind where
  guest : Path
  host : Path
  ro : Bool
  locked : Bool
  lock_ro : Bool
  seq : Nat
  deriving DecidableEq, Repr

/-- The binds: their slots, how many there are, and the last number given. -/
structure BindTab where
  slots : Nat → Option Bind
  g_nbinds : Nat
  g_bindseq : Nat

def BindTab.empty : BindTab := { slots := fun _ => none, g_nbinds := 0, g_bindseq := 0 }

/-- The scan of the bind readers: of the slots that are candidates, the longest and on a tie the topmost. -/
def bind_scan (cand : Nat → Option (Nat × Nat)) : Nat → Option (Nat × Nat × Nat)
  | 0 => none
  | n + 1 =>
    match cand n, bind_scan cand n with
    | none, best => best
    | some (len, sq), none => some (n, len, sq)
    | some (len, sq), some (best, bestlen, bestseq) =>
      if len > bestlen ∨ (len = bestlen ∧ sq > bestseq) then some (n, len, sq) else some (best, bestlen, bestseq)

variable (tab : BindTab)

/-- The bind of the longest guest path above the name; of two, the later. -/
def bind_best (canon : Path) : Option Nat :=
  (bind_scan (fun i => (tab.slots i).bind fun b =>
    if path_under b.guest canon then some (b.guest.length, b.seq) else none) tab.g_nbinds).map Prod.fst

def bind_slot_of_canon (canon : Path) : Option Nat := bind_best tab canon

/-- The bind a host path lies under. -/
def bind_of_host (hostpath : Path) : Option Nat :=
  (bind_scan (fun i => (tab.slots i).bind fun b =>
    if path_under b.host hostpath then some (b.host.length, b.seq) else none) tab.g_nbinds).map Prod.fst

def bind_top_at (guest_canon : Path) : Option Nat :=
  (bind_scan (fun i => (tab.slots i).bind fun b =>
    if b.guest = guest_canon then some (b.guest.length, b.seq) else none) tab.g_nbinds).map Prod.fst

def bind_ro (i : Nat) : Bool := ((tab.slots i).map Bind.ro).getD false

def bind_lock_ro (i : Nat) : Bool := ((tab.slots i).map Bind.lock_ro).getD false

def bind_count : Nat := tab.g_nbinds

def bind_free : Option Nat := (List.range BIND_MAX).find? fun i => (tab.slots i).isNone

/-- Adds a bind, or fails when the table is full. -/
def bind_add (guest_canon host : Path) (ro locked lock_ro : Bool) : BindTab × Int :=
  if guest_canon.length + 1 > PATH_MAX ∨ host.length + 1 > PATH_MAX then (tab, -ENAMETOOLONG)
  else
    match bind_free tab with
    | none => (tab, -ENOMEM)
    | some i =>
      let seq := (tab.g_bindseq + 1) % 2 ^ 32
      ({ slots := Function.update tab.slots i (some { guest := guest_canon, host, ro, locked, lock_ro, seq })
         g_nbinds := max tab.g_nbinds (i + 1)
         g_bindseq := seq }, i)

/-- Makes the topmost bind at a path read-only or not. -/
def bind_remount (guest_canon : Path) (ro : Bool) : BindTab × Int :=
  match bind_top_at tab guest_canon with
  | none => (tab, -EINVAL)
  | some i =>
    if !ro && bind_lock_ro tab i then (tab, -EPERM)
    else ({ tab with slots := Function.update tab.slots i ((tab.slots i).map fun b => { b with ro }) }, 0)

/-- Removes the topmost bind at a path. -/
def bind_remove (guest_canon : Path) : BindTab × Int :=
  match bind_top_at tab guest_canon with
  | none => (tab, -EINVAL)
  | some i =>
    if ((tab.slots i).map Bind.locked).getD false then (tab, -EINVAL)
    else ({ tab with slots := Function.update tab.slots i none }, 0)

end table

/-- What the mount calls and the walk read of the machine. `guest_task` says which numbers are those of the process
itself or of a task of the guest's. -/
structure Machine where
  rootfs : Path
  fake_root : Bool
  no_proc : Bool
  no_dev : Bool
  guest_task : Nat → Bool

/-- The device nodes that are the host's. -/
def devok : List Path :=
  ["/dev/null", "/dev/zero", "/dev/full", "/dev/random", "/dev/urandom", "/dev/tty", "/dev/ptmx"].map String.toList

/-- A `/proc/<pid>` of no guest task, which the guest does not see. -/
def hidden_pid (m : Machine) (canon : Path) : Bool :=
  let name := (canon.drop 6).takeWhile (· != '/')
  let pid : Nat := name.foldl (fun pid c => pid * 10 + (c.toNat - 48)) 0
  !name.isEmpty && name.all Char.isDigit && decide (pid ≤ 0x7fffffff) && !m.guest_task pid

/-- The host path of a canonical path in the special zones: the host's devices and its `/proc`. -/
def Machine.special_host_path (m : Machine) (canon : Path) : Option Path :=
  if m.no_dev = false ∧ path_under "/dev".toList canon then
    if devok.contains canon then some canon
    else if canon = "/dev/console".toList then some "/dev/tty".toList
    else if path_under "/dev/pts".toList canon ∨ path_under "/dev/shm".toList canon then some canon
    else if path_under "/dev/fd".toList canon then
      if 13 + (canon.length - 7) + 1 > PATH_MAX then none else some ("/proc/self/fd".toList ++ canon.drop 7)
    else if canon = "/dev/stdin".toList then some "/proc/self/fd/0".toList
    else if canon = "/dev/stdout".toList then some "/proc/self/fd/1".toList
    else if canon = "/dev/stderr".toList then some "/proc/self/fd/2".toList
    else none
  else if m.no_proc = false ∧ path_under "/proc".toList canon then
    if hidden_pid m canon then none else some canon
  else none

/-- The table and the root. -/
structure MountState where
  tab : BindTab
  chroot_base : Path

def to_host (m : Machine) (canon : Path) : Except Int Path :=
  if m.rootfs.length + canon.length + 1 > PATH_MAX then .error (-ENAMETOOLONG)
  else
    let host := if canon.length = 1 then m.rootfs else m.rootfs ++ canon
    .ok (if host = [] then ['/'] else host)

def join_host (host rem : Path) : Except Int Path :=
  if host.length + rem.length + 1 > PATH_MAX then .error (-ENAMETOOLONG) else .ok (host ++ rem)

/-- A bind whose target is back inside the rootfs is looked up in the special
zones by its path there. -/
def rootfs_zone (m : Machine) (host : Path) : Path :=
  if m.rootfs.length ≠ 0 ∧ path_under m.rootfs host then
    let tail := if host.length = m.rootfs.length then ['/'] else host.drop m.rootfs.length
    (m.special_host_path tail).getD host
  else host

/-- The host path of a canonical guest path. -/
def canon_to_host (m : Machine) (tab : BindTab) (canon : Path) : Except Int Path :=
  match (bind_best tab canon).bind tab.slots with
  | some b => (join_host b.host (canon.drop b.guest.length)).map (rootfs_zone m)
  | none =>
    match m.special_host_path canon with
    | some zone => .ok zone
    | none => to_host m canon

def proc_zone_path (host : Path) : Bool := path_under "/proc".toList host

/-- Whether a mutating call on a host path is refused as on a read-only mount.
`readlink` is the host's. -/
def host_ro (tab : BindTab) (readlink : Path → Option Path) (host : Path) : Bool :=
  if bind_count tab = 0 then false
  else
    let judge (host : Path) : Bool := ((bind_of_host tab host).map (bind_ro tab)).getD false
    if proc_zone_path host then
      match readlink host with
      | some (c :: tgt) => if c = '/' then judge (c :: tgt) else false
      | _ => false
    else judge host

def G_MS_RDONLY : BitVec 64 := 0x0001
def G_MS_REMOUNT : BitVec 64 := 0x0020
def G_MS_BIND : BitVec 64 := 0x1000
def G_MS_MOVE : BitVec 64 := 0x2000
def G_MS_UNBINDABLE : BitVec 64 := 0x20000
def G_MS_PRIVATE : BitVec 64 := 0x40000
def G_MS_SLAVE : BitVec 64 := 0x80000
def G_MS_SHARED : BitVec 64 := 0x100000
def G_MS_MGC_VAL : BitVec 64 := 0xC0ED0000
def G_MS_MGC_MSK : BitVec 64 := 0xFFFF0000

/-- The arguments of `mount`, with what the host says of them. -/
structure MountReq where
  target : Except Int (Path × Bool)
  source : Except Int (Path × Path)
  fstype : Option String
  flags : BitVec 64
  backing : Except Int Path

def MountReq.has (flags bit : BitVec 64) : Bool := flags &&& bit != 0

def mount_flags (flags : BitVec 64) : BitVec 64 :=
  if flags &&& G_MS_MGC_MSK = G_MS_MGC_VAL then flags &&& ~~~G_MS_MGC_MSK else flags

def mount_zone (m : Machine) (fstype : String) : Option Path :=
  if fstype = "proc" ∧ m.no_proc = false then some "/proc".toList
  else if fstype = "devpts" ∧ m.no_dev = false then some "/dev/pts".toList
  else none

/-- A new bind mount: a clone of the one its source lies on. -/
def mount_bind (tab : BindTab) (tcanon scanon shost : Path) (rdonly : Bool) : BindTab × Int :=
  let sslot := bind_slot_of_canon tab scanon
  let sro := (sslot.map (bind_ro tab)).getD false
  let slock := (sslot.map (bind_lock_ro tab)).getD false
  bind_add tab tcanon shost (sro || rdonly) false slock

/-- `mount`, by its flags. -/
def mount (m : Machine) (tab : BindTab) (req : MountReq) : BindTab × Int :=
  match req.target with
  | .error e => (tab, e)
  | .ok (tcanon, tisdir) =>
    let flags := mount_flags req.flags
    if MountReq.has flags (1 <<< 31) then (tab, -EINVAL)
    else if m.fake_root = false then (tab, -EPERM)
    else if MountReq.has flags G_MS_REMOUNT then bind_remount tab tcanon (MountReq.has flags G_MS_RDONLY)
    else if MountReq.has flags G_MS_BIND then
      match req.source with
      | .error e => (tab, e)
      | .ok (scanon, shost) => mount_bind tab tcanon scanon shost (MountReq.has flags G_MS_RDONLY)
    else if MountReq.has flags (G_MS_PRIVATE ||| G_MS_SLAVE ||| G_MS_SHARED ||| G_MS_UNBINDABLE) then (tab, 0)
    else if MountReq.has flags G_MS_MOVE then (tab, -EINVAL)
    else
      match req.fstype with
      | none => (tab, -EINVAL)
      | some fstype =>
        if fstype = "tmpfs" ∨ fstype = "ramfs" then
          if tisdir = false then (tab, -ENOTDIR)
          else
            match req.backing with
            | .error e => (tab, e)
            | .ok backing => bind_add tab tcanon backing (MountReq.has flags G_MS_RDONLY) false false
        else
          match mount_zone m fstype with
          | some zone => if tisdir = false then (tab, -ENOTDIR) else bind_add tab tcanon zone false false false
          | none => (tab, -EPERM)

def put_old_under (ncanon ocanon : Path) : Bool :=
  ncanon.isPrefixOf ocanon && (path_under ncanon ocanon || ncanon.length == 1)

/-- `pivot_root`. -/
def pivot_root (m : Machine) (s : MountState) (ncanon ocanon : Path) : MountState × Int :=
  if m.fake_root = false then (s, -EPERM)
  else if put_old_under ncanon ocanon = false then (s, -EINVAL)
  else
    match canon_to_host m s.tab s.chroot_base with
    | .error e => (s, e)
    | .ok roothost =>
      let (tab, r) := bind_add s.tab ocanon roothost false false false
      if r < 0 then ({ s with tab }, r) else ({ tab, chroot_base := ncanon }, 0)

/-- The calls that change the table. -/
inductive MountCall where
  | mount (req : MountReq)
  | umount (canon : Path)
  | chroot (canon : Path)
  | pivot_root (ncanon ocanon : Path)

/-- One call. -/
def mount_call (m : Machine) (s : MountState) : MountCall → MountState
  | .mount req => { s with tab := (mount m s.tab req).1 }
  | .umount canon => if m.fake_root then { s with tab := (bind_remove s.tab canon).1 } else s
  | .chroot canon => if m.fake_root then { s with chroot_base := canon } else s
  | .pivot_root ncanon ocanon => (pivot_root m s ncanon ocanon).1

def MountStep (m : Machine) (s : MountState) (call : MountCall) (s' : MountState) : Prop := s' = mount_call m s call

structure CliBind where
  host : Path
  guest : Path
  ro : Bool

/-- The table of the command line's binds, the last of them first in the list. They
are locked, and none is made if one of them cannot be registered. -/
def add_binds : List CliBind → Option BindTab
  | [] => some .empty
  | b :: bs => do
    let tab ← add_binds bs
    if b.host = ['/'] ∨ b.guest = ['/'] then none
    else
      let (tab, r) := bind_add tab b.guest b.host b.ro true b.ro
      if r < 0 then none else some tab

end arm64emu
