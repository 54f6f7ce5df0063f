import Mathlib
import Arm64Emu.Mount.Binds

namespace arm64emu

def DT_DIR : Nat := 4

def DT_REG : Nat := 8

def DT_LNK : Nat := 10

/-- One entry of a directory. -/
structure Dent where
  ino : Nat
  type : Nat
  name : Path
  deriving DecidableEq, Repr

def dent_reclen (name : Path) : Nat := (19 + name.length + 1 + 7) / 8 * 8

def dents_size (ds : List Dent) : Nat := (ds.map fun d => dent_reclen d.name).sum

def isspace (c : Char) : Bool := [' ', '\t', '\n', '\x0b', '\x0c', '\r'].contains c

def skip_sign : Path → Path
  | '+' :: p => p
  | '-' :: p => p
  | p => p

def skip_number (p : Path) : Option Path :=
  let q := skip_sign (p.dropWhile isspace)
  if q.takeWhile Char.isDigit = [] then none else some (q.dropWhile Char.isDigit)

def digits_value (p : Path) : Nat := (p.takeWhile Char.isDigit).foldl (fun n c => n * 10 + (c.toNat - '0'.toNat)) 0

def atoi (p : Path) : Int :=
  let q := p.dropWhile isspace
  if q.head? = some '-' then -(digits_value (skip_sign q) : Int) else digits_value (skip_sign q)

def L2S_PREFIX : Path := ".l2s.".toList

def l2s_parse_data (name : Path) : Bool := L2S_PREFIX.isPrefixOf name && skip_number (name.drop 5) = some []

/-- Whether a name is `link2symlink`'s: its prefix and two numbers. -/
def l2s_parse_marker (name : Path) : Bool :=
  L2S_PREFIX.isPrefixOf name && (skip_number (name.drop 5)).any fun p =>
    p.head? = some '.' ∧ skip_number p.tail = some []

def l2s_hidden (name : Path) : Bool := l2s_parse_data name || l2s_parse_marker name

/-- `proc_keep_name`: a number is kept if it is a guest process, any other name
always. -/
def proc_keep_name (guest_pid : Nat → Bool) (name : Path) : Bool :=
  !name.all Char.isDigit || name = [] || 0x7fffffff < digits_value name || guest_pid (digits_value name)

/-- An open directory of the host: its entries in the order of its offsets, and what the host answers. A read returns
some of the records that fit, and `fstatat` may fail for a name that is there. -/
structure HostDir where
  ents : List Dent
  batch : Nat → Nat → Nat
  offset : Nat → Nat
  present : Path → Bool
  nodup : (ents.map Dent.name).Nodup
  dot : ['.'] ∈ ents.map Dent.name
  batch_fits : ∀ pos room, dents_size ((ents.drop pos).take (batch pos room)) ≤ room
  batch_pos : ∀ pos room d rest, ents.drop pos = d :: rest → dent_reclen d.name ≤ room → 0 < batch pos room
  offset_zero : ∀ pos, offset pos = 0 ↔ pos = 0
  present_mem : ∀ name, present name = true → name ∈ ents.map Dent.name

/-- What `getdents64` finds out about the directory it reads, and what the rest of the emulator knows of names and
processes. -/
structure DirView where
  link2symlink : Bool
  is_proc : Bool
  foreign : List Int
  gdir : Option Path
  via_bind : Bool
  no_dev : Bool
  member : Path → Bool
  guest_pid : Nat → Bool
  stat : Path → Option (Nat × Nat)
  lstat : Path → Option (Nat × Nat)
  foreign_pos : ∀ t ∈ foreign, 0 < t

variable (d : HostDir) (v : DirView) (tab : BindTab)

/-- As many whole entries as the buffer takes. -/
def host_getdents (room pos : Nat) : Except Int (List Dent) × Nat :=
  match d.ents.drop pos with
  | [] => (.ok [], pos)
  | e :: _ =>
    if room < dent_reclen e.name then (.error (-EINVAL), pos)
    else (.ok ((d.ents.drop pos).take (d.batch pos room)), pos + d.batch pos room)

/-- Whether the guest may see a host entry. -/
def keep_name (name : Path) : Bool :=
  !(v.link2symlink && l2s_hidden name) && !(v.is_proc && !proc_keep_name v.guest_pid name) &&
    !v.foreign.contains (atoi name)

/-- A name of a link group is a regular file to the guest. -/
def retype (e : Dent) : Dent :=
  if v.link2symlink = true ∧ e.type = DT_LNK ∧ v.member e.name = true then { e with type := DT_REG } else e

def keep_dents (ds : List Dent) : List Dent := (ds.filter fun e => keep_name v e.name).map (retype v)

/-- The filtered read: a batch that is filtered away whole is followed by another. -/
def read_kept (room pos : Nat) : Except Int (List Dent) × Nat :=
  match _ : d.ents.drop pos with
  | [] => (.ok [], pos)
  | e :: _ =>
    if _ : room < dent_reclen e.name then (.error (-EINVAL), pos)
    else
      let kept := keep_dents v ((d.ents.drop pos).take (d.batch pos room))
      if kept ≠ [] then (.ok kept, pos + d.batch pos room) else read_kept room (pos + d.batch pos room)
termination_by d.ents.length - pos
decreasing_by
  rename_i rest hdrop hroom _
  have hbatch := d.batch_pos pos room e rest hdrop (Nat.not_lt.1 hroom)
  have hlen := congrArg List.length hdrop
  rw [List.length_drop, List.length_cons] at hlen
  omega

def dents_filtered : Bool := v.is_proc || v.link2symlink || !v.foreign.isEmpty

def read_dents (room pos : Nat) : Except Int (List Dent) × Nat :=
  if dents_filtered v then read_kept d v room pos else host_getdents d room pos

/-- A record behind those of the buffer, if it fits; `dedup` looks for its name
among them first. -/
def inject_dent (dedup : Bool) (cap : Nat) (buf : List Dent) (e : Dent) : List Dent :=
  if dedup = true ∧ e.name ∈ buf.map Dent.name then buf
  else if cap < dents_size buf + dent_reclen e.name then buf
  else buf ++ [e]

def dev_nodes : List (Path × Path) :=
  [("null", "/dev/null"), ("zero", "/dev/zero"), ("full", "/dev/full"), ("random", "/dev/random"),
    ("urandom", "/dev/urandom"), ("tty", "/dev/tty"), ("ptmx", "/dev/ptmx"), ("console", "/dev/tty"),
    ("pts", "/dev/pts"), ("shm", "/dev/shm"), ("fd", "/proc/self/fd"), ("stdin", "/proc/self/fd/0"),
    ("stdout", "/proc/self/fd/1"), ("stderr", "/proc/self/fd/2")].map fun n => (n.1.toList, n.2.toList)

/-- The records of the device nodes the host has and the directory lacks. -/
def dev_dents : List Dent :=
  dev_nodes.filterMap fun n =>
    (v.lstat n.2).bind fun st => if d.present n.1 then none else some ⟨st.1, st.2, n.1⟩

def dev_inject_dents (cap : Nat) (buf : List Dent) : List Dent := (dev_dents d v).foldl (inject_dent false cap) buf

/-- A mount point as its parent and its last component, if it has one. -/
def split_mount (guest : Path) : Option (Path × Path) :=
  let base := (guest.reverse.takeWhile (· ≠ '/')).reverse
  let parent := guest.take (guest.length - base.length - 1)
  if '/' ∉ guest ∨ base = [] then none else some (if parent = [] then ['/'] else parent, base)

/-- The record of the mount in a slot, if its mount point is a child of the directory
that the directory lacks. -/
def bind_dent (dir : Path) (i : Nat) : Option Dent :=
  (tab.slots i).bind fun b =>
    (split_mount b.guest).bind fun p =>
      if p.1 ≠ dir ∨ d.present p.2 = true then none
      else
        let st := (v.stat b.host).getD (0, DT_DIR)
        some ⟨if st.1 = 0 then 0xffffffff - i else st.1, st.2, p.2⟩

def bind_inject_dents (dir : Path) (cap : Nat) (buf : List Dent) : List Dent :=
  ((List.range (bind_count tab)).filterMap (bind_dent d v tab dir)).foldl (inject_dent true cap) buf

def inject_dev : Bool := v.gdir = some "/dev".toList && !v.via_bind && !v.no_dev

/-- The entries without a dirent, put into the first read of their directory. -/
def inject_dents (cap : Nat) (buf : List Dent) : List Dent :=
  let buf := if inject_dev v then dev_inject_dents d v cap buf else buf
  (v.gdir.map fun dir => bind_inject_dents d v tab dir cap buf).getD buf

/-- A call: its count, as much of the guest's buffer as is mapped, and whether there
is memory for a buffer. -/
structure DentsCall where
  count : Nat
  mapped : Nat
  malloc : Bool

def DentsCall.len (c : DentsCall) : Nat := min (c.count % 2 ^ 32) (2 ^ 20)

def DentsCall.room (c : DentsCall) : Nat := min c.len c.mapped

/-- `getdents64` at a place of the directory: the records for the guest, and the
place after it. -/
def getdents64 (c : DentsCall) (pos : Nat) : Except Int (List Dent) × Nat :=
  if c.len ≠ 0 ∧ c.room = 0 then (.error (-EFAULT), pos)
  else if c.malloc = false then (.error (-ENOMEM), pos)
  else
    match read_dents d v c.room pos with
    | (.error e, pos') => (.error (if e = -EINVAL ∧ c.room < c.len then -EFAULT else e), pos')
    | (.ok buf, pos') =>
      (.ok (if d.offset pos = 0 ∧ buf ≠ [] then inject_dents d v tab c.room buf else buf), pos')

/-- The records of the calls from a place on, up to the one that returns none; there
is no such listing if a call fails or none returns 0. -/
def listing (pos : Nat) : List DentsCall → Option (List Dent)
  | [] => none
  | c :: cs =>
    match getdents64 d v tab c pos with
    | (.error _, _) => none
    | (.ok [], _) => some []
    | (.ok (e :: es), pos') => (listing pos' cs).map fun ds => e :: es ++ ds

end arm64emu
