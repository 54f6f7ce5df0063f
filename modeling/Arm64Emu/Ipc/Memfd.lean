import Mathlib
import Arm64Emu.Core.Types
import Arm64Emu.Ipc.Sem
import Arm64Emu.Lib.Bytes
import Arm64Emu.Lib.Holders
import Arm64Emu.Lib.KeyTab
import Arm64Emu.Lib.Steps

namespace arm64emu

open Function

open transition bytes

def MFD_TAB_MAX : Nat := 256
def MFD_WR_TRACK : Nat := 32
def MFD_HOLD_TRACK : Nat := 32
def MFD_NAME_MAX : Nat := 80

def F_SEAL_SEAL : u32 := 0x1#32
def F_SEAL_WRITE : u32 := 0x8#32

abbrev FileId := u64 × u64

/-- An entry of the memfd registry, with the writable mappings by process. A holder's
row has no count. -/
structure MfdEntry where
  used : Bool
  file : FileId
  seals : u32
  fd : Int
  name : List Byte
  wr : List (holders.Row Int Nat)
  hold : List (holders.Row Int Nat)
  mode : u32
  has_mode : Bool
  tier : Bool

def MfdEntry.zero : MfdEntry := ⟨false, (0#64, 0#64), 0#32, 0, [], [], [], 0#32, false, false⟩

abbrev MfdTab := Nat → MfdEntry

section entries

variable (h : Host) (g : MfdTab)

def mfd_find (f : FileId) : Option Nat := (List.range MFD_TAB_MAX).find? fun i => (g i).used && (g i).file == f

def mfd_free : Option Nat := (List.range MFD_TAB_MAX).find? fun i => !(g i).used

def mfd_hold_reclaim (e : MfdEntry) : MfdEntry := { e with hold := holders.reclaim h.starttime e.hold 0 }

/-- The caller as a holder; one of a reused pid is stamped anew. -/
def mfd_hold_add (e : MfdEntry) (pid : Int) : MfdEntry :=
  if pid ≤ 0 then e
  else match e.hold.findIdx? fun r => r.key = pid with
    -- a reused pid is stamped again
    | some i => { e with hold := e.hold.modify i fun r => { r with stamp := h.starttime pid } }
    | none =>
      let e := if e.hold.length = MFD_HOLD_TRACK then mfd_hold_reclaim h e else e
      if e.hold.length = MFD_HOLD_TRACK then e
      else { e with hold := e.hold ++ [⟨pid, h.starttime pid, 0⟩] }

def mfd_wr_reclaim (e : MfdEntry) : MfdEntry := { e with wr := holders.reclaim h.starttime e.wr 0 }

/-- `mfd_do_seal` of an entry: nothing more once it is sealed against sealing, and no `F_SEAL_WRITE` while a process
has a writable mapping. -/
def mfd_seal (e : MfdEntry) (val : u32) : MfdEntry × Int :=
  let mask := val &&& 0x3f#32
  if e.seals &&& F_SEAL_SEAL ≠ 0#32 then (e, - EPERM)
  else if mask &&& F_SEAL_WRITE ≠ 0#32 then
    let e := mfd_wr_reclaim h e
    if e.wr.any (fun r => r.n ≠ 0) then (e, - EBUSY) else ({ e with seals := e.seals ||| mask }, 0)
  else ({ e with seals := e.seals ||| mask }, 0)

/-- `mfd_do_map` of one more mapping: rows of the dead make room in a full table. -/
def mfd_map (e : MfdEntry) (pid : Int) : MfdEntry :=
  let e := if (∀ r ∈ e.wr, r.key ≠ pid) ∧ e.wr.length = MFD_WR_TRACK then mfd_wr_reclaim h e else e
  { e with wr := holders.add MFD_WR_TRACK pid (h.starttime pid) e.wr }

def mfd_unmap (e : MfdEntry) (pid : Int) : MfdEntry := { e with wr := holders.del pid e.wr }

/-- The daemon's idle check, which drops the holders that are gone. -/
def mfd_any_live : MfdTab × Bool :=
  let g' : MfdTab := fun i => if i < MFD_TAB_MAX ∧ (g i).used then mfd_hold_reclaim h (g i) else g i
  (g', (List.range MFD_TAB_MAX).any fun i => (g' i).used && !(g' i).hold.isEmpty)

end entries

section requests

variable (h : Host) (g : MfdTab)

/-- The name a registration is given, cut to what an entry has room for. -/
def mfd_reg_name (size : Nat) (name : Option (List Byte)) : List Byte :=
  if 0 < size then (name.getD []).take (min size (MFD_NAME_MAX - 1)) else []

/-- `mfd_do_reg`. `name` is what is read of the connection, `st` the file behind the descriptor sent, if `fstat`
answers, and `pin` the `dup` of it. -/
def mfd_do_reg (pid : Int) (size : Nat) (val : u32) (name : Option (List Byte)) (st : Option FileId)
    (pin : Option Int) : MfdTab × Int :=
  if 0 < size ∧ name = none then (g, - EINVAL)
  else match st with
    | none => (g, - EINVAL)
    | some f => match (mfd_find g f).or (mfd_free g) with
      | none => (g, - ENFILE)
      | some i => match pin with
        | none => (update g i .zero, - EMFILE)
        | some fd =>
          (update g i (mfd_hold_add h { MfdEntry.zero with
            used := true
            tier := true
            file := f
            seals := val
            fd := fd
            name := mfd_reg_name size name } pid), 0)

/-- The seals of a file. -/
def mfd_do_look (pid : Int) (f : FileId) : MfdTab × Int :=
  match mfd_find g f with
  | none => (g, - ENOENT)
  | some i =>
    if (g i).tier then (update g i (mfd_hold_add h (g i) pid), (g i).seals.toInt) else (g, - ENOENT)

/-- Adds seals, with the refusals of `mfd_seal`. -/
def mfd_do_seal (f : FileId) (val : u32) : MfdTab × Int :=
  match mfd_find g f with
  | none => (g, - EINVAL)
  | some i => if (g i).tier then (update g i (mfd_seal h (g i) val).1, (mfd_seal h (g i) val).2) else (g, - EINVAL)

/-- A shared writable mapping comes or goes. -/
def mfd_do_map (pid : Int) (f : FileId) (val : Int) : MfdTab × Int :=
  match mfd_find g f with
  | none => (g, 0)
  | some i =>
    if (g i).tier then (update g i (if 0 < val then mfd_map h (g i) pid else mfd_unmap (g i) pid), 0) else (g, 0)

def mfd_do_mode_get (f : FileId) : MfdTab × Int :=
  match mfd_find g f with
  | none => (g, - ENOENT)
  | some i => if (g i).has_mode then (g, (g i).mode.toInt) else (g, - ENOENT)

/-- The end of `mfd_do_mode`: entry `e` of slot `i` holds the mode. -/
def mfd_hold_mode (pid : Int) (val : u32) (i : Nat) (e : MfdEntry) : MfdTab × Int :=
  (update g i (mfd_hold_add h { e with mode := val &&& 0o7777#32, has_mode := true } pid), 0)

def mfd_do_mode_set (pid : Int) (val : u32) (st : Option FileId) (pin : Option Int) : MfdTab × Int :=
  match st with
  | none => (g, - EINVAL)
  | some f => match mfd_find g f with
    | some i => mfd_hold_mode h g pid val i (g i)
    | none => match mfd_free g with
      | none => (g, - ENFILE)
      | some i => match pin with
        | none => (g, - EMFILE)
        | some fd => mfd_hold_mode h g pid val i { MfdEntry.zero with used := true, file := f, fd := fd }

end requests

/-- A request about a memfd. -/
inductive MfdReq where
  | reg (pid : Int) (size : Nat) (val : u32) (name : Option (List Byte)) (st : Option FileId) (pin : Option Int)
  | look (pid : Int) (f : FileId)
  | add_seal (f : FileId) (val : u32)
  | map (pid : Int) (f : FileId) (val : Int)
  | mode_get (f : FileId)
  | mode_set (pid : Int) (val : u32) (st : Option FileId) (pin : Option Int)
  | idle

/-- One request, with its answer. -/
def mfd_serve (h : Host) (g : MfdTab) : MfdReq → MfdTab × Int
  | .reg pid size val name st pin => mfd_do_reg h g pid size val name st pin
  | .look pid f => mfd_do_look h g pid f
  | .add_seal f val => mfd_do_seal h g f val
  | .map pid f val => mfd_do_map h g pid f val
  | .mode_get f => mfd_do_mode_get g f
  | .mode_set pid val st pin => mfd_do_mode_set h g pid val st pin
  | .idle => ((mfd_any_live h g).1, 0)

def MfdTab.empty : MfdTab := fun _ => .zero

def MfdStep (g : MfdTab) (a : Host × MfdReq) (g' : MfdTab) : Prop := (mfd_serve a.1 g a.2).1 = g'

end arm64emu
