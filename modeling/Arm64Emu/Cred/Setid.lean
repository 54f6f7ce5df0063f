import Mathlib
import Arm64Emu.Net.Cmsg
import Arm64Emu.Lib.LinuxIds

namespace arm64emu

def ID_KEEP : u32 := 0xffffffff#32

def S_ISUID : u32 := 0o4000#32
def S_ISGID : u32 := 0o2000#32
def S_IXGRP : u32 := 0o0010#32

/-- The ids of a process that the guest is shown. -/
structure Cred where
  ruid : u32
  euid : u32
  suid : u32
  fsuid : u32
  rgid : u32
  egid : u32
  sgid : u32
  fsgid : u32
  deriving DecidableEq

def Cred.uids (cr : Cred) : linux.Ids u32 := ⟨cr.ruid, cr.euid, cr.suid, cr.fsuid⟩

def Cred.gids (cr : Cred) : linux.Ids u32 := ⟨cr.rgid, cr.egid, cr.sgid, cr.fsgid⟩

def Cred.with_uids (cr : Cred) (c : linux.Ids u32) : Cred :=
  { cr with ruid := c.real, euid := c.eff, suid := c.saved, fsuid := c.fs }

def Cred.with_gids (cr : Cred) (c : linux.Ids u32) : Cred :=
  { cr with rgid := c.real, egid := c.eff, sgid := c.saved, fsgid := c.fs }

def cred_priv (cr : Cred) : Bool := cr.euid = 0#32

def in_uset (cr : Cred) (v : u32) : Bool := v = cr.ruid || v = cr.euid || v = cr.suid

def in_gset (cr : Cred) (v : u32) : Bool := v = cr.rgid || v = cr.egid || v = cr.sgid

section bodies

variable (priv : Bool) (nc : linux.Ids u32)

/-- The body of `setuid` and `setgid`: the ids to be, and the answer. -/
def setid_body (u : u32) : linux.Ids u32 × Int :=
  if priv then (⟨u, u, u, u⟩, 0)
  else if u = nc.real ∨ u = nc.saved then ({ nc with eff := u, fs := u }, 0)
  else (nc, - EPERM)

/-- `setreuid` and `setregid` on one kind of id. -/
def setreid_body (ru eu : u32) : linux.Ids u32 × Int :=
  let old := nc
  let r : Int := 0
  let r := if ru ≠ ID_KEEP ∧ !priv ∧ ru ≠ old.real ∧ ru ≠ old.eff then - EPERM else r
  let nc := if ru ≠ ID_KEEP then { nc with real := ru } else nc
  let r := if eu ≠ ID_KEEP ∧ !priv ∧ eu ≠ old.real ∧ eu ≠ old.eff ∧ eu ≠ old.saved then - EPERM else r
  let nc := if eu ≠ ID_KEEP then { nc with eff := eu } else nc
  let nc := if ru ≠ ID_KEEP ∨ (eu ≠ ID_KEEP ∧ eu ≠ old.real) then { nc with saved := nc.eff } else nc
  ({ nc with fs := nc.eff }, r)

/-- `setresuid` and `setresgid` on one kind of id. -/
def setresid_body (in_set : u32 → Bool) (ru eu su : u32) : linux.Ids u32 × Int :=
  let r : Int := if !priv ∧ ((ru ≠ ID_KEEP ∧ !in_set ru) ∨ (eu ≠ ID_KEEP ∧ !in_set eu) ∨
    (su ≠ ID_KEEP ∧ !in_set su)) then - EPERM else 0
  let nc := if ru ≠ ID_KEEP then { nc with real := ru } else nc
  let nc := if eu ≠ ID_KEEP then { nc with eff := eu } else nc
  let nc := if su ≠ ID_KEEP then { nc with saved := su } else nc
  ({ nc with fs := nc.eff }, r)

/-- `setfsuid` and `setfsgid`, which report no error. -/
def setfsid_body (u : u32) : linux.Ids u32 :=
  if u ≠ ID_KEEP ∧ (priv ∨ u = nc.real ∨ u = nc.eff ∨ u = nc.saved ∨ u = nc.fs) then { nc with fs := u } else nc

end bodies

/-- The credentials of a process, and the real uid it has published. -/
structure Ident where
  cred : Cred
  ruid_set : u32

/-- `CRED_UPDATE`: the copy is written back unless the call is refused. -/
def cred_update (i : Ident) (nc : Cred) (r : Int) : Ident × Int :=
  (if r = 0 then ⟨nc, nc.ruid⟩ else i, r)

def cred_update_uids (i : Ident) (out : linux.Ids u32 × Int) : Ident × Int :=
  cred_update i (i.cred.with_uids out.1) out.2

def cred_update_gids (i : Ident) (out : linux.Ids u32 × Int) : Ident × Int :=
  cred_update i (i.cred.with_gids out.1) out.2

section calls

variable (i : Ident) (a0 a1 a2 : u64)

def setuid : Ident × Int :=
  cred_update_uids i (setid_body (cred_priv i.cred) i.cred.uids (a0.setWidth 32))

def setgid : Ident × Int :=
  cred_update_gids i (setid_body (cred_priv i.cred) i.cred.gids (a0.setWidth 32))

def setreuid : Ident × Int :=
  cred_update_uids i (setreid_body (cred_priv i.cred) i.cred.uids (a0.setWidth 32) (a1.setWidth 32))

def setregid : Ident × Int :=
  cred_update_gids i (setreid_body (cred_priv i.cred) i.cred.gids (a0.setWidth 32) (a1.setWidth 32))

def setresuid : Ident × Int :=
  cred_update_uids i
    (setresid_body (cred_priv i.cred) i.cred.uids (in_uset i.cred) (a0.setWidth 32) (a1.setWidth 32) (a2.setWidth 32))

def setresgid : Ident × Int :=
  cred_update_gids i
    (setresid_body (cred_priv i.cred) i.cred.gids (in_gset i.cred) (a0.setWidth 32) (a1.setWidth 32) (a2.setWidth 32))

def setfsuid : Ident × Int :=
  ({ i with cred := i.cred.with_uids (setfsid_body (cred_priv i.cred) i.cred.uids (a0.setWidth 32)) },
    i.cred.fsuid.toNat)

def setfsgid : Ident × Int :=
  ({ i with cred := i.cred.with_gids (setfsid_body (cred_priv i.cred) i.cred.gids (a0.setWidth 32)) },
    i.cred.fsgid.toNat)

end calls

/-- What an exec reads of the image: its mode and its owners. -/
structure ImgSt where
  st_mode : u32
  st_uid : u32
  st_gid : u32

section exec

variable (m : NetIds) (no_new_privs : Bool) (img_st : ImgSt)

def setid_uid : Bool := !no_new_privs && decide (img_st.st_mode &&& S_ISUID ≠ 0#32)

def setid_gid : Bool :=
  !no_new_privs && decide (img_st.st_mode &&& (S_ISGID ||| S_IXGRP) = S_ISGID ||| S_IXGRP)

/-- The ids in `do_execve`. `dt` is the answer of `dethread_begin`, the last that can
refuse the exec; the ids are raised past it. -/
def do_execve (i : Ident) (dt : Int) : Ident × Int :=
  let raise_uid := m.fake_id && setid_uid no_new_privs img_st
  let raise_gid := m.fake_id && setid_gid no_new_privs img_st
  let new_euid := remap_uid m img_st.st_uid
  let new_egid := remap_gid m img_st.st_gid
  if dt < 0 then (i, dt)
  else
    let cr := i.cred
    let cr := if raise_uid then { cr with euid := new_euid, suid := new_euid, fsuid := new_euid } else cr
    let cr := if raise_gid then { cr with egid := new_egid, sgid := new_egid, fsgid := new_egid } else cr
    ({ i with cred := cr }, 0)

end exec

/-- The calls that set ids, and exec. -/
inductive IdCall where
  | setuid (a0 : u64)
  | setgid (a0 : u64)
  | setreuid (a0 a1 : u64)
  | setregid (a0 a1 : u64)
  | setresuid (a0 a1 a2 : u64)
  | setresgid (a0 a1 a2 : u64)
  | setfsuid (a0 : u64)
  | setfsgid (a0 : u64)
  | execve (no_new_privs : Bool) (img_st : ImgSt) (dt : Int)

/-- One call, with its result. -/
def id_call (m : NetIds) (i : Ident) : IdCall → Ident × Int
  | .setuid a0 => setuid i a0
  | .setgid a0 => setgid i a0
  | .setreuid a0 a1 => setreuid i a0 a1
  | .setregid a0 a1 => setregid i a0 a1
  | .setresuid a0 a1 a2 => setresuid i a0 a1 a2
  | .setresgid a0 a1 a2 => setresgid i a0 a1 a2
  | .setfsuid a0 => setfsuid i a0
  | .setfsgid a0 => setfsgid i a0
  | .execve nnp img dt => do_execve m nnp img i dt

end arm64emu
