import Mathlib
import Arm64Emu.Core.Errno
import Arm64Emu.Core.Types
import Arm64Emu.Lib.Bytes

open bytes

namespace arm64emu

/-- The layout of the host's control messages. -/
inductive HostAbi where
  | lp64
  | ilp32
  deriving DecidableEq, Repr

/-- `sizeof(size_t)`, the unit `CMSG_ALIGN` rounds to and the width of
`cmsg_len`. -/
def HostAbi.word : HostAbi → Nat
  | .lp64 => 8
  | .ilp32 => 4

/-- `sizeof(struct cmsghdr)`: the length, the level and the type. -/
def HostAbi.cmsghdr : HostAbi → Nat
  | .lp64 => 16
  | .ilp32 => 12

def CMSG_ALIGN (abi : HostAbi) (n : Nat) : Nat := (n + (abi.word - 1)) / abi.word * abi.word

def CMSG_LEN (abi : HostAbi) (n : Nat) : Nat := CMSG_ALIGN abi abi.cmsghdr + n

def GCMSG_HDRLEN : Nat := 16

def GCMSG_ALIGN (n : Nat) : Nat := (n + 7) / 8 * 8

theorem le_CMSG_ALIGN (abi : HostAbi) (n : Nat) : n ≤ CMSG_ALIGN abi n := by
  cases abi <;> simp only [CMSG_ALIGN, HostAbi.word] <;> omega

theorem cmsg_walk_lt {abi : HostAbi} {hlen hoff clen : Nat} (hhdr : hoff + CMSG_ALIGN abi abi.cmsghdr ≤ hlen)
    (hok : ¬(clen < CMSG_LEN abi 0 ∨ hlen - hoff < clen)) : hlen - (hoff + CMSG_ALIGN abi clen) < hlen - hoff := by
  have hpos : 0 < abi.cmsghdr := by cases abi <;> decide
  have hhdrle := le_CMSG_ALIGN abi abi.cmsghdr
  have hclen := le_CMSG_ALIGN abi clen
  simp only [CMSG_LEN, not_or] at hok
  omega

def INT_MAX : Nat := 2147483647

def SOL_SOCKET : u32 := 1#32

def SCM_RIGHTS : u32 := 1#32

def SCM_CREDENTIALS : u32 := 2#32

def get32 (buf : List Byte) (off : Nat) : u32 := BitVec.ofNat 32 (ofLe (sub buf off 4))

def put32 (buf : List Byte) (off : Nat) (v : u32) : Option (List Byte) := put buf off (le 4 v.toNat)

/-- The identities a control message is read against: the caller's credentials, the ids of `--fake-id` and of the
host, and what is known of a pid. -/
structure NetIds where
  fake_id : Bool
  fake_uid : u32
  fake_gid : u32
  host_uid : u32
  host_gid : u32
  ruid : u32
  euid : u32
  suid : u32
  rgid : u32
  egid : u32
  sgid : u32
  has_task : u32 → Bool
  kill_esrch : u32 → Bool

variable (m : NetIds) (abi : HostAbi)

def remap_uid (host : u32) : u32 := if m.fake_id ∧ host = m.host_uid then m.fake_uid else host

def remap_gid (host : u32) : u32 := if m.fake_id ∧ host = m.host_gid then m.fake_gid else host

def proctab_pid_view (pid : u32) (held : Bool) : u32 :=
  if pid.toInt ≤ 0 then pid
  else if m.has_task pid then pid
  else if held ∧ m.kill_esrch pid then pid
  else 0#32

def uid_g2h (uid : u32) : u32 :=
  if uid = m.ruid ∨ uid = m.euid ∨ uid = m.suid ∨ uid = m.fake_uid then m.host_uid else uid

def gid_g2h (gid : u32) : u32 :=
  if gid = m.rgid ∨ gid = m.egid ∨ gid = m.sgid ∨ gid = m.fake_gid then m.host_gid else gid

def cred_g2h (hb : List Byte) (p : Nat) : Option (List Byte) := do
  let uid := get32 hb (p + 4)
  let gid := get32 hb (p + 8)
  let hb ← put32 hb (p + 4) (uid_g2h m uid)
  put32 hb (p + 8) (gid_g2h m gid)

def cmsghdr_bytes (len : Nat) (level type : u32) : List Byte :=
  le abi.word len ++ (le 4 level.toNat ++ le 4 type.toNat)

/-- What `cmsg_g2h` writes for one element: zeros, the header, the payload and
the mapped credentials. `none` is a write past the end of `hb`. -/
def cmsg_g2h_element (hb : List Byte) (hoff hel hstep : Nat) (level type : u32) (data : List Byte) :
    Option (List Byte) := do
  let hb ← put hb hoff (List.replicate hstep 0#8)
  let hb ← put hb hoff (cmsghdr_bytes abi hel level type)
  let hb ← put hb (hoff + CMSG_ALIGN abi abi.cmsghdr) data
  if m.fake_id ∧ level = SOL_SOCKET ∧ type = SCM_CREDENTIALS ∧ 12 ≤ data.length then
    cred_g2h m hb (hoff + CMSG_ALIGN abi abi.cmsghdr)
  else some hb

/-- The outcomes of `cmsg_g2h`: `-1`, the host control length with the buffer,
and, which no caller is to see, a write past the end of the buffer. -/
inductive G2h where
  | invalid
  | overrun
  | ok (hoff : Nat) (hb : List Byte)
  deriving DecidableEq, Repr

/-- The guest's control data, element by element, into the host's layout. -/
def cmsg_g2h_loop (gb hb : List Byte) (goff hoff : Nat) : G2h :=
  if goff + GCMSG_HDRLEN ≤ gb.length then
    let clen := ofLe (sub gb goff 8)
    let level := get32 gb (goff + 8)
    let type := get32 gb (goff + 12)
    if clen < GCMSG_HDRLEN ∨ gb.length - goff < clen then .invalid
    else
      let dlen := clen - GCMSG_HDRLEN
      let hel := CMSG_LEN abi dlen
      let hstep := CMSG_ALIGN abi hel
      if hb.length - hoff < hstep then .invalid
      else
        match cmsg_g2h_element m abi hb hoff hel hstep level type (sub gb (goff + GCMSG_HDRLEN) dlen) with
        | none => .overrun
        | some hb => cmsg_g2h_loop gb hb (goff + GCMSG_ALIGN clen) (hoff + hstep)
  else .ok hoff hb
termination_by gb.length - goff
decreasing_by simp only [GCMSG_HDRLEN, GCMSG_ALIGN] at *; omega

def cmsg_g2h (gb hb : List Byte) : G2h := cmsg_g2h_loop m abi gb hb 0 0

/-- The control buffer of a send in `msg_import`, once the guest's bytes are
copied in: the host buffer is one guest alignment step longer than they are. -/
def msg_import_control (gctrl : List Byte) : Except Int (List Byte) :=
  if INT_MAX < gctrl.length then .error (-ENOBUFS)
  else
    match cmsg_g2h m abi gctrl (List.replicate (gctrl.length + GCMSG_ALIGN 1) 0#8) with
    | .ok hl hctrl => .ok (hctrl.take hl)
    | _ => .error (-EINVAL)

/-- The descriptors of an `SCM_RIGHTS` element of length `clen`; any other
element has none. -/
def rights_fds (hb : List Byte) (hoff clen : Nat) (level type : u32) : List u32 :=
  if level = SOL_SOCKET ∧ type = SCM_RIGHTS then
    (List.range ((clen - CMSG_LEN abi 0) / 4)).map fun i => get32 hb (hoff + CMSG_ALIGN abi abi.cmsghdr + i * 4)
  else []

/-- Closes the descriptors of an element that does not fit. -/
def cmsg_close_rights (hb : List Byte) (hoff : Nat) : List u32 :=
  if hoff + CMSG_ALIGN abi abi.cmsghdr ≤ hb.length then
    let clen := ofLe (sub hb hoff abi.word)
    let level := get32 hb (hoff + abi.word)
    let type := get32 hb (hoff + abi.word + 4)
    if clen < CMSG_LEN abi 0 ∨ hb.length - hoff < clen then []
    else rights_fds abi hb hoff clen level type ++ cmsg_close_rights hb (hoff + CMSG_ALIGN abi clen)
  else []
termination_by hb.length - hoff
decreasing_by exact cmsg_walk_lt ‹_› ‹_›

/-- How many of an element's descriptors the guest gets: those its buffer has
room for, up to the first at or above its limit. -/
def rights_keep (fds : List u32) (avail : Nat) (fdcap : Int) : Nat :=
  let fit := if GCMSG_HDRLEN < avail then (avail - GCMSG_HDRLEN) / 4 else 0
  ((fds.take fit).takeWhile fun fd => fd.toInt < fdcap).length

/-- One field of the credentials, mapped in place if the element reaches it. -/
def cred_field (reached : Bool) (gb : List Byte) (p : Nat) (f : u32 → u32) : Option (List Byte) :=
  if reached then put32 gb p (f (get32 gb p)) else some gb

/-- The credentials at `cr`, field by field, since a truncated element carries
only the head of the struct. -/
def cred_h2g (gb : List Byte) (cr dlen : Nat) : Option (List Byte) := do
  let gb ← cred_field (decide (4 ≤ dlen)) gb cr fun pid => proctab_pid_view m pid true
  let gb ← cred_field (m.fake_id && decide (8 ≤ dlen)) gb (cr + 4) (remap_uid m)
  cred_field (m.fake_id && decide (12 ≤ dlen)) gb (cr + 8) (remap_gid m)

def cmsg_h2g_element (gb : List Byte) (goff gel gstep : Nat) (level type : u32) (data : List Byte) :
    Option (List Byte) := do
  let gb ← put gb goff (List.replicate gstep 0#8)
  let gb ← put gb goff (le 8 gel)
  let gb ← put32 gb (goff + 8) level
  let gb ← put32 gb (goff + 12) type
  let gb ← put gb (goff + GCMSG_HDRLEN) data
  if level = SOL_SOCKET ∧ type = SCM_CREDENTIALS then cred_h2g m gb (goff + GCMSG_HDRLEN) data.length else some gb

/-- What a conversion to the guest leaves: the buffer and control length, the truncation flag, and the descriptors
closed and handed over. -/
structure H2g where
  gb : List Byte
  goff : Nat
  ctrunc : Bool
  closed : List u32
  received : List u32
  deriving DecidableEq, Repr

/-- The end of the walk: whatever of the host's buffer it did not reach counts
as cut off. -/
def cmsg_h2g_finish (hb : List Byte) (hoff : Nat) (r : H2g) : H2g :=
  if hoff < hb.length then { r with ctrunc := true, closed := r.closed ++ cmsg_close_rights abi hb hoff } else r

/-- The host's control data into the guest's, truncated where it does not fit. -/
def cmsg_h2g_loop (hb : List Byte) (fdcap : Int) (hoff : Nat) (r : H2g) : Option H2g :=
  if hoff + CMSG_ALIGN abi abi.cmsghdr ≤ hb.length then
    let clen := ofLe (sub hb hoff abi.word)
    let level := get32 hb (hoff + abi.word)
    let type := get32 hb (hoff + abi.word + 4)
    if clen < CMSG_LEN abi 0 ∨ hb.length - hoff < clen then some (cmsg_h2g_finish abi hb hoff r)
    else
      let hstep := CMSG_ALIGN abi clen
      let avail := r.gb.length - r.goff
      let fds := rights_fds abi hb hoff clen level type
      let keep := rights_keep fds avail fdcap
      let r := { r with
        ctrunc := r.ctrunc || decide (keep < fds.length)
        closed := r.closed ++ fds.drop keep
        received := r.received ++ fds.take keep }
      if keep < fds.length ∧ keep = 0 then cmsg_h2g_loop hb fdcap (hoff + hstep) r
      else
        let clen' := if keep < fds.length then CMSG_LEN abi (keep * 4) else clen
        let dlen := clen' - CMSG_LEN abi 0
        let gel := GCMSG_HDRLEN + dlen
        if avail < gel ∧ avail < GCMSG_HDRLEN then
          some { r with ctrunc := true, closed := r.closed ++ cmsg_close_rights abi hb hoff }
        else
          let r := { r with ctrunc := r.ctrunc || decide (avail < gel) }
          let gel := if avail < gel then avail else gel
          let dlen := gel - GCMSG_HDRLEN
          let gstep := min (GCMSG_ALIGN gel) avail
          let data := sub hb (hoff + CMSG_ALIGN abi abi.cmsghdr) dlen
          match cmsg_h2g_element m r.gb r.goff gel gstep level type data with
          | none => none
          | some gb => cmsg_h2g_loop hb fdcap (hoff + hstep) { r with gb := gb, goff := r.goff + gstep }
  else some (cmsg_h2g_finish abi hb hoff r)
termination_by hb.length - hoff
decreasing_by
  · exact cmsg_walk_lt ‹_› ‹_›
  · exact cmsg_walk_lt ‹_› ‹_›

/-- `cmsg_h2g` of the host's control bytes into the guest's buffer; `none` is a
write past its end. -/
def cmsg_h2g (hb gb : List Byte) (fdcap : Int) : Option H2g :=
  cmsg_h2g_loop m abi hb fdcap 0 ⟨gb, 0, false, [], []⟩

end arm64emu
