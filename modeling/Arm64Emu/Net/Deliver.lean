import Mathlib
import Arm64Emu.Net.Elements

open bytes

namespace arm64emu

open List Option

def Cmsg.fds (e : Cmsg) : List u32 :=
  if e.level = SOL_SOCKET ∧ e.type = SCM_RIGHTS then
    (List.range (e.data.length / 4)).map fun i => get32 e.data (i * 4)
  else []

def Cmsg.cut (e : Cmsg) (k : Nat) : Cmsg := { e with data := e.data.take k }

def Cmsg.trim (e : Cmsg) (keep : Nat) : Cmsg := if keep < e.fds.length then e.cut (keep * 4) else e

section elements

variable (m : NetIds) (abi : HostAbi) {pre data post : List Byte}

def patch_field (reached : Bool) (data : List Byte) (off : Nat) (f : u32 → u32) : List Byte :=
  if reached then patch data off (f (get32 data off)) else data

/-- Credentials as the guest may see them, as far as the payload reaches. -/
def cred_view (data : List Byte) : List Byte :=
  let pid := patch_field (decide (4 ≤ data.length)) data 0 fun pid => proctab_pid_view m pid true
  let uid := patch_field (m.fake_id && decide (8 ≤ data.length)) pid 4 (remap_uid m)
  patch_field (m.fake_id && decide (12 ≤ data.length)) uid 8 (remap_gid m)

def Cmsg.to_guest (e : Cmsg) : Cmsg :=
  if e.level = SOL_SOCKET ∧ e.type = SCM_CREDENTIALS then { e with data := cred_view m e.data } else e

variable {m} {reached : Bool} {off : Nat} {f : u32 → u32}

theorem length_patch_field (h : reached = true → off + 4 ≤ data.length) :
    (patch_field reached data off f).length = data.length := by
  unfold patch_field
  split
  next hr => exact length_patch (h hr) _
  next => rfl

theorem cred_field_mid {p : Nat} (hp : p = pre.length + off) (h : reached = true → off + 4 ≤ data.length) :
    cred_field reached (pre ++ (data ++ post)) p f = some (pre ++ (patch_field reached data off f ++ post)) := by
  subst hp
  unfold cred_field patch_field
  split
  next hr => rw [get32_mid (h hr), put32_mid (h hr)]
  next => rfl

theorem reached_le {b : Bool} {n k : Nat} (h : (b && decide (n ≤ k)) = true) : n ≤ k :=
  of_decide_eq_true (Bool.and_elim_right h)

theorem length_pid_view (data : List Byte) :
    (patch_field (decide (4 ≤ data.length)) data 0 fun pid => proctab_pid_view m pid true).length = data.length :=
  length_patch_field fun h => of_decide_eq_true h

theorem length_uid_view (data : List Byte) :
    (patch_field (m.fake_id && decide (8 ≤ data.length))
      (patch_field (decide (4 ≤ data.length)) data 0 fun pid => proctab_pid_view m pid true) 4 (remap_uid m)).length =
        data.length :=
  (length_patch_field fun h => (length_pid_view data).symm ▸ reached_le h).trans (length_pid_view data)

theorem length_cred_view (data : List Byte) : (cred_view m data).length = data.length :=
  (length_patch_field fun h => (length_uid_view data).symm ▸ reached_le h).trans (length_uid_view data)

theorem cred_h2g_mid {p : Nat} (hp : p = pre.length) :
    cred_h2g m (pre ++ (data ++ post)) p data.length = some (pre ++ (cred_view m data ++ post)) := by
  subst hp
  rw [cred_h2g, cred_field_mid (Nat.add_zero _).symm fun h => of_decide_eq_true h, bind_eq_bind,
    bind_some, cred_field_mid rfl fun h => (length_pid_view data).symm ▸ reached_le h, bind_some,
    cred_field_mid rfl fun h => (length_uid_view data).symm ▸ reached_le h]
  rfl

@[simp] theorem Cmsg.level_to_guest (e : Cmsg) : (e.to_guest m).level = e.level := by
  unfold Cmsg.to_guest
  split <;> rfl

@[simp] theorem Cmsg.type_to_guest (e : Cmsg) : (e.to_guest m).type = e.type := by
  unfold Cmsg.to_guest
  split <;> rfl

@[simp] theorem Cmsg.length_to_guest (e : Cmsg) : (e.to_guest m).data.length = e.data.length := by
  unfold Cmsg.to_guest
  split
  next => exact length_cred_view e.data
  next => rfl

/-- An element as it stands in a guest buffer, in a step of `gstep` bytes. -/
def guest_image (e : Cmsg) (gstep : Nat) : List Byte :=
  le 8 (GCMSG_HDRLEN + e.data.length) ++ (le 4 e.level.toNat ++ (le 4 e.type.toNat ++
    (e.data ++ List.replicate (gstep - (GCMSG_HDRLEN + e.data.length)) 0#8)))

theorem length_guest_image {e : Cmsg} {gstep : Nat} (h : GCMSG_HDRLEN + e.data.length ≤ gstep) :
    (guest_image e gstep).length = gstep := by
  simp only [guest_image, length_append, bytes.length_le, length_replicate]
  unfold GCMSG_HDRLEN at h ⊢
  omega

theorem cmsg_h2g_element_eq {done rest : List Byte} {gstep : Nat} (e : Cmsg)
    (hstep : GCMSG_HDRLEN + e.data.length ≤ gstep) (hroom : gstep ≤ rest.length) :
    cmsg_h2g_element m (done ++ rest) done.length (GCMSG_HDRLEN + e.data.length) gstep e.level e.type e.data =
      some (done ++ (guest_image (e.to_guest m) gstep ++ rest.drop gstep)) := by
  have himg : guest_image (e.to_guest m) gstep = le 8 (GCMSG_HDRLEN + e.data.length) ++ (le 4 e.level.toNat ++
      (le 4 e.type.toNat ++ ((e.to_guest m).data ++
        List.replicate (gstep - 8 - 4 - 4 - e.data.length) 0#8))) := by
    have hpad : gstep - (GCMSG_HDRLEN + e.data.length) = gstep - 8 - 4 - 4 - e.data.length := by
      unfold GCMSG_HDRLEN
      omega
    rw [guest_image, e.level_to_guest, e.type_to_guest, e.length_to_guest, hpad]
  unfold GCMSG_HDRLEN at hstep
  unfold cmsg_h2g_element put32
  rw [put_cursor rfl (by rw [length_replicate]; exact hroom), bind_eq_bind, bind_some,
    put_replicate rfl (by rw [bytes.length_le]; omega), bind_some,
    put_replicate (by rw [length_append, bytes.length_le]) (by rw [bytes.length_le, bytes.length_le]; omega),
    bind_some,
    put_replicate (by simp only [length_append, bytes.length_le])
      (by simp only [bytes.length_le]; omega), bind_some,
    put_replicate (by simp only [length_append, bytes.length_le, GCMSG_HDRLEN])
      (by simp only [bytes.length_le]; omega), bind_some, himg]
  simp only [bytes.length_le, length_replicate]
  split
  next hcred =>
    rw [append_assoc, cred_h2g_mid (by simp only [length_append, bytes.length_le, GCMSG_HDRLEN]),
      Cmsg.to_guest, if_pos hcred]
    simp only [append_assoc]
  rename_i hcred
  rw [Cmsg.to_guest, if_neg hcred]
  simp only [append_assoc]

theorem elements_guest_image {e : Cmsg} {gstep : Nat} {rest : List Byte}
    (hstep : GCMSG_HDRLEN + e.data.length ≤ gstep) (hsize : GCMSG_HDRLEN + e.data.length < 256 ^ 8)
    (hrest : gstep = GCMSG_ALIGN (GCMSG_HDRLEN + e.data.length) ∨
      gstep ≤ GCMSG_ALIGN (GCMSG_HDRLEN + e.data.length) ∧ rest = []) :
    elements (guest_image e gstep ++ rest) = e :: elements rest := by
  have hlen : (guest_image e gstep ++ rest).length = gstep + rest.length := by
    rw [length_append, length_guest_image hstep]
  have hbytes : guest_image e gstep ++ rest = le 8 (GCMSG_HDRLEN + e.data.length) ++ (le 4 e.level.toNat ++
      (le 4 e.type.toNat ++ (e.data ++
        (List.replicate (gstep - (GCMSG_HDRLEN + e.data.length)) 0#8 ++ rest)))) := by
    simp only [guest_image, append_assoc]
  have hclen : cmsg_len (guest_image e gstep ++ rest) = GCMSG_HDRLEN + e.data.length := by
    rw [cmsg_len, hbytes, sub_head (bytes.length_le 8 _).symm, ofLe_le hsize]
  have hok : CmsgOk (guest_image e gstep ++ rest) := by
    rw [CmsgOk, hclen, hlen]
    omega
  have hnext : cmsg_rest (guest_image e gstep ++ rest) = rest := by
    rw [cmsg_rest, hclen]
    rcases hrest with hrest | ⟨hle, rfl⟩
    · rw [← hrest]
      exact drop_left' (length_guest_image hstep)
    · exact drop_eq_nil_of_le (by rw [hlen]; exact hle)
  have hfirst : Cmsg.first (guest_image e gstep ++ rest) = e := by
    have hlevel : get32 (guest_image e gstep ++ rest) 8 = e.level := by
      rw [hbytes, get32_le (bytes.length_le 8 _).symm]
    have htype : get32 (guest_image e gstep ++ rest) 12 = e.type := by
      rw [hbytes, ← append_assoc, get32_le (by simp only [length_append, bytes.length_le])]
    have hdata : sub (guest_image e gstep ++ rest) GCMSG_HDRLEN e.data.length = e.data := by
      rw [hbytes, ← append_assoc, ← append_assoc,
        sub_mid (by simp only [length_append, bytes.length_le, GCMSG_HDRLEN]) rfl]
    rw [Cmsg.first, hclen, Nat.add_sub_cancel_left, hlevel, htype, hdata]
  rw [elements_of_ok (by rw [hlen]; omega) hok, hnext, hfirst]

theorem Cmsg.length_fds_le (e : Cmsg) : e.fds.length * 4 ≤ e.data.length := by
  unfold Cmsg.fds
  split
  · rw [length_map, length_range]
    omega
  · exact Nat.zero_le _

theorem Cmsg.length_trim (e : Cmsg) (keep : Nat) :
    (if keep < e.fds.length then CMSG_LEN abi (keep * 4) else CMSG_LEN abi e.data.length) - CMSG_LEN abi 0 =
      (e.trim keep).data.length ∧ (e.trim keep).data.length ≤ e.data.length := by
  have hfds := e.length_fds_le
  unfold Cmsg.trim Cmsg.cut CMSG_LEN
  split
  · rw [length_take]
    omega
  · omega

theorem Cmsg.cut_trim (e : Cmsg) {keep k : Nat} (h : k ≤ (e.trim keep).data.length) :
    (e.trim keep).cut k = e.cut k := by
  unfold Cmsg.trim Cmsg.cut at *
  split
  next hlt =>
    rw [if_pos hlt, length_take] at h
    rw [take_take, min_eq_left (by omega)]
  next => rfl

variable (m)

def placed (room want : Nat) : Nat := if room < want then room else want

def placed_step (room want : Nat) : Nat := min (GCMSG_ALIGN (placed room want)) room

/-- What a walk over host elements leaves in a guest buffer with `room` bytes
left, and whether anything was dropped or cut short. -/
def deliver (fdcap : Int) : Nat → List Cmsg → List Cmsg × Bool
  | _, [] => ([], false)
  | room, e :: es =>
    let keep := rights_keep e.fds room fdcap
    let want := GCMSG_HDRLEN + (e.trim keep).data.length
    if keep < e.fds.length ∧ keep = 0 then ((deliver fdcap room es).1, true)
    else if room < want ∧ room < GCMSG_HDRLEN then ([], true)
    else
      let rest := deliver fdcap (room - placed_step room want) es
      (((e.trim keep).cut (placed room want - GCMSG_HDRLEN)).to_guest m :: rest.1,
        decide (keep < e.fds.length) || decide (room < want) || rest.2)

/-- The record of a walk once the descriptors of an element are dealt with. -/
def H2g.note (r : H2g) (fds : List u32) (keep : Nat) : H2g :=
  { r with
    ctrunc := r.ctrunc || decide (keep < fds.length)
    closed := r.closed ++ fds.drop keep
    received := r.received ++ fds.take keep }

theorem guest_len_lt {n : Nat} (h : CMSG_LEN abi n < 256 ^ abi.word) : GCMSG_HDRLEN + n < 256 ^ 8 := by
  cases abi <;> simp only [CMSG_LEN, CMSG_ALIGN, HostAbi.word, HostAbi.cmsghdr, GCMSG_HDRLEN] at h ⊢ <;> omega

theorem placed_bounds {e : Cmsg} {keep room want : Nat} (hwant : GCMSG_HDRLEN + (e.trim keep).data.length = want)
    (h : ¬(room < want ∧ room < GCMSG_HDRLEN)) :
    GCMSG_HDRLEN ≤ placed room want ∧ placed room want ≤ room ∧
      placed room want - GCMSG_HDRLEN ≤ (e.trim keep).data.length := by
  unfold placed
  split <;> omega

theorem placed_step_bounds {room want : Nat} (h : placed room want ≤ room) :
    placed room want ≤ placed_step room want ∧ placed_step room want ≤ room ∧
      (placed_step room want = GCMSG_ALIGN (placed room want) ∨
        placed_step room want ≤ GCMSG_ALIGN (placed room want) ∧ placed_step room want = room) := by
  unfold placed_step GCMSG_ALIGN
  omega

end elements

theorem Cmsg.cut_of_le {e : Cmsg} {k : Nat} (h : e.data.length ≤ k) : e.cut k = e := by
  rw [Cmsg.cut, take_of_length_le h]

theorem Cmsg.trim_of_le {e : Cmsg} {keep : Nat} (h : e.fds.length ≤ keep) : e.trim keep = e := by
  rw [Cmsg.trim, if_neg (by omega)]

end arm64emu
