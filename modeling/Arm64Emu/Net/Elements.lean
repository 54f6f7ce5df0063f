import Mathlib
import Arm64Emu.Net.Cmsg

open bytes

namespace arm64emu

open List Option

/-- One element of a control buffer: a level, a type and a payload. -/
structure Cmsg where
  level : u32
  type : u32
  data : List Byte
  deriving DecidableEq, Repr

def cmsg_len (l : List Byte) : Nat := ofLe (sub l 0 8)

/-- The kernel's `CMSG_OK` for the element a guest buffer starts with. -/
def CmsgOk (l : List Byte) : Prop := GCMSG_HDRLEN ≤ cmsg_len l ∧ cmsg_len l ≤ l.length

instance (l : List Byte) : Decidable (CmsgOk l) := inferInstanceAs (Decidable (_ ∧ _))

def Cmsg.first (l : List Byte) : Cmsg := ⟨get32 l 8, get32 l 12, sub l GCMSG_HDRLEN (cmsg_len l - GCMSG_HDRLEN)⟩

def cmsg_rest (l : List Byte) : List Byte := l.drop (GCMSG_ALIGN (cmsg_len l))

/-- The elements the walk of a guest buffer reaches, each as what is left from its header on: a header that fits
whole, past elements that are well formed. -/
inductive Reached : List Byte → List Byte → Prop where
  | first {l : List Byte} : GCMSG_HDRLEN ≤ l.length → Reached l l
  | next {l s : List Byte} : GCMSG_HDRLEN ≤ l.length → CmsgOk l → Reached (cmsg_rest l) s → Reached l s

/-- Every element the walk reaches has a length of at least a header and at most
what is left. -/
def WellFormed (l : List Byte) : Prop := ∀ s, Reached l s → CmsgOk s

variable {l : List Byte}

theorem length_cmsg_rest (hhdr : GCMSG_HDRLEN ≤ l.length) (hok : CmsgOk l) :
    (cmsg_rest l).length < l.length := by
  unfold CmsgOk GCMSG_HDRLEN at hok
  unfold GCMSG_HDRLEN at hhdr
  rw [cmsg_rest, length_drop, GCMSG_ALIGN]
  omega

/-- The elements of a guest buffer, as its own `CMSG_FIRSTHDR` and `CMSG_NXTHDR`
read them. -/
def elements (l : List Byte) : List Cmsg :=
  if GCMSG_HDRLEN ≤ l.length ∧ CmsgOk l then Cmsg.first l :: elements (cmsg_rest l) else []
termination_by l.length
decreasing_by
  rename_i h
  exact length_cmsg_rest h.1 h.2

theorem wellFormed_of_short (h : ¬GCMSG_HDRLEN ≤ l.length) : WellFormed l := by
  intro s hs
  cases hs with
  | first hl | next hl => exact absurd hl h

theorem wellFormed_iff (h : GCMSG_HDRLEN ≤ l.length) :
    WellFormed l ↔ CmsgOk l ∧ WellFormed (cmsg_rest l) := by
  constructor
  · intro hw
    have hok := hw l (.first h)
    exact ⟨hok, fun s hs => hw s (.next h hok hs)⟩
  rintro ⟨hok, hrest⟩ s hs
  cases hs with
  | first => exact hok
  | next _ _ hs => exact hrest s hs

theorem elements_of_short (h : ¬GCMSG_HDRLEN ≤ l.length) : elements l = [] := by
  rw [elements, if_neg fun h' => h h'.1]

theorem elements_of_ok (h : GCMSG_HDRLEN ≤ l.length) (hok : CmsgOk l) :
    elements l = Cmsg.first l :: elements (cmsg_rest l) := by
  rw [elements, if_pos ⟨h, hok⟩]

section patch

variable {pre data post : List Byte} {off : Nat}

def patch (data : List Byte) (off : Nat) (v : u32) : List Byte :=
  data.take off ++ (le 4 v.toNat ++ data.drop (off + 4))

theorem length_patch (h : off + 4 ≤ data.length) (v : u32) : (patch data off v).length = data.length := by
  simp only [patch, length_append, length_take, length_drop, bytes.length_le]
  omega

theorem get32_drop (buf : List Byte) (k off : Nat) : get32 (buf.drop k) off = get32 buf (k + off) := by
  rw [get32, get32, sub_drop]

theorem get32_mid (h : off + 4 ≤ data.length) :
    get32 (pre ++ (data ++ post)) (pre.length + off) = get32 data off := by
  rw [get32, get32, sub_append_right, sub_append_left h]

theorem put32_mid (h : off + 4 ≤ data.length) (v : u32) :
    put32 (pre ++ (data ++ post)) (pre.length + off) v = some (pre ++ (patch data off v ++ post)) := by
  have hsplit : data = data.take off ++ (sub data off 4 ++ data.drop (off + 4)) := by
    rw [sub, ← drop_drop, take_append_drop, take_append_drop]
  have htake : (data.take off).length = off := by
    rw [length_take]
    omega
  have hmid : put ((pre ++ data.take off) ++ (sub data off 4 ++ (data.drop (off + 4) ++ post)))
      (pre.length + off) (le 4 v.toNat) =
        some ((pre ++ data.take off) ++ (le 4 v.toNat ++ (data.drop (off + 4) ++ post))) :=
    put_mid (by rw [length_append, htake]) (by rw [bytes.length_le, length_sub h])
  rw [put32, patch]
  conv_lhs => rw [hsplit]
  simpa only [append_assoc] using hmid

theorem get32_le {v : u32} (h : off = pre.length) : get32 (pre ++ (le 4 v.toNat ++ post)) off = v := by
  have hv : v.toNat < 256 ^ 4 := v.isLt
  rw [get32, sub_mid h (bytes.length_le 4 v.toNat).symm, ofLe_le hv, BitVec.ofNat_toNat, BitVec.setWidth_eq]

theorem cred_g2h_mid {m : NetIds} {p : Nat} (hp : p = pre.length) (h : 12 ≤ data.length) :
    cred_g2h m (pre ++ (data ++ post)) p =
      some (pre ++ (patch (patch data 4 (uid_g2h m (get32 data 4))) 8 (gid_g2h m (get32 data 8)) ++ post)) := by
  have hfirst : (patch data 4 (uid_g2h m (get32 data 4))).length = data.length := length_patch (by omega) _
  subst hp
  rw [cred_g2h, get32_mid (by omega), get32_mid (by omega), put32_mid (by omega), bind_eq_bind,
    bind_some, put32_mid (by omega)]

end patch

variable (m : NetIds) (abi : HostAbi)

/-- The payload of an element on its way to the host: the credentials of a faked
identity become the host's. -/
def Cmsg.to_host (e : Cmsg) : Cmsg :=
  if m.fake_id ∧ e.level = SOL_SOCKET ∧ e.type = SCM_CREDENTIALS ∧ 12 ≤ e.data.length then
    { e with data := patch (patch e.data 4 (uid_g2h m (get32 e.data 4))) 8 (gid_g2h m (get32 e.data 8)) }
  else e

@[simp] theorem Cmsg.level_to_host (e : Cmsg) : (e.to_host m).level = e.level := by
  unfold Cmsg.to_host
  split <;> rfl

@[simp] theorem Cmsg.type_to_host (e : Cmsg) : (e.to_host m).type = e.type := by
  unfold Cmsg.to_host
  split <;> rfl

@[simp] theorem Cmsg.length_to_host (e : Cmsg) : (e.to_host m).data.length = e.data.length := by
  unfold Cmsg.to_host
  split
  next h =>
    have hfirst : (patch e.data 4 (uid_g2h m (get32 e.data 4))).length = e.data.length :=
      length_patch (by omega) _
    rw [length_patch (by omega), hfirst]
  next => rfl

/-- An element as it stands in a host buffer: the header, the payload and the
padding up to the next one. -/
def host_image (e : Cmsg) : List Byte :=
  cmsghdr_bytes abi (CMSG_LEN abi e.data.length) e.level e.type ++
    (e.data ++ List.replicate (CMSG_ALIGN abi (CMSG_LEN abi e.data.length) - CMSG_LEN abi e.data.length) 0#8)

@[simp] theorem length_cmsghdr_bytes (len : Nat) (level type : u32) :
    (cmsghdr_bytes abi len level type).length = CMSG_ALIGN abi abi.cmsghdr := by
  cases abi <;> simp only [cmsghdr_bytes, length_append, bytes.length_le] <;> rfl

@[simp] theorem length_host_image (e : Cmsg) :
    (host_image abi e).length = CMSG_ALIGN abi (CMSG_LEN abi e.data.length) := by
  have hle := le_CMSG_ALIGN abi (CMSG_LEN abi e.data.length)
  simp only [host_image, length_append, length_cmsghdr_bytes, length_replicate]
  unfold CMSG_LEN at hle ⊢
  omega

/-- The writes of `cmsg_g2h` for one element, past what it has written before:
the element's image, and the rest of the buffer as it was. -/
theorem cmsg_g2h_element_eq {done rest : List Byte} (e : Cmsg) (hroom : (host_image abi e).length ≤ rest.length) :
    cmsg_g2h_element m abi (done ++ rest) done.length (CMSG_LEN abi e.data.length)
      (CMSG_ALIGN abi (CMSG_LEN abi e.data.length)) e.level e.type e.data =
        some (done ++ (host_image abi (e.to_host m) ++ rest.drop (host_image abi e).length)) := by
  have hlen := length_host_image abi e
  have hle := le_CMSG_ALIGN abi (CMSG_LEN abi e.data.length)
  have hhdr := length_cmsghdr_bytes abi (CMSG_LEN abi e.data.length) e.level e.type
  have hsum : CMSG_ALIGN abi abi.cmsghdr + e.data.length = CMSG_LEN abi e.data.length := rfl
  have hpad : host_image abi (e.to_host m) = cmsghdr_bytes abi (CMSG_LEN abi e.data.length) e.level e.type ++
      ((e.to_host m).data ++ List.replicate (CMSG_ALIGN abi (CMSG_LEN abi e.data.length) -
        CMSG_ALIGN abi abi.cmsghdr - e.data.length) 0#8) := by
    rw [host_image, e.level_to_host, e.type_to_host, e.length_to_host, Nat.sub_sub, hsum]
  unfold cmsg_g2h_element
  rw [put_cursor rfl (by rw [length_replicate]; omega), bind_eq_bind, bind_some,
    put_replicate rfl (by omega), bind_some,
    put_replicate (by rw [length_append, hhdr]) (by omega), bind_some, hpad, hhdr, hlen,
    length_replicate]
  split
  next hcred =>
    rw [append_assoc, cred_g2h_mid (by rw [length_append, hhdr]) hcred.2.2.2, Cmsg.to_host, if_pos hcred]
    simp only [append_assoc]
  rename_i hcred
  rw [Cmsg.to_host, if_neg hcred]
  simp only [append_assoc]

section guest_to_host

variable {m abi} {gb hb done rest : List Byte} {goff hoff : Nat}

theorem length_host_image_le {l : List Byte} (hok : CmsgOk l) :
    (host_image abi (Cmsg.first l)).length ≤ GCMSG_ALIGN (cmsg_len l) := by
  have hdata : (Cmsg.first l).data.length = cmsg_len l - GCMSG_HDRLEN := length_sub (by unfold CmsgOk at hok; omega)
  rw [length_host_image, hdata]
  cases abi <;> simp only [CmsgOk, CMSG_ALIGN, CMSG_LEN, GCMSG_ALIGN, GCMSG_HDRLEN, HostAbi.word,
    HostAbi.cmsghdr] at hok ⊢ <;> omega

theorem cmsg_g2h_loop_done (h : ¬GCMSG_HDRLEN ≤ (gb.drop goff).length) :
    cmsg_g2h_loop m abi gb hb goff hoff = .ok hoff hb := by
  rw [length_drop] at h
  rw [cmsg_g2h_loop, if_neg (by unfold GCMSG_HDRLEN at h ⊢; omega)]

theorem cmsg_g2h_loop_invalid (h : GCMSG_HDRLEN ≤ (gb.drop goff).length) (hok : ¬CmsgOk (gb.drop goff)) :
    cmsg_g2h_loop m abi gb hb goff hoff = .invalid := by
  have hlen : cmsg_len (gb.drop goff) = ofLe (sub gb goff 8) := by rw [cmsg_len, sub_drop, Nat.add_zero]
  unfold CmsgOk at hok
  rw [hlen, length_drop] at hok
  rw [length_drop] at h
  rw [cmsg_g2h_loop, if_pos (by unfold GCMSG_HDRLEN at h ⊢; omega)]
  exact if_pos (by omega)

/-- One turn of `cmsg_g2h` at a well-formed element: it is refused if the buffer
has no room for it, and otherwise written. -/
theorem cmsg_g2h_loop_turn (h : GCMSG_HDRLEN ≤ (gb.drop goff).length) (hok : CmsgOk (gb.drop goff)) :
    (hb.length - hoff < (host_image abi (Cmsg.first (gb.drop goff))).length →
      cmsg_g2h_loop m abi gb hb goff hoff = .invalid) ∧
    ∀ hb', ¬hb.length - hoff < (host_image abi (Cmsg.first (gb.drop goff))).length →
      cmsg_g2h_element m abi hb hoff (CMSG_LEN abi (Cmsg.first (gb.drop goff)).data.length)
        (host_image abi (Cmsg.first (gb.drop goff))).length (Cmsg.first (gb.drop goff)).level
        (Cmsg.first (gb.drop goff)).type (Cmsg.first (gb.drop goff)).data = some hb' →
      cmsg_g2h_loop m abi gb hb goff hoff =
        cmsg_g2h_loop m abi gb hb' (goff + GCMSG_ALIGN (cmsg_len (gb.drop goff)))
          (hoff + (host_image abi (Cmsg.first (gb.drop goff))).length) := by
  set e := Cmsg.first (gb.drop goff)
  have hlen : ofLe (sub gb goff 8) = cmsg_len (gb.drop goff) := by rw [cmsg_len, sub_drop, Nat.add_zero]
  have hdata : e.data.length = cmsg_len (gb.drop goff) - GCMSG_HDRLEN :=
    length_sub (by unfold CmsgOk at hok; omega)
  have hlevel : get32 gb (goff + 8) = e.level := (get32_drop gb goff 8).symm
  have htype : get32 gb (goff + 12) = e.type := (get32_drop gb goff 12).symm
  have hpay : sub gb (goff + GCMSG_HDRLEN) e.data.length = e.data := by
    rw [hdata]
    exact (sub_drop gb goff GCMSG_HDRLEN _).symm
  have hbad : ¬(cmsg_len (gb.drop goff) < GCMSG_HDRLEN ∨ gb.length - goff < cmsg_len (gb.drop goff)) := by
    unfold CmsgOk at hok
    rw [length_drop] at hok
    omega
  rw [length_drop] at h
  rw [cmsg_g2h_loop, if_pos (by unfold GCMSG_HDRLEN at h ⊢; omega)]
  simp only [hlen, if_neg hbad, ← hdata, hlevel, htype, hpay, length_host_image]
  constructor
  · intro hfull
    rw [if_pos hfull]
  · intro hb' hfit hwrite
    rw [if_neg hfit, hwrite]

theorem cmsg_g2h_loop_full (h : GCMSG_HDRLEN ≤ (gb.drop goff).length) (hok : CmsgOk (gb.drop goff))
    (hfull : ¬(host_image abi (Cmsg.first (gb.drop goff))).length ≤ rest.length) :
    cmsg_g2h_loop m abi gb (done ++ rest) goff done.length = .invalid := by
  exact (cmsg_g2h_loop_turn h hok).1 (by rw [length_append]; omega)

theorem cmsg_g2h_loop_next (h : GCMSG_HDRLEN ≤ (gb.drop goff).length) (hok : CmsgOk (gb.drop goff))
    (hroom : (host_image abi (Cmsg.first (gb.drop goff))).length ≤ rest.length) :
    cmsg_g2h_loop m abi gb (done ++ rest) goff done.length =
      cmsg_g2h_loop m abi gb
        ((done ++ host_image abi ((Cmsg.first (gb.drop goff)).to_host m)) ++
          rest.drop (host_image abi (Cmsg.first (gb.drop goff))).length)
        (goff + GCMSG_ALIGN (cmsg_len (gb.drop goff)))
        (done ++ host_image abi ((Cmsg.first (gb.drop goff)).to_host m)).length := by
  have hlen : (done ++ host_image abi ((Cmsg.first (gb.drop goff)).to_host m)).length =
      done.length + (host_image abi (Cmsg.first (gb.drop goff))).length := by
    rw [length_append, length_host_image, length_host_image, Cmsg.length_to_host]
  rw [hlen, append_assoc]
  apply (cmsg_g2h_loop_turn h hok).2
  · rw [length_append]
    omega
  · rw [length_host_image, cmsg_g2h_element_eq m abi _ hroom, length_host_image]

theorem drop_add_align (gb : List Byte) (goff : Nat) :
    gb.drop (goff + GCMSG_ALIGN (cmsg_len (gb.drop goff))) = cmsg_rest (gb.drop goff) := by
  rw [cmsg_rest, drop_drop]

def host_images (m : NetIds) (abi : HostAbi) (es : List Cmsg) : List Byte :=
  es.flatMap fun e => host_image abi (e.to_host m)

/-- A host buffer that is a step longer than what is left of the guest's has
room for the next element, and stays so past it. -/
theorem cmsg_g2h_room (abi : HostAbi) (h : GCMSG_HDRLEN ≤ (gb.drop goff).length) (hok : CmsgOk (gb.drop goff))
    (hroom : gb.length + GCMSG_ALIGN 1 ≤ goff + rest.length) :
    (host_image abi (Cmsg.first (gb.drop goff))).length ≤ rest.length ∧
      gb.length - (goff + GCMSG_ALIGN (cmsg_len (gb.drop goff))) < gb.length - goff ∧
      gb.length + GCMSG_ALIGN 1 ≤ (goff + GCMSG_ALIGN (cmsg_len (gb.drop goff))) +
        (rest.drop (host_image abi (Cmsg.first (gb.drop goff))).length).length := by
  have himg : (host_image abi (Cmsg.first (gb.drop goff))).length ≤ _ := length_host_image_le hok
  unfold CmsgOk at hok
  rw [length_drop] at h hok ⊢
  simp only [GCMSG_ALIGN, GCMSG_HDRLEN] at *
  omega

variable (m abi) in
theorem cmsg_g2h_loop_ok (done rest : List Byte) (goff : Nat) (hwf : WellFormed (gb.drop goff))
    (hroom : gb.length + GCMSG_ALIGN 1 ≤ goff + rest.length) :
    ∃ rest', cmsg_g2h_loop m abi gb (done ++ rest) goff done.length =
      .ok (done ++ host_images m abi (elements (gb.drop goff))).length
        ((done ++ host_images m abi (elements (gb.drop goff))) ++ rest') := by
  induction hn : gb.length - goff using Nat.strong_induction_on generalizing goff done rest with
  | _ n ih =>
    by_cases h : GCMSG_HDRLEN ≤ (gb.drop goff).length
    case neg =>
      refine ⟨rest, ?_⟩
      rw [elements_of_short h, cmsg_g2h_loop_done h]
      simp [host_images]
    case pos =>
      obtain ⟨hok, hrest⟩ := (wellFormed_iff h).1 hwf
      obtain ⟨hfit, hless, hroom'⟩ := cmsg_g2h_room abi h hok hroom
      rw [← drop_add_align] at hrest
      obtain ⟨rest', hrun⟩ := ih _ (hn ▸ hless) (done ++ host_image abi ((Cmsg.first (gb.drop goff)).to_host m))
        _ _ hrest hroom' rfl
      refine ⟨rest', ?_⟩
      rw [cmsg_g2h_loop_next h hok hfit, hrun, elements_of_ok h hok, drop_add_align]
      simp only [host_images, flatMap_cons, append_assoc]

variable (m abi) in
theorem cmsg_g2h_loop_refused (done rest : List Byte) (goff : Nat) (hwf : ¬WellFormed (gb.drop goff))
    (hroom : gb.length + GCMSG_ALIGN 1 ≤ goff + rest.length) :
    cmsg_g2h_loop m abi gb (done ++ rest) goff done.length = .invalid := by
  induction hn : gb.length - goff using Nat.strong_induction_on generalizing goff done rest with
  | _ n ih =>
    have h : GCMSG_HDRLEN ≤ (gb.drop goff).length := by
      by_contra h
      exact hwf (wellFormed_of_short h)
    by_cases hok : CmsgOk (gb.drop goff)
    case neg => exact cmsg_g2h_loop_invalid h hok
    case pos =>
      have hrest : ¬WellFormed (cmsg_rest (gb.drop goff)) := fun hrest => hwf ((wellFormed_iff h).2 ⟨hok, hrest⟩)
      obtain ⟨hfit, hless, hroom'⟩ := cmsg_g2h_room abi h hok hroom
      rw [← drop_add_align] at hrest
      rw [cmsg_g2h_loop_next h hok hfit]
      exact ih _ (hn ▸ hless) _ _ _ hrest hroom' rfl

variable (m abi) in
theorem cmsg_g2h_loop_in_bounds (done rest : List Byte) (goff : Nat) :
    cmsg_g2h_loop m abi gb (done ++ rest) goff done.length ≠ .overrun := by
  induction hn : gb.length - goff using Nat.strong_induction_on generalizing goff done rest with
  | _ n ih =>
    by_cases h : GCMSG_HDRLEN ≤ (gb.drop goff).length
    case neg =>
      rw [cmsg_g2h_loop_done h]
      exact G2h.noConfusion
    case pos =>
      by_cases hok : CmsgOk (gb.drop goff)
      case neg =>
        rw [cmsg_g2h_loop_invalid h hok]
        exact G2h.noConfusion
      case pos =>
        by_cases hfit : (host_image abi (Cmsg.first (gb.drop goff))).length ≤ rest.length
        case neg =>
          rw [cmsg_g2h_loop_full h hok hfit]
          exact G2h.noConfusion
        case pos =>
          have hshort := length_cmsg_rest h hok
          rw [← drop_add_align, length_drop, length_drop, hn] at hshort
          rw [cmsg_g2h_loop_next h hok hfit]
          exact ih _ hshort _ _ _ rfl

end guest_to_host

end arm64emu
