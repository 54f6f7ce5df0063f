import Mathlib
import Arm64Emu.Net.Rights

open bytes

namespace arm64emu

open List

section images

variable (abi : HostAbi) (done tail : List Byte) (e : Cmsg)

theorem sub_host_image {off n : Nat} (h : off + n ≤ e.data.length) :
    sub (done ++ (host_image abi e ++ tail)) (done.length + CMSG_ALIGN abi abi.cmsghdr + off) n =
      sub e.data off n := by
  rw [host_image, ← length_cmsghdr_bytes abi (CMSG_LEN abi e.data.length) e.level e.type]
  rw [append_assoc, ← append_assoc done, ← length_append, sub_append_right, append_assoc,
    sub_append_left h]

theorem host_header (hsize : CMSG_LEN abi e.data.length < 256 ^ abi.word) :
    ofLe (sub (done ++ (host_image abi e ++ tail)) done.length abi.word) = CMSG_LEN abi e.data.length ∧
      get32 (done ++ (host_image abi e ++ tail)) (done.length + abi.word) = e.level ∧
      get32 (done ++ (host_image abi e ++ tail)) (done.length + abi.word + 4) = e.type := by
  simp only [host_image, cmsghdr_bytes, append_assoc]
  refine ⟨?_, ?_, ?_⟩
  · rw [sub_mid rfl (bytes.length_le _ _).symm, ofLe_le hsize]
  · rw [← append_assoc done, get32_le (by rw [length_append, bytes.length_le])]
  · rw [← append_assoc done, ← append_assoc (done ++ _),
      get32_le (by simp only [length_append, bytes.length_le])]

theorem host_element_at_image (hsize : CMSG_LEN abi e.data.length < 256 ^ abi.word) :
    HostElementAt abi (done ++ (host_image abi e ++ tail)) done.length ∧
      host_element abi (done ++ (host_image abi e ++ tail)) done.length = e := by
  obtain ⟨hclen, hlevel, htype⟩ := host_header abi done tail e hsize
  have himg := length_host_image abi e
  have hlen : (done ++ (host_image abi e ++ tail)).length =
      done.length + ((host_image abi e).length + tail.length) := by
    rw [length_append, length_append]
  have hle := le_CMSG_ALIGN abi (CMSG_LEN abi e.data.length)
  have hhdr : CMSG_ALIGN abi abi.cmsghdr ≤ CMSG_LEN abi e.data.length := Nat.le_add_right _ _
  have hzero : CMSG_LEN abi 0 ≤ CMSG_LEN abi e.data.length := Nat.add_le_add_left (Nat.zero_le _) _
  refine ⟨⟨by omega, ?_⟩, ?_⟩
  · rw [hclen]
    omega
  have hdlen : CMSG_LEN abi e.data.length - CMSG_LEN abi 0 = e.data.length := by
    unfold CMSG_LEN
    omega
  have hdata := sub_host_image abi done tail e (show 0 + e.data.length ≤ e.data.length by omega)
  rw [host_element, hclen, hlevel, htype, hdlen]
  rw [Nat.add_zero, sub, sub, drop_zero, take_length] at hdata
  rw [sub, hdata]

theorem host_walk_images (es : List Cmsg) (hsize : ∀ e ∈ es, CMSG_LEN abi e.data.length < 256 ^ abi.word)
    (done : List Byte) : host_walk abi (done ++ es.flatMap (host_image abi)) done.length = (es, false) := by
  induction es generalizing done with
  | nil =>
    have hpos : 0 < CMSG_ALIGN abi abi.cmsghdr := by cases abi <;> decide
    rw [flatMap_nil, append_nil, host_walk_none (fun h => by have := h.hdr; omega),
      decide_eq_false (lt_irrefl _)]
  | cons e es ih =>
    obtain ⟨hat, hel⟩ := host_element_at_image abi done (es.flatMap (host_image abi)) e (hsize e (.head _))
    have hrest := ih (fun e he => hsize e (.tail _ he)) (done ++ host_image abi e)
    have hnext : done.length + CMSG_ALIGN abi (CMSG_LEN abi e.data.length) = (done ++ host_image abi e).length := by
      rw [length_append, length_host_image]
    rw [append_assoc] at hrest
    rw [flatMap_cons, host_walk_some hat, ← hat.data_length, hel, hnext, hrest]

end images

section room

variable {m : NetIds} {fdcap : Int} {room : Nat} {es : List Cmsg} {e : Cmsg}

/-- The guest buffer a list of elements takes: every element but the last is
padded. -/
def cmsg_need : List Cmsg → Nat
  | [] => 0
  | [e] => GCMSG_HDRLEN + e.data.length
  | e :: es => GCMSG_ALIGN (GCMSG_HDRLEN + e.data.length) + cmsg_need es

theorem cmsg_need_cons (e : Cmsg) (es : List Cmsg) :
    GCMSG_HDRLEN + e.data.length ≤ cmsg_need (e :: es) ∧
      (es ≠ [] → cmsg_need (e :: es) = GCMSG_ALIGN (GCMSG_HDRLEN + e.data.length) + cmsg_need es) := by
  cases es with
  | nil => exact ⟨le_rfl, fun h => absurd rfl h⟩
  | cons e' es =>
    have heq : cmsg_need (e :: e' :: es) = GCMSG_ALIGN (GCMSG_HDRLEN + e.data.length) + cmsg_need (e' :: es) := rfl
    refine ⟨?_, fun _ => heq⟩
    rw [heq, GCMSG_ALIGN]
    omega

/-- All the descriptors of the elements are below the guest's limit. -/
def BelowLimit (fdcap : Int) (es : List Cmsg) : Prop := ∀ e ∈ es, ∀ fd ∈ e.fds, fd.toInt < fdcap

theorem BelowLimit.tail (h : BelowLimit fdcap (e :: es)) : BelowLimit fdcap es :=
  fun e' he' => h e' (.tail _ he')

theorem rights_keep_below {fds : List u32} (h : ∀ fd ∈ fds, fd.toInt < fdcap) (room : Nat) :
    rights_keep fds room fdcap = min fds.length ((room - GCMSG_HDRLEN) / 4) := by
  have hfit : (if GCMSG_HDRLEN < room then (room - GCMSG_HDRLEN) / 4 else 0) = (room - GCMSG_HDRLEN) / 4 := by
    split <;> omega
  have hall : (fds.take ((room - GCMSG_HDRLEN) / 4)).takeWhile (fun fd => decide (fd.toInt < fdcap)) =
      fds.take ((room - GCMSG_HDRLEN) / 4) := by
    rw [takeWhile_eq_self_iff]
    intro fd hfd
    exact decide_eq_true (h fd (mem_of_mem_take hfd))
  rw [rights_keep, hfit, hall, length_take, min_comm]

theorem deliver_whole (hbelow : BelowLimit fdcap es) (hroom : cmsg_need es ≤ room) :
    deliver m fdcap room es = (es.map (Cmsg.to_guest m), false) := by
  induction es generalizing room with
  | nil => rfl
  | cons e es ih =>
    obtain ⟨hfirst, hmore⟩ := cmsg_need_cons e es
    have hfds := e.length_fds_le
    have hkeep := rights_keep_below (hbelow e (.head _)) room
    rw [min_eq_left (by omega)] at hkeep
    have hplaced : placed room (GCMSG_HDRLEN + e.data.length) = GCMSG_HDRLEN + e.data.length := if_neg (by omega)
    have hrest : deliver m fdcap (room - placed_step room (GCMSG_HDRLEN + e.data.length)) es =
        (es.map (Cmsg.to_guest m), false) := by
      cases hes : es with
      | nil => rfl
      | cons e' es' =>
        rw [← hes]
        rw [hmore (by rw [hes]; exact cons_ne_nil _ _)] at hroom
        exact ih hbelow.tail (by rw [placed_step, hplaced]; omega)
    rw [deliver]
    simp only [hkeep, e.trim_of_le le_rfl, lt_irrefl, false_and, if_false, hplaced, hrest, Nat.add_sub_cancel_left,
      e.cut_of_le le_rfl, if_neg (show ¬(room < GCMSG_HDRLEN + e.data.length ∧ room < GCMSG_HDRLEN) by omega),
      decide_false, decide_eq_false (show ¬room < GCMSG_HDRLEN + e.data.length by omega), Bool.or_false,
      map_cons]

theorem deliver_flag (hroom : room < cmsg_need es) : (deliver m fdcap room es).2 = true := by
  induction es generalizing room with
  | nil => exact absurd hroom (Nat.not_lt_zero _)
  | cons e es ih =>
    rw [deliver]
    split_ifs with h₁ h₂
    · rfl
    · rfl
    by_cases hkeep : rights_keep e.fds room fdcap < e.fds.length
    case pos => simp only [decide_eq_true hkeep, Bool.true_or]
    case neg =>
      rw [e.trim_of_le (Nat.not_lt.1 hkeep)]
      by_cases hcut : room < GCMSG_HDRLEN + e.data.length
      case pos => simp only [decide_eq_true hcut, Bool.or_true, Bool.true_or]
      case neg =>
        obtain ⟨-, hmore⟩ := cmsg_need_cons e es
        cases es with
        | nil => exact absurd hroom hcut
        | cons e' es =>
          have hnext := (cmsg_need_cons e' es).1
          rw [hmore (cons_ne_nil _ _)] at hroom
          have hless : room - placed_step room (GCMSG_HDRLEN + e.data.length) < cmsg_need (e' :: es) := by
            rw [placed_step, placed, if_neg hcut]
            unfold GCMSG_HDRLEN at *
            omega
          simp only [ih hless, Bool.or_true]

/-- `kept` is `es` without the elements of descriptors that were reached with
room for less than a header and one descriptor. -/
inductive Without : Nat → List Cmsg → List Cmsg → Prop where
  | nil {room : Nat} : Without room [] []
  | keep {room : Nat} {e : Cmsg} {es kept : List Cmsg} :
      Without (room - GCMSG_ALIGN (GCMSG_HDRLEN + e.data.length)) es kept → Without room (e :: es) (e :: kept)
  | drop {room : Nat} {e : Cmsg} {es kept : List Cmsg} :
      e.fds ≠ [] → room < GCMSG_HDRLEN + 4 → Without room es kept → Without room (e :: es) kept

/-- What arrives of `es` in `room` bytes: the elements up to some point, without
those `Without` leaves out, each whole but for the last, which may be cut. -/
def CutShort (m : NetIds) (room : Nat) (es out : List Cmsg) : Prop :=
  ∃ seen rest kept, es = seen ++ rest ∧ Without room seen kept ∧
    (out = kept.map (Cmsg.to_guest m) ∨
      ∃ init e k, kept = init ++ [e] ∧ k < e.data.length ∧
        out = init.map (Cmsg.to_guest m) ++ [(e.cut k).to_guest m])

theorem CutShort.none (es : List Cmsg) : CutShort m room es [] := ⟨[], es, [], rfl, .nil, .inl rfl⟩

theorem CutShort.last {k : Nat} (hk : k < e.data.length) : CutShort m room (e :: es) [(e.cut k).to_guest m] :=
  ⟨[e], es, [e], rfl, .keep .nil, .inr ⟨[], e, k, rfl, hk, rfl⟩⟩

theorem CutShort.keep {out : List Cmsg}
    (h : CutShort m (room - GCMSG_ALIGN (GCMSG_HDRLEN + e.data.length)) es out) :
    CutShort m room (e :: es) (e.to_guest m :: out) := by
  obtain ⟨seen, rest, kept, rfl, hkept, hout⟩ := h
  refine ⟨e :: seen, rest, e :: kept, rfl, .keep hkept, ?_⟩
  rcases hout with rfl | ⟨init, e', k, rfl, hk, rfl⟩
  · exact .inl rfl
  · exact .inr ⟨e :: init, e', k, rfl, hk, rfl⟩

theorem CutShort.drop {out : List Cmsg} (hfds : e.fds ≠ []) (hroom : room < GCMSG_HDRLEN + 4)
    (h : CutShort m room es out) : CutShort m room (e :: es) out := by
  obtain ⟨seen, rest, kept, rfl, hkept, hout⟩ := h
  exact ⟨e :: seen, rest, kept, rfl, .drop hfds hroom hkept, hout⟩

theorem deliver_none (hroom : room < GCMSG_HDRLEN) : (deliver m fdcap room es).1 = [] := by
  induction es with
  | nil => rfl
  | cons e es ih =>
    rw [deliver]
    split_ifs with h₁ h₂
    · exact ih
    · rfl
    · exact absurd ⟨by omega, hroom⟩ h₂

theorem no_room_past_cut {keep want : Nat} (hkeep : keep = min e.fds.length ((room - GCMSG_HDRLEN) / 4))
    (hwant : GCMSG_HDRLEN + (e.trim keep).data.length = want) (hend : ¬(room < want ∧ room < GCMSG_HDRLEN))
    (hcut : placed room want - GCMSG_HDRLEN < e.data.length) : room - placed_step room want < GCMSG_HDRLEN := by
  have hfds := e.length_fds_le
  obtain ⟨hhdr, hfit, -⟩ := placed_bounds hwant hend
  obtain ⟨hlow, -, -⟩ := placed_step_bounds hfit
  by_cases hshort : room < want
  case pos =>
    have hplaced : placed room want = room := if_pos hshort
    unfold GCMSG_HDRLEN
    omega
  case neg =>
    have hplaced : placed room want = want := if_neg hshort
    have htrim : (e.trim keep).data.length = if keep < e.fds.length then keep * 4 else e.data.length := by
      unfold Cmsg.trim Cmsg.cut
      split
      · rw [length_take]
        omega
      · rfl
    unfold GCMSG_HDRLEN at *
    split at htrim <;> omega

theorem deliver_cutShort (hbelow : BelowLimit fdcap es) : CutShort m room es (deliver m fdcap room es).1 := by
  induction es generalizing room with
  | nil => exact .none []
  | cons e es ih =>
    have hfds := e.length_fds_le
    have hkeep := rights_keep_below (hbelow e (.head _)) room
    rw [deliver]
    split_ifs with h₁ h₂
    · refine .drop ?_ ?_ (ih hbelow.tail)
      · exact ne_nil_of_length_pos (by omega)
      · omega
    · exact .none _
    obtain ⟨hhdr, hfit, hle⟩ := placed_bounds rfl h₂
    generalize hwant : GCMSG_HDRLEN + (e.trim (rights_keep e.fds room fdcap)).data.length = want at *
    rw [e.cut_trim hle]
    dsimp only
    by_cases hcut : placed room want - GCMSG_HDRLEN < e.data.length
    case pos =>
      rw [deliver_none (no_room_past_cut hkeep hwant h₂ hcut)]
      exact .last hcut
    case neg =>
      have htrim := (Cmsg.length_trim .lp64 e (rights_keep e.fds room fdcap)).2
      have hplaced : placed room want = GCMSG_HDRLEN + e.data.length := by omega
      have hstep : room - placed_step room want = room - GCMSG_ALIGN (GCMSG_HDRLEN + e.data.length) := by
        rw [placed_step, hplaced]
        omega
      rw [e.cut_of_le (Nat.not_lt.1 hcut), hstep]
      exact .keep (ih hbelow.tail)

end room

section round_trip

variable (m : NetIds) (abi : HostAbi)

theorem Cmsg.fds_to_host (e : Cmsg) : (e.to_host m).fds = e.fds := by
  unfold Cmsg.to_host
  split
  next h =>
    have htype : e.type ≠ SCM_RIGHTS := by
      rw [h.2.2.1]
      decide
    rw [Cmsg.fds, Cmsg.fds, if_neg fun h' => htype h'.2, if_neg fun h' => htype h'.2]
  next => rfl

theorem cmsg_need_to_host (es : List Cmsg) : cmsg_need (es.map (Cmsg.to_host m)) = cmsg_need es := by
  induction es with
  | nil => rfl
  | cons e es ih =>
    cases es with
    | nil => exact congrArg (GCMSG_HDRLEN + ·) (e.length_to_host m)
    | cons e' es =>
      rw [map_cons, (cmsg_need_cons _ _).2 (by simp), ih, (cmsg_need_cons e _).2 (by simp), e.length_to_host]

theorem BelowLimit.to_host {fdcap : Int} {es : List Cmsg} (h : BelowLimit fdcap es) :
    BelowLimit fdcap (es.map (Cmsg.to_host m)) := by
  intro e' he'
  obtain ⟨e, he, rfl⟩ := mem_map.1 he'
  rw [e.fds_to_host]
  exact h e he

theorem length_of_mem_elements {l : List Byte} {e : Cmsg} (he : e ∈ elements l) :
    GCMSG_HDRLEN + e.data.length ≤ l.length := by
  induction l using elements.induct with
  | case1 l h ih =>
    rw [elements_of_ok h.1 h.2, mem_cons] at he
    rcases he with rfl | he
    · have hok := h.2
      unfold CmsgOk at hok
      have hlen : (Cmsg.first l).data.length = cmsg_len l - GCMSG_HDRLEN := length_sub (by omega)
      omega
    have hshort := length_cmsg_rest h.1 h.2
    have hle := ih he
    omega
  | case2 l h =>
    rw [elements, if_neg h] at he
    cases he

/-- What a host receives of a control buffer the guest sends, and the outcome
where the buffer is malformed. -/
theorem msg_import_control_eq {gctrl : List Byte} (hmax : gctrl.length ≤ INT_MAX) :
    (WellFormed gctrl → msg_import_control m abi gctrl = .ok (host_images m abi (elements gctrl))) ∧
      (¬WellFormed gctrl → msg_import_control m abi gctrl = .error (-EINVAL)) := by
  have hroom : gctrl.length + GCMSG_ALIGN 1 ≤ 0 + (List.replicate (gctrl.length + GCMSG_ALIGN 1) 0#8).length := by
    rw [length_replicate, Nat.zero_add]
  rw [msg_import_control, if_neg (by omega), cmsg_g2h]
  constructor
  · intro hwf
    obtain ⟨rest, hrun⟩ := cmsg_g2h_loop_ok m abi [] _ 0 hwf hroom
    rw [nil_append, nil_append, length_nil, drop_zero] at hrun
    rw [hrun]
    exact congrArg _ take_left
  intro hwf
  have hrun := cmsg_g2h_loop_refused m abi [] _ 0 hwf hroom
  rw [nil_append, length_nil] at hrun
  rw [hrun]

/-- A control buffer is sent on exactly if it is at most `INT_MAX` long and each element reached is at least a header
and at most what is left. Converted back with room for all and every descriptor below the limit, it reads as the same
elements; with less room the flag is raised, and elements may be cut or left out. -/
theorem cmsg_round_trip (gctrl : List Byte) :
    (∀ hb, cmsg_g2h m abi gctrl hb ≠ .overrun) ∧
    ((∃ hctrl, msg_import_control m abi gctrl = .ok hctrl) ↔ gctrl.length ≤ INT_MAX ∧ WellFormed gctrl) ∧
    ∀ hctrl, msg_import_control m abi gctrl = .ok hctrl → ∀ gb fdcap, BelowLimit fdcap (elements gctrl) →
      ∃ r, cmsg_h2g m abi hctrl gb fdcap = some r ∧
        (cmsg_need (elements gctrl) ≤ gb.length →
          elements (r.gb.take r.goff) = (elements gctrl).map (fun e => (e.to_host m).to_guest m) ∧
            r.ctrunc = false) ∧
        (gb.length < cmsg_need (elements gctrl) →
          CutShort m gb.length ((elements gctrl).map (Cmsg.to_host m)) (elements (r.gb.take r.goff)) ∧
            r.ctrunc = true) := by
  have haccept : (∃ hctrl, msg_import_control m abi gctrl = .ok hctrl) ↔
      gctrl.length ≤ INT_MAX ∧ WellFormed gctrl := by
    constructor
    · rintro ⟨hctrl, himport⟩
      have hmax : gctrl.length ≤ INT_MAX := by
        by_contra hlong
        rw [msg_import_control, if_pos (by omega)] at himport
        cases himport
      refine ⟨hmax, ?_⟩
      by_contra hwf
      rw [(msg_import_control_eq m abi hmax).2 hwf] at himport
      cases himport
    · rintro ⟨hmax, hwf⟩
      exact ⟨_, (msg_import_control_eq m abi hmax).1 hwf⟩
  refine ⟨fun hb => cmsg_g2h_loop_in_bounds m abi [] hb 0, haccept, ?_⟩
  intro hctrl himport gb fdcap hbelow
  obtain ⟨hmax, hwf⟩ := haccept.1 ⟨hctrl, himport⟩
  have himages : hctrl = ((elements gctrl).map (Cmsg.to_host m)).flatMap (host_image abi) := by
    rw [(msg_import_control_eq m abi hmax).1 hwf] at himport
    rw [flatMap_map]
    exact (Except.ok.inj himport).symm
  have hsize : ∀ e ∈ (elements gctrl).map (Cmsg.to_host m), CMSG_LEN abi e.data.length < 256 ^ abi.word := by
    intro e' he'
    obtain ⟨e, he, rfl⟩ := mem_map.1 he'
    have hlen := length_of_mem_elements he
    rw [e.length_to_host]
    unfold INT_MAX at hmax
    cases abi <;> simp only [CMSG_LEN, CMSG_ALIGN, HostAbi.word, HostAbi.cmsghdr, GCMSG_HDRLEN] at hlen ⊢ <;> omega
  have hwalk := host_walk_images abi _ hsize []
  rw [nil_append, ← himages, length_nil] at hwalk
  obtain ⟨r, hrun, -, -, hread, htrunc, -⟩ := cmsg_h2g_reads m abi hctrl gb fdcap
  rw [hwalk] at hread htrunc
  rw [Bool.or_false] at htrunc
  refine ⟨r, hrun, fun hroom => ?_, fun hroom => ?_⟩
  · rw [← cmsg_need_to_host m] at hroom
    have hall : deliver m fdcap gb.length _ = _ := deliver_whole (hbelow.to_host m) hroom
    rw [hread, htrunc, hall, map_map]
    exact ⟨rfl, rfl⟩
  rw [← cmsg_need_to_host m] at hroom
  rw [hread, htrunc]
  exact ⟨deliver_cutShort (hbelow.to_host m), deliver_flag hroom⟩

end round_trip

def plain_ids : NetIds :=
  { fake_id := false, fake_uid := 0, fake_gid := 0, host_uid := 1000, host_gid := 1000, ruid := 1000, euid := 1000,
    suid := 1000, rgid := 1000, egid := 1000, sgid := 1000, has_task := fun _ => true, kill_esrch := fun _ => false }

/-- A control buffer with descriptor 5 and, after it, an element of two bytes. -/
def fd_and_note : List Byte :=
  le 8 20 ++ le 4 1 ++ le 4 1 ++ le 4 5 ++ le 4 0 ++ (le 8 18 ++ le 4 0 ++ le 4 7 ++ le 2 513)

/-- A descriptor and an element the emulator does not know, on a 32-bit host. -/
theorem cmsg_round_trip_fd_and_note :
    msg_import_control plain_ids .ilp32 fd_and_note = .ok (host_images plain_ids .ilp32 (elements fd_and_note)) ∧
      BelowLimit 1024 (elements fd_and_note) ∧
      ∃ r, cmsg_h2g plain_ids .ilp32 (host_images plain_ids .ilp32 (elements fd_and_note))
        (List.replicate 42 0#8) 1024 = some r ∧ elements (r.gb.take r.goff) = elements fd_and_note ∧
        r.ctrunc = false := by
  have himport : msg_import_control plain_ids .ilp32 fd_and_note =
      .ok (host_images plain_ids .ilp32 (elements fd_and_note)) := by decide +kernel
  have hall : ((elements fd_and_note).all fun e => e.fds.all fun fd => decide (fd.toInt < 1024)) = true := by
    decide +kernel
  have hbelow : BelowLimit 1024 (elements fd_and_note) := fun e he fd hfd =>
    of_decide_eq_true (all_eq_true.1 (all_eq_true.1 hall e he) fd hfd)
  obtain ⟨r, hrun, hwhole, -⟩ :=
    (cmsg_round_trip plain_ids .ilp32 fd_and_note).2.2 _ himport (List.replicate 42 0#8) 1024 hbelow
  obtain ⟨hels, hflag⟩ := hwhole (by decide +kernel)
  refine ⟨himport, hbelow, r, hrun, ?_, hflag⟩
  rw [hels]
  decide +kernel

/-- Descriptor 5 does not come back where the limit is 5. Through a buffer of 18 bytes it is lost as well, and the
element after it is the only one to arrive. -/
theorem cmsg_rights_left_out :
    (msg_import_control plain_ids .lp64 fd_and_note).toOption.bind (fun hctrl =>
      (cmsg_h2g plain_ids .lp64 hctrl (List.replicate 64 0#8) 5).map fun r =>
        (elements (r.gb.take r.goff), r.ctrunc)) = some ((elements fd_and_note).drop 1, true) ∧
    (msg_import_control plain_ids .lp64 fd_and_note).toOption.bind (fun hctrl =>
      (cmsg_h2g plain_ids .lp64 hctrl (List.replicate 18 0#8) 1024).map fun r =>
        (elements (r.gb.take r.goff), r.ctrunc)) = some ((elements fd_and_note).drop 1, true) ∧
    (elements fd_and_note).length = 2 := by
  decide +kernel

end arm64emu