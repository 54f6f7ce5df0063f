import Mathlib
import Arm64Emu.Net.Deliver

open bytes

namespace arm64emu

open List

variable (m : NetIds) (abi : HostAbi)

def host_element (hb : List Byte) (hoff : Nat) : Cmsg :=
  ⟨get32 hb (hoff + abi.word), get32 hb (hoff + abi.word + 4),
    sub hb (hoff + CMSG_ALIGN abi abi.cmsghdr) (ofLe (sub hb hoff abi.word) - CMSG_LEN abi 0)⟩

/-- The elements of a host buffer from `hoff` on, and whether bytes are left over that
are not one. -/
def host_walk (hb : List Byte) (hoff : Nat) : List Cmsg × Bool :=
  if hoff + CMSG_ALIGN abi abi.cmsghdr ≤ hb.length then
    let clen := ofLe (sub hb hoff abi.word)
    if clen < CMSG_LEN abi 0 ∨ hb.length - hoff < clen then ([], decide (hoff < hb.length))
    else
      let rest := host_walk hb (hoff + CMSG_ALIGN abi clen)
      (host_element abi hb hoff :: rest.1, rest.2)
  else ([], decide (hoff < hb.length))
termination_by hb.length - hoff
decreasing_by exact cmsg_walk_lt ‹_› ‹_›

section walk

variable {abi} {hb : List Byte} {hoff : Nat}

structure HostElementAt (abi : HostAbi) (hb : List Byte) (hoff : Nat) : Prop where
  hdr : hoff + CMSG_ALIGN abi abi.cmsghdr ≤ hb.length
  len : ¬(ofLe (sub hb hoff abi.word) < CMSG_LEN abi 0 ∨ hb.length - hoff < ofLe (sub hb hoff abi.word))

theorem HostElementAt.data_length (h : HostElementAt abi hb hoff) :
    CMSG_LEN abi (host_element abi hb hoff).data.length = ofLe (sub hb hoff abi.word) := by
  have hlen := h.len
  have hhdr := h.hdr
  rw [not_or] at hlen
  rw [host_element, length_sub (by unfold CMSG_LEN at *; omega)]
  unfold CMSG_LEN at *
  omega

theorem HostElementAt.size (h : HostElementAt abi hb hoff) :
    CMSG_LEN abi (host_element abi hb hoff).data.length < 256 ^ abi.word := by
  have hword : (sub hb hoff abi.word).length = abi.word := by
    refine length_sub ?_
    have hhdr := h.hdr
    have hle : abi.word ≤ CMSG_ALIGN abi abi.cmsghdr := by cases abi <;> decide
    omega
  have hlt := ofLe_lt (sub hb hoff abi.word)
  rwa [hword, ← h.data_length] at hlt

theorem get32_sub {buf : List Byte} {off n i : Nat} (hi : i + 4 ≤ n) :
    get32 (sub buf off n) i = get32 buf (off + i) := by
  unfold get32 sub
  congr 2
  rw [drop_take, take_take, min_eq_left (by omega), drop_drop]

theorem HostElementAt.rights_fds (h : HostElementAt abi hb hoff) :
    rights_fds abi hb hoff (ofLe (sub hb hoff abi.word)) (host_element abi hb hoff).level
      (host_element abi hb hoff).type = (host_element abi hb hoff).fds := by
  have hlen : ofLe (sub hb hoff abi.word) - CMSG_LEN abi 0 = (host_element abi hb hoff).data.length := by
    rw [← h.data_length]
    unfold CMSG_LEN
    omega
  unfold arm64emu.rights_fds Cmsg.fds
  rw [hlen]
  congr 1
  apply map_congr_left
  intro i hi
  rw [mem_range] at hi
  rw [host_element, get32_sub (by rw [hlen]; omega)]

theorem host_walk_none (h : ¬HostElementAt abi hb hoff) : host_walk abi hb hoff = ([], decide (hoff < hb.length)) := by
  rw [host_walk]
  split
  next hhdr =>
    dsimp only
    split
    next => rfl
    next hlen => exact absurd ⟨hhdr, hlen⟩ h
  next => rfl

theorem host_walk_some (h : HostElementAt abi hb hoff) : host_walk abi hb hoff =
    (host_element abi hb hoff :: (host_walk abi hb (hoff + CMSG_ALIGN abi (ofLe (sub hb hoff abi.word)))).1,
      (host_walk abi hb (hoff + CMSG_ALIGN abi (ofLe (sub hb hoff abi.word)))).2) := by
  rw [host_walk, if_pos h.hdr]
  rw [if_neg h.len]

theorem cmsg_close_rights_eq (hb : List Byte) (hoff : Nat) :
    cmsg_close_rights abi hb hoff = (host_walk abi hb hoff).1.flatMap Cmsg.fds := by
  induction hn : hb.length - hoff using Nat.strong_induction_on generalizing hoff with
  | _ n ih =>
    by_cases h : HostElementAt abi hb hoff
    · have hfds := h.rights_fds
      have hlt := cmsg_walk_lt h.hdr h.len
      rw [cmsg_close_rights, if_pos h.hdr, host_walk_some h, flatMap_cons]
      rw [if_neg h.len, ih _ (by omega) _ rfl, ← hfds]
      rfl
    rw [host_walk_none h, cmsg_close_rights]
    split
    next hhdr =>
      dsimp only
      split
      next => rfl
      next hlen => exact absurd ⟨hhdr, hlen⟩ h
    next => rfl

end walk

section turn

variable {m abi} {hb : List Byte} {hoff : Nat} {fdcap : Int} {r : H2g}

theorem cmsg_h2g_loop_stop (h : ¬HostElementAt abi hb hoff) :
    cmsg_h2g_loop m abi hb fdcap hoff r = some { r with ctrunc := r.ctrunc || decide (hoff < hb.length) } := by
  have hclose : cmsg_close_rights abi hb hoff = [] := by rw [cmsg_close_rights_eq, host_walk_none h, flatMap_nil]
  have hfinish : cmsg_h2g_finish abi hb hoff r = { r with ctrunc := r.ctrunc || decide (hoff < hb.length) } := by
    unfold cmsg_h2g_finish
    split
    next hlt => rw [hclose, append_nil, decide_eq_true hlt, Bool.or_true]
    next hle => rw [decide_eq_false hle, Bool.or_false]
  rw [cmsg_h2g_loop, hfinish]
  split
  next hhdr =>
    dsimp only
    split
    next => rfl
    next hlen => exact absurd ⟨hhdr, hlen⟩ h
  next => rfl

variable (m fdcap) in
theorem cmsg_h2g_loop_at (h : HostElementAt abi hb hoff) {e : Cmsg} (he : host_element abi hb hoff = e)
    {room keep want next : Nat} (hroom : r.gb.length - r.goff = room) (hkeep : rights_keep e.fds room fdcap = keep)
    (hwant : GCMSG_HDRLEN + (e.trim keep).data.length = want)
    (hnext : hoff + CMSG_ALIGN abi (ofLe (sub hb hoff abi.word)) = next) :
    ((keep < e.fds.length ∧ keep = 0) →
      cmsg_h2g_loop m abi hb fdcap hoff r = cmsg_h2g_loop m abi hb fdcap next (r.note e.fds keep)) ∧
    (¬(keep < e.fds.length ∧ keep = 0) → room < want ∧ room < GCMSG_HDRLEN →
      cmsg_h2g_loop m abi hb fdcap hoff r = some { r.note e.fds keep with
        ctrunc := true
        closed := (r.note e.fds keep).closed ++ cmsg_close_rights abi hb hoff }) ∧
    (¬(keep < e.fds.length ∧ keep = 0) → ¬(room < want ∧ room < GCMSG_HDRLEN) → ∀ gb,
      cmsg_h2g_element m r.gb r.goff (placed room want) (placed_step room want) e.level e.type
        (e.data.take (placed room want - GCMSG_HDRLEN)) = some gb →
      cmsg_h2g_loop m abi hb fdcap hoff r = cmsg_h2g_loop m abi hb fdcap next
        { r.note e.fds keep with
          ctrunc := (r.note e.fds keep).ctrunc || decide (room < want)
          gb := gb
          goff := r.goff + placed_step room want }) := by
  have hfds := h.rights_fds
  have hclen := h.data_length
  rw [he] at hfds hclen
  obtain ⟨htrim, htrim_le⟩ := Cmsg.length_trim abi e keep
  have hlevel : get32 hb (hoff + abi.word) = e.level := by rw [← he, host_element]
  have htype : get32 hb (hoff + abi.word + 4) = e.type := by rw [← he, host_element]
  have hdata : sub hb (hoff + CMSG_ALIGN abi abi.cmsghdr) (placed room want - GCMSG_HDRLEN) =
      e.data.take (placed room want - GCMSG_HDRLEN) := by
    have hplaced : placed room want - GCMSG_HDRLEN ≤ e.data.length := by
      unfold placed
      split <;> omega
    have hdlen : ofLe (sub hb hoff abi.word) - CMSG_LEN abi 0 = e.data.length := by
      rw [← hclen]
      unfold CMSG_LEN
      omega
    rw [← he, host_element]
    rw [hdlen, sub, sub, take_take, min_eq_left hplaced]
  rw [cmsg_h2g_loop, if_pos h.hdr]
  simp only [if_neg h.len, hlevel, htype, hfds, hroom, hkeep, hnext]
  rw [← hclen]
  simp only [htrim, hwant]
  refine ⟨fun hskip => ?_, fun hskip hend => ?_, fun hskip hend gb hwrite => ?_⟩
  · rw [if_pos hskip]
    rfl
  · rw [if_neg hskip, if_pos hend]
    rfl
  · rw [if_neg hskip, if_neg hend, ← placed, hdata, ← placed_step, hwrite]
    rfl

end turn

section place

variable {e : Cmsg} {fdcap : Int} {room keep want : Nat}

theorem Cmsg.fds_cut (e : Cmsg) (k : Nat) : (e.cut k).fds = e.fds.take (k / 4) := by
  unfold Cmsg.fds Cmsg.cut
  split
  next =>
    rw [← map_take, take_range, length_take]
    have hlen : min k e.data.length / 4 = min (k / 4) (e.data.length / 4) := by omega
    rw [hlen]
    apply map_congr_left
    intro i hi
    rw [mem_range, lt_min_iff] at hi
    have htake : e.data.take k = sub e.data 0 k := rfl
    rw [htake, get32_sub (by omega), Nat.zero_add]
  next => rw [take_nil]

theorem Cmsg.fds_to_guest (m : NetIds) (e : Cmsg) : (e.to_guest m).fds = e.fds := by
  unfold Cmsg.to_guest
  split
  next hcred =>
    have hne : ¬(e.level = SOL_SOCKET ∧ e.type = SCM_RIGHTS) := by
      rintro ⟨-, htype⟩
      exact absurd (htype.symm.trans hcred.2) (by decide)
    unfold Cmsg.fds
    rw [if_neg hne, if_neg hne]
  next => rfl

theorem rights_keep_le (fds : List u32) (room : Nat) (fdcap : Int) :
    rights_keep fds room fdcap ≤ fds.length ∧ rights_keep fds room fdcap * 4 ≤ room - GCMSG_HDRLEN := by
  have hle (fit : Nat) :
      ((fds.take fit).takeWhile fun fd => decide (fd.toInt < fdcap)).length ≤ min fit fds.length := by
    rw [← length_take]
    exact (takeWhile_sublist _).length_le
  rw [rights_keep]
  split
  next => have := hle ((room - GCMSG_HDRLEN) / 4); omega
  next => have := hle 0; omega

theorem fds_placed (m : NetIds) (hkeep : rights_keep e.fds room fdcap = keep)
    (hwant : GCMSG_HDRLEN + (e.trim keep).data.length = want) (hend : ¬(room < want ∧ room < GCMSG_HDRLEN)) :
    (((e.trim keep).cut (placed room want - GCMSG_HDRLEN)).to_guest m).fds = e.fds.take keep := by
  obtain ⟨hle, hroom⟩ := rights_keep_le e.fds room fdcap
  obtain ⟨-, -, hcut⟩ := placed_bounds hwant hend
  have hfds := e.length_fds_le
  rw [hkeep] at hle hroom
  rw [Cmsg.fds_to_guest, e.cut_trim hcut, Cmsg.fds_cut]
  by_cases hlt : keep < e.fds.length
  · -- a trimmed element has its room, by the choice of `keep`
    rw [Cmsg.trim, if_pos hlt, Cmsg.cut, length_take] at hwant
    have hplaced : (placed room want - GCMSG_HDRLEN) / 4 = keep := by
      unfold placed
      split <;> omega
    rw [hplaced]
  have hplaced : keep ≤ (placed room want - GCMSG_HDRLEN) / 4 := by
    rw [Cmsg.trim, if_neg hlt] at hwant
    unfold placed
    split <;> omega
  rw [take_of_length_le (by omega), take_of_length_le (by omega)]

end place

section run

variable {m abi}

theorem perm_take_drop {α : Type} {fds closed received rest : List α} (keep : Nat)
    (h : (closed ++ received).Perm rest) :
    (fds.drop keep ++ closed ++ (fds.take keep ++ received)).Perm (fds ++ rest) := by
  have hswap : (fds.drop keep ++ closed ++ (fds.take keep ++ received)).Perm
      (fds.take keep ++ fds.drop keep ++ (closed ++ received)) := by
    rw [← Multiset.coe_eq_coe]
    simp only [← Multiset.coe_add]
    abel
  rw [take_append_drop] at hswap
  exact hswap.trans (h.append_left fds)

/-- What `cmsg_h2g` leaves in the guest's buffer reads as `deliver` says, and each descriptor in the host's is either
closed or received. -/
theorem cmsg_h2g_loop_rights (hb : List Byte) (fdcap : Int) (hoff : Nat) (doneg restg : List Byte) (r : H2g)
    (hgb : r.gb = doneg ++ restg) (hgoff : r.goff = doneg.length) :
    ∃ r' image rest closed received, cmsg_h2g_loop m abi hb fdcap hoff r = some r' ∧
      r'.gb = doneg ++ (image ++ rest) ∧ r'.goff = (doneg ++ image).length ∧
      image.length + rest.length = restg.length ∧
      elements image = (deliver m fdcap restg.length (host_walk abi hb hoff).1).1 ∧
      r'.ctrunc = (r.ctrunc || (deliver m fdcap restg.length (host_walk abi hb hoff).1).2 ||
        (host_walk abi hb hoff).2) ∧
      r'.closed = r.closed ++ closed ∧ r'.received = r.received ++ received ∧
      (closed ++ received).Perm ((host_walk abi hb hoff).1.flatMap Cmsg.fds) ∧
      received = (elements image).flatMap Cmsg.fds := by
  induction hn : hb.length - hoff using Nat.strong_induction_on generalizing hoff doneg restg r with
  | _ n ih =>
    by_cases h : HostElementAt abi hb hoff
    case neg =>
      rw [host_walk_none h, cmsg_h2g_loop_stop h]
      refine ⟨_, [], restg, [], [], rfl, hgb, ?_, Nat.zero_add _, ?_, ?_, ?_, ?_, .refl _, ?_⟩
      · rw [append_nil]
        exact hgoff
      · exact elements_of_short (by decide)
      · rw [deliver, Bool.or_false]
      · rw [append_nil]
      · rw [append_nil]
      · rw [elements_of_short (by decide), flatMap_nil]
    case pos =>
    have hlt := cmsg_walk_lt h.hdr h.len
    have hroom : r.gb.length - r.goff = restg.length := by
      rw [hgb, hgoff, length_append, Nat.add_sub_cancel_left]
    have hwalk := host_walk_some h
    have hclose : cmsg_close_rights abi hb hoff = _ := cmsg_close_rights_eq hb hoff
    have hsize := h.size
    generalize he : host_element abi hb hoff = e at *
    generalize hnext : hoff + CMSG_ALIGN abi (ofLe (sub hb hoff abi.word)) = next at *
    obtain ⟨hskip, hend, hplace⟩ := cmsg_h2g_loop_at m fdcap h he hroom rfl rfl hnext
    rw [hwalk] at hclose ⊢
    rw [deliver, flatMap_cons]
    generalize hkeep : rights_keep e.fds restg.length fdcap = keep at *
    split_ifs with h₁ h₂
    · obtain ⟨r', image, rest, closed, received, hrun, hgb', hgoff', hle, hels, htrunc, hclosed, hreceived, hperm,
        hfds⟩ := ih _ (by omega) next doneg restg (r.note e.fds keep) hgb hgoff rfl
      refine ⟨r', image, rest, e.fds.drop keep ++ closed, e.fds.take keep ++ received, (hskip h₁).trans hrun, hgb',
        hgoff', hle, hels, ?_, ?_, ?_, perm_take_drop keep hperm, ?_⟩
      · rw [htrunc, H2g.note, decide_eq_true h₁.1]
        simp only [Bool.or_true, Bool.true_or]
      · rw [hclosed]
        exact append_assoc _ _ _
      · rw [hreceived]
        exact append_assoc _ _ _
      · rw [h₁.2, take_zero, nil_append, hfds]
    · -- without room for a header no descriptor was kept, so the element has none
      have hnone : e.fds = [] := by
        have hbound := (rights_keep_le e.fds restg.length fdcap).2
        rw [hkeep] at hbound
        exact eq_nil_of_length_eq_zero (by omega)
      rw [hnone, nil_append]
      rw [flatMap_cons, hnone, nil_append] at hclose
      refine ⟨_, [], restg, cmsg_close_rights abi hb hoff, [], hend h₁ h₂, hgb, ?_, Nat.zero_add _, ?_, ?_, ?_, ?_, ?_,
          ?_⟩
      · rw [append_nil]
        exact hgoff
      · exact elements_of_short (by decide)
      · rw [Bool.or_true, Bool.true_or]
      · rw [H2g.note, hnone, drop_nil, append_nil]
      · rw [H2g.note, hnone, take_nil]
      · rw [append_nil, hclose]
      · rw [elements_of_short (by decide), flatMap_nil]
    obtain ⟨hhdr, hfit, hcut⟩ := placed_bounds rfl h₂
    have hplaced := fds_placed m hkeep rfl h₂
    generalize hwant : GCMSG_HDRLEN + (e.trim keep).data.length = want at *
    obtain ⟨hlow, hhigh, halign⟩ := placed_step_bounds hfit
    rw [e.cut_trim hcut] at hplaced ⊢
    set e' := e.cut (placed restg.length want - GCMSG_HDRLEN) with he'
    set gstep := placed_step restg.length want with hgstep
    have hlen : GCMSG_HDRLEN + e'.data.length = placed restg.length want := by
      have htrim := (Cmsg.length_trim abi e keep).2
      rw [he', Cmsg.cut, length_take]
      omega
    have hlen' : GCMSG_HDRLEN + (e'.to_guest m).data.length = placed restg.length want := by
      rw [Cmsg.length_to_guest, hlen]
    have hwrite : cmsg_h2g_element m (doneg ++ restg) doneg.length (GCMSG_HDRLEN + e'.data.length) gstep
      e'.level e'.type e'.data = _ := cmsg_h2g_element_eq e' (hlen ▸ hlow) hhigh
    rw [hlen, ← hgb, ← hgoff] at hwrite
    have himage : (guest_image (e'.to_guest m) gstep).length = gstep := length_guest_image (hlen' ▸ hlow)
    have hdropped : (restg.drop gstep).length = restg.length - gstep := length_drop
    obtain ⟨r', image, rest, closed, received, hrun, hgb', hgoff', hle, hels, htrunc, hclosed, hreceived, hperm,
      hfds⟩ := ih _ (by omega) next (doneg ++ guest_image (e'.to_guest m) gstep) (restg.drop gstep)
        { r.note e.fds keep with
          ctrunc := (r.note e.fds keep).ctrunc || decide (restg.length < want)
          gb := doneg ++ (guest_image (e'.to_guest m) gstep ++ restg.drop gstep)
          goff := r.goff + gstep }
        (append_assoc _ _ _).symm (by rw [length_append, himage, hgoff]) rfl
    rw [hdropped] at hle hels htrunc
    have himages : elements (guest_image (e'.to_guest m) gstep ++ image) = e'.to_guest m :: elements image := by
      have htail : gstep = GCMSG_ALIGN (GCMSG_HDRLEN + (e'.to_guest m).data.length) ∨
          gstep ≤ GCMSG_ALIGN (GCMSG_HDRLEN + (e'.to_guest m).data.length) ∧ image = [] := by
        rw [hlen']
        exact halign.imp_right fun h => ⟨h.1, eq_nil_of_length_eq_zero (by omega)⟩
      have hwide := guest_len_lt abi hsize
      have htrim := (Cmsg.length_trim abi e keep).2
      exact elements_guest_image (hlen' ▸ hlow) (by omega) htail
    refine ⟨r', guest_image (e'.to_guest m) gstep ++ image, rest, e.fds.drop keep ++ closed,
        e.fds.take keep ++ received,
      (hplace h₁ h₂ _ hwrite).trans hrun, ?_, ?_, ?_, ?_, ?_, ?_, ?_, perm_take_drop keep hperm, ?_⟩
    · rw [hgb']
      simp only [append_assoc]
    · rw [hgoff', append_assoc]
    · rw [length_append, himage]
      omega
    · rw [himages, hels]
    · rw [htrunc, H2g.note]
      simp only [Bool.or_assoc]
    · rw [hclosed]
      exact append_assoc _ _ _
    · rw [hreceived]
      exact append_assoc _ _ _
    · rw [himages, flatMap_cons, hplaced, hfds]

variable (m) in
theorem deliver_all {fdcap : Int} {room : Nat} {es : List Cmsg} (h : (deliver m fdcap room es).2 = false) :
    (deliver m fdcap room es).1 = es.map (Cmsg.to_guest m) := by
  induction es generalizing room with
  | nil => rfl
  | cons e es ih =>
    rw [deliver] at h ⊢
    dsimp only at h ⊢
    split_ifs at h ⊢ with h₁ h₂
    rw [Bool.or_eq_false_iff, Bool.or_eq_false_iff, decide_eq_false_iff_not, decide_eq_false_iff_not] at h
    obtain ⟨⟨hkeep, hroom⟩, hrest⟩ := h
    rw [map_cons, ih hrest, placed, if_neg hroom, Nat.add_sub_cancel_left, Cmsg.cut_of_le le_rfl,
      Cmsg.trim_of_le (by omega)]

def cmsg_bytes (es : List Cmsg) : Nat := (es.map fun e => GCMSG_HDRLEN + e.data.length).sum

theorem cmsg_bytes_cons (e : Cmsg) (es : List Cmsg) :
    cmsg_bytes (e :: es) = GCMSG_HDRLEN + e.data.length + cmsg_bytes es := by
  rw [cmsg_bytes, map_cons, sum_cons, cmsg_bytes]

theorem cmsg_bytes_to_guest (es : List Cmsg) : cmsg_bytes (es.map (Cmsg.to_guest m)) = cmsg_bytes es := by
  unfold cmsg_bytes
  rw [map_map]
  congr 2
  funext e
  exact congrArg _ e.length_to_guest

variable (m) in
theorem deliver_bytes (fdcap : Int) (room : Nat) (es : List Cmsg) :
    cmsg_bytes (deliver m fdcap room es).1 ≤ cmsg_bytes es ∧
      ((deliver m fdcap room es).2 = true → cmsg_bytes (deliver m fdcap room es).1 < cmsg_bytes es) := by
  have hpos : 0 < GCMSG_HDRLEN := by decide
  induction es generalizing room with
  | nil =>
    rw [deliver]
    exact ⟨le_rfl, fun h => absurd h (by decide)⟩
  | cons e es ih =>
    rw [deliver]
    rw [cmsg_bytes_cons]
    split_ifs with h₁ h₂ <;> dsimp only
    · have hle := (ih room).1
      exact ⟨by omega, fun _ => by omega⟩
    · have hnil : cmsg_bytes [] = 0 := rfl
      exact ⟨by omega, fun _ => by omega⟩
    generalize hkeep : rights_keep e.fds room fdcap = keep at *
    generalize hwant : GCMSG_HDRLEN + (e.trim keep).data.length = want at *
    obtain ⟨-, -, hcut⟩ := placed_bounds hwant h₂
    obtain ⟨hle, hlt⟩ := ih (room - placed_step room want)
    have hfds := e.length_fds_le
    have htrim : (e.trim keep).data.length ≤ e.data.length ∧
        (keep < e.fds.length → (e.trim keep).data.length < e.data.length) := by
      unfold Cmsg.trim Cmsg.cut
      split
      · rw [length_take]
        omega
      · omega
    have hdata : (((e.trim keep).cut (placed room want - GCMSG_HDRLEN)).to_guest m).data.length =
        placed room want - GCMSG_HDRLEN := by
      rw [Cmsg.length_to_guest, Cmsg.cut, length_take, min_eq_left hcut]
    have hplaced : room < want → placed room want < want := fun h => by
      rw [placed, if_pos h]
      exact h
    rw [cmsg_bytes_cons, hdata]
    refine ⟨by omega, fun h => ?_⟩
    rw [Bool.or_eq_true, Bool.or_eq_true, decide_eq_true_iff, decide_eq_true_iff] at h
    obtain (hfew | hcutoff) | hrest := h
    · have := htrim.2 hfew
      omega
    · have := hplaced hcutoff
      omega
    · have := hlt hrest
      omega

theorem deliver_flag_iff (fdcap : Int) (room : Nat) (es : List Cmsg) :
    (deliver m fdcap room es).2 = false ↔ (deliver m fdcap room es).1 = es.map (Cmsg.to_guest m) := by
  refine ⟨deliver_all m, fun h => ?_⟩
  by_contra hflag
  have hlt := (deliver_bytes m fdcap room es).2 (Bool.eq_true_of_not_eq_false hflag)
  rw [h, cmsg_bytes_to_guest] at hlt
  exact lt_irrefl _ hlt

variable (m abi) in
theorem cmsg_h2g_reads (hb gb : List Byte) (fdcap : Int) :
    ∃ r, cmsg_h2g m abi hb gb fdcap = some r ∧ r.goff ≤ r.gb.length ∧ r.gb.length = gb.length ∧
      elements (r.gb.take r.goff) = (deliver m fdcap gb.length (host_walk abi hb 0).1).1 ∧
      r.ctrunc = ((deliver m fdcap gb.length (host_walk abi hb 0).1).2 || (host_walk abi hb 0).2) ∧
      (r.closed ++ r.received).Perm ((host_walk abi hb 0).1.flatMap Cmsg.fds) ∧
      (elements (r.gb.take r.goff)).flatMap Cmsg.fds = r.received := by
  obtain ⟨r, image, rest, closed, received, hrun, hgb, hgoff, hlen, hels, htrunc, hclosed, hreceived, hperm, hfds⟩ :=
    cmsg_h2g_loop_rights (m := m) hb fdcap 0 [] gb ⟨gb, 0, false, [], []⟩ rfl rfl
  rw [nil_append] at hgb hgoff
  have htake : r.gb.take r.goff = image := by rw [hgb, hgoff, take_left]
  refine ⟨r, hrun, ?_, ?_, ?_, ?_, ?_, ?_⟩
  · rw [hgb, hgoff, length_append]
    exact Nat.le_add_right _ _
  · rw [hgb, length_append, hlen]
  · rw [htake, hels]
  · rw [htrunc, Bool.false_or]
  · rw [hclosed, hreceived]
    exact hperm
  · rw [htake, hreceived, hfds]
    rfl

variable (m abi) in
/-- Each descriptor in the host's buffer is closed or received and none is both, those received are the ones the
guest's buffer lists, and the flag is raised exactly if something is missing there. -/
theorem cmsg_h2g_no_fd_lost (hb gb : List Byte) (fdcap : Int) :
    ∃ r, cmsg_h2g m abi hb gb fdcap = some r ∧ r.goff ≤ r.gb.length ∧ r.gb.length = gb.length ∧
      (r.closed ++ r.received).Perm ((host_walk abi hb 0).1.flatMap Cmsg.fds) ∧
      (elements (r.gb.take r.goff)).flatMap Cmsg.fds = r.received ∧
      (r.ctrunc = true ↔
        ¬(elements (r.gb.take r.goff) = (host_walk abi hb 0).1.map (Cmsg.to_guest m) ∧
          (host_walk abi hb 0).2 = false)) := by
  obtain ⟨r, hrun, hgoff, hlen, hread, htrunc, hperm, hfds⟩ := cmsg_h2g_reads m abi hb gb fdcap
  refine ⟨r, hrun, hgoff, hlen, hperm, hfds, ?_⟩
  rw [hread, ← deliver_flag_iff, htrunc, ← Bool.or_eq_false_iff, Bool.not_eq_false]

end run

end arm64emu
