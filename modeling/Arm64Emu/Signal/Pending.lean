import Mathlib.Data.List.Perm.Basic
import Arm64Emu.Signal.Queue

open transition

namespace arm64emu

open List

variable {α : Type*}

section positions

/-- The ring's indices are slots of its buffer, whose size is within bounds. -/
structure SigQ.Sized (q : SigQ α) : Prop where
  head_lt : q.sigq_head < q.sigq_cap
  tail_lt : q.sigq_tail < q.sigq_cap
  min_le : SIGQ_MIN ≤ q.sigq_cap
  le_max : q.sigq_cap ≤ SIGQ_MAX

def SigQ.Live (q : SigQ α) (t : Nat) : Prop := ∃ i < q.used, t = q.slot i

def SigQ.Reached (q : SigQ α) (t : Nat) : Prop := ∃ i ≤ q.used, t = q.slot i

variable {q q' : SigQ α} {t : Nat}

theorem SigQ.Sized.used_lt (h : q.Sized) : q.used < q.sigq_cap := ring.used_lt h.head_lt h.tail_lt

theorem SigQ.Sized.reached_tail (h : q.Sized) : q.Reached q.sigq_tail :=
  ⟨0, Nat.zero_le _, (ring.slot_zero h.tail_lt).symm⟩

theorem SigQ.Sized.live_tail (h : q.Sized) (hne : q.sigq_tail ≠ q.sigq_head) : q.Live q.sigq_tail :=
  ⟨0, Nat.pos_of_ne_zero fun h0 => hne ((ring.used_eq_zero_iff h.tail_lt).1 h0),
    (ring.slot_zero h.tail_lt).symm⟩

theorem SigQ.Reached.live (h : q.Reached t) (hq : q.Sized) (hne : t ≠ q.sigq_head) : q.Live t := by
  obtain ⟨i, hi, rfl⟩ := h
  refine ⟨i, Nat.lt_of_le_of_ne hi fun hused => hne ?_, rfl⟩
  rw [hused]
  exact ring.slot_used hq.head_lt hq.tail_lt

theorem SigQ.Live.reached_next (h : q.Live t) (hq : q.Sized) : q.Reached (q.next t) := by
  obtain ⟨i, hi, rfl⟩ := h
  have hlt := hq.used_lt
  exact ⟨i + 1, hi, ring.next_slot hq.tail_lt (by omega)⟩

theorem SigQ.Live.index (h : q.Live t) (hq : q.Sized) :
    ring.used q.sigq_cap t q.sigq_tail < q.used ∧ t = q.slot (ring.used q.sigq_cap t q.sigq_tail) := by
  obtain ⟨i, hi, rfl⟩ := h
  have hlt := hq.used_lt
  have hindex : ring.used q.sigq_cap (q.slot i) q.sigq_tail = i := ring.used_slot (by omega)
  rw [hindex]
  exact ⟨hi, rfl⟩

theorem SigQ.Live.mono (h : q.Live t) (hslot : ∀ i, q'.slot i = q.slot i) (hused : q.used ≤ q'.used) :
    q'.Live t := by
  obtain ⟨i, hi, rfl⟩ := h
  exact ⟨i, Nat.lt_of_lt_of_le hi hused, (hslot i).symm⟩

theorem SigQ.Reached.mono (h : q.Reached t) (hslot : ∀ i, q'.slot i = q.slot i) (hused : q.used ≤ q'.used) :
    q'.Reached t := by
  obtain ⟨i, hi, rfl⟩ := h
  exact ⟨i, Nat.le_trans hi hused, (hslot i).symm⟩

end positions

section invariant

/-- The slot whose entry is on its way out of the ring. -/
def SigCtl.hole : SigCtl → Option Nat
  | .take_cnt t _ => some t
  | .take_inj t _ => some t
  | .take_thr t _ => some t
  | .take_shift t _ => some t
  | _ => none

/-- The counts that still have the entry on its way out. -/
def SigCtl.cnt_stale : SigCtl → Bool
  | .take_cnt _ _ => true
  | _ => false

def SigCtl.inj_stale : SigCtl → Bool
  | .take_cnt _ _ => true
  | .take_inj _ _ => true
  | _ => false

def SigCtl.thr_stale : SigCtl → Bool
  | .take_cnt _ _ => true
  | .take_inj _ _ => true
  | .take_thr _ _ => true
  | _ => false

/-- The flag was lowered, and the ring is still to be looked at or the flag to be
raised. -/
def SigCtl.lowered : SigCtl → Bool
  | .look _ => true
  | .raise again _ => again
  | _ => false

def SigCont.Before (q : SigQ α) : SigCont → Prop
  | .done => True
  | .sweep _ t => q.Live t

def SigCont.After (q : SigQ α) : SigCont → Prop
  | .done => True
  | .sweep _ t => q.Reached (q.next t)

/-- The slots the consumer holds on to are slots of entries. -/
def SigCtl.At (q : SigQ α) : SigCtl → Prop
  | .pick_scan _ _ t best _ => q.Reached t ∧ ∀ b ∈ best, q.Live b
  | .picked best => ∀ b ∈ best, q.Live b
  | .take_cnt _ k => k.Before q
  | .take_inj _ k => k.Before q
  | .take_thr _ k => k.Before q
  | .take_shift _ k => k.Before q
  | .take_test k => k.After q
  | .lower k => k.After q
  | .look k => k.After q
  | .raise _ k => k.After q
  | .sweep _ t => q.Reached t
  | _ => True

/-- The entry in slot `t` is no longer one of `entries`, which the ring holds
besides. -/
def SigQ.HoleAt (q : SigQ α) (entries : List (PendSig α)) (t : Nat) : Prop :=
  ∃ i < q.used, t = q.slot i ∧ q.contents.eraseIdx i = entries

/-- The entries a count is of, while the one on its way out still counts and
after. -/
def SigState.counted (s : SigState α) (stale : Bool) : List (PendSig α) :=
  if stale then s.q.contents else s.ledger.entries

/-- What the consumer may be interrupted in. -/
structure SigState.Ok (s : SigState α) : Prop where
  sized : s.q.Sized
  holds : ∀ t, s.ctl.hole = some t → s.q.HoleAt s.ledger.entries t
  steady : s.ctl.hole = none → s.q.contents = s.ledger.entries
  cnt : ∀ sig, s.q.sigq_cnt sig = (s.counted s.ctl.cnt_stale).countP (·.signo == sig)
  inj : s.q.sigq_ninj = (s.counted s.ctl.inj_stale).countP (·.ptraced)
  thr : s.q.sigq_nthr = (s.counted s.ctl.thr_stale).countP (·.thr)
  standard : ∀ sig < 32, s.ledger.entries.countP (·.signo == sig) ≤ 1
  npend : s.ledger.entries ≠ [] → s.q.g_sig_npend = true ∨ s.ctl.lowered = true
  ctl_at : s.ctl.At s.q

variable {s s' : SigState α}

theorem SigCtl.stale_of_no_hole {c : SigCtl} (h : c.hole = none) :
    c.cnt_stale = false ∧ c.inj_stale = false ∧ c.thr_stale = false := by
  cases c <;> simp_all [SigCtl.hole, SigCtl.cnt_stale, SigCtl.inj_stale, SigCtl.thr_stale]

theorem SigQ.HoleAt.countP {q : SigQ α} {entries : List (PendSig α)} {t : Nat} (h : q.HoleAt entries t)
    (f : PendSig α → Bool) : q.contents.countP f = entries.countP f + if f (q.sigq t) then 1 else 0 := by
  obtain ⟨i, hi, rfl, rfl⟩ := h
  have hlen : i < q.contents.length := by
    rw [SigQ.contents, ring.length_contents]
    exact hi
  have hget : q.contents[i] = q.sigq (q.slot i) :=
    Option.some.inj ((List.getElem?_eq_getElem hlen).symm.trans (ring.getElem?_contents hi))
  rw [← (getElem_cons_eraseIdx_perm hlen).countP_eq, countP_cons, hget]

theorem SigState.Ok.of_steady (hhole : s.ctl.hole = none) (sized : s.q.Sized)
    (steady : s.q.contents = s.ledger.entries)
    (cnt : ∀ sig, s.q.sigq_cnt sig = s.ledger.entries.countP (·.signo == sig))
    (inj : s.q.sigq_ninj = s.ledger.entries.countP (·.ptraced))
    (thr : s.q.sigq_nthr = s.ledger.entries.countP (·.thr))
    (standard : ∀ sig < 32, s.ledger.entries.countP (·.signo == sig) ≤ 1)
    (npend : s.ledger.entries ≠ [] → s.q.g_sig_npend = true ∨ s.ctl.lowered = true)
    (ctl_at : s.ctl.At s.q) : s.Ok := by
  obtain ⟨hcnt, hinj, hthr⟩ := SigCtl.stale_of_no_hole hhole
  refine ⟨sized, fun t ht => ?_, fun _ => steady, ?_, ?_, ?_, standard, npend, ctl_at⟩
  · rw [hhole] at ht
    cases ht
  · rw [hcnt]
    exact cnt
  · rw [hinj]
    exact inj
  · rw [hthr]
    exact thr

theorem SigState.Ok.counts (h : s.Ok) (hhole : s.ctl.hole = none) :
    (∀ sig, s.q.sigq_cnt sig = s.ledger.entries.countP (·.signo == sig)) ∧
      s.q.sigq_ninj = s.ledger.entries.countP (·.ptraced) ∧
      s.q.sigq_nthr = s.ledger.entries.countP (·.thr) := by
  obtain ⟨hcnt, hinj, hthr⟩ := SigCtl.stale_of_no_hole hhole
  have h1 := h.cnt
  have h2 := h.inj
  have h3 := h.thr
  rw [hcnt] at h1
  rw [hinj] at h2
  rw [hthr] at h3
  exact ⟨h1, h2, h3⟩

theorem SigState.Ok.move (h : s.Ok) {c : SigCtl} (hhole : s.ctl.hole = none) (hc : c.hole = none)
    (hlow : s.ledger.entries ≠ [] → s.q.g_sig_npend = true ∨ c.lowered = true) (hat : c.At s.q) :
    ({ s with ctl := c } : SigState α).Ok := by
  obtain ⟨hcnt, hinj, hthr⟩ := h.counts hhole
  exact .of_steady hc h.sized (h.steady hhole) hcnt hinj hthr h.standard hlow hat

end invariant

section push

variable {s : SigState α} {q q' : SigQ α} {p : PendSig α}

theorem sigq_push_refused (h : sigq_push q p = (q', false)) : ∃ req, q' = { q with sigq_grow_req := req } := by
  simp only [sigq_push] at h
  split at h
  · exact ⟨_, (Prod.mk.inj h).1.symm⟩
  split at h
  · exact ⟨_, (Prod.mk.inj h).1.symm⟩
  split at h
  · exact ⟨_, (Prod.mk.inj h).1.symm⟩
  · cases (Prod.mk.inj h).2

theorem sigq_push_queued (h : sigq_push q p = (q', true)) :
    (∃ req, q' = sigq_append { q with sigq_grow_req := req } p) ∧ q.next q.sigq_head ≠ q.sigq_tail ∧
      (p.signo < 32 → q.sigq_cnt p.signo = 0) := by
  simp only [sigq_push] at h
  split at h
  · cases (Prod.mk.inj h).2
  rename_i hrange
  split at h
  · cases (Prod.mk.inj h).2
  rename_i hpending
  split at h
  · cases (Prod.mk.inj h).2
  next hroom => exact ⟨⟨_, (Prod.mk.inj h).1.symm⟩, hroom, fun hlt => not_not.1 fun hne => hpending ⟨hlt, hne⟩⟩

theorem sigq_append_contents (hq : q.Sized) (hroom : q.next q.sigq_head ≠ q.sigq_tail) :
    (sigq_append q p).contents = q.contents ++ [p] :=
  ring.contents_push hq.head_lt hq.tail_lt hroom p

theorem sigq_append_used (hq : q.Sized) (hroom : q.next q.sigq_head ≠ q.sigq_tail) :
    (sigq_append q p).used = q.used + 1 :=
  ring.used_push hq.tail_lt hroom

theorem sigq_append_sized (hq : q.Sized) : (sigq_append q p).Sized :=
  ⟨ring.next_lt hq.head_lt, hq.tail_lt, hq.min_le, hq.le_max⟩

theorem sigq_append_hole {entries : List (PendSig α)} {t : Nat} (hq : q.Sized)
    (hroom : q.next q.sigq_head ≠ q.sigq_tail) (h : q.HoleAt entries t) :
    (sigq_append q p).HoleAt (entries ++ [p]) t := by
  obtain ⟨i, hi, rfl, rfl⟩ := h
  have hlen : i < q.contents.length := by
    rw [SigQ.contents, ring.length_contents]
    exact hi
  refine ⟨i, by rw [sigq_append_used hq hroom]; omega, rfl, ?_⟩
  rw [sigq_append_contents hq hroom, eraseIdx_append_of_lt_length hlen]

theorem sigq_append_at (hq : q.Sized) (hroom : q.next q.sigq_head ≠ q.sigq_tail) {c : SigCtl} (h : c.At q) :
    c.At (sigq_append q p) := by
  have hused : q.used ≤ (sigq_append q p).used := by
    rw [sigq_append_used hq hroom]
    exact Nat.le_succ _
  have hlive {t : Nat} (ht : q.Live t) : (sigq_append q p).Live t := ht.mono (fun _ => rfl) hused
  have hreached {t : Nat} (ht : q.Reached t) : (sigq_append q p).Reached t := ht.mono (fun _ => rfl) hused
  have hbefore {k : SigCont} (hk : k.Before q) : k.Before (sigq_append q p) := by
    cases k with
    | done => trivial
    | sweep w t => exact hlive hk
  have hafter {k : SigCont} (hk : k.After q) : k.After (sigq_append q p) := by
    cases k with
    | done => trivial
    | sweep w t => exact hreached hk
  cases c with
  | idle => trivial
  | pick_count => trivial
  | pick_floor => trivial
  | regrow => trivial
  | pick_scan => exact ⟨hreached h.1, fun b hb => hlive (h.2 b hb)⟩
  | picked => exact fun b hb => hlive (h b hb)
  | take_cnt | take_inj | take_thr | take_shift => exact hbefore h
  | take_test | lower | look | raise => exact hafter h
  | sweep => exact hreached h

theorem SigState.Ok.grow_req (h : s.Ok) (req : Bool) :
    ({ s with q := { s.q with sigq_grow_req := req } } : SigState α).Ok :=
  { h with
    sized := { h.sized with }
    ctl_at := by have := h.ctl_at; revert this; cases s.ctl <;> exact id }

theorem SigState.Ok.countP_le (h : s.Ok) (sig : Nat) :
    s.ledger.entries.countP (·.signo == sig) ≤ s.q.sigq_cnt sig := by
  rw [h.cnt sig, SigState.counted]
  split
  · cases hhole : s.ctl.hole with
    | none => rw [h.steady hhole]
    | some t =>
      rw [(h.holds t hhole).countP]
      exact Nat.le_add_right _ _
  · exact Nat.le_refl _

theorem SigState.Ok.append (h : s.Ok) (hroom : s.q.next s.q.sigq_head ≠ s.q.sigq_tail)
    (hpending : p.signo < 32 → s.q.sigq_cnt p.signo = 0) :
    ({ s with q := sigq_append s.q p, ledger := s.ledger.push p } : SigState α).Ok := by
  have hcounted (stale : Bool) :
      ({ s with q := sigq_append s.q p, ledger := s.ledger.push p } : SigState α).counted stale =
        s.counted stale ++ [p] := by
    unfold SigState.counted
    split
    · exact sigq_append_contents h.sized hroom
    · exact s.ledger.entries_push p
  refine ⟨sigq_append_sized h.sized, fun t ht => ?_, fun hnone => ?_, fun sig => ?_, ?_, ?_, fun sig hsig => ?_,
    fun _ => .inl rfl, sigq_append_at h.sized hroom h.ctl_at⟩
  · rw [Ledger.entries_push]
    exact sigq_append_hole h.sized hroom (h.holds t ht)
  · rw [Ledger.entries_push, sigq_append_contents h.sized hroom, h.steady hnone]
  · rw [hcounted, countP_append, ← h.cnt sig, countP_singleton]
    by_cases hsig : sig = p.signo
    · subst hsig
      simp [sigq_append]
    · show Function.update s.q.sigq_cnt p.signo _ sig = _
      rw [Function.update_of_ne hsig, if_neg (by simpa using Ne.symm hsig), Nat.add_zero]
  · rw [hcounted, countP_append, ← h.inj, countP_singleton]
    cases hp : p.ptraced <;> simp [sigq_append, hp]
  · rw [hcounted, countP_append, ← h.thr, countP_singleton]
    cases hp : p.thr <;> simp [sigq_append, hp]
  rw [Ledger.entries_push, countP_append, countP_singleton]
  by_cases heq : p.signo = sig
  · have hle := h.countP_le sig
    rw [← heq, hpending (heq ▸ hsig)] at hle
    rw [← heq, Nat.le_zero.1 hle]
    split <;> omega
  · rw [if_neg (by simpa using heq)]
    exact h.standard sig hsig

theorem SigState.Ok.push (h : s.Ok) (p : PendSig α) : (s.push p).Ok := by
  unfold SigState.push
  rcases hpush : sigq_push s.q p with ⟨q', _ | _⟩
  · obtain ⟨req, rfl⟩ := sigq_push_refused hpush
    exact h.grow_req req
  · obtain ⟨⟨req, rfl⟩, hroom, hpending⟩ := sigq_push_queued hpush
    exact (h.grow_req req).append hroom hpending

end push

end arm64emu
