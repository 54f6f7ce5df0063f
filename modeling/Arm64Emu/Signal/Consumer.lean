import Arm64Emu.Signal.Pending

open transition

namespace arm64emu

open Function

variable {α : Type*}

section take

variable {s : SigState α} {q : SigQ α} {t u : Nat} {k : SigCont} {hand : List (PendSig α)} {l : Ledger (PendSig α)}

theorem SigState.Ok.enter_take (h : s.Ok) (hhole : s.ctl.hole = none) (hlow : s.ctl.lowered = false)
    (ht : s.q.Live t) (hk : k.Before s.q) :
    (⟨s.q, .take_cnt t k, hand, s.ledger.take (ring.used s.q.sigq_cap t s.q.sigq_tail)⟩ : SigState α).Ok := by
  obtain ⟨hcnt, hinj, hthr⟩ := h.counts hhole
  have hsteady := h.steady hhole
  obtain ⟨hlt, hslot⟩ := ht.index h.sized
  refine ⟨h.sized, fun u hu => ?_, (fun hnone => nomatch hnone), fun sig => ?_, ?_, ?_, fun sig hsig => ?_,
    fun hne => .inl ?_, hk⟩
  · cases hu
    refine ⟨_, hlt, hslot, ?_⟩
    rw [Ledger.entries_take, hsteady]
  · exact (hcnt sig).trans (congrArg _ hsteady.symm)
  · exact hinj.trans (congrArg _ hsteady.symm)
  · exact hthr.trans (congrArg _ hsteady.symm)
  · rw [Ledger.entries_take]
    exact Nat.le_trans ((List.eraseIdx_sublist _ _).countP_le) (h.standard sig hsig)
  have hentries : s.ledger.entries ≠ [] := by
    rintro hnil
    rw [Ledger.entries_take, hnil] at hne
    exact hne rfl
  exact (h.npend hentries).resolve_right (by simp [hlow])

theorem SigState.Ok.take_cnt (h : (⟨q, .take_cnt t k, hand, l⟩ : SigState α).Ok) :
    (⟨{ q with sigq_cnt := update q.sigq_cnt (q.sigq t).signo (q.sigq_cnt (q.sigq t).signo - 1) },
      .take_inj t k, hand, l⟩ : SigState α).Ok := by
  have hhole : q.HoleAt l.entries t := h.holds t rfl
  have hcnt (sig : Nat) : q.sigq_cnt sig = q.contents.countP (·.signo == sig) := h.cnt sig
  refine { h with sized := { h.sized with }, cnt := fun sig => ?_ }
  show update q.sigq_cnt _ _ sig = l.entries.countP (·.signo == sig)
  have hcount := hhole.countP (·.signo == sig)
  by_cases hsig : sig = (q.sigq t).signo
  · rw [hsig, update_self, hcnt, ← hsig, hcount]
    simp [hsig]
  · rw [update_of_ne hsig, hcnt, hcount, if_neg (by simpa using Ne.symm hsig), Nat.add_zero]

theorem SigState.Ok.take_inj (h : (⟨q, .take_inj t k, hand, l⟩ : SigState α).Ok) :
    (⟨{ q with sigq_ninj := if (q.sigq t).ptraced then q.sigq_ninj - 1 else q.sigq_ninj },
      .take_thr t k, hand, l⟩ : SigState α).Ok := by
  have hhole : q.HoleAt l.entries t := h.holds t rfl
  have hinj : q.sigq_ninj = q.contents.countP (·.ptraced) := h.inj
  refine { h with sized := { h.sized with }, inj := ?_ }
  show (if (q.sigq t).ptraced then q.sigq_ninj - 1 else q.sigq_ninj) = l.entries.countP (·.ptraced)
  rw [hinj, hhole.countP (·.ptraced)]
  cases (q.sigq t).ptraced <;> simp

theorem SigState.Ok.take_thr (h : (⟨q, .take_thr t k, hand, l⟩ : SigState α).Ok) :
    (⟨{ q with sigq_nthr := if (q.sigq t).thr then q.sigq_nthr - 1 else q.sigq_nthr },
      .take_shift t k, hand, l⟩ : SigState α).Ok := by
  have hhole : q.HoleAt l.entries t := h.holds t rfl
  have hthr : q.sigq_nthr = q.contents.countP (·.thr) := h.thr
  refine { h with sized := { h.sized with }, thr := ?_ }
  show (if (q.sigq t).thr then q.sigq_nthr - 1 else q.sigq_nthr) = l.entries.countP (·.thr)
  rw [hthr, hhole.countP (·.thr)]
  cases (q.sigq t).thr <;> simp

theorem SigState.Ok.take_shift (h : (⟨q, .take_shift u k, hand, l⟩ : SigState α).Ok) (hne : u ≠ q.sigq_tail) :
    (⟨{ q with sigq := update q.sigq u (q.sigq (ring.prev q.sigq_cap u)) },
      .take_shift (ring.prev q.sigq_cap u) k, hand, l⟩ : SigState α).Ok := by
  have hq : q.Sized := h.sized
  have hlt := hq.used_lt
  obtain ⟨i, hi, hu, herase⟩ : q.HoleAt l.entries u := h.holds u rfl
  -- the slot is not the tail, so an older entry stands before it
  obtain ⟨j, rfl⟩ : ∃ j, i = j + 1 := by
    refine Nat.exists_eq_succ_of_ne_zero fun h0 => hne ?_
    rw [hu, h0]
    exact ring.slot_zero hq.tail_lt
  have hprev : ring.prev q.sigq_cap u = q.slot j := by
    rw [hu]
    exact ring.prev_slot hq.tail_lt (by omega)
  rw [hprev]
  refine { h with sized := { hq with }, holds := fun v hv => ?_, steady := fun hnone => nomatch hnone }
  cases hv
  refine ⟨j, Nat.lt_of_succ_lt hi, rfl, ?_⟩
  have hlen : j + 1 < q.contents.length := by
    rw [SigQ.contents, ring.length_contents]
    exact hi
  have hshift : ({ q with sigq := update q.sigq u (q.sigq (q.slot j)) } : SigQ α).contents =
      q.contents.set (j + 1) (q.sigq (q.slot j)) := by
    rw [hu]
    exact ring.contents_shift hq.head_lt hq.tail_lt hi
  have hget : q.contents[j]? = some (q.sigq (q.slot j)) := ring.getElem?_contents (Nat.lt_of_succ_lt hi)
  rw [hshift, ring.eraseIdx_set_succ hget hlen]
  exact herase

theorem SigState.Ok.take_done (h : (⟨q, .take_shift q.sigq_tail k, hand, l⟩ : SigState α).Ok) :
    (⟨{ q with sigq_tail := q.next q.sigq_tail }, .take_test k, hand, l⟩ : SigState α).Ok := by
  have hq : q.Sized := h.sized
  have hlt := hq.used_lt
  obtain ⟨i, hi, hu, herase⟩ : q.HoleAt l.entries q.sigq_tail := h.holds q.sigq_tail rfl
  have h0 : i = 0 := ring.slot_inj (by omega) (by omega) (hu.symm.trans (ring.slot_zero hq.tail_lt).symm)
  subst h0
  have hne : q.sigq_tail ≠ q.sigq_head := fun heq =>
    Nat.ne_of_gt hi ((ring.used_eq_zero_iff hq.tail_lt).2 heq)
  have hused : ({ q with sigq_tail := q.next q.sigq_tail } : SigQ α).used + 1 = q.used :=
    ring.used_advance hq.head_lt hq.tail_lt hne
  refine .of_steady rfl ⟨hq.head_lt, ring.next_lt hq.tail_lt, hq.min_le, hq.le_max⟩ ?_
    h.cnt h.inj h.thr h.standard h.npend ?_
  · show ({ q with sigq_tail := q.next q.sigq_tail } : SigQ α).contents = l.entries
    rw [← herase, List.eraseIdx_zero]
    exact ring.contents_advance hq.head_lt hq.tail_lt hne
  cases k with
  | done => trivial
  | sweep w t =>
    -- the slot after the one taken is as far from the new tail as it was from the old one
    obtain ⟨j, hj, rfl⟩ : q.Live t := h.ctl_at
    have hle : j ≤ ({ q with sigq_tail := q.next q.sigq_tail } : SigQ α).used := by omega
    refine ⟨j, hle, ?_⟩
    show ring.next q.sigq_cap (q.slot j) = ring.slot q.sigq_cap (q.next q.sigq_tail) j
    rw [SigQ.next, ring.slot_next (by omega)]
    exact ring.next_slot hq.tail_lt (by omega)

end take

section steps

variable {s s' : SigState α} {a : SigAct α}

theorem SigCont.resume_spec {q : SigQ α} {k : SigCont} (h : k.After q) :
    (k.resume q).hole = none ∧ (k.resume q).lowered = false ∧ (k.resume q).At q := by
  cases k with
  | done => exact ⟨rfl, rfl, trivial⟩
  | sweep w t => exact ⟨rfl, rfl, h⟩

theorem pick_next_spec {q : SigQ α} (hq : q.Sized) {t : Nat} (ht : q.Live t) {best : Option Nat}
    (hbest : ∀ b ∈ best, q.Live b) (allowed : BitVec 64) (floor bestkey : Nat) :
    (pick_next q allowed floor t best bestkey).hole = none ∧
      (pick_next q allowed floor t best bestkey).lowered = false ∧
      (pick_next q allowed floor t best bestkey).At q := by
  have hself : ∀ b ∈ some t, q.Live b := by
    intro b hb
    rw [← Option.some.inj hb]
    exact ht
  unfold pick_next
  dsimp only
  split
  · split
    · exact ⟨rfl, rfl, hself⟩
    · exact ⟨rfl, rfl, ht.reached_next hq, hself⟩
  · exact ⟨rfl, rfl, ht.reached_next hq, hbest⟩

theorem SigState.Ok.go (h : s.Ok) {c : SigCtl} (hhole : s.ctl.hole = none) (hlow : s.ctl.lowered = false)
    (hc : c.hole = none ∧ c.lowered = false ∧ c.At s.q) : ({ s with ctl := c } : SigState α).Ok :=
  h.move hhole hc.1 (fun hne => .inl ((h.npend hne).resolve_right (by simp [hlow]))) hc.2.2

/-- One step of the consumer. -/
theorem sig_step_ok (h : s.Ok) (callout room : Bool) : (sig_step s callout room).Ok := by
  obtain ⟨q, ctl, hand, l⟩ := s
  have hq : q.Sized := h.sized
  cases ctl with
  | idle => exact h
  | picked best => exact h
  | regrow => exact h
  | pick_count allowed n pend =>
    simp only [sig_step]
    split
    · exact h.go rfl rfl ⟨rfl, rfl, trivial⟩
    · exact h.go rfl rfl ⟨rfl, rfl, trivial⟩
  | pick_floor allowed pend =>
    simp only [sig_step]
    split
    · exact h.go rfl rfl ⟨rfl, rfl, fun b hb => nomatch hb⟩
    · exact h.go rfl rfl ⟨rfl, rfl, hq.reached_tail, fun b hb => nomatch hb⟩
  | pick_scan allowed floor t best bestkey =>
    obtain ⟨ht, hbest⟩ : q.Reached t ∧ ∀ b ∈ best, q.Live b := h.ctl_at
    simp only [sig_step]
    split
    · exact h.go rfl rfl ⟨rfl, rfl, hbest⟩
    · exact h.go rfl rfl (pick_next_spec hq (ht.live hq ‹_›) hbest allowed floor bestkey)
  | take_cnt t k => exact h.take_cnt
  | take_inj t k => exact h.take_inj
  | take_thr t k => exact h.take_thr
  | take_shift u k =>
    simp only [sig_step]
    split
    next hu =>
      subst hu
      exact h.take_done
    · exact h.take_shift ‹_›
  | take_test k =>
    simp only [sig_step]
    split
    · exact h.go rfl rfl ⟨rfl, rfl, h.ctl_at⟩
    · exact h.go rfl rfl (SigCont.resume_spec h.ctl_at)
  | lower k =>
    obtain ⟨hcnt, hinj, hthr⟩ := h.counts rfl
    exact .of_steady rfl { hq with } (h.steady rfl) hcnt hinj hthr h.standard
      (fun _ => .inr rfl) (by cases k <;> exact h.ctl_at)
  | look k =>
    refine h.move rfl rfl (fun hne => .inr ?_) h.ctl_at
    -- a ring that holds something is seen to, whether or not the flag was raised again
    have hcontents : q.contents = l.entries := h.steady rfl
    have hring : q.sigq_tail ≠ q.sigq_head := fun heq => hne (by
      show l.entries = []
      rw [← hcontents]
      exact (ring.contents_eq_nil_iff hq.tail_lt).2 heq)
    simp [SigCtl.lowered, hring]
  | raise again k =>
    obtain ⟨hcnt, hinj, hthr⟩ := h.counts rfl
    obtain ⟨hhole, -, -⟩ := SigCont.resume_spec (k := k) h.ctl_at
    refine .of_steady hhole { hq with } (h.steady rfl) hcnt hinj hthr h.standard
      (fun hne => .inl ?_) (by cases k <;> exact h.ctl_at)
    show (q.g_sig_npend || again) = true
    rw [Bool.or_eq_true]
    exact h.npend hne
  | sweep w t =>
    have ht : q.Reached t := h.ctl_at
    simp only [sig_step]
    split
    · exact h.go rfl rfl ⟨rfl, rfl, trivial⟩
    have hlive := ht.live hq ‹_›
    split
    · exact h.enter_take rfl rfl hlive hlive
    · exact h.go rfl rfl ⟨rfl, rfl, hlive.reached_next hq⟩

theorem sigq_limit_bounds (rlim_cur : Option Nat) (a64_sigq_max : Option Int) :
    SIGQ_MIN ≤ sigq_limit rlim_cur a64_sigq_max ∧ sigq_limit rlim_cur a64_sigq_max ≤ SIGQ_MAX := by
  unfold sigq_limit SIGQ_MIN SIGQ_MAX
  cases rlim_cur <;> cases a64_sigq_max <;> dsimp only <;> split_ifs <;> omega

theorem sigq_swap_contents {q : SigQ α} (hq : q.Sized) {want : Nat} (hwant : q.sigq_cap < want)
    (junk : Nat → PendSig α) : (sigq_swap q want junk).contents = q.contents := by
  have hlt := hq.used_lt
  have hlen : q.contents.length = q.used := ring.length_contents
  have hused : ring.used want q.contents.length 0 = q.used := by
    rw [hlen]
    rfl
  refine ring.contents_congr hused fun i hi => ?_
  have hslot : ring.slot want 0 i = i := by
    unfold ring.slot
    have : i < q.used := hi
    split <;> omega
  show (q.contents[ring.slot want 0 i]?).getD _ = _
  have hget : q.contents[i]? = some (q.sigq (q.slot i)) := ring.getElem?_contents hi
  rw [hslot, hget]
  rfl

theorem SigState.Ok.swap (h : s.Ok) (hctl : s.ctl = .regrow) {lim : Nat} (hlim : s.q.sigq_cap < lim)
    (hmax : lim ≤ SIGQ_MAX) (junk : Nat → PendSig α) :
    ({ s with ctl := .idle, q := sigq_swap s.q (min (s.q.sigq_cap * 2) lim) junk } : SigState α).Ok := by
  have hhole : s.ctl.hole = none := by rw [hctl]; rfl
  have hq := h.sized
  have hlt := hq.used_lt
  have hwant : s.q.sigq_cap < min (s.q.sigq_cap * 2) lim := by
    have := hq.head_lt
    omega
  have hlen : s.q.contents.length = s.q.used := ring.length_contents
  have hmin := hq.min_le
  obtain ⟨hcnt, hinj, hthr⟩ := h.counts hhole
  refine .of_steady rfl ⟨?_, ?_, ?_, ?_⟩ ?_ hcnt hinj hthr h.standard (fun hne => .inl ?_) trivial
  · show s.q.contents.length < min (s.q.sigq_cap * 2) lim
    omega
  · show 0 < min (s.q.sigq_cap * 2) lim
    omega
  · show SIGQ_MIN ≤ min (s.q.sigq_cap * 2) lim
    omega
  · show min (s.q.sigq_cap * 2) lim ≤ SIGQ_MAX
    omega
  · exact (sigq_swap_contents hq hwant junk).trans (h.steady hhole)
  · exact (h.npend hne).resolve_right (by rw [hctl]; simp [SigCtl.lowered])

theorem sigq_reset_ok (junk : Nat → PendSig α) {hand : List (PendSig α)} {l : Ledger (PendSig α)}
    (hl : l.entries = []) : (⟨sigq_reset junk, .idle, hand, l⟩ : SigState α).Ok := by
  have hmin : 0 < SIGQ_MIN := by decide
  have hmax : SIGQ_MIN ≤ SIGQ_MAX := by decide
  refine .of_steady rfl ⟨hmin, hmin, Nat.le_refl _, hmax⟩ ?_ ?_ ?_ ?_ ?_ ?_ trivial
  · show (sigq_reset junk).contents = l.entries
    rw [hl]
    rfl
  all_goals simp [hl, sigq_reset]

theorem sigq_ok (h : s.Ok) (hstep : SigStep s a s') : s'.Ok := by
  cases hstep with
  | push p => exact h.push p
  | pick allowed hctl | leave hctl | lower hctl | no_swap hctl =>
    exact h.go (by rw [hctl]; rfl) (by rw [hctl]; rfl) ⟨rfl, rfl, trivial⟩
  | @take t hctl =>
    have hat := h.ctl_at
    rw [hctl] at hat
    exact h.enter_take (by rw [hctl]; rfl) (by rw [hctl]; rfl) (hat t rfl) trivial
  | drain hctl hne =>
    have h0 : ring.used s.q.sigq_cap s.q.sigq_tail s.q.sigq_tail = 0 :=
      (ring.used_eq_zero_iff h.sized.tail_lt).2 rfl
    rw [← h0]
    exact h.enter_take (by rw [hctl]; rfl) (by rw [hctl]; rfl) (h.sized.live_tail hne) trivial
  | sweep w hctl => exact h.go (by rw [hctl]; rfl) (by rw [hctl]; rfl) ⟨rfl, rfl, h.sized.reached_tail⟩
  | regrow hctl =>
    exact (h.grow_req false).go (by rw [hctl]; rfl) (by rw [hctl]; rfl) ⟨rfl, rfl, trivial⟩
  | swap rlim_cur a64_sigq_max junk hctl hlim => exact h.swap hctl hlim (sigq_limit_bounds _ _).2 junk
  | reset junk hctl =>
    rw [hctl]
    exact sigq_reset_ok junk s.ledger.entries_clear
  | hand p =>
    exact { h with }
  | handover_take hctl =>
    have hstart : ({ s with dt_hand := [] } : SigState α).Ok :=
      { h with }
    generalize ({ s with dt_hand := [] } : SigState α) = s₀ at hstart ⊢
    generalize s.dt_hand = ps
    induction ps generalizing s₀ with
    | nil => exact hstart
    | cons p ps ih => exact ih _ (hstart.push p)
  | step callout room => exact sig_step_ok h callout room

end steps

def SigState.start (junk : Nat → PendSig α) : SigState α := { q := sigq_reset junk, ledger := .empty }

/-- Wherever nothing is on its way out of the ring, it holds the entries queued and not taken, in order, with their
counts; no standard signal is in it twice; and a consumer that has finished leaves the flag raised if it holds any. -/
theorem sigq_pending {junk : Nat → PendSig α} {as : List (SigAct α)} {s : SigState α}
    (h : Steps SigStep (.start junk) as s) (hhole : s.ctl.hole = none) :
    s.q.contents = s.ledger.queue.map Prod.snd ∧
      (s.ledger.queue.Pairwise fun a b => a.1 < b.1) ∧
      (∀ n p, (n, p) ∈ s.ledger.queue ↔ s.ledger.pushed[n]? = some p ∧ n ∉ s.ledger.taken) ∧
      (∀ sig < 32, s.q.contents.countP (·.signo == sig) ≤ 1) ∧
      (∀ sig, s.q.sigq_cnt sig = s.q.contents.countP (·.signo == sig) ∧ s.q.sigq_cnt sig < 2 ^ 16) ∧
      s.q.sigq_ninj = s.q.contents.countP (·.ptraced) ∧
      s.q.sigq_nthr = s.q.contents.countP (·.thr) ∧
      (s.ctl = .idle → s.q.contents ≠ [] → s.q.g_sig_npend = true) := by
  have hok : s.Ok := h.invariant (fun _ _ _ => sigq_ok) (sigq_reset_ok junk rfl)
  obtain ⟨hcnt, hinj, hthr⟩ := hok.counts hhole
  have hsteady := hok.steady hhole
  refine ⟨hsteady, s.ledger.ordered, s.ledger.exact, ?_, fun sig => ?_, ?_, ?_, fun hidle hne => ?_⟩
  · rw [hsteady]
    exact hok.standard
  · rw [hsteady]
    refine ⟨hcnt sig, ?_⟩
    -- the ring never holds more than its buffer's size
    have hle : s.ledger.entries.countP (·.signo == sig) ≤ s.q.contents.length := by
      rw [hsteady]
      exact List.countP_le_length
    have hlen : s.q.contents.length = s.q.used := ring.length_contents
    have hlt := hok.sized.used_lt
    have hmax : SIGQ_MAX < 2 ^ 16 := by decide
    have := hok.sized.le_max
    rw [hcnt sig]
    omega
  · rw [hsteady]
    exact hinj
  · rw [hsteady]
    exact hthr
  · rw [hsteady] at hne
    exact (hok.npend hne).resolve_right (by rw [hidle]; simp [SigCtl.lowered])

def sigusr1 : PendSig Unit := { signo := 10, thr := false, ptraced := false, info := () }
def rt_signal : PendSig Unit := { signo := 40, thr := false, ptraced := false, info := () }

/-- A second `SIGUSR1` arrives while the first is being taken, after its count
was lowered, and is queued behind what is there. -/
theorem sigq_pending_interrupted : ∃ s : SigState Unit,
    Steps SigStep (.start fun _ => rt_signal) [.push sigusr1, .push rt_signal, .drain, .step false true, .push sigusr1,
      .step false true, .step false true, .step false true, .step false true] s ∧
    s.q.contents = [rt_signal, sigusr1] ∧ s.q.sigq_cnt 10 = 1 ∧ s.q.g_sig_npend = true := by
  have hrun : ∃ s : SigState Unit,
      Steps SigStep (.start fun _ => rt_signal) [.push sigusr1, .push rt_signal, .drain, .step false true,
        .push sigusr1, .step false true, .step false true, .step false true, .step false true] s ∧
      s.ctl = .idle ∧ s.q.contents = [rt_signal, sigusr1] :=
    ⟨_, .cons (.push _) <| .cons (.push _) <| .cons (.drain rfl (by decide)) <| .cons (.step _ _) <| .cons (.push _) <|
      .cons (.step _ _) <| .cons (.step _ _) <| .cons (.step _ _) <| .cons (.step _ _) <| .nil _, rfl, rfl⟩
  obtain ⟨s, hsteps, hidle, hcontents⟩ := hrun
  obtain ⟨-, -, -, -, hcnt, -, -, hnpend⟩ := sigq_pending hsteps (by rw [hidle]; rfl)
  refine ⟨s, hsteps, hcontents, ?_, hnpend hidle (by simp [hcontents])⟩
  rw [(hcnt 10).1, hcontents]
  rfl

end arm64emu
