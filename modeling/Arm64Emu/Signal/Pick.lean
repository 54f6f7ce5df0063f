import Mathlib
import Arm64Emu.Lib.Selection
import Arm64Emu.Signal.Consumer

namespace arm64emu

open List

open Function

open selection transition

variable {α : Type*}

def sigq_pend (q : SigQ α) : BitVec 64 :=
  (List.range' 1 64).foldl (fun pend n => if q.sigq_cnt n ≠ 0 then pend ||| 1#64 <<< (n - 1) else pend) 0

def PendSig.key (p : PendSig α) : Nat := sig_key p.ptraced p.thr p.signo

/-- The entry of the best key, from slot `t` on. -/
def sigq_scan (q : SigQ α) (allowed : BitVec 64) (floor : Nat) : Nat → Nat → Option Nat → Nat → Option Nat
  | 0, _, best, _ => best
  | n + 1, t, best, bestkey =>
    if sig_allowed allowed (q.sigq t).signo && (q.sigq t).key < bestkey then
      if (q.sigq t).key ≤ floor then some t
      else sigq_scan q allowed floor n (q.next t) (some t) (q.sigq t).key
    else sigq_scan q allowed floor n (q.next t) best bestkey

/-- The entry to deliver next. -/
def sigq_pick (q : SigQ α) (allowed : BitVec 64) : Option Nat :=
  let pend := sigq_pend q &&& allowed
  if pend = 0 then none
  else sigq_scan q allowed (sigq_floor q pend) q.used q.sigq_tail none (2 ^ 32 - 1)

/-- The `n` entries before slot `u` move up by one. -/
def sigq_shift (q : SigQ α) : Nat → Nat → SigQ α
  | 0, _ => q
  | n + 1, u =>
    let prev := ring.prev q.sigq_cap u
    sigq_shift { q with sigq := update q.sigq u (q.sigq prev) } n prev

/-- `sigq_lower_npend`, with `callout` whether a call-out of the emulator's own
waits. -/
def sigq_lower_npend (q : SigQ α) (callout : Bool) : SigQ α :=
  { q with g_sig_npend := q.sigq_tail != q.sigq_head || callout }

/-- Takes an entry out, as one step. -/
def sigq_take (q : SigQ α) (t : Nat) (callout : Bool) : SigQ α :=
  let p := q.sigq t
  let q := { q with
    sigq_cnt := update q.sigq_cnt p.signo (q.sigq_cnt p.signo - 1)
    sigq_ninj := if p.ptraced then q.sigq_ninj - 1 else q.sigq_ninj
    sigq_nthr := if p.thr then q.sigq_nthr - 1 else q.sigq_nthr }
  let q := sigq_shift q (ring.used q.sigq_cap t q.sigq_tail) t
  let q := { q with sigq_tail := q.next q.sigq_tail }
  if q.sigq_tail = q.sigq_head then sigq_lower_npend q callout else q

/-- What is taken in turn, each the entry picked, until none is. -/
def sigq_drain (allowed : BitVec 64) (callout : Bool) : Nat → SigQ α → List (PendSig α)
  | 0, _ => []
  | n + 1, q =>
    match sigq_pick q allowed with
    | none => []
    | some t => q.sigq t :: sigq_drain allowed callout n (sigq_take q t callout)

/-- The ring's counts are those of its entries, all of them signals. -/
structure SigQ.Agrees (q : SigQ α) : Prop where
  sized : q.Sized
  signo : ∀ p ∈ q.contents, 1 ≤ p.signo ∧ p.signo ≤ 64
  cnt : ∀ sig, q.sigq_cnt sig = q.contents.countP (·.signo == sig)
  inj : q.sigq_ninj = q.contents.countP (·.ptraced)
  thr : q.sigq_nthr = q.contents.countP (·.thr)

/-- The order `dequeue_signal` takes entries in, but for their age. -/
def PendSig.rank (p : PendSig α) : Nat ×ₗ Nat ×ₗ Nat ×ₗ Nat :=
  toLex ((!p.ptraced).toNat, toLex ((!p.thr).toNat, toLex ((!sig_sync_prio p.signo).toNat, p.signo)))

/-- The fields of a key do not overlap. -/
theorem sig_key_eq (ptraced thr : Bool) {sig : Nat} (h : sig ≤ 64) :
    sig_key ptraced thr sig =
      (!ptraced).toNat * 512 + (!thr).toNat * 256 + (!sig_sync_prio sig).toNat * 128 + sig := by
  have hall : ∀ p t : Bool, ∀ s : Fin 65, sig_key p t s =
      (!p).toNat * 512 + (!t).toNat * 256 + (!sig_sync_prio s).toNat * 128 + s := by decide +kernel
  exact hall ptraced thr ⟨sig, by omega⟩

theorem PendSig.key_lt (p : PendSig α) (h : p.signo ≤ 64) : p.key < 2 ^ 32 - 1 := by
  rw [PendSig.key, sig_key_eq _ _ h]
  have h1 := Bool.toNat_le (!p.ptraced)
  have h2 := Bool.toNat_le (!p.thr)
  have h3 := Bool.toNat_le (!sig_sync_prio p.signo)
  omega

theorem PendSig.key_lt_iff (p p' : PendSig α) (h : p.signo ≤ 64) (h' : p'.signo ≤ 64) :
    p.key < p'.key ↔ p.rank < p'.rank := by
  rw [PendSig.key, PendSig.key, sig_key_eq _ _ h, sig_key_eq _ _ h']
  simp only [PendSig.rank, Prod.Lex.toLex_lt_toLex]
  have h1 := Bool.toNat_le (!p.ptraced)
  have h2 := Bool.toNat_le (!p.thr)
  have h3 := Bool.toNat_le (!sig_sync_prio p.signo)
  have h1' := Bool.toNat_le (!p'.ptraced)
  have h2' := Bool.toNat_le (!p'.thr)
  have h3' := Bool.toNat_le (!sig_sync_prio p'.signo)
  omega

theorem PendSig.key_eq_iff (p p' : PendSig α) (h : p.signo ≤ 64) (h' : p'.signo ≤ 64) :
    p.key = p'.key ↔ p.rank = p'.rank := by
  have hlt := p.key_lt_iff p' h h'
  have hgt := p'.key_lt_iff p h' h
  constructor
  · intro heq
    rw [heq] at hlt hgt
    exact le_antisymm (not_lt.1 fun hr => Nat.lt_irrefl _ (hgt.2 hr)) (not_lt.1 fun hr => Nat.lt_irrefl _ (hlt.2 hr))
  intro heq
  rw [heq] at hlt hgt
  exact Nat.le_antisymm (Nat.not_lt.1 fun hk => lt_irrefl _ (hgt.1 hk)) (Nat.not_lt.1 fun hk => lt_irrefl _ (hlt.1 hk))

theorem lowest_signal_spec {m : BitVec 64} (hm : m ≠ 0) :
    m.getLsbD (lowest_signal m - 1) = true ∧ 1 ≤ lowest_signal m ∧ lowest_signal m ≤ 64 ∧
      ∀ k, m.getLsbD k = true → lowest_signal m ≤ k + 1 := by
  obtain ⟨k, hk⟩ : ∃ k, m.getLsbD k = true := by
    by_contra hnone
    refine hm (BitVec.eq_of_getLsbD_eq fun i _ => ?_)
    rw [BitVec.ofNat_eq_ofNat, BitVec.getLsbD_zero]
    exact Bool.eq_false_iff.2 fun hi => hnone ⟨i, hi⟩
  have hk64 := BitVec.lt_of_getLsbD hk
  have hsome : ((List.range 64).find? m.getLsbD).isSome := by
    rw [List.find?_isSome]
    exact ⟨k, mem_range.2 hk64, hk⟩
  obtain ⟨i, hi⟩ := Option.isSome_iff_exists.1 hsome
  obtain ⟨hbit, hmem, hbefore⟩ := List.find?_range_eq_some.1 hi
  have hlow : lowest_signal m = i + 1 := by rw [lowest_signal, hi, Option.getD_some]
  have hi64 := mem_range.1 hmem
  rw [hlow]
  refine ⟨hbit, by omega, by omega, fun j hj => ?_⟩
  by_contra hlt
  have := hbefore j (by omega)
  simp [hj] at this

section floor

variable {q : SigQ α} {allowed : BitVec 64}

theorem sigq_pend_bit (q : SigQ α) {k : Nat} (hk : k < 64) :
    (sigq_pend q).getLsbD k = true ↔ q.sigq_cnt (k + 1) ≠ 0 := by
  have hfold (l : List Nat) (m : BitVec 64) :
      (l.foldl (fun pend n => if q.sigq_cnt n ≠ 0 then pend ||| 1#64 <<< (n - 1) else pend) m).getLsbD k = true ↔
        m.getLsbD k = true ∨ ∃ n ∈ l, q.sigq_cnt n ≠ 0 ∧ n - 1 = k := by
    induction l generalizing m with
    | nil => simp
    | cons n l ih =>
      rw [foldl_cons, ih]
      by_cases hn : q.sigq_cnt n = 0
      · simp [hn]
      have hbit : (m ||| 1#64 <<< (n - 1)).getLsbD k = true ↔ m.getLsbD k = true ∨ n - 1 = k := by
        rw [BitVec.getLsbD_or, BitVec.getLsbD_shiftLeft, BitVec.getLsbD_one, Bool.or_eq_true]
        simp only [hk, decide_true, Bool.true_and, Bool.and_eq_true, Bool.not_eq_true', decide_eq_false_iff_not,
          decide_eq_true_eq]
        refine or_congr_right ?_
        omega
      rw [if_pos hn, hbit]
      simp [hn, or_assoc]
  rw [sigq_pend, hfold]
  constructor
  · rintro (hzero | ⟨n, hn, hcnt, rfl⟩)
    · simp at hzero
    · have := List.mem_range'_1.1 hn
      rwa [Nat.sub_add_cancel this.1]
  · intro hcnt
    exact .inr ⟨k + 1, List.mem_range'_1.2 (by omega), hcnt, rfl⟩

theorem sync_mask_bit {k : Nat} (hk : k < 64) : sync_mask.getLsbD k = sig_sync_prio (k + 1) := by
  have hall : ∀ k : Fin 64, sync_mask.getLsbD k = sig_sync_prio (k + 1) := by decide +kernel
  exact hall ⟨k, hk⟩

theorem SigQ.Agrees.pend_bit (h : q.Agrees) {p : PendSig α} (hp : p ∈ q.contents)
    (hallowed : sig_allowed allowed p.signo = true) : (sigq_pend q &&& allowed).getLsbD (p.signo - 1) = true := by
  have hsig := h.signo p hp
  have hcnt : q.sigq_cnt p.signo ≠ 0 := by
    rw [h.cnt, ← Nat.pos_iff_ne_zero, countP_pos_iff]
    exact ⟨p, hp, beq_self_eq_true _⟩
  rw [BitVec.getLsbD_and, Bool.and_eq_true, sigq_pend_bit q (by omega), Nat.sub_add_cancel hsig.1]
  exact ⟨hcnt, hallowed⟩

/-- The number the bound is of: if it is not synchronous no allowed entry is, and it
is the least of those it is compared with. -/
theorem floor_first {pend : BitVec 64} (hpend : pend ≠ 0) :
    let first := lowest_signal (if pend &&& sync_mask ≠ 0 then pend &&& sync_mask else pend)
    first ≤ 64 ∧ ∀ k, pend.getLsbD k = true →
      (!sig_sync_prio first).toNat * 128 + first ≤ (!sig_sync_prio (k + 1)).toNat * 128 + (k + 1) := by
  by_cases hsync : pend &&& sync_mask ≠ 0
  · rw [if_pos hsync]
    obtain ⟨hbit, hone, hle, hlow⟩ := lowest_signal_spec hsync
    refine ⟨hle, fun k hk => ?_⟩
    have hk64 := BitVec.lt_of_getLsbD hk
    rw [BitVec.getLsbD_and, Bool.and_eq_true, sync_mask_bit (by omega), Nat.sub_add_cancel hone] at hbit
    rw [hbit.2]
    cases hkp : sig_sync_prio (k + 1)
    · simp
      omega
    have hboth : (pend &&& sync_mask).getLsbD k = true := by
      rw [BitVec.getLsbD_and, hk, sync_mask_bit hk64, hkp, Bool.and_true]
    have := hlow k hboth
    simpa using this
  rw [if_neg hsync]
  obtain ⟨hbit, hone, hle, hlow⟩ := lowest_signal_spec hpend
  -- with no synchronous number in the set, neither of the two is one
  have hnone (k : Nat) (hk : pend.getLsbD k = true) : sig_sync_prio (k + 1) = false := by
    have hzero : (pend &&& sync_mask).getLsbD k = false := by
      rw [not_not.1 hsync]
      simp
    rw [BitVec.getLsbD_and, hk, Bool.true_and, sync_mask_bit (BitVec.lt_of_getLsbD hk)] at hzero
    exact hzero
  refine ⟨hle, fun k hk => ?_⟩
  have hfirst := hnone _ hbit
  rw [Nat.sub_add_cancel hone] at hfirst
  rw [hfirst, hnone k hk]
  have := hlow k hk
  omega

theorem SigQ.Agrees.floor_le (h : q.Agrees) {p : PendSig α} (hp : p ∈ q.contents)
    (hallowed : sig_allowed allowed p.signo = true) : sigq_floor q (sigq_pend q &&& allowed) ≤ p.key := by
  have hsig := h.signo p hp
  have hbit := h.pend_bit hp hallowed
  have hpend : sigq_pend q &&& allowed ≠ 0 := by
    rintro hzero
    rw [hzero] at hbit
    simp at hbit
  obtain ⟨hle, hfirst⟩ := floor_first hpend
  have hnum := hfirst _ hbit
  rw [Nat.sub_add_cancel hsig.1] at hnum
  have hinj : (!decide (q.sigq_ninj ≠ 0)).toNat ≤ (!p.ptraced).toNat := by
    cases hpt : p.ptraced
    · exact Bool.toNat_le _
    have : 0 < q.sigq_ninj := by
      rw [h.inj, countP_pos_iff]
      exact ⟨p, hp, hpt⟩
    simp [Nat.pos_iff_ne_zero.1 this]
  have hthr : (!decide (q.sigq_nthr ≠ 0)).toNat ≤ (!p.thr).toNat := by
    cases hpt : p.thr
    · exact Bool.toNat_le _
    have : 0 < q.sigq_nthr := by
      rw [h.thr, countP_pos_iff]
      exact ⟨p, hp, hpt⟩
    simp [Nat.pos_iff_ne_zero.1 this]
  rw [sigq_floor, PendSig.key, sig_key_eq _ _ hle, sig_key_eq _ _ hsig.2]
  omega

end floor

section scan

variable {q : SigQ α} {allowed : BitVec 64}

/-- What the scan has found among the first `j` entries. -/
def SigQ.Found (q : SigQ α) (allowed : BitVec 64) (j : Nat) : Option Nat → Prop
  | none => ∀ i < j, sig_allowed allowed (q.sigq (q.slot i)).signo = false
  | some t => ∃ i < j, t = q.slot i ∧ sig_allowed allowed (q.sigq t).signo = true ∧
      ∀ i' < j, sig_allowed allowed (q.sigq (q.slot i')).signo = true →
        (q.sigq t).key < (q.sigq (q.slot i')).key ∨ (q.sigq t).key = (q.sigq (q.slot i')).key ∧ i ≤ i'

/-- The key the scan has to beat. -/
def SigQ.bestkey (q : SigQ α) : Option Nat → Nat
  | none => 2 ^ 32 - 1
  | some t => (q.sigq t).key

variable {best : Option Nat}

theorem SigQ.Found.skip {j : Nat} (h : q.Found allowed j best)
    (hskip : sig_allowed allowed (q.sigq (q.slot j)).signo = true → best ≠ none ∧
      q.bestkey best ≤ (q.sigq (q.slot j)).key) : q.Found allowed (j + 1) best := by
  cases best with
  | none =>
    intro i hi
    rcases Nat.lt_succ_iff_lt_or_eq.1 hi with hlt | rfl
    · exact h i hlt
    · exact Bool.eq_false_iff.2 fun hal => (hskip hal).1 rfl
  | some t =>
    obtain ⟨i, hi, ht, hok, hmin⟩ := h
    refine ⟨i, Nat.lt_succ_of_lt hi, ht, hok, fun i' hi' hal => ?_⟩
    rcases Nat.lt_succ_iff_lt_or_eq.1 hi' with hlt | rfl
    · exact hmin i' hlt hal
    have hle : (q.sigq t).key ≤ (q.sigq (q.slot i')).key := (hskip hal).2
    rcases Nat.lt_or_eq_of_le hle with hkey | hkey
    · exact .inl hkey
    · exact .inr ⟨hkey, Nat.le_of_lt hi⟩

theorem SigQ.Found.beats {j : Nat} (h : q.Found allowed j best) {key : Nat}
    (hkey : key < q.bestkey best) {i : Nat} (hi : i < j)
    (hal : sig_allowed allowed (q.sigq (q.slot i)).signo = true) : key < (q.sigq (q.slot i)).key := by
  cases best with
  | none => exact absurd hal (by simp [h i hi])
  | some t =>
    obtain ⟨k, -, -, -, hmin⟩ := h
    have hbest : key < (q.sigq t).key := hkey
    have := hmin i hi hal
    omega

theorem SigQ.Found.take {j n : Nat} (h : q.Found allowed j best)
    (hal : sig_allowed allowed (q.sigq (q.slot j)).signo = true)
    (hkey : (q.sigq (q.slot j)).key < q.bestkey best) (hj : j < n)
    (hrest : ∀ i, j < i → i < n → sig_allowed allowed (q.sigq (q.slot i)).signo = true →
      (q.sigq (q.slot j)).key ≤ (q.sigq (q.slot i)).key) : q.Found allowed n (some (q.slot j)) := by
  refine ⟨j, hj, rfl, hal, fun i hi hal' => ?_⟩
  rcases Nat.lt_trichotomy i j with hlt | rfl | hgt
  · exact .inl (h.beats hkey hlt hal')
  · exact .inr ⟨rfl, Nat.le_refl _⟩
  · have := hrest i hgt hi hal'
    omega

/-- The scan finds the first of the least, wherever it stops. -/
theorem sigq_scan_spec (hq : q.Sized) {floor : Nat}
    (hsig : ∀ i < q.used, (q.sigq (q.slot i)).key < 2 ^ 32 - 1)
    (hfloor : ∀ i < q.used, sig_allowed allowed (q.sigq (q.slot i)).signo = true → floor ≤ (q.sigq (q.slot i)).key)
    {n j : Nat} (hn : j + n = q.used) (h : q.Found allowed j best) :
    q.Found allowed q.used (sigq_scan q allowed floor n (q.slot j) best (q.bestkey best)) := by
  induction n generalizing j best with
  | zero =>
    obtain rfl : j = q.used := hn
    exact h
  | succ n ih =>
    have hlt := hq.used_lt
    have hnext : q.next (q.slot j) = q.slot (j + 1) := ring.next_slot hq.tail_lt (by omega)
    rw [sigq_scan, hnext]
    split
    case isTrue hbeats =>
      obtain ⟨hal, hkey⟩ := Bool.and_eq_true_iff.1 hbeats
      have hkey := of_decide_eq_true hkey
      split
      case isTrue hstop =>
        exact h.take hal hkey (by omega) fun i _ hi hal' => Nat.le_trans hstop (hfloor i hi hal')
      case isFalse => exact ih (by omega) (h.take hal hkey (Nat.lt_succ_self j) fun i _ _ => by omega)
    case isFalse hbeats =>
      refine ih (by omega) (h.skip fun hal => ?_)
      have hle : q.bestkey best ≤ (q.sigq (q.slot j)).key := by
        by_contra hgt
        exact hbeats (by simpa [hal] using hgt)
      refine ⟨?_, hle⟩
      rintro rfl
      exact Nat.not_lt.2 hle (hsig j (by omega))

theorem SigQ.length_contents (q : SigQ α) : q.contents.length = q.used := ring.length_contents

theorem SigQ.mem_contents {i : Nat} (hi : i < q.used) : q.sigq (q.slot i) ∈ q.contents :=
  mem_of_getElem? (ring.getElem?_contents hi)

theorem sigq_pick_found (h : q.Agrees) (allowed : BitVec 64) : q.Found allowed q.used (sigq_pick q allowed) := by
  have hsig (i : Nat) (hi : i < q.used) : (q.sigq (q.slot i)).key < 2 ^ 32 - 1 :=
    PendSig.key_lt _ (h.signo _ (SigQ.mem_contents hi)).2
  rw [sigq_pick]
  by_cases hpend : sigq_pend q &&& allowed = 0
  · rw [if_pos hpend]
    intro i hi
    refine Bool.eq_false_iff.2 fun hal => ?_
    have hbit := h.pend_bit (SigQ.mem_contents hi) hal
    rw [hpend] at hbit
    simp at hbit
  rw [if_neg hpend]
  have hstart : q.Found allowed 0 none := fun i hi => absurd hi (Nat.not_lt_zero i)
  have hscan := sigq_scan_spec h.sized hsig (fun i hi hal => h.floor_le (SigQ.mem_contents hi) hal)
    (Nat.zero_add _) hstart
  rwa [show q.slot 0 = q.sigq_tail from ring.slot_zero h.sized.tail_lt] at hscan

/-- `sigq_pick` gives the slot of the first of the least by the kernel's order, or
none if no entry is allowed. -/
theorem sigq_pick_spec (h : q.Agrees) (allowed : BitVec 64) :
    (sigq_pick q allowed = none ↔ ∀ p ∈ q.contents, sig_allowed allowed p.signo = false) ∧
      ∀ t, sigq_pick q allowed = some t → ∃ i < q.used, t = q.slot i ∧
        Least PendSig.rank (fun p => sig_allowed allowed p.signo) q.contents i := by
  have hfound := sigq_pick_found h allowed
  have hget (i : Nat) (p : PendSig α) (hp : q.contents[i]? = some p) : i < q.used ∧ q.sigq (q.slot i) = p := by
    have hi : i < q.used := by
      have := (List.getElem?_eq_some_iff.1 hp).1
      rwa [SigQ.contents, ring.length_contents] at this
    exact ⟨hi, Option.some.inj ((ring.getElem?_contents hi).symm.trans hp)⟩
  cases hpick : sigq_pick q allowed with
  | none =>
    rw [hpick] at hfound
    refine ⟨⟨fun _ p hp => ?_, fun _ => rfl⟩, fun t ht => by cases ht⟩
    obtain ⟨i, hi⟩ := mem_iff_getElem?.1 hp
    obtain ⟨hlt, rfl⟩ := hget i p hi
    exact hfound i hlt
  | some t =>
    rw [hpick] at hfound
    obtain ⟨i, hi, rfl, hal, hmin⟩ := hfound
    refine ⟨⟨fun ht => (by cases ht), fun hnone => ?_⟩, fun t ht => ?_⟩
    · have := hnone _ (SigQ.mem_contents hi)
      simp [hal] at this
    cases ht
    refine ⟨i, hi, rfl, q.sigq (q.slot i), ring.getElem?_contents hi, hal, fun j p hp hok => ?_⟩
    obtain ⟨hj, rfl⟩ := hget j p hp
    have hsi := (h.signo _ (SigQ.mem_contents hi)).2
    have hsj := (h.signo _ (SigQ.mem_contents hj)).2
    rw [← PendSig.key_lt_iff _ _ hsi hsj, ← PendSig.key_eq_iff _ _ hsi hsj]
    exact hmin j hj hok

end scan

section take

variable {q : SigQ α}

theorem sigq_shift_eq (q : SigQ α) (n u : Nat) : sigq_shift q n u = { q with sigq := (sigq_shift q n u).sigq } := by
  induction n generalizing q u with
  | zero => rfl
  | succ n ih =>
    rw [sigq_shift]
    exact ih _ _

theorem sigq_shift_contents (hq : q.Sized) {n : Nat} (hn : n < q.used) :
    (sigq_shift q n (q.slot n)).contents.tail = q.contents.eraseIdx n := by
  induction n generalizing q with
  | zero => rw [sigq_shift, eraseIdx_zero]
  | succ n ih =>
    have hlt := hq.used_lt
    have hprev : ring.prev q.sigq_cap (q.slot (n + 1)) = q.slot n := ring.prev_slot hq.tail_lt (by omega)
    have hlen : n + 1 < q.contents.length := by
      rw [SigQ.contents, ring.length_contents]
      exact hn
    have hget : q.contents[n]? = some (q.sigq (q.slot n)) := ring.getElem?_contents (Nat.lt_of_succ_lt hn)
    let q' : SigQ α := { q with sigq := update q.sigq (q.slot (n + 1)) (q.sigq (q.slot n)) }
    have hshift : q'.contents = q.contents.set (n + 1) (q.sigq (q.slot n)) :=
      ring.contents_shift hq.head_lt hq.tail_lt hn
    have hq' : q'.Sized := { hq with }
    rw [sigq_shift, hprev]
    refine (ih hq' (Nat.lt_of_succ_lt hn)).trans ?_
    rw [hshift, ring.eraseIdx_set_succ hget hlen]

theorem countP_eraseIdx_slot {i : Nat} (hi : i < q.used) (f : PendSig α → Bool) :
    q.contents.countP f = (q.contents.eraseIdx i).countP f + if f (q.sigq (q.slot i)) then 1 else 0 :=
  SigQ.HoleAt.countP ⟨i, hi, rfl, rfl⟩ f

theorem sigq_take_eq (hq : q.Sized) {i : Nat} (hi : i < q.used) (callout : Bool) :
    ∃ slots npend, sigq_take q (q.slot i) callout = { q with
        sigq := slots
        sigq_tail := q.next q.sigq_tail
        sigq_cnt := update q.sigq_cnt (q.sigq (q.slot i)).signo (q.sigq_cnt (q.sigq (q.slot i)).signo - 1)
        sigq_ninj := if (q.sigq (q.slot i)).ptraced then q.sigq_ninj - 1 else q.sigq_ninj
        sigq_nthr := if (q.sigq (q.slot i)).thr then q.sigq_nthr - 1 else q.sigq_nthr
        g_sig_npend := npend } ∧
      ring.contents slots q.sigq_cap q.sigq_head (q.next q.sigq_tail) = q.contents.eraseIdx i := by
  have hlt := hq.used_lt
  have hindex : ring.used q.sigq_cap (q.slot i) q.sigq_tail = i := ring.used_slot (by omega)
  have hne : q.sigq_tail ≠ q.sigq_head := fun heq => by
    have := (ring.used_eq_zero_iff hq.tail_lt).2 heq
    exact Nat.not_lt_zero i (this ▸ hi)
  rw [sigq_take]
  dsimp only
  rw [hindex]
  generalize hdown : ({ q with
      sigq_cnt := update q.sigq_cnt (q.sigq (q.slot i)).signo (q.sigq_cnt (q.sigq (q.slot i)).signo - 1)
      sigq_ninj := if (q.sigq (q.slot i)).ptraced then q.sigq_ninj - 1 else q.sigq_ninj
      sigq_nthr := if (q.sigq (q.slot i)).thr then q.sigq_nthr - 1 else q.sigq_nthr } : SigQ α) = q1
  have hq1 : q1.Sized ∧ q1.used = q.used := by
    subst hdown
    exact ⟨{ hq with }, rfl⟩
  have hshift := sigq_shift_contents hq1.1 (hq1.2 ▸ hi)
  rw [sigq_shift_eq] at hshift ⊢
  subst hdown
  have hcontents := (ring.contents_advance hq.head_lt hq.tail_lt hne).trans hshift
  by_cases htail : q.next q.sigq_tail = q.sigq_head
  · exact ⟨_, q.next q.sigq_tail != q.sigq_head || callout, if_pos htail, hcontents⟩
  · exact ⟨_, q.g_sig_npend, if_neg htail, hcontents⟩

theorem sigq_take_spec (h : q.Agrees) {i : Nat} (hi : i < q.used) (callout : Bool) :
    (sigq_take q (q.slot i) callout).contents = q.contents.eraseIdx i ∧
      (sigq_take q (q.slot i) callout).Agrees := by
  have hq := h.sized
  obtain ⟨slots, npend, htake, hrest⟩ := sigq_take_eq hq hi callout
  have hcontents : (sigq_take q (q.slot i) callout).contents = q.contents.eraseIdx i := by
    rw [htake]
    exact hrest
  refine ⟨hcontents, ?_, ?_, fun sig => ?_, ?_, ?_⟩
  · rw [htake]
    exact ⟨hq.head_lt, ring.next_lt hq.tail_lt, hq.min_le, hq.le_max⟩
  · intro p hp
    rw [hcontents] at hp
    exact h.signo p ((eraseIdx_sublist _ _).mem hp)
  · have hcount := countP_eraseIdx_slot hi (·.signo == sig)
    rw [hcontents, htake]
    dsimp only
    by_cases hsig : sig = (q.sigq (q.slot i)).signo
    · rw [← hsig, update_self, h.cnt, hcount, if_pos (by simp [hsig]), Nat.add_sub_cancel]
    · rw [update_of_ne hsig, h.cnt, hcount, if_neg (by simpa using Ne.symm hsig), Nat.add_zero]
  · rw [hcontents, htake, h.inj, countP_eraseIdx_slot hi (·.ptraced)]
    cases (q.sigq (q.slot i)).ptraced <;> simp
  · rw [hcontents, htake, h.thr, countP_eraseIdx_slot hi (·.thr)]
    cases (q.sigq (q.slot i)).thr <;> simp

theorem sigq_drain_spec (h : q.Agrees) (allowed : BitVec 64) (callout : Bool) {n : Nat} (hn : q.used ≤ n) :
    Drains PendSig.rank (fun p => sig_allowed allowed p.signo) q.contents (sigq_drain allowed callout n q) := by
  induction n generalizing q with
  | zero =>
    have hempty : q.contents = [] := by
      rw [← length_eq_zero_iff, SigQ.contents, ring.length_contents]
      exact Nat.le_zero.1 hn
    rw [hempty]
    exact .nil (by simp)
  | succ n ih =>
    obtain ⟨hnone, hsome⟩ := sigq_pick_spec h allowed
    rw [sigq_drain]
    cases hpick : sigq_pick q allowed with
    | none => exact .nil (hnone.1 hpick)
    | some t =>
      obtain ⟨i, hi, rfl, hleast⟩ := hsome t hpick
      obtain ⟨hcontents, hagrees⟩ := sigq_take_spec h hi callout
      have hused : (sigq_take q (q.slot i) callout).used = q.used - 1 := by
        rw [← SigQ.length_contents, hcontents, length_eraseIdx, SigQ.length_contents, if_pos hi]
      have hrest := ih hagrees (by omega)
      rw [hcontents] at hrest
      exact .cons hleast (ring.getElem?_contents hi) hrest

end take

section runs

variable {s s' : SigState α} {a : SigAct α}

/-- Only signals are put on record. -/
def SigState.Signals (s : SigState α) : Prop := ∀ p ∈ s.ledger.pushed, 1 ≤ p.signo ∧ p.signo ≤ 64

theorem SigState.Signals.push (h : s.Signals) (p : PendSig α) : (s.push p).Signals := by
  unfold SigState.push
  split
  case h_1 q hpush =>
    intro p' hp'
    rcases mem_append.1 hp' with hold | hnew
    · exact h p' hold
    obtain rfl := mem_singleton.1 hnew
    -- one that was queued passed the test for its number
    by_contra hsig
    have hrefused : sigq_push s.q p' = (s.q, false) := if_pos (by omega)
    rw [hrefused] at hpush
    cases hpush
  case h_2 => exact h

theorem sig_step_pushed (s : SigState α) (callout room : Bool) :
    (sig_step s callout room).ledger.pushed = s.ledger.pushed := by
  obtain ⟨q, ctl, hand, l⟩ := s
  cases ctl <;> simp only [sig_step] <;> (try split) <;> (try split) <;> rfl

theorem sigq_signals (h : s.Signals) (hstep : SigStep s a s') : s'.Signals := by
  cases hstep with
  | push p => exact h.push p
  | handover_take =>
    generalize s.dt_hand = ps
    have hs : ({ s with dt_hand := [] } : SigState α).Signals := h
    generalize ({ s with dt_hand := [] } : SigState α) = s0 at hs
    induction ps generalizing s0 with
    | nil => exact hs
    | cons p ps ih => exact ih (s0.push p) (hs.push p)
  | step callout room =>
    rw [SigState.Signals, sig_step_pushed]
    exact h
  | _ => exact h

theorem sigq_agrees {junk : Nat → PendSig α} {as : List (SigAct α)} (h : Steps SigStep (.start junk) as s)
    (hhole : s.ctl.hole = none) : s.q.Agrees := by
  have hok : s.Ok := h.invariant (fun _ _ _ => sigq_ok) (sigq_reset_ok junk rfl)
  have hsignals : s.Signals := h.invariant (fun _ _ _ => sigq_signals)
    (by simp [SigState.Signals, SigState.start, Ledger.empty])
  obtain ⟨hcnt, hinj, hthr⟩ := hok.counts hhole
  have hsteady := hok.steady hhole
  rw [← hsteady] at hcnt hinj hthr
  refine ⟨hok.sized, fun p hp => hsignals p ?_, hcnt, hinj, hthr⟩
  rw [hsteady] at hp
  obtain ⟨⟨n, p⟩, hmem, rfl⟩ := mem_map.1 hp
  exact mem_of_getElem? ((s.ledger.exact n p).1 hmem).1

end runs

/-- `sigq_pick` gives the entry least in the kernel's order, and none exactly when none is allowed; so picking and
taking in turn empties the ring of the allowed entries in that order. -/
theorem sigq_pick_order {q : SigQ α} (h : q.Agrees) (allowed : BitVec 64) (callout : Bool) :
    (sigq_pick q allowed = none ↔ ∀ p ∈ q.contents, sig_allowed allowed p.signo = false) ∧
      (∀ t, sigq_pick q allowed = some t → ∃ i < q.used, t = q.slot i ∧
        Least PendSig.rank (fun p => sig_allowed allowed p.signo) q.contents i) ∧
      ∀ n, q.used ≤ n →
        (sigq_drain allowed callout n q).Perm (q.contents.filter fun p => sig_allowed allowed p.signo) ∧
        ((sigq_drain allowed callout n q).Pairwise fun p p' => p.rank ≤ p'.rank) ∧
        ∀ r, (sigq_drain allowed callout n q).filter (fun p => p.rank = r) =
          (q.contents.filter fun p => sig_allowed allowed p.signo).filter fun p => p.rank = r := by
  obtain ⟨hnone, hsome⟩ := sigq_pick_spec h allowed
  refine ⟨hnone, hsome, fun n hn => ?_⟩
  have hdrains := sigq_drain_spec h allowed callout hn
  exact ⟨hdrains.perm, hdrains.sorted, hdrains.stable⟩

/-- Of a real-time signal and a `SIGUSR1` that came after it, the latter goes first. -/
theorem sigq_pick_order_usr1 : ∃ q : SigQ Unit, q.Agrees ∧ q.contents = [rt_signal, sigusr1] ∧
    sigq_drain (BitVec.allOnes 64) false 2 q = [sigusr1, rt_signal] ∧
    (sigq_drain (BitVec.allOnes 64) false 2 q).Pairwise fun p p' => p.rank ≤ p'.rank := by
  have hrun : Steps SigStep (.start fun _ => rt_signal) [.push rt_signal, .push sigusr1] _ :=
    .cons (.push _) <| .cons (.push _) <| .nil _
  have hagrees := sigq_agrees hrun rfl
  refine ⟨_, hagrees, rfl, by decide +kernel, ?_⟩
  exact ((sigq_pick_order hagrees (BitVec.allOnes 64) false).2.2 2 (by decide +kernel)).2.1

end arm64emu
