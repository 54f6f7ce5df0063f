import Mathlib
import Arm64Emu.Lib.Ring
import Arm64Emu.Lib.Ledger
import Arm64Emu.Lib.Steps

open transition

namespace arm64emu

open Function

def SIGQ_MIN : Nat := 32
def SIGQ_MAX : Nat := 16384

variable {α : Type*}

/-- A captured signal. The rest of its siginfo, which no rule of the queue looks
at, is `info`. -/
structure PendSig (α : Type*) where
  signo : Nat
  thr : Bool
  ptraced : Bool
  info : α
  deriving DecidableEq, Repr

/-- A thread's queue: the ring, its counts, and the flag the run loop tests. -/
structure SigQ (α : Type*) where
  sigq : Nat → PendSig α
  sigq_cap : Nat
  sigq_head : Nat
  sigq_tail : Nat
  sigq_grow_req : Bool
  sigq_cnt : Nat → Nat
  sigq_ninj : Nat
  sigq_nthr : Nat
  g_sig_npend : Bool

/-- How deep the queue may go, from the resource limit (none for no limit) and
the cap in the environment (none if unset). -/
def sigq_limit (rlim_cur : Option Nat) (a64_sigq_max : Option Int) : Nat :=
  let v : Nat := match rlim_cur with
    | some cur => if cur < SIGQ_MAX then cur else SIGQ_MAX
    | none => SIGQ_MAX
  let v : Nat := match a64_sigq_max with
    | some n => if 0 < n ∧ n < v then n.toNat else v
    | none => v
  if v < SIGQ_MIN then SIGQ_MIN else v

namespace SigQ

variable (q : SigQ α)

def contents : List (PendSig α) := ring.contents q.sigq q.sigq_cap q.sigq_head q.sigq_tail

def used : Nat := ring.used q.sigq_cap q.sigq_head q.sigq_tail

def next (t : Nat) : Nat := ring.next q.sigq_cap t

def slot (i : Nat) : Nat := ring.slot q.sigq_cap q.sigq_tail i

end SigQ

def sigq_append (q : SigQ α) (p : PendSig α) : SigQ α :=
  { q with
    sigq := update q.sigq q.sigq_head p
    sigq_cnt := update q.sigq_cnt p.signo (q.sigq_cnt p.signo + 1)
    sigq_ninj := if p.ptraced then q.sigq_ninj + 1 else q.sigq_ninj
    sigq_nthr := if p.thr then q.sigq_nthr + 1 else q.sigq_nthr
    sigq_head := q.next q.sigq_head
    g_sig_npend := true }

/-- Queues an entry, unless its standard signal is pending or there is no room. -/
def sigq_push (q : SigQ α) (p : PendSig α) : SigQ α × Bool :=
  if p.signo < 1 ∨ 64 < p.signo then (q, false)
  else if p.signo < 32 ∧ q.sigq_cnt p.signo ≠ 0 then (q, false)
  else
    let q := { q with sigq_grow_req := q.sigq_grow_req || decide (q.sigq_cap * 3 ≤ q.used * 4) }
    if q.next q.sigq_head = q.sigq_tail then (q, false) else (sigq_append q p, true)

/-- The swap of `sigq_regrow`, with host signals blocked, into a buffer whose
memory held `junk`. -/
def sigq_swap (q : SigQ α) (want : Nat) (junk : Nat → PendSig α) : SigQ α :=
  { q with
    sigq := fun n => (q.contents[n]?).getD (junk n)
    sigq_cap := want
    sigq_tail := 0
    sigq_head := q.contents.length }

/-- The empty queue on the floor buffer, whose memory holds `junk`. -/
def sigq_reset (junk : Nat → PendSig α) : SigQ α :=
  { sigq := junk
    sigq_cap := SIGQ_MIN
    sigq_head := 0
    sigq_tail := 0
    sigq_grow_req := false
    sigq_cnt := fun _ => 0
    sigq_ninj := 0
    sigq_nthr := 0
    g_sig_npend := false }

/-- `SIGILL`, `SIGTRAP`, `SIGBUS`, `SIGFPE`, `SIGSEGV` and `SIGSYS`. -/
def sync_signals : List Nat := [4, 5, 7, 8, 11, 31]

def sig_sync_prio (sig : Nat) : Bool := sync_signals.contains sig

def sync_mask : BitVec 64 := sync_signals.foldl (fun m sig => m ||| 1#64 <<< (sig - 1)) 0

def sig_allowed (allowed : BitVec 64) (sig : Nat) : Bool := allowed.getLsbD (sig - 1)

/-- `__builtin_ctzll`, of a set that is not empty. -/
def lowest_signal (m : BitVec 64) : Nat := ((List.range 64).find? m.getLsbD).getD 0 + 1

/-- The order of delivery: the least first. -/
def sig_key (ptraced thr : Bool) (sig : Nat) : Nat :=
  (if ptraced then 0 else 1 <<< 9) ||| (if thr then 0 else 1 <<< 8) |||
    (if sig_sync_prio sig then 0 else 1 <<< 7) ||| sig

/-- The best key there can be among the pending numbers. -/
def sigq_floor (q : SigQ α) (pend : BitVec 64) : Nat :=
  let first := lowest_signal (if pend &&& sync_mask ≠ 0 then pend &&& sync_mask else pend)
  sig_key (q.sigq_ninj ≠ 0) (q.sigq_nthr ≠ 0) first

/-- The loops that walk the ring and take what they want of it out: the handover of a dismantled thread, the takeover
by the leader, and `sig_retarget` with the process's own entries of one number. -/
inductive Sweep where
  | give (all : Bool)
  | takeover
  | retarget (sig : Nat) (exiting : Bool)

/-- Whether the loop takes the entry out. `rq_put` gives it back to the host only while there is room; an entry that
could not be given back stays with a thread that lives. -/
def Sweep.wants : Sweep → PendSig α → Bool → Bool
  | .give all, p, _ => all || !p.thr
  | .takeover, p, _ => p.thr
  | .retarget sig exiting, p, room => p.signo == sig && !p.thr && (room || exiting)

/-- What the loop puts into the hand-over queue. -/
def Sweep.hand : Sweep → PendSig α → List (PendSig α) → Bool → List (PendSig α)
  | .give _, p, dt_hand, room => if room then dt_hand ++ [p] else dt_hand
  | .takeover, _, dt_hand, _ | .retarget _ _, _, dt_hand, _ => dt_hand

/-- Where `sigq_take` and `sigq_lower_npend` return to. -/
inductive SigCont where
  | done
  | sweep (w : Sweep) (t : Nat)

/-- Where the consumer is. The capture handler may run before any of its steps. -/
inductive SigCtl where
  | idle
  /-- `sigq_pick` is to read the count of number `s`. -/
  | pick_count (allowed : BitVec 64) (s : Nat) (pend : BitVec 64)
  | pick_floor (allowed pend : BitVec 64)
  | pick_scan (allowed : BitVec 64) (floor t : Nat) (best : Option Nat) (bestkey : Nat)
  | picked (best : Option Nat)
  /-- `sigq_take` is to lower the count of slot `t`'s number. -/
  | take_cnt (t : Nat) (k : SigCont)
  | take_inj (t : Nat) (k : SigCont)
  | take_thr (t : Nat) (k : SigCont)
  /-- The older entries up to slot `u` are still to move up by one. -/
  | take_shift (u : Nat) (k : SigCont)
  | take_test (k : SigCont)
  /-- `sigq_lower_npend` is to lower the flag. -/
  | lower (k : SigCont)
  | look (k : SigCont)
  | raise (again : Bool) (k : SigCont)
  | sweep (w : Sweep) (t : Nat)
  /-- `sigq_regrow` has dropped the request and is to swap the buffers. -/
  | regrow

def SigCont.resume (q : SigQ α) : SigCont → SigCtl
  | .done => .idle
  | .sweep w t => .sweep w (q.next t)

/-- A consumer, its queue and the entries handed over so far. The ledger has
every entry that was queued, and which of them were taken. -/
structure SigState (α : Type*) where
  q : SigQ α
  ctl : SigCtl := .idle
  dt_hand : List (PendSig α) := []
  ledger : Ledger (PendSig α)

def pick_next (q : SigQ α) (allowed : BitVec 64) (floor t : Nat) (best : Option Nat) (bestkey : Nat) : SigCtl :=
  let p := q.sigq t
  let key := sig_key p.ptraced p.thr p.signo
  if sig_allowed allowed p.signo && key < bestkey then
    if key ≤ floor then .picked (some t) else .pick_scan allowed floor (q.next t) (some t) key
  else .pick_scan allowed floor (q.next t) best bestkey

/-- The consumer's own steps, each of one access to what it shares with the capture handler. `callout` is whether a
call-out waits, `room` whether memory for an entry can be had. -/
def sig_step (s : SigState α) (callout room : Bool) : SigState α :=
  let q := s.q
  match s.ctl with
  | .pick_count allowed n pend =>
    if 64 < n then { s with ctl := .pick_floor allowed (pend &&& allowed) }
    else { s with ctl := .pick_count allowed (n + 1) (if q.sigq_cnt n ≠ 0 then pend ||| 1#64 <<< (n - 1) else pend) }
  | .pick_floor allowed pend =>
    if pend = 0 then { s with ctl := .picked none }
    else { s with ctl := .pick_scan allowed (sigq_floor q pend) q.sigq_tail none (2 ^ 32 - 1) }
  | .pick_scan allowed floor t best bestkey =>
    if t = q.sigq_head then { s with ctl := .picked best }
    else { s with ctl := pick_next q allowed floor t best bestkey }
  | .take_cnt t k =>
    let sig := (q.sigq t).signo
    { s with q := { q with sigq_cnt := update q.sigq_cnt sig (q.sigq_cnt sig - 1) }, ctl := .take_inj t k }
  | .take_inj t k =>
    { s with
      q := { q with sigq_ninj := if (q.sigq t).ptraced then q.sigq_ninj - 1 else q.sigq_ninj }
      ctl := .take_thr t k }
  | .take_thr t k =>
    { s with
      q := { q with sigq_nthr := if (q.sigq t).thr then q.sigq_nthr - 1 else q.sigq_nthr }
      ctl := .take_shift t k }
  | .take_shift u k =>
    if u = q.sigq_tail then { s with q := { q with sigq_tail := q.next q.sigq_tail }, ctl := .take_test k }
    else
      let prev := ring.prev q.sigq_cap u
      { s with q := { q with sigq := update q.sigq u (q.sigq prev) }, ctl := .take_shift prev k }
  | .take_test k => if q.sigq_tail = q.sigq_head then { s with ctl := .lower k } else { s with ctl := k.resume q }
  | .lower k => { s with q := { q with g_sig_npend := false }, ctl := .look k }
  | .look k => { s with ctl := .raise (q.sigq_tail != q.sigq_head || callout) k }
  | .raise again k => { s with q := { q with g_sig_npend := q.g_sig_npend || again }, ctl := k.resume q }
  | .sweep w t =>
    if t = q.sigq_head then { s with ctl := .idle }
    else if w.wants (q.sigq t) room then
      { s with
        ctl := .take_cnt t (.sweep w t)
        dt_hand := w.hand (q.sigq t) s.dt_hand room
        ledger := s.ledger.take (ring.used q.sigq_cap t q.sigq_tail) }
    else { s with ctl := .sweep w (q.next t) }
  | .idle | .picked _ | .regrow => s

/-- `sigq_push`, with the entry put down in the ledger if it was queued. -/
def SigState.push (s : SigState α) (p : PendSig α) : SigState α :=
  match sigq_push s.q p with
  | (q, true) => { s with q, ledger := s.ledger.push p }
  | (q, false) => { s with q }

/-- What happens to a queue. -/
inductive SigAct (α : Type*) where
  /-- The capture handler, or `sigq_push_local` with it kept out. -/
  | push (p : PendSig α)
  | pick (allowed : BitVec 64)
  /-- The entry picked is copied out and `sigq_take` entered. -/
  | take
  | leave
  /-- `sigq_take` of the oldest entry. -/
  | drain
  | lower
  | sweep (w : Sweep)
  | regrow
  | swap (rlim_cur : Option Nat) (a64_sigq_max : Option Int) (junk : Nat → PendSig α)
  | no_swap
  | reset (junk : Nat → PendSig α)
  /-- Another thread hands an entry over. -/
  | hand (p : PendSig α)
  | handover_take
  | step (callout room : Bool)

/-- One step of the consumer, or one push by the handler. -/
inductive SigStep : SigState α → SigAct α → SigState α → Prop where
  | push {s : SigState α} (p : PendSig α) : SigStep s (.push p) (s.push p)
  | pick {s : SigState α} (allowed : BitVec 64) (hctl : s.ctl = .idle) :
      SigStep s (.pick allowed) { s with ctl := .pick_count allowed 1 0 }
  | take {s : SigState α} {t : Nat} (hctl : s.ctl = .picked (some t)) :
      SigStep s .take { s with
        ctl := .take_cnt t .done
        ledger := s.ledger.take (ring.used s.q.sigq_cap t s.q.sigq_tail) }
  | leave {s : SigState α} {best : Option Nat} (hctl : s.ctl = .picked best) :
      SigStep s .leave { s with ctl := .idle }
  | drain {s : SigState α} (hctl : s.ctl = .idle) (hne : s.q.sigq_tail ≠ s.q.sigq_head) :
      SigStep s .drain { s with ctl := .take_cnt s.q.sigq_tail .done, ledger := s.ledger.take 0 }
  | lower {s : SigState α} (hctl : s.ctl = .idle) : SigStep s .lower { s with ctl := .lower .done }
  | sweep {s : SigState α} (w : Sweep) (hctl : s.ctl = .idle) :
      SigStep s (.sweep w) { s with ctl := .sweep w s.q.sigq_tail }
  | regrow {s : SigState α} (hctl : s.ctl = .idle) :
      SigStep s .regrow { s with ctl := .regrow, q := { s.q with sigq_grow_req := false } }
  | swap {s : SigState α} (rlim_cur : Option Nat) (a64_sigq_max : Option Int) (junk : Nat → PendSig α)
      (hctl : s.ctl = .regrow) (hlim : s.q.sigq_cap < sigq_limit rlim_cur a64_sigq_max) :
      SigStep s (.swap rlim_cur a64_sigq_max junk) { s with
        ctl := .idle
        q := sigq_swap s.q (min (s.q.sigq_cap * 2) (sigq_limit rlim_cur a64_sigq_max)) junk }
  | no_swap {s : SigState α} (hctl : s.ctl = .regrow) : SigStep s .no_swap { s with ctl := .idle }
  | reset {s : SigState α} (junk : Nat → PendSig α) (hctl : s.ctl = .idle) :
      SigStep s (.reset junk) { s with q := sigq_reset junk, ledger := s.ledger.clear }
  | hand {s : SigState α} (p : PendSig α) : SigStep s (.hand p) { s with dt_hand := s.dt_hand ++ [p] }
  | handover_take {s : SigState α} (hctl : s.ctl = .idle) :
      SigStep s .handover_take (s.dt_hand.foldl SigState.push { s with dt_hand := [] })
  | step {s : SigState α} (callout room : Bool) : SigStep s (.step callout room) (sig_step s callout room)

end arm64emu
