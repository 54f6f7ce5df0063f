import Mathlib
import Arm64Emu.Lib.Steps

open transition

namespace arm64emu

def UINT64_MAX : Nat := 2 ^ 64 - 1
def NSEC_PER_SEC : Nat := 1000000000

def EINTR_ret : BitVec 64 := BitVec.ofInt 64 (-4)

/-- The restart bookkeeping of a thread: the registers the restart code reads, its `sc_*` fields, its mark of an
interruption and its clock. -/
structure ScThread where
  pc : BitVec 64
  x : Nat → BitVec 64
  sc_svc_pc : BitVec 64 := 0
  sc_orig_x0 : BitVec 64 := 0
  sc_nr : BitVec 64 := 0
  sc_ret_eintr : Bool := false
  sc_restarted : Bool := false
  sc_wait_t0 : Nat := 0
  sc_waited_ns : Nat := 0
  g_sig_selfintr : Bool := false
  sticky_timeouts : Bool := false
  mono_ns : Nat

def set_x0 (x : Nat → BitVec 64) (v : BitVec 64) (i : Nat) : BitVec 64 := if i = 0 then v else x i

def ScThread.elapsed (t : ScThread) : Nat := if t.sc_wait_t0 = 0 then 0 else t.mono_ns - t.sc_wait_t0

/-- The bookkeeping at the head of `syscall_dispatch`, entered with the program
counter past the SVC. -/
def syscall_dispatch (t : ScThread) : ScThread :=
  { t with
    sc_svc_pc := t.pc - 4
    sc_orig_x0 := t.x 0
    sc_nr := t.x 8
    g_sig_selfintr := false
    sc_wait_t0 := 0
    sc_restarted := false
    sc_waited_ns := if t.sc_restarted then t.sc_waited_ns else 0 }

/-- The end of `syscall_dispatch`: the note of an `EINTR` and the answer. -/
def syscall_return (t : ScThread) (ret : BitVec 64) : ScThread :=
  { t with sc_ret_eintr := ret == EINTR_ret, x := set_x0 t.x ret }

/-- Winds the call back, to be made again. -/
def syscall_restart_internal (t : ScThread) : ScThread :=
  if t.sc_ret_eintr = false ∨ t.pc ≠ t.sc_svc_pc + 4 then { t with g_sig_selfintr := false }
  else
    { t with
      g_sig_selfintr := false
      sc_waited_ns := t.sc_waited_ns + t.elapsed
      sc_wait_t0 := 0
      pc := t.sc_svc_pc
      x := set_x0 t.x t.sc_orig_x0
      sc_ret_eintr := false
      sc_restarted := true }

/-- Takes a rewind back. -/
def syscall_unrewind (t : ScThread) : ScThread :=
  if t.sc_restarted = false ∨ t.pc ≠ t.sc_svc_pc then t
  else
    { t with
      pc := t.sc_svc_pc + 4
      x := set_x0 t.x EINTR_ret
      sc_ret_eintr := true
      g_sig_selfintr := true }

structure Timespec where
  tv_sec : Nat
  tv_nsec : Nat
  deriving DecidableEq, Repr

def span_ns_sat (sec nsec : Nat) : Nat :=
  if sec > (UINT64_MAX - nsec) / NSEC_PER_SEC then UINT64_MAX else sec * NSEC_PER_SEC + nsec

def Timespec.span (ts : Timespec) : Nat := span_ns_sat ts.tv_sec ts.tv_nsec

/-- The duration a blocking handler goes on to sleep for. The stopwatch is
`ScThread.begin_wait`. -/
def syscall_wait_begin (t : ScThread) (ts : Timespec) : Timespec :=
  if t.sc_waited_ns = 0 then ts
  else if ts.span = UINT64_MAX then ts
  else
    let left := if ts.span > t.sc_waited_ns then ts.span - t.sc_waited_ns else 0
    ⟨left / NSEC_PER_SEC, left % NSEC_PER_SEC⟩

def ScThread.begin_wait (t : ScThread) : ScThread := { t with sc_wait_t0 := t.mono_ns }

/-- The time left goes back to the caller's timespec unless it is to be left
alone or cannot be written. -/
def pwait_writes_back (t : ScThread) (writable : Bool) : Bool := !t.sticky_timeouts && writable

def pwait_tmo_finish (t : ScThread) (writable : Bool) : ScThread :=
  if pwait_writes_back t writable then { t with sc_wait_t0 := 0 } else t

section disposition

def G_NR_futex : Nat := 98
def G_NR_splice : Nat := 76
def G_NR_ppoll : Nat := 73
def G_NR_pselect6 : Nat := 72
def G_NR_rt_sigreturn : Nat := 139

/-- `read`, `readv`, `pread64`, `preadv`, `preadv2`, `accept`, `accept4`,
`recvfrom`, `recvmsg`, `recvmmsg`. -/
def receive_calls : List Nat := [63, 65, 67, 69, 286, 202, 242, 207, 212, 243]

/-- `write`, `writev`, `pwrite64`, `pwritev`, `pwritev2`, `connect`, `sendto`,
`sendmsg`, `sendmmsg`, `sendfile`. -/
def send_calls : List Nat := [64, 66, 68, 70, 287, 203, 206, 211, 269, 71]

/-- `openat`, `openat2`, `wait4`, `waitid`, `ioctl`, `fcntl`, `flock`, `tee`,
`vmsplice`, `getrandom`. -/
def plain_restart_calls : List Nat := [56, 437, 260, 95, 29, 25, 32, 77, 75, 278]

/-- `epoll_pwait`, `epoll_pwait2`, `rt_sigtimedwait`, `semop`, `semtimedop`. -/
def eintr_calls : List Nat := [22, 441, 137, 193, 192]

inductive SockTimeo where
  | SO_RCVTIMEO
  | SO_SNDTIMEO
  deriving DecidableEq, Repr

/-- Whether a descriptor is a socket with a timeout of its own. -/
abbrev SockTimeos := BitVec 32 → SockTimeo → Bool

variable (sock_timeo_set : SockTimeos) (t : ScThread)

/-- Whether an interrupted call is made again after a handler. -/
def sc_restart_wanted (sa_restart : Bool) : Bool :=
  if t.sc_ret_eintr = false then false
  else
    let fd := t.sc_orig_x0.setWidth 32
    let nr := t.sc_nr.toNat
    if nr = G_NR_futex then
      let op := (t.x 1).toNat % 128
      -- LOCK_PI, LOCK_PI2 and WAIT_REQUEUE_PI, then WAIT and WAIT_BITSET
      if op = 6 ∨ op = 13 ∨ op = 11 then true
      else if op = 0 ∨ op = 9 then t.x 3 == 0 && sa_restart
      else false
    else if nr ∈ receive_calls then sa_restart && !sock_timeo_set fd .SO_RCVTIMEO
    else if nr ∈ send_calls then sa_restart && !sock_timeo_set fd .SO_SNDTIMEO
    else if nr = G_NR_splice then
      sa_restart && !sock_timeo_set fd .SO_RCVTIMEO && !sock_timeo_set ((t.x 2).setWidth 32) .SO_SNDTIMEO
    else if nr ∈ plain_restart_calls then sa_restart
    else false

/-- Whether it is made again where no handler ran. -/
def sc_restart_nohandler : Bool :=
  if t.sc_ret_eintr = false then false
  else
    let fd := t.sc_orig_x0.setWidth 32
    let nr := t.sc_nr.toNat
    if nr ∈ eintr_calls then false
    else if nr ∈ receive_calls then !sock_timeo_set fd .SO_RCVTIMEO
    else if nr ∈ send_calls then !sock_timeo_set fd .SO_SNDTIMEO
    else if nr = G_NR_splice then
      !sock_timeo_set fd .SO_RCVTIMEO && !sock_timeo_set ((t.x 2).setWidth 32) .SO_SNDTIMEO
    else if nr = G_NR_ppoll then !(t.sticky_timeouts && t.x 2 != 0)
    else if nr = G_NR_pselect6 then !(t.sticky_timeouts && t.x 4 != 0)
    else true

def sig_taken_quietly (traced : Bool) : ScThread :=
  { t with g_sig_selfintr := !traced || sc_restart_nohandler sock_timeo_set t }

def sig_after_trap : ScThread := { t with g_sig_selfintr := sc_restart_nohandler sock_timeo_set t }

end disposition

def SI_OFF : BitVec 64 := 0
def UC_OFF : BitVec 64 := 128

/-- The part of a signal frame that `rt_sigreturn` resumes the thread from. -/
structure SigFrame where
  pc : BitVec 64
  x : Nat → BitVec 64

/-- A signal with a handler: the handler, the `SA_RESTART` bit of its action and
where its frame goes. -/
structure Delivery where
  sig : BitVec 64
  handler : BitVec 64
  sa_restart : Bool
  frame : BitVec 64
  sigtramp_va : BitVec 64

def Delivery.regs (d : Delivery) (x : Nat → BitVec 64) (i : Nat) : BitVec 64 :=
  if i = 0 then d.sig
  else if i = 1 then d.frame + SI_OFF
  else if i = 2 then d.frame + UC_OFF
  else if i = 30 then d.sigtramp_va
  else x i

def sigframe (sock_timeo_set : SockTimeos) (t : ScThread) (d : Delivery) : SigFrame :=
  if sc_restart_wanted sock_timeo_set t d.sa_restart then
    { pc := t.sc_svc_pc, x := set_x0 t.x t.sc_orig_x0 }
  else { pc := t.pc, x := t.x }

def enter_handler (t : ScThread) (d : Delivery) : ScThread :=
  { t with pc := d.handler, x := d.regs t.x, sc_ret_eintr := false }

/-- What `sig_deliver_pending` and `ptrace_service_kick` do short of running a handler. -/
inductive Quiet where
  | taken (traced : Bool)
  | trap
  | attach

def Quiet.apply (sock_timeo_set : SockTimeos) (t : ScThread) : Quiet → ScThread
  | .taken traced => sig_taken_quietly sock_timeo_set t traced
  | .trap => sig_after_trap sock_timeo_set t
  | .attach => { t with g_sig_selfintr := false }

/-- What a boundary of `emu_loop` finds due: whether a signal is noted, what the
tracer asks, the signals taken with no handler and the one that has one. -/
structure Boundary where
  g_sig_npend : Bool
  kicks : List Quiet := []
  taken : List Quiet := []
  handler : Option Delivery := none
  sock_timeo_set : SockTimeos := fun _ _ => false

def Boundary.unrewound (b : Boundary) (t : ScThread) : ScThread :=
  if b.g_sig_npend then syscall_unrewind t else t

/-- The thread when the boundary comes to the signal that has a handler. -/
def Boundary.quiet (b : Boundary) (t : ScThread) : ScThread :=
  let t := b.kicks.foldl (Quiet.apply b.sock_timeo_set) (b.unrewound t)
  if b.g_sig_npend then b.taken.foldl (Quiet.apply b.sock_timeo_set) t else t

def Boundary.delivers (b : Boundary) : Option Delivery := if b.g_sig_npend then b.handler else none

/-- The services at the end of an iteration of `emu_loop`, with the frame they
build. -/
def emu_boundary (b : Boundary) (t : ScThread) : ScThread × Option SigFrame :=
  let t := b.quiet t
  let (t, f) := match b.delivers with
    | some d => (enter_handler t d, some (sigframe b.sock_timeo_set t d))
    | none => (t, none)
  (if t.g_sig_selfintr then syscall_restart_internal t else t, f)

/-- A synchronous fault with a handler, and the trap of a seccomp filter. -/
def sig_deliver_fault (t : ScThread) (d : Delivery) : ScThread × SigFrame :=
  (enter_handler t d, { pc := t.pc, x := t.x })

def sig_return (t : ScThread) (f : SigFrame) : ScThread := { t with pc := f.pc, x := f.x }

/-- Where the thread is in `emu_loop`: in guest code, in a handler of
`syscall_dispatch`, or on its way to the services of the boundary. -/
inductive ScPhase where
  | guest
  | syscall
  | boundary
  deriving DecidableEq, Repr

/-- A call of the guest's not yet answered: where its SVC is, how long its ended attempts waited, and how much of that
its timespec carries. -/
structure GuestCall where
  svc_pc : BitVec 64
  waited : Nat := 0
  carried : Nat := 0

/-- The attempt in progress is over, and what is on its stopwatch was waited. -/
def GuestCall.ended (c : GuestCall) (t : ScThread) : GuestCall := { c with waited := c.waited + t.elapsed }

/-- The attempt's remainder went to the timespec, which had been shrunk by what
the earlier attempts are charged. -/
def GuestCall.written (c : GuestCall) (t : ScThread) : GuestCall :=
  { c with waited := c.waited + t.elapsed, carried := c.carried + (t.sc_waited_ns + t.elapsed) }

/-- A thread, the call its guest is in the middle of, and the frames it was given
with the call each resumes. -/
structure ScState where
  thr : ScThread
  phase : ScPhase := .guest
  call : Option GuestCall := none
  frames : List (SigFrame × Option GuestCall) := []

/-- A call goes on in a context that resumes at its SVC, and in no other. -/
def ScState.call_at (s : ScState) (pc : BitVec 64) : Option GuestCall :=
  match s.call with
  | some c => if c.svc_pc = pc then some (c.ended s.thr) else none
  | none => none

/-- The thread is in a handler, and what it was doing is in the frame. -/
def ScState.interrupted (s : ScState) (thr : ScThread) (f : SigFrame) : ScState :=
  { thr, phase := .guest, call := none, frames := (f, s.call_at f.pc) :: s.frames }

def ScState.boundary (s : ScState) (b : Boundary) : ScState :=
  match emu_boundary b s.thr with
  | (thr, some f) => s.interrupted thr f
  | (thr, none) => { s with thr, phase := .guest, call := s.call_at thr.pc }

/-- The call a dispatch at the thread's program counter makes: the one the guest
is in the middle of, or one it makes for the first time. -/
def ScState.dispatched (s : ScState) : GuestCall := s.call.getD { svc_pc := s.thr.pc }

def ScState.dispatch (s : ScState) : ScState :=
  { s with
    thr := syscall_dispatch { s.thr with pc := s.thr.pc + 4 }
    phase := .syscall
    call := some s.dispatched }

/-- The handler returns. A call that answers `EINTR` is not over before the
boundary has settled it. -/
def ScState.finish (s : ScState) (ret : BitVec 64) (written : Bool) : ScState :=
  { s with
    thr := syscall_return (pwait_tmo_finish s.thr written) ret
    phase := .boundary
    call := if ret = EINTR_ret then
        s.call.map fun c => if pwait_writes_back s.thr written then c.written s.thr else c
      else none }

/-- What happens to a thread in a call. -/
inductive ScAct where
  /-- Time passes. -/
  | tick (ns : Nat)
  /-- The engine runs guest code, up to `pc`. -/
  | run (pc : BitVec 64) (x : Nat → BitVec 64)
  /-- The engine leaves guest code. -/
  | exit
  | fault (d : Delivery)
  | dispatch
  /-- A handler begins to wait. -/
  | wait
  /-- A signal of the emulator's own cuts the handler short. -/
  | selfintr
  | finish (ret : BitVec 64) (written : Bool)
  | seccomp_trap (ret : BitVec 64) (d : Delivery)
  | sigreturn (f : SigFrame) (call : Option GuestCall)
  | boundary (b : Boundary)

/-- One step of a thread. The guest may hand `rt_sigreturn` any frame, but only
one it was given resumes a call. -/
inductive ScStep : ScState → ScAct → ScState → Prop where
  | tick {s : ScState} (ns : Nat) :
      ScStep s (.tick ns) { s with thr := { s.thr with mono_ns := s.thr.mono_ns + ns } }
  | run {s : ScState} (pc : BitVec 64) (x : Nat → BitVec 64) (hphase : s.phase = .guest) :
      ScStep s (.run pc x) { s with thr := { s.thr with pc, x }, call := none }
  | exit {s : ScState} (hphase : s.phase = .guest) : ScStep s .exit { s with phase := .boundary }
  | fault {s : ScState} (d : Delivery) (hphase : s.phase = .guest) :
      ScStep s (.fault d) (s.interrupted (sig_deliver_fault s.thr d).1 (sig_deliver_fault s.thr d).2)
  | dispatch {s : ScState} (hphase : s.phase = .guest) : ScStep s .dispatch s.dispatch
  | wait {s : ScState} (hphase : s.phase = .syscall) (hfirst : s.thr.sc_wait_t0 = 0) :
      ScStep s .wait { s with thr := s.thr.begin_wait }
  | selfintr {s : ScState} (hphase : s.phase = .syscall) :
      ScStep s .selfintr { s with thr := { s.thr with g_sig_selfintr := true } }
  | finish {s : ScState} (ret : BitVec 64) (written : Bool) (hphase : s.phase = .syscall) :
      ScStep s (.finish ret written) (s.finish ret written)
  | seccomp_trap {s : ScState} (ret : BitVec 64) (d : Delivery) (hphase : s.phase = .syscall)
      (hwait : s.thr.sc_wait_t0 = 0) :
      ScStep s (.seccomp_trap ret d) (s.interrupted (sig_deliver_fault (syscall_return s.thr ret) d).1
        (sig_deliver_fault (syscall_return s.thr ret) d).2)
  | sigreturn {s : ScState} (f : SigFrame) (call : Option GuestCall) (hphase : s.phase = .syscall)
      (hnr : s.thr.sc_nr.toNat = G_NR_rt_sigreturn) (hwait : s.thr.sc_wait_t0 = 0)
      (hframe : (f, call) ∈ s.frames ∨ call = none) :
      ScStep s (.sigreturn f call)
        { s with thr := syscall_return (sig_return s.thr f) (f.x 0), phase := .boundary, call }
  | boundary {s : ScState} (b : Boundary) (hphase : s.phase = .boundary) :
      ScStep s (.boundary b) (s.boundary b)

end arm64emu
