import Mathlib
import Arm64Emu.Core.Types
import Arm64Emu.Core.Errno
import Arm64Emu.Lib.Steps

namespace arm64emu

open transition

inductive PtState where
  | running | stopped | exited
  deriving DecidableEq

inductive PtCmd where
  | none | peek | peekusr | poke | read | write | getregs | setregs | resume | detach
  deriving DecidableEq

/-- The shared slot a tracer posts its requests in. -/
structure Mailbox where
  cmd_seq : u32
  done_seq : u32
  cmd : PtCmd
  addr : u64
  arg : u64
  result : Int
  rlen : u32
  data : List u8

structure MboxLink where
  tracee : Int
  tracer : Int
  tracer_tid : Int
  state : PtState
  listening : Bool
  interrupt_pending : Bool
  trap_notify : Bool
  mbox : Mailbox

def MboxLink.free : MboxLink := ⟨0, 0, 0, .running, false, false, false, ⟨0, 0, .none, 0, 0, 0, 0, []⟩⟩

/-- A posted command: its number, the task it is for, and which claim of the slot
that task's is. -/
structure Post where
  id : Nat
  tid : Int
  gen : Nat
  deriving DecidableEq

/-- What a served command is followed by. -/
inductive After where
  | loop | leave | detach
  deriving DecidableEq

/-- Where the task of a claim stands: outside a stop, in `pt_stop`, or in
`pt_service_loop_run`. -/
inductive Tracee where
  | fresh
  | running
  | snapped (seen : u32)
  | parked (seen : u32)
  | awake (seen : u32)
  | fetch
  | serve (seen : u32)
  | reply (seen : u32) (after : After)
  -- the state is about to be RUNNING again: a trap to take again, or a call-out
  | leaving
  -- `pt_self_detach`, store by store
  | detaching
  | untrace
  | unlink
  | gone
  deriving DecidableEq

def Tracee.In (t : Tracee) : Prop := t ≠ .fresh ∧ t ≠ .gone

instance (t : Tracee) : Decidable t.In := inferInstanceAs (Decidable (_ ∧ _))

/-- Where a thread of a tracer stands in a request to the slot's task: in the
checks of `ptrace_syscall` or `ptrace_vm_block` (`vm`), or in `pt_cmd`. -/
inductive Poster where
  | idle
  | found (vm : Bool) (tid : Int) (gen : Nat)
  | stopped (vm : Bool) (tid : Int) (gen : Nat)
  | cleared (vm : Bool) (tid : Int) (gen : Nat)
  | ours (tid : Int) (gen : Nat)
  | filled (p : Post)
  | counted (p : Post) (d : u32)
  | waiting (p : Post) (d : u32)
  | unanswered (p : Post) (d : u32)
  | held (p : Post) (d : u32)
  | exited (p : Post) (d : u32)
  | bail (p : Post) (d : u32)
  | paused (p : Post) (d : u32)
  | lost (p : Post) (d : u32)
  | answered (p : Post)
  | dead
  deriving DecidableEq

def Poster.Active (q : Poster) : Prop := q ≠ .idle ∧ q ≠ .dead

/-- In the wait of `pt_cmd` for the answer to `p`, with `d` answers counted
before it. -/
def Poster.Waits (q : Poster) (p : Post) (d : u32) : Prop :=
  q = .waiting p d ∨ q = .unanswered p d ∨ q = .held p d ∨ q = .exited p d ∨ q = .paused p d

structure Tracers (ι : Type) where
  pid : ι → Int
  tid : ι → Int

/-- A slot of the registry over its whole life, with the tasks of all its claims and the threads that post to it. The
last six fields are the model's own record of whose commands were stored, carried out and answered. -/
structure Mbox (ι : Type) where
  link : MboxLink
  gen : Nat
  task : Nat → Tracee
  poster : ι → Poster
  mail : Option Post
  replied : Option Post
  owed : Option Post
  next : Nat
  execs : List (Nat × Option Post)
  taken : List (Post × Option Post)

def Mbox.init (ι : Type) : Mbox ι :=
  ⟨.free, 0, fun _ => .fresh, fun _ => .idle, none, none, none, 0, [], []⟩

section steps

variable {ι : Type} [DecidableEq ι] (tr : Tracers ι)

def Mbox.at_poster (s : Mbox ι) (i : ι) (q : Poster) : Mbox ι :=
  { s with poster := Function.update s.poster i q }

omit [DecidableEq ι] in
def Mbox.at_task (s : Mbox ι) (g : Nat) (t : Tracee) : Mbox ι :=
  { s with task := Function.update s.task g t }

/-- A step of a posting thread. `look` is a load and the test made on it. -/
inductive PosterAct where
  | find (vm : Bool) (tid : Int)
  | look
  | listen
  | fill (cmd : PtCmd) (addr arg : u64) (rlen : u32) (data : List u8)
  | post
  | wake (dead : Bool)
  | write
  | take
  | die
  deriving DecidableEq

def pt_is_tracer (e : MboxLink) (i : ι) (vm : Bool) : Bool :=
  e.tracer == tr.pid i && (vm || e.tracer_tid == 0 || e.tracer_tid == tr.tid i)

/-- The requests that look at the tracee before they post, and `pt_cmd`. -/
def poster_step (s : Mbox ι) (i : ι) (a : PosterAct) : Option (Mbox ι) :=
  match s.poster i, a with
  | .idle, .find vm tid =>
    if 0 < tid ∧ s.link.tracee = tid ∧ pt_is_tracer tr s.link i vm = true then
      some (s.at_poster i (.found vm tid s.gen))
    else none
  | .found vm tid gen, .look =>
    some (s.at_poster i (if s.link.state = .stopped then .stopped vm tid gen else .idle))
  -- process_vm_readv and process_vm_writev do not ask whether the tracee listens
  | .stopped vm tid gen, .look =>
    some (s.at_poster i (if vm = false ∧ s.link.listening = true then .idle else .cleared vm tid gen))
  | .cleared false _ _, .listen =>
    some ({ s with link := { s.link with listening := true } }.at_poster i .idle)
  | .cleared _ tid gen, .look =>
    some (s.at_poster i (if s.link.tracee = tid then .ours tid gen else .idle))
  -- plain stores, ordered by the bump of cmd_seq
  | .ours tid gen, .fill cmd addr arg rlen data =>
    some ({ s with
      link := { s.link with mbox := { s.link.mbox with cmd, addr, arg, rlen, data } }
      mail := some ⟨s.next, tid, gen⟩
      next := s.next + 1 }.at_poster i (.filled ⟨s.next, tid, gen⟩))
  | .filled p, .look => some (s.at_poster i (.counted p s.link.mbox.done_seq))
  | .counted p d, .post =>
    some ({ s with
      link := { s.link with mbox := { s.link.mbox with cmd_seq := s.link.mbox.cmd_seq + 1 } }
      owed := some p }.at_poster i (.waiting p d))
  | .waiting p d, .look =>
    some (s.at_poster i (if s.link.mbox.done_seq = d then .unanswered p d else .answered p))
  | .unanswered p d, .look =>
    some (s.at_poster i (if s.link.tracee = p.tid then .held p d else .idle))
  | .held p d, .look =>
    some (s.at_poster i (if s.link.state = .exited then .exited p d else .paused p d))
  | .exited p d, .look =>
    some (s.at_poster i (if s.link.mbox.done_seq = d then .bail p d else .answered p))
  | .bail _ _, .write =>
    some ({ s with
      link := { s.link with mbox := { s.link.mbox with result := -ESRCH } }
      replied := none }.at_poster i .idle)
  | .paused p d, .wake dead =>
    some (s.at_poster i (if s.link.mbox.done_seq = d ∧ dead = true then .lost p d else .waiting p d))
  | .lost p _, .write =>
    some (if s.link.tracee = p.tid then
      { s with
        link := { s.link with mbox := { s.link.mbox with result := -ESRCH } }
        replied := none }.at_poster i .idle
    else s.at_poster i .idle)
  | .answered p, .take => some ({ s with taken := (p, s.replied) :: s.taken }.at_poster i .idle)
  | .idle, .die => none
  | .dead, _ => none
  | _, .die => some (s.at_poster i .dead)
  | _, _ => none

/-- What carrying out a command leaves in the mailbox: its result, and the bytes
it hands back. -/
structure Answer where
  result : Int
  rlen : u32
  data : List u8
  deriving DecidableEq

/-- A step of the task of a claim. `woken` is the look at cmd_seq after the futex
wait; `retrap`, `orphaned` and `called_out` are the ways out of the wait. -/
inductive TraceeAct where
  | adopt
  | snapshot (event_stop : Bool)
  | publish
  | look
  | woken
  | retrap
  | orphaned
  | called_out
  | again
  | fetch
  | serve (ans : Answer)
  | reply
  | store
  | exit
  | silent
  | die
  deriving DecidableEq

/-- The answer and the state `e->cmd` leaves, and what follows it. -/
def serve_cmd (e : MboxLink) (ans : Answer) : MboxLink × After :=
  match e.mbox.cmd with
  | .resume => ({ e with state := .running, mbox := { e.mbox with result := 0 } }, .leave)
  | .detach => ({ e with mbox := { e.mbox with result := 0 } }, .detach)
  | .none => ({ e with mbox := { e.mbox with result := - EIO } }, .loop)
  | _ => ({ e with mbox := { e.mbox with result := ans.result, rlen := ans.rlen, data := ans.data } }, .loop)

def After.tracee (seen : u32) : After → Tracee
  | .loop => .parked seen
  | .leave => .running
  | .detach => .detaching

/-- `pt_stop`, `pt_service_loop_run` and `pt_self_detach`, in the task of claim
`g`, and its ends. -/
def tracee_step (s : Mbox ι) (g : Nat) : TraceeAct → Option (Mbox ι)
  | .adopt => if s.task g = .fresh ∧ g = s.gen ∧ 0 < s.link.tracee then some (s.at_task g .running) else none
  | .snapshot event_stop =>
    if s.task g = .running then
      some ({ s with
        link := { s.link with interrupt_pending := false, trap_notify := s.link.trap_notify && !event_stop }
        owed := none }.at_task g (.snapped s.link.mbox.cmd_seq))
    else none
  | .publish =>
    match s.task g with
    | .snapped seen => some ({ s with link := { s.link with state := .stopped } }.at_task g (.parked seen))
    | _ => none
  | .look =>
    match s.task g with
    | .parked seen => some (s.at_task g (if s.link.mbox.cmd_seq = seen then .parked seen else .fetch))
    | _ => none
  | .woken =>
    match s.task g with
    | .parked seen => some (s.at_task g (if s.link.mbox.cmd_seq = seen then .awake seen else .fetch))
    | _ => none
  | .retrap =>
    match s.task g with
    | .awake _ =>
      if s.link.listening = true ∧ (s.link.interrupt_pending = true ∨ s.link.trap_notify = true) then
        some ({ s with link := { s.link with listening := false } }.at_task g .leaving)
      else none
    | _ => none
  | .orphaned =>
    match s.task g with
    | .awake _ => some (s.at_task g .detaching)
    | _ => none
  | .called_out =>
    match s.task g with
    | .awake _ => some (s.at_task g .leaving)
    | _ => none
  | .again =>
    match s.task g with
    | .awake seen => some (s.at_task g (.parked seen))
    | _ => none
  | .fetch => if s.task g = .fetch then some (s.at_task g (.serve s.link.mbox.cmd_seq)) else none
  | .serve ans =>
    match s.task g with
    | .serve seen =>
      some ({ s with
        link := (serve_cmd s.link ans).1
        replied := s.mail
        execs := (g, s.mail) :: s.execs }.at_task g (.reply seen (serve_cmd s.link ans).2))
    | _ => none
  | .reply =>
    match s.task g with
    | .reply seen after =>
      some ({ s with
        link := { s.link with mbox := { s.link.mbox with done_seq := s.link.mbox.done_seq + 1 } }
        owed := none }.at_task g (after.tracee seen))
    | _ => none
  | .store =>
    match s.task g with
    | .leaving => some ({ s with link := { s.link with state := .running } }.at_task g .running)
    | .detaching => some ({ s with link := { s.link with state := .running } }.at_task g .untrace)
    | .untrace => some ({ s with link := { s.link with tracer := 0 } }.at_task g .unlink)
    | .unlink => some ({ s with link := { s.link with tracee := 0 } }.at_task g .gone)
    | _ => none
  | .exit =>
    if s.task g = .running then some ({ s with link := { s.link with state := .exited } }.at_task g .gone) else none
  -- `pt_release_silent`, and an exit its tracer reaps through the host
  | .silent => if s.task g = .running then some (s.at_task g .untrace) else none
  | .die => if (s.task g).In then some (s.at_task g .gone) else none

/-- What others do to the slot: an exit is published or collected, a link freed, the tracer comes or goes, a trap is
asked for, an exec'ing thread's link moves, and a free slot is claimed. -/
inductive SlotAct where
  | exit_group
  | free
  | attach (pid tid : Int)
  | release
  | interrupt
  | notify
  | rekey (tid : Int)
  | claim (tid : Int)
  deriving DecidableEq

/-- What becomes of the slot itself: it is left, freed or taken again. -/
def slot_step (s : Mbox ι) : SlotAct → Option (Mbox ι)
  | .exit_group =>
    if 0 < s.link.tracee then some { s with link := { s.link with state := .exited } } else none
  | .free =>
    if 0 < s.link.tracee ∧ (s.link.state = .exited ∨ s.link.tracer ≤ 0 ∨ ¬(s.task s.gen).In) then
      some { s with link := { s.link with tracer := 0, tracee := 0 } }
    else none
  | .attach pid tid =>
    if 0 < s.link.tracee ∧ s.link.tracer = 0 then
      some { s with link := { s.link with tracer := pid, tracer_tid := tid } }
    else none
  | .release => some { s with link := { s.link with tracer := 0 } }
  | .interrupt => some { s with link := { s.link with interrupt_pending := true } }
  | .notify => some { s with link := { s.link with trap_notify := true } }
  | .rekey tid =>
    if 0 < tid ∧ 0 < s.link.tracee ∧ s.task s.gen = .running then
      some { s with link := { s.link with tracee := tid } }
    else none
  | .claim tid =>
    if 0 < tid ∧ s.link.tracee = 0 then
      some { s with
        link := { MboxLink.free with tracee := tid }
        gen := s.gen + 1
        mail := none
        replied := none
        owed := none }
    else none

/-- A step of a tracer or of the tracee. -/
inductive MboxAct (ι : Type) where
  | poster (i : ι) (a : PosterAct)
  | tracee (g : Nat) (a : TraceeAct)
  | slot (a : SlotAct)
  deriving DecidableEq

def mbox_step (s : Mbox ι) : MboxAct ι → Option (Mbox ι)
  | .poster i a => poster_step tr s i a
  | .tracee g a => tracee_step s g a
  | .slot a => slot_step s a

def mbox_run (s : Mbox ι) : List (MboxAct ι) → Option (Mbox ι)
  | [] => some s
  | a :: as => (mbox_step tr s a).bind fun s' => mbox_run s' as

end steps

end arm64emu
