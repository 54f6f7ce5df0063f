import Arm64Emu.Ptrace.Mailbox

namespace arm64emu

open transition

def PTRACE_MAX : Nat := 256

/-- What the claims of a link and the waits read of it. `stop` is the model's own:
how many stops and exits have been published on the slot. -/
structure PtLink where
  tracee : Int
  tracer : Int
  state : PtState
  reported : Bool
  attach_pending : Bool
  stop : Nat
  deriving DecidableEq

def PtLink.free : PtLink := ⟨0, 0, .running, false, false, 0⟩

/-- Who a task is claimed for: the caller of ATTACH or SEIZE, or the parent of the
caller of TRACEME. -/
inductive Claim where
  | attach (tracer : Int)
  | traceme (parent : Int)
  deriving DecidableEq

/-- Where a thread is in a call about links. -/
inductive LinkPc where
  | idle
  -- `pt_claim`, with `pt_find` before it
  | find (c : Claim) (t : Int) (i : Nat)
  | found (c : Claim) (t : Int) (e : Nat)
  | gone (c : Claim) (t : Int) (e : Nat)
  | remake (c : Claim) (t : Int) (e : Nat)
  | take (c : Claim) (t : Int) (again : Bool) (i : Nat)
  | fill (c : Claim) (t : Int) (e : Nat)
  | publish (c : Claim) (t : Int) (e : Nat)
  -- `ptrace_syscall` and `ptrace_traceme`, with the link
  | claimed (c : Claim) (t : Int) (e : Nat)
  | mark (t : Int) (e : Nat)
  -- `pt_sweep`, within a claim
  | sweep (c : Claim) (t : Int) (i : Nat)
  | stale (c : Claim) (t : Int) (i : Nat) (t' : Int)
  -- `ptrace_note_reaped`
  | reap (i : Nat)
  | reaped (i : Nat) (t : Int)
  | untrace (i : Nat) (t : Int)
  | unlink (i : Nat) (t : Int)
  -- `ptrace_collect`
  | collect (keep : Bool) (i : Nat)
  | named (keep : Bool) (i : Nat)
  | ours (keep : Bool) (i : Nat)
  | mine (keep : Bool) (i : Nat) (t : Int)
  | stopped (keep : Bool) (i : Nat) (t : Int)
  | unreported (keep : Bool) (i : Nat) (t : Int)
  | returning (i : Nat) (t : Int) (n : Nat)
  | freeing (i : Nat) (t : Int) (n : Nat)
  | freed (i : Nat) (t : Int) (n : Nat)
  -- `pt_self_detach`, and the exit a task publishes
  | detach (t : Int) (e : Nat)
  | detach_tracer (t : Int) (e : Nat)
  | detach_tracee (t : Int) (e : Nat)
  | exiting (t : Int) (e : Nat)
  deriving DecidableEq

/-- The task a thread deals with. A scan that has only looked at a slot deals with no task of it yet. -/
def LinkPc.tasks : LinkPc → List Int
  | .find _ t _ | .found _ t _ | .gone _ t _ | .remake _ t _ | .take _ t _ _ | .fill _ t _ | .publish _ t _
  | .claimed _ t _ | .mark t _ | .sweep _ t _ | .stale _ t _ _ => [t]
  | .untrace _ t | .unlink _ t => [t]
  | .mine _ _ t | .stopped _ _ t | .unreported _ _ t | .returning _ t _ | .freeing _ t _ | .freed _ t _ => [t]
  | .detach t _ | .detach_tracer t _ | .detach_tracee t _ | .exiting t _ => [t]
  | .idle | .reap _ | .reaped _ _ | .collect _ _ | .named _ _ | .ours _ _ => []

/-- A task handed to a tracer, and whether a tracer had it already. -/
structure Handed where
  task : Int
  tracer : Int
  held : Bool
  deriving DecidableEq

/-- The registry of links, the threads at work on it, the tasks handed to tracers, and the stops and exits returned.
-/
structure Registry (ι : Type) where
  link : Nat → PtLink
  pc : ι → LinkPc
  handed : List Handed
  collected : List (Nat × Nat)

def Registry.init (ι : Type) : Registry ι := ⟨fun _ => .free, fun _ => .idle, [], []⟩

section steps

variable {ι : Type} [DecidableEq ι] (pid : ι → Int)

def Registry.at_pc (s : Registry ι) (x : ι) (q : LinkPc) : Registry ι :=
  { s with pc := Function.update s.pc x q }

def Registry.set (s : Registry ι) (e : Nat) (l : PtLink) : Registry ι :=
  { s with link := Function.update s.link e l }

def Registry.held (s : Registry ι) (t : Int) : Bool :=
  (List.range PTRACE_MAX).any fun e => (s.link e).tracee == t && decide (0 < (s.link e).tracer)

/-- The task goes to a tracer, noted with whether one had it. -/
def Registry.hand (s : Registry ι) (t p : Int) : Registry ι :=
  { s with handed := ⟨t, p, s.held t⟩ :: s.handed }

/-- The slot after `i` in a scan, or what follows the scan. -/
def scan_next (i : Nat) (next after : LinkPc) : LinkPc := if i + 1 < PTRACE_MAX then next else after

/-- What a thread does: it starts a call, or makes the next access of the one it is in, with the host's answer. A task
publishes a stop or runs on, and a tracer lets its tracee go. -/
inductive LinkAct where
  | claim (c : Claim) (t : Int)
  | reap
  | collect (keep : Bool)
  | detach (t : Int) (e : Nat)
  | exit (t : Int) (e : Nat)
  | stop (t : Int) (e : Nat)
  | resume (t : Int) (e : Nat)
  | release (p : Int) (e : Nat)
  | claim_go (host : Bool)
  | release_go (host : Bool)
  | collect_go (host : Bool)
  deriving DecidableEq

/-- The next access of a claim. -/
def claim_go (s : Registry ι) (x : ι) (host : Bool) : LinkPc → Option (Registry ι)
  | .find c t i =>
    some (s.at_pc x (if (s.link i).tracee = t then .found c t i
      else scan_next i (.find c t (i + 1)) (.take c t false 0)))
  | .found c t e => some (s.at_pc x (if (s.link e).attach_pending then .claimed c t e else .gone c t e))
  -- `pt_tracer_gone`: no tracer, or one the host no longer has
  | .gone c t e => some (s.at_pc x (if (s.link e).tracer ≤ 0 ∨ host = true then .remake c t e else .claimed c t e))
  | .remake c t e =>
    if (s.link e).tracee = t then some ((s.set e { s.link e with tracee := -1 }).at_pc x (.fill c t e))
    else some (s.at_pc x (.claimed c t e))
  | .take c t again i =>
    if (s.link i).tracee = 0 then some ((s.set i { s.link i with tracee := -1 }).at_pc x (.fill c t i))
    else some (s.at_pc x (scan_next i (.take c t again (i + 1)) (if again then .idle else .sweep c t 0)))
  | .fill c t e =>
    some ((s.set e { s.link e with tracer := 0, state := .running, reported := false, attach_pending := false }).at_pc
      x (.publish c t e))
  | .publish c t e => some ((s.set e { s.link e with tracee := t }).at_pc x (.claimed c t e))
  | .claimed (.attach p) t e =>
    if (s.link e).tracer = 0 then
      some (((s.hand t p).set e { s.link e with tracer := p }).at_pc x (.mark t e))
    else some (s.at_pc x .idle)
  | .claimed (.traceme p) t e => some (((s.hand t p).set e { s.link e with tracer := p }).at_pc x .idle)
  | .mark _ e => some ((s.set e { s.link e with attach_pending := true }).at_pc x .idle)
  | .sweep c t i =>
    some (s.at_pc x (if 0 < (s.link i).tracee then .stale c t i (s.link i).tracee
      else scan_next i (.sweep c t (i + 1)) (.take c t true 0)))
  | .stale c t i t' =>
    if host = true ∧ (s.link i).tracee = t' then
      some ((s.set i { s.link i with tracee := 0 }).at_pc x (scan_next i (.sweep c t (i + 1)) (.take c t true 0)))
    else some (s.at_pc x (scan_next i (.sweep c t (i + 1)) (.take c t true 0)))
  | _ => none

/-- The next access of a reap, a detach or an exit. -/
def release_go (s : Registry ι) (x : ι) (host : Bool) : LinkPc → Option (Registry ι)
  | .reap i =>
    some (s.at_pc x (if 0 < (s.link i).tracee then .reaped i (s.link i).tracee
      else scan_next i (.reap (i + 1)) .idle))
  | .reaped i t =>
    if host = true ∧ (s.link i).tracee = t then
      some ((s.set i { s.link i with tracee := -1 }).at_pc x (.untrace i t))
    else some (s.at_pc x (scan_next i (.reap (i + 1)) .idle))
  | .untrace i t => some ((s.set i { s.link i with tracer := 0 }).at_pc x (.unlink i t))
  | .unlink i _ => some ((s.set i { s.link i with tracee := 0 }).at_pc x (scan_next i (.reap (i + 1)) .idle))
  | .detach t e => some ((s.set e { s.link e with state := .running }).at_pc x (.detach_tracer t e))
  | .detach_tracer t e => some ((s.set e { s.link e with tracer := 0 }).at_pc x (.detach_tracee t e))
  | .detach_tracee _ e => some ((s.set e { s.link e with tracee := 0 }).at_pc x .idle)
  | .exiting _ e =>
    some ((s.set e { s.link e with state := .exited, stop := (s.link e).stop + 1 }).at_pc x .idle)
  | _ => none

/-- The next access of a wait. -/
def collect_go (s : Registry ι) (x : ι) (host : Bool) : LinkPc → Option (Registry ι)
  | .collect keep i =>
    some (s.at_pc x (if 0 < (s.link i).tracee then .named keep i else scan_next i (.collect keep (i + 1)) .idle))
  | .named keep i =>
    some (s.at_pc x (if (s.link i).tracer = pid x then .ours keep i else scan_next i (.collect keep (i + 1)) .idle))
  -- the task is loaded once more, and `pt_selects` asked about it
  | .ours keep i =>
    some (s.at_pc x (if host = true then .mine keep i (s.link i).tracee
      else scan_next i (.collect keep (i + 1)) .idle))
  | .mine keep i t =>
    some (s.at_pc x (match (s.link i).state with
      | .exited => if host = false then scan_next i (.collect keep (i + 1)) .idle
          else if keep then .idle else .freeing i t (s.link i).stop
      | .stopped => .stopped keep i t
      | .running => scan_next i (.collect keep (i + 1)) .idle))
  | .stopped keep i t =>
    some (s.at_pc x (if (s.link i).reported = true ∨ host = false then scan_next i (.collect keep (i + 1)) .idle
      else .unreported keep i t))
  | .unreported keep i t => some (s.at_pc x (if keep then .idle else .returning i t (s.link i).stop))
  | .returning i _ n =>
    some ({ s.set i { s.link i with reported := true } with collected := (i, n) :: s.collected }.at_pc x .idle)
  | .freeing i t n => some ((s.set i { s.link i with tracer := 0 }).at_pc x (.freed i t n))
  | .freed i _ n =>
    some ({ s.set i { s.link i with tracee := 0 } with collected := (i, n) :: s.collected }.at_pc x .idle)
  | _ => none

/-- One step of a thread. -/
def link_step (s : Registry ι) (x : ι) : LinkAct → Option (Registry ι)
  | .claim c t => if s.pc x = .idle ∧ 0 < t then some (s.at_pc x (.find c t 0)) else none
  | .reap => if s.pc x = .idle then some (s.at_pc x (.reap 0)) else none
  | .collect keep => if s.pc x = .idle then some (s.at_pc x (.collect keep 0)) else none
  | .detach t e =>
    if s.pc x = .idle ∧ 0 < t ∧ (s.link e).tracee = t then some (s.at_pc x (.detach t e)) else none
  | .exit t e =>
    if s.pc x = .idle ∧ 0 < t ∧ (s.link e).tracee = t then some (s.at_pc x (.exiting t e)) else none
  | .stop t e =>
    if 0 < t ∧ (s.link e).tracee = t then
      some (s.set e { s.link e with state := .stopped, reported := false, stop := (s.link e).stop + 1 })
    else none
  | .resume t e =>
    if 0 < t ∧ (s.link e).tracee = t then some (s.set e { s.link e with state := .running }) else none
  | .release p e => if 0 < p ∧ (s.link e).tracer = p then some (s.set e { s.link e with tracer := 0 }) else none
  | .claim_go host => claim_go s x host (s.pc x)
  | .release_go host => release_go s x host (s.pc x)
  | .collect_go host => collect_go pid s x host (s.pc x)

/-- A run, if every step is possible. -/
def link_run (s : Registry ι) : List (ι × LinkAct) → Option (Registry ι)
  | [] => some s
  | (x, a) :: as => (link_step pid s x a).bind fun s' => link_run s' as

end steps

end arm64emu
