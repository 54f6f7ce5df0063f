import Mathlib
import Arm64Emu.Lib.Steps

namespace arm64emu

open transition

def PROCTAB_CARRY : Nat := 64
def CARRY_STALE_MS : Int := 2000
def CARRY_IDLE_MS : Int := 100

/-- The two low bits of a slot's word. -/
inductive CarrySt where
  | free
  | writing
  | posted
  | taking
  deriving DecidableEq

/-- A slot's word: the nonce above the state. -/
structure CarryWord where
  nonce : Nat
  st : CarrySt
  deriving DecidableEq

/-- The fields of a carried siginfo, in the order a post stores them. -/
inductive CarryField where
  | value
  | posted_ms
  | tid
  | hsig
  | signo
  | code
  | err
  | pid
  | uid
  | jc
  deriving DecidableEq

def carry_fields : List CarryField := [.value, .posted_ms, .tid, .hsig, .signo, .code, .err, .pid, .uid, .jc]

/-- A slot of an inbox. `post` is the model's own: which post is in it, while it is
posted or being taken. -/
structure CarrySlot where
  word : CarryWord
  field : CarryField → Int
  idle_ms : Int
  idle_word : CarryWord
  post : Option Nat

/-- A signal as it was posted. -/
structure CarryPost where
  slot : Nat
  nonce : Nat
  field : CarryField → Int

def carry_hash (ctr pid now : Nat) : Nat :=
  let x := ctr ^^^ (pid * 0x85ebca6b % 2 ^ 32) ^^^ (now % 2 ^ 32)
  (x ^^^ (x >>> 15)) &&& 0x3ffff

section threads

/-- What a sender posts, at what time and from which process. `field .posted_ms` is the
time too. -/
structure CarryIn where
  field : CarryField → Int
  now : Nat
  pid : Nat
  now_eq : field .posted_ms = now

/-- Where a thread stands in `proctab_carry_post` or `proctab_carry_take`. -/
inductive CarryPc where
  | idle
  -- the first pass over the slots, for a free one
  | scan (c : CarryIn) (i : Nat)
  | claim (c : CarryIn) (i : Nat) (w : CarryWord)
  -- the second, for a stale one
  | stale (c : CarryIn) (i : Nat)
  | age (c : CarryIn) (i : Nat) (w : CarryWord)
  | pending (c : CarryIn) (i : Nat) (w : CarryWord)
  | idle_word (c : CarryIn) (i : Nat) (w : CarryWord)
  | mark_ms (c : CarryIn) (i : Nat) (w : CarryWord)
  | mark_word (c : CarryIn) (i : Nat) (w : CarryWord)
  | idle_ms (c : CarryIn) (i : Nat) (w : CarryWord)
  | reclaim (c : CarryIn) (i : Nat) (w : CarryWord)
  -- the slot is the sender's
  | draw (c : CarryIn) (i old : Nat)
  | store (c : CarryIn) (i n j : Nat)
  | unmark (c : CarryIn) (i n : Nat)
  | publish (c : CarryIn) (i n : Nat)
  -- a take
  | word (i n : Nat) (hsig : Int) (jc : Option Bool)
  | hsig (i n : Nat) (hsig : Int) (jc : Option Bool)
  | jc (i n : Nat) (jc : Option Bool)
  | take (i n : Nat)
  | copy (i n p : Nat) (out : List Int)
  | release (i n p : Nat) (out : List Int)

inductive CarryEvent where
  | took (p : Nat)
  | cancelled (p : Nat)
  deriving DecidableEq

def CarryEvent.post : CarryEvent → Nat
  | .took p | .cancelled p => p

/-- An inbox, the threads at work on it, and what was done: the posts, the events with
the latest first, and what the takes returned. -/
structure Inbox (ι : Type) where
  slot : Nat → CarrySlot
  g_carry_ctr : Nat
  pc : ι → CarryPc
  posts : List CarryPost
  events : List CarryEvent
  taken : List (Nat × Nat × List Int)

def Inbox.empty (ι : Type) : Inbox ι :=
  ⟨fun _ => ⟨⟨0, .free⟩, fun _ => 0, 0, ⟨0, .free⟩, none⟩, 0, fun _ => .idle, [], [], []⟩

variable {ι : Type} [DecidableEq ι]

def Inbox.at_pc (s : Inbox ι) (x : ι) (q : CarryPc) : Inbox ι := { s with pc := Function.update s.pc x q }

def Inbox.set (s : Inbox ι) (i : Nat) (c : CarrySlot) : Inbox ι := { s with slot := Function.update s.slot i c }

/-- The slot after `i` in a pass, or what follows the pass. -/
def carry_next (i : Nat) (next after : CarryPc) : CarryPc := if i + 1 < PROCTAB_CARRY then next else after

/-- The next access of a post that has no slot yet. `host` is whether the host still
has its signal pending. -/
def post_look (s : Inbox ι) (x : ι) (host : Bool) : CarryPc → Option (Inbox ι)
  | .scan c i =>
    some (s.at_pc x (if (s.slot i).word.st = .free then .claim c i (s.slot i).word
      else carry_next i (.scan c (i + 1)) (.stale c 0)))
  | .stale c i =>
    some (s.at_pc x (if (s.slot i).word.st = .posted then .age c i (s.slot i).word
      else carry_next i (.stale c (i + 1)) .idle))
  | .age c i w =>
    some (s.at_pc x (if (c.now : Int) - (s.slot i).field .posted_ms < CARRY_STALE_MS then
      carry_next i (.stale c (i + 1)) .idle else .pending c i w))
  | .pending c i w => some (s.at_pc x (if host then carry_next i (.stale c (i + 1)) .idle else .idle_word c i w))
  | .idle_word c i w => some (s.at_pc x (if (s.slot i).idle_word = w then .idle_ms c i w else .mark_ms c i w))
  | .mark_ms c i w => some ((s.set i { s.slot i with idle_ms := c.now }).at_pc x (.mark_word c i w))
  | .mark_word c i w =>
    some ((s.set i { s.slot i with idle_word := w }).at_pc x (carry_next i (.stale c (i + 1)) .idle))
  | .idle_ms c i w =>
    some (s.at_pc x (if (c.now : Int) - (s.slot i).idle_ms < CARRY_IDLE_MS then
      carry_next i (.stale c (i + 1)) .idle else .reclaim c i w))
  | _ => none

/-- The sender's next access. -/
def post_go (s : Inbox ι) (x : ι) : CarryPc → Option (Inbox ι)
  | .claim c i w =>
    if (s.slot i).word = w then
      some ((s.set i { s.slot i with word := ⟨w.nonce, .writing⟩ }).at_pc x (.draw c i w.nonce))
    else some (s.at_pc x (carry_next i (.scan c (i + 1)) (.stale c 0)))
  | .reclaim c i w =>
    if (s.slot i).word = w then
      some ((s.set i { s.slot i with word := ⟨w.nonce, .writing⟩, post := none }).at_pc x (.draw c i w.nonce))
    else some (s.at_pc x (carry_next i (.stale c (i + 1)) .idle))
  | .draw c i old =>
    let ctr := (s.g_carry_ctr + 0x9e3779b1) % 2 ^ 32
    let n := carry_hash ctr c.pid c.now
    some ({ s with g_carry_ctr := ctr }.at_pc x (if n = 0 ∨ n = old then .draw c i old else .store c i n 0))
  | .store c i n j =>
    match carry_fields[j]? with
    | some f =>
      some ((s.set i { s.slot i with field := Function.update (s.slot i).field f (c.field f) }).at_pc x
        (.store c i n (j + 1)))
    | none => some (s.at_pc x (.unmark c i n))
  | .unmark c i n => some ((s.set i { s.slot i with idle_word := ⟨0, .free⟩ }).at_pc x (.publish c i n))
  | .publish c i n =>
    some ({ s.set i { s.slot i with word := ⟨n, .posted⟩, post := some s.posts.length } with
      posts := s.posts ++ [({ slot := i, nonce := n, field := c.field } : CarryPost)] }.at_pc x .idle)
  | _ => none

/-- The owner's next access. -/
def take_go (s : Inbox ι) (x : ι) : CarryPc → Option (Inbox ι)
  | .word i n h jc => some (s.at_pc x
    (if (s.slot i).word = { nonce := n, st := .posted } then .hsig i n h jc else .idle))
  | .hsig i n h jc => some (s.at_pc x (if (s.slot i).field .hsig = h then .jc i n jc else .idle))
  | .jc i n jc =>
    some (s.at_pc x (if jc.all fun b => decide ((s.slot i).field .jc ≠ 0) == b then .take i n else .idle))
  | .take i n =>
    if (s.slot i).word = { nonce := n, st := .posted } then
      let p := ((s.slot i).post).getD 0
      some ({ s.set i { s.slot i with word := ⟨n, .taking⟩ } with events := .took p :: s.events }.at_pc x
        (.copy i n p []))
    else some (s.at_pc x .idle)
  | .copy i n p out =>
    match carry_fields[out.length]? with
    | some f => some (s.at_pc x (.copy i n p (out ++ [(s.slot i).field f])))
    | none => some (s.at_pc x (.release i n p out))
  | .release i n _ out =>
    some ({ s.set i { s.slot i with word := ⟨n, .free⟩, post := none } with taken := (i, n, out) :: s.taken }.at_pc x
      .idle)
  | _ => none

/-- What a thread does: it starts a post or a take, cancels a post of its own, or makes
the next access of what it is at. -/
inductive CarryAct where
  | post (c : CarryIn)
  | cancel (p : Nat)
  | take (i n : Nat) (hsig : Int) (jc : Option Bool)
  | go (host : Bool)

/-- The compare-and-swap of a cancel, by the slot and nonce the post was given. -/
def cancel_step (s : Inbox ι) (p : Nat) : Option (Inbox ι) :=
  match s.posts[p]? with
  | none => none
  | some b =>
    if (s.slot b.slot).word = { nonce := b.nonce, st := .posted } then
      some { s.set b.slot { s.slot b.slot with word := ⟨b.nonce, .free⟩, post := none } with
        events := .cancelled p :: s.events }
    else some s

/-- One step of a process. -/
def carry_step (s : Inbox ι) (x : ι) : CarryAct → Option (Inbox ι)
  | .post c => match s.pc x with
    | .idle => some (s.at_pc x (.scan c 0))
    | _ => none
  | .cancel p => match s.pc x with
    | .idle => cancel_step s p
    | _ => none
  | .take i n h jc => match s.pc x with
    | .idle => if i < PROCTAB_CARRY then some (s.at_pc x (.word i n h jc)) else none
    | _ => none
  | .go host =>
    match post_look s x host (s.pc x) with
    | some s' => some s'
    | none => match post_go s x (s.pc x) with
      | some s' => some s'
      | none => take_go s x (s.pc x)

def CarryStep (s : Inbox ι) (a : ι × CarryAct) (s' : Inbox ι) : Prop := carry_step s a.1 a.2 = some s'

end threads

end arm64emu
