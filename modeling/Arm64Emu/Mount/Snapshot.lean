import Mathlib
import Arm64Emu.Lib.SeqLock
import Arm64Emu.Mount.Binds

namespace arm64emu

open Function

open seqlock transition

/-- The words of a slot that `bind_snap` reads between its two looks at the lock. -/
inductive BindCell where
  | guest (j : Nat)
  | host (j : Nat)
  | hroot
  | seq
  deriving DecidableEq

/-- The arguments of a `bind_add`, as C strings, that passed its test for their
length. -/
structure BindArgs where
  guest : List Nat
  host : List Nat
  hroot : Nat
  guest_chars : ∀ c ∈ guest, c ≠ 0
  host_chars : ∀ c ∈ host, c ≠ 0
  guest_fits : guest.length + 1 ≤ PATH_MAX
  host_fits : host.length + 1 ≤ PATH_MAX

def str_stores (f : Nat → BindCell) (s : List Nat) : List (BindCell × Nat) :=
  (List.range (s.length + 1)).map fun j => (f j, s.getD j 0)

/-- The stores of a `bind_add` into its slot, up to the stack position. -/
def fill_stores (a : BindArgs) : List (BindCell × Nat) :=
  str_stores .guest a.guest ++ (str_stores .host a.host ++ [(.hroot, a.hroot)])

/-- Where a writer of the table is. -/
inductive AddPc where
  | idle
  | claimed (a : BindArgs)
  | fill (a : BindArgs) (n : Nat)
  | number (a : BindArgs)
  | store_seq (a : BindArgs) (sq : Nat)
  | close (a : BindArgs) (sq : Nat)
  | publish (a : BindArgs) (sq : Nat)

def AddPc.opened : AddPc → Bool
  | .fill .. | .number .. | .store_seq .. | .close .. => true
  | .idle | .claimed .. | .publish .. => false

/-- What a reader asks for. -/
structure SnapReq where
  pfx : Option (List Nat)
  guest_out : Bool
  host_out : Bool
  hroot_out : Bool
  deriving DecidableEq

structure SnapBody where
  glen : Nat
  guest : Option (List Nat)
  host : Option (List Nat)
  hl : Nat
  seq : Nat
  deriving DecidableEq

inductive SnapRead where
  | retry
  | miss
  | got (g : SnapBody)

/-- A snapshot, as it is being read. -/
structure Snap where
  glen : Nat
  guest : Option (List Nat)
  host : Option (List Nat)
  seq : Nat
  hroot : Option Nat
  deriving DecidableEq

/-- The mount point is a prefix of the path asked for, up to a component's end. -/
def snap_prefix_reads : Option (List Nat) → Nat → LoadProg BindCell Nat Bool
  | none, _ => .done true
  | some pfx, gl => (strncmp .guest pfx gl 0).bind fun same =>
    .done (same && (pfx.getD gl 0 == 0 || pfx.getD gl 0 == '/'.toNat))

def snap_host_reads (host_out : Bool) : LoadProg BindCell Nat (Option (Nat × Option (List Nat))) :=
  if host_out then (strnlen .host PATH_MAX 0).bind fun hl =>
    if PATH_MAX ≤ hl then .done none else (memcpy .host (hl + 1) 0).bind fun h => .done (some (hl, some h))
  else .done (some (0, none))

def snap_guest_reads (guest_out : Bool) (gl : Nat) : LoadProg BindCell Nat (Option (List Nat)) :=
  if guest_out then (memcpy .guest (gl + 1) 0).bind fun g => .done (some g) else .done none

def snap_reads (req : SnapReq) : LoadProg BindCell Nat SnapRead :=
  (strnlen .guest PATH_MAX 0).bind fun gl =>
    if PATH_MAX ≤ gl then .done .retry
    else (snap_prefix_reads req.pfx gl).bind fun same =>
      if same then (snap_host_reads req.host_out).bind fun host =>
        match host with
        | none => .done .retry
        | some (hl, h) => (snap_guest_reads req.guest_out gl).bind fun g =>
          .load .seq fun sq => .done (.got ⟨gl, g, h, hl, sq⟩)
      else .done .miss

/-- Where a `bind_snap` stands, at its try number `n`. `c` is how often the lock had
been bumped when it first looked at it. -/
inductive SnapPc where
  | idle
  | active (req : SnapReq) (n : Nat)
  | lock (req : SnapReq) (n : Nat)
  | reading (req : SnapReq) (n c : Nat) (rest : LoadProg BindCell Nat SnapRead)
  | again (req : SnapReq) (n c : Nat) (g : SnapBody)
  | live (req : SnapReq) (c : Nat) (g : SnapBody)
  | hroot (req : SnapReq) (c : Nat) (g : SnapBody)
  | out (req : SnapReq) (r : Option Snap)

section steps

/-- A slot of the table, with a reader and any number of adders. `lock` counts the
bumps of the lock, a 32-bit word. -/
structure BindSlot (ι : Type) where
  active : Int
  lock : Locked BindCell Nat
  g_bindseq : Nat
  adder : ι → AddPc
  snap : SnapPc
  published : List (BindArgs × Nat)

def BindSlot.init (ι : Type) : BindSlot ι := ⟨0, ⟨0, fun _ => 0⟩, 0, fun _ => .idle, .idle, []⟩

variable {ι : Type} [DecidableEq ι]

/-- A step of a writer or a reader. -/
inductive BindAct (ι : Type) where
  | add (x : ι) (a : BindArgs)
  | go (x : ι)
  | remove
  | other
  | snap (req : SnapReq)
  | read

/-- The writer's next store. -/
def add_go (s : BindSlot ι) (x : ι) : AddPc → BindSlot ι
  | .idle => s
  | .claimed a =>
    { s with lock := ⟨s.lock.bumps + 1, s.lock.cells⟩, adder := update s.adder x (.fill a 0) }
  | .fill a n =>
    match (fill_stores a)[n]? with
    | some (c, v) =>
      { s with
        lock := ⟨s.lock.bumps, update s.lock.cells c v⟩
        adder := update s.adder x (.fill a (n + 1)) }
    | none => { s with adder := update s.adder x (.number a) }
  | .number a =>
    let sq := (s.g_bindseq + 1) % 2 ^ 32
    { s with g_bindseq := sq, adder := update s.adder x (.store_seq a sq) }
  | .store_seq a sq =>
    { s with
      lock := ⟨s.lock.bumps, update s.lock.cells .seq sq⟩
      adder := update s.adder x (.close a sq) }
  | .close a sq =>
    { s with lock := ⟨s.lock.bumps + 1, s.lock.cells⟩, adder := update s.adder x (.publish a sq) }
  | .publish a sq =>
    { s with active := 1, adder := update s.adder x .idle, published := (a, sq) :: s.published }

def snap_retry (req : SnapReq) (n : Nat) : SnapPc := if n + 1 < 64 then .active req (n + 1) else .out req none

def snap_took (req : SnapReq) (n c : Nat) : SnapRead → SnapPc
  | .retry => snap_retry req n
  | .miss => .out req none
  | .got g => .again req n c g

def Snap.of (g : SnapBody) (hroot : Option Nat) : Snap := ⟨g.glen, g.guest, g.host, g.seq, hroot⟩

/-- The reader's next load. -/
def snap_go (s : BindSlot ι) : SnapPc → SnapPc
  | .idle => .idle
  | .active req n => if s.active ≠ 1 then .out req none else .lock req n
  | .lock req n =>
    if s.lock.bumps % 2 = 1 then snap_retry req n else .reading req n s.lock.bumps (snap_reads req)
  | .reading req n c (.load x k) => .reading req n c (k (s.lock.cells x))
  | .reading req n c (.done r) => snap_took req n c r
  | .again req n c g => if s.lock.bumps % 2 ^ 32 ≠ c % 2 ^ 32 then snap_retry req n else .live req c g
  | .live req c g =>
    if s.active ≠ 1 then .out req none
    else if req.hroot_out then .hroot req c g else .out req (some (.of g none))
  | .hroot req _ g => .out req (some (.of g (some (min (s.lock.cells .hroot) g.hl))))
  | .out req r => .out req r

/-- A step of an adder, of a `bind_remove` of this slot, of an adder of another, or of
the reader. -/
def slot_act (s : BindSlot ι) : BindAct ι → BindSlot ι
  | .add x a =>
    match s.adder x with
    | .idle =>
      -- the compare-and-swap that claims the slot
      if s.active = 0 then { s with active := -1, adder := update s.adder x (.claimed a) } else s
    | _ => s
  | .go x => add_go s x (s.adder x)
  | .remove => if s.active = 1 then { s with active := 0 } else s
  | .other => { s with g_bindseq := (s.g_bindseq + 1) % 2 ^ 32 }
  | .snap req =>
    match s.snap with
    | .idle | .out .. => { s with snap := .active req 0 }
    | _ => s
  | .read => { s with snap := snap_go s s.snap }

def SlotStep (s : BindSlot ι) (act : BindAct ι) (s' : BindSlot ι) : Prop := s' = slot_act s act

/-- The lock has not come round to where it was when it is looked at again, and the
slot is not being refilled when the trusted length is read. -/
def SnapPc.Timely (bumps : Nat) : SnapPc → Prop
  | .again _ _ c _ => bumps < c + 2 ^ 32
  | .hroot _ c _ => bumps = c
  | _ => True

def TimelyStep (s : BindSlot ι) (act : BindAct ι) (s' : BindSlot ι) : Prop :=
  SlotStep s act s' ∧ (act = .read → s.snap.Timely s.lock.bumps)

end steps

end arm64emu
