import Mathlib.Logic.Function.Basic
import Arm64Emu.Jit.Blocks

namespace arm64emu

open transition

/-- A translation: the page its words come from, and when the first of them was
fetched. -/
structure Trans where
  page : Nat
  fetched : Nat
deriving DecidableEq

/-- Where a thread stands: in the run loop, in a translation (`fetched`, `inserted`), in the service of an interrupt,
or in `jit_invalidate_range`, with the pages it has already looked at in `tested`. -/
inductive Phase (ι : Type) where
  | idle
  | service
  | fetched (b : Trans)
  | inserted (b : Trans)
  | inval (start : Nat) (todo tested : List Nat) (marked : Bool)
  | bump (start : Nat) (tested : List Nat)
  | bumped (start : Nat) (tested : List Nat)
  | notify (start : Nat) (tested : List Nat) (todo : List ι)

/-- One thread's `JitEnv`. `passed` is not in the code: for each page, the
start of the latest invalidation that had completed at the thread's last
safepoint. -/
structure JThread (ι : Type) where
  active : Bool := false
  phase : Phase ι := .idle
  interrupt : Bool := false
  inval_gen_seen : Nat := 0
  table : List Trans := []
  passed : Nat → Nat := fun _ => 0

/-- The shared state and every thread. The clock `now` and, for each page, the start of the latest `completed`
invalidation are not in the code. -/
structure Coherence (ι : Type) where
  th : ι → JThread ι
  registry : List ι := []
  g_jit_inval_gen : Nat := 1
  codemap : Nat → Bool := fun _ => false
  completed : Nat → Nat := fun _ => 0
  now : Nat := 1

def Coherence.init (ι : Type) : Coherence ι where
  th _ := {}

variable {ι : Type} [DecidableEq ι]

def Coherence.set (s : Coherence ι) (t : ι) (x : JThread ι) : Coherence ι :=
  { s with th := Function.update s.th t x, now := s.now + 1 }

/-- An invalidation of `pages` that began at `start` has completed. -/
def Coherence.complete (s : Coherence ι) (start : Nat) (pages : List Nat) : Coherence ι :=
  { s with completed := fun p => if p ∈ pages then max start (s.completed p) else s.completed p }

def Coherence.end_loop (s : Coherence ι) (t : ι) (start : Nat) (tested : List Nat) (marked : Bool) : Coherence ι :=
  if marked then s.set t { s.th t with phase := .bump start tested }
  else (s.complete start tested).set t { s.th t with phase := .idle }

/-- What a thread does: writes code, asks for an invalidation, or enters and leaves blocks. -/
inductive CohAct (ι : Type) where
  | enter (t : ι)
  | exit (t : ι)
  | safepoint (t : ι)
  | service (t : ι)
  | fetch (t : ι) (page : Nat)
  | abandon (t : ι)
  | insert (t : ι)
  | mark (t : ι)
  | flush (t : ι)
  | run (t : ι) (b : Trans)
  | inval (t : ι) (pages : List Nat)
  | inval_page (t : ι)
  | inval_end (t : ι)
  | inval_bump (t : ι)
  | notify_begin (t : ι)
  | notify (t : ι)
  | notify_end (t : ι)
  | kick (t : ι)

/-- The steps of the threads, one access to shared state at a time. -/
inductive CohStep : Coherence ι → CohAct ι → Coherence ι → Prop where
  /-- `jit_env_init`: the generation is read some time before `registry_add`. -/
  | enter {s : Coherence ι} {t : ι} {gen : Nat} (hoff : (s.th t).active = false) (hidle : (s.th t).phase = .idle)
      (hgen : gen ≤ s.g_jit_inval_gen) :
      CohStep s (.enter t) {
        s.set t { s.th t with active := true, interrupt := false, inval_gen_seen := gen, table := [] }
        with registry := t :: s.registry }
  /-- `jit_thread_exit`. -/
  | exit {s : Coherence ι} {t : ι} (hidle : (s.th t).phase = .idle) :
      CohStep s (.exit t) { s.set t { s.th t with active := false, table := [] }
        with registry := s.registry.filter (· ≠ t) }
  /-- The check of the flag at the top of `jit_run`'s loop and at every block
  entry, with nothing raised. -/
  | safepoint {s : Coherence ι} {t : ι} (hon : (s.th t).active = true) (hidle : (s.th t).phase = .idle)
      (hclear : (s.th t).interrupt = false) :
      CohStep s (.safepoint t) (s.set t { s.th t with passed := s.completed })
  /-- The same check with the flag raised: `jit_service_interrupt` clears it. -/
  | interrupted {s : Coherence ι} {t : ι} (hon : (s.th t).active = true) (hidle : (s.th t).phase = .idle)
      (hset : (s.th t).interrupt = true) :
      CohStep s (.safepoint t) (s.set t { s.th t with interrupt := false, phase := .service })
  /-- `jit_service_interrupt` loads the generation, and starts over when it has
  moved. -/
  | service {s : Coherence ι} {t : ι} (hphase : (s.th t).phase = .service) :
      CohStep s (.service t) (s.set t { s.th t with
        phase := .idle
        inval_gen_seen := s.g_jit_inval_gen
        table := if s.g_jit_inval_gen ≠ (s.th t).inval_gen_seen then [] else (s.th t).table
        passed := s.completed })
  | fetch {s : Coherence ι} {t : ι} {page : Nat} (hon : (s.th t).active = true) (hidle : (s.th t).phase = .idle) :
      CohStep s (.fetch t page) (s.set t { s.th t with phase := .fetched ⟨page, s.now⟩ })
  /-- The entry fetch faults or the emitter gives up. -/
  | abandon {s : Coherence ι} {t : ι} {b : Trans} (hphase : (s.th t).phase = .fetched b) :
      CohStep s (.abandon t) (s.set t { s.th t with phase := .idle })
  | insert {s : Coherence ι} {t : ι} {b : Trans} (hphase : (s.th t).phase = .fetched b) :
      CohStep s (.insert t) (s.set t { s.th t with phase := .inserted b, table := b :: (s.th t).table })
  /-- `codemap_mark`. -/
  | mark {s : Coherence ι} {t : ι} {b : Trans} (hphase : (s.th t).phase = .inserted b) :
      CohStep s (.mark t) { s.set t { s.th t with phase := .idle } with
        codemap := Function.update s.codemap b.page true }
  /-- `codemap_mark` when there is no memory for the chunk of the map. -/
  | mark_failed {s : Coherence ι} {t : ι} {b : Trans} (hphase : (s.th t).phase = .inserted b) :
      CohStep s (.mark t) (s.set t { s.th t with phase := .idle })
  /-- `jit_flush_all` for want of room, or for a new FP mode. -/
  | flush {s : Coherence ι} {t : ι} (hidle : (s.th t).phase = .idle) :
      CohStep s (.flush t) (s.set t { s.th t with table := [] })
  /-- A translation of the table starts executing. -/
  | run {s : Coherence ι} {t : ι} {b : Trans} (hidle : (s.th t).phase = .idle) (hb : b ∈ (s.th t).table) :
      CohStep s (.run t b) (s.set t (s.th t))
  /-- `jit_invalidate_range` over pages whose bytes or mapping have changed. -/
  | inval {s : Coherence ι} {t : ι} {pages : List Nat} (hidle : (s.th t).phase = .idle)
      (hfew : pages.length ≤ JIT_PAGE_TBL) :
      CohStep s (.inval t pages) (s.set t { s.th t with phase := .inval s.now pages [] false })
  /-- The same over more pages than it walks: its own blocks go in one sweep. -/
  | inval_many {s : Coherence ι} {t : ι} {pages : List Nat} (hidle : (s.th t).phase = .idle)
      (hmany : JIT_PAGE_TBL < pages.length) :
      CohStep s (.inval t pages) (s.set t { s.th t with
        phase := .bump s.now pages
        table := (s.th t).table.filter fun b => b.page ∉ pages })
  /-- One turn of the page loop: `codemap_test`, and the page's blocks go if
  the page is marked. -/
  | inval_page {s : Coherence ι} {t : ι} {start page : Nat} {todo tested : List Nat} {marked : Bool}
      (hphase : (s.th t).phase = .inval start (page :: todo) tested marked) :
      CohStep s (.inval_page t) (s.set t { s.th t with
        phase := .inval start todo (page :: tested) (marked || s.codemap page)
        table := if s.codemap page then (s.th t).table.filter fun b => b.page ≠ page else (s.th t).table })
  | inval_end {s : Coherence ι} {t : ι} {start : Nat} {tested : List Nat} {marked : Bool}
      (hphase : (s.th t).phase = .inval start [] tested marked) :
      CohStep s (.inval_end t) (s.end_loop t start tested marked)
  /-- The generation moves; the thread's own view follows if nothing else has
  moved it in between. -/
  | inval_bump {s : Coherence ι} {t : ι} {start : Nat} {tested : List Nat}
      (hphase : (s.th t).phase = .bump start tested) :
      CohStep s (.inval_bump t) { s.set t { s.th t with
        phase := .bumped start tested
        inval_gen_seen := if (s.th t).inval_gen_seen = s.g_jit_inval_gen then s.g_jit_inval_gen + 1
          else (s.th t).inval_gen_seen } with g_jit_inval_gen := s.g_jit_inval_gen + 1 }
  | notify_begin {s : Coherence ι} {t : ι} {start : Nat} {tested : List Nat}
      (hphase : (s.th t).phase = .bumped start tested) :
      CohStep s (.notify_begin t) (s.set t { s.th t with phase := .notify start tested s.registry })
  /-- One turn of the loop of `jit_notify_mapping_change`. -/
  | notify {s : Coherence ι} {t u : ι} {start : Nat} {tested : List Nat} {todo : List ι}
      (hphase : (s.th t).phase = .notify start tested (u :: todo)) :
      CohStep s (.notify t) ((s.set u { s.th u with interrupt := true }).set t
        { (Function.update s.th u { s.th u with interrupt := true }) t with phase := .notify start tested todo })
  | notify_end {s : Coherence ι} {t : ι} {start : Nat} {tested : List Nat}
      (hphase : (s.th t).phase = .notify start tested []) :
      CohStep s (.notify_end t) ((s.complete start tested).set t { s.th t with phase := .idle })
  /-- Any other reason to raise a thread's flag: a signal, a mapping change. -/
  | kick {s : Coherence ι} {t : ι} :
      CohStep s (.kick t) (s.set t { s.th t with interrupt := true })

/-- A translation the thread has, or is about to have, in its table. -/
def JThread.Holds (x : JThread ι) (b : Trans) : Prop := b ∈ x.table ∨ x.phase = .fetched b

/-- An invalidation that finds its page unmarked finds no translation of it,
finished or under way, in any thread. -/
def Marked (s : Coherence ι) (a : CohAct ι) : Prop :=
  ∀ t start page todo tested marked, a = .inval_page t →
    (s.th t).phase = .inval start (page :: todo) tested marked → s.codemap page = false →
    ∀ u b, (s.th u).Holds b → b.page ≠ page

def MarkedStep (s : Coherence ι) (a : CohAct ι) (s' : Coherence ι) : Prop := CohStep s a s' ∧ Marked s a

end arm64emu
