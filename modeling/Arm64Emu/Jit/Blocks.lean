import Mathlib
import Arm64Emu.Lib.Steps

namespace arm64emu

open Function

open transition

/-- One translated block. `site` is what the patch site of an exit holds: the entry point of the block it jumps to
while `patched`. The edge pool's list at `in_head` is `in_edges`. -/
structure JBlock where
  pc : Nat
  code : Nat
  exit_pc : Fin 2 → Nat
  site : Fin 2 → Option Nat := fun _ => none
  in_edges : List (Nat × Fin 2) := []

def JBlock.patched (b : JBlock) (slot : Fin 2) : Bool := (b.site slot).isSome

/-- A line of a thread's own cache of blocks. -/
structure JCEnt where
  pc : Nat := 0
  code : Nat := 0

/-- The block tables of one thread's `JitEnv`. A hash bucket and a page bucket
hold the indices their chains link, in order. -/
structure JitTable where
  hash : Nat → List Nat
  pages : Nat → List Nat
  arena : Nat → JBlock
  nblocks : Nat
  nedges : Nat
  jcache : Nat → JCEnt
  ptr : Nat

def JIT_HASH_SIZE : Nat := 2 ^ 14
def JIT_PAGE_TBL : Nat := 2 ^ 12
def JIT_JC_SIZE : Nat := 2 ^ 12
def JIT_MAX_BLOCKS : Nat := 65536

def hash_pc (pc : Nat) : Nat := pc / 4 % JIT_HASH_SIZE
def page_slot (pc : Nat) : Nat := pc / 4096 % JIT_PAGE_TBL
def jcache_slot (pc : Nat) : Nat := pc / 4 % JIT_JC_SIZE

def jit_lookup (env : JitTable) (pc : Nat) : Option Nat :=
  (env.hash (hash_pc pc)).find? fun i => (env.arena i).pc = pc

/-- The inline probe of an indirect branch: the code it jumps to on a hit. -/
def jcache_probe (env : JitTable) (target : Nat) : Option Nat :=
  let ent := env.jcache (jcache_slot target)
  if ent.pc = target then some ent.code else none

def set_site (arena : Nat → JBlock) (i : Nat) (slot : Fin 2) (dest : Option Nat) : Nat → JBlock :=
  update arena i { arena i with site := update (arena i).site slot dest }

def set_edges (arena : Nat → JBlock) (i : Nat) (edges : List (Nat × Fin 2)) : Nat → JBlock :=
  update arena i { arena i with in_edges := edges }

def unpatch_edge (arena : Nat → JBlock) (ed : Nat × Fin 2) : Nat → JBlock :=
  if (arena ed.1).patched ed.2 then set_site arena ed.1 ed.2 none else arena

/-- Takes a block out of its hash chain and undoes the branches into it. -/
def jit_unlink_block (env : JitTable) (b : Nat) : JitTable :=
  let k := hash_pc (env.arena b).pc
  let arena := (env.arena b).in_edges.foldl unpatch_edge env.arena
  { env with hash := update env.hash k ((env.hash k).erase b), arena := set_edges arena b [] }

/-- A block leaves its page list and the table, as the two walks do it. -/
def jit_drop_block (env : JitTable) (b : Nat) : JitTable :=
  let k := page_slot (env.arena b).pc
  jit_unlink_block { env with pages := update env.pages k ((env.pages k).erase b) } b

/-- Empties the lines of a range of pcs. -/
def jit_jcache_purge (env : JitTable) (lo hi : Nat) : JitTable :=
  { env with jcache := fun k =>
      let ent := env.jcache k
      if lo ≤ ent.pc ∧ ent.pc < hi then { ent with pc := 0 } else ent }

/-- The common part of the two drops: the blocks found go, and the jump cache
is purged of the range if there were any. -/
def jit_drop_blocks (env : JitTable) (blocks : List Nat) (lo hi : Nat) : JitTable :=
  let env := blocks.foldl jit_drop_block env
  if blocks.isEmpty then env else jit_jcache_purge env lo hi

/-- Drops every block of a page. -/
def jit_drop_page (env : JitTable) (page : Nat) : JitTable :=
  let blocks := (env.pages (page_slot page)).filter fun i => (env.arena i).pc / 4096 * 4096 = page
  jit_drop_blocks env blocks page (page + 4096)

def jit_drop_range (env : JitTable) (first npages : Nat) : JitTable :=
  let last := first + npages * 4096
  let blocks := (List.range env.nblocks).filter fun i => first ≤ (env.arena i).pc ∧ (env.arena i).pc < last
  jit_drop_blocks env blocks first last

/-- Drops every block. -/
def jit_flush_all (env : JitTable) (blocks_start : Nat) : JitTable :=
  { env with hash := fun _ => [], pages := fun _ => [], jcache := fun _ => {}, nblocks := 0, nedges := 0
             ptr := blocks_start }

/-- The insertion of an emitted block of `len` bytes in `jit_translate`. -/
def jit_insert (env : JitTable) (pc len : Nat) (exit_pc : Fin 2 → Nat) : JitTable :=
  let b := env.nblocks
  { env with
    arena := update env.arena b { pc := pc, code := env.ptr, exit_pc := exit_pc }
    nblocks := b + 1
    hash := update env.hash (hash_pc pc) (b :: env.hash (hash_pc pc))
    pages := update env.pages (page_slot pc) (b :: env.pages (page_slot pc))
    ptr := (env.ptr + len + 15) / 16 * 16 }

/-- `jit_translate`: `room` says whether the code cache has room for a block,
`emit` what the emitter made of it, if it succeeded. -/
def jit_translate (env : JitTable) (blocks_start pc : Nat) (room : Bool)
    (emit : Option (Nat × (Fin 2 → Nat))) : JitTable :=
  let env := if JIT_MAX_BLOCKS ≤ env.nblocks ∨ 2 * JIT_MAX_BLOCKS < env.nedges + 2 ∨ room = false then
    jit_flush_all env blocks_start else env
  match emit with
  | some (len, exit_pc) => jit_insert env pc len exit_pc
  | none => env

/-- The chaining of `jit_run`: the exit `slot` of `prev` brought control to the
block `b`. -/
def jit_chain (env : JitTable) (prev : Nat) (slot : Fin 2) (b : Nat) : JitTable :=
  let p := env.arena prev
  if p.exit_pc slot = (env.arena b).pc ∧ p.patched slot = false ∧ jit_lookup env p.pc = some prev ∧
      env.nedges < 2 * JIT_MAX_BLOCKS then
    let arena := set_site env.arena prev slot (some (env.arena b).code)
    { env with arena := set_edges arena b ((prev, slot) :: (arena b).in_edges), nedges := env.nedges + 1 }
  else env

def jit_jcache_fill (env : JitTable) (b : Nat) : JitTable :=
  let blk := env.arena b
  { env with jcache := update env.jcache (jcache_slot blk.pc) ⟨blk.pc, blk.code⟩ }

/-- What is done to the table of blocks. -/
inductive JitOp where
  | translate (pc : Nat) (room : Bool) (emit : Option (Nat × (Fin 2 → Nat)))
  | chain (prev : Nat) (slot : Fin 2) (b : Nat)
  | jcache_fill (b : Nat)
  | drop_page (page : Nat)
  | drop_range (first npages : Nat)
  | flush

/-- A step with the guards of `jit_run`: it translates only what the lookup misses, and chains from an exit of the
arena to a block it has just looked up or translated, which also fills the jump cache. -/
inductive JitStep (blocks_start : Nat) : JitTable → JitOp → JitTable → Prop where
  | translate {env : JitTable} {pc : Nat} {room : Bool} {emit : Option (Nat × (Fin 2 → Nat))}
      (hmiss : jit_lookup env pc = none) (hlen : ∀ e, emit = some e → 0 < e.1) :
      JitStep blocks_start env (.translate pc room emit) (jit_translate env blocks_start pc room emit)
  | chain {env : JitTable} {prev b : Nat} {slot : Fin 2} (hprev : prev < env.nblocks)
      (hb : jit_lookup env (env.arena b).pc = some b) :
      JitStep blocks_start env (.chain prev slot b) (jit_chain env prev slot b)
  | jcache_fill {env : JitTable} {b : Nat} (hb : jit_lookup env (env.arena b).pc = some b) :
      JitStep blocks_start env (.jcache_fill b) (jit_jcache_fill env b)
  | drop_page {env : JitTable} {page : Nat} : JitStep blocks_start env (.drop_page page) (jit_drop_page env page)
  | drop_range {env : JitTable} {first npages : Nat} :
      JitStep blocks_start env (.drop_range first npages) (jit_drop_range env first npages)
  | flush {env : JitTable} : JitStep blocks_start env .flush (jit_flush_all env blocks_start)

def JitTable.init (blocks_start : Nat) : JitTable where
  hash _ := []
  pages _ := []
  arena _ := { pc := 0, code := 0, exit_pc := fun _ => 0 }
  nblocks := 0
  nedges := 0
  jcache _ := {}
  ptr := blocks_start

def JitTable.Live (env : JitTable) (i : Nat) : Prop := i ∈ env.hash (hash_pc (env.arena i).pc)

/-- What the lists and the patched exits satisfy between steps. The clauses on
patched exits cover dropped blocks too, whose code can still be running. -/
structure JitTable.Linked (env : JitTable) : Prop where
  hash_mem : ∀ k i, i ∈ env.hash k → i < env.nblocks ∧ k = hash_pc (env.arena i).pc
  hash_nodup : ∀ k, (env.hash k).Nodup
  page_mem : ∀ k i, i ∈ env.pages k ↔ env.Live i ∧ k = page_slot (env.arena i).pc
  page_nodup : ∀ k, (env.pages k).Nodup
  pc_inj : ∀ i j, env.Live i → env.Live j → (env.arena i).pc = (env.arena j).pc → i = j
  code_lt : ∀ i, i < env.nblocks → (env.arena i).code < env.ptr
  code_inj : ∀ i j, i < env.nblocks → j < env.nblocks → (env.arena i).code = (env.arena j).code → i = j
  site_live : ∀ i slot a, i < env.nblocks → (env.arena i).site slot = some a →
    ∃ t, env.Live t ∧ (env.arena t).code = a ∧ (env.arena t).pc = (env.arena i).exit_pc slot
  edge_iff : ∀ t i slot, t < env.nblocks →
    ((i, slot) ∈ (env.arena t).in_edges ↔ i < env.nblocks ∧ (env.arena i).site slot = some (env.arena t).code)
  edge_nodup : ∀ t, t < env.nblocks → (env.arena t).in_edges.Nodup

/-- The jump-cache entry of a non-zero pc names a block in the table. -/
def JitTable.JcacheOk (env : JitTable) : Prop :=
  ∀ k, (env.jcache k).pc ≠ 0 → k = jcache_slot (env.jcache k).pc ∧
    ∃ t, env.Live t ∧ (env.arena t).pc = (env.jcache k).pc ∧ (env.arena t).code = (env.jcache k).code

end arm64emu
