import Arm64Emu.Jit.BlockLinks

namespace arm64emu

open transition

section chain

variable {env : JitTable} {prev b : Nat} {slot : Fin 2}

theorem jit_insert_jcache (pc len : Nat) (exit_pc : Fin 2 → Nat) (h : env.Linked) (hjc : env.JcacheOk) :
    (jit_insert env pc len exit_pc).JcacheOk := by
  intro k hk
  obtain ⟨hslot, t, ht, hpc, hcode⟩ := hjc k hk
  have hold := jit_insert_arena pc len exit_pc t (h.live_lt ht)
  exact ⟨hslot, t, (jit_insert_live pc len exit_pc h t).2 (.inl ht), by rw [hold, hpc]; rfl, by rw [hold, hcode]; rfl⟩

theorem jit_translate_ok (h : env.Linked) (hjc : env.JcacheOk) (blocks_start : Nat) {pc : Nat}
    (hmiss : jit_lookup env pc = none) (room : Bool) {emit : Option (Nat × (Fin 2 → Nat))}
    (hlen : ∀ e, emit = some e → 0 < e.1) :
    (jit_translate env blocks_start pc room emit).Linked ∧ (jit_translate env blocks_start pc room emit).JcacheOk := by
  unfold jit_translate
  cases emit with
  | none =>
    split
    · exact jit_flush_all_ok env blocks_start
    · exact ⟨h, hjc⟩
  | some e =>
    have hpos := hlen e rfl
    split
    · -- a full table starts over, and then nothing is filed under the pc either
      obtain ⟨h', hjc'⟩ := jit_flush_all_ok env blocks_start
      have hmiss' : ∀ i, (jit_flush_all env blocks_start).Live i →
          ((jit_flush_all env blocks_start).arena i).pc ≠ pc := fun i hi => nomatch hi
      exact ⟨jit_insert_linked pc e.1 e.2 h' hmiss' hpos, jit_insert_jcache pc e.1 e.2 h' hjc'⟩
    · exact ⟨jit_insert_linked pc e.1 e.2 h (jit_lookup_none hmiss) hpos, jit_insert_jcache pc e.1 e.2 h hjc⟩

theorem jit_chain_linked (h : env.Linked) (hprev : prev < env.nblocks) (hb : env.Live b) :
    (jit_chain env prev slot b).Linked := by
  simp only [jit_chain]
  split
  next hguard =>
    obtain ⟨hexit, hunpatched, -, -⟩ := hguard
    have hsite : (env.arena prev).site slot = none := by
      simpa [JBlock.patched] using hunpatched
    have hblt := h.live_lt hb
    -- no list names the exit yet
    have hnot (t : Nat) (ht : t < env.nblocks) : (prev, slot) ∉ (env.arena t).in_edges := by
      rw [h.edge_iff t prev slot ht, hsite]
      rintro ⟨-, hnone⟩
      cases hnone
    obtain ⟨h1, h2, h3, h4, h5, h6, h7, h8, h9, h10⟩ := h
    have hlive : ∀ i, JitTable.Live { env with
        arena := set_edges (set_site env.arena prev slot (some (env.arena b).code)) b
          ((prev, slot) :: (set_site env.arena prev slot (some (env.arena b).code) b).in_edges)
        nedges := env.nedges + 1 } i ↔ env.Live i := fun i => by
      simp [JitTable.Live]
    refine ⟨fun k i hi => by simpa using h1 k i hi, h2, fun k i => ?_, h4, fun i j hi hj hpc => ?_,
      fun i hi => by simpa using h6 i hi, fun i j hi hj hcode => h7 i j hi hj (by simpa using hcode),
      fun i s a hi hs => ?_, fun t i s ht => ?_, fun t ht => ?_⟩
    · rw [hlive]
      simpa using h3 k i
    · exact h5 i j ((hlive i).1 hi) ((hlive j).1 hj) (by simpa using hpc)
    · simp only [set_edges_site, set_site_site, set_edges_code, set_site_code, set_edges_pc, set_site_pc,
        set_edges_exit_pc, set_site_exit_pc] at hs ⊢
      split at hs
      · rename_i heq
        obtain ⟨rfl, rfl⟩ := Prod.mk.inj heq
        cases hs
        exact ⟨b, (hlive b).2 hb, rfl, hexit.symm⟩
      · obtain ⟨t, ht, hcode, hpc⟩ := h8 i s a hi hs
        exact ⟨t, (hlive t).2 ht, hcode, hpc⟩
    · simp only [set_edges_in_edges, set_edges_site, set_site_site, set_edges_code, set_site_code,
        set_site_in_edges]
      have hiff := h9 t i s ht
      by_cases heq : (i, s) = (prev, slot)
      · obtain ⟨rfl, rfl⟩ := Prod.mk.inj heq
        rw [if_pos rfl]
        by_cases htb : t = b
        · subst htb
          simp [hprev]
        rw [if_neg htb]
        refine ⟨fun hmem => absurd hmem (hnot t ht), fun hedge => absurd ?_ htb⟩
        exact (h7 b t hblt ht (Option.some.inj hedge.2)).symm
      rw [if_neg heq]
      by_cases htb : t = b
      · subst htb
        rw [if_pos rfl, List.mem_cons, hiff]
        exact ⟨fun hmem => hmem.resolve_left heq, .inr⟩
      · rw [if_neg htb, hiff]
    simp only [set_edges_in_edges, set_site_in_edges]
    split
    · exact List.nodup_cons.2 ⟨hnot b hblt, h10 b hblt⟩
    · exact h10 t ht
  · exact h

theorem jit_chain_jcache (hjc : env.JcacheOk) : (jit_chain env prev slot b).JcacheOk := by
  simp only [jit_chain]
  split
  · intro k hk
    obtain ⟨hslot, t, ht, hpc, hcode⟩ := hjc k hk
    refine ⟨hslot, t, ?_, by simpa using hpc, by simpa using hcode⟩
    simpa [JitTable.Live] using ht
  · exact hjc

theorem jit_jcache_fill_linked (h : env.Linked) : (jit_jcache_fill env b).Linked :=
  { h with }

theorem jit_jcache_fill_jcache (hjc : env.JcacheOk) (hb : env.Live b) : (jit_jcache_fill env b).JcacheOk := by
  intro k hk
  unfold jit_jcache_fill at hk ⊢
  simp only at hk ⊢
  by_cases hslot : k = jcache_slot (env.arena b).pc
  · subst hslot
    rw [Function.update_self] at hk ⊢
    exact ⟨rfl, b, hb, rfl, rfl⟩
  · rw [Function.update_of_ne hslot] at hk ⊢
    exact hjc k hk

end chain

/-- One change of the table. -/
theorem jit_step_ok {blocks_start : Nat} {env env' : JitTable} {op : JitOp}
    (h : env.Linked ∧ env.JcacheOk) (hstep : JitStep blocks_start env op env') : env'.Linked ∧ env'.JcacheOk := by
  obtain ⟨h, hjc⟩ := h
  cases hstep with
  | translate hmiss hlen => exact jit_translate_ok h hjc blocks_start hmiss _ hlen
  | chain hprev hb => exact ⟨jit_chain_linked h hprev (jit_lookup_some hb).1, jit_chain_jcache hjc⟩
  | jcache_fill hb => exact ⟨jit_jcache_fill_linked h, jit_jcache_fill_jcache hjc (jit_lookup_some hb).1⟩
  | drop_page => exact jit_drop_page_ok h hjc _
  | drop_range => exact jit_drop_range_ok h hjc _ _
  | flush => exact jit_flush_all_ok env blocks_start

theorem JitTable.init_ok (blocks_start : Nat) :
    (JitTable.init blocks_start).Linked ∧ (JitTable.init blocks_start).JcacheOk :=
  jit_flush_all_ok (JitTable.init blocks_start) blocks_start

/-- After every sequence of steps the tables are linked: patched exits lead to live blocks with their target pc, the
edge lists are exact, and buckets hold live blocks under their own pc. A jump-cache hit names a live block, but for a
probe of pc 0 with slot 0 empty. -/
theorem jit_table_linked {blocks_start : Nat} {ops : List JitOp} {env : JitTable}
    (hrun : Steps (JitStep blocks_start) (JitTable.init blocks_start) ops env) :
    env.Linked ∧
    ((∀ target code, jcache_probe env target = some code →
        ∃ t, env.Live t ∧ (env.arena t).pc = target ∧ (env.arena t).code = code) ↔
      ((env.jcache 0).pc = 0 → ∃ t, env.Live t ∧ (env.arena t).pc = 0 ∧ (env.arena t).code = (env.jcache 0).code)) ∧
    ∀ target code, target ≠ 0 → jcache_probe env target = some code →
      ∃ t, env.Live t ∧ (env.arena t).pc = target ∧ (env.arena t).code = code := by
  obtain ⟨hlinked, hjc⟩ := hrun.invariant (fun _ _ _ h hstep => jit_step_ok h hstep) (JitTable.init_ok blocks_start)
  have hprobe (target code : Nat) (hne : target ≠ 0) (hhit : jcache_probe env target = some code) :
      ∃ t, env.Live t ∧ (env.arena t).pc = target ∧ (env.arena t).code = code := by
    unfold jcache_probe at hhit
    simp only at hhit
    split at hhit
    next hpc =>
      cases hhit
      obtain ⟨-, t, ht, htpc, hcode⟩ := hjc _ (hpc ▸ hne)
      exact ⟨t, ht, htpc.trans hpc, hcode⟩
    · cases hhit
  refine ⟨hlinked, ⟨fun h hzero => ?_, fun h target code hhit => ?_⟩, hprobe⟩
  · refine h 0 _ ?_
    unfold jcache_probe
    exact if_pos hzero
  by_cases hne : target = 0
  · subst hne
    unfold jcache_probe at hhit
    simp only at hhit
    split at hhit
    next hpc =>
      cases hhit
      exact h hpc
    · cases hhit
  · exact hprobe target code hne hhit

/-- One block, its jump-cache entry, and the drop of its page. -/
def drop_after_fill : List JitOp :=
  [.translate 0x4000 true (some (64, fun _ => 0x8000)), .jcache_fill 0, .drop_page 0x4000]

def dropped_table : JitTable :=
  jit_drop_page (jit_jcache_fill (jit_translate (JitTable.init 0x100) 0x100 0x4000 true
    (some (64, fun _ => 0x8000))) 0) 0x4000

theorem dropped_table_reached : Steps (JitStep 0x100) (JitTable.init 0x100) drop_after_fill dropped_table := by
  refine .cons (.translate rfl ?_) (.cons (.jcache_fill rfl) (.cons .drop_page (.nil _)))
  rintro e ⟨⟩
  decide

/-- A branch to address 0 then hits the purged entry and enters the dropped
block: the probe takes the empty entry for one filed under pc 0. -/
theorem jcache_probe_dropped :
    Steps (JitStep 0x100) (JitTable.init 0x100) drop_after_fill dropped_table ∧
      jcache_probe dropped_table 0 = some 0x100 ∧ (dropped_table.arena 0).code = 0x100 ∧
      ∀ t, ¬dropped_table.Live t := by
  refine ⟨dropped_table_reached, by decide, by decide, fun t ht => ?_⟩
  obtain ⟨hlinked, -⟩ := dropped_table_reached.invariant (fun _ _ _ h hstep => jit_step_ok h hstep)
    (JitTable.init_ok 0x100)
  have hlt : t < 1 := hlinked.live_lt ht
  obtain rfl : t = 0 := by omega
  have hempty : dropped_table.hash (hash_pc (dropped_table.arena 0).pc) = [] := by decide
  rw [JitTable.Live, hempty] at ht
  cases ht

/-- After the page of the only block is dropped. -/
theorem jit_table_linked_dropped : dropped_table.Linked := (jit_table_linked dropped_table_reached).1

end arm64emu
