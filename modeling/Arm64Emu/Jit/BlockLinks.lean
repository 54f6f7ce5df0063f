import Arm64Emu.Jit.Blocks

namespace arm64emu

open List

open Function

open transition

section arena

variable (arena : Nat → JBlock) (i j : Nat) (slot slot' : Fin 2) (dest : Option Nat) (edges : List (Nat × Fin 2))

@[simp] theorem set_site_pc : (set_site arena i slot dest j).pc = (arena j).pc := by
  unfold set_site update
  split <;> simp_all

@[simp] theorem set_site_code : (set_site arena i slot dest j).code = (arena j).code := by
  unfold set_site update
  split <;> simp_all

@[simp] theorem set_site_exit_pc : (set_site arena i slot dest j).exit_pc = (arena j).exit_pc := by
  unfold set_site update
  split <;> simp_all

@[simp] theorem set_site_in_edges : (set_site arena i slot dest j).in_edges = (arena j).in_edges := by
  unfold set_site update
  split <;> simp_all

theorem set_site_site : (set_site arena i slot dest j).site slot' =
    if (j, slot') = (i, slot) then dest else (arena j).site slot' := by
  unfold set_site
  by_cases hj : j = i
  · subst hj
    by_cases hs : slot' = slot
    · simp [hs]
    · simp [hs]
  · simp [hj]

@[simp] theorem set_edges_pc : (set_edges arena i edges j).pc = (arena j).pc := by
  unfold set_edges update
  split <;> simp_all

@[simp] theorem set_edges_code : (set_edges arena i edges j).code = (arena j).code := by
  unfold set_edges update
  split <;> simp_all

@[simp] theorem set_edges_exit_pc : (set_edges arena i edges j).exit_pc = (arena j).exit_pc := by
  unfold set_edges update
  split <;> simp_all

@[simp] theorem set_edges_site : (set_edges arena i edges j).site = (arena j).site := by
  unfold set_edges update
  split <;> simp_all

theorem set_edges_in_edges :
    (set_edges arena i edges j).in_edges = if j = i then edges else (arena j).in_edges := by
  unfold set_edges
  by_cases hj : j = i
  · subst hj
    simp
  · simp [hj]

end arena

section unlink

theorem foldl_unpatch_edge (edges : List (Nat × Fin 2)) (arena : Nat → JBlock) (j : Nat) :
    let arena' := edges.foldl unpatch_edge arena
    (arena' j).pc = (arena j).pc ∧ (arena' j).code = (arena j).code ∧ (arena' j).exit_pc = (arena j).exit_pc ∧
      (arena' j).in_edges = (arena j).in_edges ∧
      ∀ slot, (arena' j).site slot = if (j, slot) ∈ edges then none else (arena j).site slot := by
  induction edges generalizing arena with
  | nil => simp
  | cons ed edges ih =>
    obtain ⟨src, s⟩ := ed
    have hone : (unpatch_edge arena (src, s) j).pc = (arena j).pc ∧
        (unpatch_edge arena (src, s) j).code = (arena j).code ∧
        (unpatch_edge arena (src, s) j).exit_pc = (arena j).exit_pc ∧
        (unpatch_edge arena (src, s) j).in_edges = (arena j).in_edges ∧
        ∀ slot, (unpatch_edge arena (src, s) j).site slot =
          if (j, slot) = (src, s) then none else (arena j).site slot := by
      unfold unpatch_edge
      by_cases hp : (arena src).patched s = true
      · rw [if_pos hp]
        exact ⟨by simp, by simp, by simp, by simp, fun slot => set_site_site arena src j s slot none⟩
      rw [if_neg hp]
      refine ⟨rfl, rfl, rfl, rfl, fun slot => ?_⟩
      split
      next heq =>
        obtain ⟨rfl, rfl⟩ := Prod.mk.inj heq
        simpa [JBlock.patched] using hp
      · rfl
    obtain ⟨h1, h2, h3, h4, h5⟩ := hone
    obtain ⟨g1, g2, g3, g4, g5⟩ := ih (unpatch_edge arena (src, s))
    refine ⟨g1.trans h1, g2.trans h2, g3.trans h3, g4.trans h4, fun slot => ?_⟩
    rw [foldl_cons, g5, h5]
    by_cases hmem : (j, slot) ∈ edges
    · simp [hmem]
    by_cases heq : (j, slot) = (src, s)
    · simp [heq]
    · simp [hmem, heq]

variable (env : JitTable) (b j : Nat)

@[simp] theorem jit_drop_block_pc : ((jit_drop_block env b).arena j).pc = (env.arena j).pc := by
  simp [jit_drop_block, jit_unlink_block, foldl_unpatch_edge]

@[simp] theorem jit_drop_block_code : ((jit_drop_block env b).arena j).code = (env.arena j).code := by
  simp [jit_drop_block, jit_unlink_block, foldl_unpatch_edge]

@[simp] theorem jit_drop_block_exit_pc : ((jit_drop_block env b).arena j).exit_pc = (env.arena j).exit_pc := by
  simp [jit_drop_block, jit_unlink_block, foldl_unpatch_edge]

theorem jit_drop_block_site (slot : Fin 2) : ((jit_drop_block env b).arena j).site slot =
    if (j, slot) ∈ (env.arena b).in_edges then none else (env.arena j).site slot := by
  simp [jit_drop_block, jit_unlink_block, foldl_unpatch_edge]

theorem jit_drop_block_in_edges :
    ((jit_drop_block env b).arena j).in_edges = if j = b then [] else (env.arena j).in_edges := by
  simp [jit_drop_block, jit_unlink_block, foldl_unpatch_edge, set_edges_in_edges]

@[simp] theorem jit_drop_block_nblocks : (jit_drop_block env b).nblocks = env.nblocks := rfl

@[simp] theorem jit_drop_block_jcache : (jit_drop_block env b).jcache = env.jcache := rfl

@[simp] theorem jit_drop_block_ptr : (jit_drop_block env b).ptr = env.ptr := rfl

variable {env} {b}

theorem jit_drop_block_hash (h : env.Linked) (k i : Nat) :
    i ∈ (jit_drop_block env b).hash k ↔ i ∈ env.hash k ∧ i ≠ b := by
  show i ∈ update env.hash _ _ k ↔ _
  by_cases hk : k = hash_pc (env.arena b).pc
  · subst hk
    rw [update_self, (h.hash_nodup _).mem_erase_iff]
    tauto
  rw [update_of_ne hk]
  refine ⟨fun hi => ⟨hi, fun hib => hk ?_⟩, fun hi => hi.1⟩
  subst hib
  exact (h.hash_mem k i hi).2

theorem jit_drop_block_live (h : env.Linked) (i : Nat) :
    (jit_drop_block env b).Live i ↔ env.Live i ∧ i ≠ b := by
  unfold JitTable.Live
  rw [jit_drop_block_pc, jit_drop_block_hash h]

theorem update_nodup {κ α : Type*} [DecidableEq κ] {f : κ → List α} (h : ∀ k, (f k).Nodup) {k : κ} {l : List α}
    (hl : l.Nodup) : ∀ k', (update f k l k').Nodup :=
  (forall_update_iff f fun _ l => l.Nodup).2 ⟨hl, fun k _ => h k⟩

theorem jit_drop_block_linked (h : env.Linked) (hb : b < env.nblocks) : (jit_drop_block env b).Linked := by
  have hlive := jit_drop_block_live (b := b) h
  refine ⟨fun k i hi => ?_, update_nodup h.hash_nodup ((h.hash_nodup _).erase b), fun k i => ?_,
    update_nodup h.page_nodup ((h.page_nodup _).erase b), fun i j hi hj hpc => ?_, fun i hi => ?_,
    fun i j hi hj hcode => ?_, fun i slot a hi hsite => ?_, fun t i slot ht => ?_, fun t ht => ?_⟩
  · rw [jit_drop_block_hash h] at hi
    simpa using h.hash_mem k i hi.1
  · rw [hlive, jit_drop_block_pc]
    show i ∈ update env.pages _ _ k ↔ _
    by_cases hk : k = page_slot (env.arena b).pc
    · subst hk
      rw [update_self, (h.page_nodup _).mem_erase_iff, h.page_mem]
      tauto
    rw [update_of_ne hk, h.page_mem]
    refine ⟨fun ⟨hi, he⟩ => ⟨⟨hi, fun hib => hk ?_⟩, he⟩, fun ⟨⟨hi, _⟩, he⟩ => ⟨hi, he⟩⟩
    rw [he, hib]
  · simp only [jit_drop_block_pc] at hpc
    exact h.pc_inj i j ((hlive i).1 hi).1 ((hlive j).1 hj).1 hpc
  · simpa using h.code_lt i hi
  · simp only [jit_drop_block_code] at hcode
    exact h.code_inj i j hi hj hcode
  · -- an exit still patched did not lead to the dropped block
    rw [jit_drop_block_site] at hsite
    split at hsite
    · cases hsite
    rename_i hne
    obtain ⟨t, ht, hcode, hpc⟩ := h.site_live i slot a hi hsite
    have htb : t ≠ b := by
      intro htb
      subst htb
      exact hne ((h.edge_iff t i slot hb).2 ⟨hi, by rw [hsite, hcode]⟩)
    exact ⟨t, (hlive t).2 ⟨ht, htb⟩, by simpa using hcode, by simpa using hpc⟩
  · rw [jit_drop_block_in_edges, jit_drop_block_site, jit_drop_block_code, jit_drop_block_nblocks]
    have hiff := h.edge_iff t i slot ht
    have hiffb := h.edge_iff b i slot hb
    by_cases htb : t = b
    · subst htb
      rw [if_pos rfl]
      constructor
      · intro hmem
        cases hmem
      rintro ⟨hi, hsite⟩
      split at hsite
      · cases hsite
      next hne => exact absurd (hiffb.2 ⟨hi, hsite⟩) hne
    rw [if_neg htb, hiff]
    refine and_congr_right fun hi => ?_
    split
    next hmem =>
      refine ⟨fun hsite => absurd ?_ htb, fun hsite => by cases hsite⟩
      rw [(hiffb.1 hmem).2, Option.some.injEq] at hsite
      exact (h.code_inj b t hb ht hsite).symm
    · rfl
  rw [jit_drop_block_in_edges]
  split
  · exact nodup_nil
  · exact h.edge_nodup t ht

end unlink

section drop

variable {env : JitTable}

theorem foldl_jit_drop_block (blocks : List Nat) (h : env.Linked) (hb : ∀ b ∈ blocks, b < env.nblocks) :
    let env' := blocks.foldl jit_drop_block env
    env'.Linked ∧ env'.jcache = env.jcache ∧ (∀ i, env'.Live i ↔ env.Live i ∧ i ∉ blocks) ∧
      ∀ i, (env'.arena i).pc = (env.arena i).pc ∧ (env'.arena i).code = (env.arena i).code := by
  induction blocks generalizing env with
  | nil => simp [h]
  | cons b blocks ih =>
    obtain ⟨hlt, hrest⟩ := forall_mem_cons.1 hb
    obtain ⟨hlinked, hjc, hlive, hsame⟩ := ih (jit_drop_block_linked h hlt) hrest
    refine ⟨hlinked, hjc, fun i => ?_, fun i => ?_⟩
    · rw [foldl_cons, hlive, jit_drop_block_live h, mem_cons]
      tauto
    · rw [foldl_cons]
      simpa using hsame i

theorem jit_jcache_purge_linked (h : env.Linked) (lo hi : Nat) : (jit_jcache_purge env lo hi).Linked :=
  { h with }

/-- Either drop keeps the tables linked, and the jump cache names what stays:
the blocks that go all have their pc in the purged range. -/
theorem jit_drop_blocks_ok {blocks : List Nat} {lo hi : Nat} (h : env.Linked) (hjc : env.JcacheOk)
    (hb : ∀ b ∈ blocks, b < env.nblocks ∧ lo ≤ (env.arena b).pc ∧ (env.arena b).pc < hi) :
    (jit_drop_blocks env blocks lo hi).Linked ∧ (jit_drop_blocks env blocks lo hi).JcacheOk := by
  unfold jit_drop_blocks
  obtain ⟨hlinked, hcache, hlive, hsame⟩ := foldl_jit_drop_block blocks h fun b hmem => (hb b hmem).1
  cases hblocks : blocks with
  | nil => exact ⟨h, hjc⟩
  | cons b rest =>
    rw [← hblocks, if_neg (by simp [hblocks])]
    refine ⟨jit_jcache_purge_linked hlinked lo hi, fun k hk => ?_⟩
    simp only [jit_jcache_purge, hcache] at hk ⊢
    by_cases hin : lo ≤ (env.jcache k).pc ∧ (env.jcache k).pc < hi
    · rw [if_pos hin] at hk
      exact absurd rfl hk
    rw [if_neg hin] at hk ⊢
    obtain ⟨hslot, t, ht, hpc, hcode⟩ := hjc k hk
    refine ⟨hslot, t, ?_, (hsame t).1.trans hpc, (hsame t).2.trans hcode⟩
    refine (hlive t).2 ⟨ht, fun hmem => hin ?_⟩
    rw [← hpc]
    exact (hb t hmem).2

theorem jit_drop_page_ok (h : env.Linked) (hjc : env.JcacheOk) (page : Nat) :
    (jit_drop_page env page).Linked ∧ (jit_drop_page env page).JcacheOk := by
  refine jit_drop_blocks_ok h hjc fun b hmem => ?_
  obtain ⟨hb, hpage⟩ := mem_filter.1 hmem
  have hlive := ((h.page_mem _ b).1 hb).1
  have hpage : (env.arena b).pc / 4096 * 4096 = page := by simpa using hpage
  exact ⟨(h.hash_mem _ b hlive).1, by omega, by omega⟩

theorem jit_drop_range_ok (h : env.Linked) (hjc : env.JcacheOk) (first npages : Nat) :
    (jit_drop_range env first npages).Linked ∧ (jit_drop_range env first npages).JcacheOk := by
  refine jit_drop_blocks_ok h hjc fun b hmem => ?_
  obtain ⟨hb, hin⟩ := mem_filter.1 hmem
  exact ⟨mem_range.1 hb, by simpa using hin⟩

theorem jit_flush_all_ok (env : JitTable) (blocks_start : Nat) :
    (jit_flush_all env blocks_start).Linked ∧ (jit_flush_all env blocks_start).JcacheOk := by
  refine ⟨⟨?_, ?_, ?_, ?_, ?_, ?_, ?_, ?_, ?_, ?_⟩, ?_⟩ <;> simp [jit_flush_all, JitTable.Live, JitTable.JcacheOk]

end drop

section grow

variable {env : JitTable}

theorem jit_lookup_some {pc i : Nat} (h : jit_lookup env pc = some i) : env.Live i ∧ (env.arena i).pc = pc := by
  have hpc : (env.arena i).pc = pc := by simpa using List.find?_some h
  refine ⟨?_, hpc⟩
  unfold JitTable.Live
  rw [hpc]
  exact mem_of_find?_eq_some h

theorem jit_lookup_none {pc : Nat} (h : jit_lookup env pc = none) (i : Nat) (hi : env.Live i) :
    (env.arena i).pc ≠ pc := by
  intro hpc
  unfold JitTable.Live at hi
  rw [hpc] at hi
  have := List.find?_eq_none.1 h i hi
  simp [hpc] at this

theorem JitTable.Linked.live_lt (h : env.Linked) {i : Nat} (hi : env.Live i) : i < env.nblocks :=
  (h.hash_mem _ i hi).1

variable (pc len : Nat) (exit_pc : Fin 2 → Nat)

theorem jit_insert_arena (i : Nat) (hi : i < env.nblocks) : (jit_insert env pc len exit_pc).arena i = env.arena i :=
  update_of_ne (Nat.ne_of_lt hi) _ _

theorem jit_insert_new :
    (jit_insert env pc len exit_pc).arena env.nblocks = { pc := pc, code := env.ptr, exit_pc := exit_pc } :=
  update_self _ _ _

theorem jit_insert_hash (k i : Nat) : i ∈ (jit_insert env pc len exit_pc).hash k ↔
    i ∈ env.hash k ∨ (i = env.nblocks ∧ k = hash_pc pc) := by
  show i ∈ update env.hash _ _ k ↔ _
  by_cases hk : k = hash_pc pc
  · subst hk
    rw [update_self, mem_cons]
    tauto
  · rw [update_of_ne hk]
    tauto

theorem jit_insert_live (h : env.Linked) (i : Nat) :
    (jit_insert env pc len exit_pc).Live i ↔ env.Live i ∨ i = env.nblocks := by
  unfold JitTable.Live
  rw [jit_insert_hash]
  by_cases hi : i = env.nblocks
  · subst hi
    simp [jit_insert_new]
  constructor
  · rintro (hmem | ⟨hn, -⟩)
    · left
      have hlt := (h.hash_mem _ i hmem).1
      rwa [jit_insert_arena pc len exit_pc i hlt] at hmem
    · exact absurd hn hi
  rintro (hmem | hn)
  · left
    rwa [jit_insert_arena pc len exit_pc i (h.hash_mem _ i hmem).1]
  · exact absurd hn hi

theorem jit_insert_linked (h : env.Linked) (hmiss : ∀ i, env.Live i → (env.arena i).pc ≠ pc) (hlen : 0 < len) :
    (jit_insert env pc len exit_pc).Linked := by
  have hnew : (jit_insert env pc len exit_pc).arena env.nblocks = _ := jit_insert_new pc len exit_pc
  have hold (i : Nat) (hi : i < env.nblocks) : (jit_insert env pc len exit_pc).arena i = env.arena i :=
    jit_insert_arena pc len exit_pc i hi
  have hlive := jit_insert_live pc len exit_pc h
  have hptr : env.ptr < (jit_insert env pc len exit_pc).ptr := by
    show env.ptr < (env.ptr + len + 15) / 16 * 16
    omega
  -- an index below the new count is the new block or an old one
  have hcase (i : Nat) (hi : i < (jit_insert env pc len exit_pc).nblocks) : i = env.nblocks ∨ i < env.nblocks := by
    have : i < env.nblocks + 1 := hi
    omega
  have hfresh : env.nblocks ∉ env.hash (hash_pc pc) := fun hmem => by
    have := (h.hash_mem _ _ hmem).1
    omega
  refine ⟨fun k i hi => ?_, fun k => ?_, fun k i => ?_, fun k => ?_, fun i j hi hj hpc => ?_, fun i hi => ?_,
    fun i j hi hj hcode => ?_, fun i slot a hi hsite => ?_, fun t i slot ht => ?_, fun t ht => ?_⟩
  · rcases (jit_insert_hash pc len exit_pc k i).1 hi with hmem | ⟨rfl, rfl⟩
    · obtain ⟨hlt, hk⟩ := h.hash_mem k i hmem
      exact ⟨Nat.lt_succ_of_lt hlt, by rw [hold i hlt, hk]⟩
    · exact ⟨Nat.lt_succ_self _, by rw [hnew]⟩
  · exact update_nodup h.hash_nodup (nodup_cons.2 ⟨hfresh, h.hash_nodup _⟩) k
  · rw [hlive]
    show i ∈ update env.pages _ _ k ↔ _
    by_cases hi : i = env.nblocks
    · subst hi
      have hnot (k : Nat) : env.nblocks ∉ env.pages k := fun hmem => by
        have := h.live_lt ((h.page_mem _ _).1 hmem).1
        omega
      rw [hnew]
      by_cases hk : k = page_slot pc
      · subst hk
        simp
      · rw [update_of_ne hk]
        simp [hnot, hk]
    have hpages : i ∈ update env.pages (page_slot pc) (env.nblocks :: env.pages (page_slot pc)) k ↔
        i ∈ env.pages k := by
      by_cases hk : k = page_slot pc
      · subst hk
        simp [hi]
      · rw [update_of_ne hk]
    rw [hpages, h.page_mem]
    constructor
    · rintro ⟨hl, hk⟩
      exact ⟨.inl hl, by rw [hold i (h.live_lt hl), hk]⟩
    rintro ⟨hl | hn, hk⟩
    · rw [hold i (h.live_lt hl)] at hk
      exact ⟨hl, hk⟩
    · exact absurd hn hi
  · refine update_nodup h.page_nodup (nodup_cons.2 ⟨fun hmem => ?_, h.page_nodup _⟩) k
    have := h.live_lt ((h.page_mem _ _).1 hmem).1
    omega
  · rcases (hlive i).1 hi with hi | rfl <;> rcases (hlive j).1 hj with hj | rfl
    · rw [hold i (h.live_lt hi), hold j (h.live_lt hj)] at hpc
      exact h.pc_inj i j hi hj hpc
    · rw [hold i (h.live_lt hi), hnew] at hpc
      exact absurd hpc (hmiss i hi)
    · rw [hold j (h.live_lt hj), hnew] at hpc
      exact absurd hpc.symm (hmiss j hj)
    · rfl
  · rcases hcase i hi with rfl | hlt
    · rw [hnew]
      exact hptr
    · rw [hold i hlt]
      exact (h.code_lt i hlt).trans hptr
  · rcases hcase i hi with rfl | hlt <;> rcases hcase j hj with rfl | hlt'
    · rfl
    · rw [hnew, hold j hlt'] at hcode
      exact absurd hcode (Nat.ne_of_gt (h.code_lt j hlt'))
    · rw [hnew, hold i hlt] at hcode
      exact absurd hcode (Nat.ne_of_lt (h.code_lt i hlt))
    · rw [hold i hlt, hold j hlt'] at hcode
      exact h.code_inj i j hlt hlt' hcode
  · rcases hcase i hi with rfl | hlt
    · rw [hnew] at hsite
      cases hsite
    rw [hold i hlt] at hsite ⊢
    obtain ⟨t, ht, hcode, hpc⟩ := h.site_live i slot a hlt hsite
    exact ⟨t, (hlive t).2 (.inl ht), by rw [hold t (h.live_lt ht), hcode], by rw [hold t (h.live_lt ht), hpc]⟩
  · rcases hcase t ht with rfl | hlt
    · -- nothing leads to the new block yet: every patched exit leads below `ptr`
      rw [hnew]
      constructor
      · intro hmem
        cases hmem
      rintro ⟨hi, hsite⟩
      rcases hcase i hi with rfl | hlt
      · rw [hnew] at hsite
        cases hsite
      rw [hold i hlt] at hsite
      obtain ⟨u, hu, hcode, -⟩ := h.site_live i slot _ hlt hsite
      exact absurd hcode (Nat.ne_of_lt (h.code_lt u (h.live_lt hu)))
    rw [hold t hlt, h.edge_iff t i slot hlt]
    constructor
    · rintro ⟨hi, hsite⟩
      exact ⟨Nat.lt_succ_of_lt hi, by rw [hold i hi, hsite]⟩
    rintro ⟨hi, hsite⟩
    rcases hcase i hi with rfl | hlt'
    · rw [hnew] at hsite
      cases hsite
    · rw [hold i hlt'] at hsite
      exact ⟨hlt', hsite⟩
  rcases hcase t ht with rfl | hlt
  · rw [hnew]
    exact nodup_nil
  · rw [hold t hlt]
    exact h.edge_nodup t hlt

end grow

end arm64emu
