import Arm64Emu.Jit.DeadFlags

namespace arm64emu

section page

variable (cfg : FeCfg) {fetch fetch' : u64 → Option u32}

/-- `mem_ifetch`: no word is fetched from an address that is not aligned. -/
def aligned_fetch (fetch : u64 → Option u32) (p : u64) : Option u32 := if p.toNat % 4 = 0 then fetch p else none

theorem page_next {p : u64} (hp : p.toNat % 4 = 0) (hnext : page_off (p + 4#64) ≠ 0) :
    page_of (p + 4#64) = page_of p := by
  by_cases hin : page_off p + 4 < GUEST_PAGE_SIZE
  · exact (page_add hin).1
  refine absurd ?_ hnext
  have hlt := page_off_lt p
  unfold page_off GUEST_PAGE_SIZE at *
  rw [BitVec.toNat_add]
  simp only [BitVec.toNat_ofNat]
  omega

theorem fe_block_loop_page (fuel : Nat) {p : u64} (ir : IRBlock)
    (hsame : ∀ q, page_of q = page_of p → fetch' q = fetch q) :
    fe_block_loop cfg (aligned_fetch fetch') fuel p ir = fe_block_loop cfg (aligned_fetch fetch) fuel p ir := by
  induction fuel generalizing p ir with
  | zero => rfl
  | succ fuel ih =>
    have hp : aligned_fetch fetch' p = aligned_fetch fetch p := by rw [aligned_fetch, hsame p rfl, aligned_fetch]
    rw [fe_block_loop, fe_block_loop, hp]
    dsimp only
    split
    · rfl
    next insn hfetch =>
    have halign : p.toNat % 4 = 0 := by
      unfold aligned_fetch at hfetch
      split at hfetch
      · assumption
      · cases hfetch
    split
    · rfl
    split
    · rfl
    split
    · rfl
    next hgo =>
      simp only [not_or] at hgo
      exact ih _ fun q hq => hsame q (hq.trans (page_next halign hgo.2.1))

end page

end arm64emu
