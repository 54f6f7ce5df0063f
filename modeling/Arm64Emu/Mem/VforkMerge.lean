import Mathlib
import Arm64Emu.Mem.FindFree

namespace arm64emu

abbrev PageBytes := Nat → u8

section flush

variable (was now : PageBytes)

/-- The inner loop of `as_vfork_flush`: the last changed byte of a run, looked
for until sixteen bytes past it have not changed. -/
def run_last (last j : Nat) : Nat :=
  if j < GUEST_PAGE_SIZE ∧ j - last ≤ 16 then
    if now j ≠ was j then run_last j (j + 1) else run_last last (j + 1)
  else last
termination_by GUEST_PAGE_SIZE - j

theorem le_run_last {last j : Nat} (hj : last < j) : last ≤ run_last was now last j := by
  fun_induction run_last was now last j with
  | case1 last j h hch ih => exact hj.le.trans (ih (Nat.lt_add_one j))
  | case2 last j h hsame ih => exact ih (Nat.lt_succ_of_lt hj)
  | case3 => exact le_rfl

/-- The runs of a page that `as_vfork_flush` emits from an offset on: where each
starts, and its bytes as the child has them. -/
def flush_page (off : Nat) : List (Nat × List u8) :=
  if off < GUEST_PAGE_SIZE then
    if now off = was off then flush_page (off + 1)
    else
      let last := run_last was now off (off + 1)
      (off, (List.range (last - off + 1)).map fun k => now (off + k)) :: flush_page (last + 1)
  else []
termination_by GUEST_PAGE_SIZE - off
decreasing_by
  · omega
  · have hle := le_run_last was now (Nat.lt_add_one off)
    omega

def apply_run (page : PageBytes) (run : Nat × List u8) : PageBytes := fun k =>
  if run.1 ≤ k ∧ k < run.1 + run.2.length then run.2.getD (k - run.1) 0#8 else page k

/-- A byte from `off` on that is changed, or lies between two changed bytes of
the page at most sixteen apart. -/
def Near (off k : Nat) : Prop :=
  ∃ i j, off ≤ i ∧ i ≤ k ∧ k ≤ j ∧ j < GUEST_PAGE_SIZE ∧ j ≤ i + 16 ∧ now i ≠ was i ∧ now j ≠ was j

variable {was now} {off k : Nat}

/-- A run ends at a changed byte, all its bytes are near changed ones, and the
sixteen after it are unchanged. -/
theorem run_last_spec {last j : Nat} (hj : last < j) (hpage : last < GUEST_PAGE_SIZE) (hlast : now last ≠ was last)
    (hgap : ∀ m, last < m → m < j → now m = was m) :
    (∀ k, last ≤ k → k ≤ run_last was now last j → Near was now last k) ∧
      ∀ m, run_last was now last j < m → m < GUEST_PAGE_SIZE → m ≤ run_last was now last j + 16 → now m = was m := by
  fun_induction run_last was now last j with
  | case1 last j h hch ih =>
    obtain ⟨hnear, hafter⟩ := ih (Nat.lt_add_one j) h.1 hch fun m hlt hm => absurd hlt (by omega)
    refine ⟨fun k hle hge => ?_, hafter⟩
    rcases Nat.lt_or_ge k j with hlt | hkj
    · exact ⟨last, j, le_rfl, hle, hlt.le, h.1, by omega, hlast, hch⟩
    · obtain ⟨i, m, hi, hrest⟩ := hnear k hkj hge
      exact ⟨i, m, hj.le.trans hi, hrest⟩
  | case2 last j h hsame ih =>
    refine ih (Nat.lt_succ_of_lt hj) hpage hlast fun m hlt hm => ?_
    rcases Nat.lt_succ_iff_lt_or_eq.1 hm with hm | rfl
    · exact hgap m hlt hm
    · exact not_not.1 hsame
  | case3 last j h =>
    refine ⟨fun k hle hge => ⟨last, last, ?_⟩, fun m hlt hm hle => hgap m hlt (by omega)⟩
    exact ⟨le_rfl, hle, hge, hpage, by omega, hlast, hlast⟩

theorem foldl_apply_run (page : PageBytes) :
    (Near was now off k → (flush_page was now off).foldl apply_run page k = now k) ∧
      (¬Near was now off k → (flush_page was now off).foldl apply_run page k = page k) := by
  fun_induction flush_page was now off generalizing page with
  | case1 off hoff hsame ih =>
    have hnear : Near was now off k ↔ Near was now (off + 1) k := by
      refine ⟨fun ⟨i, j, hi, hrest⟩ => ⟨i, j, Nat.lt_of_le_of_ne hi ?_, hrest⟩, fun ⟨i, j, hi, hrest⟩ =>
        ⟨i, j, by omega, hrest⟩⟩
      rintro rfl
      exact hrest.2.2.2.2.1 hsame
    rw [hnear]
    exact ih page
  | case2 off hoff hch last ih =>
    have hle : off ≤ last := le_run_last was now (Nat.lt_add_one off)
    obtain ⟨hrun, hafter⟩ := run_last_spec (Nat.lt_add_one off) hoff hch fun m hlt hm => absurd hlt (by omega)
    have hnear : Near was now off k ↔ (off ≤ k ∧ k ≤ last) ∨ Near was now (last + 1) k := by
      constructor
      · rintro ⟨i, j, hi, hik, hkj, hj, hij, hci, hcj⟩
        rcases Nat.lt_or_ge last i with hlt | hge
        · exact .inr ⟨i, j, hlt, hik, hkj, hj, hij, hci, hcj⟩
        · refine .inl ⟨hi.trans hik, Nat.le_of_not_lt fun hlt => hcj (hafter j ?_ hj ?_)⟩ <;> omega
      rintro (⟨hoff, hk⟩ | ⟨i, j, hi, hrest⟩)
      · exact hrun k hoff hk
      · exact ⟨i, j, by omega, hrest⟩
    have hput : apply_run page (off, (List.range (last - off + 1)).map fun k => now (off + k)) k =
        if off ≤ k ∧ k ≤ last then now k else page k := by
      rw [apply_run, List.length_map, List.length_range]
      by_cases hin : off ≤ k ∧ k ≤ last
      · rw [if_pos hin, if_pos (by omega), List.getD_eq_getElem _ _ (by simp; omega)]
        simp [show off + (k - off) = k by omega]
      · rw [if_neg hin, if_neg (by omega)]
    rw [List.foldl_cons, hnear]
    obtain ⟨hin, hout⟩ := ih (apply_run page (off, (List.range (last - off + 1)).map fun k => now (off + k)))
    by_cases hlater : Near was now (last + 1) k
    · exact ⟨fun _ => hin hlater, fun h => absurd (.inr hlater) h⟩
    · rw [hout hlater, hput]
      exact ⟨fun h => if_pos (h.resolve_right hlater), fun h => if_neg fun hk => h (.inl hk)⟩
  | case3 off hoff =>
    refine ⟨fun ⟨i, j, hi, hik, hkj, hj, _⟩ => ?_, fun _ => rfl⟩
    omega

end flush

section track

/-- The child's pages and the copies it took of those it stores to. -/
structure VforkTrack where
  mem : Nat → PageBytes
  copies : Nat → Option PageBytes

def vf_record (t : VforkTrack) (page : Nat) : VforkTrack :=
  if (t.copies page).isSome then t else { t with copies := Function.update t.copies page (some (t.mem page)) }

def vf_store (t : VforkTrack) (page : Nat) (bytes : PageBytes) : VforkTrack :=
  { vf_record t page with mem := Function.update t.mem page bytes }

/-- The child after its stores, which were tracked from the start. -/
def vf_stores (start : Nat → PageBytes) (stores : List (Nat × PageBytes)) : VforkTrack :=
  stores.foldl (fun t s => vf_store t s.1 s.2) ⟨start, fun _ => none⟩

/-- The parent's pages once every run of `as_vfork_flush` is applied. -/
def as_vfork_flush (t : VforkTrack) (parent : Nat → PageBytes) (page : Nat) : PageBytes :=
  match t.copies page with
  | none => parent page
  | some was => (flush_page was (t.mem page) 0).foldl apply_run (parent page)

variable (start : Nat → PageBytes) (stores : List (Nat × PageBytes)) (parent : Nat → PageBytes) (page : Nat)

theorem vf_stores_copies : (vf_stores start stores).copies page = some (start page) ∨
    (vf_stores start stores).copies page = none ∧ (vf_stores start stores).mem page = start page := by
  refine List.foldlRecOn (motive := fun t : VforkTrack =>
    t.copies page = some (start page) ∨ t.copies page = none ∧ t.mem page = start page) stores _ (.inr ⟨rfl, rfl⟩)
    fun t ih s _ => ?_
  rw [vf_store, vf_record]
  by_cases hp : page = s.1
  · subst hp
    rcases ih with hc | ⟨hc, hm⟩
    · simp [hc]
    · simp [hc, hm]
  · rcases ih with hc | ⟨hc, hm⟩ <;> split <;> simp [hp, hc]
    all_goals exact hm

/-- The write-back sets exactly what the child changed if and only if the parent
still has the bytes it folds into a run as they were. -/
theorem vfork_flush_merges :
    (∀ page k, k < GUEST_PAGE_SIZE → as_vfork_flush (vf_stores start stores) parent page k =
      if (vf_stores start stores).mem page k ≠ start page k then (vf_stores start stores).mem page k
      else parent page k) ↔
    ∀ page k, Near (start page) ((vf_stores start stores).mem page) 0 k →
      (vf_stores start stores).mem page k = start page k → parent page k = start page k := by
  refine forall_congr' fun page => forall_congr' fun k => ?_
  rw [as_vfork_flush]
  rcases vf_stores_copies start stores page with hc | ⟨hc, hm⟩
  · rw [hc]
    generalize (vf_stores start stores).mem page = now
    obtain ⟨hnear, hfar⟩ := @foldl_apply_run (start page) now 0 k (parent page)
    by_cases hn : Near (start page) now 0 k
    · have hk : k < GUEST_PAGE_SIZE := by
        obtain ⟨i, j, -, -, hkj, hj, -⟩ := hn
        omega
      simp only [hnear hn, hk, hn, forall_const]
      by_cases hch : now k = start page k
      · simp [hch, eq_comm]
      · simp [hch]
    have hsame (hk : k < GUEST_PAGE_SIZE) : now k = start page k := by
      by_contra hch
      exact hn ⟨k, k, by omega, le_rfl, le_rfl, hk, by omega, hch, hch⟩
    simp only [hfar hn, hn, false_imp_iff, iff_true]
    intro hk
    simp [hsame hk]
  have hn : ¬Near (start page) (start page) 0 k := by
    rintro ⟨i, j, -, -, -, -, -, hci, -⟩
    exact hci rfl
  simp [hc, hm, hn]

/-- A byte a sibling of the parent wrote between two that the child wrote is
lost. -/
theorem folded_byte_lost :
    as_vfork_flush (vf_stores (fun _ _ => 0#8) [(0, fun k => if k = 1 then 0#8 else 1#8)])
        (fun _ _ => 7#8) 0 1 ≠ 7#8 := by
  have hnear : Near (fun _ => 0#8) (fun k => if k = 1 then 0#8 else 1#8) 0 1 :=
    ⟨0, 2, by decide, by decide, by decide, by decide, by decide, by decide, by decide⟩
  have hlost := (foldl_apply_run (fun _ => 7#8)).1 hnear
  change (flush_page _ _ 0).foldl apply_run (fun _ => 7#8) 1 ≠ 7#8
  simp only [vf_stores, List.foldl_cons, List.foldl_nil, vf_store, Function.update_self]
  rw [hlost]
  decide

end track

end arm64emu
