import Arm64Emu.Mem.Translate

namespace arm64emu

def ROBUST_LIST_LIMIT : Nat := 2048
def G_FUTEX_WAITERS : u32 := 0x80000000#32
def G_FUTEX_OWNER_DIED : u32 := 0x40000000#32
def G_FUTEX_TID_MASK : u32 := 0x3fffffff#32

/-- What a page allows. -/
inductive PageMay
  | nothing | read | write
deriving DecidableEq

/-- The guest's memory, and the addresses a waiter has been woken at, the latest first. -/
structure RobustSt where
  byte : u64 → u8
  may : Nat → PageMay
  wakes : List u64

namespace RobustSt

def word (s : RobustSt) (a : u64) : u32 := s.byte (a + 3) ++ s.byte (a + 2) ++ s.byte (a + 1) ++ s.byte a

def copy_from_guest (s : RobustSt) (a : u64) : Option u64 :=
  if s.may (page_of a) = .nothing ∨ s.may (page_of (a + 7)) = .nothing then none else some (s.word (a + 4) ++ s.word a)

/-- The lock word at `u` marked, and a waiter woken if there may be one. -/
def died (s : RobustSt) (u : u64) (uval : u32) (pi : Bool) : RobustSt :=
  let mval := (uval &&& G_FUTEX_WAITERS) ||| G_FUTEX_OWNER_DIED
  { s with
    byte := fun a => if a - u < 4 then mval.extractLsb' (8 * (a - u).toNat) 8 else s.byte a
    wakes := if !pi ∧ uval &&& G_FUTEX_WAITERS ≠ 0 then u :: s.wakes else s.wakes }

theorem word_died (s : RobustSt) (u : u64) (uval : u32) (pi : Bool) :
    (s.died u uval pi).word u = (uval &&& G_FUTEX_WAITERS) ||| G_FUTEX_OWNER_DIED := by
  have hbyte (k : u64) (hk : k < 4) : (s.died u uval pi).byte (u + k) =
      ((uval &&& G_FUTEX_WAITERS) ||| G_FUTEX_OWNER_DIED).extractLsb' (8 * k.toNat) 8 := by
    have hsub : u + k - u = k := by rw [BitVec.add_comm, BitVec.add_sub_cancel]
    simp only [died, hsub, if_pos hk]
  have h0 : (s.died u uval pi).byte u = _ := BitVec.add_zero u ▸ hbyte 0#64 (by decide)
  rw [word, hbyte 3 (by decide), hbyte 2 (by decide), hbyte 1 (by decide), h0]
  rw [BitVec.extractLsb'_append_extractLsb'_eq_extractLsb' (by decide),
    BitVec.extractLsb'_append_extractLsb'_eq_extractLsb' (by decide),
    BitVec.extractLsb'_append_extractLsb'_eq_extractLsb' (by decide)]
  exact BitVec.extractLsb'_eq_self

/-- A mark of a word that has the thread's number is seen in memory. -/
theorem died_ne (s : RobustSt) (u : u64) (pi : Bool) (h : s.word u &&& G_FUTEX_TID_MASK ≠ 0) :
    s.died u (s.word u) pi ≠ s := by
  intro heq
  refine h ?_
  have hmask : G_FUTEX_WAITERS &&& G_FUTEX_TID_MASK = 0 ∧ G_FUTEX_TID_MASK &&& G_FUTEX_OWNER_DIED = 0 := by decide
  rw [← heq, word_died, BitVec.and_comm, BitVec.and_or_distrib_left, hmask.2, BitVec.and_comm, BitVec.and_assoc,
    hmask.1]
  simp

end RobustSt

section death

variable (tid : u32) (u : u64) (pi pending : Bool) (s : RobustSt)

/-- Whether to go on, and the memory. The exchange is not contended. -/
def robust_futex_death : Bool × RobustSt :=
  let uval := s.word u
  if u &&& 3 ≠ 0 then (false, s)
  else if s.may (page_of u) ≠ .write then (false, s)
  else if pending ∧ !pi ∧ uval &&& G_FUTEX_WAITERS = 0 then (true, s)
  else if uval &&& G_FUTEX_TID_MASK ≠ tid then (true, s)
  else (true, s.died u uval pi)

/-- The kernel's: it reads the word, and writes only one that it marks. -/
def handle_futex_death : Bool × RobustSt :=
  let uval := s.word u
  if u &&& 3 ≠ 0 then (false, s)
  else if s.may (page_of u) = .nothing then (false, s)
  else if pending ∧ !pi ∧ uval &&& G_FUTEX_TID_MASK = 0 then (true, { s with wakes := u :: s.wakes })
  else if uval &&& G_FUTEX_TID_MASK ≠ tid then (true, s)
  else if s.may (page_of u) ≠ .write then (false, s)
  else (true, s.died u uval pi)

/-- A lock word that may only be read and is not the thread's: the emulator gives up there, and the kernel goes on. -/
def ReadOnlyOther : Prop :=
  u &&& 3 = 0 ∧ s.may (page_of u) = .read ∧ s.word u &&& G_FUTEX_TID_MASK ≠ tid

instance : Decidable (ReadOnlyOther tid u s) := inferInstanceAs (Decidable (_ ∧ _ ∧ _))

/-- A pending word has an owner and, that being the thread, the waiters' bit. -/
def PendingAlike : Prop :=
  u &&& 3 = 0 → pi = false → s.may (page_of u) ≠ .nothing →
    s.word u &&& G_FUTEX_TID_MASK ≠ 0 ∧ (s.may (page_of u) = .write → s.word u &&& G_FUTEX_TID_MASK = tid →
      s.word u &&& G_FUTEX_WAITERS ≠ 0)

variable {tid u pi s}

theorem list_death_eq (h : ¬ ReadOnlyOther tid u s) :
    robust_futex_death tid u pi false s = handle_futex_death tid u pi false s := by
  unfold robust_futex_death handle_futex_death
  by_cases hal : u &&& 3 = 0
  · cases hmay : s.may (page_of u) with
    | read =>
      have htid : s.word u &&& G_FUTEX_TID_MASK = tid := by
        by_contra htid
        exact h ⟨hal, hmay, htid⟩
      simp [htid]
    | _ => simp
  · rw [if_pos hal, if_pos hal]

theorem ReadOnlyOther.gives_up (h : ReadOnlyOther tid u s) : robust_futex_death tid u pi false s = (false, s) := by
  simp [robust_futex_death, h.2.1]

theorem pending_death_iff (htid : tid ≠ 0) :
    (robust_futex_death tid u pi true s).2 = (handle_futex_death tid u pi true s).2 ↔ PendingAlike tid u pi s := by
  have hwake : s ≠ { s with wakes := u :: s.wakes } := fun h => List.cons_ne_self _ _ (congrArg RobustSt.wakes h).symm
  unfold robust_futex_death handle_futex_death PendingAlike
  by_cases hal : u &&& 3 = 0
  · have hdied := s.died_ne u pi
    cases hmay : s.may (page_of u) <;> cases pi <;> grind
  · rw [if_pos hal, if_pos hal]
    exact iff_of_true rfl fun h => absurd h hal

end death

section walk

variable (death : u64 → Bool → Bool → RobustSt → Bool × RobustSt) (head pending offset : u64)

/-- One entry: the next is read first, and the word handled unless it is the pending one's. -/
def robust_turn (entry : u64) (pi : Bool) (s : RobustSt) : Option u64 × RobustSt :=
  let next := s.copy_from_guest entry
  let r := if entry = pending then (true, s) else death (entry + offset) pi false s
  (if r.1 then next else none, r.2)

variable (pip : Bool)

/-- The walk from `entry` on, the pending entry at its end. -/
def robust_loop : Nat → u64 → Bool → RobustSt → RobustSt
  | 0, _, _, s => if pending = 0 then s else (death (pending + offset) pip true s).2
  | limit + 1, entry, pi, s =>
    if entry = head then if pending = 0 then s else (death (pending + offset) pip true s).2
    else match robust_turn death pending offset entry pi s with
      | (none, s) => s
      | (some next, s) => robust_loop limit (next &&& ~~~1) (next.getLsbD 0) s

/-- The walk, at most `ROBUST_LIST_LIMIT` entries long. -/
def robust_walk (s : RobustSt) : RobustSt :=
  match s.copy_from_guest head, s.copy_from_guest (head + 8), s.copy_from_guest (head + 16) with
  | some entry, some offset, some pend =>
    robust_loop death head (pend &&& ~~~1) offset (pend.getLsbD 0) ROBUST_LIST_LIMIT (entry &&& ~~~1)
      (entry.getLsbD 0) s
  | _, _, _ => s

variable (tid : u32)

/-- The kernel's walk from `entry` on comes to the pending entry, and its word is one the emulator treats alike; or it
comes to a lock word the emulator gives up at, and changes nothing from there on; or it ends before. -/
def LoopAlike : Nat → u64 → Bool → RobustSt → Prop
  | 0, _, _, s => pending = 0 ∨ PendingAlike tid (pending + offset) pip s
  | limit + 1, entry, pi, s =>
    if entry = head then pending = 0 ∨ PendingAlike tid (pending + offset) pip s
    else if entry ≠ pending ∧ ReadOnlyOther tid (entry + offset) s then
      robust_loop (handle_futex_death tid) head pending offset pip (limit + 1) entry pi s = s
    else match robust_turn (handle_futex_death tid) pending offset entry pi s with
      | (none, _) => True
      | (some next, s) => LoopAlike limit (next &&& ~~~1) (next.getLsbD 0) s

variable {head pending offset pip tid} {limit : Nat} {entry : u64} {pi : Bool} {s : RobustSt}

theorem turn_eq (h : ¬ (entry ≠ pending ∧ ReadOnlyOther tid (entry + offset) s)) :
    robust_turn (robust_futex_death tid) pending offset entry pi s =
      robust_turn (handle_futex_death tid) pending offset entry pi s := by
  unfold robust_turn
  split
  · rfl
  next hne => rw [list_death_eq fun hro => h ⟨hne, hro⟩]

theorem loop_alike_iff (htid : tid ≠ 0) :
    robust_loop (robust_futex_death tid) head pending offset pip limit entry pi s =
        robust_loop (handle_futex_death tid) head pending offset pip limit entry pi s ↔
      LoopAlike head pending offset pip tid limit entry pi s := by
  have hpend (s : RobustSt) : ((if pending = 0 then s else (robust_futex_death tid (pending + offset) pip true s).2) =
      if pending = 0 then s else (handle_futex_death tid (pending + offset) pip true s).2) ↔
      pending = 0 ∨ PendingAlike tid (pending + offset) pip s := by
    by_cases hp : pending = 0
    · rw [if_pos hp, if_pos hp]
      exact iff_of_true rfl (.inl hp)
    · rw [if_neg hp, if_neg hp, pending_death_iff htid, or_iff_right hp]
  induction limit generalizing entry pi s with
  | zero => exact hpend s
  | succ limit ih =>
    rw [LoopAlike]
    by_cases hhead : entry = head
    · rw [robust_loop, robust_loop, if_pos hhead, if_pos hhead, if_pos hhead]
      exact hpend s
    rw [if_neg hhead]
    by_cases hro : entry ≠ pending ∧ ReadOnlyOther tid (entry + offset) s
    · rw [if_pos hro]
      have hstop : robust_loop (robust_futex_death tid) head pending offset pip (limit + 1) entry pi s = s := by
        rw [robust_loop, if_neg hhead, robust_turn, if_neg hro.1, hro.2.gives_up]
        rfl
      rw [hstop, eq_comm]
    · rw [if_neg hro, robust_loop, robust_loop, if_neg hhead, if_neg hhead, turn_eq hro]
      split
      · exact iff_of_true rfl trivial
      · exact ih

end walk

section lists

variable (tid : u32) (head : u64) (s : RobustSt)

def robust_list_walk : RobustSt :=
  if head = 0 then s else robust_walk (robust_futex_death tid) head s

/-- The kernel's walk, which differs in what it does about a lock word. -/
def exit_robust_list : RobustSt :=
  if head = 0 then s else robust_walk (handle_futex_death tid) head s

/-- The walk of the list at `head` is one the kernel and the emulator end alike. -/
def WalkAlike : Prop :=
  head ≠ 0 → ∀ entry offset pend, s.copy_from_guest head = some entry → s.copy_from_guest (head + 8) = some offset →
    s.copy_from_guest (head + 16) = some pend → LoopAlike head (pend &&& ~~~1) offset (pend.getLsbD 0) tid
      ROBUST_LIST_LIMIT (entry &&& ~~~1) (entry.getLsbD 0) s

theorem robust_walk_iff (htid : tid ≠ 0) :
    robust_list_walk tid head s = exit_robust_list tid head s ↔ WalkAlike tid head s := by
  unfold robust_list_walk exit_robust_list WalkAlike
  by_cases hhead : head = 0
  · rw [if_pos hhead, if_pos hhead]
    exact iff_of_true rfl fun h => absurd hhead h
  rw [if_neg hhead, if_neg hhead]
  unfold robust_walk
  split
  next entry offset pend hentry hoffset hpend =>
    rw [loop_alike_iff htid]
    refine ⟨fun h _ e o p he ho hp => ?_, fun h => h hhead entry offset pend hentry hoffset hpend⟩
    obtain rfl := Option.some.inj (hentry.symm.trans he)
    obtain rfl := Option.some.inj (hoffset.symm.trans ho)
    obtain rfl := Option.some.inj (hpend.symm.trans hp)
    exact h
  next hnone => exact iff_of_true rfl fun _ e o p he ho hp => absurd hp (hnone e o p he ho)

/-- The threads of a process that dies at once, with their list heads, which are forgotten. -/
def robust_list_exit_group (thr_tab : List (u32 × u64)) : List (u32 × u64) × RobustSt :=
  (thr_tab.map fun t => (t.1, 0), thr_tab.foldl (fun s t => robust_list_walk t.1 t.2 s) s)

/-- The threads of a group that the kernel and the emulator treat alike, one after the other. -/
def GroupAlike (s : RobustSt) : List (u32 × u64) → Prop
  | [] => True
  | (tid, head) :: thr_tab => tid ≠ 0 ∧ WalkAlike tid head s ∧ GroupAlike (exit_robust_list tid head s) thr_tab

/-- Lock words are marked and waiters woken as by the kernel for just those lists whose walk is alike, and for a group
of such threads. -/
theorem robust_list_as_kernel (s : RobustSt) :
    (∀ tid head, tid ≠ 0 → (robust_list_walk tid head s = exit_robust_list tid head s ↔ WalkAlike tid head s)) ∧
      ∀ thr_tab, GroupAlike s thr_tab → (robust_list_exit_group s thr_tab).2 =
        thr_tab.foldl (fun s t => exit_robust_list t.1 t.2 s) s := by
  refine ⟨fun tid head htid => robust_walk_iff tid head s htid, fun thr_tab h => ?_⟩
  simp only [robust_list_exit_group]
  induction thr_tab generalizing s with
  | nil => rfl
  | cons t thr_tab ih =>
    obtain ⟨htid, halike, hrest⟩ := h
    rw [List.foldl_cons, List.foldl_cons, (robust_walk_iff t.1 t.2 s htid).2 halike]
    exact ih _ hrest

end lists

/-- A list that is empty but for a pending entry, with the lock word `w` at 0x2000. -/
def pending_mem (w : u8) : RobustSt where
  byte a := if a = 0x1001 then 0x10 else if a = 0x1011 then 0x20 else if a = 0x2000 then w else 0
  may _ := .write
  wakes := []

/-- The pending entry's lock word names another thread. -/
theorem robust_list_as_kernel_other :
    robust_list_walk 7 0x1000 (pending_mem 9) = exit_robust_list 7 0x1000 (pending_mem 9) := by
  refine ((robust_list_as_kernel _).1 7 _ (by decide)).2 fun _ entry offset pend hentry hoffset hpend => ?_
  obtain rfl : 0x1000#64 = entry := Option.some.inj hentry
  obtain rfl : 0#64 = offset := Option.some.inj hoffset
  obtain rfl : 0x2000#64 = pend := Option.some.inj hpend
  exact .inr fun _ _ _ => ⟨by decide, fun _ h => absurd h (by decide)⟩

/-- Of a pending word, the one with no owner wakes nobody, and the thread's own is not marked. -/
theorem pending_word_missed :
    (robust_list_walk 7 0x1000 (pending_mem 0)).wakes = [] ∧
    (exit_robust_list 7 0x1000 (pending_mem 0)).wakes = [0x2000] ∧
    (robust_list_walk 7 0x1000 (pending_mem 7)).word 0x2000 = 7 ∧
    (exit_robust_list 7 0x1000 (pending_mem 7)).word 0x2000 = G_FUTEX_OWNER_DIED := by
  decide

end arm64emu
