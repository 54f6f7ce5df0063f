import Mathlib
import Arm64Emu.Ipc.Rescan

open slots

namespace arm64emu

open Function Option

/-- A turn of the inner loop of `ipc_rescan`: the state it finds, what the host says
to it, and the waiter it comes to. -/
structure PassTurn where
  b : Broker
  h : Host
  i : Nat
  w : Waiter

/-- The turn grants its call: it is answered and waits no longer. -/
def PassTurn.grants (t : PassTurn) : Prop := (rescan_one t.h t.b t.i t.w).2 = true

/-- Every call parked longer than the one of the turn can only wait. -/
def PassTurn.in_order (t : PassTurn) : Prop :=
  ∀ j v, t.b.wait j = some v → v.seq < t.w.seq → Waits t.b v.id v.pid v.op

/-- The turns of one pass over the parked calls. -/
def pass_turns (h : Nat → Host) : Nat → Broker → Nat → List PassTurn
  | 0, _, _ => []
  | turns + 1, b, last =>
    match next_waiter b last with
    | none => []
    | some (i, w) => ⟨b, h w.seq, i, w⟩ :: pass_turns h turns (rescan_one (h w.seq) b i w).1 w.seq

/-- The turns of the passes until one does nothing. -/
def loop_turns (h : Nat → Nat → Host) : Nat → Broker → List (List PassTurn)
  | 0, _ => []
  | passes + 1, b =>
    let res := rescan_pass (h passes) IPC_WAITER_MAX b 0
    pass_turns (h passes) IPC_WAITER_MAX b 0 :: if res.2 then loop_turns h passes res.1 else []

def rescan_turns (h : Nat → Nat → Host) (b : Broker) : List (List PassTurn) := loop_turns h (IPC_WAITER_MAX + 1) b

def PassTurn.after (t : PassTurn) : Broker := (rescan_one t.h t.b t.i t.w).1

/-- The parked calls, the longest parked first. What a call blocks at may have
changed since. -/
structure Arrivals (b : Broker) (ws : List Waiter) : Prop where
  order : ws.Pairwise fun v w => v.seq < w.seq
  parked : ∀ i v, b.wait i = some v → ∃ w ∈ ws, SameCall w v
  listed : ∀ w ∈ ws, ∃ i v, b.wait i = some v ∧ SameCall w v

/-- The tables once a call has been tried on them. -/
def tried_one (h : Nat → Host) (b : Broker) (w : Waiter) : Broker := (attempt (h w.seq) b w.op w.id w.pid).1

/-- The calls `ws` are tried one after the other, behind those of `gone`, which had
to wait: where one need not wait, all of these have to wait still. -/
def NoneOvertaken (h : Nat → Host) : Broker → List Waiter → List Waiter → Prop
  | _, _, [] => True
  | b, gone, w :: ws =>
    (Waits b w.id w.pid w.op ∧ NoneOvertaken h (tried_one h b w) (gone ++ [w]) ws) ∨
      (¬Waits b w.id w.pid w.op ∧ (∀ v ∈ gone, Waits b v.id v.pid v.op) ∧ NoneOvertaken h (tried_one h b w) gone ws)

open Classical in
/-- Those of the calls that have to wait as they are tried. -/
noncomputable def left_waiting (h : Nat → Host) : Broker → List Waiter → List Waiter
  | _, [] => []
  | b, w :: ws => (if Waits b w.id w.pid w.op then [w] else []) ++ left_waiting h (tried_one h b w) ws

/-- In round after round over the calls that are left, as long as a round ends a
wait, none is overtaken. -/
def Orderly (h : Nat → Nat → Host) : Nat → Broker → List Waiter → Prop
  | 0, _, _ => True
  | rounds + 1, b, ws =>
    NoneOvertaken (h rounds) b [] ws ∧ ((left_waiting (h rounds) b ws).length < ws.length →
      Orderly h rounds (ws.foldl (tried_one (h rounds)) b) (left_waiting (h rounds) b ws))

/-- The tables of two states are the same; who waits may differ. -/
def SameTables (b c : Broker) : Prop := c.tab = b.tab ∧ c.msg = b.msg

section turns

variable {b c : Broker} {h : Nat → Host} {last turns i : Nat} {w v : Waiter} {ws gone : List Waiter}

theorem rescan_pass_turns (h : Nat → Host) (turns : Nat) (b : Broker) (last : Nat) :
    (rescan_pass h turns b last).1 = (pass_turns h turns b last).foldl (fun _ t => t.after) b := by
  induction turns generalizing b last with
  | zero => rfl
  | succ turns ih =>
    rw [rescan_pass, pass_turns]
    cases hnext : next_waiter b last with
    | none => rfl
    | some iw => exact ih _ _

theorem SameTables.waits {id pid : Int} {op : WaitOp} (hsame : SameTables b c) :
    Waits c id pid op ↔ Waits b id pid op := by
  unfold Waits
  rw [hsame.1, hsame.2]

theorem SameTables.attempt (hsame : SameTables b c) (h : Host) (op : WaitOp) (id pid : Int) :
    SameTables (attempt h b op id pid).1 (attempt h c op id pid).1 := by
  unfold arm64emu.attempt
  rw [hsame.1, hsame.2]
  split <;> split
  all_goals first | exact hsame | exact ⟨rfl, rfl⟩

theorem SameCall.waits (hsame : SameCall w v) : Waits b v.id v.pid v.op ↔ Waits b w.id w.pid w.op := by
  rcases hsame with rfl | ⟨k, rfl⟩
  · rfl
  · cases hop : w.op <;> rfl

theorem SameCall.attempt (hsame : SameCall w v) (h : Host) (b : Broker) :
    arm64emu.attempt h b v.op v.id v.pid = arm64emu.attempt h b w.op w.id w.pid := by
  rcases hsame with rfl | ⟨k, rfl⟩
  · rfl
  · cases hop : w.op <;> rfl

theorem rescan_one_waits (hok : b.tab.Ok) (hcall : SameCall w v) (h : Host) (i : Nat) :
    (rescan_one h b i v).2 = true ↔ ¬Waits b w.id w.pid w.op := by
  rw [← hcall.waits, ← attempt_block_iff hok h]
  rcases rescan_one_cases h b i v with ⟨k, hblk, heq⟩ | ⟨hne, heq⟩ <;> rw [heq]
  · exact iff_of_false Bool.false_ne_true (not_not.2 ⟨k, hblk⟩)
  · exact iff_of_true rfl fun ⟨k, hk⟩ => hne k hk

theorem rescan_one_tables (hsame : SameTables b c) (hcall : SameCall w v) :
    SameTables (rescan_one (h v.seq) b i v).1 (tried_one h c w) := by
  have htables := hsame.attempt (h w.seq) w.op w.id w.pid
  rw [← hcall.attempt _ b, ← hcall.seq_eq] at htables
  rw [tried_one, ← hcall.seq_eq]
  rcases rescan_one_cases (h v.seq) b i v with ⟨k, -, heq⟩ | ⟨-, heq⟩ <;> rw [heq]
  · exact htables
  · rw [SameTables, waiter_free, (settle_frame ..).2.2.2.1, (settle_frame ..).2.2.2.2]
    exact htables

theorem next_waiter_eq (hwait : WaitOk b) (hw : b.wait i = some w) (hlast : last < w.seq)
    (hmin : ∀ j v, b.wait j = some v → last < v.seq → w.seq ≤ v.seq) : next_waiter b last = some (i, w) := by
  cases hnext : next_waiter b last with
  | none => exact absurd (next_waiter_none hnext (hwait.bound i w hw) hw) (not_le.2 hlast)
  | some jv =>
    obtain ⟨j, v⟩ := jv
    obtain ⟨-, hv, hlastv, hminv⟩ := next_waiter_some hnext
    have hle := hmin j v hv hlastv
    have hle' := hminv i w (hwait.bound i w hw) hw hlast
    obtain rfl := hwait.unique i j w v hw hv (by omega)
    rw [hw, some.injEq] at hv
    rw [hv]

theorem Arrivals.next_none (harr : Arrivals b gone) (hgone : ∀ w ∈ gone, w.seq ≤ last) : next_waiter b last = none := by
  cases hnext : next_waiter b last with
  | none => rfl
  | some iv =>
    obtain ⟨-, hv, hlast, -⟩ := next_waiter_some hnext
    obtain ⟨w, hw, hcall⟩ := harr.parked _ _ hv
    rw [hcall.seq_eq] at hlast
    exact absurd (hgone w hw) (not_le.2 hlast)

theorem Arrivals.next (hwait : WaitOk b) (harr : Arrivals b (gone ++ w :: ws)) (hgone : ∀ v ∈ gone, v.seq ≤ last)
    (hlast : last < w.seq) : ∃ i v, b.wait i = some v ∧ SameCall w v ∧ next_waiter b last = some (i, v) := by
  obtain ⟨i, v, hv, hcall⟩ := harr.listed w (by simp)
  refine ⟨i, v, hv, hcall, next_waiter_eq hwait hv (by rw [hcall.seq_eq]; exact hlast) fun j v' hv' hlast' => ?_⟩
  obtain ⟨w', hw', hcall'⟩ := harr.parked j v' hv'
  rw [hcall'.seq_eq] at hlast' ⊢
  rw [hcall.seq_eq]
  rcases List.mem_append.1 hw' with hw' | hw'
  · exact absurd (hgone w' hw') (not_le.2 hlast')
  rcases List.mem_cons.1 hw' with rfl | hw'
  · exact le_rfl
  · exact ((List.pairwise_cons.1 (List.pairwise_append.1 harr.order).2.1).1 w' hw').le

/-- The calls listed stay listed as one of them is tried: it keeps its place if it
has to wait, and leaves the list if not. -/
theorem Arrivals.tried {b' : Broker} {o : Option Waiter} (hwait : WaitOk b) (harr : Arrivals b (gone ++ w :: ws))
    (hv : b.wait i = some v) (hcall : SameCall w v) (hb' : b'.wait = update b.wait i o)
    (ho : ∀ v', o = some v' → SameCall w v') : Arrivals b' (gone ++ ((o.map fun _ => w).toList ++ ws)) := by
  obtain ⟨hbefore, hafter⟩ : (∀ u ∈ gone, u.seq < w.seq) ∧ ∀ u ∈ ws, w.seq < u.seq :=
    ⟨fun u hu => (List.pairwise_append.1 harr.order).2.2 u hu w List.mem_cons_self,
      (List.pairwise_cons.1 (List.pairwise_append.1 harr.order).2.1).1⟩
  have hmem : ∀ u, u ∈ gone ++ ((o.map fun _ => w).toList ++ ws) ↔ u ∈ gone ++ ws ∨ (o.isSome = true ∧ u = w) := by
    intro u
    cases o
    · simp
    · simp
      tauto
  have hsub : (gone ++ ((o.map fun _ => w).toList ++ ws)).Sublist (gone ++ w :: ws) := by
    cases o <;> simp
  refine ⟨harr.order.sublist hsub, fun j x hx => ?_, fun u hu => ?_⟩
  · rw [hb'] at hx
    rcases update_some hx with ⟨rfl, rfl⟩ | ⟨hj, hx⟩
    · exact ⟨w, (hmem w).2 (.inr ⟨rfl, rfl⟩), ho x rfl⟩
    obtain ⟨u, hu, hux⟩ := harr.parked j x hx
    refine ⟨u, (hmem u).2 (.inl ?_), hux⟩
    rcases List.mem_append.1 hu with hu | hu
    · exact List.mem_append_left ws hu
    rcases List.mem_cons.1 hu with rfl | hu
    · exact absurd (hwait.unique j i x v hx hv (by rw [hux.seq_eq, hcall.seq_eq])) hj
    · exact List.mem_append_right gone hu
  rcases (hmem u).1 hu with hu | ⟨hsome, rfl⟩
  · obtain ⟨j, x, hx, hux⟩ := harr.listed u (hsub.subset ((hmem u).2 (.inl hu)))
    -- another call than the one tried
    have hne : j ≠ i := by
      rintro rfl
      rw [hv, some.injEq] at hx
      have heq : u.seq = w.seq := by rw [← hux.seq_eq, ← hx, hcall.seq_eq]
      rcases List.mem_append.1 hu with hu | hu
      · exact absurd heq (hbefore u hu).ne
      · exact absurd heq (hafter u hu).ne'
    exact ⟨j, x, by rw [hb', update_of_ne hne, hx], hux⟩
  · obtain ⟨v', rfl⟩ := isSome_iff_exists.1 hsome
    exact ⟨i, v', by rw [hb', update_self], ho v' rfl⟩

/-- What is parked longer than the call of the turn is what has been gone by. -/
theorem Arrivals.in_order_iff (harr : Arrivals b (gone ++ w :: ws)) (hcall : SameCall w v) (h : Host) (i : Nat) :
    PassTurn.in_order ⟨b, h, i, v⟩ ↔ ∀ u ∈ gone, Waits b u.id u.pid u.op := by
  have horder := List.pairwise_append.1 harr.order
  constructor
  · intro hall u hu
    obtain ⟨j, x, hx, hux⟩ := harr.listed u (List.mem_append_left _ hu)
    refine hux.waits.1 (hall j x hx ?_)
    rw [hux.seq_eq, hcall.seq_eq]
    exact horder.2.2 u hu w List.mem_cons_self
  intro hall j x hx hlt
  obtain ⟨u, hu, hux⟩ := harr.parked j x hx
  rw [hux.seq_eq, hcall.seq_eq] at hlt
  refine hux.waits.2 (hall u ((List.mem_append.1 hu).resolve_right fun hu => ?_))
  rcases List.mem_cons.1 hu with rfl | hu
  · exact lt_irrefl _ hlt
  · exact lt_asymm hlt ((List.pairwise_cons.1 horder.2.1).1 u hu)

theorem left_waiting_length (h : Nat → Host) (b : Broker) (ws : List Waiter) :
    (left_waiting h b ws).length ≤ ws.length := by
  induction ws generalizing b with
  | nil => exact le_rfl
  | cons w ws ih =>
    have hle := ih (tried_one h b w)
    rw [left_waiting, List.length_append, List.length_cons]
    split <;> simp only [List.length_cons, List.length_nil] <;> omega

/-- A pass over the calls `ws` to come, those of `gone` gone by: its grants are in
order exactly if none of these is overtaken, and it leaves the tables and the calls
that trying each once leaves. -/
theorem rescan_pass_arrivals (hok : b.tab.Ok) (hwait : WaitOk b) (hsame : SameTables b c)
    (harr : Arrivals b (gone ++ ws)) (hgone : ∀ w ∈ gone, w.seq ≤ last) (hcome : ∀ w ∈ ws, last < w.seq)
    (hturns : to_come b last ≤ turns) :
    ((∀ t ∈ pass_turns h turns b last, t.grants → t.in_order) ↔ NoneOvertaken h c gone ws) ∧
      SameTables (rescan_pass h turns b last).1 (ws.foldl (tried_one h) c) ∧
      Arrivals (rescan_pass h turns b last).1 (gone ++ left_waiting h c ws) ∧
      ((rescan_pass h turns b last).2 = true ↔ (left_waiting h c ws).length < ws.length) := by
  induction ws generalizing b c gone last turns with
  | nil =>
    rw [List.append_nil] at harr
    have hnone := harr.next_none hgone
    have hpass : rescan_pass h turns b last = (b, false) ∧ pass_turns h turns b last = [] := by
      cases turns with
      | zero => exact ⟨rfl, rfl⟩
      | succ turns => rw [rescan_pass, pass_turns, hnone]; exact ⟨rfl, rfl⟩
    rw [hpass.1, hpass.2, left_waiting, List.append_nil]
    exact ⟨by simp [NoneOvertaken], hsame, harr, by simp⟩
  | cons w ws ih =>
    obtain ⟨i, v, hv, hcall, hnext⟩ := harr.next hwait hgone (hcome w List.mem_cons_self)
    have hless := rescan_one_to_come (h := h v.seq) hnext
    cases turns with
    | zero => omega
    | succ turns =>
      obtain ⟨o, ho, hkept, hfree⟩ := rescan_one_wait (h v.seq) b i v
      have hone := rescan_one_waits hok hcall (h v.seq) i
      have harr' := harr.tried hwait hv hcall ho fun v' hv' => hcall.trans (hkept v' hv')
      have hturn := harr.in_order_iff hcall (h v.seq) i
      have hlast : v.seq = w.seq ∧ last < w.seq := ⟨hcall.seq_eq, hcome w List.mem_cons_self⟩
      have hcome' : ∀ u ∈ ws, v.seq < u.seq := fun u hu => by
        rw [hlast.1]
        exact (List.pairwise_cons.1 (List.pairwise_append.1 harr.order).2.1).1 u hu
      have hgone' : ∀ u ∈ gone, u.seq ≤ v.seq := fun u hu => by
        have hle := hgone u hu
        omega
      have hrest : ∀ gone', Arrivals (rescan_one (h v.seq) b i v).1 (gone' ++ ws) → (∀ u ∈ gone', u.seq ≤ v.seq) → _ :=
        fun gone' harr' hgone' => ih (rescan_one_ok hok (h v.seq) i v)
          (hwait.shrinks (rescan_one_shrinks (h := h v.seq) hv)) (rescan_one_tables (h := h) (i := i) hsame hcall)
          harr' hgone' hcome' (Nat.le_of_lt_succ (hless.trans_le hturns))
      rw [rescan_pass, pass_turns, hnext]
      dsimp only
      rw [List.forall_mem_cons, Bool.or_eq_true, List.foldl_cons, left_waiting, NoneOvertaken, hsame.waits]
      rw [hone] at hfree
      by_cases hw : Waits b w.id w.pid w.op
      · obtain ⟨v', rfl⟩ := ne_none_iff_exists'.1 fun hnone => hfree.2 hnone hw
        obtain ⟨horder, htables, hleft, hprogress⟩ := hrest (gone ++ [w]) (by simpa using harr') fun u hu => by
          rcases List.mem_append.1 hu with hu | hu
          · exact hgone' u hu
          · rw [List.mem_singleton.1 hu, hlast.1]
        have hno : ¬(rescan_one (h v.seq) b i v).2 = true := fun hgrant => hone.1 hgrant hw
        rw [if_pos hw, ← horder]
        refine ⟨⟨fun hall => .inl ⟨hw, hall.2⟩, ?_⟩, htables, by rwa [List.append_assoc] at hleft, ?_⟩
        · rintro (⟨-, hall⟩ | ⟨hnot, -⟩)
          · exact ⟨fun hgrant => absurd hgrant hno, hall⟩
          · exact absurd hw hnot
        · rw [or_iff_right hno, hprogress, List.singleton_append, List.length_cons, List.length_cons,
            Nat.add_lt_add_iff_right]
      · obtain rfl := hfree.1 hw
        obtain ⟨horder, htables, hleft, -⟩ := hrest gone harr' hgone'
        simp only [if_neg hw, ← horder, hsame.waits, ← hturn]
        refine ⟨⟨fun hall => .inr ⟨hw, hall.1 (hone.2 hw), hall.2⟩, ?_⟩, htables, hleft, ?_⟩
        · rintro (⟨hyes, -⟩ | ⟨-, hturn, hall⟩)
          · exact absurd hyes hw
          · exact ⟨fun _ => hturn, hall⟩
        · exact iff_of_true (.inl (hone.2 hw)) (Nat.lt_succ_of_le (left_waiting_length h _ ws))

end turns

section loop

variable {b c : Broker} {ws : List Waiter}

theorem rescan_loop_turns (h : Nat → Nat → Host) (passes : Nat) (b : Broker) :
    rescan_loop h passes b = (loop_turns h passes b).flatten.foldl (fun _ t => t.after) b := by
  induction passes generalizing b with
  | zero => rfl
  | succ passes ih =>
    have hstate := rescan_pass_turns (h passes) IPC_WAITER_MAX b 0
    rw [rescan_loop, loop_turns, List.flatten_cons, List.foldl_append, ← hstate]
    split
    · exact ih _
    · rfl

theorem loop_in_order_iff (h : Nat → Nat → Host) (passes : Nat) (hok : b.tab.Ok) (hwait : WaitOk b)
    (hsame : SameTables b c) (harr : Arrivals b ws) :
    (∀ turns ∈ loop_turns h passes b, ∀ t ∈ turns, t.grants → t.in_order) ↔ Orderly h passes c ws := by
  induction passes generalizing b c ws with
  | zero => simp [loop_turns, Orderly]
  | succ passes ih =>
    have hpos : ∀ w ∈ ws, 0 < w.seq := by
      intro w hw
      obtain ⟨i, v, hv, hcall⟩ := harr.listed w hw
      rw [← hcall.seq_eq]
      exact (hwait.seq i v hv).1
    have hfirst : Arrivals b ([] ++ ws) := harr
    obtain ⟨horder, htables, hleft, hprogress⟩ := rescan_pass_arrivals (h := h passes) hok hwait hsame hfirst
      (fun w hw => nomatch hw) hpos (count_le_cap _ _ _)
    rw [loop_turns, Orderly, ← horder, ← hprogress, List.forall_mem_cons]
    refine and_congr_right fun _ => ?_
    split
    next hmore =>
      rw [imp_iff_right hmore]
      refine ih ?_ ?_ htables hleft
      · exact rescan_pass_induction (P := fun b => b.tab.Ok) _ _ _ (fun h b i w hb _ => rescan_one_ok hb h i w) hok
      · exact rescan_pass_induction (P := WaitOk) _ _ _ (fun h b i w hb hw => hb.shrinks (rescan_one_shrinks hw)) hwait
    next hstop => exact iff_of_true (fun turns hturns => nomatch hturns) fun hmore => absurd hmore hstop

end loop

/-- A queue with room for one message, in slot 0. -/
def one_queue (q : MsgQ) : MsgTab := ⟨update (fun _ => none) 0 (some q), 2⟩

def lone_queue : MsgQ :=
  { msqid := 1, perm := ⟨0, 0o600#32, 0, 0, 0, 0⟩, stime := 0, rtime := 0, ctime := 0, cbytes := 0, qnum := 0,
    qbytes := 1, lspid := 0, lrpid := 0, cpid := 0, tpid := 0, msgs := [] }

/-- A receive and, behind it, a send and another receive of the same type. -/
def lone_waiter : Nat → Waiter
  | 0 => ⟨1, .rcv 1 8 0#32, 1, 11, 1, 1, -1⟩
  | 1 => ⟨2, .snd ⟨1, []⟩, 1, 12, 1, 2, -1⟩
  | _ => ⟨3, .rcv 1 8 0#32, 1, 13, 1, 3, -1⟩

/-- The queue has just been emptied of what kept the send waiting; parked are the
calls from the `first` on. -/
def lone_broker (first : Nat) : Broker :=
  ⟨.empty, one_queue lone_queue, fun i => if first ≤ i ∧ i < 3 then some (lone_waiter i) else none, 4, 0, [], []⟩

section lone

variable {b : Broker} {first : Nat} {pid : Int}

theorem one_queue_msq (q : MsgQ) : (one_queue q).msq = update (fun _ => none) 0 (some q) := rfl

theorem one_queue_find {q : MsgQ} (hq : q.msqid = 1) : msg_find (one_queue q) 1 = some (0, q) := by
  have hfind : (find MSG_QUEUE_MAX (one_queue q).msq fun q' => q'.msqid = 1) = some 0 := by
    rw [one_queue_msq]
    refine find_unique (fun j k a b ha hb _ _ => ?_) (by decide) (update_self ..) (decide_eq_true hq)
    rcases update_some ha with ⟨rfl, -⟩ | ⟨-, hnone⟩
    · rcases update_some hb with ⟨rfl, -⟩ | ⟨-, hnone⟩
      · rfl
      · cases hnone
    · cases hnone
  rw [msg_find, if_neg (by decide), hfind, bind_some, one_queue_msq, update_self, map_some]

theorem lone_wait_cases {j : Nat} {v : Waiter} (hv : (lone_broker first).wait j = some v) :
    first ≤ j ∧ j < 3 ∧ v = lone_waiter j ∧ v.seq = j + 1 := by
  have hsome : (if first ≤ j ∧ j < 3 then some (lone_waiter j) else none) = some v := hv
  split at hsome
  next hj =>
    cases hsome
    have hlt := hj.2
    refine ⟨hj.1, hj.2, rfl, ?_⟩
    interval_cases j <;> rfl
  next => cases hsome

theorem lone_waitOk : WaitOk (lone_broker first) := by
  refine ⟨fun i w hw => ?_, fun i w hw => ?_, fun i j w v hw hv hseq => ?_, Nat.succ_pos 3⟩
  · have hi := (lone_wait_cases hw).2.1
    unfold IPC_WAITER_MAX
    omega
  · obtain ⟨-, hi, -, hseq⟩ := lone_wait_cases hw
    have hnext : (lone_broker first).wait_seq = 4 := rfl
    omega
  have hi := (lone_wait_cases hw).2.2.2
  have hj := (lone_wait_cases hv).2.2.2
  omega

theorem lone_rcv_waits (hmsg : b.msg = one_queue lone_queue) : Waits b 1 pid (.rcv 1 8 0#32) := by
  refine ⟨0, lone_queue, ?_, fun m hm => nomatch hm⟩
  rw [hmsg]
  exact one_queue_find rfl

theorem lone_rcv_done {h : Host} {spid : Int} (hmsg : b.msg = one_queue (msg_enqueue h lone_queue ⟨1, []⟩ spid)) :
    ¬Waits b 1 pid (.rcv 1 8 0#32) := by
  rintro ⟨i, q, hfind, hnone⟩
  rw [hmsg, one_queue_find rfl] at hfind
  cases hfind
  exact hnone ⟨1, []⟩ List.mem_cons_self (.inr (.inl ⟨by decide, rfl⟩))

theorem lone_snd_fits (hmsg : b.msg = one_queue lone_queue) : ¬Waits b 1 pid (.snd ⟨1, []⟩) := by
  rintro ⟨i, q, hfind, hfull⟩
  rw [hmsg, one_queue_find rfl] at hfind
  cases hfind
  exact absurd hfull (by decide)

theorem lone_rcv_tried (h : Nat → Host) (hmsg : b.msg = one_queue lone_queue) :
    (tried_one h b (lone_waiter 0)).msg = one_queue lone_queue := by
  have hpick : msg_pick lone_queue 1 0#32 = none := rfl
  simp only [tried_one, lone_waiter, attempt, hmsg, one_queue_find (q := lone_queue) rfl, msg_try_rcv, hpick]

theorem lone_snd_tried (h : Nat → Host) (hmsg : b.msg = one_queue lone_queue) :
    (tried_one h b (lone_waiter 1)).msg = one_queue (msg_enqueue (h 2) lone_queue ⟨1, []⟩ 12) := by
  have hfits : msg_fits lone_queue (GMsg.size ⟨1, []⟩) = true := by decide
  simp only [tried_one, lone_waiter, attempt, hmsg, one_queue_find (q := lone_queue) rfl, msg_try_snd, hfits, if_true]
  simp only [one_queue, update_idem]

theorem lone_arrivals (first : Nat) :
    Arrivals (lone_broker first) ((List.range' first (3 - first)).map lone_waiter) := by
  have hmem : ∀ i, i ∈ List.range' first (3 - first) ↔ first ≤ i ∧ i < 3 := by
    intro i
    rw [List.mem_range'_1]
    omega
  have hparked : ∀ i, first ≤ i ∧ i < 3 → (lone_broker first).wait i = some (lone_waiter i) := fun i hi => if_pos hi
  refine ⟨List.pairwise_map.2 ?_, fun i v hv => ?_, fun w hw => ?_⟩
  · refine List.Pairwise.imp_of_mem (fun {i j} hi hj hlt => ?_) (List.pairwise_lt_range' (s := first) (n := 3 - first))
    rw [(lone_wait_cases (hparked i ((hmem i).1 hi))).2.2.2, (lone_wait_cases (hparked j ((hmem j).1 hj))).2.2.2]
    exact Nat.succ_lt_succ hlt
  · obtain ⟨hfirst, hi, rfl, -⟩ := lone_wait_cases hv
    exact ⟨lone_waiter i, List.mem_map_of_mem ((hmem i).2 ⟨hfirst, hi⟩), .inl rfl⟩
  · obtain ⟨i, hi, rfl⟩ := List.mem_map.1 hw
    exact ⟨i, lone_waiter i, hparked i ((hmem i).1 hi), .inl rfl⟩

/-- The receive goes on waiting, the send puts its message into the queue, and the
other receive takes it. -/
theorem lone_overtakes (h : Nat → Nat → Host) (n : Nat) :
    ¬Orderly h (n + 1) (lone_broker 0) [lone_waiter 0, lone_waiter 1, lone_waiter 2] := by
  rintro ⟨hnone, -⟩
  have hmsg₁ := lone_rcv_tried (h n) (b := lone_broker 0) rfl
  have hmsg₂ := lone_snd_tried (h n) hmsg₁
  rcases hnone with ⟨-, hnone⟩ | ⟨hno, -⟩
  · rcases hnone with ⟨hwaits, -⟩ | ⟨-, -, hnone⟩
    · exact lone_snd_fits hmsg₁ hwaits
    rcases hnone with ⟨hwaits, -⟩ | ⟨-, hgone, -⟩
    · exact lone_rcv_done hmsg₂ hwaits
    · exact lone_rcv_done hmsg₂ (hgone (lone_waiter 0) List.mem_cons_self)
  · exact hno (lone_rcv_waits rfl)

/-- With the send and the receive behind it alone nothing is overtaken. -/
theorem lone_orderly (h : Nat → Nat → Host) (n : Nat) :
    Orderly h (n + 1) (lone_broker 1) [lone_waiter 1, lone_waiter 2] := by
  have hmsg := lone_snd_tried (h n) (b := lone_broker 1) rfl
  have hsnd : ¬Waits (lone_broker 1) (lone_waiter 1).id (lone_waiter 1).pid (lone_waiter 1).op := lone_snd_fits rfl
  have hrcv : ¬Waits (tried_one (h n) (lone_broker 1) (lone_waiter 1)) (lone_waiter 2).id (lone_waiter 2).pid
      (lone_waiter 2).op := lone_rcv_done hmsg
  have hgone (b : Broker) : ∀ v ∈ ([] : List Waiter), Waits b v.id v.pid v.op := fun v hv => nomatch hv
  refine ⟨Or.inr ⟨hsnd, hgone _, Or.inr ⟨hrcv, hgone _, trivial⟩⟩, fun _ => ?_⟩
  have hleft : left_waiting (h n) (lone_broker 1) [lone_waiter 1, lone_waiter 2] = [] := by
    rw [left_waiting, left_waiting, left_waiting, if_neg hsnd, if_neg hrcv]
    rfl
  rw [hleft]
  cases n with
  | zero => trivial
  | succ n => exact ⟨trivial, fun hless => absurd hless (lt_irrefl _)⟩

end lone

end arm64emu
