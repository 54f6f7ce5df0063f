import Mathlib
import Arm64Emu.Ipc.Broker
import Arm64Emu.Ipc.Queue
import Arm64Emu.Ipc.Scan

open slots

namespace arm64emu

open Function Option

/-- An operation that can only wait on the current state. -/
def Stuck (b : Broker) (id pid : Int) : WaitOp → Prop
  | .sem sops _ => ∃ i s k, s.semid = id ∧ SemStuck b.tab sops pid i s k
  | .snd m => ∃ i q, msg_find b.msg id = some (i, q) ∧ msg_fits q m.size = false
  | .rcv msgtyp _ msgflg => ∃ i q, msg_find b.msg id = some (i, q) ∧ msg_pick q msgtyp msgflg = none

/-- On these tables the call can neither be completed nor has it to fail: its set is
there and the scan of its vector blocks, its queue has no room for the message, or
none of the type asked for. -/
def Waits (b : Broker) (id pid : Int) : WaitOp → Prop
  | .sem sops _ => ∃ i s k, b.tab.sem i = some s ∧ s.semid = id ∧ (∀ op ∈ sops, op.sem_num < s.nsems) ∧
      sem_scan sops 0 s.val (pid_adj b.tab.undo pid id) (undo_room b.tab.undo pid id) = some (k, .block)
  | .snd m => ∃ i q, msg_find b.msg id = some (i, q) ∧ msg_fits q m.size = false
  | .rcv msgtyp _ msgflg => ∃ i q, msg_find b.msg id = some (i, q) ∧ ∀ m ∈ q.msgs, ¬Wanted msgtyp msgflg m

/-- Nothing has happened to the tables but that rows of zeros were added. -/
structure TablesQuiet (b b' : Broker) : Prop where
  msg : b'.msg = b.msg
  sem : b'.tab.sem = b.tab.sem
  undo : Grows b.tab.undo b'.tab.undo

section attempt

variable {b b' b'' : Broker} {h : Host} {op : WaitOp} {id pid : Int} {k : Nat}

theorem Grows.refl {undo : Table SemUndo} (hok : UndoOk undo) : Grows undo undo :=
  ⟨hok, fun _ _ hu => hu, fun _ _ => rfl⟩

theorem Grows.trans {undo undo' undo'' : Table SemUndo} (h : Grows undo undo') (h' : Grows undo' undo'') :
    Grows undo undo'' :=
  ⟨h'.ok, fun j u hu => h'.rows j u (h.rows j u hu), fun pid semid => (h'.adj pid semid).trans (h.adj pid semid)⟩

theorem TablesQuiet.refl (hok : b.tab.Ok) : TablesQuiet b b := ⟨rfl, rfl, .refl hok.undo⟩

theorem TablesQuiet.trans (h : TablesQuiet b b') (h' : TablesQuiet b' b'') : TablesQuiet b b'' :=
  ⟨h'.msg.trans h.msg, h'.sem.trans h.sem, h.undo.trans h'.undo⟩

theorem Stuck.quiet (hstuck : Stuck b id pid op) (hok : b.tab.Ok) (hq : TablesQuiet b b') : Stuck b' id pid op := by
  cases op with
  | sem sops blk =>
    obtain ⟨i, s, k, hid, hsem⟩ := hstuck
    exact ⟨i, s, k, hid, hsem.grows hok hq.sem hq.undo⟩
  | snd m | rcv msgtyp msgsz msgflg =>
    unfold Stuck
    rw [hq.msg]
    exact hstuck

theorem stuck_set_blk : Stuck b id pid (op.set_blk k) ↔ Stuck b id pid op := by
  cases op <;> rfl

theorem all_small {s : SemSet} {sops : List Sembuf} :
    ¬sops.any (fun op => s.nsems ≤ op.sem_num) = true ↔ ∀ op ∈ sops, op.sem_num < s.nsems := by simp

theorem Stuck.waits (hstuck : Stuck b id pid op) : Waits b id pid op := by
  cases op with
  | sem sops blk =>
    obtain ⟨i, s, k, rfl, hsem⟩ := hstuck
    exact ⟨i, s, k, hsem.set, rfl, all_small.1 hsem.small, hsem.scan⟩
  | snd m => exact hstuck
  | rcv msgtyp msgsz msgflg =>
    obtain ⟨i, q, hfind, hpick⟩ := hstuck
    exact ⟨i, q, hfind, msg_pick_none.1 hpick⟩

theorem Waits.blocks (hwaits : Waits b id pid op) (hok : b.tab.Ok) (h : Host) :
    ∃ k, (attempt h b op id pid).2 = .block k := by
  cases op with
  | sem sops blk =>
    obtain ⟨i, s, k, hs, rfl, hsmall, hscan⟩ := hwaits
    refine ⟨k, ?_⟩
    have hblk := (sem_try_op_block_iff hok hs h sops pid).2 ⟨all_small.2 hsmall, hscan⟩
    simp only [attempt, sem_find_of_mem hok hs, hblk, sem_outcome]
  | snd m =>
    obtain ⟨i, q, hfind, hfits⟩ := hwaits
    refine ⟨0, ?_⟩
    simp only [attempt, hfind, msg_try_snd, hfits, Bool.false_eq_true, if_false]
  | rcv msgtyp msgsz msgflg =>
    obtain ⟨i, q, hfind, hnone⟩ := hwaits
    refine ⟨0, ?_⟩
    simp only [attempt, hfind, msg_try_rcv, msg_pick_none.2 hnone]

theorem attempt_ok (hok : b.tab.Ok) (h : Host) (op : WaitOp) (id pid : Int) : (attempt h b op id pid).1.tab.Ok := by
  cases op with
  | sem sops blk =>
    unfold attempt
    dsimp only
    split
    · exact hok
    next i s hfind => exact sem_try_op_ok hok (sem_find_some hfind).1 sops pid
  | snd m | rcv msgtyp msgsz msgflg =>
    unfold attempt
    dsimp only
    split <;> exact hok

theorem msg_try_snd_block {t : MsgTab} {i : Nat} {q : MsgQ} {m : GMsg}
    (hres : (msg_try_snd h t i q m pid).2 = .block k) :
    msg_fits q m.size = false ∧ (msg_try_snd h t i q m pid).1 = t := by
  unfold msg_try_snd at hres ⊢
  split at hres
  · cases hres
  next hfits => exact ⟨Bool.eq_false_iff.2 hfits, by rw [if_neg hfits]⟩

theorem msg_try_rcv_block {t : MsgTab} {i : Nat} {q : MsgQ} {msgtyp : Int} {msgsz : Nat} {msgflg : BitVec 32}
    (hres : (msg_try_rcv h t i q msgtyp msgsz msgflg pid).2 = .block k) :
    msg_pick q msgtyp msgflg = none ∧ (msg_try_rcv h t i q msgtyp msgsz msgflg pid).1 = t := by
  unfold msg_try_rcv at hres ⊢
  split at hres
  next hpick => exact ⟨hpick, rfl⟩
  split at hres
  · cases hres
  · cases hres

theorem sem_outcome_block {res : TryResult} (hres : sem_outcome res = .block k) : res = .block k := by
  cases res with
  | block blk =>
    cases hres
    rfl
  | applied => cases hres
  | error e => cases hres

theorem attempt_block (hok : b.tab.Ok) (hres : (attempt h b op id pid).2 = .block k) :
    TablesQuiet b (attempt h b op id pid).1 ∧ Stuck (attempt h b op id pid).1 id pid op := by
  cases op with
  | sem sops blk =>
    unfold attempt at hres ⊢
    dsimp only at hres ⊢
    split at hres
    · cases hres
    rename_i i s hfind
    obtain ⟨hs, rfl⟩ := sem_find_some hfind
    have hblk := sem_outcome_block hres
    have hstuck := sem_try_op_block hok hs hblk
    have hne : (sem_try_op h b.tab i s sops pid).2 ≠ .applied := by
      rw [hblk]
      exact TryResult.noConfusion
    obtain ⟨hsem, hext, -⟩ := sem_try_op_refused hok hs hne
    exact ⟨⟨rfl, hsem, hext.grows hok.undo⟩, i, s, k, rfl, hstuck⟩
  | snd m =>
    unfold attempt at hres ⊢
    dsimp only at hres ⊢
    split at hres
    · cases hres
    rename_i i q hfind
    obtain ⟨hfits, hsame⟩ := msg_try_snd_block hres
    rw [hsame]
    exact ⟨.refl hok, i, q, hfind, hfits⟩
  | rcv msgtyp msgsz msgflg =>
    unfold attempt at hres ⊢
    dsimp only at hres ⊢
    split at hres
    · cases hres
    rename_i i q hfind
    obtain ⟨hpick, hsame⟩ := msg_try_rcv_block hres
    rw [hsame]
    exact ⟨.refl hok, i, q, hfind, hpick⟩

theorem attempt_block_waits (hok : b.tab.Ok) (hres : (attempt h b op id pid).2 = .block k) : Waits b id pid op := by
  cases op with
  | sem sops blk =>
    unfold attempt at hres
    dsimp only at hres
    split at hres
    · cases hres
    rename_i i s hfind
    obtain ⟨hs, rfl⟩ := sem_find_some hfind
    obtain ⟨hsmall, hscan⟩ := (sem_try_op_block_iff hok hs h sops pid).1 (sem_outcome_block hres)
    exact ⟨i, s, k, hs, rfl, all_small.1 hsmall, hscan⟩
  | snd m | rcv msgtyp msgsz msgflg =>
    -- the queues are as they were
    obtain ⟨hquiet, hstuck⟩ := attempt_block hok hres
    have hwaits := hstuck.waits
    unfold Waits at hwaits ⊢
    rwa [hquiet.msg] at hwaits

/-- An attempt blocks exactly if the call can only wait. -/
theorem attempt_block_iff (hok : b.tab.Ok) (h : Host) :
    (∃ k, (attempt h b op id pid).2 = .block k) ↔ Waits b id pid op :=
  ⟨fun ⟨_, hres⟩ => attempt_block_waits hok hres, fun hwaits => hwaits.blocks hok h⟩

end attempt

def SameCall (w w' : Waiter) : Prop := w' = w ∨ ∃ blk, w' = { w with op := w.op.set_blk blk }

/-- Calls were answered and none parked. -/
structure Shrinks (b b' : Broker) : Prop where
  wait : ∀ j w', b'.wait j = some w' → ∃ w, b.wait j = some w ∧ SameCall w w'
  seq : b'.wait_seq = b.wait_seq
  now : b'.now = b.now

/-- The parked calls have slots in range and numbers of their own. -/
structure WaitOk (b : Broker) : Prop where
  bound : ∀ i w, b.wait i = some w → i < IPC_WAITER_MAX
  seq : ∀ i w, b.wait i = some w → 0 < w.seq ∧ w.seq < b.wait_seq
  unique : ∀ i j w v, b.wait i = some w → b.wait j = some v → w.seq = v.seq → i = j
  pos : 0 < b.wait_seq

def AllStuck (b : Broker) : Prop := ∀ i w, b.wait i = some w → Stuck b w.id w.pid w.op

section waiters

variable {b b' b'' : Broker} {w w' w'' : Waiter} {h : Host} {i j last turns : Nat}

theorem SameCall.trans (h : SameCall w w') (h' : SameCall w' w'') : SameCall w w'' := by
  rcases h' with rfl | ⟨blk, rfl⟩
  · exact h
  rcases h with rfl | ⟨blk', rfl⟩
  · exact .inr ⟨blk, rfl⟩
  refine .inr ⟨blk, ?_⟩
  cases w with
  | mk cfd op id pid start seq deadline => cases op <;> rfl

theorem SameCall.seq_eq (h : SameCall w w') : w'.seq = w.seq := by
  rcases h with rfl | ⟨blk, rfl⟩ <;> rfl

theorem SameCall.stuck (h : SameCall w w') (hstuck : Stuck b w.id w.pid w.op) : Stuck b w'.id w'.pid w'.op := by
  rcases h with rfl | ⟨blk, rfl⟩
  · exact hstuck
  · exact stuck_set_blk.2 hstuck

theorem Shrinks.refl (b : Broker) : Shrinks b b := ⟨fun _ w hw => ⟨w, hw, .inl rfl⟩, rfl, rfl⟩

theorem Shrinks.trans (h : Shrinks b b') (h' : Shrinks b' b'') : Shrinks b b'' := by
  refine ⟨fun j w'' hw'' => ?_, h'.seq.trans h.seq, h'.now.trans h.now⟩
  obtain ⟨w', hw', hsame'⟩ := h'.wait j w'' hw''
  obtain ⟨w, hw, hsame⟩ := h.wait j w' hw'
  exact ⟨w, hw, hsame.trans hsame'⟩

theorem WaitOk.shrinks (hok : WaitOk b) (hs : Shrinks b b') : WaitOk b' := by
  refine ⟨fun i w' hw' => ?_, fun i w' hw' => ?_, fun i j w' v' hw' hv' hseq => ?_, hs.seq ▸ hok.pos⟩
  · obtain ⟨w, hw, -⟩ := hs.wait i w' hw'
    exact hok.bound i w hw
  · obtain ⟨w, hw, hsame⟩ := hs.wait i w' hw'
    rw [hsame.seq_eq, hs.seq]
    exact hok.seq i w hw
  obtain ⟨w, hw, hsame⟩ := hs.wait i w' hw'
  obtain ⟨v, hv, hsame'⟩ := hs.wait j v' hv'
  rw [hsame.seq_eq, hsame'.seq_eq] at hseq
  exact hok.unique i j w v hw hv hseq

theorem attempt_frame (h : Host) (b : Broker) (op : WaitOp) (id pid : Int) :
    (attempt h b op id pid).1.wait = b.wait ∧ (attempt h b op id pid).1.wait_seq = b.wait_seq ∧
      (attempt h b op id pid).1.now = b.now ∧ (attempt h b op id pid).1.sent = b.sent ∧
      (attempt h b op id pid).1.took = b.took := by
  unfold attempt
  split <;> split <;> exact ⟨rfl, rfl, rfl, rfl, rfl⟩

theorem rescan_one_cases (h : Host) (b : Broker) (i : Nat) (w : Waiter) :
    (∃ k, (attempt h b w.op w.id w.pid).2 = .block k ∧ rescan_one h b i w =
        ({ (attempt h b w.op w.id w.pid).1 with
            wait := update b.wait i (some { w with op := w.op.set_blk k }) }, false)) ∨
      ((∀ k, (attempt h b w.op w.id w.pid).2 ≠ .block k) ∧ rescan_one h b i w =
        (waiter_free (settle (attempt h b w.op w.id w.pid).1 w.cfd (attempt h b w.op w.id w.pid).2) i, true)) := by
  have hframe := (attempt_frame h b w.op w.id w.pid).1
  unfold rescan_one
  split
  next b' k hatt =>
    rw [hatt] at hframe ⊢
    rw [hframe]
    exact .inl ⟨k, rfl, rfl⟩
  rename_i b' res hblk hatt
  rw [hatt]
  exact .inr ⟨hblk, rfl⟩

theorem settle_frame (b : Broker) (c : Nat) (res : CallOutcome) :
    (settle b c res).wait = b.wait ∧ (settle b c res).wait_seq = b.wait_seq ∧ (settle b c res).now = b.now ∧
      (settle b c res).tab = b.tab ∧ (settle b c res).msg = b.msg := by
  cases res <;> exact ⟨rfl, rfl, rfl, rfl, rfl⟩

theorem rescan_one_ok (hok : b.tab.Ok) (h : Host) (i : Nat) (w : Waiter) : (rescan_one h b i w).1.tab.Ok := by
  have hatt := attempt_ok hok h w.op w.id w.pid
  rcases rescan_one_cases h b i w with ⟨k, -, heq⟩ | ⟨-, heq⟩
  · rw [heq]
    exact hatt
  · rw [heq, waiter_free, (settle_frame ..).2.2.2.1]
    exact hatt

theorem rescan_one_wait (h : Host) (b : Broker) (i : Nat) (w : Waiter) :
    ∃ o, (rescan_one h b i w).1.wait = update b.wait i o ∧ (∀ w', o = some w' → SameCall w w') ∧
      ((rescan_one h b i w).2 = true ↔ o = none) := by
  obtain ⟨hwait, -⟩ := attempt_frame h b w.op w.id w.pid
  rcases rescan_one_cases h b i w with ⟨k, -, heq⟩ | ⟨-, heq⟩
  · rw [heq]
    refine ⟨_, rfl, fun w' hw' => ?_, iff_of_false Bool.false_ne_true (some_ne_none _)⟩
    cases hw'
    exact .inr ⟨k, rfl⟩
  rw [heq]
  refine ⟨none, ?_, fun w' hw' => (by cases hw'), iff_of_true rfl rfl⟩
  rw [waiter_free, (settle_frame ..).1, hwait]

theorem rescan_one_shrinks (hw : b.wait i = some w) : Shrinks b (rescan_one h b i w).1 := by
  obtain ⟨hwait, hseq, hnow, -⟩ := attempt_frame h b w.op w.id w.pid
  obtain ⟨o, ho, hsame, -⟩ := rescan_one_wait h b i w
  refine ⟨fun j w' hw' => ?_, ?_, ?_⟩
  · rw [ho] at hw'
    rcases update_some hw' with ⟨rfl, how⟩ | ⟨-, hjw⟩
    · exact ⟨w, hw, hsame w' how⟩
    · exact ⟨w', hjw, .inl rfl⟩
  · rcases rescan_one_cases h b i w with ⟨k, -, heq⟩ | ⟨-, heq⟩ <;> rw [heq]
    · exact hseq
    · rw [waiter_free, (settle_frame ..).2.1, hseq]
  rcases rescan_one_cases h b i w with ⟨k, -, heq⟩ | ⟨-, heq⟩ <;> rw [heq]
  · exact hnow
  · rw [waiter_free, (settle_frame ..).2.2.1, hnow]

def to_come (b : Broker) (last : Nat) : Nat := count IPC_WAITER_MAX b.wait fun v => decide (last < v.seq)

def nwait (b : Broker) : Nat := count IPC_WAITER_MAX b.wait fun _ => true

theorem next_waiter_some (hnext : next_waiter b last = some (i, w)) : i < IPC_WAITER_MAX ∧ b.wait i = some w ∧
    last < w.seq ∧ ∀ j v, j < IPC_WAITER_MAX → b.wait j = some v → last < v.seq → w.seq ≤ v.seq := by
  unfold next_waiter at hnext
  obtain ⟨hi, hw, hlast, hmin⟩ := least_some hnext
  exact ⟨hi, hw, of_decide_eq_true hlast, fun j v hj hv hlt => hmin j v hj hv (decide_eq_true hlt)⟩

theorem next_waiter_none (hnext : next_waiter b last = none) (hj : j < IPC_WAITER_MAX) (hw : b.wait j = some w) :
    w.seq ≤ last := by
  unfold next_waiter at hnext
  have hfalse := least_none hnext hj hw
  rw [decide_eq_false_iff_not, not_lt] at hfalse
  exact hfalse

theorem rescan_one_to_come (hnext : next_waiter b last = some (i, w)) :
    to_come (rescan_one h b i w).1 w.seq < to_come b last := by
  obtain ⟨hi, hw, hlast, -⟩ := next_waiter_some hnext
  obtain ⟨o, ho, hsame, -⟩ := rescan_one_wait h b i w
  have hin : (b.wait i).any (fun v => decide (last < v.seq)) = true := by
    rw [hw, any_some]
    exact decide_eq_true hlast
  unfold to_come
  rw [ho]
  refine count_lt (fun j v hv hp => ?_) hi hin ?_
  · rcases update_some hv with ⟨rfl, -⟩ | ⟨-, hjv⟩
    · exact hin
    · rw [hjv, any_some]
      exact decide_eq_true (hlast.trans (of_decide_eq_true hp))
  rw [update_self]
  cases hv : o with
  | none => rfl
  | some v =>
    rw [any_some, (hsame v hv).seq_eq]
    exact decide_eq_false (lt_irrefl _)

theorem rescan_one_nwait (hi : i < IPC_WAITER_MAX) (hw : b.wait i = some w) :
    nwait (rescan_one h b i w).1 ≤ nwait b ∧
      ((rescan_one h b i w).2 = true → nwait (rescan_one h b i w).1 < nwait b) := by
  obtain ⟨o, ho, -, hfree⟩ := rescan_one_wait h b i w
  have hin : (b.wait i).any (fun _ => true) = true := by
    rw [hw]
    rfl
  have hsub : ∀ j v, update b.wait i o j = some v → true = true → (b.wait j).any (fun _ => true) = true := by
    intro j v hv _
    rcases update_some hv with ⟨rfl, -⟩ | ⟨-, hjv⟩
    · exact hin
    · rw [hjv]
      rfl
  unfold nwait
  rw [ho]
  refine ⟨count_le hsub, fun hprogress => count_lt hsub hi hin ?_⟩
  rw [update_self, hfree.1 hprogress]
  rfl

end waiters

section passes

variable {b : Broker} {last turns passes : Nat} {h : Nat → Host}

theorem rescan_pass_induction {P : Broker → Prop} (h : Nat → Host) (turns last : Nat)
    (hone : ∀ h b i w, P b → b.wait i = some w → P (rescan_one h b i w).1) (hb : P b) :
    P (rescan_pass h turns b last).1 := by
  induction turns generalizing b last with
  | zero => exact hb
  | succ turns ih =>
    rw [rescan_pass]
    split
    · exact hb
    next i w hnext => exact ih _ (hone _ _ _ _ hb (next_waiter_some hnext).2.1)

theorem rescan_pass_nwait (h : Nat → Host) (turns : Nat) (b : Broker) (last : Nat) :
    nwait (rescan_pass h turns b last).1 ≤ nwait b ∧
    ((rescan_pass h turns b last).2 = true → nwait (rescan_pass h turns b last).1 < nwait b) := by
  induction turns generalizing b last with
  | zero => exact ⟨le_rfl, fun hfalse => by cases hfalse⟩
  | succ turns ih =>
    rw [rescan_pass]
    split
    · exact ⟨le_rfl, fun hfalse => by cases hfalse⟩
    next i w hnext =>
      obtain ⟨hi, hw, -⟩ := next_waiter_some hnext
      obtain ⟨hle, hlt⟩ := rescan_one_nwait (h := h w.seq) hi hw
      obtain ⟨hle', hlt'⟩ := ih (rescan_one (h w.seq) b i w).1 w.seq
      dsimp only
      refine ⟨hle'.trans hle, fun hprogress => ?_⟩
      rcases Bool.or_eq_true_iff.1 hprogress with hone | hrest
      · exact hle'.trans_lt (hlt hone)
      · exact (hlt' hrest).trans_le hle

theorem rescan_one_stuck {h : Host} {i : Nat} {w : Waiter} (hok : b.tab.Ok) (hquiet : (rescan_one h b i w).2 = false) :
    TablesQuiet b (rescan_one h b i w).1 ∧ Stuck (rescan_one h b i w).1 w.id w.pid w.op := by
  rcases rescan_one_cases h b i w with ⟨k, hblk, heq⟩ | ⟨-, heq⟩
  · obtain ⟨hq, hstuck⟩ := attempt_block hok hblk
    have hok' := attempt_ok hok h w.op w.id w.pid
    rw [heq]
    exact ⟨⟨hq.msg, hq.sem, hq.undo⟩, hstuck.quiet hok' ⟨rfl, rfl, .refl hok'.undo⟩⟩
  · rw [heq] at hquiet
    cases hquiet

theorem rescan_pass_stuck (hok : b.tab.Ok) (hwait : WaitOk b) (hturns : to_come b last ≤ turns)
    (hquiet : (rescan_pass h turns b last).2 = false) :
    TablesQuiet b (rescan_pass h turns b last).1 ∧ Shrinks b (rescan_pass h turns b last).1 ∧
      ∀ j w, (rescan_pass h turns b last).1.wait j = some w → last < w.seq →
        Stuck (rescan_pass h turns b last).1 w.id w.pid w.op := by
  induction turns generalizing b last with
  | zero =>
    refine ⟨.refl hok, .refl b, fun j w hw hlast => ?_⟩
    have hnone := count_zero (Nat.le_zero.1 hturns) (hwait.bound j w hw) hw
    exact absurd hlast (of_decide_eq_false hnone)
  | succ turns ih =>
    rw [rescan_pass] at hquiet ⊢
    split at hquiet
    next hnext =>
      refine ⟨.refl hok, .refl b, fun j w hw hlast => ?_⟩
      exact absurd (next_waiter_none hnext (hwait.bound j w hw) hw) (not_le.2 hlast)
    rename_i i w hnext
    dsimp only at hquiet ⊢
    obtain ⟨hone, hrest⟩ := Bool.or_eq_false_iff.1 hquiet
    obtain ⟨-, hw, -, hmin⟩ := next_waiter_some hnext
    have hcome := rescan_one_to_come (h := h w.seq) hnext
    obtain ⟨hq, hstuck⟩ := rescan_one_stuck hok hone
    have hshrinks := rescan_one_shrinks (h := h w.seq) hw
    have hok₁ := rescan_one_ok hok (h w.seq) i w
    obtain ⟨hq', hshrinks', hrest'⟩ := ih hok₁ (hwait.shrinks hshrinks) (by omega) hrest
    refine ⟨hq.trans hq', hshrinks.trans hshrinks', fun j v hv hlast => ?_⟩
    by_cases hlt : w.seq < v.seq
    · exact hrest' j v hv hlt
    -- no other waiter lies between `last` and the one of this turn
    obtain ⟨v₀, hv₀, hsame⟩ := (hshrinks.trans hshrinks').wait j v hv
    have hseq := hsame.seq_eq
    have hle := hmin j v₀ (hwait.bound j v₀ hv₀) hv₀ (by omega)
    obtain rfl := hwait.unique j i v₀ w hv₀ hw (by omega)
    rw [hw, some.injEq] at hv₀
    subst hv₀
    exact (hsame.stuck hstuck).quiet hok₁ hq'

variable {h : Nat → Nat → Host}

/-- The outer loop ends with every waiter stuck: each pass with progress leaves
fewer waiters. -/
theorem rescan_loop_stuck (hok : b.tab.Ok) (hwait : WaitOk b) (hpasses : nwait b < passes) :
    AllStuck (rescan_loop h passes b) := by
  induction passes generalizing b with
  | zero => exact absurd hpasses (Nat.not_lt_zero _)
  | succ passes ih =>
    rw [rescan_loop]
    split
    next hprogress =>
      have hnwait := (rescan_pass_nwait _ _ _ _).2 hprogress
      have hone : ∀ h b i w, b.tab.Ok ∧ WaitOk b → b.wait i = some w →
          (rescan_one h b i w).1.tab.Ok ∧ WaitOk (rescan_one h b i w).1 := fun h b i w hb hw =>
        ⟨rescan_one_ok hb.1 h i w, hb.2.shrinks (rescan_one_shrinks hw)⟩
      have hkept := rescan_pass_induction (h passes) IPC_WAITER_MAX 0 hone ⟨hok, hwait⟩
      exact ih hkept.1 hkept.2 (by omega)
    rename_i hquiet
    obtain ⟨-, hshrinks, hstuck⟩ :=
      rescan_pass_stuck hok hwait (count_le_cap _ _ _) (Bool.eq_false_iff.2 hquiet)
    intro j w hw
    obtain ⟨v, hv, hsame⟩ := hshrinks.wait j w hw
    exact hstuck j w hw (hsame.seq_eq ▸ (hwait.seq j v hv).1)

theorem ipc_rescan_induction {P : Broker → Prop}
    (hone : ∀ h b i w, P b → b.wait i = some w → P (rescan_one h b i w).1) (hb : P b) : P (ipc_rescan h b) := by
  unfold ipc_rescan
  induction IPC_WAITER_MAX + 1 generalizing b with
  | zero => exact hb
  | succ passes ih =>
    rw [rescan_loop]
    split
    · exact ih (rescan_pass_induction _ _ _ hone hb)
    · exact rescan_pass_induction _ _ _ hone hb

theorem ipc_rescan_stuck (hok : b.tab.Ok) (hwait : WaitOk b) : AllStuck (ipc_rescan h b) :=
  rescan_loop_stuck hok hwait (Nat.lt_succ_of_le (count_le_cap _ _ _))

end passes

end arm64emu
