/-
# The locks of the log

A thread that calls the log may wait for itself: `append` holds `current_lsn` while it
flushes, and `checkpoint` holds it while it appends.  `WalCall.clash_iff` says for every
call and every state when this happens.  It does not depend on what `bincode` does.
-/
import Pacyte.Bincode

open Locks

namespace WalManager

variable [WalCodec]

/-- Writing the records takes no lock, however it ends. -/
theorem guards_writeRecords (lsn : UInt64) (entries : List WalEntry) (wal : WalManager) :
    (writeRecords lsn entries wal).2.guards = wal.guards := by
  induction entries generalizing wal with
  | nil => rfl
  | cons entry rest ih =>
      have hnow : now wal = (.ok (wal.clock 0), { wal with clock := fun k => wal.clock (k + 1) }) :=
        rfl
      rw [writeRecords, Exec.run_bind_of_ok hnow]
      cases WalCodec.serialize (WalRecord.sealed lsn entry (wal.clock 0)) with
      | error e => rfl
      | ok bytes =>
          dsimp only
          rw [Exec.run_bind, writeAll, Exec.run_modify]
          dsimp only
          rw [Exec.run_bind, writeAll, Exec.run_modify]
          dsimp only
          rw [ih]

/-- Writing to the open file asks for the number; without a file it does not come to
that. -/
theorem guards_writePending (pending : List WalEntry) (wal : WalManager) :
    (writePending pending wal).2.guards =
      if wal.currentFile.isSome then wal.guards.touch .currentLsn .read else wal.guards := by
  unfold writePending
  rw [Exec.run_bind, Exec.run_get]
  dsimp only
  cases hfile : wal.currentFile with
  | none => rfl
  | some file =>
      dsimp only
      rw [Exec.run_bind_of_ok (readLsn_run wal), Exec.run_bind]
      have hwrite := guards_writeRecords wal.currentLsn pending
        { wal with guards := wal.guards.touch .currentLsn .read }
      rcases hrun : writeRecords wal.currentLsn pending
          { wal with guards := wal.guards.touch .currentLsn .read } with ⟨_ | _ | _, wal'⟩
      · rw [hrun] at hwrite
        change wal'.guards = wal.guards.touch .currentLsn .read at hwrite
        dsimp only
        rw [Exec.run_bind, Exec.run_modify]
        dsimp only
        rw [rotateIfFull_run]
        show (if _ then wal'.guards.touch .currentLsn .read else wal'.guards) = _
        rw [hwrite, Guards.touch_touch, ite_self]
        rfl
      · rw [hrun] at hwrite
        exact hwrite
      · rw [hrun] at hwrite
        exact hwrite

/-- The locks that a flush asks for. -/
theorem guards_flush (wal : WalManager) :
    (flush wal).2.guards =
      if !wal.config.enabled then wal.guards
      else if wal.pendingEntries.isEmpty then wal.guards.touch .pendingEntries .write
      else if wal.currentFile.isSome then flushGuards wal.guards
      else (wal.guards.touch .pendingEntries .write).touch .currentFile .write := by
  unfold flush
  rw [Exec.run_bind, Exec.run_get]
  dsimp only
  split_ifs with henabled hempty hopen
  · rfl
  · rw [Exec.run_bind_of_ok (takePending_run wal), if_pos hempty]
    rfl
  · rw [Exec.run_bind_of_ok (takePending_run wal), if_neg hempty, guarded, Exec.run_guarded]
    dsimp only
    rw [guards_writePending, if_pos hopen]
    rfl
  · rw [Exec.run_bind_of_ok (takePending_run wal), if_neg hempty, guarded, Exec.run_guarded]
    dsimp only
    rw [guards_writePending, if_neg hopen]
    rfl

/-- A flush by a thread without guards meets no conflict. -/
theorem guards_flush_free {wal : WalManager} (h : wal.guards = Guards.free) :
    (flush wal).2.guards = Guards.free := by
  rw [guards_flush, h]
  split_ifs <;> rfl

/-- A conflict is not forgotten by a flush. -/
theorem clash_flush {wal : WalManager} (h : wal.guards.clash = true) :
    (flush wal).2.guards.clash = true := by
  rw [guards_flush]
  split_ifs <;> simp [flushGuards, Guards.touch, h]

end WalManager

/-! ## Calls -/

/-- A call on the log.  `recover` works on what `read_dir` lists. -/
inductive WalCall : Type where
  | append (entry : WalEntry)
  | flush
  | checkpoint
  | recover (listing : List (String × Bytes))
  | close

namespace WalCall

open WalManager

variable [WalCodec]

/-- The guards after a call; `recover` takes no lock. -/
def guards (call : WalCall) (wal : WalManager) : Guards WalLock :=
  match call with
  | append entry => (WalManager.append entry wal).2.guards
  | flush => (WalManager.flush wal).2.guards
  | checkpoint => (WalManager.checkpoint wal).2.guards
  | recover _ => wal.guards
  | close => (WalManager.close wal).2.guards

/-- The call does not take the path on which it waits for itself: an append that does not
fill the list of pending entries of an open, enabled log, a checkpoint of a log that is
not enabled, or one of the other calls. -/
def Safe (call : WalCall) (wal : WalManager) : Prop :=
  match call with
  | append _ => ¬ (wal.config.enabled = true ∧ wal.currentLsn.toNat + 1 < 2 ^ 64 ∧
      wal.config.maxPendingEntries ≤ wal.pendingEntries.length + 1 ∧
      wal.currentFile.isSome = true)
  | checkpoint => wal.config.enabled = false
  | flush => True
  | recover _ => True
  | close => True

/-- An append that flushes to an open file holds the number that the flush asks for. -/
theorem clash_append_iff {wal : WalManager} (h : wal.guards = Guards.free) (entry : WalEntry) :
    (WalManager.append entry wal).2.guards.clash = false ↔ (append entry).Safe wal := by
  unfold Safe
  rw [append_run]
  cases henabled : wal.config.enabled with
  | false =>
      simp only [Bool.not_false, if_true, Bool.false_eq_true, false_and, not_false_eq_true, iff_true]
      rw [h]
      rfl
  | true =>
      simp only [Bool.not_true, Bool.false_eq_true, if_false, true_and]
      by_cases hover : 2 ^ 64 ≤ wal.currentLsn.toNat + 1
      · rw [if_pos hover]
        refine iff_of_true ?_ fun hand => absurd hand.1 (not_lt.mpr hover)
        rw [h]
        rfl
      · rw [if_neg hover]
        by_cases hfull : wal.config.maxPendingEntries ≤ wal.pendingEntries.length + 1
        · rw [if_pos hfull]
          have hguards := guards_flush (wal.numbered entry)
          have hnone : (wal.numbered entry).pendingEntries.isEmpty = false := by
            simp [numbered]
          have hon : (wal.numbered entry).config.enabled = true := henabled
          rw [hnone, hon] at hguards
          simp only [Bool.not_true, Bool.false_eq_true, if_false] at hguards
          show (WalManager.flush (wal.numbered entry)).2.guards.clash = false ↔ _
          rw [hguards]
          change (if wal.currentFile.isSome = true then _ else _ : Guards WalLock).clash = false ↔ _
          cases hopen : wal.currentFile.isSome with
          | true =>
              refine iff_of_false ?_ fun hand => hand ⟨not_le.mp hover, hfull, rfl⟩
              simp only [if_true, numbered, h]
              decide
          | false =>
              refine iff_of_true ?_ fun hand => Bool.false_ne_true hand.2.2
              simp only [Bool.false_eq_true, if_false, numbered, h]
              decide
        · rw [if_neg hfull]
          refine iff_of_true ?_ fun hand => hfull hand.2.1
          show (wal.numbered entry).guards.clash = false
          rw [numbered, h]
          rfl

/-- An append of a thread that has the number already. -/
theorem clash_append_of_held {wal : WalManager} (henabled : wal.config.enabled = true)
    (h : wal.guards = Guards.free.acquire .currentLsn .read) (entry : WalEntry) :
    (WalManager.append entry wal).2.guards.clash = true := by
  rw [append_run]
  simp only [henabled, Bool.not_true, Bool.false_eq_true, if_false]
  split_ifs
  · rw [h]
    rfl
  · apply clash_flush
    rw [numbered, h]
    rfl
  · show (wal.numbered entry).guards.clash = true
    rw [numbered, h]
    rfl

/-- A checkpoint holds the number while it appends. -/
theorem clash_checkpoint_iff {wal : WalManager} (h : wal.guards = Guards.free) :
    (WalManager.checkpoint wal).2.guards.clash = false ↔ checkpoint.Safe wal := by
  unfold Safe
  rw [WalOp.checkpoint_run]
  cases henabled : wal.config.enabled with
  | false =>
      have happend : WalManager.append (WalOp.checkpointEntry wal) (WalOp.checkpointing wal)
          = (.ok 0, WalOp.checkpointing wal) := by
        rw [append_run]
        have hoff : (WalOp.checkpointing wal).config.enabled = false := henabled
        rw [hoff]
        rfl
      refine iff_of_true ?_ rfl
      rw [happend]
      dsimp only
      rw [guards_flush_free]
      · rfl
      · rw [WalManager.release, WalOp.checkpointing, h]
        rfl
  | true =>
      refine iff_of_false ?_ (Ne.symm Bool.false_ne_true)
      have hclash := clash_append_of_held
        (show (WalOp.checkpointing wal).config.enabled = true from henabled)
        (by rw [WalOp.checkpointing, h]) (WalOp.checkpointEntry wal)
      rcases hrun : WalManager.append (WalOp.checkpointEntry wal) (WalOp.checkpointing wal)
        with ⟨_ | _ | _, wal'⟩
      · rw [hrun] at hclash
        have hflush := clash_flush
          (show (release wal.guards.held wal').guards.clash = true from hclash)
        dsimp only
        rw [hflush]
        decide
      · rw [hrun] at hclash
        show ¬ wal'.guards.clash = false
        rw [hclash]
        decide
      · rw [hrun] at hclash
        show ¬ wal'.guards.clash = false
        rw [hclash]
        decide

/-- Closing asks for the file after the flush has given it back. -/
theorem guards_close_free {wal : WalManager} (h : wal.guards = Guards.free) :
    (WalManager.close wal).2.guards = Guards.free := by
  have hflush := guards_flush_free h
  unfold WalManager.close
  rw [Exec.run_bind]
  rcases hrun : WalManager.flush wal with ⟨_ | _ | _, wal'⟩
  · rw [hrun] at hflush
    change wal'.guards = Guards.free at hflush
    show (⟨wal'.guards.held, (wal'.guards.acquire .currentFile .write).clash⟩ : Guards WalLock) = _
    rw [hflush]
    rfl
  · rw [hrun] at hflush
    exact hflush
  · rw [hrun] at hflush
    exact hflush

/-- **When a call waits for itself.**  For every state of the log in which the thread holds
no guard, and for every call: the call never asks for a lock in conflict with a guard that
it holds if and only if it does not take one of the two paths on which `current_lsn` is
asked for twice. -/
theorem clash_iff (wal : WalManager) (h : wal.guards = Guards.free) (call : WalCall) :
    (call.guards wal).clash = false ↔ call.Safe wal := by
  cases call with
  | append entry => exact clash_append_iff h entry
  | flush =>
      refine iff_of_true ?_ trivial
      show (WalManager.flush wal).2.guards.clash = false
      rw [guards_flush_free h]
      rfl
  | checkpoint => exact clash_checkpoint_iff h
  | recover listing =>
      refine iff_of_true ?_ trivial
      show wal.guards.clash = false
      rw [h]
      rfl
  | close =>
      refine iff_of_true ?_ trivial
      show (WalManager.close wal).2.guards.clash = false
      rw [guards_close_free h]
      rfl

end WalCall

section Example

open scoped Sample

/-- A checkpoint of a new log waits for itself, and so does an append that fills the list
of pending entries. -/
theorem checkpoint_waits_for_itself :
    let wal := Sample.emptyWal 1000000 1
    wal.guards = Guards.free ∧ (WalCall.checkpoint.guards wal).clash = true ∧
      ((WalCall.append (.checkpoint 0 0)).guards wal).clash = true := by
  intro wal
  refine ⟨rfl, ?_, ?_⟩
  · decide
  · decide

/-- An append that leaves room in the list does not. -/
theorem append_with_room :
    let wal := Sample.emptyWal 1000000 10
    ((WalCall.append (.checkpoint 0 0)).guards wal).clash = false := by
  intro wal
  apply (WalCall.clash_iff wal rfl (.append (.checkpoint 0 0))).mpr
  unfold WalCall.Safe
  decide

end Example
