/-
# What the log files hold

The runs of `flush` and `append` as equations, and the invariant that ties the bytes
of the directory to the records that were written (`Logs`).

A log is the list of all written records, each with the name of its file, in the
order of writing.  The content of a file is the concatenation of the frames of its
records, whatever the rotations were.
-/
import Pacyte.Wal

open Locks

/-- `bincode` serialises every record, gives back what it has serialised, and returns
an error where the bytes end too early.  The lengths that it writes have 64 bits. -/
class LawfulWalCodec extends WalCodec where
  serializes (record : WalRecord) : ∃ bytes, serialize record = .ok bytes
  roundTrip (record : WalRecord) (bytes : Bytes) :
    serialize record = .ok bytes → bytes.length < 2 ^ 64 → deserialize bytes = .ok record
  truncated (record : WalRecord) (bytes : Bytes) (n : ℕ) :
    serialize record = .ok bytes → bytes.length < 2 ^ 64 → n < bytes.length →
    ∃ e, deserialize (bytes.take n) = .error e

namespace WalManager

/-! ## Small programs -/

theorem readLsn_run (wal : WalManager) :
    readLsn wal = (.ok wal.currentLsn,
      { wal with guards := wal.guards.touch .currentLsn .read }) := rfl

theorem takePending_run (wal : WalManager) :
    takePending wal = (.ok wal.pendingEntries,
      { wal with pendingEntries := [], guards := wal.guards.touch .pendingEntries .write }) := rfl

variable [LawfulWalCodec]

/-- The bytes of a record. -/
def encode (record : WalRecord) : Bytes :=
  match WalCodec.serialize record with
  | .ok bytes => bytes
  | .error _ => []

theorem serialize_eq (record : WalRecord) : WalCodec.serialize record = .ok (encode record) := by
  obtain ⟨bytes, hbytes⟩ := LawfulWalCodec.serializes record
  rw [encode, hbytes]

/-- The record is small enough for the length field of its frame. -/
def Short (record : WalRecord) : Prop := (encode record).length < 2 ^ 32

theorem deserialize_encode {record : WalRecord} (h : Short record) :
    WalCodec.deserialize (encode record) = .ok record :=
  LawfulWalCodec.roundTrip record _ (serialize_eq record) (lt_trans h (by norm_num))

/-- The records that `flush` writes for the pending entries. -/
def sealAll (lsn : UInt64) : List WalEntry → Clock → List WalRecord
  | [], _ => []
  | entry :: rest, clock =>
      WalRecord.sealed lsn entry (clock 0) :: sealAll lsn rest fun k => clock (k + 1)

/-- The bytes of some records, one frame after the other. -/
def frames (records : List WalRecord) : Bytes := records.flatMap fun r => frame (encode r)

/-- The loop of `flush` puts the frames of all entries into the buffer. -/
theorem writeRecords_run (lsn : UInt64) (entries : List WalEntry) (wal : WalManager) :
    writeRecords lsn entries wal = (.ok (), { wal with
      clock := fun k => wal.clock (k + entries.length)
      currentFile := wal.currentFile.map fun f =>
        { f with buffer := f.buffer ++ frames (sealAll lsn entries wal.clock) } }) := by
  induction entries generalizing wal with
  | nil =>
      simp only [writeRecords, sealAll, frames, List.flatMap_nil, List.append_nil]
      cases wal
      simp
  | cons entry rest ih =>
      have hnow : now wal = (.ok (wal.clock 0), { wal with clock := fun k => wal.clock (k + 1) }) :=
        rfl
      rw [writeRecords, Exec.run_bind, hnow]
      dsimp only
      rw [serialize_eq]
      dsimp only
      rw [Exec.run_bind, writeAll, Exec.run_modify]
      dsimp only
      rw [Exec.run_bind, writeAll, Exec.run_modify]
      dsimp only
      rw [ih]
      simp only [Option.map_map, Function.comp_def, sealAll, frames, List.flatMap_cons, frame,
        List.append_assoc, List.length_cons, Nat.add_assoc]

/-! ## Flushing -/

/-- The locks that a `flush` with an open file and pending entries asks for. -/
def flushGuards (g : Guards WalLock) : Guards WalLock :=
  ((g.touch .pendingEntries .write).touch .currentFile .write).touch .currentLsn .read

/-- The state after the records were written, before the file may be rotated. -/
def written (wal : WalManager) (file : WalFile) : WalManager :=
  { wal with
    directory := appendToFile wal.directory file.name
      (file.buffer ++ frames (sealAll wal.currentLsn wal.pendingEntries wal.clock))
    currentFile := some ⟨file.name, []⟩
    pendingEntries := []
    clock := fun k => wal.clock (k + wal.pendingEntries.length)
    guards := flushGuards wal.guards }

/-- The file is replaced by a new one if it has reached the limit. -/
def rotated (wal : WalManager) : WalManager :=
  if wal.config.maxFileSize.toNat ≤ wal.fileSize then wal.rotate wal.currentLsn else wal

omit [LawfulWalCodec] in
/-- The rotation asks for the number once more. -/
theorem rotateIfFull_run (wal : WalManager) :
    rotateIfFull wal = (.ok (), { wal.rotated with
      guards := if wal.config.maxFileSize.toNat ≤ wal.fileSize
        then wal.guards.touch .currentLsn .read else wal.guards }) := by
  unfold rotateIfFull rotated
  rw [Exec.run_bind, Exec.run_get]
  dsimp only
  split_ifs with hfull
  · rw [Exec.run_bind, readLsn_run]
    rfl
  · rfl

omit [LawfulWalCodec] in
/-- Rotating does not depend on the locks. -/
theorem rotated_guards (wal : WalManager) (g : Guards WalLock) :
    rotated { wal with guards := g } = { wal.rotated with guards := g } := by
  show (if wal.config.maxFileSize.toNat ≤ wal.fileSize then
      rotate wal.currentLsn { wal with guards := g } else { wal with guards := g }) = _
  unfold rotated
  split_ifs
  · rfl
  · rfl

omit [LawfulWalCodec] in
theorem guards_rotated (wal : WalManager) : wal.rotated.guards = wal.guards := by
  unfold rotated
  split_ifs
  · rfl
  · rfl

/-- The pending entries are written to the open file. -/
theorem writePending_run (config : WalConfig) (directory : Map String Bytes) (file : WalFile)
    (lsn : UInt64) (left pending : List WalEntry) (clock : Clock) (g : Guards WalLock) :
    writePending pending ⟨config, directory, some file, lsn, left, clock, g⟩ = (.ok (),
      rotated ⟨config, appendToFile directory file.name
          (file.buffer ++ frames (sealAll lsn pending clock)), some ⟨file.name, []⟩, lsn, left,
        fun k => clock (k + pending.length), g.touch .currentLsn .read⟩) := by
  unfold writePending
  rw [Exec.run_bind, Exec.run_get]
  dsimp only
  rw [Exec.run_bind, readLsn_run]
  dsimp only
  rw [Exec.run_bind, writeRecords_run]
  dsimp only
  rw [Exec.run_bind, Exec.run_modify]
  dsimp only
  rw [rotateIfFull_run, ← rotated_guards]
  simp only [writeBuffer, Option.map_some, Guards.touch_touch, ite_self]

/-- **A flush**, case by case. -/
theorem flush_run (wal : WalManager) :
    flush wal =
      if !wal.config.enabled then (.ok (), wal)
      else if wal.pendingEntries.isEmpty then
        (.ok (), { wal with
          pendingEntries := [], guards := wal.guards.touch .pendingEntries .write })
      else match wal.currentFile with
        | none => (.err (.diskIoFailure "WAL file not open"), { wal with
            pendingEntries := []
            guards := (wal.guards.touch .pendingEntries .write).touch .currentFile .write })
        | some file => (.ok (), (wal.written file).rotated) := by
  obtain ⟨⟨enabled, maxFileSize, maxPending⟩, directory, currentFile, lsn, pending, clock, g⟩ := wal
  unfold flush
  rw [Exec.run_bind, Exec.run_get]
  cases enabled with
  | false => rfl
  | true =>
      simp only [Bool.not_true, Bool.false_eq_true, if_false]
      rw [Exec.run_bind, takePending_run]
      cases pending with
      | nil => rfl
      | cons entry rest =>
          cases currentFile with
          | none => rfl
          | some file =>
              simp only [List.isEmpty_cons, Bool.false_eq_true, if_false]
              rw [guarded, Exec.run_guarded]
              dsimp only
              rw [writePending_run]
              dsimp only
              rw [← rotated_guards, guards_rotated]
              rfl

/-! ## Appending -/

/-- The state in which `append` decides whether to flush. -/
def numbered (wal : WalManager) (entry : WalEntry) : WalManager :=
  { wal with
    currentLsn := wal.currentLsn + 1
    pendingEntries := wal.pendingEntries ++ [entry]
    clock := fun k => wal.clock (k + 1)
    guards := (wal.guards.acquire .currentLsn .write).touch .pendingEntries .write }

/-- The guards of before, and the clashes of now. -/
def release (held : List (WalLock × Mode)) (wal : WalManager) : WalManager :=
  { wal with guards := ⟨held, wal.guards.clash⟩ }

/-- The number, or the error of the flush. -/
def answered (lsn : UInt64) : Outcome PacyteError Unit → Outcome PacyteError UInt64
  | .ok _ => .ok lsn
  | .err e => .err e
  | .panic => .panic

omit [LawfulWalCodec] in
/-- **An append**, case by case. -/
theorem append_run [WalCodec] (entry : WalEntry) (wal : WalManager) :
    append entry wal =
      if !wal.config.enabled then (.ok 0, wal)
      else if 2 ^ 64 ≤ wal.currentLsn.toNat + 1 then
        (.panic, release wal.guards.held
          { wal with guards := wal.guards.acquire .currentLsn .write })
      else if wal.config.maxPendingEntries ≤ wal.pendingEntries.length + 1 then
        (answered (wal.currentLsn + 1) (flush (wal.numbered entry)).1,
          release wal.guards.held (flush (wal.numbered entry)).2)
      else (.ok (wal.currentLsn + 1), release wal.guards.held (wal.numbered entry)) := by
  obtain ⟨⟨enabled, maxFileSize, maxPending⟩, directory, currentFile, lsn, pending, clock, g⟩ := wal
  unfold append
  rw [Exec.run_bind, Exec.run_get]
  cases enabled with
  | false => rfl
  | true =>
      simp only [Bool.not_true, Bool.false_eq_true, if_false]
      rw [guarded, Exec.run_guarded]
      have hone : UInt64.toNat 1 = 1 := rfl
      by_cases hfit : lsn.toNat + UInt64.toNat 1 < 2 ^ 64
      · have hnot : ¬ 2 ^ 64 ≤ lsn.toNat + 1 := by omega
        rw [if_neg hnot]
        simp only [Exec.run_bind, Exec.run_get, Exec.addU64, if_pos hfit, Exec.run_pure,
          Exec.run_modify, now, Exec.run_onPart, currentTimestamp, guarded, Exec.run_guarded]
        have hlength : (pending ++ [entry]).length = pending.length + 1 := List.length_append
        rw [hlength]
        by_cases hfull : maxPending ≤ pending.length + 1
        · rw [decide_eq_true hfull, if_pos hfull]
          let start : WalManager :=
            ⟨⟨true, maxFileSize, maxPending⟩, directory, currentFile, lsn, pending, clock, g⟩
          change (((flush >>= fun _ => pure (lsn + 1)) (start.numbered entry)).1,
            release g.held ((flush >>= fun _ => pure (lsn + 1)) (start.numbered entry)).2) = _
          rw [Exec.run_bind]
          change _ = (answered (lsn + 1) (flush (start.numbered entry)).1,
            release g.held (flush (start.numbered entry)).2)
          rcases flush (start.numbered entry) with ⟨_ | _ | _, wal'⟩ <;> rfl
        · rw [decide_eq_false hfull, if_neg hfull]
          rfl
      · have hover : 2 ^ 64 ≤ lsn.toNat + 1 := by omega
        rw [if_pos hover]
        simp only [Exec.run_bind, Exec.run_get, Exec.addU64, if_neg hfit, Exec.run_abort]
        rfl

/-! ## The bytes of the directory -/

omit [LawfulWalCodec] in
theorem lookup_appendToFile (directory : Map String Bytes) (name x : String) (bytes : Bytes) :
    (appendToFile directory name bytes).lookup x
      = if x = name then some ((directory.lookup name).getD [] ++ bytes)
        else directory.lookup x := by
  unfold appendToFile
  split_ifs with hx
  · rw [hx, AList.lookup_insert]
  · rw [AList.lookup_insert_ne hx]

omit [LawfulWalCodec] in
theorem mem_appendToFile (directory : Map String Bytes) (name x : String) (bytes : Bytes) :
    x ∈ appendToFile directory name bytes ↔ x = name ∨ x ∈ directory := by
  rw [appendToFile, AList.mem_insert]

omit [LawfulWalCodec] in
/-- The names that the manager gives its files end in `.log`. -/
theorem hasLogExtension_walFileName (lsn : UInt64) : hasLogExtension (walFileName lsn) = true := by
  unfold hasLogExtension walFileName
  simp only [String.toList_append, String.toList_ofList, List.reverse_append, List.length_append]
  rw [Bool.and_eq_true, decide_eq_true_iff]
  constructor
  · rw [List.isPrefixOf_iff_prefix]
    exact List.prefix_append _ _
  · have hdot : ".log".length = 4 := rfl
    simp [hdot]

/-- The records of one file, in the order in which they were written. -/
def recordsOf (log : List (String × WalRecord)) (name : String) : List WalRecord :=
  (log.filter fun e => e.1 = name).map Prod.snd

/-- The directory holds the records of the log and nothing else. -/
structure Filed (directory : Map String Bytes) (log : List (String × WalRecord)) : Prop where
  content : ∀ name bytes, directory.lookup name = some bytes →
    bytes = frames (recordsOf log name)
  named : ∀ e ∈ log, e.1 ∈ directory
  extension : ∀ name ∈ directory, hasLogExtension name = true

omit [LawfulWalCodec] in
theorem recordsOf_append (log : List (String × WalRecord)) (name x : String)
    (records : List WalRecord) :
    recordsOf (log ++ records.map fun r => (name, r)) x
      = recordsOf log x ++ if x = name then records else [] := by
  unfold recordsOf
  rw [List.filter_append, List.map_append]
  congr 1
  split_ifs with hx
  · rw [List.filter_eq_self.mpr, List.map_map]
    · exact List.map_id records
    · intro e he
      obtain ⟨r, -, rfl⟩ := List.mem_map.mp he
      simp [hx]
  · rw [List.filter_eq_nil_iff.mpr, List.map_nil]
    intro e he
    obtain ⟨r, -, rfl⟩ := List.mem_map.mp he
    simpa using fun h => hx h.symm

theorem frames_append (records records' : List WalRecord) :
    frames (records ++ records') = frames records ++ frames records' := List.flatMap_append

/-- Records are added at the end of a file. -/
theorem Filed.append {directory : Map String Bytes} {log : List (String × WalRecord)}
    (h : Filed directory log) {name : String} (hname : hasLogExtension name = true)
    (records : List WalRecord) :
    Filed (appendToFile directory name (frames records)) (log ++ records.map fun r => (name, r)) := by
  refine ⟨?_, ?_, ?_⟩
  · intro x bytes hbytes
    rw [lookup_appendToFile] at hbytes
    rw [recordsOf_append]
    split_ifs at hbytes ⊢ with hx
    · -- what was in the file is what the log has for it
      have hold : (directory.lookup name).getD [] = frames (recordsOf log name) := by
        cases hlookup : directory.lookup name with
        | some old => exact h.content name old hlookup
        | none =>
            have hnone : recordsOf log name = [] := by
              rw [recordsOf, List.filter_eq_nil_iff.mpr, List.map_nil]
              intro e he heq
              have hmem := h.named e he
              rw [of_decide_eq_true heq] at hmem
              exact AList.lookup_eq_none.mp hlookup hmem
            rw [hnone]
            rfl
      rw [← Option.some.inj hbytes, hold, frames_append, hx]
    · rw [List.append_nil]
      exact h.content x bytes hbytes
  · intro e he
    rw [mem_appendToFile]
    rcases List.mem_append.mp he with hlog | hnew
    · exact Or.inr (h.named e hlog)
    · obtain ⟨r, -, rfl⟩ := List.mem_map.mp hnew
      exact Or.inl rfl
  · intro x hx
    rcases (mem_appendToFile _ _ _ _).mp hx with rfl | hmem
    · exact hname
    · exact h.extension x hmem

/-- Opening a file does not change what the directory holds. -/
theorem Filed.openFile {directory : Map String Bytes} {log : List (String × WalRecord)}
    (h : Filed directory log) (lsn : UInt64) :
    Filed (appendToFile directory (walFileName lsn) []) log := by
  have hopen := h.append (hasLogExtension_walFileName lsn) []
  rwa [List.map_nil, List.append_nil] at hopen

/-- The directory of the manager holds the records of the log, and the open file has
nothing left in its buffer. -/
structure Logs (wal : WalManager) (log : List (String × WalRecord)) : Prop where
  filed : Filed wal.directory log
  file : ∀ f, wal.currentFile = some f → f.buffer = [] ∧ f.name ∈ wal.directory

/-- The records that a flush writes, with the name of the file. -/
def flushedRecords (wal : WalManager) : List (String × WalRecord) :=
  if wal.config.enabled then
    match wal.currentFile with
    | none => []
    | some file =>
        (sealAll wal.currentLsn wal.pendingEntries wal.clock).map fun r => (file.name, r)
  else []

theorem flushedRecords_of_nil {wal : WalManager} (h : wal.pendingEntries = []) :
    wal.flushedRecords = [] := by
  unfold flushedRecords
  rw [h]
  split_ifs
  · cases wal.currentFile <;> rfl
  · rfl

/-- A flush leaves nothing pending, whether it succeeds or not, and it writes nothing if
it fails. -/
theorem flush_state {wal : WalManager} (henabled : wal.config.enabled = true) :
    (flush wal).2.pendingEntries = [] ∧ (flush wal).2.currentLsn = wal.currentLsn ∧
      (flush wal).2.config = wal.config ∧
      ((flush wal).1 ≠ .ok () → wal.flushedRecords = []) := by
  have hrotated : ∀ w : WalManager, w.rotated.pendingEntries = w.pendingEntries ∧
      w.rotated.currentLsn = w.currentLsn ∧ w.rotated.config = w.config := by
    intro w
    unfold rotated
    split_ifs
    · exact ⟨rfl, rfl, rfl⟩
    · exact ⟨rfl, rfl, rfl⟩
  rw [flush_run]
  simp only [henabled, Bool.not_true, Bool.false_eq_true, if_false]
  split_ifs with hempty
  · exact ⟨rfl, rfl, rfl, fun h => absurd rfl h⟩
  · cases hfile : wal.currentFile with
    | none =>
        refine ⟨rfl, rfl, rfl, fun _ => ?_⟩
        rw [flushedRecords, if_pos henabled, hfile]
    | some file =>
        obtain ⟨hpending, hlsn, hconfig⟩ := hrotated (wal.written file)
        exact ⟨hpending, hlsn, hconfig, fun h => absurd rfl h⟩

/-- A new manager on a directory. -/
theorem logs_new {directory : Map String Bytes} {log : List (String × WalRecord)}
    (h : Filed directory log) (config : WalConfig) (clock : Clock) :
    Logs (new directory config clock) log := by
  refine ⟨h.openFile _, ?_⟩
  rintro f hf
  obtain rfl := Option.some.inj hf
  exact ⟨rfl, (mem_appendToFile _ _ _ _).mpr (Or.inl rfl)⟩

/-- The buffer is empty, so writing it changes nothing. -/
theorem Logs.writeBuffer {wal : WalManager} {log : List (String × WalRecord)} (h : Logs wal log) :
    Filed wal.writeBuffer.directory log := by
  unfold WalManager.writeBuffer
  cases hfile : wal.currentFile with
  | none => exact h.filed
  | some file =>
      obtain ⟨hempty, hmem⟩ := h.file file hfile
      have happend := h.filed.append (h.filed.extension _ hmem) []
      rw [List.map_nil, List.append_nil] at happend
      dsimp only
      rw [hempty]
      exact happend

theorem Logs.rotated {wal : WalManager} {log : List (String × WalRecord)} (h : Logs wal log) :
    Logs wal.rotated log := by
  unfold WalManager.rotated
  split_ifs
  · refine ⟨h.writeBuffer.openFile _, ?_⟩
    rintro f hf
    obtain rfl := Option.some.inj hf
    exact ⟨rfl, (mem_appendToFile _ _ _ _).mpr (Or.inl rfl)⟩
  · exact h

/-- **A flush adds its records to the log.** -/
theorem Logs.flush {wal : WalManager} {log : List (String × WalRecord)} (h : Logs wal log) :
    Logs (flush wal).2 (log ++ wal.flushedRecords) := by
  rw [flush_run, flushedRecords]
  cases henabled : wal.config.enabled with
  | false =>
      simp only [Bool.not_false, if_true, Bool.false_eq_true, if_false, List.append_nil]
      exact h
  | true =>
      simp only [Bool.not_true, Bool.false_eq_true, if_false, if_true]
      cases hpending : wal.pendingEntries with
      | nil =>
          have hnone := flushedRecords_of_nil hpending
          rw [flushedRecords, if_pos henabled, hpending] at hnone
          rw [hnone, List.append_nil]
          exact ⟨h.filed, h.file⟩
      | cons entry rest =>
          cases hfile : wal.currentFile with
          | none =>
              rw [List.append_nil]
              refine ⟨h.filed, ?_⟩
              rintro f hf
              cases hf
          | some file =>
              obtain ⟨hempty, hmem⟩ := h.file file hfile
              apply Logs.rotated
              refine ⟨?_, ?_⟩
              · rw [written, hempty, hpending]
                exact h.filed.append (h.filed.extension _ hmem) _
              · rintro f hf
                obtain rfl := Option.some.inj hf
                exact ⟨rfl, (mem_appendToFile _ _ _ _).mpr (Or.inl rfl)⟩

/-- The records that an append writes, with the name of the file. -/
def appendedRecords (entry : WalEntry) (wal : WalManager) : List (String × WalRecord) :=
  if wal.config.enabled ∧ ¬ 2 ^ 64 ≤ wal.currentLsn.toNat + 1 ∧
      wal.config.maxPendingEntries ≤ wal.pendingEntries.length + 1 then
    (wal.numbered entry).flushedRecords
  else []

theorem Logs.release {wal : WalManager} {log : List (String × WalRecord)} (h : Logs wal log) (held : List (WalLock × Mode)) :
    Logs (release held wal) log := ⟨h.filed, h.file⟩

/-- **An append adds the records of its flush to the log.** -/
theorem Logs.append {wal : WalManager} {log : List (String × WalRecord)} (h : Logs wal log)
    (entry : WalEntry) :
    Logs (append entry wal).2 (log ++ appendedRecords entry wal) := by
  rw [append_run, appendedRecords]
  cases henabled : wal.config.enabled with
  | false =>
      simp only [Bool.not_false, if_true, Bool.false_eq_true, false_and, if_false, List.append_nil]
      exact h
  | true =>
      simp only [Bool.not_true, Bool.false_eq_true, if_false, true_and]
      by_cases hover : 2 ^ 64 ≤ wal.currentLsn.toNat + 1
      · rw [if_pos hover, if_neg (fun hand => hand.1 hover), List.append_nil]
        exact ⟨h.filed, h.file⟩
      · rw [if_neg hover]
        have hnumbered : Logs (wal.numbered entry) log := ⟨h.filed, h.file⟩
        by_cases hfull : wal.config.maxPendingEntries ≤ wal.pendingEntries.length + 1
        · rw [if_pos hfull, if_pos ⟨hover, hfull⟩]
          exact hnumbered.flush.release _
        · rw [if_neg hfull, if_neg (fun hand => hfull hand.2), List.append_nil]
          exact hnumbered.release _

end WalManager

/-! ## Runs -/

/-- A call on the log, or a restart on its directory. -/
inductive WalOp : Type where
  | append (entry : WalEntry)
  | flush
  | checkpoint
  | close
  | reopen

namespace WalOp

open WalManager

/-- The entry of a checkpoint. -/
def checkpointEntry (wal : WalManager) : WalEntry := .checkpoint wal.currentLsn (wal.clock 0)

/-- The state in which a checkpoint appends its entry. -/
def checkpointing (wal : WalManager) : WalManager :=
  { wal with
    clock := fun k => wal.clock (k + 1)
    guards := wal.guards.acquire .currentLsn .read }

variable [LawfulWalCodec]

/-- The outcome of an operation and the state after it. -/
def run (op : WalOp) (wal : WalManager) : Outcome PacyteError Unit × WalManager :=
  match op with
  | append entry => ((WalManager.append entry wal).1.discard, (WalManager.append entry wal).2)
  | flush => WalManager.flush wal
  | checkpoint => WalManager.checkpoint wal
  | close => WalManager.close wal
  | reopen => (.ok (), WalManager.new wal.directory wal.config wal.clock)

/-- The records that an operation writes, with the names of their files. -/
def writes (op : WalOp) (wal : WalManager) : List (String × WalRecord) :=
  match op with
  | append entry => appendedRecords entry wal
  | flush => wal.flushedRecords
  | checkpoint =>
      appendedRecords (checkpointEntry wal) (checkpointing wal) ++
        match (WalManager.append (checkpointEntry wal) (checkpointing wal)).1 with
        | .ok _ =>
            (release wal.guards.held
              (WalManager.append (checkpointEntry wal) (checkpointing wal)).2).flushedRecords
        | _ => []
  | close => wal.flushedRecords
  | reopen => []

omit [LawfulWalCodec] in
/-- A checkpoint is an append under a guard, and then a flush. -/
theorem checkpoint_run [WalCodec] (wal : WalManager) :
    WalManager.checkpoint wal =
      match WalManager.append (checkpointEntry wal) (checkpointing wal) with
      | (.ok _, wal') => WalManager.flush (release wal.guards.held wal')
      | (.err e, wal') => (.err e, release wal.guards.held wal')
      | (.panic, wal') => (.panic, release wal.guards.held wal') := by
  have hbody : (WalManager.guarded WalLock.currentLsn Mode.read do
        let wal ← Exec.get
        let time ← now
        let _ ← WalManager.append (.checkpoint wal.currentLsn time)
        return ()) wal =
      match WalManager.append (checkpointEntry wal) (checkpointing wal) with
      | (.ok _, wal') => (.ok (), release wal.guards.held wal')
      | (.err e, wal') => (.err e, release wal.guards.held wal')
      | (.panic, wal') => (.panic, release wal.guards.held wal') := by
    rw [WalManager.guarded, Exec.run_guarded]
    change (((WalManager.append (checkpointEntry wal) >>= fun _ => pure ()) (checkpointing wal)).1,
      release wal.guards.held
        ((WalManager.append (checkpointEntry wal) >>= fun _ => pure ()) (checkpointing wal)).2) = _
    rw [Exec.run_bind]
    rcases WalManager.append (checkpointEntry wal) (checkpointing wal) with ⟨_ | _ | _, wal'⟩ <;> rfl
  unfold WalManager.checkpoint
  rw [Exec.run_bind, hbody]
  rcases WalManager.append (checkpointEntry wal) (checkpointing wal) with ⟨_ | _ | _, wal'⟩ <;> rfl

/-- Closing a manager whose records are all written. -/
theorem Logs.closed {wal : WalManager} {log : List (String × WalRecord)} (h : Logs wal log)
    (g : Guards WalLock) :
    Logs { wal.writeBuffer with currentFile := none, guards := g } log := by
  refine ⟨?_, fun f hf => nomatch hf⟩
  show Filed wal.writeBuffer.directory log
  exact h.writeBuffer

/-- **Every operation adds what it writes to the log.** -/
theorem logs_run {wal : WalManager} {log : List (String × WalRecord)} (h : Logs wal log)
    (op : WalOp) : Logs (op.run wal).2 (log ++ op.writes wal) := by
  cases op with
  | append entry => exact h.append entry
  | flush => exact h.flush
  | checkpoint =>
      have hstart : Logs (checkpointing wal) log := ⟨h.filed, h.file⟩
      have happend := hstart.append (checkpointEntry wal)
      show Logs (WalManager.checkpoint wal).2 _
      rw [checkpoint_run, writes, ← List.append_assoc]
      rcases hrun : WalManager.append (checkpointEntry wal) (checkpointing wal)
        with ⟨_ | _ | _, wal'⟩
      · rw [hrun] at happend
        exact (happend.release wal.guards.held).flush
      · rw [hrun] at happend
        rw [List.append_nil]
        exact happend.release wal.guards.held
      · rw [hrun] at happend
        rw [List.append_nil]
        exact happend.release wal.guards.held
  | close =>
      have hflush := h.flush
      show Logs (WalManager.close wal).2 (log ++ wal.flushedRecords)
      unfold WalManager.close
      rw [Exec.run_bind]
      rcases hrun : WalManager.flush wal with ⟨_ | _ | _, wal'⟩
      · rw [hrun] at hflush
        exact Logs.closed hflush _
      · rw [hrun] at hflush
        exact hflush
      · rw [hrun] at hflush
        exact hflush
  | reopen =>
      rw [writes, List.append_nil]
      exact logs_new h.filed wal.config wal.clock

/-- The state after some operations. -/
def runAll (ops : List WalOp) (wal : WalManager) : WalManager :=
  ops.foldl (fun wal op => (op.run wal).2) wal

/-- The records that some operations write. -/
def writesAll : List WalOp → WalManager → List (String × WalRecord)
  | [], _ => []
  | op :: rest, wal => op.writes wal ++ writesAll rest (op.run wal).2

theorem logs_runAll {wal : WalManager} {log : List (String × WalRecord)} (h : Logs wal log)
    (ops : List WalOp) : Logs (runAll ops wal) (log ++ writesAll ops wal) := by
  induction ops generalizing wal log with
  | nil =>
      rw [writesAll, List.append_nil]
      exact h
  | cons op rest ih =>
      rw [writesAll, ← List.append_assoc]
      exact ih (logs_run h op)

/-- An empty directory holds the empty log. -/
theorem filed_empty : Filed ∅ [] := by
  refine ⟨?_, ?_, ?_⟩
  · intro name bytes h
    rw [AList.lookup_empty] at h
    cases h
  · intro e he
    cases he
  · intro name h
    exact absurd h (AList.notMem_empty name)

/-- **The files of every run hold what was written to them.** -/
theorem logs_of_run (config : WalConfig) (clock : Clock) (ops : List WalOp) :
    Logs (runAll ops (WalManager.new ∅ config clock))
      (writesAll ops (WalManager.new ∅ config clock)) :=
  logs_runAll (logs_new filed_empty config clock) ops

end WalOp
