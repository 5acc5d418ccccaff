/-
# Restoring from a snapshot

`SnapshotManager` of `src/storage/snapshot.rs`: the manifest with its checksum, and
`restore_from_snapshot`, which reads the block records of `blocks.bin` one after the other and
writes them to the storage, a thousand at a time.

* The directories are a map from names to files; a file that does not exist is `none`.
* The JSON of the manifest and the `bincode` of a block come from outside (`SnapshotCodec`).

`decodeSnapshot` says what the files hold, without the storage: the blocks up to the first bad
record, how the records end, and whether `state.bin` is long enough.  `restoreFromSnapshot_run`
is the restore as the batches that are written and what happens after them.
-/
import Pacyte.Wal

/-! ## Batches -/

namespace WriteBatch

/-- `WriteBatch::len`. -/
def len (batch : WriteBatch) : ℕ :=
  batch.blocks.length + batch.transactions.length + batch.accounts.length + batch.stateRoots.length

/-- The batch of some blocks. -/
def ofBlocks (blocks : List Block) : WriteBatch :=
  ⟨blocks.map fun b => (b.header.height, b), [], [], []⟩

@[simp] theorem addBlock_ofBlocks (blocks : List Block) (block : Block) :
    (ofBlocks blocks).addBlock block = ofBlocks (blocks ++ [block]) := by
  rw [addBlock, ofBlocks, ofBlocks, List.map_append]
  rfl

@[simp] theorem len_ofBlocks (blocks : List Block) : (ofBlocks blocks).len = blocks.length := by
  rw [len, ofBlocks, List.length_map]
  rfl

@[simp] theorem isEmpty_ofBlocks (blocks : List Block) :
    (ofBlocks blocks).isEmpty = blocks.isEmpty := by
  cases blocks <;> rfl

end WriteBatch

/-! ## The manifest -/

/-- `SnapshotManifest`. -/
structure SnapshotManifest where
  version : UInt32
  height : BlockHeight
  blockHash : Hash
  stateRoot : Hash
  timestamp : Timestamp
  totalAccounts : UInt64
  totalSupply : U128
  checksum : Hash
  deriving DecidableEq, Repr

namespace SnapshotManifest

variable [Primitives]

/-- The bytes hashed by `SnapshotManifest::compute_checksum`. -/
def message (manifest : SnapshotManifest) : Bytes :=
  leBytes 4 manifest.version.toNat ++ leBytes 8 manifest.height.toNat ++
    manifest.blockHash.toList ++ manifest.stateRoot.toList ++
    leBytes 8 manifest.timestamp.toNat ++ leBytes 8 manifest.totalAccounts.toNat ++
    leBytes 16 manifest.totalSupply.toNat

/-- `SnapshotManifest::compute_checksum`. -/
def computeChecksum (manifest : SnapshotManifest) : SnapshotManifest :=
  { manifest with checksum := Primitives.sha3_256 manifest.message }

/-- `SnapshotManifest::verify`. -/
def verify (manifest : SnapshotManifest) : Bool :=
  decide (({ manifest with checksum := zero32 }).computeChecksum.checksum = manifest.checksum)

end SnapshotManifest

/-! ## The files -/

/-- What the restore takes from `serde_json` and `bincode`. -/
class SnapshotCodec where
  /-- `fs::read_to_string` and `serde_json::from_str` of a manifest, or the text of the error. -/
  parseManifest : Bytes → Except String SnapshotManifest
  /-- `bincode::deserialize` of a block, or the text of the error. -/
  deserializeBlock : Bytes → Except String Block

/-- The files of a snapshot directory. -/
structure SnapshotFiles where
  manifest : Option Bytes
  blocks : Option Bytes
  state : Option Bytes

/-- `SnapshotManager` without its storage: the directory, and the files in each of its
subdirectories. -/
structure SnapshotManager where
  snapshotDir : String
  directories : String → Option SnapshotFiles

/-- `snapshot_dir.join(format!("snapshot_{}", height))`. -/
def SnapshotManager.path (manager : SnapshotManager) (height : BlockHeight) : String :=
  manager.snapshotDir ++ "/snapshot_" ++ toString height

/-- The text of the error of `File::open` and `fs::read_to_string` on a missing file. -/
def noSuchFile : String := "No such file or directory (os error 2)"

/-- The text of the error of `read_exact` at the end of the file. -/
def unexpectedEof : String := "failed to fill whole buffer"

namespace SnapshotManager

variable {σ : Type} [Storage σ] [SnapshotCodec]

/-- The loop of `restore_blocks` over the bytes that are left.  Every round takes at least
the four bytes of the length, so one round more than there are bytes is enough. -/
def restoreLoop : ℕ → Bytes → WriteBatch → Exec PacyteError σ WriteBatch
  | 0, _, batch => return batch
  | fuel + 1, bytes, batch =>
    if bytes.length < 4 then
      -- any error of the first `read_exact` ends the loop, also in the middle of a length
      return batch
    else if (bytes.drop 4).length < readLength bytes then
      Exec.throw (.diskIoFailure unexpectedEof)
    else
      match SnapshotCodec.deserializeBlock ((bytes.drop 4).take (readLength bytes)) with
      | .error e => Exec.throw (.diskIoFailure e)
      | .ok block =>
        if 1000 ≤ (batch.addBlock block).len then do
          Storage.writeBatch (batch.addBlock block)
          restoreLoop fuel ((bytes.drop 4).drop (readLength bytes)) WriteBatch.new
        else
          restoreLoop fuel ((bytes.drop 4).drop (readLength bytes)) (batch.addBlock block)

/-- `restore_blocks`. -/
def restoreBlocks (file : Option Bytes) : Exec PacyteError σ Unit :=
  match file with
  | none => Exec.throw (.diskIoFailure noSuchFile)
  | some bytes => do
    let batch ← restoreLoop (bytes.length + 1) bytes WriteBatch.new
    if batch.isEmpty then
      return ()
    else
      Storage.writeBatch batch

/-- `restore_state`: the two totals are read and dropped. -/
def restoreState (file : Option Bytes) : Exec PacyteError σ Unit :=
  match file with
  | none => Exec.throw (.diskIoFailure noSuchFile)
  | some bytes =>
    if bytes.length < 8 ∨ (bytes.drop 8).length < 16 then
      Exec.throw (.diskIoFailure unexpectedEof)
    else
      return ()

/-- `restore_from_snapshot`. -/
def restoreFromSnapshot [Primitives] (manager : SnapshotManager) (height : BlockHeight) :
    Exec PacyteError σ Unit :=
  match manager.directories (manager.path height) with
  | none => Exec.throw (.diskIoFailure ("Snapshot not found: " ++ manager.path height))
  | some files =>
    match files.manifest with
    | none => Exec.throw (.diskIoFailure noSuchFile)
    | some text =>
      match SnapshotCodec.parseManifest text with
      | .error e => Exec.throw (.diskIoFailure e)
      | .ok manifest =>
        if !manifest.verify then
          Exec.throw (.diskIoFailure "Manifest checksum mismatch")
        else do
          restoreBlocks files.blocks
          restoreState files.state

end SnapshotManager

/-! ## What the files hold -/

section Decode

variable [SnapshotCodec]

/-- The bytes are complete records: the length of a block in four bytes, and the block. -/
inductive Records : Bytes → List Block → Prop
  | nil : Records [] []
  | cons {bytes : Bytes} {block : Block} {blocks : List Block} :
      4 ≤ bytes.length → readLength bytes ≤ (bytes.drop 4).length →
      SnapshotCodec.deserializeBlock ((bytes.drop 4).take (readLength bytes)) = .ok block →
      Records ((bytes.drop 4).drop (readLength bytes)) blocks → Records bytes (block :: blocks)

/-- How a file of records ends: after a record, in the middle of a length, or with a record
that cannot be read. -/
inductive Ending : Type where
  | complete
  | leftover
  | broken (message : String)
  deriving DecidableEq

/-- The blocks up to the first bad record, and the ending. -/
def decodeRecords : ℕ → Bytes → List Block × Ending
  | 0, _ => ([], .complete)
  | fuel + 1, bytes =>
    if bytes.length < 4 then
      ([], if bytes = [] then .complete else .leftover)
    else if (bytes.drop 4).length < readLength bytes then
      ([], .broken unexpectedEof)
    else
      match SnapshotCodec.deserializeBlock ((bytes.drop 4).take (readLength bytes)) with
      | .error e => ([], .broken e)
      | .ok block =>
        let rest := decodeRecords fuel ((bytes.drop 4).drop (readLength bytes))
        (block :: rest.1, rest.2)

/-- The records end after a record exactly if the bytes are complete records. -/
theorem decodeRecords_complete (fuel : ℕ) (bytes : Bytes) (hfuel : bytes.length < fuel)
    (blocks : List Block) :
    decodeRecords fuel bytes = (blocks, .complete) ↔ Records bytes blocks := by
  induction fuel generalizing bytes blocks with
  | zero => omega
  | succ fuel ih =>
      have hrest : ((bytes.drop 4).drop (readLength bytes)).length ≤ bytes.length - 4 := by
        rw [List.length_drop, List.length_drop]
        omega
      rw [decodeRecords]
      split_ifs with hshort hempty hcut
      · -- no bytes are left
        subst hempty
        refine ⟨fun h => ?_, fun h => ?_⟩
        · obtain rfl := (Prod.mk.inj h).1
          exact Records.nil
        · cases h with
          | nil => rfl
          | cons h4 => exact absurd hshort (Nat.not_lt.mpr h4)
      · refine ⟨fun h => (nomatch (Prod.mk.inj h).2), fun h => ?_⟩
        cases h with
        | nil => exact absurd rfl hempty
        | cons h4 => exact absurd hshort (Nat.not_lt.mpr h4)
      · refine ⟨fun h => (nomatch (Prod.mk.inj h).2), fun h => ?_⟩
        cases h with
        | nil => exact absurd (Nat.zero_lt_succ 3) hshort
        | cons _ hlen => exact absurd hcut (Nat.not_lt.mpr hlen)
      · have ih' := ih ((bytes.drop 4).drop (readLength bytes)) (by omega)
        cases hblock : SnapshotCodec.deserializeBlock ((bytes.drop 4).take (readLength bytes)) with
        | error e =>
            refine ⟨fun h => (nomatch (Prod.mk.inj h).2), fun h => ?_⟩
            cases h with
            | nil => exact absurd (Nat.zero_lt_succ 3) hshort
            | cons _ _ hok => rw [hblock] at hok; cases hok
        | ok block =>
            dsimp only
            refine ⟨fun h => ?_, fun h => ?_⟩
            · obtain ⟨rfl, hending⟩ := Prod.mk.inj h
              exact Records.cons (Nat.not_lt.mp hshort) (Nat.not_lt.mp hcut) hblock
                ((ih' _).mp (Prod.ext rfl hending))
            · cases h with
              | nil => exact absurd (Nat.zero_lt_succ 3) hshort
              | cons _ _ hok htail =>
                  rw [hblock] at hok
                  obtain rfl := Except.ok.inj hok
                  rw [(ih' _).mpr htail]

/-- Blocks in groups of a thousand, the first of them with the blocks that are `pending`,
and the blocks that are left over. -/
def batchesOf : List Block → List Block → List (List Block) × List Block
  | pending, [] => ([], pending)
  | pending, block :: rest =>
    if 1000 ≤ (pending ++ [block]).length then
      ((pending ++ [block]) :: (batchesOf [] rest).1, (batchesOf [] rest).2)
    else
      batchesOf (pending ++ [block]) rest

/-- What the files of a snapshot hold, where the restore gets as far as the blocks. -/
structure DecodedSnapshot where
  manifest : SnapshotManifest
  blocks : List Block
  ending : Ending
  state : Option Bytes

/-- The files of a snapshot; `none` if the restore refuses them before it reads a block. -/
def decodeSnapshot [Primitives] (files : Option SnapshotFiles) : Option DecodedSnapshot := do
  let files ← files
  let text ← files.manifest
  let manifest ← (SnapshotCodec.parseManifest text).toOption
  if manifest.verify then
    let bytes ← files.blocks
    let decoded := decodeRecords (bytes.length + 1) bytes
    some ⟨manifest, decoded.1, decoded.2, files.state⟩
  else
    none

namespace DecodedSnapshot

/-- The groups of blocks that are written: the full ones, and the last one if the end of the
file is reached. -/
def writes (d : DecodedSnapshot) : List (List Block) :=
  (batchesOf [] d.blocks).1 ++
    match d.ending with
    | .broken _ => []
    | _ => if (batchesOf [] d.blocks).2.isEmpty then [] else [(batchesOf [] d.blocks).2]

/-- What happens after the writes. -/
def finish {σ : Type} (d : DecodedSnapshot) : Exec PacyteError σ Unit :=
  match d.ending with
  | .broken message => Exec.throw (.diskIoFailure message)
  | _ => SnapshotManager.restoreState d.state

end DecodedSnapshot

end Decode

/-! ## The restore as a list of writes -/

namespace SnapshotManager

variable {σ : Type} [Storage σ]

/-- Groups of blocks, written one after the other. -/
def writeBlocks : List (List Block) → Exec PacyteError σ Unit
  | [] => return ()
  | group :: rest => do
    Storage.writeBatch (WriteBatch.ofBlocks group)
    writeBlocks rest

theorem writeBlocks_append (groups groups' : List (List Block)) :
    writeBlocks (σ := σ) (groups ++ groups') = (do
      writeBlocks groups
      writeBlocks groups') := by
  induction groups with
  | nil => rfl
  | cons group groups ih => rw [List.cons_append, writeBlocks, writeBlocks, ih, Exec.bind_assoc]

variable [SnapshotCodec]

/-- The end of the loop: an error, or the batch that is not yet written. -/
def loopEnd (ending : Ending) (rest : List Block) : Exec PacyteError σ WriteBatch :=
  match ending with
  | .broken message => Exec.throw (.diskIoFailure message)
  | _ => return WriteBatch.ofBlocks rest

/-- **The loop** writes the full groups and then ends as the records do. -/
theorem restoreLoop_eq (fuel : ℕ) (bytes : Bytes) (pending : List Block) :
    restoreLoop (σ := σ) fuel bytes (WriteBatch.ofBlocks pending) = (do
      writeBlocks (batchesOf pending (decodeRecords fuel bytes).1).1
      loopEnd (decodeRecords fuel bytes).2 (batchesOf pending (decodeRecords fuel bytes).1).2) := by
  induction fuel generalizing bytes pending with
  | zero => rfl
  | succ fuel ih =>
      rw [restoreLoop, decodeRecords]
      split_ifs with hshort hempty hcut
      · rfl
      · rfl
      · rfl
      · cases SnapshotCodec.deserializeBlock ((bytes.drop 4).take (readLength bytes)) with
        | error e => rfl
        | ok block =>
            simp only [WriteBatch.addBlock_ofBlocks, WriteBatch.len_ofBlocks, batchesOf]
            split_ifs with hfull
            · rw [writeBlocks, Exec.bind_assoc, ← ih]
              rfl
            · exact ih _ _

omit [SnapshotCodec] in
/-- The last batch is written unless it is empty. -/
theorem writeLast_eq (rest : List Block) {α : Type} (next : Exec PacyteError σ α) :
    ((if (WriteBatch.ofBlocks rest).isEmpty then pure ()
      else Storage.writeBatch (WriteBatch.ofBlocks rest)) >>= fun _ => next) = (do
      writeBlocks (if rest.isEmpty then [] else [rest])
      next) := by
  rw [WriteBatch.isEmpty_ofBlocks]
  cases rest.isEmpty with
  | true => rfl
  | false => exact (Exec.bind_assoc (Storage.writeBatch (WriteBatch.ofBlocks rest))
      (fun _ => pure ()) (fun _ => next)).symm

/-- `restore_blocks` writes the groups of the blocks and then ends as the records do. -/
theorem restoreBlocks_eq (bytes : Bytes) (d : DecodedSnapshot)
    (h : decodeRecords (bytes.length + 1) bytes = (d.blocks, d.ending)) :
    (do
      restoreBlocks (σ := σ) (some bytes)
      restoreState d.state) = (do
      writeBlocks d.writes
      d.finish) := by
  have hloop := restoreLoop_eq (σ := σ) (bytes.length + 1) bytes []
  rw [h] at hloop
  unfold restoreBlocks
  dsimp only
  rw [show WriteBatch.new = WriteBatch.ofBlocks [] from rfl, hloop]
  unfold DecodedSnapshot.writes DecodedSnapshot.finish loopEnd
  rw [writeBlocks_append]
  simp only [Exec.bind_assoc]
  congr 1
  funext _
  cases d.ending with
  | broken message => rfl
  | complete => exact writeLast_eq _ (restoreState d.state)
  | leftover => exact writeLast_eq _ (restoreState d.state)

/-- **A restore** that is not refused at once writes the groups of the blocks and then
finishes. -/
theorem restoreFromSnapshot_eq [Primitives] (manager : SnapshotManager) (height : BlockHeight) :
    match decodeSnapshot (manager.directories (manager.path height)) with
    | none => ∃ e, restoreFromSnapshot (σ := σ) manager height = Exec.throw e
    | some d => restoreFromSnapshot (σ := σ) manager height = (do
        writeBlocks d.writes
        d.finish) := by
  unfold restoreFromSnapshot decodeSnapshot
  cases manager.directories (manager.path height) with
  | none => exact ⟨_, rfl⟩
  | some files =>
      obtain ⟨_ | text, blocks, state⟩ := files
      · exact ⟨_, rfl⟩
      · dsimp only [Option.bind_some, bind]
        cases SnapshotCodec.parseManifest text with
        | error e => exact ⟨_, rfl⟩
        | ok manifest =>
            dsimp only [Except.toOption, Option.bind_some, bind]
            cases manifest.verify with
            | false => exact ⟨_, rfl⟩
            | true =>
                cases blocks with
                | none => exact ⟨_, rfl⟩
                | some bytes => exact restoreBlocks_eq bytes ⟨manifest, _, _, state⟩ rfl

end SnapshotManager
