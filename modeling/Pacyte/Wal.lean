/-
# The write-ahead log

`WalManager` of `src/storage/wal.rs`: entries are numbered and collected in memory
(`append`), written as length-prefixed records to the current log file (`flush`),
and read back after a restart (`recover`).

* The directory is a map from file names to bytes.  `read_dir` lists it in any
  order, so `recover` takes the listing as an argument.
* The records are serialised by `bincode` and carry a checksum of the standard
  hasher; both come from outside (`WalCodec`).
* Every lock is taken through `guarded`, so a run also tells whether the call has
  asked for a lock that it holds itself.  The run goes on as with reentrant locks.
-/
import Pacyte.MemoryStorage
import Pacyte.Locks

open Locks

/-! ## Batches -/

namespace WriteBatch

/-- `WriteBatch::is_empty`. -/
def isEmpty (batch : WriteBatch) : Bool :=
  batch.blocks.isEmpty && batch.transactions.isEmpty && batch.accounts.isEmpty &&
    batch.stateRoots.isEmpty

/-- `WriteBatch::add_block`. -/
def addBlock (batch : WriteBatch) (block : Block) : WriteBatch :=
  { batch with blocks := batch.blocks ++ [(block.header.height, block)] }

/-- `WriteBatch::add_transaction`. -/
def addTransaction [Primitives] (batch : WriteBatch) (tx : Transaction) : WriteBatch :=
  { batch with transactions := batch.transactions ++ [(tx.hash, tx)] }

/-- `WriteBatch::delete_account`. -/
def deleteAccount (batch : WriteBatch) (address : Address) : WriteBatch :=
  { batch with accounts := batch.accounts ++ [(address, none)] }

/-- `WriteBatch::add_state_root`. -/
def addStateRoot (batch : WriteBatch) (height : BlockHeight) (root : Hash) : WriteBatch :=
  { batch with stateRoots := batch.stateRoots ++ [(height, root)] }

end WriteBatch

/-! ## Entries and records -/

/-- `WalEntry`. -/
inductive WalEntry : Type where
  | saveBlock (height : BlockHeight) (block : Block)
  | saveTransaction (hash : Hash) (transaction : Transaction)
  | saveAccount (address : Address) (account : Account)
  | deleteAccount (address : Address)
  | saveStateRoot (height : BlockHeight) (root : Hash)
  | batch (entries : List WalEntry)
  | checkpoint (lsn : UInt64) (timestamp : Timestamp)

/-- `WAL_MAGIC`. -/
def walMagic : UInt32 := 0x50435741

/-- `WAL_VERSION`. -/
def walVersion : UInt32 := 1

/-- `WalRecord`. -/
structure WalRecord where
  magic : UInt32
  version : UInt32
  lsn : UInt64
  timestamp : Timestamp
  entry : WalEntry
  checksum : UInt32

/-- What the log takes from `bincode` and from the standard hasher. -/
class WalCodec where
  /-- `bincode::serialize` of a record, or the text of its error. -/
  serialize : WalRecord → Except String Bytes
  /-- `bincode::deserialize` of a record, or the text of its error. -/
  deserialize : Bytes → Except String WalRecord
  /-- `DefaultHasher` over the four numbers, cut to 32 bits. -/
  hash : UInt32 → UInt32 → UInt64 → Timestamp → UInt32

namespace WalRecord

variable [WalCodec]

/-- `WalRecord::new` at the clock reading `now`. -/
def new (lsn : UInt64) (entry : WalEntry) (now : Timestamp) : WalRecord where
  magic := walMagic
  version := walVersion
  lsn := lsn
  timestamp := now
  entry := entry
  checksum := 0

/-- `WalRecord::compute_checksum`. -/
def computeChecksum (record : WalRecord) : UInt32 :=
  WalCodec.hash record.magic record.version record.lsn record.timestamp

/-- `WalRecord::verify`. -/
def verify (record : WalRecord) : Bool :=
  decide (record.magic = walMagic) && decide (record.version = walVersion) &&
    decide (record.computeChecksum = record.checksum)

/-- The record that `flush` writes for an entry. -/
def sealed (lsn : UInt64) (entry : WalEntry) (now : Timestamp) : WalRecord :=
  { new lsn entry now with checksum := (new lsn entry now).computeChecksum }

end WalRecord

/-- The bytes that are written for a serialised record: its length, cut to 32 bits,
and the record. -/
def frame (bytes : Bytes) : Bytes := leBytes 4 (UInt32.ofNat bytes.length).toNat ++ bytes

/-! ## The manager -/

/-- The locks of a `WalManager`. -/
inductive WalLock : Type where
  | currentFile
  | currentLsn
  | pendingEntries
  deriving DecidableEq, Repr

/-- `WalConfig`. -/
structure WalConfig where
  enabled : Bool
  maxFileSize : UInt64
  maxPendingEntries : ℕ

/-- `BufWriter<File>`: the name of the open file and the bytes not yet written to
it. -/
structure WalFile where
  name : String
  buffer : Bytes

/-- `WalManager`, with the directory it works in, the clock, and the locks that the
running call holds. -/
structure WalManager where
  config : WalConfig
  directory : Map String Bytes
  currentFile : Option WalFile
  currentLsn : UInt64
  pendingEntries : List WalEntry
  clock : Clock
  guards : Guards WalLock

/-! ## File names -/

/-- `format!("wal_{:016x}.log", lsn)`. -/
def walFileName (lsn : UInt64) : String :=
  "wal_" ++ String.ofList ((List.range 16).reverse.map fun i =>
    hexDigit (lsn.toNat / 16 ^ i % 16)) ++ ".log"

/-- `trim_start_matches`: drop the pattern as often as the text starts with it. -/
def trimStartMatches (pattern : List Char) : ℕ → List Char → List Char
  | 0, text => text
  | fuel + 1, text =>
      if pattern.isPrefixOf text then trimStartMatches pattern fuel (text.drop pattern.length)
      else text

/-- `trim_end_matches`. -/
def trimEndMatches (pattern : List Char) (fuel : ℕ) (text : List Char) : List Char :=
  (trimStartMatches pattern.reverse fuel text.reverse).reverse

/-- `str::parse::<u64>`: an optional plus sign and decimal digits. -/
def parseU64 (text : List Char) : Option UInt64 :=
  let digits := if text.head? = some '+' then text.tail else text
  let value : ℕ := digits.foldl (fun n c => 10 * n + (c.toNat - 48)) 0
  if digits.isEmpty || !digits.all Char.isDigit || decide (2 ^ 64 ≤ value) then none
  else some (UInt64.ofNat value)

/-- The number that `find_latest_lsn` takes from a file name. -/
def lsnOfFileName (name : String) : Option UInt64 :=
  let text := name.toList
  if "wal_".toList.isPrefixOf text && ".log".toList.isSuffixOf text then
    parseU64 (trimEndMatches ".log".toList text.length
      (trimStartMatches "wal_".toList text.length text))
  else none

/-- `WalManager::find_latest_lsn`. -/
def findLatestLsn (directory : Map String Bytes) : UInt64 :=
  directory.keys.foldl (fun maxLsn name =>
    match lsnOfFileName name with
    | some lsn => max maxLsn lsn
    | none => maxLsn) 0

/-- `path.extension() == Some("log")`: the text after the last dot, where something
stands before that dot. -/
def hasLogExtension (name : String) : Bool :=
  let text := name.toList.reverse
  ".log".toList.reverse.isPrefixOf text && decide (".log".length < text.length)

/-! ## Writing -/

namespace WalManager

variable [WalCodec]

/-- Run a program while a guard of one of the manager's locks is held. -/
def guarded {α : Type} (l : WalLock) (m : Mode) (body : Exec PacyteError WalManager α) :
    Exec PacyteError WalManager α :=
  Exec.guarded (·.guards) (fun g wal => { wal with guards := g }) l m body

/-- Add to the end of a file, which is created if it does not exist. -/
def appendToFile (directory : Map String Bytes) (name : String) (bytes : Bytes) :
    Map String Bytes :=
  directory.insert name (((directory.lookup name).getD []) ++ bytes)

/-- `WalManager::open_wal_file`. -/
def openWalFile (lsn : UInt64) (directory : Map String Bytes) : WalFile × Map String Bytes :=
  (⟨walFileName lsn, []⟩, appendToFile directory (walFileName lsn) [])

/-- `WalManager::new` on a directory. -/
def new (directory : Map String Bytes) (config : WalConfig) (clock : Clock) : WalManager :=
  let lsn := findLatestLsn directory
  let (file, directory) := openWalFile lsn directory
  { config := config
    directory := directory
    currentFile := some file
    currentLsn := lsn
    pendingEntries := []
    clock := clock
    guards := Guards.free }

/-- `current_timestamp` of the manager's clock. -/
def now : Exec PacyteError WalManager Timestamp :=
  Exec.onPart (·.clock) (fun c wal => { wal with clock := c }) currentTimestamp

/-- `*self.current_lsn.read()`. -/
def readLsn : Exec PacyteError WalManager UInt64 :=
  guarded .currentLsn .read do
    let wal ← Exec.get
    return wal.currentLsn

/-- `std::mem::take` of the pending entries. -/
def takePending : Exec PacyteError WalManager (List WalEntry) :=
  guarded .pendingEntries .write do
    let wal ← Exec.get
    Exec.modify fun wal => { wal with pendingEntries := [] }
    return wal.pendingEntries

/-- `write_all` on the buffered file. -/
def writeAll (bytes : Bytes) : Exec PacyteError WalManager Unit :=
  Exec.modify fun wal =>
    { wal with currentFile := wal.currentFile.map fun f => { f with buffer := f.buffer ++ bytes } }

/-- The loop of `flush` over the pending entries. -/
def writeRecords (lsn : UInt64) : List WalEntry → Exec PacyteError WalManager Unit
  | [] => return ()
  | entry :: rest => do
    let time ← now
    match WalCodec.serialize (WalRecord.sealed lsn entry time) with
    | .error e => Exec.throw (.diskIoFailure e)
    | .ok bytes =>
      writeAll (leBytes 4 (UInt32.ofNat bytes.length).toNat)
      writeAll bytes
      writeRecords lsn rest

/-- The buffered bytes go to the file: `BufWriter::flush`, and also what happens when
the writer is dropped. -/
def writeBuffer (wal : WalManager) : WalManager :=
  { wal with
    directory := match wal.currentFile with
      | none => wal.directory
      | some file => appendToFile wal.directory file.name file.buffer
    currentFile := wal.currentFile.map fun file => { file with buffer := [] } }

/-- `metadata().len()` of the open file. -/
def fileSize (wal : WalManager) : ℕ :=
  match wal.currentFile with
  | none => 0
  | some file => ((wal.directory.lookup file.name).getD []).length

/-- A new log file in place of the open one. -/
def rotate (lsn : UInt64) (wal : WalManager) : WalManager :=
  { wal with
    directory := (openWalFile lsn wal.writeBuffer.directory).2
    currentFile := some (openWalFile lsn wal.writeBuffer.directory).1 }

/-- The end of `flush`: a file that has reached the limit is replaced. -/
def rotateIfFull : Exec PacyteError WalManager Unit := do
  let wal ← Exec.get
  if wal.config.maxFileSize.toNat ≤ wal.fileSize then
    let newLsn ← readLsn
    Exec.modify (rotate newLsn)
  else
    return ()

/-- What `flush` does with the pending entries while it holds the file. -/
def writePending (pending : List WalEntry) : Exec PacyteError WalManager Unit := do
  let wal ← Exec.get
  match wal.currentFile with
  | none => Exec.throw (.diskIoFailure "WAL file not open")
  | some _ =>
    let lsn ← readLsn
    writeRecords lsn pending
    Exec.modify writeBuffer
    rotateIfFull

/-- `WalManager::flush`. -/
def flush : Exec PacyteError WalManager Unit := do
  let wal ← Exec.get
  if !wal.config.enabled then
    return ()
  else
    let pending ← takePending
    if pending.isEmpty then
      return ()
    else
      guarded .currentFile .write (writePending pending)

/-- `WalManager::append`.  The guard of the number is held until the end; the one of
the pending entries is dropped before `flush` is called. -/
def append (entry : WalEntry) : Exec PacyteError WalManager UInt64 := do
  let wal ← Exec.get
  if !wal.config.enabled then
    return 0
  else
    guarded .currentLsn .write do
      let wal ← Exec.get
      let lsn ← Exec.addU64 wal.currentLsn 1
      Exec.modify fun wal => { wal with currentLsn := lsn }
      -- the record that is built here is not used, but it reads the clock
      let _ ← now
      let full ← guarded .pendingEntries .write do
        Exec.modify fun wal => { wal with pendingEntries := wal.pendingEntries ++ [entry] }
        let wal ← Exec.get
        return decide (wal.config.maxPendingEntries ≤ wal.pendingEntries.length)
      if full then
        flush
        return lsn
      else
        return lsn

/-- `WalManager::checkpoint`.  The guard that reads the number is a temporary of the
argument, so it is held while `append` runs. -/
def checkpoint : Exec PacyteError WalManager Unit := do
  guarded .currentLsn .read do
    let wal ← Exec.get
    let time ← now
    let _ ← append (.checkpoint wal.currentLsn time)
    return ()
  flush

/-- `WalManager::close`. -/
def close : Exec PacyteError WalManager Unit := do
  flush
  guarded .currentFile .write (Exec.modify fun wal => { wal.writeBuffer with currentFile := none })

end WalManager

/-! ## Reading -/

/-- The variables of the loop of `recover_from_file`. -/
structure Recovery where
  batches : List WriteBatch
  currentBatch : WriteBatch
  batchOpen : Bool

namespace Recovery

/-- The variables before the loop. -/
def start : Recovery := ⟨[], WriteBatch.new, false⟩

variable [Primitives]

/-- The `match` on the entry of a record. -/
def process (r : Recovery) (entry : WalEntry) : Recovery :=
  match entry with
  | .saveBlock _ block => { r with currentBatch := r.currentBatch.addBlock block }
  | .saveTransaction _ tx => { r with currentBatch := r.currentBatch.addTransaction tx }
  | .saveAccount address account =>
      { r with currentBatch := r.currentBatch.addAccount address account }
  | .deleteAccount address => { r with currentBatch := r.currentBatch.deleteAccount address }
  | .saveStateRoot height root =>
      { r with currentBatch := r.currentBatch.addStateRoot height root }
  | .batch _ => { r with batchOpen := true }
  | .checkpoint _ _ =>
      if r.batchOpen then ⟨r.batches ++ [r.currentBatch], WriteBatch.new, false⟩ else r

/-- The batches that are returned: the left-over one is added if it is not empty. -/
def finish (r : Recovery) : List WriteBatch :=
  if r.currentBatch.isEmpty then r.batches else r.batches ++ [r.currentBatch]

end Recovery

/-- `u32::from_le_bytes` of the first four bytes. -/
def readLength (bytes : Bytes) : ℕ :=
  (bytes.take 4).foldr (fun b n => b.toNat + 256 * n) 0

section Recover

variable [Primitives] [WalCodec]

/-- The loop of `recover_from_file` over the bytes that are left.  Every round takes
at least the four bytes of the length, so as many rounds as there are bytes are
enough. -/
def recoverLoop : ℕ → Bytes → Recovery → Except PacyteError Recovery
  | 0, _, r => .ok r
  | fuel + 1, bytes, r =>
      if bytes.length < 4 then
        -- the end of the file
        .ok r
      else if (bytes.drop 4).length < readLength bytes then
        .error (.diskIoFailure "failed to fill whole buffer")
      else
        match WalCodec.deserialize ((bytes.drop 4).take (readLength bytes)) with
        | .error e => .error (.diskIoFailure ("Deserialize failed: " ++ e))
        | .ok record =>
            recoverLoop fuel ((bytes.drop 4).drop (readLength bytes))
              (if record.verify then r.process record.entry else r)

/-- `WalManager::recover_from_file`. -/
def recoverFromFile (bytes : Bytes) : Except PacyteError (List WriteBatch) :=
  (recoverLoop (bytes.length + 1) bytes Recovery.start).map Recovery.finish

/-- The loop of `recover` over the listing of the directory. -/
def recoverFiles : List (String × Bytes) → Except PacyteError (List WriteBatch)
  | [] => .ok []
  | (name, bytes) :: rest =>
      if hasLogExtension name then do
        let recovered ← recoverFromFile bytes
        let batches ← recoverFiles rest
        return recovered ++ batches
      else recoverFiles rest

/-- `WalManager::recover`, for the order in which `read_dir` lists the directory. -/
def WalManager.recover (wal : WalManager) (listing : List (String × Bytes)) :
    Except PacyteError (List WriteBatch) :=
  if wal.config.enabled then recoverFiles listing else .ok []

end Recover
