/-
# Replaying the log

Recovery is a second interpreter of the log: it collects the entries of each file in
batches, which are then written to the storage.  It is compared with the first one,
which applies the entries one by one in the order in which they were appended
(`applyEntries`).

The two differ in two places.  The entries inside a `Batch` are not collected, and the
files are read in the order in which the directory lists them.  The comparison holds
for logs where neither matters (`Replayable`).
-/
import Pacyte.WalRecovery
import Pacyte.BatchReplay

open MemoryStorage

/-! ## Applying entries -/

namespace WalEntry

/-- The block that an entry saves. -/
def savedBlock : WalEntry → Option Block
  | saveBlock _ block => some block
  | _ => none

/-- The transaction that an entry saves, under its hash. -/
def savedTransaction [Primitives] : WalEntry → Option (Hash × Transaction)
  | saveTransaction _ tx => some (tx.hash, tx)
  | _ => none

/-- The account that an entry saves or deletes. -/
def writtenAccount : WalEntry → Option (Address × Option Account)
  | saveAccount address account => some (address, some account)
  | deleteAccount address => some (address, none)
  | _ => none

/-- The state root that an entry saves. -/
def savedStateRoot : WalEntry → Option (BlockHeight × Hash)
  | saveStateRoot height root => some (height, root)
  | _ => none

mutual

/-- The entry writes nothing, not even inside of batches. -/
def inert : WalEntry → Bool
  | checkpoint _ _ => true
  | batch entries => inertAll entries
  | _ => false

/-- No entry of the list writes anything. -/
def inertAll : List WalEntry → Bool
  | [] => true
  | entry :: rest => inert entry && inertAll rest

end

/-- A batch of inert entries, or no batch at all. -/
def flat : WalEntry → Bool
  | batch entries => inertAll entries
  | _ => true

end WalEntry

section Apply

variable [Primitives]

mutual

/-- The write of an entry to the storage; a batch means its entries in order. -/
def applyEntry : WalEntry → Exec PacyteError MemoryStorage Unit
  | .saveBlock _ block => Storage.saveBlock block
  | .saveTransaction _ tx => Storage.saveTransaction tx
  | .saveAccount address account => Storage.saveAccount address account
  | .deleteAccount address => Storage.deleteAccount address
  | .saveStateRoot height root => Storage.saveStateRoot height root
  | .batch entries => applyEntries entries
  | .checkpoint _ _ => return ()

/-- Some entries, one by one. -/
def applyEntries : List WalEntry → Exec PacyteError MemoryStorage Unit
  | [] => return ()
  | entry :: rest => do
    applyEntry entry
    applyEntries rest

end

mutual

theorem applyEntry_inert : ∀ (entry : WalEntry) (s : MemoryStorage), entry.inert = true →
    applyEntry entry s = (.ok (), s)
  | .checkpoint _ _, s, _ => by
      rw [applyEntry]
      rfl
  | .batch entries, s, h => by
      rw [applyEntry]
      exact applyEntries_inert entries s h
  | .saveBlock _ _, _, h => by cases h
  | .saveTransaction _ _, _, h => by cases h
  | .saveAccount _ _, _, h => by cases h
  | .deleteAccount _, _, h => by cases h
  | .saveStateRoot _ _, _, h => by cases h

theorem applyEntries_inert : ∀ (entries : List WalEntry) (s : MemoryStorage),
    WalEntry.inertAll entries = true → applyEntries entries s = (.ok (), s)
  | [], s, _ => by
      rw [applyEntries]
      rfl
  | entry :: rest, s, h => by
      rw [WalEntry.inertAll, Bool.and_eq_true] at h
      rw [applyEntries, Exec.run_bind_of_ok (applyEntry_inert entry s h.1)]
      exact applyEntries_inert rest s h.2

end

/-- The writes of some entries as one batch. -/
def batchOf (entries : List WalEntry) : WriteBatch where
  blocks := (entries.filterMap WalEntry.savedBlock).map fun block => (block.header.height, block)
  transactions := entries.filterMap WalEntry.savedTransaction
  accounts := entries.filterMap WalEntry.writtenAccount
  stateRoots := entries.filterMap WalEntry.savedStateRoot

omit [Primitives] in
theorem merge_cons (batch : WriteBatch) (batches : List WriteBatch) :
    merge (batch :: batches) = merge [batch, merge batches] := by
  simp [merge]

theorem batchOf_append (entries entries' : List WalEntry) :
    batchOf (entries ++ entries') = merge [batchOf entries, batchOf entries'] := by
  simp [batchOf, merge]

/-- An entry without writes inside a batch is written like a batch of its own. -/
theorem applyEntry_eq (entry : WalEntry) (h : entry.flat = true) (s : MemoryStorage) :
    applyEntry entry s = Storage.writeBatch (batchOf [entry]) s := by
  cases entry with
  | saveBlock height block =>
      rw [applyEntry]
      show saveBlock block s = ((saveBlock block >>= fun _ => pure ()) >>= fun _ => _) s
      rw [Exec.run_bind, Exec.run_bind]
      rcases saveBlock block s with ⟨_ | _ | _, s'⟩ <;> rfl
  | batch entries =>
      rw [applyEntry, applyEntries_inert entries s h]
      rfl
  | saveTransaction hash tx => rw [applyEntry]; rfl
  | saveAccount address account => rw [applyEntry]; rfl
  | deleteAccount address => rw [applyEntry]; rfl
  | saveStateRoot height root => rw [applyEntry]; rfl
  | checkpoint lsn timestamp => rw [applyEntry]; rfl

/-- Entries that are applied one by one. -/
theorem writes_applyEntries (entries : List WalEntry) (h : ∀ e ∈ entries, e.flat = true)
    (s : MemoryStorage) : Writes (batchOf entries) s (applyEntries entries s) := by
  have hrun : applyEntries entries s
      = forEach Storage.writeBatch (entries.map fun e => batchOf [e]) s := by
    induction entries generalizing s with
    | nil => rw [applyEntries]; rfl
    | cons entry rest ih =>
        have hrest := ih fun e he => h e (List.mem_cons_of_mem entry he)
        rw [applyEntries, List.map_cons, forEach, Exec.run_bind, Exec.run_bind,
          applyEntry_eq entry (h entry List.mem_cons_self)]
        simp only [hrest]
  have hmerge : merge (entries.map fun e => batchOf [e]) = batchOf entries := by
    clear hrun h
    induction entries with
    | nil => rfl
    | cons entry rest ih =>
        rw [List.map_cons, merge_cons, ih]
        exact (batchOf_append [entry] rest).symm
  rw [hrun, ← hmerge]
  exact writes_batches _ s

end Apply

/-! ## What recovery collects -/

namespace Recovery

variable [Primitives]

/-- All that was collected so far, as one batch. -/
def total (r : Recovery) : WriteBatch := merge (r.batches ++ [r.currentBatch])

theorem total_process (r : Recovery) (entry : WalEntry) :
    (r.process entry).total = merge [r.total, batchOf [entry]] := by
  cases entry with
  | checkpoint lsn timestamp =>
      unfold process
      dsimp only
      split_ifs with hopen
      · simp [total, merge, batchOf, WriteBatch.new, WalEntry.savedBlock,
          WalEntry.savedTransaction, WalEntry.writtenAccount, WalEntry.savedStateRoot]
      · simp [total, merge, batchOf, WalEntry.savedBlock,
          WalEntry.savedTransaction, WalEntry.writtenAccount, WalEntry.savedStateRoot]
  | _ =>
      simp [process, total, merge, batchOf, WriteBatch.addBlock, WriteBatch.addTransaction,
        WriteBatch.addAccount, WriteBatch.deleteAccount, WriteBatch.addStateRoot,
        WalEntry.savedBlock, WalEntry.savedTransaction, WalEntry.writtenAccount,
        WalEntry.savedStateRoot]

omit [Primitives] in
/-- The left-over batch is dropped only if it is empty. -/
theorem merge_finish (r : Recovery) : merge r.finish = r.total := by
  unfold finish total
  split_ifs with hempty
  · simp only [WriteBatch.isEmpty, Bool.and_eq_true, List.isEmpty_iff] at hempty
    obtain ⟨⟨⟨hblocks, htransactions⟩, haccounts⟩, hroots⟩ := hempty
    simp [merge, hblocks, htransactions, haccounts, hroots]
  · rfl

end Recovery

namespace WalManager

section Collect

variable [Primitives]

theorem total_processAll (records : List WalRecord) (r : Recovery) :
    (processAll records r).total = merge [r.total, batchOf (records.map (·.entry))] := by
  induction records generalizing r with
  | nil => simp [processAll, batchOf, merge]
  | cons record rest ih =>
      have hstep : processAll (record :: rest) r = processAll rest (r.process record.entry) := rfl
      rw [hstep, ih, Recovery.total_process, List.map_cons]
      have hcons := batchOf_append [record.entry] (rest.map (·.entry))
      rw [List.singleton_append] at hcons
      rw [hcons]
      simp [merge]

/-- The batches of a file together are its entries in order. -/
theorem merge_contents (records : List WalRecord) :
    merge (contents records) = batchOf (records.map (·.entry)) := by
  rw [contents, Recovery.merge_finish, total_processAll]
  simp [Recovery.total, Recovery.start, WriteBatch.new, merge]

/-- The batches of some files together are the entries, file by file. -/
theorem merge_flatMap_contents (log : List (String × WalRecord)) (names : List String) :
    merge (names.flatMap fun name => contents (recordsOf log name))
      = batchOf ((regroup names log).map (·.entry)) := by
  induction names with
  | nil => rfl
  | cons name rest ih =>
      have hregroup : regroup (name :: rest) log = recordsOf log name ++ regroup rest log := rfl
      rw [hregroup, List.map_append, batchOf_append, ← ih, ← merge_contents, List.flatMap_cons]
      simp [merge]

variable [LawfulWalCodec]

/-- Reading the files of a directory that holds a log. -/
theorem recoverFiles_eq {directory : Map String Bytes} {log : List (String × WalRecord)}
    (hfiled : Filed directory log) (hshort : ∀ e ∈ log, Short e.2)
    (hverify : ∀ e ∈ log, e.2.verify = true) (listing : List (String × Bytes))
    (hlisting : ∀ e ∈ listing, directory.lookup e.1 = some e.2) :
    recoverFiles listing
      = .ok ((listing.map Prod.fst).flatMap fun name => contents (recordsOf log name)) := by
  induction listing with
  | nil => rfl
  | cons e rest ih =>
      obtain ⟨name, bytes⟩ := e
      have hlookup := hlisting (name, bytes) List.mem_cons_self
      have hmem : name ∈ directory := AList.lookup_isSome.mp (by rw [hlookup]; rfl)
      have hrecord : ∀ record ∈ recordsOf log name, ∃ e ∈ log, e.2 = record := by
        intro record hrecord
        obtain ⟨e, he, heq⟩ := List.mem_map.mp hrecord
        exact ⟨e, (List.mem_filter.mp he).1, heq⟩
      have hfile : recoverFromFile bytes = .ok (contents (recordsOf log name)) := by
        rw [hfiled.content name bytes hlookup]
        apply recoverFromFile_frames
        · intro record h
          obtain ⟨e, he, rfl⟩ := hrecord record h
          exact hshort e he
        · intro record h
          obtain ⟨e, he, rfl⟩ := hrecord record h
          exact hverify e he
      rw [recoverFiles, if_pos (hfiled.extension name hmem), hfile,
        ih fun e he => hlisting e (List.mem_cons_of_mem _ he)]
      rfl

end Collect

end WalManager

/-! ## Logs that can be replayed -/

section Replayable

variable [Primitives]

/-- No key of this kind of write occurs in two files. -/
def OneFile {β κ : Type} (log : List (String × WalRecord)) (write : WalEntry → Option β)
    (key : β → κ) : Prop :=
  ∀ e ∈ log, ∀ e' ∈ log, (write e.2.entry).isSome →
    (write e.2.entry).map key = (write e'.2.entry).map key → e.1 = e'.1

/-- The blocks of the log are all in one file; or each height is in one file, and every
height below that of a saved block has a saved block. -/
def BlocksReplayable (log : List (String × WalRecord)) : Prop :=
  OneFile log WalEntry.savedBlock (fun _ => ()) ∨
    (OneFile log WalEntry.savedBlock (fun block => block.header.height) ∧
      ∀ e ∈ log, ∀ block, e.2.entry.savedBlock = some block → ∀ height < block.header.height,
        ∃ e' ∈ log, (e'.2.entry.savedBlock).map (fun b => b.header.height) = some height)

/-- Neither the contents of batches nor the order of the files matters for this log. -/
structure Replayable (log : List (String × WalRecord)) : Prop where
  flat : ∀ e ∈ log, e.2.entry.flat = true
  blocks : BlocksReplayable log
  transactions : OneFile log WalEntry.savedTransaction Prod.fst
  accounts : OneFile log WalEntry.writtenAccount Prod.fst
  stateRoots : OneFile log WalEntry.savedStateRoot Prod.fst

/-- Two runs on the storage end alike: with the same outcome and, if they succeed, with
the same blocks, transactions, accounts and state roots. -/
structure SameContents (r r' : Outcome PacyteError Unit × MemoryStorage) : Prop where
  outcome : r.1 = r'.1
  blocks : r.1 = .ok () → r.2.blocks = r'.2.blocks
  transactions : r.1 = .ok () → r.2.transactions.lookup = r'.2.transactions.lookup
  accounts : r.1 = .ok () → r.2.accounts.lookup = r'.2.accounts.lookup
  stateRoots : r.1 = .ok () → r.2.stateRoots.lookup = r'.2.stateRoots.lookup

/-- Batches with the same effect on the blocks and with the same writes to every key. -/
theorem SameContents.of_writes {batch batch' : WriteBatch} {s : MemoryStorage}
    {r r' : Outcome PacyteError Unit × MemoryStorage} (h : Writes batch s r)
    (h' : Writes batch' s r')
    (hblocks : (placeAll (batch.blocks.map Prod.snd) (s.blocks, s.clock)).map Prod.fst
      = (placeAll (batch'.blocks.map Prod.snd) (s.blocks, s.clock)).map Prod.fst)
    (htransactions : ∀ k, ((transactionWrites batch).filter fun w => w.1 = k)
      = (transactionWrites batch').filter fun w => w.1 = k)
    (haccounts : ∀ k, (batch.accounts.filter fun w => w.1 = k)
      = batch'.accounts.filter fun w => w.1 = k)
    (hroots : ∀ k, ((stateRootWrites batch).filter fun w => w.1 = k)
      = (stateRootWrites batch').filter fun w => w.1 = k) : SameContents r r' := by
  unfold Writes at h h'
  cases hplace : placeAll (batch.blocks.map Prod.snd) (s.blocks, s.clock) with
  | none =>
      rw [hplace] at h hblocks
      have hnone : placeAll (batch'.blocks.map Prod.snd) (s.blocks, s.clock) = none :=
        Option.map_eq_none_iff.mp hblocks.symm
      rw [hnone] at h'
      have hpanic : r.1 ≠ .ok () := by
        rw [h]
        exact fun heq => nomatch heq
      exact ⟨h.trans h'.symm, fun hok => absurd hok hpanic, fun hok => absurd hok hpanic,
        fun hok => absurd hok hpanic, fun hok => absurd hok hpanic⟩
  | some p =>
      rw [hplace, Option.map_some] at hblocks
      obtain ⟨p', hplace', hp⟩ := Option.map_eq_some_iff.mp hblocks.symm
      rw [hplace] at h
      rw [hplace'] at h'
      obtain ⟨hok, hstate, hwrote⟩ := h
      obtain ⟨hok', hstate', hwrote'⟩ := h'
      refine ⟨hok.trans hok'.symm, fun _ => ?_, fun _ => ?_, fun _ => ?_, fun _ => ?_⟩
      · rw [← hstate, ← hstate'] at hp
        exact hp.symm
      · rw [hwrote.transactions, hwrote'.transactions, overwrite_congr_filter htransactions]
      · rw [hwrote.accounts, hwrote'.accounts, overwrite_congr_filter haccounts]
      · rw [hwrote.stateRoots, hwrote'.stateRoots, overwrite_congr_filter hroots]

section Regrouped

variable {log : List (String × WalRecord)} {names : List String} (hnodup : names.Nodup)
  (hcover : ∀ e ∈ log, e.1 ∈ names)

omit [Primitives] in
include hnodup hcover in
/-- The writes of one kind to one key stand in one file, so their order is kept. -/
theorem filter_filterMap_entries {β κ : Type} [DecidableEq κ] {write : WalEntry → Option β}
    {key : β → κ} (hone : OneFile log write key) (k : κ) :
    ((((regroup names log).map (·.entry)).filterMap write).filter fun w => key w = k)
      = (((log.map Prod.snd).map (·.entry)).filterMap write).filter fun w => key w = k := by
  rw [List.filterMap_map, List.filterMap_map]
  exact filter_filterMap_regroup (g := write ∘ WalRecord.entry) hnodup hcover hone k

omit [Primitives] in
include hnodup hcover in
/-- All blocks stand in one file, so their order is kept. -/
theorem filterMap_savedBlock (hone : OneFile log WalEntry.savedBlock (fun _ => ())) :
    ((regroup names log).map (·.entry)).filterMap WalEntry.savedBlock
      = ((log.map Prod.snd).map (·.entry)).filterMap WalEntry.savedBlock := by
  rw [List.filterMap_map, List.filterMap_map]
  apply filterMap_regroup hnodup hcover
  intro e he e' he' hsome hsome'
  refine hone e he e' he' hsome ?_
  obtain ⟨b, hb⟩ := Option.isSome_iff_exists.mp hsome
  obtain ⟨b', hb'⟩ := Option.isSome_iff_exists.mp hsome'
  rw [show e.2.entry.savedBlock = some b from hb, show e'.2.entry.savedBlock = some b' from hb']
  rfl

include hnodup hcover in
/-- The blocks of a log that can be replayed. -/
theorem placeAll_regroup (hblocks : BlocksReplayable log) (clock : Clock) :
    (placeAll (((regroup names log).map (·.entry)).filterMap WalEntry.savedBlock)
        ([], clock)).map Prod.fst
      = (placeAll (((log.map Prod.snd).map (·.entry)).filterMap WalEntry.savedBlock)
        ([], clock)).map Prod.fst := by
  rcases hblocks with hone | ⟨hone, hgap⟩
  · rw [filterMap_savedBlock hnodup hcover hone]
  · symm
    apply placeAll_congr
    · intro i
      have hindex : OneFile log WalEntry.savedBlock index := by
        intro e he e' he' hsome heq
        refine hone e he e' he' hsome ?_
        obtain ⟨b, hb⟩ := Option.isSome_iff_exists.mp hsome
        rw [hb, Option.map_some, eq_comm, Option.map_eq_some_iff] at heq
        obtain ⟨b', hb', hi⟩ := heq
        rw [hb, hb', Option.map_some, Option.map_some, UInt64.toNat_inj.mp hi]
      exact (filter_filterMap_entries hnodup hcover hindex i).symm
    · intro block hblock height hlt
      simp only [List.mem_filterMap, List.mem_map] at hblock ⊢
      obtain ⟨_, ⟨_, ⟨e, he, rfl⟩, rfl⟩, hsaved⟩ := hblock
      obtain ⟨e', he', hheight⟩ := hgap e he block hsaved height hlt
      obtain ⟨block', hblock', rfl⟩ := Option.map_eq_some_iff.mp hheight
      exact ⟨block', ⟨_, ⟨_, ⟨e', he', rfl⟩, rfl⟩, hblock'⟩, rfl⟩

include hnodup hcover in
/-- **The order of the files does not matter** for a log that can be replayed. -/
theorem Replayable.sameContents (hlog : Replayable log) (clock : Clock)
    {r r' : Outcome PacyteError Unit × MemoryStorage}
    (h : Writes (batchOf ((log.map Prod.snd).map (·.entry))) (MemoryStorage.new clock) r)
    (h' : Writes (batchOf ((regroup names log).map (·.entry))) (MemoryStorage.new clock) r') :
    SameContents r r' := by
  have hsnd : ∀ entries, (batchOf entries).blocks.map Prod.snd
      = entries.filterMap WalEntry.savedBlock := by
    intro entries
    simp [batchOf, List.map_map, Function.comp_def]
  apply SameContents.of_writes h h'
  · rw [hsnd, hsnd]
    exact (placeAll_regroup hnodup hcover hlog.blocks clock).symm
  · intro k
    have hhash : OneFile log WalEntry.savedTransaction (fun w => w.2.hash) := by
      have hfst : ∀ entry : WalEntry, entry.savedTransaction.map (fun w => w.2.hash)
          = entry.savedTransaction.map Prod.fst := by
        intro entry
        cases entry <;> rfl
      intro e he e' he' hsome heq
      rw [hfst, hfst] at heq
      exact hlog.transactions e he e' he' hsome heq
    rw [transactionWrites, transactionWrites, List.filter_map, List.filter_map]
    exact congrArg _ (filter_filterMap_entries hnodup hcover hhash k).symm
  · intro k
    exact (filter_filterMap_entries hnodup hcover hlog.accounts k).symm
  · intro k
    rw [stateRootWrites, stateRootWrites, List.filter_map, List.filter_map]
    exact congrArg _ (filter_filterMap_entries hnodup hcover hlog.stateRoots k).symm

end Regrouped

end Replayable

/-! ## Runs -/

namespace WalOp

open WalManager

variable [LawfulWalCodec]

/-- The entries that an operation appends. -/
def entriesOf (op : WalOp) (wal : WalManager) : List WalEntry :=
  match op with
  | append entry => [entry]
  | checkpoint => [checkpointEntry wal]
  | _ => []

/-- The entries that some operations append. -/
def entriesOfAll : List WalOp → WalManager → List WalEntry
  | [], _ => []
  | op :: rest, wal => op.entriesOf wal ++ entriesOfAll rest (op.run wal).2

/-- A restart finds no pending entries. -/
def Settled (op : WalOp) (wal : WalManager) : Prop :=
  match op with
  | reopen => wal.pendingEntries = []
  | _ => True

/-- Every operation succeeds, and a restart finds no pending entries. -/
def Accepted : List WalOp → WalManager → Prop
  | [], _ => True
  | op :: rest, wal =>
      (op.run wal).1 = .ok () ∧ op.Settled wal ∧ Accepted rest (op.run wal).2

theorem entries_sealAll (lsn : UInt64) (entries : List WalEntry) (clock : Clock) :
    (sealAll lsn entries clock).map (·.entry) = entries := by
  induction entries generalizing clock with
  | nil => rfl
  | cons entry rest ih =>
      rw [sealAll, List.map_cons, ih]
      rfl

/-- A flush that succeeds writes all pending entries. -/
theorem flush_entries {wal : WalManager} (henabled : wal.config.enabled = true)
    (hok : (WalManager.flush wal).1 = .ok ()) :
    (wal.flushedRecords.map Prod.snd).map (·.entry) = wal.pendingEntries := by
  rw [flush_run] at hok
  simp only [henabled, Bool.not_true, Bool.false_eq_true, if_false] at hok
  cases hpending : wal.pendingEntries with
  | nil =>
      rw [flushedRecords_of_nil hpending]
      rfl
  | cons entry rest =>
      rw [hpending] at hok
      rw [flushedRecords, if_pos henabled, hpending]
      cases hfile : wal.currentFile with
      | none =>
          rw [hfile] at hok
          cases hok
      | some file =>
          rw [List.map_map, List.map_map]
          exact entries_sealAll _ _ _

/-- An append that succeeds adds its entry to those that are written or pending. -/
theorem append_entries {wal : WalManager} (entry : WalEntry)
    (henabled : wal.config.enabled = true) (hok : ∃ n, (WalManager.append entry wal).1 = .ok n) :
    ((appendedRecords entry wal).map Prod.snd).map (·.entry) ++
        (WalManager.append entry wal).2.pendingEntries = wal.pendingEntries ++ [entry] ∧
      (WalManager.append entry wal).2.config = wal.config := by
  obtain ⟨n, hok⟩ := hok
  rw [append_run] at hok ⊢
  rw [appendedRecords]
  simp only [henabled, Bool.not_true, Bool.false_eq_true, if_false, true_and] at hok ⊢
  by_cases hover : 2 ^ 64 ≤ wal.currentLsn.toNat + 1
  · rw [if_pos hover] at hok
    cases hok
  · rw [if_neg hover] at hok ⊢
    by_cases hfull : wal.config.maxPendingEntries ≤ wal.pendingEntries.length + 1
    · rw [if_pos hfull] at hok ⊢
      rw [if_pos ⟨hover, hfull⟩]
      have hflush : (WalManager.flush (wal.numbered entry)).1 = .ok () := by
        dsimp only at hok
        cases hrun : (WalManager.flush (wal.numbered entry)).1 with
        | ok a => rfl
        | err e =>
            rw [hrun] at hok
            cases hok
        | panic =>
            rw [hrun] at hok
            cases hok
      have hnumbered : (wal.numbered entry).config.enabled = true := henabled
      obtain ⟨hpending, -, hconfig, -⟩ := flush_state hnumbered
      refine ⟨?_, hconfig⟩
      rw [flush_entries hnumbered hflush]
      show _ ++ (WalManager.flush (wal.numbered entry)).2.pendingEntries = _
      rw [hpending, List.append_nil]
      rfl
    · rw [if_neg hfull, if_neg fun hand => hfull hand.2]
      exact ⟨rfl, rfl⟩

/-- **Every operation that succeeds keeps the entries**: what is written and pending after
it is what was pending and what it appends. -/
theorem run_entries {op : WalOp} {wal : WalManager} (henabled : wal.config.enabled = true)
    (hok : (op.run wal).1 = .ok ()) (hsettled : op.Settled wal) :
    ((op.writes wal).map Prod.snd).map (·.entry) ++ (op.run wal).2.pendingEntries
        = wal.pendingEntries ++ op.entriesOf wal ∧ (op.run wal).2.config = wal.config := by
  cases op with
  | append entry =>
      apply append_entries entry henabled
      change (WalManager.append entry wal).1.discard = .ok () at hok
      cases hrun : (WalManager.append entry wal).1 with
      | ok n => exact ⟨n, rfl⟩
      | err e =>
          rw [hrun] at hok
          cases hok
      | panic =>
          rw [hrun] at hok
          cases hok
  | flush =>
      obtain ⟨hpending, -, hconfig, -⟩ := flush_state henabled
      refine ⟨?_, hconfig⟩
      rw [writes, flush_entries henabled hok]
      show _ ++ (WalManager.flush wal).2.pendingEntries = _
      rw [hpending]
      rfl
  | checkpoint =>
      change (WalManager.checkpoint wal).1 = .ok () at hok
      show _ ++ (WalManager.checkpoint wal).2.pendingEntries = _ ∧
        (WalManager.checkpoint wal).2.config = _
      rw [checkpoint_run] at hok ⊢
      rw [writes]
      have happend := append_entries (checkpointEntry wal)
        (show (checkpointing wal).config.enabled = true from henabled)
      rcases hrun : WalManager.append (checkpointEntry wal) (checkpointing wal)
        with ⟨n | _ | _, wal'⟩
      · rw [hrun] at hok happend
        dsimp only at hok happend ⊢
        obtain ⟨hfirst, hconfig⟩ := happend ⟨n, rfl⟩
        have henabled' : (release wal.guards.held wal').config.enabled = true :=
          (congrArg WalConfig.enabled hconfig).trans henabled
        obtain ⟨hpending, -, hconfig', -⟩ := flush_state henabled'
        refine ⟨?_, hconfig'.trans hconfig⟩
        rw [List.map_append, List.map_append, flush_entries henabled' hok, hpending,
          List.append_nil]
        exact hfirst
      · rw [hrun] at hok
        cases hok
      · rw [hrun] at hok
        cases hok
  | close =>
      change (WalManager.close wal).1 = .ok () at hok
      show _ ++ (WalManager.close wal).2.pendingEntries = _ ∧
        (WalManager.close wal).2.config = _
      unfold WalManager.close at hok ⊢
      rw [Exec.run_bind] at hok ⊢
      have hstate := flush_state henabled
      rcases hrun : WalManager.flush wal with ⟨_ | _ | _, wal'⟩
      · have hentries := flush_entries henabled (by rw [hrun])
        rw [hrun] at hstate
        obtain ⟨hpending, -, hconfig, -⟩ := hstate
        refine ⟨?_, hconfig⟩
        rw [writes, hentries]
        show _ ++ wal'.pendingEntries = _
        rw [show wal'.pendingEntries = [] from hpending]
        rfl
      · rw [hrun] at hok
        cases hok
      · rw [hrun] at hok
        cases hok
  | reopen =>
      refine ⟨?_, rfl⟩
      show [] = wal.pendingEntries ++ []
      rw [show wal.pendingEntries = [] from hsettled]
      rfl

/-- The entries that were appended in a run are those of the log and the pending ones. -/
theorem runAll_entries {ops : List WalOp} {wal : WalManager}
    (henabled : wal.config.enabled = true) (h : Accepted ops wal) :
    ((writesAll ops wal).map Prod.snd).map (·.entry) ++ (runAll ops wal).pendingEntries
        = wal.pendingEntries ++ entriesOfAll ops wal ∧
      (runAll ops wal).config = wal.config := by
  induction ops generalizing wal with
  | nil => exact ⟨(List.append_nil _).symm, rfl⟩
  | cons op rest ih =>
      obtain ⟨hok, hsettled, hrest⟩ := h
      obtain ⟨hstep, hconfig⟩ := run_entries henabled hok hsettled
      obtain ⟨hentries, hconfig'⟩ := ih ((congrArg WalConfig.enabled hconfig).trans henabled) hrest
      refine ⟨?_, hconfig'.trans hconfig⟩
      show ((op.writes wal ++ writesAll rest (op.run wal).2).map Prod.snd).map (·.entry) ++
        (runAll rest (op.run wal).2).pendingEntries
          = wal.pendingEntries ++ (op.entriesOf wal ++ entriesOfAll rest (op.run wal).2)
      rw [List.map_append, List.map_append, List.append_assoc, hentries, ← List.append_assoc,
        hstep, List.append_assoc]

omit [LawfulWalCodec] in
/-- A listing names every file of the directory once, with its content. -/
theorem listing_of_perm {directory : Map String Bytes} {listing : List (String × Bytes)}
    (h : listing.Perm directory.toPairs) :
    (listing.map Prod.fst).Nodup ∧ (∀ name ∈ directory, name ∈ listing.map Prod.fst) ∧
      ∀ e ∈ listing, directory.lookup e.1 = some e.2 := by
  have hkeys : directory.toPairs.map Prod.fst = directory.keys := by
    rw [Map.toPairs, List.map_map]
    rfl
  refine ⟨?_, ?_, ?_⟩
  · rw [(h.map Prod.fst).nodup_iff, hkeys]
    exact directory.nodupKeys
  · intro name hname
    rw [(h.map Prod.fst).mem_iff, hkeys]
    exact AList.mem_keys.mp hname
  · intro e he
    obtain ⟨x, hx, rfl⟩ := List.mem_map.mp (h.mem_iff.mp he)
    exact AList.mem_lookup_iff.mpr hx

/-- **Replaying the log.**  Take any run on an empty directory in which every call
succeeds and at the end of which nothing is pending.  If the log can be replayed and its
records are short, then `recover` returns batches for every order in which the directory
may be listed, and writing them to an empty storage ends like applying the appended
entries one by one. -/
theorem recover_replays [Primitives] (config : WalConfig) (henabled : config.enabled = true)
    (clock : Clock) (ops : List WalOp) (haccepted : Accepted ops (WalManager.new ∅ config clock))
    (hflushed : (runAll ops (WalManager.new ∅ config clock)).pendingEntries = [])
    (hshort : ∀ e ∈ writesAll ops (WalManager.new ∅ config clock), Short e.2)
    (hreplayable : Replayable (writesAll ops (WalManager.new ∅ config clock)))
    (listing : List (String × Bytes))
    (hlisting : listing.Perm (runAll ops (WalManager.new ∅ config clock)).directory.toPairs)
    (storageClock : Clock) :
    ∃ batches, (runAll ops (WalManager.new ∅ config clock)).recover listing = .ok batches ∧
      SameContents
        (applyEntries (entriesOfAll ops (WalManager.new ∅ config clock))
          (MemoryStorage.new storageClock))
        (forEach Storage.writeBatch batches (MemoryStorage.new storageClock)) := by
  obtain ⟨hentries, hconfig⟩ := runAll_entries
    (show (WalManager.new ∅ config clock).config.enabled = true from henabled) haccepted
  change _ = entriesOfAll ops (WalManager.new ∅ config clock) at hentries
  rw [hflushed, List.append_nil] at hentries
  have hfiled := (logs_of_run config clock ops).filed
  obtain ⟨hnodup, hnames, hlookup⟩ := listing_of_perm hlisting
  have hrecover := recoverFiles_eq hfiled hshort (fun e he => verify_of_mem_writesAll he) listing
    hlookup
  refine ⟨(listing.map Prod.fst).flatMap fun name =>
    contents (recordsOf (writesAll ops (WalManager.new ∅ config clock)) name), ?_, ?_⟩
  · have hstill : (runAll ops (WalManager.new ∅ config clock)).config.enabled = true :=
      (congrArg WalConfig.enabled hconfig).trans henabled
    rw [WalManager.recover, if_pos hstill]
    exact hrecover
  · -- both sides write the entries of the log, one of them file by file
    refine hreplayable.sameContents hnodup (fun e he => hnames e.1 (hfiled.named e he))
      storageClock ?_ ?_
    · rw [hentries]
      apply writes_applyEntries
      intro entry hentry
      rw [← hentries, List.map_map] at hentry
      obtain ⟨e, he, rfl⟩ := List.mem_map.mp hentry
      exact hreplayable.flat e he
    · rw [← merge_flatMap_contents]
      exact writes_batches _ _

end WalOp

section Example

open WalManager WalOp
open scoped Sample

/-- Saving an account with a balance. -/
def savedAccount (b : UInt8) : WalEntry :=
  .saveAccount (Vector.replicate 32 b) (Account.new (Vector.replicate 32 b) 5 0)

/-- A batch with one account is appended and flushed. -/
def batchOnly : List WalOp := [.append (.batch [savedAccount 1]), .flush]

/-- The account inside the batch is not recovered. -/
theorem batch_contents_lost :
    let wal := Sample.emptyWal 1000000 10
    let after := runAll batchOnly wal
    Accepted batchOnly wal ∧ after.pendingEntries = [] ∧
      after.recover after.directory.toPairs = .ok [] ∧
      ¬ SameContents (applyEntries (entriesOfAll batchOnly wal) (MemoryStorage.new fun _ => 0))
        (forEach Storage.writeBatch [] (MemoryStorage.new fun _ => 0)) := by
  intro wal after
  refine ⟨⟨by decide, trivial, by rfl, trivial, trivial⟩,
    List.isEmpty_iff.mp (by rfl), ?_, ?_⟩
  · have hshort : ∀ e ∈ writesAll batchOnly wal, Short e.2 := by
      unfold Short
      decide +kernel
    obtain ⟨-, -, hlookup⟩ := listing_of_perm (List.Perm.refl after.directory.toPairs)
    refine (recoverFiles_eq (logs_of_run _ _ batchOnly).filed hshort
      (fun e he => verify_of_mem_writesAll he) _ hlookup).trans ?_
    exact congrArg Except.ok (List.isEmpty_iff.mp (by decide +kernel))
  · intro h
    have haccount := congrFun (h.accounts (by decide)) (Vector.replicate 32 1)
    revert haccount
    decide

/-- Two accounts, each in a file of its own. -/
def twoFiles : List WalOp :=
  [.append (savedAccount 1), .flush, .append (savedAccount 2), .checkpoint, .close]

/-- The accounts are recovered although the directory lists the later file first. -/
theorem two_files_replayed :
    let wal := Sample.emptyWal 1 10
    let after := runAll twoFiles wal
    1 < after.directory.toPairs.length ∧
      ∃ batches, after.recover after.directory.toPairs.reverse = .ok batches ∧
        SameContents (applyEntries (entriesOfAll twoFiles wal) (MemoryStorage.new fun _ => 0))
          (forEach Storage.writeBatch batches (MemoryStorage.new fun _ => 0)) := by
  intro wal after
  refine ⟨by decide +kernel, ?_⟩
  refine recover_replays _ rfl _ twoFiles ?_ (List.isEmpty_iff.mp (by decide +kernel)) ?_ ?_ _
    (List.reverse_perm _) _
  · exact ⟨by decide, trivial, by decide +kernel, trivial, by decide +kernel, trivial,
      by decide +kernel, trivial, by decide +kernel, trivial, trivial⟩
  · unfold Short
    decide +kernel
  · refine ⟨by decide +kernel, Or.inl ?_, ?_, ?_, ?_⟩
    · unfold OneFile
      decide +kernel
    · unfold OneFile
      decide +kernel
    · unfold OneFile
      decide +kernel
    · unfold OneFile
      decide +kernel

end Example
