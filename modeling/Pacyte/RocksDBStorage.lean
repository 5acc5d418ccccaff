/-
# The RocksDB storage

`RocksDBStorage` of `src/storage/rocksdb.rs`: five column families, a cache of
blocks and a cache of accounts, and the statistics.

The database itself is outside the repository.  Its column families are maps of
decoded values, a write batch is written as a whole or not at all, and every
call may fail: `faults` lists, for the calls to come, the message of the error
that the call returns, or `none` where it succeeds.  A call that fails changes
nothing in the database.

`cf_handle` makes an `Arc` of a borrowed handle, so dropping one takes a
neighbour in the map of handles for the counter of references (`drop`).  A handle
that was damaged in this way points beside its column family, and using it
crashes.
-/
import Pacyte.StateManager

/-- The column families that `RocksDBStorage` names. -/
inductive ColumnFamily : Type where
  | blocks
  | transactions
  | accounts
  | stateRoots
  | metadata
  deriving DecidableEq, Repr

/-- `RocksDBStorage`. -/
structure RocksDBStorage where
  cfBlocks : Map BlockHeight Block
  cfTransactions : Map Hash Transaction
  cfAccounts : Map Address Account
  cfStateRoots : Map BlockHeight Hash
  /-- `block_height` in the column family of the metadata. -/
  blockHeight : Option UInt64
  /-- `stats:total_blocks` and `stats:total_transactions` in the default family. -/
  statBlocks : Option UInt64
  statTransactions : Option UInt64
  /-- `StorageStats::total_blocks`. -/
  totalBlocks : UInt64
  blockCache : Map BlockHeight Block
  accountCache : Map Address Account
  faults : ℕ → Option String
  /-- The two handles that a drop can damage and that are used. -/
  blocksDamaged : Bool
  metadataDamaged : Bool

namespace RocksDBStorage

/-! ## Handles -/

/-- Whether the handle of a column family points beside it. -/
def damaged (s : RocksDBStorage) : ColumnFamily → Bool
  | .blocks => s.blocksDamaged
  | .metadata => s.metadataDamaged
  | _ => false

/-- A handle of `cf_handle` is dropped.  The map of handles is sorted by name: accounts,
blocks, default, metadata, state_roots, transactions.  The drop decrements what stands two
entries before: nothing for the first two, and for the state roots the handle of the default
family, which is never used. -/
def drop (family : ColumnFamily) (s : RocksDBStorage) : RocksDBStorage :=
  match family with
  | .metadata => { s with blocksDamaged := true }
  | .transactions => { s with metadataDamaged := true }
  | .accounts | .blocks | .stateRoots => s

/-- `cf_handle`, around the code that holds it: the handle is dropped however that ends. -/
def withHandle {α : Type} (family : ColumnFamily) (body : Exec PacyteError RocksDBStorage α) :
    Exec PacyteError RocksDBStorage α := fun s =>
  match body s with
  | (o, s') => (o, s'.drop family)

/-- The database is given a handle: a damaged one crashes. -/
def use (family : ColumnFamily) : Exec PacyteError RocksDBStorage Unit := do
  let s ← Exec.get
  if s.damaged family then
    Exec.abort

/-! ## Calls -/

/-- One call of the database: it fails as scheduled, or makes the change. -/
def call (f : RocksDBStorage → RocksDBStorage) : Exec PacyteError RocksDBStorage Unit := fun s =>
  let s' := { s with faults := fun k => s.faults (k + 1) }
  match s.faults 0 with
  | some message => (.err (.rocksDBError message), s')
  | none => (.ok (), f s')

/-- A database call that reads. -/
def read {α : Type} (f : RocksDBStorage → α) : Exec PacyteError RocksDBStorage α := do
  call id
  let s ← Exec.get
  return f s

/-- `put_cf` and `delete_cf`. -/
def callCf (family : ColumnFamily) (f : RocksDBStorage → RocksDBStorage) :
    Exec PacyteError RocksDBStorage Unit := do
  use family
  call f

/-- `get_cf`. -/
def readCf {α : Type} (family : ColumnFamily) (f : RocksDBStorage → α) :
    Exec PacyteError RocksDBStorage α := do
  use family
  read f

/-- `write_metadata` of `block_height`. -/
def writeMetadata (height : BlockHeight) : Exec PacyteError RocksDBStorage Unit :=
  withHandle .metadata do
    callCf .metadata fun s => { s with blockHeight := some height }

/-- `increment_stat` by one, for the counter read by `view` and written by `put`. -/
def incrementStat (view : RocksDBStorage → Option UInt64)
    (put : UInt64 → RocksDBStorage → RocksDBStorage) : Exec PacyteError RocksDBStorage Unit := do
  let stored ← read view
  let next ← Exec.addU64 (stored.getD 0) 1
  call (put next)

/-- `save_block`.  The block is in the database and in the cache before the
height and the counters follow. -/
def saveBlock (block : Block) : Exec PacyteError RocksDBStorage Unit :=
  withHandle .blocks do
    callCf .blocks fun s => { s with cfBlocks := s.cfBlocks.insert block.header.height block }
    Exec.modify fun s => { s with blockCache := s.blockCache.insert block.header.height block }
    writeMetadata block.header.height
    incrementStat (·.statBlocks) (fun n s => { s with statBlocks := some n })
    let total ← Exec.addU64 block.header.height 1
    Exec.modify fun s => { s with totalBlocks := total }

/-- `get_block`. -/
def getBlock (height : BlockHeight) : Exec PacyteError RocksDBStorage (Option Block) := do
  let s ← Exec.get
  match s.blockCache.lookup height with
  | some block => return some block
  | none =>
    withHandle .blocks do
      match ← readCf .blocks (·.cfBlocks.lookup height) with
      | some block =>
        Exec.modify fun s => { s with blockCache := s.blockCache.insert height block }
        return some block
      | none => return none

/-- `get_block_height`. -/
def getBlockHeight : Exec PacyteError RocksDBStorage BlockHeight :=
  withHandle .metadata do
    let stored ← readCf .metadata (·.blockHeight)
    return stored.getD 0

/-- `account_exists`. -/
def accountExists (address : Address) : Exec PacyteError RocksDBStorage Bool := do
  let s ← Exec.get
  if (s.accountCache.lookup address).isSome then
    return true
  else
    withHandle .accounts do
      let stored ← readCf .accounts (·.cfAccounts.lookup address)
      return stored.isSome

/-- `get_latest_block`: at height 0 there is one only if the zero account exists. -/
def getLatestBlock : Exec PacyteError RocksDBStorage (Option Block) := do
  let height ← getBlockHeight
  if height = 0 then
    if ← accountExists zero32 then
      getBlock height
    else
      return none
  else
    getBlock height

/-- `get_account`. -/
def getAccount (address : Address) : Exec PacyteError RocksDBStorage (Option Account) := do
  let s ← Exec.get
  match s.accountCache.lookup address with
  | some account => return some account
  | none =>
    withHandle .accounts do
      match ← readCf .accounts (·.cfAccounts.lookup address) with
      | some account =>
        Exec.modify fun s => { s with accountCache := s.accountCache.insert address account }
        return some account
      | none => return none

/-- An account written to, or deleted from, a map. -/
def putAccount (m : Map Address Account) (e : Address × Option Account) : Map Address Account :=
  match e.2 with
  | some account => m.insert e.1 account
  | none => m.erase e.1

/-- The one call that writes a batch. -/
def putBatch (batch : WriteBatch) (s : RocksDBStorage) : RocksDBStorage :=
  { s with
    cfBlocks := batch.blocks.foldl (fun m e => m.insert e.1 e.2) s.cfBlocks
    cfTransactions := batch.transactions.foldl (fun m e => m.insert e.1 e.2) s.cfTransactions
    cfAccounts := batch.accounts.foldl putAccount s.cfAccounts
    cfStateRoots := batch.stateRoots.foldl (fun m e => m.insert e.1 e.2) s.cfStateRoots }

/-- The entries of one family are put into the batch of the database, each with the handle. -/
def addEntries {α : Type} (family : ColumnFamily) (entries : List α) :
    Exec PacyteError RocksDBStorage Unit :=
  match entries with
  | [] => return ()
  | _ :: rest => do
    use family
    addEntries family rest

/-- `write_batch`: the batch, then the caches.  All four handles are taken for every batch. -/
def writeBatch (batch : WriteBatch) : Exec PacyteError RocksDBStorage Unit :=
  withHandle .blocks <| withHandle .transactions <| withHandle .accounts <|
    withHandle .stateRoots do
      addEntries .blocks batch.blocks
      addEntries .transactions batch.transactions
      addEntries .accounts batch.accounts
      addEntries .stateRoots batch.stateRoots
      call (putBatch batch)
      Exec.modify fun s =>
        { s with
          blockCache := batch.blocks.foldl (fun m e => m.insert e.1 e.2) s.blockCache
          accountCache := batch.accounts.foldl putAccount s.accountCache }

instance [Primitives] : Storage RocksDBStorage where
  saveBlock := saveBlock
  getBlock := getBlock
  getLatestBlock := getLatestBlock
  getBlockHeight := getBlockHeight
  saveTransaction tx := withHandle .transactions do
    callCf .transactions fun s => { s with cfTransactions := s.cfTransactions.insert tx.hash tx }
    incrementStat (·.statTransactions) (fun n s => { s with statTransactions := some n })
  getTransaction hash := withHandle .transactions do
    readCf .transactions (·.cfTransactions.lookup hash)
  saveAccount address account := withHandle .accounts do
    callCf .accounts fun s => { s with cfAccounts := s.cfAccounts.insert address account }
    Exec.modify fun s => { s with accountCache := s.accountCache.insert address account }
  getAccount := getAccount
  deleteAccount address := withHandle .accounts do
    callCf .accounts fun s => { s with cfAccounts := s.cfAccounts.erase address }
    Exec.modify fun s => { s with accountCache := s.accountCache.erase address }
  accountExists := accountExists
  saveStateRoot height root := withHandle .stateRoots do
    callCf .stateRoots fun s => { s with cfStateRoots := s.cfStateRoots.insert height root }
  getStateRoot height := withHandle .stateRoots do
    readCf .stateRoots (·.cfStateRoots.lookup height)
  writeBatch := writeBatch

/-- The storage of `RocksDBStorage::new` on an empty directory. -/
def new (faults : ℕ → Option String) : RocksDBStorage where
  cfBlocks := ∅
  cfTransactions := ∅
  cfAccounts := ∅
  cfStateRoots := ∅
  blockHeight := none
  statBlocks := none
  statTransactions := none
  totalBlocks := 1
  blockCache := ∅
  accountCache := ∅
  faults := faults
  blocksDamaged := false
  metadataDamaged := false

/-! ## What a program with handles does -/

theorem post_withHandle {α : Type} (family : ColumnFamily)
    (body : Exec PacyteError RocksDBStorage α) (s : RocksDBStorage)
    (Q : Outcome PacyteError α → RocksDBStorage → Prop) :
    Exec.Post (withHandle family body) s Q ↔
      Exec.Post body s fun o s' => Q o (s'.drop family) := Iff.rfl

/-- A sound handle is used without effect. -/
theorem use_sound {family : ColumnFamily} {s : RocksDBStorage} (h : s.damaged family = false) :
    use family s = (.ok (), s) := by
  unfold use
  rw [Exec.run_bind, Exec.run_get]
  dsimp only
  rw [h]
  rfl

/-- A damaged handle crashes. -/
theorem use_damaged {family : ColumnFamily} {s : RocksDBStorage} (h : s.damaged family = true) :
    use family s = (.panic, s) := by
  unfold use
  rw [Exec.run_bind, Exec.run_get]
  dsimp only
  rw [h]
  rfl

theorem post_use (family : ColumnFamily) (s : RocksDBStorage)
    (Q : Outcome PacyteError Unit → RocksDBStorage → Prop) :
    Exec.Post (use family) s Q ↔
      if s.damaged family = true then Q .panic s else Q (.ok ()) s := by
  unfold Exec.Post
  by_cases h : s.damaged family = true
  · rw [use_damaged h, if_pos h]
  · rw [use_sound (Bool.not_eq_true _ ▸ h), if_neg h]

theorem post_callCf (family : ColumnFamily) (f : RocksDBStorage → RocksDBStorage)
    (s : RocksDBStorage) (Q : Outcome PacyteError Unit → RocksDBStorage → Prop) :
    Exec.Post (callCf family f) s Q ↔
      if s.damaged family = true then Q .panic s else Exec.Post (call f) s Q := by
  rw [callCf, Exec.post_bind, post_use]

theorem post_readCf {α : Type} (family : ColumnFamily) (f : RocksDBStorage → α)
    (s : RocksDBStorage) (Q : Outcome PacyteError α → RocksDBStorage → Prop) :
    Exec.Post (readCf family f) s Q ↔
      if s.damaged family = true then Q .panic s else Exec.Post (read f) s Q := by
  rw [readCf, Exec.post_bind, post_use]

/-- A sound handle makes no difference. -/
theorem post_callCf_sound {family : ColumnFamily} {f : RocksDBStorage → RocksDBStorage}
    {s : RocksDBStorage} {Q : Outcome PacyteError Unit → RocksDBStorage → Prop}
    (h : s.damaged family = false) :
    Exec.Post (callCf family f) s Q ↔ Exec.Post (call f) s Q := by
  rw [post_callCf, h, if_neg Bool.false_ne_true]

theorem post_readCf_sound {α : Type} {family : ColumnFamily} {f : RocksDBStorage → α}
    {s : RocksDBStorage} {Q : Outcome PacyteError α → RocksDBStorage → Prop}
    (h : s.damaged family = false) :
    Exec.Post (readCf family f) s Q ↔ Exec.Post (read f) s Q := by
  rw [post_readCf, h, if_neg Bool.false_ne_true]

/-- A damaged one crashes. -/
theorem post_callCf_damaged {family : ColumnFamily} {f : RocksDBStorage → RocksDBStorage}
    {s : RocksDBStorage} {Q : Outcome PacyteError Unit → RocksDBStorage → Prop}
    (h : s.damaged family = true) : Exec.Post (callCf family f) s Q ↔ Q .panic s := by
  rw [post_callCf, if_pos h]

theorem post_readCf_damaged {α : Type} {family : ColumnFamily} {f : RocksDBStorage → α}
    {s : RocksDBStorage} {Q : Outcome PacyteError α → RocksDBStorage → Prop}
    (h : s.damaged family = true) : Exec.Post (readCf family f) s Q ↔ Q .panic s := by
  rw [post_readCf, if_pos h]

/-- A damaged handle crashes with the first entry. -/
theorem post_addEntries {α : Type} (family : ColumnFamily) (entries : List α)
    (s : RocksDBStorage) (Q : Outcome PacyteError Unit → RocksDBStorage → Prop) :
    Exec.Post (addEntries family entries) s Q ↔
      (entries ≠ [] ∧ s.damaged family = true → Q .panic s) ∧
      (¬ (entries ≠ [] ∧ s.damaged family = true) → Q (.ok ()) s) := by
  induction entries with
  | nil => exact ⟨fun h => ⟨fun h' => absurd rfl h'.1, fun _ => h⟩, fun h => h.2 fun h' => h'.1 rfl⟩
  | cons e rest ih =>
      rw [addEntries, Exec.post_bind, post_use]
      by_cases h : s.damaged family = true
      · rw [if_pos h]
        exact ⟨fun hQ => ⟨fun _ => hQ, fun h' => absurd ⟨List.cons_ne_nil _ _, h⟩ h'⟩,
          fun hQ => hQ.1 ⟨List.cons_ne_nil _ _, h⟩⟩
      · rw [if_neg h]
        refine ih.trans ⟨fun hQ => ⟨fun h' => absurd h'.2 h, fun _ => hQ.2 fun h' => h h'.2⟩,
          fun hQ => ⟨fun h' => absurd h'.2 h, fun _ => hQ.2 fun h' => h h'.2⟩⟩

/-- A call fails and changes nothing, or makes the change. -/
theorem post_call (f : RocksDBStorage → RocksDBStorage) (s : RocksDBStorage)
    (Q : Outcome PacyteError Unit → RocksDBStorage → Prop) :
    Exec.Post (call f) s Q ↔
      match s.faults 0 with
      | some message =>
        Q (.err (.rocksDBError message)) { s with faults := fun k => s.faults (k + 1) }
      | none => Q (.ok ()) (f { s with faults := fun k => s.faults (k + 1) }) := by
  unfold Exec.Post call
  cases s.faults 0 <;> rfl

/-- A read that goes to the database. -/
theorem read_spec {α : Type} (f : RocksDBStorage → α) (s : RocksDBStorage)
    (Q : Outcome PacyteError α → RocksDBStorage → Prop) :
    Exec.Post (read f) s Q ↔
      match s.faults 0 with
      | some message =>
        Q (.err (.rocksDBError message)) { s with faults := fun k => s.faults (k + 1) }
      | none => Q (.ok (f { s with faults := fun k => s.faults (k + 1) }))
        { s with faults := fun k => s.faults (k + 1) } := by
  unfold read
  rw [Exec.post_bind, post_call]
  cases s.faults 0 with
  | some message => rfl
  | none => rfl

/-- **A batch** crashes, fails or is written; the handle of the metadata is damaged in any
case. -/
theorem post_writeBatch (batch : WriteBatch) (s : RocksDBStorage)
    (Q : Outcome PacyteError Unit → RocksDBStorage → Prop) :
    Exec.Post (writeBatch batch) s Q ↔
      (batch.blocks ≠ [] ∧ s.blocksDamaged = true →
        Q .panic { s with metadataDamaged := true }) ∧
      (¬ (batch.blocks ≠ [] ∧ s.blocksDamaged = true) →
        match s.faults 0 with
        | some message => Q (.err (.rocksDBError message))
            { s with faults := fun k => s.faults (k + 1), metadataDamaged := true }
        | none => Q (.ok ()) { putBatch batch s with
            faults := fun k => s.faults (k + 1)
            blockCache := batch.blocks.foldl (fun m e => m.insert e.1 e.2) s.blockCache
            accountCache := batch.accounts.foldl putAccount s.accountCache
            metadataDamaged := true }) := by
  -- only the handle of the blocks can be damaged
  have hsound : ∀ {α : Type} (entries : List α), (entries ≠ [] ∧ false = true) = False :=
    fun _ => eq_false fun h => Bool.false_ne_true h.2
  unfold writeBatch
  simp only [post_withHandle, Exec.post_bind, post_addEntries, damaged, hsound, false_imp_iff,
    not_false_eq_true, true_imp_iff, true_and, post_call]
  refine and_congr Iff.rfl (imp_congr Iff.rfl ?_)
  cases s.faults 0 with
  | some message => rfl
  | none => rfl

/-! ## Relations and invariants -/

section Kept

variable {α : Type} {R : RocksDBStorage → RocksDBStorage → Prop} [Std.Refl R]
  [IsTrans RocksDBStorage R] {J : RocksDBStorage → Prop}

omit [Std.Refl R] in
theorem within_withHandle {family : ColumnFamily} {body : Exec PacyteError RocksDBStorage α}
    (hdrop : ∀ s, R s (drop family s)) (h : Exec.Within R body) :
    Exec.Within R (withHandle family body) :=
  fun s => trans_of R (h s) (hdrop _)

omit [IsTrans RocksDBStorage R] in
theorem within_use (family : ColumnFamily) : Exec.Within R (use family) := by
  have hpost : ∀ s, Exec.Post (use family) s fun _ s' => R s s' := by
    intro s
    rw [post_use]
    split_ifs
    · exact refl_of R s
    · exact refl_of R s
  exact hpost

theorem within_callCf {family : ColumnFamily} {f : RocksDBStorage → RocksDBStorage}
    (h : Exec.Within R (call f)) : Exec.Within R (callCf family f) :=
  (within_use family).bind fun _ => h

theorem within_readCf {family : ColumnFamily} {f : RocksDBStorage → α}
    (h : Exec.Within R (read f)) : Exec.Within R (readCf family f) :=
  (within_use family).bind fun _ => h

end Kept

/-! ## The laws -/

/-- The account in the cache, or else in the database. -/
def accountAt (s : RocksDBStorage) (a : Address) : Option Account :=
  (s.accountCache.lookup a).or (s.cfAccounts.lookup a)

/-- The block in the cache, or else in the database. -/
def blockAt (s : RocksDBStorage) (height : BlockHeight) : Option Block :=
  (s.blockCache.lookup height).or (s.cfBlocks.lookup height)

/-- Writing the entries of a batch into the cache and into the database writes
them into what a reader sees. -/
theorem foldl_putAccount (entries : List (Address × Option Account))
    (cache db : Map Address Account) (a : Address) :
    ((entries.foldl putAccount cache).lookup a).or ((entries.foldl putAccount db).lookup a)
      = writeAccounts (fun x => (cache.lookup x).or (db.lookup x)) entries a := by
  induction entries generalizing cache db with
  | nil => rfl
  | cons e rest ih =>
      obtain ⟨address, account⟩ := e
      rw [List.foldl_cons, List.foldl_cons, ih, writeAccounts]
      congr 1
      funext x
      by_cases hx : x = address
      · subst hx
        cases account <;> simp [putAccount]
      · cases account <;>
          simp [putAccount, hx, AList.lookup_insert_ne, AList.lookup_erase_ne]

theorem getAccount_spec (a : Address) (s : RocksDBStorage) :
    Exec.Post (getAccount a) s fun o s' =>
      s'.accountAt = s.accountAt ∧ s'.blockAt = s.blockAt ∧
        match o with
        | .ok r => r = s.accountAt a
        | .err _ => True
        | .panic => False := by
  unfold getAccount
  simp only [Exec.post_bind, Exec.post_get]
  cases hcache : s.accountCache.lookup a with
  | some account => exact ⟨rfl, rfl, by simp [accountAt, hcache]⟩
  | none =>
      rw [post_withHandle, Exec.post_bind, post_readCf_sound rfl, read_spec]
      cases s.faults 0 with
      | some message => exact ⟨rfl, rfl, trivial⟩
      | none =>
          dsimp only
          cases hdb : s.cfAccounts.lookup a with
          | none => exact ⟨rfl, rfl, by simp [accountAt, hcache, hdb]⟩
          | some account =>
              rw [Exec.post_bind, Exec.post_modify, Exec.post_pure]
              refine ⟨?_, rfl, by simp [accountAt, hcache, hdb]⟩
              funext x
              by_cases hx : x = a
              · subst hx
                simp [accountAt, drop, hcache, hdb]
              · simp [accountAt, drop, AList.lookup_insert_ne hx]

instance [Primitives] : LawfulStorage RocksDBStorage where
  accountAt := accountAt
  blockAt := blockAt
  getAccount_view a s := ⟨(getAccount_spec a s).1, (getAccount_spec a s).2.1⟩
  getAccount_eq a s r h := by
    have hspec := (getAccount_spec a s).2.2
    rw [show (getAccount a s).1 = .ok r from h] at hspec
    exact hspec
  getAccount_ne_panic a s h := by
    have hspec := (getAccount_spec a s).2.2
    rw [show (getAccount a s).1 = .panic from h] at hspec
    exact hspec
  saveStateRoot_view height root s := by
    have hspec : Exec.Post (Storage.saveStateRoot height root) s fun _ s' =>
        accountAt s' = accountAt s ∧ blockAt s' = blockAt s := by
      simp only [Storage.saveStateRoot]
      rw [post_withHandle, post_callCf_sound rfl, post_call]
      cases s.faults 0 <;> exact ⟨rfl, rfl⟩
    exact hspec
  writeBatch_ok batch s hblocks hok := by
    have hspec : Exec.Post (writeBatch batch) s fun o s' => o = .ok () →
        accountAt s' = writeAccounts (accountAt s) batch.accounts ∧ blockAt s' = blockAt s := by
      rw [post_writeBatch]
      refine ⟨fun h => absurd hblocks h.1, fun _ => ?_⟩
      cases s.faults 0 with
      | some message => exact fun h => by cases h
      | none =>
          refine fun _ => ⟨?_, ?_⟩
          · funext a
            exact foldl_putAccount batch.accounts s.accountCache s.cfAccounts a
          · simp only [putBatch, hblocks, List.foldl_nil]
            rfl
    exact hspec hok

/-! ## A database that works -/

/-- No call to come fails. -/
def Healthy (s : RocksDBStorage) : Prop := ∀ k, s.faults k = none

/-- The height in the metadata. -/
def saved (s : RocksDBStorage) : BlockHeight := s.blockHeight.getD 0

/-- On a working database a call makes its change. -/
theorem call_healthy (f : RocksDBStorage → RocksDBStorage) {s : RocksDBStorage} (h : s.Healthy) :
    call f s = (.ok (), f { s with faults := fun k => s.faults (k + 1) }) := by
  unfold call
  rw [h 0]

end RocksDBStorage
