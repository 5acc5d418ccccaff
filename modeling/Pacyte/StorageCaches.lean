/-
# The caches of the RocksDB storage

The block cache and the account cache are written after the database, and filled by reads.
Whatever operations were run, and whichever database calls have failed, every entry of a
cache is an entry of the database (`Coherent`), so every answer of `get_block`, `get_account`
and `account_exists` is what the database holds at that moment, or the error of the database
call that was made for it.

Not every call gets as far as an answer: a handle of the metadata that was dropped has damaged
the handle of the blocks, and a handle of the transactions that of the metadata.  A run is
answered exactly if no operation needs a damaged handle (`answers_run_iff`).

The part about maps comes first.  It knows nothing of the storage.
-/
import Pacyte.MemoryStorage
import Pacyte.RocksDBStorage
import Pacyte.Runs

/-! ## A cache over a map -/

/-- Every entry of the cache is an entry of the map. -/
def Map.CachedIn {κ ν : Type} [DecidableEq κ] (cache db : Map κ ν) : Prop :=
  ∀ k v, cache.lookup k = some v → db.lookup k = some v

namespace Map

variable {κ ν : Type} [DecidableEq κ] {cache db : Map κ ν}

theorem CachedIn.empty (db : Map κ ν) : CachedIn ∅ db := by
  intro k v h
  rw [AList.lookup_empty] at h
  cases h

/-- An entry is written to both. -/
theorem CachedIn.insert (h : CachedIn cache db) (key : κ) (value : ν) :
    CachedIn (cache.insert key value) (db.insert key value) := by
  intro k v hk
  by_cases hkey : k = key
  · subst hkey
    rwa [AList.lookup_insert] at hk ⊢
  · rw [AList.lookup_insert_ne hkey] at hk ⊢
    exact h k v hk

/-- An entry that was read is put into the cache. -/
theorem CachedIn.fill (h : CachedIn cache db) {key : κ} {value : ν}
    (hread : db.lookup key = some value) : CachedIn (cache.insert key value) db := by
  intro k v hk
  by_cases hkey : k = key
  · subst hkey
    rw [AList.lookup_insert] at hk
    rw [hread, hk]
  · rw [AList.lookup_insert_ne hkey] at hk
    exact h k v hk

/-- An entry is deleted from both. -/
theorem CachedIn.erase (h : CachedIn cache db) (key : κ) :
    CachedIn (cache.erase key) (db.erase key) := by
  intro k v hk
  by_cases hkey : k = key
  · subst hkey
    rw [AList.lookup_erase] at hk
    cases hk
  · rw [AList.lookup_erase_ne hkey] at hk ⊢
    exact h k v hk

/-- The same writes, in the same order, to both. -/
theorem CachedIn.foldl {α : Type} {write : Map κ ν → α → Map κ ν}
    (hwrite : ∀ cache db a, CachedIn cache db → CachedIn (write cache a) (write db a))
    (h : CachedIn cache db) (writes : List α) :
    CachedIn (writes.foldl write cache) (writes.foldl write db) := by
  induction writes generalizing cache db with
  | nil => exact h
  | cons a writes ih => exact ih (hwrite cache db a h)

/-- The cache first, then the map: what is found is what the map holds. -/
theorem CachedIn.lookup_eq (h : CachedIn cache db) {k : κ} {v : ν} (hk : cache.lookup k = some v) :
    db.lookup k = some v := h k v hk

end Map

/-! ## Runs of storage operations -/

/-- An operation of the `Storage` trait. -/
inductive StorageOp : Type where
  | saveBlock (block : Block)
  | getBlock (height : BlockHeight)
  | getLatestBlock
  | getBlockHeight
  | saveTransaction (tx : Transaction)
  | getTransaction (hash : Hash)
  | saveAccount (address : Address) (account : Account)
  | getAccount (address : Address)
  | deleteAccount (address : Address)
  | accountExists (address : Address)
  | saveStateRoot (height : BlockHeight) (root : Hash)
  | getStateRoot (height : BlockHeight)
  | writeBatch (batch : WriteBatch)

/-- The state after an operation, however it has ended. -/
def StorageOp.after {σ : Type} [Storage σ] (op : StorageOp) (s : σ) : σ :=
  match op with
  | saveBlock block => (Storage.saveBlock block s).2
  | getBlock height => (Storage.getBlock height s).2
  | getLatestBlock => (Storage.getLatestBlock s).2
  | getBlockHeight => (Storage.getBlockHeight s).2
  | saveTransaction tx => (Storage.saveTransaction tx s).2
  | getTransaction hash => (Storage.getTransaction hash s).2
  | saveAccount address account => (Storage.saveAccount address account s).2
  | getAccount address => (Storage.getAccount address s).2
  | deleteAccount address => (Storage.deleteAccount address s).2
  | accountExists address => (Storage.accountExists address s).2
  | saveStateRoot height root => (Storage.saveStateRoot height root s).2
  | getStateRoot height => (Storage.getStateRoot height s).2
  | writeBatch batch => (Storage.writeBatch batch s).2

namespace RocksDBStorage

open Map

/-! ## One operation -/

/-- Every entry of the two caches is an entry of the database. -/
structure Coherent (s : RocksDBStorage) : Prop where
  blocks : CachedIn s.blockCache s.cfBlocks
  accounts : CachedIn s.accountCache s.cfAccounts

/-- A change that leaves the caches and what they cache as they are. -/
theorem Coherent.congr {s s' : RocksDBStorage} (h : s.Coherent)
    (hblocks : s'.cfBlocks = s.cfBlocks) (hblockCache : s'.blockCache = s.blockCache)
    (haccounts : s'.cfAccounts = s.cfAccounts) (haccountCache : s'.accountCache = s.accountCache) :
    s'.Coherent := by
  constructor
  · rw [hblocks, hblockCache]
    exact h.blocks
  · rw [haccounts, haccountCache]
    exact h.accounts

/-- The handles are not what the caches are judged by. -/
theorem Coherent.drop {s : RocksDBStorage} (h : s.Coherent) (family : ColumnFamily) :
    (s.drop family).Coherent := by
  cases family with
  | metadata => exact h.congr rfl rfl rfl rfl
  | transactions => exact h.congr rfl rfl rfl rfl
  | blocks => exact h
  | accounts => exact h
  | stateRoots => exact h

/-- A program that leaves coherent caches coherent, however it ends. -/
abbrev KeepsCoherent {α : Type} (m : Exec PacyteError RocksDBStorage α) : Prop :=
  Exec.Keeps Coherent Coherent m

theorem keepsCoherent_of_post {α : Type} {m : Exec PacyteError RocksDBStorage α}
    (h : ∀ s, Coherent s → Exec.Post m s fun _ s' => s'.Coherent) : KeepsCoherent m := by
  intro s hs
  refine (h s hs).mono ?_
  rintro (a | e | _) s' hs'
  · exact hs'
  · exact hs'
  · exact hs'

theorem call_coherent {f : RocksDBStorage → RocksDBStorage}
    (hf : ∀ s, Coherent s → Coherent (f s)) : KeepsCoherent (call f) := by
  refine keepsCoherent_of_post fun s hs => ?_
  rw [post_call]
  cases s.faults 0 with
  | some message => exact hs.congr rfl rfl rfl rfl
  | none => exact hf _ (hs.congr rfl rfl rfl rfl)

theorem withHandle_coherent {α : Type} (family : ColumnFamily)
    {body : Exec PacyteError RocksDBStorage α} (h : KeepsCoherent body) :
    KeepsCoherent (withHandle family body) := by
  refine keepsCoherent_of_post fun s hs => ?_
  rw [post_withHandle]
  refine (h s hs).mono ?_
  rintro (a | e | _) s' hs'
  · exact Coherent.drop hs' family
  · exact Coherent.drop hs' family
  · exact Coherent.drop hs' family

theorem use_coherent (family : ColumnFamily) : KeepsCoherent (use family) := by
  refine keepsCoherent_of_post fun s hs => ?_
  rw [post_use]
  split_ifs
  · exact hs
  · exact hs

theorem read_coherent {α : Type} (f : RocksDBStorage → α) : KeepsCoherent (read f) :=
  (call_coherent fun _ hs => hs).bind fun _ => Exec.Keeps.get.bind fun _ => Exec.Keeps.pure _

theorem addU64_coherent (a b : UInt64) :
    KeepsCoherent (Exec.addU64 a b : Exec PacyteError RocksDBStorage UInt64) := by
  refine keepsCoherent_of_post fun s hs => ?_
  rw [Exec.post_addU64]
  exact ⟨fun _ => hs, fun _ => hs⟩

theorem incrementStat_coherent {view : RocksDBStorage → Option UInt64}
    {put : UInt64 → RocksDBStorage → RocksDBStorage}
    (hput : ∀ n s, Coherent s → Coherent (put n s)) : KeepsCoherent (incrementStat view put) := by
  refine (read_coherent _).bind fun stored => ?_
  exact (addU64_coherent _ _).bind fun next => call_coherent (hput next)

theorem callCf_coherent (family : ColumnFamily) {f : RocksDBStorage → RocksDBStorage}
    (hf : ∀ s, Coherent s → Coherent (f s)) : KeepsCoherent (callCf family f) :=
  (use_coherent family).bind fun _ => call_coherent hf

theorem readCf_coherent {α : Type} (family : ColumnFamily) (f : RocksDBStorage → α) :
    KeepsCoherent (readCf family f) :=
  (use_coherent family).bind fun _ => read_coherent f

/-- A change of the database that the cache follows. -/
theorem put_coherent (family : ColumnFamily) {f g : RocksDBStorage → RocksDBStorage}
    (h : ∀ s, Coherent s → Coherent (g (f s))) :
    KeepsCoherent (callCf family f >>= fun _ => Exec.modify g) := by
  refine keepsCoherent_of_post fun s hs => ?_
  rw [Exec.post_bind, post_callCf, post_call]
  split_ifs
  · exact hs
  · cases s.faults 0 with
    | some message => exact hs.congr rfl rfl rfl rfl
    | none => exact h _ (hs.congr rfl rfl rfl rfl)

theorem writeMetadata_coherent (height : BlockHeight) : KeepsCoherent (writeMetadata height) :=
  withHandle_coherent _ (callCf_coherent _ fun _ hs => hs.congr rfl rfl rfl rfl)

/-- **A block is put into the database and then into the cache**; the calls that follow touch
neither. -/
theorem saveBlock_coherent (block : Block) : KeepsCoherent (saveBlock block) := by
  have hput : KeepsCoherent (callCf .blocks (fun s =>
      { s with cfBlocks := s.cfBlocks.insert block.header.height block }) >>= fun _ =>
      Exec.modify fun s =>
        { s with blockCache := s.blockCache.insert block.header.height block }) :=
    put_coherent _ fun s hs => ⟨hs.blocks.insert _ _, hs.accounts⟩
  have hstat : KeepsCoherent (incrementStat (·.statBlocks)
      (fun n s => { s with statBlocks := some n })) :=
    incrementStat_coherent fun n s hs => hs.congr rfl rfl rfl rfl
  refine withHandle_coherent _ ?_
  rw [← Exec.bind_assoc]
  refine hput.bind fun _ => (writeMetadata_coherent _).bind fun _ => hstat.bind fun _ => ?_
  refine (addU64_coherent _ _).bind fun total => ?_
  exact Exec.Keeps.modify fun s hs => hs.congr rfl rfl rfl rfl

theorem cachedIn_putAccount {cache db : Map Address Account} (e : Address × Option Account)
    (h : CachedIn cache db) : CachedIn (putAccount cache e) (putAccount db e) := by
  unfold putAccount
  cases e.2 with
  | some account => exact h.insert _ _
  | none => exact h.erase _

/-- **A batch**: the loop over the caches makes the writes of the batch again, in its
order. -/
theorem writeBatch_coherent (batch : WriteBatch) : KeepsCoherent (writeBatch batch) := by
  refine keepsCoherent_of_post fun s hs => ?_
  rw [post_writeBatch]
  refine ⟨fun _ => hs.congr rfl rfl rfl rfl, fun _ => ?_⟩
  cases s.faults 0 with
  | some message => exact hs.congr rfl rfl rfl rfl
  | none =>
      constructor
      · exact hs.blocks.foldl (fun cache db e h => h.insert e.1 e.2) batch.blocks
      · exact hs.accounts.foldl (fun cache db e h => cachedIn_putAccount e h) batch.accounts

/-! ## Answers -/

/-- The answer is `content`, or the error of the database call that comes next. -/
def Answers {α : Type} (s : RocksDBStorage) (o : Outcome PacyteError α) (content : α) : Prop :=
  o = .ok content ∨ ∃ message, s.faults 0 = some message ∧ o = .err (.rocksDBError message)

theorem not_answers_panic {α : Type} {s : RocksDBStorage} {content : α} :
    ¬ Answers s .panic content := by
  rintro (h | ⟨message, -, h⟩)
  · cases h
  · cases h

/-- A block is read from the cache, or with a handle that is not damaged. -/
def Readable (s : RocksDBStorage) (height : BlockHeight) : Prop :=
  (s.blockCache.lookup height).isSome = true ∨ s.blocksDamaged = false

/-- **`get_block`** answers what the database holds if the block is readable, and crashes
otherwise.  It keeps the caches coherent. -/
theorem getBlock_coherent (height : BlockHeight) {s : RocksDBStorage} (hs : s.Coherent) :
    Exec.Post (getBlock height) s fun o s' =>
      s'.Coherent ∧ (s.Readable height → Answers s o (s.cfBlocks.lookup height)) ∧
        (¬ s.Readable height → o = .panic) := by
  unfold getBlock Readable
  rw [Exec.post_bind, Exec.post_get]
  dsimp only
  cases hcache : s.blockCache.lookup height with
  | some block =>
      refine ⟨hs, fun _ => Or.inl (by rw [hs.blocks.lookup_eq hcache]; rfl), fun h => ?_⟩
      exact absurd (Or.inl rfl) h
  | none =>
      dsimp only
      rw [post_withHandle, Exec.post_bind]
      cases hdamaged : s.blocksDamaged with
      | true =>
          rw [post_readCf_damaged (show s.damaged .blocks = true from hdamaged)]
          refine ⟨hs, fun h => ?_, fun _ => rfl⟩
          rcases h with h | h
          · cases h
          · cases h
      | false =>
          rw [post_readCf_sound (show s.damaged .blocks = false from hdamaged), read_spec]
          cases hfault : s.faults 0 with
          | some message =>
              exact ⟨hs.congr rfl rfl rfl rfl, fun _ => Or.inr ⟨message, hfault, rfl⟩,
                fun h => absurd (Or.inr rfl) h⟩
          | none =>
              dsimp only
              cases hdb : s.cfBlocks.lookup height with
              | none =>
                  exact ⟨hs.congr rfl rfl rfl rfl, fun _ => Or.inl rfl,
                    fun h => absurd (Or.inr rfl) h⟩
              | some block =>
                  exact ⟨⟨hs.blocks.fill hdb, hs.accounts⟩, fun _ => Or.inl rfl,
                    fun h => absurd (Or.inr rfl) h⟩

/-- **`get_account`** answers what the database holds, and keeps the caches coherent. -/
theorem getAccount_coherent (address : Address) {s : RocksDBStorage} (hs : s.Coherent) :
    Exec.Post (getAccount address) s fun o s' =>
      s'.Coherent ∧ Answers s o (s.cfAccounts.lookup address) := by
  unfold getAccount
  rw [Exec.post_bind, Exec.post_get]
  dsimp only
  cases hcache : s.accountCache.lookup address with
  | some account => exact ⟨hs, Or.inl (by rw [hs.accounts.lookup_eq hcache]; rfl)⟩
  | none =>
      dsimp only
      rw [post_withHandle, Exec.post_bind, post_readCf_sound rfl, read_spec]
      cases hfault : s.faults 0 with
      | some message => exact ⟨hs.congr rfl rfl rfl rfl, Or.inr ⟨message, hfault, rfl⟩⟩
      | none =>
          dsimp only
          cases hdb : s.cfAccounts.lookup address with
          | none => exact ⟨hs.congr rfl rfl rfl rfl, Or.inl rfl⟩
          | some account => exact ⟨⟨hs.blocks, hs.accounts.fill hdb⟩, Or.inl rfl⟩

/-- **`account_exists`** answers what the database holds, and uses no handle of another
family. -/
theorem accountExists_coherent (address : Address) {s : RocksDBStorage} (hs : s.Coherent) :
    Exec.Post (accountExists address) s fun o s' =>
      s'.Coherent ∧ Answers s o (s.cfAccounts.lookup address).isSome := by
  unfold accountExists
  rw [Exec.post_bind, Exec.post_get]
  dsimp only
  cases hcache : s.accountCache.lookup address with
  | some account => exact ⟨hs, Or.inl (by rw [hs.accounts.lookup_eq hcache]; rfl)⟩
  | none =>
      rw [if_neg (show ¬ (none : Option Account).isSome = true from Bool.false_ne_true)]
      rw [post_withHandle, Exec.post_bind, post_readCf_sound rfl, read_spec]
      cases hfault : s.faults 0 with
      | some message => exact ⟨hs.congr rfl rfl rfl rfl, Or.inr ⟨message, hfault, rfl⟩⟩
      | none => exact ⟨hs.congr rfl rfl rfl rfl, Or.inl rfl⟩

theorem getBlockHeight_coherent : KeepsCoherent getBlockHeight :=
  withHandle_coherent _ ((readCf_coherent _ _).bind fun _ => Exec.Keeps.pure _)

theorem getLatestBlock_coherent : KeepsCoherent getLatestBlock := by
  have hblock : ∀ height, KeepsCoherent (getBlock height) := fun height =>
    keepsCoherent_of_post fun s hs => (getBlock_coherent height hs).mono fun _ _ h => h.1
  have hexists : KeepsCoherent (accountExists zero32) :=
    keepsCoherent_of_post fun s hs => (accountExists_coherent zero32 hs).mono fun _ _ h => h.1
  refine getBlockHeight_coherent.bind fun height => Exec.Keeps.ite ?_ (hblock height)
  exact hexists.bind fun present => Exec.Keeps.ite (hblock height) (Exec.Keeps.pure _)

/-! ## Runs -/

section Runs

variable [Primitives]

/-- **One operation** keeps the caches coherent, however it ends. -/
theorem Coherent.after {s : RocksDBStorage} (hs : s.Coherent) (op : StorageOp) :
    (op.after s).Coherent := by
  have hpost : ∀ {α : Type} {m : Exec PacyteError RocksDBStorage α}, KeepsCoherent m →
      (m s).2.Coherent := by
    intro α m hm
    have hends := hm s hs
    unfold Exec.Post at hends
    cases hfst : (m s).1 with
    | ok a => rwa [hfst] at hends
    | err e => rwa [hfst] at hends
    | panic => rwa [hfst] at hends
  cases op with
  | saveBlock block => exact hpost (saveBlock_coherent block)
  | getBlock height => exact (getBlock_coherent height hs).1
  | getLatestBlock => exact hpost getLatestBlock_coherent
  | getBlockHeight => exact hpost getBlockHeight_coherent
  | saveTransaction tx =>
      have hput : KeepsCoherent (callCf .transactions fun s =>
          { s with cfTransactions := s.cfTransactions.insert tx.hash tx }) :=
        callCf_coherent _ fun s hs => hs.congr rfl rfl rfl rfl
      have hstat : KeepsCoherent (incrementStat (·.statTransactions)
          (fun n s => { s with statTransactions := some n })) :=
        incrementStat_coherent fun n s hs => hs.congr rfl rfl rfl rfl
      exact hpost (withHandle_coherent _ (hput.bind fun _ => hstat))
  | getTransaction hash => exact hpost (withHandle_coherent _ (readCf_coherent _ _))
  | saveAccount address account =>
      have hput : KeepsCoherent (Storage.saveAccount (σ := RocksDBStorage) address account) :=
        withHandle_coherent _ (put_coherent _ fun s hs => ⟨hs.blocks, hs.accounts.insert _ _⟩)
      exact hpost hput
  | getAccount address => exact (getAccount_coherent address hs).1
  | deleteAccount address =>
      have hput : KeepsCoherent (Storage.deleteAccount (σ := RocksDBStorage) address) :=
        withHandle_coherent _ (put_coherent _ fun s hs => ⟨hs.blocks, hs.accounts.erase _⟩)
      exact hpost hput
  | accountExists address => exact (accountExists_coherent address hs).1
  | saveStateRoot height root =>
      exact hpost (withHandle_coherent _
        (callCf_coherent _ fun s hs => hs.congr rfl rfl rfl rfl))
  | getStateRoot height => exact hpost (withHandle_coherent _ (readCf_coherent _ _))
  | writeBatch batch => exact hpost (writeBatch_coherent batch)

/-- The counters of `save_block` have room for one more block. -/
def CountsFit (s : RocksDBStorage) (height : BlockHeight) : Prop :=
  (s.statBlocks.getD 0).toNat + 1 < 2 ^ 64 ∧ height.toNat + 1 < 2 ^ 64

/-- What is expected of an operation: reads of blocks and accounts answer what the database
holds, or fail with it, and writes return. -/
def Answered (s : RocksDBStorage) : StorageOp → Prop
  | .getBlock height => Answers s (Storage.getBlock height s).1 (s.cfBlocks.lookup height)
  | .getAccount address => Answers s (Storage.getAccount address s).1 (s.cfAccounts.lookup address)
  | .accountExists address =>
      Answers s (Storage.accountExists address s).1 (s.cfAccounts.lookup address).isSome
  | .saveBlock block => s.CountsFit block.header.height → (Storage.saveBlock block s).1 ≠ .panic
  | .writeBatch batch => (Storage.writeBatch batch s).1 ≠ .panic
  | _ => True

/-- The operation does not come to use a damaged handle. -/
def HandlesHold (s : RocksDBStorage) : StorageOp → Prop
  | .getBlock height => s.Readable height
  | .saveBlock block => s.CountsFit block.header.height →
      s.blocksDamaged = false ∧ (s.faults 0 = none → s.metadataDamaged = false)
  | .writeBatch batch => batch.blocks ≠ [] → s.blocksDamaged = false
  | _ => True

omit [Primitives] in
/-- The default family has a handle of its own. -/
theorem incrementStat_returns {view : RocksDBStorage → Option UInt64}
    (put : UInt64 → RocksDBStorage → RocksDBStorage) {s : RocksDBStorage}
    (hfits : ((view { s with faults := fun k => s.faults (k + 1) }).getD 0).toNat + 1 < 2 ^ 64) :
    Exec.Post (incrementStat view put) s fun o _ => o ≠ .panic := by
  unfold incrementStat
  rw [Exec.post_bind, read_spec]
  cases s.faults 0 with
  | some message => rintro ⟨⟩
  | none =>
      dsimp only
      rw [Exec.post_bind, Exec.post_addU64]
      refine ⟨fun _ => ?_, fun hover => absurd hfits hover⟩
      dsimp only
      rw [post_call]
      split
      · rintro ⟨⟩
      · rintro ⟨⟩

omit [Primitives] in
/-- What `save_block` does after the height was written. -/
theorem countBlock_returns {height : BlockHeight} {s : RocksDBStorage}
    (hfits : s.CountsFit height) :
    Exec.Post (do
      incrementStat (·.statBlocks) (fun n s => { s with statBlocks := some n })
      let total ← Exec.addU64 height 1
      Exec.modify fun s => { s with totalBlocks := total }) s fun o _ => o ≠ .panic := by
  refine Exec.Post.seq (incrementStat_returns _ hfits.1) ?_ ?_ ?_
  · rintro ⟨⟩ s' -
    rw [Exec.post_bind, Exec.post_addU64]
    refine ⟨fun _ => ?_, fun hover => absurd hfits.2 hover⟩
    rintro ⟨⟩
  · rintro e s' - ⟨⟩
  · exact fun s' h => absurd rfl h

omit [Primitives] in
/-- **`save_block`** uses the handle of the blocks, and that of the metadata if the block was
written. -/
theorem saveBlock_returns_iff (block : Block) {s : RocksDBStorage}
    (hfits : s.CountsFit block.header.height) :
    (saveBlock block s).1 ≠ .panic ↔
      s.blocksDamaged = false ∧ (s.faults 0 = none → s.metadataDamaged = false) := by
  have hspec : Exec.Post (saveBlock block) s fun o _ => o ≠ .panic ↔
      s.blocksDamaged = false ∧ (s.faults 0 = none → s.metadataDamaged = false) := by
    unfold saveBlock
    rw [post_withHandle, Exec.post_bind]
    cases hblocks : s.blocksDamaged with
    | true =>
        rw [post_callCf_damaged (show s.damaged .blocks = true from hblocks)]
        exact iff_of_false (fun h => h rfl) fun h => Bool.noConfusion h.1
    | false =>
        rw [post_callCf_sound (show s.damaged .blocks = false from hblocks), post_call]
        cases hfault : s.faults 0 with
        | some message => exact iff_of_true (by rintro ⟨⟩) ⟨rfl, by rintro ⟨⟩⟩
        | none =>
            dsimp only
            rw [Exec.post_bind, Exec.post_modify]
            dsimp only
            rw [Exec.post_bind, writeMetadata, post_withHandle]
            cases hmetadata : s.metadataDamaged with
            | true =>
                rw [post_callCf_damaged]
                · exact iff_of_false (fun h => h rfl) fun h => Bool.noConfusion (h.2 rfl)
                · rfl
            | false =>
                rw [post_callCf_sound, post_call]
                · dsimp only
                  cases s.faults (0 + 1) with
                  | some message => exact iff_of_true (by rintro ⟨⟩) ⟨rfl, fun _ => rfl⟩
                  | none =>
                      refine Exec.Post.mono (countBlock_returns ?_) fun o _ h =>
                        iff_of_true h ⟨rfl, fun _ => rfl⟩
                      exact hfits
                · rfl
  exact hspec

omit [Primitives] in
/-- A storage that was just opened over the database of `s`: its caches are empty and its
handles are new. -/
def opened (s : RocksDBStorage) : RocksDBStorage :=
  { s with blockCache := ∅, accountCache := ∅, blocksDamaged := false, metadataDamaged := false }

omit [Primitives] in
theorem opened_coherent (s : RocksDBStorage) : s.opened.Coherent :=
  ⟨CachedIn.empty _, CachedIn.empty _⟩

/-- One operation is answered exactly if it does not come to use a damaged handle. -/
theorem Coherent.answered_iff {s : RocksDBStorage} (hs : s.Coherent) (op : StorageOp) :
    s.Answered op ↔ s.HandlesHold op := by
  cases op with
  | getBlock height =>
      have hspec := getBlock_coherent height hs
      refine ⟨fun h => by_contra fun hnot => ?_, hspec.2.1⟩
      have hpanic : (Storage.getBlock height s).1 = .panic := hspec.2.2 hnot
      rw [Answered, hpanic] at h
      exact not_answers_panic h
  | getAccount address => exact iff_of_true (getAccount_coherent address hs).2 trivial
  | accountExists address => exact iff_of_true (accountExists_coherent address hs).2 trivial
  | saveBlock block => exact forall_congr' fun hfits => saveBlock_returns_iff block hfits
  | writeBatch batch =>
      have hspec : Exec.Post (writeBatch batch) s fun o _ =>
          o ≠ .panic ↔ (batch.blocks ≠ [] → s.blocksDamaged = false) := by
        rw [post_writeBatch]
        refine ⟨fun h => ?_, fun h => ?_⟩
        · exact iff_of_false (fun h' => h' rfl) fun h' => ne_true_of_eq_false (h' h.1) h.2
        · have hsound : batch.blocks ≠ [] → s.blocksDamaged = false := fun hne =>
            eq_false_of_ne_true fun hdamaged => h ⟨hne, hdamaged⟩
          cases s.faults 0 with
          | some message => exact iff_of_true (by rintro ⟨⟩) hsound
          | none => exact iff_of_true (by rintro ⟨⟩) hsound
      exact hspec
  | getLatestBlock => exact Iff.rfl
  | getBlockHeight => exact Iff.rfl
  | saveTransaction tx => exact Iff.rfl
  | getTransaction hash => exact Iff.rfl
  | saveAccount address account => exact Iff.rfl
  | deleteAccount address => exact Iff.rfl
  | saveStateRoot height root => exact Iff.rfl
  | getStateRoot height => exact Iff.rfl

/-- **The caches are coherent, the handles are not.**  Open the storage over any database and
run any operations, whichever database calls fail.  Every operation is answered, each of
`get_block`, `get_account` and `account_exists` with what the database holds at that moment or
with the error of the database, exactly if none of them comes to use a damaged handle. -/
theorem answers_run_iff (s : RocksDBStorage) (ops : List StorageOp) :
    Runs.Along StorageOp.after Answered s.opened ops ↔
      Runs.Along StorageOp.after HandlesHold s.opened ops :=
  Runs.along_congr (I := Coherent) (fun _ op hs => hs.after op)
    (fun _ op hs => hs.answered_iff op) s.opened_coherent ops

end Runs

end RocksDBStorage

/-! ## A block after a block -/

section Example

open scoped Sample
open RocksDBStorage

/-- A block of a height. -/
def Sample.cachedBlock (height : BlockHeight) : Block := Block.new height zero32 [] zero32 0

/-- A database with the first block. -/
def Sample.openedChain : RocksDBStorage :=
  { RocksDBStorage.new fun _ => none with
    cfBlocks := AList.insert 0 (Sample.cachedBlock 0) ∅
    blockHeight := some 0 }

open Sample

/-- The block that is saved first leaves a damaged handle: neither is the next one saved nor an
older one read. -/
theorem second_block_crashes :
    ¬ Runs.Along StorageOp.after Answered openedChain.opened
        [.saveBlock (cachedBlock 1), .saveBlock (cachedBlock 2)] ∧
      ¬ Runs.Along StorageOp.after Answered openedChain.opened
        [.saveBlock (cachedBlock 1), .getBlock 0] := by
  constructor
  · rintro ⟨-, hsaved, -⟩
    exact hsaved ⟨by decide, by decide⟩ (by decide)
  · rintro ⟨-, hread, -⟩
    rw [Answered, show (Storage.getBlock 0 (StorageOp.after (.saveBlock (cachedBlock 1))
      openedChain.opened)).1 = .panic by decide] at hread
    exact not_answers_panic hread

/-- A run that reads the blocks before it saves one, and then what is cached; the fourth call of
the database fails. -/
theorem cached_run_answered :
    let s := { openedChain with faults := fun k => if k = 3 then some "io error" else none }
    Runs.Along StorageOp.after Answered s.opened
      [.getBlock 0, .getBlock 5, .saveAccount zero32 (Account.new zero32 5 0), .accountExists zero32,
        .deleteAccount zero32, .getAccount zero32, .saveBlock (cachedBlock 1), .getBlock 0,
        .getBlock 1, .writeBatch ⟨[], [], [(zero32, some (Account.new zero32 7 0)), (zero32, none)], []⟩,
        .accountExists zero32] := by
  intro s
  refine (answers_run_iff s _).mpr ⟨Or.inr rfl, Or.inr rfl, trivial, trivial, trivial, trivial,
    fun _ => ⟨rfl, fun _ => rfl⟩, Or.inl (by decide), Or.inl (by decide), fun h => absurd rfl h,
    trivial, trivial⟩

end Example
