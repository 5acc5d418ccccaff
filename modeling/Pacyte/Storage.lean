/-
# The storage interface

The trait `Storage` of `src/storage/mod.rs` and what the node relies on.

* `Storage σ`: the operations, as programs over the storage state `σ`.  Reads
  are programs too, because a backend may fill a cache while it answers.
* `LawfulStorage σ`: a storage with a view of the accounts and the blocks it
  holds, such that reads report the view and writes change it as asked.
* `Storage.Dependable Good view`: on the states `Good` the engine's writes do not
  fail, and only `save_block` changes the view.  `Storage.KeepsLatest` and
  `Storage.KeepsHeight` say what `get_latest_block` and `get_block_height` return.
-/
import Pacyte.Crypto

/-- `WriteBatch`; an account `none` is a deletion. -/
structure WriteBatch where
  blocks : List (BlockHeight × Block)
  transactions : List (Hash × Transaction)
  accounts : List (Address × Option Account)
  stateRoots : List (BlockHeight × Hash)

/-- `WriteBatch::new`. -/
def WriteBatch.new : WriteBatch := ⟨[], [], [], []⟩

/-- `WriteBatch::add_account`. -/
def WriteBatch.addAccount (batch : WriteBatch) (address : Address) (account : Account) :
    WriteBatch :=
  { batch with accounts := batch.accounts ++ [(address, some account)] }

/-- The `Storage` trait. -/
class Storage (σ : Type) where
  saveBlock : Block → Exec PacyteError σ Unit
  getBlock : BlockHeight → Exec PacyteError σ (Option Block)
  getLatestBlock : Exec PacyteError σ (Option Block)
  getBlockHeight : Exec PacyteError σ BlockHeight
  saveTransaction : Transaction → Exec PacyteError σ Unit
  getTransaction : Hash → Exec PacyteError σ (Option Transaction)
  saveAccount : Address → Account → Exec PacyteError σ Unit
  getAccount : Address → Exec PacyteError σ (Option Account)
  deleteAccount : Address → Exec PacyteError σ Unit
  accountExists : Address → Exec PacyteError σ Bool
  saveStateRoot : BlockHeight → Hash → Exec PacyteError σ Unit
  getStateRoot : BlockHeight → Exec PacyteError σ (Option Hash)
  writeBatch : WriteBatch → Exec PacyteError σ Unit

/-! ## Contents -/

/-- The accounts after the entries of a batch were written in order. -/
def writeAccounts (accounts : Address → Option Account) :
    List (Address × Option Account) → Address → Option Account
  | [] => accounts
  | (address, account) :: rest =>
      writeAccounts (Function.update accounts address account) rest

/-- An address that does not occur in the batch keeps its account. -/
theorem writeAccounts_of_notMem (entries : List (Address × Option Account))
    (accounts : Address → Option Account) (a : Address)
    (h : ∀ e ∈ entries, e.1 ≠ a) : writeAccounts accounts entries a = accounts a := by
  induction entries generalizing accounts with
  | nil => rfl
  | cons e rest ih =>
      obtain ⟨address, account⟩ := e
      rw [writeAccounts, ih _ (fun e he => h e (List.mem_cons_of_mem _ he)),
        Function.update_of_ne (h (address, account) (List.mem_cons_self ..)).symm]

/-- An address that occurs once in the batch gets the account written there. -/
theorem writeAccounts_of_mem (entries : List (Address × Option Account))
    (accounts : Address → Option Account) (a : Address) (account : Option Account)
    (hnodup : (entries.map Prod.fst).Nodup) (h : (a, account) ∈ entries) :
    writeAccounts accounts entries a = account := by
  induction entries generalizing accounts with
  | nil => cases h
  | cons e rest ih =>
      obtain ⟨address, account'⟩ := e
      rw [List.map_cons, List.nodup_cons] at hnodup
      rw [writeAccounts]
      rcases List.mem_cons.mp h with heq | hrest
      · obtain ⟨rfl, rfl⟩ := Prod.mk.inj heq
        rw [writeAccounts_of_notMem, Function.update_self]
        intro e he heq
        exact hnodup.1 (List.mem_map.mpr ⟨e, he, heq⟩)
      · exact ih _ hnodup.2 hrest

/-- A storage whose answers come from a view of its contents.  The batches are
those of `commit_dirty_accounts`, which hold no blocks. -/
class LawfulStorage (σ : Type) extends Storage σ where
  /-- The account stored for an address. -/
  accountAt : σ → Address → Option Account
  /-- The block stored for a height. -/
  blockAt : σ → BlockHeight → Option Block
  getAccount_view (a : Address) (s : σ) :
    accountAt (getAccount a s).2 = accountAt s ∧ blockAt (getAccount a s).2 = blockAt s
  getAccount_eq (a : Address) (s : σ) (r : Option Account) :
    (getAccount a s).1 = .ok r → r = accountAt s a
  getAccount_ne_panic (a : Address) (s : σ) : (getAccount a s).1 ≠ .panic
  saveStateRoot_view (h : BlockHeight) (root : Hash) (s : σ) :
    accountAt (saveStateRoot h root s).2 = accountAt s ∧
      blockAt (saveStateRoot h root s).2 = blockAt s
  writeBatch_ok (batch : WriteBatch) (s : σ) :
    batch.blocks = [] → (writeBatch batch s).1 = .ok () →
      accountAt (writeBatch batch s).2 = writeAccounts (accountAt s) batch.accounts ∧
      blockAt (writeBatch batch s).2 = blockAt s

/-! ## Storages that do not fail -/

namespace Storage

variable {σ : Type} [Storage σ]

/-- An operation that keeps the storage among the states `Good` and leaves a part
of it, `view`, as it is. -/
def KeepsView {α β : Type} (Good : σ → Prop) (view : σ → β) (m : Exec PacyteError σ α) : Prop :=
  ∀ s, Good s → Good (m s).2 ∧ view (m s).2 = view s

/-- On the states `Good` the writes of the engine return no error, and only
`save_block` changes the view. -/
structure Dependable {β : Type} (Good : σ → Prop) (view : σ → β) : Prop where
  getLatestBlock : KeepsView Good view (Storage.getLatestBlock (σ := σ))
  getBlockHeight : KeepsView Good view (Storage.getBlockHeight (σ := σ))
  getAccount : ∀ a, KeepsView Good view (Storage.getAccount (σ := σ) a)
  saveStateRoot : ∀ h root, KeepsView Good view (Storage.saveStateRoot (σ := σ) h root)
  writeBatch : ∀ batch, batch.blocks = [] →
    KeepsView Good view (Storage.writeBatch (σ := σ) batch)
  writeBatch_noErr : ∀ batch s, batch.blocks = [] → Good s →
    ¬ (Storage.writeBatch batch s).1.IsErr
  saveBlock_noErr : ∀ block s, Good s → ¬ (Storage.saveBlock block s).1.IsErr

/-- `get_latest_block` returns the block that was saved last. -/
structure KeepsLatest (Good : σ → Prop) (latest : σ → Block) : Prop
    extends Dependable Good latest where
  getLatestBlock_eq : ∀ s r, Good s →
    (Storage.getLatestBlock s).1 = .ok r → r = some (latest s)
  saveBlock : ∀ block s, Good s → block.header.height.toNat = (latest s).header.height.toNat + 1 →
    (Storage.saveBlock block s).1 = .ok () →
      Good (Storage.saveBlock block s).2 ∧ latest (Storage.saveBlock block s).2 = block

/-- `get_block_height` returns the height `saved`. -/
structure KeepsHeight (Good : σ → Prop) (saved : σ → BlockHeight) : Prop
    extends Dependable Good saved where
  getBlockHeight_eq : ∀ s, Good s → (Storage.getBlockHeight s).1 = .ok (saved s)
  saveBlock : ∀ block s, Good s → (Storage.saveBlock block s).1 = .ok () →
    Good (Storage.saveBlock block s).2

end Storage
