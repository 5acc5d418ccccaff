/-
# The contract manager

`ContractManager` of `src/execution/contract.rs`: the record of a contract is written into the
storage of the contract, under a key of its own, and is kept in a cache.

* The two storages are behind traits (`ContractStorage`, `CodeStorage`), and the coding of a
  record is a class (`MetadataCodec`).
* The manager shares the code storage with the executor, so code can appear that has no record
  (`ContractCall.setCode`).

The name and the symbol of a record, which no function sets, and the events are left out.
-/
import Pacyte.Executor

/-- `ContractMetadata`. -/
structure ContractMetadata where
  address : Address
  owner : Address
  createdAt : Timestamp
  createdHeight : BlockHeight
  codeHash : Hash
  codeSize : UInt64
  isUpgradeable : Bool
  implementation : Option Address
  version : UInt32
  deriving DecidableEq, Repr

/-- `ContractMetadata::new`. -/
def ContractMetadata.new (address owner : Address) (codeHash : Hash) (codeSize : UInt64)
    (height : BlockHeight) (now : Timestamp) : ContractMetadata where
  address := address
  owner := owner
  createdAt := now
  createdHeight := height
  codeHash := codeHash
  codeSize := codeSize
  isUpgradeable := false
  implementation := none
  version := 1

/-- `ContractStorage`, as far as the manager uses it. -/
class ContractStorage (τ : Type) where
  get : Address → Bytes → τ → Option Bytes
  set : Address → Bytes → Bytes → τ → τ

/-- `bincode` of a record; an error is given by its text. -/
class MetadataCodec where
  serialize : ContractMetadata → Except String Bytes
  deserialize : Bytes → Except String ContractMetadata

/-- The errors of the manager. -/
inductive ContractError : Type where
  | contractAlreadyExists (address : Address)
  | contractNotFound (address : Address)
  | contractNotUpgradeable (address : Address)
  | unauthorized (message : String)
  | serializationError (message : String)
  deriving DecidableEq, Repr

/-- `ContractManager`. -/
structure ContractManager (τ κ : Type) where
  storage : τ
  codeStorage : κ
  metadataCache : Map Address ContractMetadata

namespace ContractManager

variable {τ κ : Type}

/-- `ContractManager::new`. -/
def new (storage : τ) (codeStorage : κ) : ContractManager τ κ := ⟨storage, codeStorage, ∅⟩

/-- `metadata_key`. -/
def metadataKey (address : Address) : Bytes :=
  ("contract_metadata:".toList.map fun c => UInt8.ofNat c.toNat) ++ address.toList

/-- `hash_code`. -/
def hashCode [Keccak256] (code : Bytes) : Hash := Keccak256.digest code

/-- `cache.insert`. -/
def cacheMetadata (address : Address) (metadata : ContractMetadata) :
    Exec ContractError (ContractManager τ κ) Unit :=
  Exec.modify fun m => { m with metadataCache := m.metadataCache.insert address metadata }

variable [ContractStorage τ] [MetadataCodec]

/-- `save_metadata`. -/
def saveMetadata (address : Address) (metadata : ContractMetadata) :
    Exec ContractError (ContractManager τ κ) Unit :=
  match MetadataCodec.serialize metadata with
  | .error message => Exec.throw (.serializationError message)
  | .ok data =>
    Exec.modify fun m =>
      { m with storage := ContractStorage.set address (metadataKey address) data m.storage }

/-- `get_metadata`. -/
def getMetadata (address : Address) :
    Exec ContractError (ContractManager τ κ) (Option ContractMetadata) := do
  let m ← Exec.get
  match m.metadataCache.lookup address with
  | some metadata => return some metadata
  | none =>
    match ContractStorage.get address (metadataKey address) m.storage with
    | none => return none
    | some data =>
      match MetadataCodec.deserialize data with
      | .error message => Exec.throw (.serializationError message)
      | .ok metadata =>
        cacheMetadata address metadata
        return some metadata

variable [CodeStorage κ]

/-- `deploy`.  The code is stored before the record. -/
def deploy [Keccak256] (address owner : Address) (code : Bytes) (height : BlockHeight)
    (now : Timestamp) : Exec ContractError (ContractManager τ κ) ContractMetadata := do
  let m ← Exec.get
  if CodeStorage.codeExists address m.codeStorage then
    Exec.throw (.contractAlreadyExists address)
  else
    let metadata := ContractMetadata.new address owner (hashCode code)
      (UInt64.ofNat code.length) height now
    Exec.modify fun m =>
      { m with codeStorage := CodeStorage.setCode address code m.codeStorage }
    saveMetadata address metadata
    cacheMetadata address metadata
    return metadata

/-- `upgrade`. -/
def upgrade (proxyAddress newImplementation owner : Address) :
    Exec ContractError (ContractManager τ κ) Unit := do
  let found ← getMetadata proxyAddress
  match found with
  | none => Exec.throw (.contractNotFound proxyAddress)
  | some metadata =>
    if metadata.owner ≠ owner then
      Exec.throw (.unauthorized "Not contract owner")
    else if !metadata.isUpgradeable then
      Exec.throw (.contractNotUpgradeable proxyAddress)
    else
      let m ← Exec.get
      if !CodeStorage.codeExists newImplementation m.codeStorage then
        Exec.throw (.contractNotFound newImplementation)
      else if metadata.version.toNat + 1 < 2 ^ 32 then
        let metadata := { metadata with
          implementation := some newImplementation, version := metadata.version + 1 }
        saveMetadata proxyAddress metadata
        cacheMetadata proxyAddress metadata
      else
        Exec.abort

end ContractManager

/-- What happens to a manager and its storages. -/
inductive ContractCall : Type where
  | deploy (address owner : Address) (code : Bytes) (height : BlockHeight) (now : Timestamp)
  | upgrade (proxyAddress newImplementation owner : Address)
  | getMetadata (address : Address)
  /-- A transaction creates a contract. -/
  | setCode (address : Address) (code : Bytes)
  /-- A new manager on the same storages. -/
  | restart
  deriving DecidableEq, Repr

/-- The state after a call. -/
def ContractCall.after {τ κ : Type} [ContractStorage τ] [MetadataCodec] [CodeStorage κ]
    [Keccak256] (call : ContractCall) (m : ContractManager τ κ) : ContractManager τ κ :=
  match call with
  | deploy address owner code height now =>
    (ContractManager.deploy address owner code height now m).2
  | upgrade proxyAddress newImplementation owner =>
    (ContractManager.upgrade proxyAddress newImplementation owner m).2
  | getMetadata address => (ContractManager.getMetadata address m).2
  | setCode address code =>
    { m with codeStorage := CodeStorage.setCode address code m.codeStorage }
  | restart => ContractManager.new m.storage m.codeStorage
