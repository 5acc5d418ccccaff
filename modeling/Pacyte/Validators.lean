/-
# The validator manager

`ValidatorManager` of `src/consensus/validator.rs`: the records of all validators, the
map from addresses to their numbers, and the active set, which is built from the
records.

* A hash map is iterated in an order of its own.  The orders are a stream (`Listing`),
  like the readings of a clock: each iteration takes the next one.
* What the processor reports is a part of the manager (`Hardware`).
* Every lock is taken through `guarded`, so a run also tells whether the call has asked
  for a lock that it holds itself.  The run goes on as with reentrant locks.

The fields of a record that none of these functions reads (times, counters,
commission, delegators) are left out.
-/
import Pacyte.Consensus
import Pacyte.Locks

open Locks

/-! ## Checked sums -/

namespace Exec

variable {ε σ : Type}

/-- `Iterator::sum` over 64-bit words, from a start value. -/
def sumFrom : UInt64 → List UInt64 → Exec ε σ UInt64
  | acc, [] => return acc
  | acc, n :: rest => do
    let acc ← addU64 acc n
    sumFrom acc rest

/-- The sum is the one of the natural numbers, if that fits. -/
theorem sumFrom_run (acc : UInt64) (l : List UInt64) (s : σ) :
    (sumFrom acc l : Exec ε σ UInt64) s =
      if acc.toNat + (l.map UInt64.toNat).sum < 2 ^ 64 then
        (.ok (UInt64.ofNat (acc.toNat + (l.map UInt64.toNat).sum)), s)
      else (.panic, s) := by
  induction l generalizing acc with
  | nil =>
      have hfits : acc.toNat + 0 < 2 ^ 64 := acc.toNat_lt
      rw [List.map_nil, List.sum_nil, if_pos hfits, Nat.add_zero, UInt64.ofNat_toNat]
      rfl
  | cons n rest ih =>
      rw [sumFrom, run_bind, addU64, List.map_cons, List.sum_cons]
      by_cases hfits : acc.toNat + n.toNat < 2 ^ 64
      · rw [if_pos hfits, run_pure]
        dsimp only
        rw [ih, toNat_add_of_fits hfits, Nat.add_assoc]
      · rw [if_neg hfits, run_abort, if_neg (by omega)]

end Exec

/-! ## Records -/

/-- `ValidatorStatus`. -/
inductive ValidatorStatus : Type where
  | active
  | inactive
  | jailed
  | slashed
  | unbonding
  deriving DecidableEq, Repr

/-- What `check_hardware_features` reports. -/
structure Hardware where
  verified : Bool
  avx512Supported : Bool
  deriving DecidableEq, Repr

/-- `ValidatorRecord`. -/
structure ValidatorRecord where
  id : UInt64
  address : Address
  publicKey : Bytes
  stake : U128
  votingPower : UInt64
  status : ValidatorStatus
  slashedAmount : U128
  hardwareVerified : Bool
  avx512Supported : Bool
  deriving DecidableEq, Repr

/-- `MIN_VALIDATOR_STAKE`. -/
def minValidatorStake : U128 := 1000000000000

/-- `MAX_VALIDATORS`. -/
def maxValidators : ℕ := 21

namespace ValidatorRecord

/-- `ValidatorRecord::calculate_voting_power`: the quotient is cut to 64 bits. -/
def calculateVotingPower (stake : U128) : UInt64 := UInt64.ofNat (stake.toNat / 1000000)

/-- `ValidatorRecord::new`. -/
def new (id : UInt64) (address : Address) (publicKey : Bytes) (stake : U128)
    (hardware : Hardware) : ValidatorRecord where
  id := id
  address := address
  publicKey := publicKey
  stake := stake
  votingPower := calculateVotingPower stake
  status := .active
  slashedAmount := 0
  hardwareVerified := hardware.verified
  avx512Supported := hardware.avx512Supported

/-- `ValidatorRecord::slash`. -/
def slash (amount : U128) : Exec PacyteError ValidatorRecord Unit := do
  let v ← Exec.get
  if v.stake < amount then
    Exec.throw (.insufficientBalance amount v.stake)
  else
    Exec.modify fun v => { v with stake := v.stake - amount }
    let total ← Exec.addU128 v.slashedAmount amount
    Exec.modify fun v =>
      { v with slashedAmount := total, votingPower := calculateVotingPower v.stake }
    Exec.modify fun v => if v.stake < minValidatorStake then { v with status := .inactive } else v

/-- `ValidatorRecord::is_active`. -/
def isActive (v : ValidatorRecord) : Bool := decide (v.status = .active)

/-- The entry of the active set for a record. -/
def info (v : ValidatorRecord) : ValidatorInfo where
  id := v.id
  address := v.address
  publicKey := v.publicKey
  stake := v.stake
  votingPower := v.votingPower
  isActive := true

end ValidatorRecord

/-! ## Sets -/

namespace ValidatorSet

/-- `ValidatorSet::add_validator`. -/
def addValidator {ε σ : Type} (info : ValidatorInfo) (set : ValidatorSet) :
    Exec ε σ ValidatorSet := do
  let total ← Exec.addU128 set.totalStake info.stake
  return { set with totalStake := total, validators := set.validators ++ [info] }

/-- A loop that adds validators. -/
def addAll {ε σ : Type} : List ValidatorRecord → ValidatorSet → Exec ε σ ValidatorSet
  | [], set => return set
  | v :: rest, set => do
    let set ← addValidator v.info set
    addAll rest set

/-- `ValidatorSet::total_voting_power`. -/
def totalVotingPower {ε σ : Type} (set : ValidatorSet) : Exec ε σ UInt64 :=
  Exec.sumFrom 0 (set.validators.map fun v => v.votingPower)

/-- `ValidatorSet::quorum_voting_power`. -/
def quorumVotingPower {ε σ : Type} (set : ValidatorSet) : Exec ε σ UInt64 := do
  let total ← set.totalVotingPower
  if total.toNat * 2 < 2 ^ 64 then
    Exec.addU64 (UInt64.ofNat (total.toNat * 2 / 3)) 1
  else
    Exec.abort

end ValidatorSet

/-! ## The manager -/

/-- An order in which a hash map may list its values. -/
structure Listing (α : Type) where
  list : List α → List α
  perm : ∀ l, (list l).Perm l

/-- The locks of a `ValidatorManager`. -/
inductive ValidatorLock : Type where
  | validators
  | addressToId
  | nextValidatorId
  | currentSet
  | epoch
  deriving DecidableEq, Repr

/-- `ValidatorManager`, with what the processor reports, the orders of the iterations to
come, and the locks that the running call holds. -/
structure ValidatorManager where
  validators : Map UInt64 ValidatorRecord
  addressToId : Map Address UInt64
  nextValidatorId : UInt64
  currentSet : ValidatorSet
  epoch : UInt64
  hardware : Hardware
  orders : ℕ → Listing ValidatorRecord
  guards : Guards ValidatorLock

namespace ValidatorManager

/-- `ValidatorManager::new`. -/
def new (hardware : Hardware) (orders : ℕ → Listing ValidatorRecord) : ValidatorManager where
  validators := ∅
  addressToId := ∅
  nextValidatorId := 1
  currentSet := ValidatorSet.new
  epoch := 0
  hardware := hardware
  orders := orders
  guards := Guards.free

/-- The records in no particular order. -/
def records (vm : ValidatorManager) : List ValidatorRecord := vm.validators.toPairs.map Prod.snd

/-- Run a program while a guard of one of the manager's locks is held. -/
def guarded {α : Type} (l : ValidatorLock) (m : Mode)
    (body : Exec PacyteError ValidatorManager α) : Exec PacyteError ValidatorManager α :=
  Exec.guarded (·.guards) (fun g vm => { vm with guards := g }) l m body

/-- `validators.values()`. -/
def values : Exec PacyteError ValidatorManager (List ValidatorRecord) := fun vm =>
  (.ok ((vm.orders 0).list vm.records), { vm with orders := fun k => vm.orders (k + 1) })

/-- `sort_by_key(|v| Reverse(v.stake))`, which keeps the order of equal stakes. -/
def sortByStake (l : List ValidatorRecord) : List ValidatorRecord :=
  l.insertionSort fun a b => b.stake ≤ a.stake

/-- `min_by_key(|v| v.stake)`: the first of the smallest ones. -/
def minByStake : List ValidatorRecord → Option ValidatorRecord
  | [] => none
  | v :: rest => some (rest.foldl (fun m w => if w.stake < m.stake then w else m) v)

/-- `*self.epoch.read()`. -/
def readEpoch : Exec PacyteError ValidatorManager UInt64 :=
  guarded .epoch .read do
    let vm ← Exec.get
    return vm.epoch

/-- What `update_validator_set` does while it holds the records. -/
def rebuildSet : Exec PacyteError ValidatorManager Unit := do
  let epoch ← readEpoch
  let all ← values
  let active := sortByStake (all.filter fun v => v.isActive && v.avx512Supported)
  let set ← ValidatorSet.addAll (active.take maxValidators) { ValidatorSet.new with epoch := epoch }
  guarded .currentSet .write (Exec.modify fun vm => { vm with currentSet := set })

/-- `ValidatorManager::update_validator_set`. -/
def updateValidatorSet : Exec PacyteError ValidatorManager Unit :=
  guarded .validators .read rebuildSet

/-- The next number. -/
def takeId : Exec PacyteError ValidatorManager UInt64 :=
  guarded .nextValidatorId .write do
    let vm ← Exec.get
    let next ← Exec.addU64 vm.nextValidatorId 1
    Exec.modify fun vm => { vm with nextValidatorId := next }
    return vm.nextValidatorId

/-- `validators.insert` of a new record. -/
def insertRecord (id : UInt64) (address : Address) (publicKey : Bytes) (stake : U128) :
    Exec PacyteError ValidatorManager Unit :=
  Exec.modify fun vm => { vm with
    validators := vm.validators.insert id
      (ValidatorRecord.new id address publicKey stake vm.hardware) }

/-- `addr_map.insert`. -/
def insertAddress (address : Address) (id : UInt64) : Exec PacyteError ValidatorManager Unit :=
  guarded .addressToId .write
    (Exec.modify fun vm => { vm with addressToId := vm.addressToId.insert address id })

/-- `old.status = Inactive` for the record with this number. -/
def deactivate (id : UInt64) (vm : ValidatorManager) : ValidatorManager :=
  { vm with validators := match vm.validators.lookup id with
      | some v => vm.validators.insert id { v with status := .inactive }
      | none => vm.validators }

/-- What `replace_validator` does while it holds the records. -/
def replaceWeakest (address : Address) (publicKey : Bytes) (stake : U128) :
    Exec PacyteError ValidatorManager UInt64 := do
  let all ← values
  match minByStake (all.filter (·.isActive)) with
  | none => Exec.throw .validatorSetFull
  | some minV =>
    if minV.stake < stake then
      Exec.modify (deactivate minV.id)
      let id ← takeId
      insertRecord id address publicKey stake
      insertAddress address id
      updateValidatorSet
      return id
    else
      Exec.throw .validatorSetFull

/-- `ValidatorManager::replace_validator`.  The records stay locked until the end. -/
def replaceValidator (address : Address) (publicKey : Bytes) (stake : U128) :
    Exec PacyteError ValidatorManager UInt64 :=
  guarded .validators .write (replaceWeakest address publicKey stake)

/-- The number of active records. -/
def activeRecords (vm : ValidatorManager) : ℕ := vm.records.countP (·.isActive)

/-- The end of `register_validator`: a new record. -/
def addValidator (address : Address) (publicKey : Bytes) (stake : U128) :
    Exec PacyteError ValidatorManager UInt64 := do
  let id ← takeId
  guarded .validators .write (insertRecord id address publicKey stake)
  insertAddress address id
  updateValidatorSet
  return id

/-- Whether `register_validator` knows the address. -/
def isKnown (address : Address) : Exec PacyteError ValidatorManager Bool :=
  guarded .addressToId .read do
    let vm ← Exec.get
    return (vm.addressToId.lookup address).isSome

/-- The block of `register_validator` that counts the active records.  If the set is full,
they stay locked while a validator is replaced. -/
def replaceIfFull (address : Address) (publicKey : Bytes) (stake : U128) :
    Exec PacyteError ValidatorManager (Option UInt64) :=
  guarded .validators .read do
    let vm ← Exec.get
    if maxValidators ≤ vm.activeRecords then
      let id ← replaceValidator address publicKey stake
      return some id
    else
      return none

/-- `ValidatorManager::register_validator`. -/
def registerValidator (address : Address) (publicKey : Bytes) (stake : U128) :
    Exec PacyteError ValidatorManager UInt64 := do
  let vm ← Exec.get
  if !vm.hardware.avx512Supported then
    Exec.throw .hardwareInsufficient
  else if stake < minValidatorStake then
    Exec.throw (.insufficientStake stake minValidatorStake)
  else
    let known ← isKnown address
    if known then
      Exec.throw .validatorAlreadyExists
    else
      let replaced ← replaceIfFull address publicKey stake
      match replaced with
      | some id => return id
      | none => addValidator address publicKey stake

/-- Run a program on the record with a number (`get_mut`). -/
def onRecord (id : UInt64) (m : Exec PacyteError ValidatorRecord Unit) :
    Exec PacyteError ValidatorManager Unit := fun vm =>
  match vm.validators.lookup id with
  | none => (.err (.validatorNotFound id), vm)
  | some v => ((m v).1, { vm with validators := vm.validators.insert id (m v).2 })

/-- What `slash` does while it holds the records. -/
def slashLocked (id : UInt64) (amount : U128) : Exec PacyteError ValidatorManager Unit := do
  onRecord id (ValidatorRecord.slash amount)
  let vm ← Exec.get
  if (vm.validators.lookup id).any fun v => v.status = .inactive then
    updateValidatorSet
  else
    return ()

/-- `ValidatorManager::slash`. -/
def slash (id : UInt64) (amount : U128) : Exec PacyteError ValidatorManager Unit :=
  guarded .validators .write (slashLocked id amount)

/-- What `slash_double_sign` does to the record. -/
def punish : Exec PacyteError ValidatorRecord Unit := do
  let v ← Exec.get
  ValidatorRecord.slash (BitVec.ofNat 128 (v.stake.toNat / 20))
  Exec.modify fun v => { v with status := .slashed }

/-- `ValidatorManager::slash_double_sign`. -/
def slashDoubleSign (id : UInt64) : Exec PacyteError ValidatorManager Unit :=
  guarded .validators .write do
    onRecord id punish
    updateValidatorSet

/-- `ValidatorManager::get_validator`. -/
def getValidator (id : UInt64) : Exec PacyteError ValidatorManager (Option ValidatorRecord) :=
  guarded .validators .read do
    let vm ← Exec.get
    return vm.validators.lookup id

/-- `ValidatorManager::get_proposer`. -/
def getProposer (height : BlockHeight) (round : UInt64) :
    Exec PacyteError ValidatorManager (Option UInt64) :=
  guarded .currentSet .read do
    let vm ← Exec.get
    let proposer ← vm.currentSet.getProposer height round
    return proposer.map fun v => v.id

/-- `ValidatorManager::active_count`. -/
def activeCount : Exec PacyteError ValidatorManager ℕ :=
  guarded .currentSet .read do
    let vm ← Exec.get
    return vm.currentSet.activeCount

end ValidatorManager

namespace Sample

/-- A processor that passes the check. -/
def processor : Hardware := ⟨true, true⟩

/-- Iterations follow the order of the map. -/
def inOrder : ℕ → Listing ValidatorRecord := fun _ => ⟨id, List.Perm.refl⟩

/-- The key and the address of a validator are made of one byte. -/
def enrol (vm : ValidatorManager) (byte : UInt8) (stake : U128) : ValidatorManager :=
  (ValidatorManager.registerValidator (Vector.replicate 32 byte) (List.replicate 32 byte) stake
    vm).2

/-- The manager after some validators have registered; their numbers count from one. -/
def registry (orders : ℕ → Listing ValidatorRecord) (entries : List (UInt8 × U128)) :
    ValidatorManager :=
  entries.foldl (fun vm e => enrol vm e.1 e.2) (ValidatorManager.new processor orders)

end Sample
