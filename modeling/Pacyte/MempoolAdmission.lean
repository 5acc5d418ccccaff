/-
# Adding and expiring transactions

The other half of `MempoolImpl` of `src/mempool/pool.rs`: `add_transaction` and
`prune_expired`, and the calls of a mempool one after the other.

* Fee rates are `f64` numbers.  `FeeFloat` is what the pool takes from that type: the key of
  the index, and the comparison that decides whether a transaction replaces another one.
* The state manager is shared with the rest of the node, which may change it between two calls
  in any way (`MempoolCall.elsewhere`).
* The statistics are left out.
-/
import Pacyte.Conservation
import Pacyte.MempoolValidator
import Pacyte.SupplyPhase

/-- What the pool takes from `f64`. -/
class FeeFloat (F : Type) extends FloatOps F where
  /-- `as u64`, which rounds towards zero and saturates. -/
  toU64 : F → UInt64
  /-- `<`. -/
  less : F → F → Bool

/-- Exact rational arithmetic. -/
instance : FeeFloat ℚ where
  toU64 q := UInt64.ofNat (min ⌊q⌋₊ (2 ^ 64 - 1))
  less a b := decide (a < b)

/-- `u64::saturating_sub`. -/
def U64.saturatingSub (a b : UInt64) : UInt64 := if b ≤ a then a - b else 0

/-- `AddTxResult`. -/
inductive AddTxResult : Type where
  | added
  | alreadyExists
  | replaced (oldHash : Hash)
  | rejected (reason : String)
  deriving DecidableEq, Repr

namespace MempoolImpl

/-! ## Fee rates -/

section Rates

variable (F : Type) [FeeFloat F]

/-- `fee_per_byte`, which is also the priority. -/
def feePerByte (tx : Transaction) : F :=
  FloatOps.ofU128 tx.fee / FloatOps.ofU128 (BitVec.ofNat 128 tx.size)

/-- The key of the index. -/
def priorityKey (tx : Transaction) : UInt64 :=
  FeeFloat.toU64 (feePerByte F tx * FloatOps.lit 1000000)

/-- `should_replace`. -/
def shouldReplace (existing : PooledTx) (new : Transaction) : Bool :=
  decide (existing.tx.nonce = new.nonce) &&
    FeeFloat.less (feePerByte F existing.tx * FloatOps.lit 1.1) (feePerByte F new)

end Rates

/-! ## Adding a transaction -/

/-- `add_to_priority_index`. -/
def addToPriorityIndex (hash : Hash) (key : UInt64) :
    List (UInt64 × List Hash) → List (UInt64 × List Hash)
  | [] => [(key, [hash])]
  | (key', hashes) :: rest =>
    if key = key' then (key', hashes ++ [hash]) :: rest
    else if key < key' then (key, [hash]) :: (key', hashes) :: rest
    else (key', hashes) :: addToPriorityIndex hash key rest

/-- The pending nonces of a sender. -/
def pendingOf (pool : MempoolImpl) (address : Address) : Finset UInt64 :=
  (pool.pendingNonces.lookup address).getD ∅

/-- The counted transactions of a sender. -/
def txCount (pool : MempoolImpl) (address : Address) : ℕ :=
  (pool.txCountByAddress.lookup address).getD 0

/-- The pooled transaction with the sender and the nonce of a new one, if the nonce is
pending. -/
def conflicting (tx : Transaction) (pool : MempoolImpl) : Option PooledTx :=
  if tx.nonce ∈ pool.pendingOf tx.from then
    (pool.transactions.toPairs.find? fun e =>
      decide (e.2.tx.from = tx.from ∧ e.2.tx.nonce = tx.nonce)).map Prod.snd
  else none

/-- The entries for a new transaction. -/
def insertPooled (key : UInt64) (pooled : PooledTx) (pool : MempoolImpl) : MempoolImpl :=
  { pool with
    pendingNonces := pool.pendingNonces.insert pooled.tx.from
      (insert pooled.tx.nonce (pool.pendingOf pooled.tx.from))
    txCountByAddress := pool.txCountByAddress.insert pooled.tx.from
      (pool.txCount pooled.tx.from + 1)
    priorityIndex := addToPriorityIndex pooled.hash key pool.priorityIndex
    transactions := pool.transactions.insert pooled.hash pooled }

section Admission

variable (F : Type) [FeeFloat F] [Primitives] {σ : Type}

/-- A program of the state manager. -/
def onState {α : Type} (m : Exec PacyteError (StateManager σ) α) :
    Exec PacyteError (MempoolImpl × StateManager σ) α :=
  Exec.onPart Prod.snd (fun sm p => (p.1, sm)) m

/-- `PooledTx::new`, and the entries for it. -/
def insertNew (tx : Transaction) : Exec PacyteError (MempoolImpl × StateManager σ) Unit := do
  let now ← onState (StateManager.onClock currentTimestamp)
  Exec.modify fun p => (insertPooled (priorityKey F tx) ⟨tx, now, tx.hash, tx.size⟩ p.1, p.2)

variable [Verifiers] [Storage σ]

/-- `validate_transaction` of the pool; an error is the reason for a rejection. -/
def validateTransaction (config : MempoolConfig) (tx : Transaction) :
    Exec PacyteError (StateManager σ) (Option String) := do
  if ← StateManager.onClock (tx.validateBasic config.maxTxAgeSecs) then
    if MempoolValidator.verifySignature tx then
      if ← MempoolValidator.checkBalance tx then
        let result ← MempoolValidator.checkNonce config tx
        if result.isValid then
          if MempoolValidator.checkFee config tx then
            return none
          else return some "Fee too low"
        else return some result.errorMessage
      else return some "Insufficient balance"
    else return some "Invalid signature"
  else return some "Basic validation failed"

/-- `add_transaction`. -/
def addTransaction (tx : Transaction) :
    Exec PacyteError (MempoolImpl × StateManager σ) AddTxResult := do
  let p ← Exec.get
  if (p.1.transactions.lookup tx.hash).isSome then
    return .alreadyExists
  else if p.1.config.maxSize ≤ p.1.transactions.entries.length then
    return .rejected "Mempool full"
  else if p.1.config.maxTxPerAddress ≤ p.1.txCount tx.from then
    return .rejected s!"Too many pending txs from address (max: {p.1.config.maxTxPerAddress})"
  else
    match ← onState (validateTransaction p.1.config tx) with
    | some reason => return .rejected reason
    | none =>
      match conflicting tx p.1 with
      | none =>
        insertNew F tx
        return .added
      | some existing =>
        if shouldReplace F existing tx then
          Exec.modify fun p => ((removeTransaction existing.hash p.1).2, p.2)
          insertNew F tx
          return .replaced existing.hash
        else
          return .rejected "Replacement fee too low"

end Admission

/-! ## Expiry -/

/-- The hashes of the entries that are too old. -/
def expiredAmong (currentTime : Timestamp) (pool : MempoolImpl) : List Hash :=
  (pool.transactions.toPairs.filter fun e =>
    decide (pool.config.maxTxAgeSecs < U64.saturatingSub currentTime e.2.addedAt)).map Prod.fst

/-- `prune_expired`. -/
def pruneExpired (currentTime : Timestamp) (pool : MempoolImpl) : ℕ × MempoolImpl :=
  ((expiredAmong currentTime pool).length, removeAll (expiredAmong currentTime pool) pool)

/-! ## Runs -/

/-- A call of the mempool, or what the rest of the node does to the state manager. -/
inductive MempoolCall (σ : Type) : Type where
  | add (tx : Transaction)
  | remove (hash : Hash)
  | cleanup (processed : List Hash)
  | pruneExpired (currentTime : Timestamp)
  | elsewhere (stateManager : StateManager σ)

section Runs

variable (F : Type) [FeeFloat F] [Primitives] [Verifiers] {σ : Type} [Storage σ]

/-- The state after a call, however it ends. -/
def call (c : MempoolCall σ) (p : MempoolImpl × StateManager σ) : MempoolImpl × StateManager σ :=
  match c with
  | .add tx => (addTransaction F tx p).2
  | .remove hash => ((removeTransaction hash p.1).2, p.2)
  | .cleanup processed => (MempoolImpl.cleanup processed p).2
  | .pruneExpired currentTime => ((MempoolImpl.pruneExpired currentTime p.1).2, p.2)
  | .elsewhere stateManager => (p.1, stateManager)

/-- The states that calls one after the other lead to from an empty pool. -/
def Reachable (config : MempoolConfig) (p : MempoolImpl × StateManager σ) : Prop :=
  ∃ (sm : StateManager σ) (calls : List (MempoolCall σ)),
    p = calls.foldl (fun p c => call F c p) (new config, sm)

/-- What holds of an empty pool and is kept by every call holds of every reachable state. -/
theorem Reachable.induction {config : MempoolConfig} {J : MempoolImpl × StateManager σ → Prop}
    (hnew : ∀ sm, J (new config, sm)) (hcall : ∀ c p, J p → J (call F c p))
    {p : MempoolImpl × StateManager σ} (h : Reachable F config p) : J p := by
  obtain ⟨sm, calls, rfl⟩ := h
  have hrun : ∀ p, J p → J (calls.foldl (fun p c => call F c p) p) := by
    induction calls with
    | nil => exact fun p hp => hp
    | cons c calls ih => exact fun p hp => ih _ (hcall c p hp)
  exact hrun _ (hnew sm)

end Runs

end MempoolImpl

/-! ## A small pool -/

namespace Sample

/-- Ten transactions at most, five from a sender, and a nonce gap of three. -/
def poolConfig : MempoolConfig := ⟨10, 100, 1, 5, 3⟩

/-- A transfer with a signature that the sample verifier accepts. -/
def signedTransfer [Primitives] (payer payee : UInt8) (amount fee : U128) (nonce : UInt64) :
    Transaction :=
  let unsigned : Transaction :=
    ⟨sampleAddress payer, sampleAddress payee, amount, fee, nonce, [], 0⟩
  { unsigned with signature := unsigned.sighash.toList ++ unsigned.from.toList }

/-- The pool after the calls, with the balances of a sample state. -/
def poolAfter [Primitives] (balances : List (Address × U128))
    (calls : List (MempoolImpl.MempoolCall MemoryStorage)) : MempoolImpl × StateManager MemoryStorage :=
  calls.foldl (fun p c => MempoolImpl.call ℚ c p)
    (MempoolImpl.new poolConfig, sampleState balances)

end Sample
