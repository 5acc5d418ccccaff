/-
# The mempool

`MempoolImpl` of `src/mempool/pool.rs`: the pooled transactions by hash, the pending nonces
and the number of transactions of each sender, and the index by priority.  This part has the
operations that take transactions out: `remove_transaction`, `select_for_block` and
`cleanup`.

A transaction leaves the pool by its hash, and nothing here puts one in (`Thinner`).
`cleanup` looks up nonces in the state manager and does nothing else with it
(`LawfulMempool`), and of the transactions whose hashes it is given none is left
(`cleanup_spec`).
-/
import Pacyte.Consensus

/-! ## The pool -/

/-- `MempoolConfig`. -/
structure MempoolConfig where
  maxSize : ℕ
  maxTxAgeSecs : UInt64
  minFeePerByte : UInt64
  maxTxPerAddress : ℕ
  maxNonceGap : UInt64

/-- `PooledTx`; the fee rate and the priority are functions of the transaction. -/
structure PooledTx where
  tx : Transaction
  addedAt : Timestamp
  hash : Hash
  size : ℕ
  deriving DecidableEq, Repr

/-- `MempoolImpl`; the index lists the priorities in ascending order. -/
structure MempoolImpl where
  config : MempoolConfig
  transactions : Map Hash PooledTx
  pendingNonces : Map Address (Finset UInt64)
  txCountByAddress : Map Address ℕ
  priorityIndex : List (UInt64 × List Hash)

/-- `Vec::swap_remove`: the last element takes the place of the removed one. -/
def swapRemove {α : Type} (l : List α) (i : ℕ) : List α :=
  match l.getLast? with
  | none => l
  | some last => (l.set i last).dropLast

namespace MempoolImpl

/-- `MempoolImpl::new`. -/
def new (config : MempoolConfig) : MempoolImpl := ⟨config, ∅, ∅, ∅, []⟩

/-! ## Taking transactions out -/

/-- `remove_from_priority_index`: the first list that has the hash loses it. -/
def removeFromPriorityIndex (hash : Hash) : List (UInt64 × List Hash) → List (UInt64 × List Hash)
  | [] => []
  | (priority, hashes) :: rest =>
    if hash ∈ hashes then
      (priority, swapRemove hashes (hashes.idxOf hash)) :: rest
    else
      (priority, hashes) :: removeFromPriorityIndex hash rest

/-- `remove_transaction`. -/
def removeTransaction (hash : Hash) (pool : MempoolImpl) : Option Transaction × MempoolImpl :=
  match pool.transactions.lookup hash with
  | none => (none, pool)
  | some pooled => (some pooled.tx,
    { pool with
      transactions := pool.transactions.erase hash
      pendingNonces := match pool.pendingNonces.lookup pooled.tx.from with
        | some pending => pool.pendingNonces.insert pooled.tx.from (pending.erase pooled.tx.nonce)
        | none => pool.pendingNonces
      txCountByAddress := match pool.txCountByAddress.lookup pooled.tx.from with
        | some count => pool.txCountByAddress.insert pooled.tx.from (count - 1)
        | none => pool.txCountByAddress
      priorityIndex := removeFromPriorityIndex hash pool.priorityIndex })

/-- A loop of `remove_transaction` over hashes. -/
def removeAll (hashes : List Hash) (pool : MempoolImpl) : MempoolImpl :=
  hashes.foldl (fun pool hash => (removeTransaction hash pool).2) pool

/-! ## Selecting transactions -/

/-- The variables of the loop of `select_for_block`. -/
structure Selection where
  selected : List Transaction
  selectedHashes : Finset Hash
  currentSize : ℕ
  nonceTracker : Map Address UInt64

/-- The nonce that is expected next from a sender; zero for the first one. -/
def expectedNonce (sender : Address) (acc : Selection) : Exec Empty MempoolImpl UInt64 :=
  match acc.nonceTracker.lookup sender with
  | some n => Exec.addU64 n 1
  | none => return 0

/-- What the loop does with a pooled transaction. -/
def consider (maxSize : ℕ) (maxNonceGap : UInt64) (hash : Hash) (pooled : PooledTx)
    (acc : Selection) : Exec Empty MempoolImpl Selection := do
  let tx := pooled.tx
  let expected ← expectedNonce tx.from acc
  if tx.nonce < expected then
    return acc
  else
    let limit ← Exec.addU64 expected maxNonceGap
    if limit < tx.nonce ∨ maxSize < acc.currentSize + pooled.size then
      return acc
    else
      return {
        selected := acc.selected ++ [tx]
        selectedHashes := insert hash acc.selectedHashes
        currentSize := acc.currentSize + pooled.size
        nonceTracker := acc.nonceTracker.insert tx.from tx.nonce }

/-- The inner loop, over the hashes of one priority. -/
def selectAmong (maxCount maxSize : ℕ) : List Hash → Selection → Exec Empty MempoolImpl Selection
  | [], acc => return acc
  | hash :: rest, acc => do
    if maxCount ≤ acc.selected.length ∨ maxSize ≤ acc.currentSize then
      return acc
    else if hash ∈ acc.selectedHashes then
      selectAmong maxCount maxSize rest acc
    else
      let pool ← Exec.get
      match pool.transactions.lookup hash with
      | none => selectAmong maxCount maxSize rest acc
      | some pooled =>
        let acc ← consider maxSize pool.config.maxNonceGap hash pooled acc
        selectAmong maxCount maxSize rest acc

/-- The outer loop, over the priorities. -/
def selectFrom (maxCount maxSize : ℕ) :
    List (UInt64 × List Hash) → Selection → Exec Empty MempoolImpl Selection
  | [], acc => return acc
  | (_, hashes) :: rest, acc => do
    let acc ← selectAmong maxCount maxSize hashes acc
    selectFrom maxCount maxSize rest acc

/-- `select_for_block`: the highest priority comes first. -/
def selectForBlock (maxCount maxSize : ℕ) : Exec Empty MempoolImpl (List Transaction) := do
  let pool ← Exec.get
  let acc ← selectFrom maxCount maxSize pool.priorityIndex.reverse ⟨[], ∅, 0, ∅⟩
  return acc.selected

/-! ## Cleaning up -/

section Cleanup

variable {σ : Type} [Storage σ]

/-- `state.get_nonce(address).await.unwrap_or(0)`. -/
def stateNonce (address : Address) : Exec Empty (MempoolImpl × StateManager σ) UInt64 := fun p =>
  match StateManager.getNonce address p.2 with
  | (.ok nonce, sm) => (.ok nonce, (p.1, sm))
  | (.err _, sm) => (.ok 0, (p.1, sm))
  | (.panic, sm) => (.panic, (p.1, sm))

/-- The hashes of the entries whose nonce the state has reached. -/
def staleAmong : List (Hash × PooledTx) → Exec Empty (MempoolImpl × StateManager σ) (List Hash)
  | [] => return []
  | (hash, pooled) :: rest => do
    let reached ← stateNonce pooled.tx.from
    let stale ← staleAmong rest
    return if pooled.tx.nonce ≤ reached then hash :: stale else stale

/-- `cleanup`. -/
def cleanup (processed : List Hash) : Exec Empty (MempoolImpl × StateManager σ) Unit := do
  Exec.modify fun p => (removeAll processed p.1, p.2)
  let p ← Exec.get
  let stale ← staleAmong p.1.transactions.toPairs
  Exec.modify fun p => (removeAll stale p.1, p.2)

instance : Mempool MempoolImpl σ where
  selectForBlock maxCount maxSize :=
    Exec.onPart Prod.fst (fun pool p => (pool, p.2)) (selectForBlock maxCount maxSize)
  cleanup := cleanup

end Cleanup

/-! ## What is left -/

/-- Entries were removed, or nothing was. -/
def Thinner (pool pool' : MempoolImpl) : Prop :=
  ∀ hash, pool'.transactions.lookup hash = none ∨
    pool'.transactions.lookup hash = pool.transactions.lookup hash

theorem Thinner.refl (pool : MempoolImpl) : Thinner pool pool := fun _ => Or.inr rfl

theorem Thinner.trans {pool pool' pool'' : MempoolImpl} (h : Thinner pool pool')
    (h' : Thinner pool' pool'') : Thinner pool pool'' := by
  intro hash
  rcases h' hash with hnone | hsame
  · exact Or.inl hnone
  · rw [hsame]
    exact h hash

/-- What is gone stays gone. -/
theorem Thinner.gone {pool pool' : MempoolImpl} (h : Thinner pool pool') {hash : Hash}
    (hgone : pool.transactions.lookup hash = none) : pool'.transactions.lookup hash = none := by
  rcases h hash with hnone | hsame
  · exact hnone
  · rw [hsame, hgone]

theorem removeTransaction_thinner (hash : Hash) (pool : MempoolImpl) :
    Thinner pool (removeTransaction hash pool).2 := by
  intro hash'
  unfold removeTransaction
  cases pool.transactions.lookup hash with
  | none => exact Or.inr rfl
  | some pooled =>
      dsimp only
      by_cases heq : hash' = hash
      · rw [heq, AList.lookup_erase]
        exact Or.inl rfl
      · rw [AList.lookup_erase_ne heq]
        exact Or.inr rfl

/-- The removed transaction is gone. -/
theorem removeTransaction_gone (hash : Hash) (pool : MempoolImpl) :
    (removeTransaction hash pool).2.transactions.lookup hash = none := by
  unfold removeTransaction
  cases hlookup : pool.transactions.lookup hash with
  | none => exact hlookup
  | some pooled => exact AList.lookup_erase _ _

theorem removeAll_thinner (hashes : List Hash) (pool : MempoolImpl) :
    Thinner pool (removeAll hashes pool) := by
  induction hashes generalizing pool with
  | nil => exact Thinner.refl pool
  | cons hash hashes ih => exact (removeTransaction_thinner hash pool).trans (ih _)

/-- All the removed transactions are gone. -/
theorem removeAll_gone {hashes : List Hash} {hash : Hash} (h : hash ∈ hashes)
    (pool : MempoolImpl) : (removeAll hashes pool).transactions.lookup hash = none := by
  induction hashes generalizing pool with
  | nil => cases h
  | cons first hashes ih =>
      rcases List.mem_cons.mp h with rfl | hrest
      · exact (removeAll_thinner hashes _).gone (removeTransaction_gone hash pool)
      · exact ih hrest _

/-! ## What the operations do to the state -/

/-- Selecting reads the pool. -/
theorem consider_snd (maxSize : ℕ) (maxNonceGap : UInt64) (hash : Hash) (pooled : PooledTx)
    (acc : Selection) (pool : MempoolImpl) :
    (consider maxSize maxNonceGap hash pooled acc pool).2 = pool := by
  have hwithin : Exec.Within Eq (consider maxSize maxNonceGap hash pooled acc) := by
    have hexpected : Exec.Within Eq (expectedNonce pooled.tx.from acc) := by
      unfold expectedNonce
      cases acc.nonceTracker.lookup pooled.tx.from with
      | none => exact Exec.Within.pure _
      | some n => exact Exec.Within.addU64 _ _
    refine hexpected.bind fun expected => Exec.Within.ite (Exec.Within.pure _) ?_
    exact (Exec.Within.addU64 _ _).bind fun limit =>
      Exec.Within.ite (Exec.Within.pure _) (Exec.Within.pure _)
  exact (hwithin pool).symm

theorem selectForBlock_snd (maxCount maxSize : ℕ) (pool : MempoolImpl) :
    (selectForBlock maxCount maxSize pool).2 = pool := by
  have hamong : ∀ hashes acc, Exec.Within Eq (selectAmong maxCount maxSize hashes acc) := by
    intro hashes
    induction hashes with
    | nil => exact fun acc => Exec.Within.pure _
    | cons hash rest ih =>
        intro acc
        refine Exec.Within.ite (Exec.Within.pure _) (Exec.Within.ite (ih acc) ?_)
        refine Exec.Within.get.bind fun pool => ?_
        cases pool.transactions.lookup hash with
        | none => exact ih acc
        | some pooled =>
            exact Exec.Within.bind (fun pool => (consider_snd _ _ _ _ _ pool).symm) fun acc => ih acc
  have hfrom : ∀ index acc, Exec.Within Eq (selectFrom maxCount maxSize index acc) := by
    intro index
    induction index with
    | nil => exact fun acc => Exec.Within.pure _
    | cons entry rest ih => exact fun acc => (hamong entry.2 acc).bind fun acc => ih acc
  have hwithin : Exec.Within Eq (selectForBlock maxCount maxSize) :=
    Exec.Within.get.bind fun pool => (hfrom _ _).bind fun _ => Exec.Within.pure _
  exact (hwithin pool).symm

section Cleanup

variable {σ : Type} [Storage σ]

/-- Looking up a nonce is looking up an account. -/
theorem stateNonce_snd (address : Address) (p : MempoolImpl × StateManager σ) :
    (stateNonce address p).2 = (p.1, (StateManager.getAccount address p.2).2) := by
  unfold stateNonce StateManager.getNonce
  rw [Exec.run_bind]
  rcases StateManager.getAccount address p.2 with ⟨⟨_ | account⟩ | e | _, sm⟩
  · rfl
  · rfl
  · rfl
  · rfl

/-- The search for stale entries leaves the pool as it is and looks up accounts. -/
theorem staleAmong_lookups (entries : List (Hash × PooledTx)) (p : MempoolImpl × StateManager σ) :
    Exec.Post (staleAmong entries) p fun _ p' => p'.1 = p.1 ∧ ∃ as, p'.2 = p.2.lookups as := by
  induction entries generalizing p with
  | nil => exact ⟨rfl, [], rfl⟩
  | cons entry rest ih =>
      have hone : Exec.Post (stateNonce entry.2.tx.from) p fun _ p' =>
          p'.1 = p.1 ∧ p'.2 = p.2.lookups [entry.2.tx.from] := by
        unfold Exec.Post
        rw [stateNonce_snd]
        exact ⟨rfl, rfl⟩
      refine hone.seq ?_ (fun e => e.elim) fun p' h => ⟨h.1, _, h.2⟩
      rintro reached p₁ ⟨hpool, hstate⟩
      refine (ih p₁).seq ?_ (fun e => e.elim) ?_
      · rintro stale p₂ ⟨hpool', as, hstate'⟩
        refine ⟨hpool'.trans hpool, entry.2.tx.from :: as, ?_⟩
        show p₂.2 = _
        rw [hstate', hstate]
        rfl
      · rintro p₂ ⟨hpool', as, hstate'⟩
        refine ⟨hpool'.trans hpool, entry.2.tx.from :: as, ?_⟩
        rw [hstate', hstate]
        rfl

/-- **`cleanup`** thins the pool, leaves none of the processed transactions, and looks up
accounts. -/
theorem cleanup_spec (processed : List Hash) (p : MempoolImpl × StateManager σ) :
    Exec.Post (cleanup processed) p fun _ p' => Thinner p.1 p'.1 ∧
      (∀ hash ∈ processed, p'.1.transactions.lookup hash = none) ∧
      ∃ as, p'.2 = p.2.lookups as := by
  unfold cleanup
  rw [Exec.post_bind, Exec.post_modify]
  dsimp only
  rw [Exec.post_bind, Exec.post_get]
  dsimp only
  set pool := removeAll processed p.1
  have hthinner : Thinner p.1 pool := removeAll_thinner processed p.1
  have hgone : ∀ hash ∈ processed, pool.transactions.lookup hash = none :=
    fun hash h => removeAll_gone h p.1
  refine (staleAmong_lookups _ (pool, p.2)).seq ?_ (fun e => e.elim) ?_
  · rintro stale p₁ ⟨hpool, as, hstate⟩
    change p₁.1 = pool at hpool
    rw [Exec.post_modify, hpool]
    have hrest := removeAll_thinner stale pool
    exact ⟨hthinner.trans hrest, fun hash h => hrest.gone (hgone hash h), as, hstate⟩
  · rintro p₁ ⟨hpool, as, hstate⟩
    change p₁.1 = pool at hpool
    rw [hpool]
    exact ⟨hthinner, hgone, as, hstate⟩

instance : LawfulMempool MempoolImpl σ where
  selectForBlock_lookups _ _ _ _ := ⟨[], rfl⟩
  cleanup_lookups hashes pool sm := (cleanup_spec hashes (pool, sm)).2.2

end Cleanup

end MempoolImpl
