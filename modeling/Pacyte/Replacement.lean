/-
# Replacing a pooled transaction

`add_transaction` of `src/mempool/pool.rs` lets a transaction replace a pooled one with the same
sender and nonce if it pays enough more.  It asks for room in the pool and for the sender before it
looks for the transaction that would make room, so a better-paying replacement gets in only where a
new transaction would (`replacement_iff`).
-/
import Pacyte.MempoolIndex

open Exec

namespace MempoolImpl

variable (F : Type) [FeeFloat F] [Primitives] [Verifiers] {σ : Type} [Storage σ]

/-- A transaction that passes the validation and pays enough more than a pooled one with its sender
and nonce. -/
structure FeeBump (tx : Transaction) (existing : PooledTx) (p : MempoolImpl × StateManager σ) :
    Prop where
  pooled : p.1.transactions.lookup existing.hash = some existing
  sender : existing.tx.from = tx.from
  nonce : existing.tx.nonce = tx.nonce
  different : existing.hash ≠ tx.hash
  valid : (validateTransaction p.1.config tx p.2).1 = .ok none
  better : shouldReplace F existing tx = true

/-- The transaction replaces the pooled one. -/
structure Replaces (tx : Transaction) (existing : PooledTx) (p : MempoolImpl × StateManager σ) :
    Prop where
  result : (addTransaction F tx p).1 = .ok (.replaced existing.hash)
  gone : (addTransaction F tx p).2.1.transactions.lookup existing.hash = none
  new : ∃ now, (addTransaction F tx p).2.1.transactions.lookup tx.hash =
    some ⟨tx, now, tx.hash, tx.size⟩

/-- Where a new transaction gets in. -/
structure Room (tx : Transaction) (pool : MempoolImpl) : Prop where
  new : pool.transactions.lookup tx.hash = none
  size : pool.transactions.entries.length < pool.config.maxSize
  share : pool.txCount tx.from < pool.config.maxTxPerAddress

omit [Primitives] [Verifiers] in
/-- The transaction that a fee bump is in conflict with. -/
theorem Indexed.conflicting_eq {pool : MempoolImpl} (h : Indexed pool) {tx : Transaction}
    {existing : PooledTx} (hpooled : pool.transactions.lookup existing.hash = some existing)
    (hsender : existing.tx.from = tx.from) (hnonce : existing.tx.nonce = tx.nonce) :
    conflicting tx pool = some existing := by
  cases hconflict : conflicting tx pool with
  | none =>
      have hpending : tx.nonce ∈ pool.pendingOf tx.from :=
        (h.pending tx.from tx.nonce).mpr ⟨existing.hash, existing, hpooled, hsender, hnonce⟩
      exact absurd hpending (h.nonce_of_free hconflict)
  | some found =>
      obtain ⟨hlookup, hfrom, hsame⟩ := h.conflict hconflict
      have hhash := h.unique found.hash found existing.hash existing hlookup hpooled
        (hfrom.trans hsender.symm) (hsame.trans hnonce.symm)
      rw [hhash, hpooled] at hlookup
      exact hlookup.symm

/-- A fee bump for which there is room. -/
theorem addTransaction_replaces {tx : Transaction} {existing : PooledTx}
    {p : MempoolImpl × StateManager σ} (hindexed : Indexed p.1) (h : FeeBump F tx existing p)
    (hroom : Room tx p.1) : ∃ now sm, addTransaction F tx p = (.ok (.replaced existing.hash),
      (insertPooled (priorityKey F tx) ⟨tx, now, tx.hash, tx.size⟩
        (removeTransaction existing.hash p.1).2, sm)) := by
  obtain ⟨pool, sm⟩ := p
  have hconflict := hindexed.conflicting_eq h.pooled h.sender h.nonce
  have hvalid := h.valid
  rcases hrun : validateTransaction pool.config tx sm with ⟨o, sm'⟩
  rw [hrun] at hvalid
  have ho : o = .ok none := hvalid
  have hstate : onState (validateTransaction pool.config tx) (pool, sm) =
      (.ok none, (pool, sm')) := by
    unfold onState
    rw [run_onPart, hrun, ho]
  refine ⟨sm'.clock 0, { sm' with clock := fun k => sm'.clock (k + 1) }, ?_⟩
  unfold addTransaction
  rw [run_bind, run_get]
  dsimp only
  rw [if_neg (by rw [hroom.new]; exact Bool.false_ne_true), if_neg (Nat.not_le_of_lt hroom.size),
    if_neg (Nat.not_le_of_lt hroom.share), run_bind_of_ok hstate, hconflict]
  dsimp only
  rw [if_pos h.better]
  rfl

/-- **When a better-paying replacement gets in**: if there is room as for a new transaction, in the
pool and for the sender. -/
theorem replacement_iff {config : MempoolConfig} {p : MempoolImpl × StateManager σ}
    (hreachable : Reachable F config p) {tx : Transaction} {existing : PooledTx}
    (h : FeeBump F tx existing p) : Replaces F tx existing p ↔ Room tx p.1 := by
  have hindexed := (Reachable.indexed F hreachable).1
  constructor
  · intro hreplaces
    have hend := addTransaction_spec F tx p
    rw [Post] at hend
    have hresult := hreplaces.result
    generalize (addTransaction F tx p).1 = o at hend hresult
    cases hend with
    | refused _ hnot => exact absurd hresult (hnot existing.hash)
    | added => cases hresult
    | replaced now existing' _ hnew hsize hshare => exact ⟨hnew, hsize, hshare⟩
  · intro hroom
    obtain ⟨now, sm, hrun⟩ := addTransaction_replaces F hindexed h hroom
    refine ⟨by rw [hrun], ?_, now, ?_⟩
    · rw [hrun]
      show AList.lookup existing.hash (AList.insert tx.hash _
        (removeTransaction existing.hash p.1).2.transactions) = none
      rw [AList.lookup_insert_ne h.different, transactions_remove h.pooled, AList.lookup_erase]
    · rw [hrun]
      exact AList.lookup_insert _

end MempoolImpl

/-! ## A pool that is full, and one that is not -/

section Example

open scoped Sample

open MempoolImpl

/-- The transaction that is pooled, and one that pays twice its fee. -/
def pooledTransfer : Transaction := Sample.signedTransfer 1 2 10 1000 0

def bumpedTransfer : Transaction := Sample.signedTransfer 1 2 10 2000 0

/-- The pool with that transaction, and with room for `maxSize` ones. -/
def poolOfOne (maxSize : ℕ) : MempoolImpl × StateManager MemoryStorage :=
  call ℚ (.add pooledTransfer)
    (MempoolImpl.new { Sample.poolConfig with maxSize := maxSize },
      sampleState [(sampleAddress 1, 5000)])

theorem poolOfOne_reachable (maxSize : ℕ) :
    Reachable ℚ { Sample.poolConfig with maxSize := maxSize } (poolOfOne maxSize) :=
  ⟨sampleState [(sampleAddress 1, 5000)], [.add pooledTransfer], rfl⟩

/-- The pooled transaction with its entries. -/
def pooledEntry : PooledTx := ⟨pooledTransfer, 1, pooledTransfer.hash, pooledTransfer.size⟩

theorem feeBump_poolOfOne : FeeBump ℚ bumpedTransfer pooledEntry (poolOfOne 1) ∧
    FeeBump ℚ bumpedTransfer pooledEntry (poolOfOne 2) := by
  refine ⟨⟨?_, rfl, rfl, ?_, ?_, ?_⟩, ⟨?_, rfl, rfl, ?_, ?_, ?_⟩⟩
  all_goals decide +kernel

/-- The pool is full, and the better-paying transaction is rejected. -/
theorem bump_rejected :
    Reachable ℚ { Sample.poolConfig with maxSize := 1 } (poolOfOne 1) ∧
      FeeBump ℚ bumpedTransfer pooledEntry (poolOfOne 1) ∧
      (addTransaction ℚ bumpedTransfer (poolOfOne 1)).1 = .ok (.rejected "Mempool full") ∧
      ¬ Replaces ℚ bumpedTransfer pooledEntry (poolOfOne 1) := by
  have hrejected : (addTransaction ℚ bumpedTransfer (poolOfOne 1)).1 =
      .ok (.rejected "Mempool full") := by decide +kernel
  refine ⟨poolOfOne_reachable 1, feeBump_poolOfOne.1, hrejected, fun hreplaces => ?_⟩
  have hresult := hreplaces.result
  rw [hrejected] at hresult
  cases hresult

/-- With room for a second transaction it replaces the first one. -/
theorem bump_replaces : Replaces ℚ bumpedTransfer pooledEntry (poolOfOne 2) :=
  (replacement_iff ℚ (poolOfOne_reachable 2) feeBump_poolOfOne.2).mpr
    ⟨by decide +kernel, by decide +kernel, by decide +kernel⟩

end Example
