/-
# What a cleanup leaves

After a block, `cleanup` of `src/mempool/pool.rs` takes out the transactions of the block and those
whose nonce the state has reached: a nonce that is *equal* to the one of the state goes too.  The
nonce of an account is the one its next transaction must have, and `check_nonce` of
`src/mempool/validator.rs` accepts it.

So a cleanup keeps what is still valid exactly if no transaction in the pool is the next one of its
sender (`cleanup_keeps_valid_iff`), and the same slip is in `prune_old_nonces` of
`src/mempool/pruning.rs`.
-/
import Pacyte.PoolValidation
import Pacyte.MempoolIndex
import Pacyte.Pruning

open Exec

/-! ## The nonces of the state -/

namespace StateManager

variable {σ : Type} [Storage σ]

/-- The nonce that is read for an address, zero where the read fails, is the same whenever it is
asked for. -/
def NoncesAre (nonce : Address → UInt64) (sm : StateManager σ) : Prop :=
  ∀ as a, (MempoolValidator.knownNonce a (sm.lookups as)).1 = .ok (nonce a)

theorem lookups_append (as as' : List Address) (sm : StateManager σ) :
    sm.lookups (as ++ as') = (sm.lookups as).lookups as' := List.foldl_append

/-- Lookups keep the nonces. -/
theorem NoncesAre.lookups {nonce : Address → UInt64} {sm : StateManager σ}
    (h : NoncesAre nonce sm) (as : List Address) : NoncesAre nonce (sm.lookups as) := by
  intro as' a
  rw [← lookups_append]
  exact h (as ++ as') a

/-- On a storage whose reads do not fail, the nonces are those of the accounts. -/
theorem noncesAre_account {τ : Type} [LawfulStorage τ] (hread : ∀ a (s : τ), ¬ (Storage.getAccount a s).1.IsErr)
    (sm : StateManager τ) :
    NoncesAre (fun a => ((sm.account a).map Account.nonce).getD 0) sm := by
  have hnotErr : ∀ a (sm : StateManager τ), ¬ (getAccount a sm).1.IsErr := by
    intro a sm
    unfold getAccount
    rw [run_bind, run_get]
    dsimp only
    cases sm.accountCache.lookup a with
    | some acc => exact Outcome.not_isErr_ok _
    | none =>
        cases sm.dirtyAccounts.lookup a with
        | some acc => exact Outcome.not_isErr_ok _
        | none =>
            dsimp only
            have hstorage := hread a sm.storage
            rw [run_bind, onStorage, run_onPart]
            rcases hread' : Storage.getAccount a sm.storage with ⟨(_ | acc) | e | _, st⟩
            · exact Outcome.not_isErr_ok _
            · exact Outcome.not_isErr_ok _
            · rw [hread'] at hstorage
              exact absurd (Outcome.isErr_err e) hstorage
            · exact Outcome.not_isErr_panic
  intro as
  induction as generalizing sm with
  | nil =>
      intro a
      have hspec := getAccount_spec a sm
      have hok := hnotErr a sm
      show (MempoolValidator.knownNonce a sm).1 = _
      unfold MempoolValidator.knownNonce unwrapOr getNonce
      rw [run_bind]
      rw [Post] at hspec
      rcases hrun : getAccount a sm with ⟨r | e | _, sm'⟩
      · rw [hrun] at hspec
        have hr : r = sm.account a := hspec.2.2
        dsimp only
        rw [← hr]
        cases r <;> rfl
      · rw [hrun] at hok
        exact absurd ⟨e, rfl⟩ hok
      · rw [hrun] at hspec
        exact hspec.2.2.elim
  | cons a' rest ih =>
      intro a
      have hsame : (getAccount a' sm).2.account = sm.account := (getAccount_spec a' sm).1.account
      have hrest := ih (getAccount a' sm).2 a
      rw [hsame] at hrest
      exact hrest

end StateManager

namespace MempoolImpl

variable {σ : Type} [Storage σ] {nonce : Address → UInt64}

/-! ## The check of the nonce -/

/-- `check_nonce` accepts the transaction. -/
def NonceAccepted (config : MempoolConfig) (sm : StateManager σ) (tx : Transaction) : Prop :=
  (MempoolValidator.checkNonce config tx sm).1 = .ok .valid

/-- `check_nonce` rejects the transaction because its nonce is below that of the state. -/
def NonceTooLow (config : MempoolConfig) (sm : StateManager σ) (tx : Transaction) : Prop :=
  ∃ expected, (MempoolValidator.checkNonce config tx sm).1 = .ok (.invalidNonce expected tx.nonce) ∧
    tx.nonce < expected

/-- The result of `check_nonce`. -/
theorem checkNonce_eq {sm : StateManager σ} (h : sm.NoncesAre nonce) (config : MempoolConfig)
    (tx : Transaction) :
    (MempoolValidator.checkNonce config tx sm).1 =
      if tx.nonce < nonce tx.from then .ok (.invalidNonce (nonce tx.from) tx.nonce)
      else if 2 ^ 64 ≤ (nonce tx.from).toNat + config.maxNonceGap.toNat then .panic
      else if (nonce tx.from).toNat + config.maxNonceGap.toNat < tx.nonce.toNat then
        .ok (.invalidNonce (nonce tx.from) tx.nonce)
      else .ok .valid := by
  have hknown : MempoolValidator.knownNonce tx.from sm =
      (.ok (nonce tx.from), (MempoolValidator.knownNonce tx.from sm).2) :=
    Prod.ext (h [] tx.from) rfl
  unfold MempoolValidator.checkNonce
  rw [run_bind_of_ok hknown]
  by_cases hlow : tx.nonce < nonce tx.from
  · rw [if_pos hlow, if_pos hlow]
    rfl
  rw [if_neg hlow, if_neg hlow, run_bind, run_addU64]
  by_cases hfits : (nonce tx.from).toNat + config.maxNonceGap.toNat < 2 ^ 64
  · rw [if_pos hfits, if_neg (Nat.not_le.mpr hfits)]
    dsimp only
    have hreach : nonce tx.from + config.maxNonceGap < tx.nonce ↔
        (nonce tx.from).toNat + config.maxNonceGap.toNat < tx.nonce.toNat := by
      rw [UInt64.lt_iff_toNat_lt, toNat_add_of_fits hfits]
    by_cases hhigh : (nonce tx.from).toNat + config.maxNonceGap.toNat < tx.nonce.toNat
    · rw [if_pos (hreach.mpr hhigh), if_pos hhigh]
      rfl
    · rw [if_neg fun h => hhigh (hreach.mp h), if_neg hhigh]
      rfl
  · rw [if_neg hfits, if_pos (Nat.not_lt.mp hfits)]

theorem nonceAccepted_iff {sm : StateManager σ} (h : sm.NoncesAre nonce) (config : MempoolConfig)
    (tx : Transaction) :
    NonceAccepted config sm tx ↔ nonce tx.from ≤ tx.nonce ∧
      (nonce tx.from).toNat + config.maxNonceGap.toNat < 2 ^ 64 ∧
      tx.nonce.toNat ≤ (nonce tx.from).toNat + config.maxNonceGap.toNat := by
  rw [NonceAccepted, checkNonce_eq h]
  split_ifs with hlow hlong hhigh
  · exact iff_of_false nofun fun h => absurd hlow (UInt64.not_lt.mpr h.1)
  · exact iff_of_false nofun fun h => absurd h.2.1 (Nat.not_lt.mpr hlong)
  · exact iff_of_false nofun fun h => absurd h.2.2 (Nat.not_le.mpr hhigh)
  · exact iff_of_true rfl ⟨UInt64.not_lt.mp hlow, Nat.not_le.mp hlong, Nat.not_lt.mp hhigh⟩

theorem nonceTooLow_iff {sm : StateManager σ} (h : sm.NoncesAre nonce) (config : MempoolConfig)
    (tx : Transaction) : NonceTooLow config sm tx ↔ tx.nonce < nonce tx.from := by
  unfold NonceTooLow
  rw [checkNonce_eq h]
  split_ifs with hlow hlong hhigh
  · exact iff_of_true ⟨_, rfl, hlow⟩ hlow
  · exact iff_of_false (fun ⟨_, h, _⟩ => nomatch h) hlow
  · refine iff_of_false ?_ hlow
    rintro ⟨expected, heq, hlt⟩
    cases heq
    exact hlow hlt
  · exact iff_of_false (fun ⟨_, h, _⟩ => nomatch h) hlow

/-- The next transaction of its sender, where its nonce plus the gap is still a nonce: accepted,
and with the nonce of the state. -/
theorem accepted_of_next {sm : StateManager σ} (h : sm.NoncesAre nonce) {config : MempoolConfig}
    {tx : Transaction} :
    (NonceAccepted config sm tx ∧ tx.nonce ≤ nonce tx.from) ↔
      tx.nonce = nonce tx.from ∧ tx.nonce.toNat + config.maxNonceGap.toNat < 2 ^ 64 := by
  rw [nonceAccepted_iff h]
  constructor
  · rintro ⟨⟨hge, hfits, -⟩, hle⟩
    have heq := UInt64.le_antisymm hle hge
    exact ⟨heq, heq ▸ hfits⟩
  · rintro ⟨heq, hfits⟩
    rw [← heq]
    exact ⟨⟨UInt64.le_refl _, hfits, Nat.le_add_right _ _⟩, UInt64.le_refl _⟩

/-! ## The removed transactions -/

omit [Storage σ] in
/-- Removing some hashes leaves the others as they are. -/
theorem lookup_removeAll (hashes : List Hash) (pool : MempoolImpl) (hash : Hash) :
    (removeAll hashes pool).transactions.lookup hash =
      if hash ∈ hashes then none else pool.transactions.lookup hash := by
  have hone : ∀ h (pool : MempoolImpl), hash ≠ h →
      (removeTransaction h pool).2.transactions.lookup hash = pool.transactions.lookup hash := by
    intro h pool hne
    unfold removeTransaction
    cases pool.transactions.lookup h with
    | none => rfl
    | some pooled => exact AList.lookup_erase_ne hne
  split_ifs with hmem
  · exact removeAll_gone hmem pool
  · induction hashes generalizing pool with
    | nil => rfl
    | cons h rest ih =>
        rw [List.mem_cons, not_or] at hmem
        exact (ih _ hmem.2).trans (hone h pool hmem.1)

/-- The search finds the entries whose nonce is at most that of the state. -/
theorem staleAmong_run (entries : List (Hash × PooledTx)) (pool : MempoolImpl)
    {sm : StateManager σ} (h : sm.NoncesAre nonce) :
    (staleAmong entries (pool, sm)).1 = .ok ((entries.filter fun e =>
      decide (e.2.tx.nonce ≤ nonce e.2.tx.from)).map Prod.fst) := by
  induction entries generalizing sm with
  | nil => rfl
  | cons e rest ih =>
      have hnonce : (stateNonce e.2.tx.from (pool, sm)).1 = .ok (nonce e.2.tx.from) := by
        have hknown : (MempoolValidator.knownNonce e.2.tx.from sm).1 = .ok (nonce e.2.tx.from) :=
          h [] e.2.tx.from
        unfold MempoolValidator.knownNonce unwrapOr at hknown
        unfold stateNonce
        dsimp only
        rcases hget : StateManager.getNonce e.2.tx.from sm with ⟨_ | _ | _, s'⟩
        · rw [hget] at hknown
          exact congrArg Outcome.ok (Outcome.ok.inj hknown)
        · rw [hget] at hknown
          exact congrArg Outcome.ok (Outcome.ok.inj hknown)
        · rw [hget] at hknown
          cases hknown
      have hrun : stateNonce e.2.tx.from (pool, sm) =
          (.ok (nonce e.2.tx.from), (pool, sm.lookups [e.2.tx.from])) :=
        Prod.ext hnonce (stateNonce_snd _ _)
      obtain ⟨p', hrest⟩ : ∃ p', staleAmong rest (pool, sm.lookups [e.2.tx.from]) =
          (.ok ((rest.filter fun e => decide (e.2.tx.nonce ≤ nonce e.2.tx.from)).map Prod.fst), p') :=
        ⟨_, Prod.ext (ih (h.lookups _)) rfl⟩
      rw [staleAmong, run_bind_of_ok hrun, run_bind_of_ok hrest, List.filter_cons]
      by_cases hle : e.2.tx.nonce ≤ nonce e.2.tx.from
      · rw [if_pos hle, if_pos (decide_eq_true hle)]
        rfl
      · rw [if_neg hle, if_neg (by rw [decide_eq_false hle]; exact Bool.false_ne_true)]
        rfl

/-- **The pool after a cleanup**: what was not processed and has a nonce above that of the state. -/
theorem lookup_cleanup (processed : List Hash) {p : MempoolImpl × StateManager σ}
    (h : p.2.NoncesAre nonce) (hash : Hash) :
    (cleanup processed p).2.1.transactions.lookup hash =
      if hash ∈ processed then none
      else (p.1.transactions.lookup hash).filter fun pooled =>
        decide (nonce pooled.tx.from < pooled.tx.nonce) := by
  set pool := removeAll processed p.1 with hpool
  have hsearch : staleAmong pool.transactions.toPairs (pool, p.2) =
      (.ok ((pool.transactions.toPairs.filter fun e =>
        decide (e.2.tx.nonce ≤ nonce e.2.tx.from)).map Prod.fst),
        (pool, (staleAmong pool.transactions.toPairs (pool, p.2)).2.2)) :=
    Prod.ext (staleAmong_run _ pool h) (Prod.ext (staleAmong_lookups _ _).1 rfl)
  have hrun : (cleanup processed p).2.1 = removeAll ((pool.transactions.toPairs.filter fun e =>
      decide (e.2.tx.nonce ≤ nonce e.2.tx.from)).map Prod.fst) pool := by
    unfold cleanup
    rw [run_bind, run_modify]
    dsimp only
    rw [run_bind, run_get]
    dsimp only
    rw [run_bind_of_ok hsearch]
    rfl
  have hstale : hash ∈ (pool.transactions.toPairs.filter fun e =>
      decide (e.2.tx.nonce ≤ nonce e.2.tx.from)).map Prod.fst ↔
      ∃ pooled, pool.transactions.lookup hash = some pooled ∧
        pooled.tx.nonce ≤ nonce pooled.tx.from := by
    rw [List.mem_map]
    constructor
    · rintro ⟨⟨key, pooled⟩, he, rfl⟩
      rw [List.mem_filter, Map.mem_toPairs, decide_eq_true_eq] at he
      exact ⟨pooled, he⟩
    · rintro ⟨pooled, hlookup, hle⟩
      refine ⟨(hash, pooled), ?_, rfl⟩
      rw [List.mem_filter, Map.mem_toPairs, decide_eq_true_eq]
      exact ⟨hlookup, hle⟩
  rw [hrun, lookup_removeAll, if_congr hstale rfl rfl, hpool, lookup_removeAll]
  by_cases hprocessed : hash ∈ processed
  · rw [if_pos hprocessed, if_pos hprocessed, ite_self]
  · rw [if_neg hprocessed, if_neg hprocessed]
    cases p.1.transactions.lookup hash with
    | none => exact if_neg fun ⟨_, h, _⟩ => nomatch h
    | some pooled =>
        rw [Option.filter_some]
        by_cases hle : pooled.tx.nonce ≤ nonce pooled.tx.from
        · rw [if_pos ⟨pooled, rfl, hle⟩, if_neg]
          rw [decide_eq_true_eq]
          exact UInt64.not_lt.mpr hle
        · rw [if_neg, if_pos (decide_eq_true (UInt64.not_le.mp hle))]
          rintro ⟨pooled', heq, hle'⟩
          cases heq
          exact hle hle'

/-! ## What is still valid -/

/-- The pool afterwards has every transaction that is still accepted, and none whose nonce is too
low. -/
structure KeepsValid (processed : List Hash) (p : MempoolImpl × StateManager σ)
    (pool' : MempoolImpl) : Prop where
  keeps : ∀ hash pooled, p.1.transactions.lookup hash = some pooled → hash ∉ processed →
    NonceAccepted p.1.config p.2 pooled.tx → pool'.transactions.lookup hash = some pooled
  drops : ∀ hash pooled, p.1.transactions.lookup hash = some pooled →
    NonceTooLow p.1.config p.2 pooled.tx → pool'.transactions.lookup hash = none

/-- The hashes are those of transactions with a nonce that is too low, and of none that is still
accepted. -/
structure PrunesStale [Primitives] (config : MempoolConfig) (sm : StateManager σ)
    (transactions : List Transaction) (address : Address) (pruned : List Hash) : Prop where
  keeps : ∀ tx ∈ transactions, NonceAccepted config sm tx → tx.hash ∉ pruned
  drops : ∀ tx ∈ transactions, tx.from = address → NonceTooLow config sm tx → tx.hash ∈ pruned

/-- The transaction is the next one of its sender, and the gap fits above its nonce. -/
def IsNext (nonce : Address → UInt64) (config : MempoolConfig) (tx : Transaction) : Prop :=
  tx.nonce = nonce tx.from ∧ tx.nonce.toNat + config.maxNonceGap.toNat < 2 ^ 64

instance (nonce : Address → UInt64) (config : MempoolConfig) (tx : Transaction) :
    Decidable (IsNext nonce config tx) := inferInstanceAs (Decidable (_ ∧ _))

theorem keepsValid_iff (processed : List Hash) {p : MempoolImpl × StateManager σ}
    (h : p.2.NoncesAre nonce) :
    KeepsValid processed p (cleanup processed p).2.1 ↔
      ∀ hash pooled, p.1.transactions.lookup hash = some pooled → hash ∉ processed →
        ¬ IsNext nonce p.1.config pooled.tx := by
  have hafter : ∀ hash pooled, p.1.transactions.lookup hash = some pooled →
      (cleanup processed p).2.1.transactions.lookup hash =
        if hash ∉ processed ∧ nonce pooled.tx.from < pooled.tx.nonce then some pooled else none := by
    intro hash pooled hlookup
    rw [lookup_cleanup processed h, hlookup, Option.filter_some]
    by_cases hprocessed : hash ∈ processed
    · rw [if_pos hprocessed, if_neg fun h => h.1 hprocessed]
    · rw [if_neg hprocessed]
      simp only [decide_eq_true_eq, hprocessed, not_false_eq_true, true_and]
  constructor
  · rintro hright hash pooled hlookup hprocessed hnext
    have haccepted := (accepted_of_next h).mpr hnext
    have hkept := hright.keeps hash pooled hlookup hprocessed haccepted.1
    rw [hafter hash pooled hlookup, if_neg fun h => UInt64.not_le.mpr h.2 haccepted.2] at hkept
    cases hkept
  · intro hnone
    refine ⟨fun hash pooled hlookup hprocessed haccepted => ?_, fun hash pooled hlookup hlow => ?_⟩
    · rw [hafter hash pooled hlookup, if_pos]
      refine ⟨hprocessed, UInt64.not_le.mp fun hle => ?_⟩
      exact hnone hash pooled hlookup hprocessed ((accepted_of_next h).mp ⟨haccepted, hle⟩)
    · rw [nonceTooLow_iff h] at hlow
      rw [hafter hash pooled hlookup, if_neg]
      exact fun hboth => UInt64.lt_asymm hlow hboth.2

end MempoolImpl

namespace Pruner

open MempoolImpl

variable [Primitives]

/-- `prune_old_nonces`. -/
def pruneOldNonces (transactions : List Transaction) (address : Address) (currentNonce : UInt64) :
    List Hash :=
  (transactions.filter fun tx => decide (tx.from = address ∧ tx.nonce ≤ currentNonce)).map
    Transaction.hash

theorem mem_pruneOldNonces {transactions : List Transaction} {address : Address}
    {currentNonce : UInt64} {hash : Hash} :
    hash ∈ pruneOldNonces transactions address currentNonce ↔
      ∃ tx ∈ transactions, tx.from = address ∧ tx.nonce ≤ currentNonce ∧ tx.hash = hash := by
  rw [pruneOldNonces, List.mem_map]
  simp only [List.mem_filter, decide_eq_true_eq, and_assoc]

variable {σ : Type} [Storage σ] {nonce : Address → UInt64}

/-- No transaction that is accepted shares its hash with another one that is pruned. -/
def NoCollision (config : MempoolConfig) (sm : StateManager σ) (transactions : List Transaction)
    (address : Address) (currentNonce : UInt64) : Prop :=
  ∀ tx ∈ transactions, ∀ tx' ∈ transactions, NonceAccepted config sm tx → tx'.from = address →
    tx'.nonce ≤ currentNonce → tx'.hash = tx.hash → tx' = tx

theorem prunesStale_iff {sm : StateManager σ} (h : sm.NoncesAre nonce) (config : MempoolConfig)
    (transactions : List Transaction) (address : Address) :
    PrunesStale config sm transactions address
        (pruneOldNonces transactions address (nonce address)) ↔
      (∀ tx ∈ transactions, tx.from = address → ¬ IsNext nonce config tx) ∧
        NoCollision config sm transactions address (nonce address) := by
  constructor
  · intro hright
    refine ⟨fun tx htx hfrom hnext => ?_, fun tx htx tx' htx' haccepted hfrom hle hhash => ?_⟩
    · have haccepted := (accepted_of_next h).mpr hnext
      refine hright.keeps tx htx haccepted.1 (mem_pruneOldNonces.mpr ⟨tx, htx, hfrom, ?_, rfl⟩)
      rw [← hfrom]
      exact haccepted.2
    · exact absurd (mem_pruneOldNonces.mpr ⟨tx', htx', hfrom, hle, hhash⟩)
        (hright.keeps tx htx haccepted)
  · rintro ⟨hnone, hcollision⟩
    refine ⟨fun tx htx haccepted hmem => ?_, fun tx htx hfrom hlow => ?_⟩
    · obtain ⟨tx', htx', hfrom, hle, hhash⟩ := mem_pruneOldNonces.mp hmem
      obtain rfl := hcollision tx htx tx' htx' haccepted hfrom hle hhash
      rw [← hfrom] at hle
      exact hnone tx' htx' hfrom ((accepted_of_next h).mp ⟨haccepted, hle⟩)
    · rw [nonceTooLow_iff h, hfrom] at hlow
      exact mem_pruneOldNonces.mpr ⟨tx, htx, hfrom, UInt64.le_of_lt hlow, rfl⟩

end Pruner

/-- **When a cleanup keeps what is still valid**: where no transaction that is left in the pool is
the next one of its sender; and pruning the old nonces of an address does where none of the
transactions is its next one. -/
theorem cleanup_keeps_valid_iff [Primitives] {σ : Type} [Storage σ] {nonce : Address → UInt64}
    (p : MempoolImpl × StateManager σ) (h : p.2.NoncesAre nonce) :
    (∀ processed, MempoolImpl.KeepsValid processed p (MempoolImpl.cleanup processed p).2.1 ↔
      ∀ hash pooled, p.1.transactions.lookup hash = some pooled → hash ∉ processed →
        ¬ MempoolImpl.IsNext nonce p.1.config pooled.tx) ∧
    ∀ transactions address, MempoolImpl.PrunesStale p.1.config p.2 transactions address
        (Pruner.pruneOldNonces transactions address (nonce address)) ↔
      (∀ tx ∈ transactions, tx.from = address → ¬ MempoolImpl.IsNext nonce p.1.config tx) ∧
        Pruner.NoCollision p.1.config p.2 transactions address (nonce address) :=
  ⟨fun processed => MempoolImpl.keepsValid_iff processed h,
    fun transactions address => Pruner.prunesStale_iff h p.1.config transactions address⟩

/-! ## A first transaction -/

section Example

open scoped Sample
open Sample

/-- A pool with the first transaction of a new account. -/
def firstPooled : MempoolImpl × StateManager MemoryStorage :=
  poolAfter [(sampleAddress 1, 5000)] [.add (signedTransfer 1 2 10 1000 0)]

/-- A pool with a transaction that is not the next one of its account. -/
def secondPooled : MempoolImpl × StateManager MemoryStorage :=
  poolAfter [(sampleAddress 1, 5000)] [.add (signedTransfer 1 2 10 1000 1)]

theorem memory_noncesAre (sm : StateManager MemoryStorage) :
    sm.NoncesAre fun a => ((sm.account a).map Account.nonce).getD 0 :=
  StateManager.noncesAre_account (fun _ _ => Outcome.not_isErr_ok _) sm

/-- A transaction behind a gap stays in the pool. -/
theorem second_pooled_kept :
    MempoolImpl.KeepsValid [] secondPooled (MempoolImpl.cleanup [] secondPooled).2.1 := by
  refine ((cleanup_keeps_valid_iff secondPooled (memory_noncesAre _)).1 []).mpr ?_
  have hall : ∀ e ∈ secondPooled.1.transactions.toPairs, ¬ MempoolImpl.IsNext
      (fun a => ((secondPooled.2.account a).map Account.nonce).getD 0) secondPooled.1.config
      e.2.tx := by decide +kernel
  exact fun hash pooled hlookup _ => hall (hash, pooled) ((Map.mem_toPairs _ _ _).mpr hlookup)

/-- The first transaction of an account is accepted, and a cleanup takes it out. -/
theorem first_pooled_lost :
    MempoolImpl.NonceAccepted poolConfig firstPooled.2 (signedTransfer 1 2 10 1000 0) ∧
      ¬ MempoolImpl.KeepsValid [] firstPooled (MempoolImpl.cleanup [] firstPooled).2.1 := by
  refine ⟨by unfold MempoolImpl.NonceAccepted; decide +kernel, fun hkeeps => ?_⟩
  obtain ⟨e, he, hnext⟩ : ∃ e ∈ firstPooled.1.transactions.toPairs, MempoolImpl.IsNext
      (fun a => ((firstPooled.2.account a).map Account.nonce).getD 0) firstPooled.1.config
      e.2.tx := by decide +kernel
  exact (MempoolImpl.keepsValid_iff [] (memory_noncesAre _)).mp hkeeps e.1 e.2
    ((Map.mem_toPairs _ _ _).mp he) List.not_mem_nil hnext

end Example
