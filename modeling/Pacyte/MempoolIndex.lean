/-
# The indices of the mempool

The pool of `src/mempool/pool.rs` keeps four containers for one set of transactions.  `Indexed`
says that they agree: the priority index lists every pooled hash once, the pending nonces and
the counters are those of the pooled transactions, no sender has a nonce twice, and the limits
of the configuration hold.

Every operation takes transactions out one by one (`Indexed.remove`) or puts one in
(`Indexed.insert`), so every reachable pool is indexed (`mempool_indexed`).
-/
import Pacyte.MapEntries
import Pacyte.MempoolAdmission

/-! ## The list of hashes -/

/-- `swap_remove` takes out the element at the index. -/
theorem swapRemove_perm {α : Type} (l : List α) (i : ℕ) (h : i < l.length) :
    l.Perm (l[i] :: swapRemove l i) := by
  rcases List.eq_nil_or_concat l with rfl | ⟨init, last, rfl⟩
  · cases h
  · have hswap : swapRemove (init.concat last) i = ((init ++ [last]).set i last).dropLast := by
      unfold swapRemove
      rw [List.concat_eq_append, List.getLast?_concat]
    rw [hswap]
    simp only [List.concat_eq_append] at h ⊢
    rw [List.length_append, List.length_singleton] at h
    by_cases hi : i < init.length
    · rw [List.set_append_left _ _ hi, List.dropLast_concat, List.getElem_append_left hi]
      have hsplit : init = init.take i ++ init[i] :: init.drop (i + 1) := by
        rw [← List.drop_eq_getElem_cons hi, List.take_append_drop]
      have hset : init.set i last = init.take i ++ last :: init.drop (i + 1) :=
        List.set_eq_take_append_cons_drop.trans (if_pos hi)
      rw [hset]
      calc init ++ [last]
          = init.take i ++ init[i] :: (init.drop (i + 1) ++ [last]) := by
            conv_lhs => rw [hsplit]
            rw [List.append_assoc, List.cons_append]
        _ |>.Perm (init[i] :: (init.take i ++ (init.drop (i + 1) ++ [last]))) := List.perm_middle
        _ |>.Perm (init[i] :: (init.take i ++ last :: init.drop (i + 1))) :=
            ((List.perm_append_singleton last _).append_left _).cons _
    · have hlast : i = init.length := by omega
      subst hlast
      rw [List.set_append_right _ _ (Nat.le_refl _), Nat.sub_self, List.set_cons_zero,
        List.dropLast_concat, List.getElem_concat_length rfl]
      exact List.perm_append_singleton last init

namespace MempoolImpl

/-- The hashes of an index. -/
def listed (index : List (UInt64 × List Hash)) : List Hash := index.flatMap Prod.snd

theorem listed_cons (key : UInt64) (hashes : List Hash) (rest : List (UInt64 × List Hash)) :
    listed ((key, hashes) :: rest) = hashes ++ listed rest := rfl

/-- A new hash is listed once more. -/
theorem listed_add (hash : Hash) (key : UInt64) (index : List (UInt64 × List Hash)) :
    (listed (addToPriorityIndex hash key index)).Perm (hash :: listed index) := by
  induction index with
  | nil => exact List.Perm.refl _
  | cons entry rest ih =>
      obtain ⟨key', hashes⟩ := entry
      unfold addToPriorityIndex
      split_ifs with heq hlt
      · rw [listed_cons, listed_cons, List.append_assoc]
        exact List.perm_middle
      · exact List.Perm.refl _
      · rw [listed_cons, listed_cons]
        exact (ih.append_left hashes).trans List.perm_middle

/-- A listed hash is taken out once. -/
theorem listed_remove {hash : Hash} {index : List (UInt64 × List Hash)}
    (h : hash ∈ listed index) :
    (listed index).Perm (hash :: listed (removeFromPriorityIndex hash index)) := by
  induction index with
  | nil => cases h
  | cons entry rest ih =>
      obtain ⟨key, hashes⟩ := entry
      unfold removeFromPriorityIndex
      split_ifs with hmem
      · have hlt : hashes.idxOf hash < hashes.length := List.idxOf_lt_length_iff.mpr hmem
        have hswap := swapRemove_perm hashes (hashes.idxOf hash) hlt
        rw [List.getElem_idxOf hlt] at hswap
        rw [listed_cons, listed_cons]
        exact hswap.append_right (listed rest)
      · have hrest : hash ∈ listed rest := by
          rw [listed_cons, List.mem_append] at h
          exact h.resolve_left hmem
        rw [listed_cons, listed_cons]
        exact ((ih hrest).append_left hashes).trans List.perm_middle

/-! ## The invariant -/

/-- The pooled transactions of a sender. -/
def pooledFrom (pool : MempoolImpl) (address : Address) : List PooledTx :=
  (pool.transactions.toPairs.map Prod.snd).filter fun q => decide (q.tx.from = address)

/-- **The containers of the pool agree**, and the limits hold. -/
structure Indexed (pool : MempoolImpl) : Prop where
  hash : ∀ hash q, pool.transactions.lookup hash = some q → q.hash = hash
  wellFormed : ∀ hash q, pool.transactions.lookup hash = some q →
    q.tx.from ≠ q.tx.to ∧ q.tx.amount ≠ 0
  listed_nodup : (listed pool.priorityIndex).Nodup
  listed_iff : ∀ hash, hash ∈ listed pool.priorityIndex ↔
    (pool.transactions.lookup hash).isSome
  pending : ∀ a n, n ∈ pool.pendingOf a ↔
    ∃ hash q, pool.transactions.lookup hash = some q ∧ q.tx.from = a ∧ q.tx.nonce = n
  count : ∀ a, pool.txCount a = (pool.pooledFrom a).length
  unique : ∀ hash q hash' q', pool.transactions.lookup hash = some q →
    pool.transactions.lookup hash' = some q' → q.tx.from = q'.tx.from →
      q.tx.nonce = q'.tx.nonce → hash = hash'
  size : pool.transactions.entries.length ≤ pool.config.maxSize
  share : ∀ a, (pool.pooledFrom a).length ≤ pool.config.maxTxPerAddress

theorem indexed_new (config : MempoolConfig) : Indexed (new config) where
  hash _ _ h := nomatch h
  wellFormed _ _ h := nomatch h
  listed_nodup := List.nodup_nil
  listed_iff _ := iff_of_false List.not_mem_nil nofun
  pending _ _ := iff_of_false (Finset.notMem_empty _) fun ⟨_, _, h, _⟩ => nomatch h
  count _ := rfl
  unique _ _ _ _ h := nomatch h
  size := Nat.zero_le _
  share _ := Nat.zero_le _

/-! ## Taking one out -/

section Remove

variable {pool : MempoolImpl} {hash : Hash} {q : PooledTx}
  (hlookup : pool.transactions.lookup hash = some q)

include hlookup

theorem transactions_remove :
    (removeTransaction hash pool).2.transactions = pool.transactions.erase hash := by
  unfold removeTransaction
  rw [hlookup]

theorem priorityIndex_remove :
    (removeTransaction hash pool).2.priorityIndex =
      removeFromPriorityIndex hash pool.priorityIndex := by
  unfold removeTransaction
  rw [hlookup]

theorem pendingOf_remove (a : Address) :
    (removeTransaction hash pool).2.pendingOf a =
      if a = q.tx.from then (pool.pendingOf a).erase q.tx.nonce else pool.pendingOf a := by
  unfold removeTransaction pendingOf
  rw [hlookup]
  dsimp only
  cases hpending : pool.pendingNonces.lookup q.tx.from with
  | none =>
      split_ifs with ha
      · rw [ha, hpending]
        rfl
      · rfl
  | some pending =>
      dsimp only
      rw [Map.getD_lookup_insert]
      split_ifs with ha
      · rw [ha, hpending]
        rfl
      · rfl

theorem txCount_remove (a : Address) :
    (removeTransaction hash pool).2.txCount a =
      if a = q.tx.from then pool.txCount a - 1 else pool.txCount a := by
  unfold removeTransaction txCount
  rw [hlookup]
  dsimp only
  cases hcount : pool.txCountByAddress.lookup q.tx.from with
  | none =>
      split_ifs with ha
      · rw [ha, hcount]
        rfl
      · rfl
  | some count =>
      dsimp only
      rw [Map.getD_lookup_insert]
      split_ifs with ha
      · rw [ha, hcount]
        rfl
      · rfl

/-- The sender of a removed transaction has one less. -/
theorem length_pooledFrom_remove (a : Address) :
    (pool.pooledFrom a).length =
      ((removeTransaction hash pool).2.pooledFrom a).length + if q.tx.from = a then 1 else 0 := by
  have hperm := ((pool.transactions.toPairs_erase hlookup).map Prod.snd).filter
    fun q => decide (q.tx.from = a)
  rw [pooledFrom, pooledFrom, transactions_remove hlookup, hperm.length_eq, List.map_cons,
    List.filter_cons]
  split_ifs with hdec ha ha
  · rfl
  · exact absurd (of_decide_eq_true hdec) ha
  · exact absurd (decide_eq_true ha) hdec
  · rfl

theorem length_entries_remove :
    pool.transactions.entries.length =
      (removeTransaction hash pool).2.transactions.entries.length + 1 := by
  have hperm := pool.transactions.toPairs_erase hlookup
  rw [transactions_remove hlookup, ← Map.length_toPairs, ← Map.length_toPairs, hperm.length_eq,
    List.length_cons]

end Remove

theorem config_remove (hash : Hash) (pool : MempoolImpl) :
    (removeTransaction hash pool).2.config = pool.config := by
  unfold removeTransaction
  cases pool.transactions.lookup hash <;> rfl

/-- **Taking a transaction out keeps the pool indexed.** -/
theorem Indexed.remove {pool : MempoolImpl} (h : Indexed pool) (hash : Hash) :
    Indexed (removeTransaction hash pool).2 := by
  cases hlookup : pool.transactions.lookup hash with
  | none =>
      have hsame : (removeTransaction hash pool).2 = pool := by
        unfold removeTransaction
        rw [hlookup]
      rw [hsame]
      exact h
  | some q =>
      have hafter : ∀ hash' q', (removeTransaction hash pool).2.transactions.lookup hash' =
          some q' ↔ hash' ≠ hash ∧ pool.transactions.lookup hash' = some q' := by
        intro hash' q'
        rw [transactions_remove hlookup]
        exact pool.transactions.lookup_erase_some
      have hmem : hash ∈ listed pool.priorityIndex := by
        rw [h.listed_iff, hlookup]
        rfl
      have hperm := listed_remove hmem
      have hnodup := hperm.nodup_iff.mp h.listed_nodup
      rw [List.nodup_cons] at hnodup
      refine ⟨?_, ?_, ?_, ?_, ?_, ?_, ?_, ?_, ?_⟩
      · intro hash' q' hq'
        exact h.hash hash' q' ((hafter hash' q').mp hq').2
      · intro hash' q' hq'
        exact h.wellFormed hash' q' ((hafter hash' q').mp hq').2
      · rw [priorityIndex_remove hlookup]
        exact hnodup.2
      · intro hash'
        rw [priorityIndex_remove hlookup, transactions_remove hlookup]
        by_cases heq : hash' = hash
        · rw [heq, AList.lookup_erase]
          exact iff_of_false hnodup.1 nofun
        · rw [AList.lookup_erase_ne heq, ← h.listed_iff, hperm.mem_iff, List.mem_cons]
          exact ⟨Or.inr, fun hor => hor.resolve_left heq⟩
      · intro a n
        rw [pendingOf_remove hlookup]
        constructor
        · intro hn
          have hn' : n ∈ pool.pendingOf a ∧ (a = q.tx.from → n ≠ q.tx.nonce) := by
            split_ifs at hn with ha
            · exact ⟨Finset.mem_of_mem_erase hn, fun _ => Finset.ne_of_mem_erase hn⟩
            · exact ⟨hn, fun heq => absurd heq ha⟩
          obtain ⟨hash', q', hq', hfrom, hnonce⟩ := (h.pending a n).mp hn'.1
          refine ⟨hash', q', (hafter hash' q').mpr ⟨?_, hq'⟩, hfrom, hnonce⟩
          rintro rfl
          rw [hlookup] at hq'
          cases hq'
          exact hn'.2 hfrom.symm hnonce.symm
        · rintro ⟨hash', q', hq', hfrom, hnonce⟩
          obtain ⟨hne, hq'⟩ := (hafter hash' q').mp hq'
          have hn : n ∈ pool.pendingOf a := (h.pending a n).mpr ⟨hash', q', hq', hfrom, hnonce⟩
          split_ifs with ha
          · refine Finset.mem_erase.mpr ⟨fun heq => hne ?_, hn⟩
            exact h.unique hash' q' hash q hq' hlookup (hfrom.trans ha) (hnonce.trans heq)
          · exact hn
      · intro a
        have hlength := length_pooledFrom_remove hlookup a
        rw [txCount_remove hlookup, h.count a, hlength]
        by_cases ha : a = q.tx.from
        · rw [if_pos ha, if_pos ha.symm, Nat.add_sub_cancel]
        · rw [if_neg ha, if_neg fun heq => ha heq.symm, Nat.add_zero]
      · intro hash₁ q₁ hash₂ q₂ hq₁ hq₂
        exact h.unique hash₁ q₁ hash₂ q₂ ((hafter _ _).mp hq₁).2 ((hafter _ _).mp hq₂).2
      · have hlength := length_entries_remove hlookup
        have hsize := h.size
        rw [config_remove]
        omega
      · intro a
        have hlength := length_pooledFrom_remove hlookup a
        have hshare := h.share a
        rw [config_remove]
        omega

theorem Indexed.removeAll {pool : MempoolImpl} (h : Indexed pool) (hashes : List Hash) :
    Indexed (MempoolImpl.removeAll hashes pool) := by
  induction hashes generalizing pool with
  | nil => exact h
  | cons hash hashes ih => exact ih (h.remove hash)

theorem config_removeAll (hashes : List Hash) (pool : MempoolImpl) :
    (removeAll hashes pool).config = pool.config := by
  induction hashes generalizing pool with
  | nil => rfl
  | cons hash hashes ih => exact (ih _).trans (config_remove hash pool)

/-! ## Putting one in -/

/-- **A new transaction keeps the pool indexed** if its hash and its nonce are new and there is
room for it. -/
theorem Indexed.insert {pool : MempoolImpl} (h : Indexed pool) (key : UInt64) {q : PooledTx}
    (hwellFormed : q.tx.from ≠ q.tx.to ∧ q.tx.amount ≠ 0)
    (hnew : pool.transactions.lookup q.hash = none)
    (hnonce : q.tx.nonce ∉ pool.pendingOf q.tx.from)
    (hsize : pool.transactions.entries.length < pool.config.maxSize)
    (hshare : pool.txCount q.tx.from < pool.config.maxTxPerAddress) :
    Indexed (insertPooled key q pool) := by
  have hafter : ∀ hash' q', (insertPooled key q pool).transactions.lookup hash' = some q' ↔
      hash' = q.hash ∧ q' = q ∨ hash' ≠ q.hash ∧ pool.transactions.lookup hash' = some q' :=
    fun hash' q' => pool.transactions.lookup_insert_some
  have hpairs : (insertPooled key q pool).transactions.toPairs =
      (q.hash, q) :: pool.transactions.toPairs := pool.transactions.toPairs_insert q hnew
  have hlength : ∀ a, ((insertPooled key q pool).pooledFrom a).length =
      (pool.pooledFrom a).length + if q.tx.from = a then 1 else 0 := by
    intro a
    rw [pooledFrom, pooledFrom, hpairs, List.map_cons, List.filter_cons]
    split_ifs with hdec ha ha
    · rfl
    · exact absurd (of_decide_eq_true hdec) ha
    · exact absurd (decide_eq_true ha) hdec
    · rfl
  have hpending : ∀ a, (insertPooled key q pool).pendingOf a =
      if a = q.tx.from then Insert.insert q.tx.nonce (pool.pendingOf q.tx.from)
      else pool.pendingOf a := fun a => Map.getD_lookup_insert _ _ _ _ _
  have hcount : ∀ a, (insertPooled key q pool).txCount a =
      if a = q.tx.from then pool.txCount q.tx.from + 1 else pool.txCount a :=
    fun a => Map.getD_lookup_insert _ _ _ _ _
  have hperm := listed_add q.hash key pool.priorityIndex
  refine ⟨?_, ?_, ?_, ?_, ?_, ?_, ?_, ?_, ?_⟩
  · intro hash' q' hq'
    rcases (hafter hash' q').mp hq' with ⟨rfl, rfl⟩ | ⟨-, hold⟩
    · rfl
    · exact h.hash hash' q' hold
  · intro hash' q' hq'
    rcases (hafter hash' q').mp hq' with ⟨rfl, rfl⟩ | ⟨-, hold⟩
    · exact hwellFormed
    · exact h.wellFormed hash' q' hold
  · refine hperm.nodup_iff.mpr (List.nodup_cons.mpr ⟨fun hmem => ?_, h.listed_nodup⟩)
    have hsome := (h.listed_iff q.hash).mp hmem
    rw [hnew] at hsome
    cases hsome
  · intro hash'
    refine (hperm.mem_iff).trans ?_
    rw [List.mem_cons, h.listed_iff, AList.lookup_isSome, AList.lookup_isSome]
    exact (AList.mem_insert _).symm
  · intro a n
    rw [hpending]
    constructor
    · intro hn
      by_cases ha : a = q.tx.from
      · rw [if_pos ha, Finset.mem_insert] at hn
        rcases hn with rfl | hold
        · exact ⟨q.hash, q, (hafter _ _).mpr (Or.inl ⟨rfl, rfl⟩), ha.symm, rfl⟩
        · obtain ⟨hash', q', hq', hfrom, hn⟩ := (h.pending _ n).mp hold
          refine ⟨hash', q', (hafter _ _).mpr (Or.inr ⟨fun heq => ?_, hq'⟩),
            hfrom.trans ha.symm, hn⟩
          rw [heq, hnew] at hq'
          cases hq'
      · rw [if_neg ha] at hn
        obtain ⟨hash', q', hq', hfrom, hn⟩ := (h.pending _ n).mp hn
        refine ⟨hash', q', (hafter _ _).mpr (Or.inr ⟨fun heq => ?_, hq'⟩), hfrom, hn⟩
        rw [heq, hnew] at hq'
        cases hq'
    · rintro ⟨hash', q', hq', hfrom, hn⟩
      rcases (hafter hash' q').mp hq' with ⟨rfl, rfl⟩ | ⟨-, hold⟩
      · rw [if_pos hfrom.symm, hn]
        exact Finset.mem_insert_self _ _
      · have hmem : n ∈ pool.pendingOf a := (h.pending a n).mpr ⟨hash', q', hold, hfrom, hn⟩
        split_ifs with ha
        · rw [← ha]
          exact Finset.mem_insert_of_mem hmem
        · exact hmem
  · intro a
    rw [hcount, hlength]
    by_cases ha : a = q.tx.from
    · rw [if_pos ha, if_pos ha.symm, h.count, ha]
    · rw [if_neg ha, if_neg fun heq => ha heq.symm, h.count, Nat.add_zero]
  · have hold : ∀ hash' q', pool.transactions.lookup hash' = some q' →
        q'.tx.from = q.tx.from → q'.tx.nonce ≠ q.tx.nonce := by
      intro hash' q' hq' hfrom heq
      exact hnonce ((h.pending _ _).mpr ⟨hash', q', hq', hfrom, heq⟩)
    intro hash₁ q₁ hash₂ q₂ hq₁ hq₂ hfrom heq
    rcases (hafter hash₁ q₁).mp hq₁ with ⟨rfl, rfl⟩ | ⟨-, hold₁⟩
    · rcases (hafter hash₂ q₂).mp hq₂ with ⟨rfl, rfl⟩ | ⟨-, hold₂⟩
      · rfl
      · exact absurd heq.symm (hold _ _ hold₂ hfrom.symm)
    · rcases (hafter hash₂ q₂).mp hq₂ with ⟨rfl, rfl⟩ | ⟨-, hold₂⟩
      · exact absurd heq (hold _ _ hold₁ hfrom)
      · exact h.unique _ _ _ _ hold₁ hold₂ hfrom heq
  · rw [← Map.length_toPairs, hpairs, List.length_cons, Map.length_toPairs]
    exact hsize
  · intro a
    rw [hlength]
    have hold := h.share a
    have hcounted := h.count q.tx.from
    by_cases ha : q.tx.from = a
    · rw [if_pos ha]
      rw [ha] at hshare hcounted
      have hlt : (pool.pooledFrom a).length < pool.config.maxTxPerAddress := hcounted ▸ hshare
      exact hlt
    · rw [if_neg ha]
      exact hold

/-! ## What `add_transaction` does -/

section Add

variable (F : Type) [FeeFloat F] [Primitives] [Verifiers] {σ : Type} [Storage σ]

/-- How `add_transaction` ends: the pool is as it was, or the transaction is put in, where the
one it replaces was taken out first. -/
inductive AddEnd (tx : Transaction) (pool pool' : MempoolImpl) :
    Outcome PacyteError AddTxResult → Prop
  | refused {o : Outcome PacyteError AddTxResult} (notAdded : o ≠ .ok .added)
      (notReplaced : ∀ old, o ≠ .ok (.replaced old)) (same : pool' = pool) :
      AddEnd tx pool pool' o
  | added (now : Timestamp) (wellFormed : tx.from ≠ tx.to ∧ tx.amount ≠ 0)
      (new : pool.transactions.lookup tx.hash = none)
      (room : pool.transactions.entries.length < pool.config.maxSize)
      (share : pool.txCount tx.from < pool.config.maxTxPerAddress)
      (free : conflicting tx pool = none)
      (inserted : pool' = insertPooled (priorityKey F tx) ⟨tx, now, tx.hash, tx.size⟩ pool) :
      AddEnd tx pool pool' (.ok .added)
  | replaced (now : Timestamp) (existing : PooledTx)
      (wellFormed : tx.from ≠ tx.to ∧ tx.amount ≠ 0)
      (new : pool.transactions.lookup tx.hash = none)
      (room : pool.transactions.entries.length < pool.config.maxSize)
      (share : pool.txCount tx.from < pool.config.maxTxPerAddress)
      (conflict : conflicting tx pool = some existing)
      (inserted : pool' = insertPooled (priorityKey F tx) ⟨tx, now, tx.hash, tx.size⟩
        (removeTransaction existing.hash pool).2) :
      AddEnd tx pool pool' (.ok (.replaced existing.hash))

omit [Primitives] [Verifiers] in
/-- A transaction that passes the basic checks moves an amount to somebody else. -/
theorem validateBasic_wellFormed (tx : Transaction) (maxTxAgeSecs : UInt64) (clock : Clock) :
    Exec.Post (tx.validateBasic maxTxAgeSecs) clock fun o _ =>
      o = .ok true → tx.from ≠ tx.to ∧ tx.amount ≠ 0 := by
  unfold Transaction.validateBasic
  rw [Exec.post_ite]
  refine ⟨fun _ => nofun, fun hparties => ?_⟩
  have hne : tx.from ≠ tx.to := fun h => hparties (Or.inr (Or.inr h))
  rw [Exec.post_ite]
  refine ⟨fun _ => nofun, fun hamount => ?_⟩
  have hzero : tx.amount ≠ 0 := fun h => hamount (Or.inl h)
  exact Exec.Post.mono (Q := fun _ _ => True) trivial fun _ _ _ _ => ⟨hne, hzero⟩

/-- A validated transaction is well formed. -/
theorem validateTransaction_wellFormed (config : MempoolConfig) (tx : Transaction)
    (sm : StateManager σ) :
    Exec.Post (validateTransaction config tx) sm fun o _ =>
      o = .ok none → tx.from ≠ tx.to ∧ tx.amount ≠ 0 := by
  unfold validateTransaction
  have hbasic : Exec.Post (StateManager.onClock (tx.validateBasic config.maxTxAgeSecs)) sm
      fun o _ => o = .ok true → tx.from ≠ tx.to ∧ tx.amount ≠ 0 :=
    validateBasic_wellFormed tx config.maxTxAgeSecs sm.clock
  refine hbasic.seq ?_ (fun _ _ _ => nofun) (fun _ _ => nofun)
  intro ok sm' hok
  cases ok with
  | true =>
      have hwellFormed := hok rfl
      exact Exec.Post.mono (Q := fun _ _ => True) trivial fun _ _ _ _ => hwellFormed
  | false => exact nofun

omit [Verifiers] [Storage σ] in
/-- The entries for a new transaction. -/
theorem insertNew_spec (tx : Transaction) (p : MempoolImpl × StateManager σ) :
    Exec.Post (insertNew F tx) p fun o p' => o = .ok () ∧ ∃ now,
      p'.1 = insertPooled (priorityKey F tx) ⟨tx, now, tx.hash, tx.size⟩ p.1 :=
  ⟨rfl, p.2.clock 0, rfl⟩

/-- **`add_transaction`** ends in one of three ways. -/
theorem addTransaction_spec (tx : Transaction) (p : MempoolImpl × StateManager σ) :
    Exec.Post (addTransaction F tx) p fun o p' => AddEnd F tx p.1 p'.1 o := by
  unfold addTransaction
  rw [Exec.post_bind, Exec.post_get]
  dsimp only
  rw [Exec.post_ite]
  refine ⟨fun _ => .refused nofun nofun rfl, fun hnew => ?_⟩
  rw [Exec.post_ite]
  refine ⟨fun _ => .refused nofun nofun rfl, fun hroom => ?_⟩
  rw [Exec.post_ite]
  refine ⟨fun _ => .refused nofun nofun rfl, fun hshare => ?_⟩
  have hnone : p.1.transactions.lookup tx.hash = none := Option.not_isSome_iff_eq_none.mp hnew
  have hvalid : Exec.Post (onState (validateTransaction p.1.config tx)) p fun o p' =>
      p'.1 = p.1 ∧ (o = .ok none → tx.from ≠ tx.to ∧ tx.amount ≠ 0) :=
    ⟨rfl, validateTransaction_wellFormed p.1.config tx p.2⟩
  refine hvalid.seq ?_ (fun _ _ h => .refused nofun nofun h.1)
    (fun _ h => .refused nofun nofun h.1)
  rintro (_ | reason) p₁ ⟨hsame, hwellFormed⟩
  · have hwellFormed := hwellFormed rfl
    dsimp only
    cases hconflict : conflicting tx p.1 with
    | none =>
        refine (insertNew_spec F tx p₁).seq ?_ (fun _ _ h => nomatch h.1) (fun _ h => nomatch h.1)
        rintro u p₂ ⟨-, now, hinserted⟩
        rw [hsame] at hinserted
        exact .added now hwellFormed hnone (Nat.lt_of_not_le hroom) (Nat.lt_of_not_le hshare)
          hconflict hinserted
    | some existing =>
        dsimp only
        rw [Exec.post_ite]
        refine ⟨fun _ => ?_, fun _ => .refused nofun nofun hsame⟩
        rw [Exec.post_bind, Exec.post_modify]
        refine (insertNew_spec F tx _).seq ?_ (fun _ _ h => nomatch h.1) (fun _ h => nomatch h.1)
        rintro u p₂ ⟨-, now, hinserted⟩
        rw [hsame] at hinserted
        exact .replaced now existing hwellFormed hnone (Nat.lt_of_not_le hroom)
          (Nat.lt_of_not_le hshare) hconflict hinserted
  · exact .refused nofun nofun hsame

end Add

/-- Without a conflict the nonce is new. -/
theorem Indexed.nonce_of_free {pool : MempoolImpl} (h : Indexed pool) {tx : Transaction}
    (hfree : conflicting tx pool = none) : tx.nonce ∉ pool.pendingOf tx.from := by
  intro hpending
  unfold conflicting at hfree
  rw [if_pos hpending, Option.map_eq_none_iff, List.find?_eq_none] at hfree
  obtain ⟨hash, q, hq, hfrom, hnonce⟩ := (h.pending _ _).mp hpending
  exact hfree (hash, q) ((Map.mem_toPairs _ _ _).mpr hq) (decide_eq_true ⟨hfrom, hnonce⟩)

/-- A conflict is a pooled transaction with the same sender and nonce. -/
theorem Indexed.conflict {pool : MempoolImpl} (h : Indexed pool) {tx : Transaction}
    {existing : PooledTx} (hconflict : conflicting tx pool = some existing) :
    pool.transactions.lookup existing.hash = some existing ∧
      existing.tx.from = tx.from ∧ existing.tx.nonce = tx.nonce := by
  unfold conflicting at hconflict
  split_ifs at hconflict
  obtain ⟨e, he, rfl⟩ := Option.map_eq_some_iff.mp hconflict
  have hlookup := (Map.mem_toPairs _ _ _).mp (List.mem_of_find?_eq_some he)
  have hfound := List.find?_some he
  have hsame : e.2.tx.from = tx.from ∧ e.2.tx.nonce = tx.nonce := of_decide_eq_true hfound
  rw [h.hash e.1 e.2 hlookup]
  exact ⟨hlookup, hsame⟩

/-- **`add_transaction` keeps the pool indexed.** -/
theorem Indexed.add {F : Type} [FeeFloat F] [Primitives] {tx : Transaction}
    {pool pool' : MempoolImpl} {o : Outcome PacyteError AddTxResult} (h : Indexed pool)
    (hend : AddEnd F tx pool pool' o) : Indexed pool' ∧ pool'.config = pool.config := by
  cases hend with
  | refused _ _ hsame =>
      rw [hsame]
      exact ⟨h, rfl⟩
  | added now hwellFormed hnew hroom hshare hfree hinserted =>
      rw [hinserted]
      exact ⟨h.insert _ hwellFormed hnew (h.nonce_of_free hfree) hroom hshare, rfl⟩
  | replaced now existing hwellFormed hnew hroom hshare hconflict hinserted =>
      obtain ⟨hlookup, hfrom, hnonce⟩ := h.conflict hconflict
      rw [hinserted]
      refine ⟨(h.remove existing.hash).insert _ hwellFormed ?_ ?_ ?_ ?_, config_remove _ _⟩
      · rw [transactions_remove hlookup, AList.lookup_erase_ne fun heq => ?_]
        · exact hnew
        · have hhash : tx.hash = existing.hash := heq
          rw [hhash, hlookup] at hnew
          cases hnew
      · rw [pendingOf_remove hlookup, if_pos hfrom.symm, hnonce]
        exact Finset.notMem_erase _ _
      · have hlength := length_entries_remove hlookup
        rw [config_remove]
        omega
      · rw [txCount_remove hlookup, if_pos hfrom.symm, config_remove]
        exact Nat.lt_of_le_of_lt (Nat.sub_le _ _) hshare

/-! ## Reachable pools -/

section Run

variable (F : Type) [FeeFloat F] [Primitives] [Verifiers] {σ : Type} [Storage σ]

omit [Primitives] [Verifiers] in
/-- `cleanup` takes transactions out one by one. -/
theorem cleanup_removes (processed : List Hash) (p : MempoolImpl × StateManager σ) :
    Exec.Post (MempoolImpl.cleanup processed) p fun _ p' =>
      ∃ stale, p'.1 = removeAll stale (removeAll processed p.1) := by
  unfold MempoolImpl.cleanup
  rw [Exec.post_bind, Exec.post_modify]
  dsimp only
  rw [Exec.post_bind, Exec.post_get]
  dsimp only
  refine (staleAmong_lookups _ (removeAll processed p.1, p.2)).seq ?_ (fun e => e.elim) ?_
  · rintro stale p₁ ⟨hpool, -⟩
    exact ⟨stale, congrArg (removeAll stale) hpool⟩
  · rintro p₁ ⟨hpool, -⟩
    exact ⟨[], hpool⟩

/-- **Every call keeps the pool indexed.** -/
theorem Indexed.call {p : MempoolImpl × StateManager σ} (h : Indexed p.1) (c : MempoolCall σ) :
    Indexed (MempoolImpl.call F c p).1 ∧ (MempoolImpl.call F c p).1.config = p.1.config := by
  cases c with
  | add tx => exact h.add (addTransaction_spec F tx p)
  | remove hash => exact ⟨h.remove hash, config_remove hash p.1⟩
  | cleanup processed =>
      obtain ⟨stale, hstale⟩ := cleanup_removes processed p
      show Indexed (MempoolImpl.cleanup processed p).2.1 ∧
        (MempoolImpl.cleanup processed p).2.1.config = p.1.config
      rw [hstale]
      exact ⟨(h.removeAll processed).removeAll stale,
        (config_removeAll _ _).trans (config_removeAll _ _)⟩
  | pruneExpired currentTime => exact ⟨h.removeAll _, config_removeAll _ _⟩
  | elsewhere stateManager => exact ⟨h, rfl⟩

theorem Reachable.indexed {config : MempoolConfig} {p : MempoolImpl × StateManager σ}
    (h : Reachable F config p) : Indexed p.1 ∧ p.1.config = config :=
  Reachable.induction F (J := fun p => Indexed p.1 ∧ p.1.config = config)
    (fun _ => ⟨indexed_new config, rfl⟩)
    (fun c _ hp => ⟨(hp.1.call F c).1, (hp.1.call F c).2.trans hp.2⟩) h

/-- **The indices of every reachable pool agree**, its limits hold, and a transaction that is
not accepted leaves everything as it was. -/
theorem mempool_indexed {config : MempoolConfig} {p : MempoolImpl × StateManager σ}
    (h : Reachable F config p) :
    Indexed p.1 ∧ p.1.config = config ∧
      ∀ tx, ((addTransaction F tx p).1 = .ok .alreadyExists ∨
        ∃ reason, (addTransaction F tx p).1 = .ok (.rejected reason)) →
          (addTransaction F tx p).2.1 = p.1 := by
  obtain ⟨hindexed, hconfig⟩ := Reachable.indexed F h
  refine ⟨hindexed, hconfig, fun tx hresult => ?_⟩
  have hend := addTransaction_spec F tx p
  rw [Exec.Post] at hend
  generalize addTransaction F tx p = run at hend hresult ⊢
  obtain ⟨o, p'⟩ := run
  cases hend with
  | refused _ _ hsame => exact hsame
  | added =>
      rcases hresult with hexists | ⟨reason, hrejected⟩
      · cases hexists
      · cases hrejected
  | replaced =>
      rcases hresult with hexists | ⟨reason, hrejected⟩
      · cases hexists
      · cases hrejected

end Run

end MempoolImpl

/-! ## One transaction -/

section Example

open scoped Sample

/-- A pool with one transaction, which is added a second time. -/
theorem mempool_indexed_sample :
    let tx := Sample.signedTransfer 1 2 10 1000 0
    let p := Sample.poolAfter [(sampleAddress 1, 5000)] [.add tx]
    p.1.transactions.entries.length = 1 ∧ MempoolImpl.Indexed p.1 ∧
      (MempoolImpl.addTransaction ℚ tx p).2.1 = p.1 := by
  intro tx p
  have hindexed := MempoolImpl.mempool_indexed ℚ (p := p)
    ⟨sampleState [(sampleAddress 1, 5000)], [.add tx], rfl⟩
  have hexists : (MempoolImpl.addTransaction ℚ tx p).1 = .ok .alreadyExists := by
    decide +kernel
  exact ⟨by decide +kernel, hindexed.1, hindexed.2.2 tx (Or.inl hexists)⟩

end Example
