/-
# The limits of a selection

`select_for_block` of `src/mempool/pool.rs` checks three running quantities in its loops: the number
of transactions, their size, and the last nonce of every sender.  For a pool with any contents, and
an index that may list a hash twice or one that is not pooled, the selection keeps within the two
limits, takes no entry twice and takes each sender's nonces in ascending order
(`selection_within_limits`).

The walk counts sizes up before it compares them.  `sizeSums` lists these sums; none is above the
size of the whole pool.
-/
import Pacyte.MempoolSelection

namespace MempoolImpl

open Exec

/-! ## What a selection keeps -/

/-- The entries that were taken keep within the limits. -/
structure WithinLimits (maxCount maxSize : ℕ) (pool : MempoolImpl)
    (taken : List (Hash × PooledTx)) : Prop where
  pooled : ∀ e ∈ taken, pool.transactions.lookup e.1 = some e.2
  distinct : (taken.map Prod.fst).Nodup
  count : taken.length ≤ maxCount
  size : (taken.map fun e => e.2.size).sum ≤ maxSize
  nonces : ∀ a, (noncesOf a (taken.map Prod.snd)).Pairwise (· < ·)

theorem withinLimits_nil (maxCount maxSize : ℕ) (pool : MempoolImpl) :
    WithinLimits maxCount maxSize pool [] where
  pooled _ h := nomatch h
  distinct := List.nodup_nil
  count := Nat.zero_le _
  size := Nat.zero_le _
  nonces _ := List.Pairwise.nil

/-- The accumulator of the walk after these entries were taken. -/
structure Taken (acc : Selection) (taken : List (Hash × PooledTx)) : Prop where
  selected : acc.selected = taken.map fun e => e.2.tx
  hashes : ∀ hash, hash ∈ acc.selectedHashes ↔ hash ∈ taken.map Prod.fst
  size : acc.currentSize = (taken.map fun e => e.2.size).sum
  lastNonce : ∀ a, tracked acc a = (noncesOf a (taken.map Prod.snd)).getLast?

theorem noncesOf_append (a : Address) (qs qs' : List PooledTx) :
    noncesOf a (qs ++ qs') = noncesOf a qs ++ noncesOf a qs' := by
  rw [noncesOf, List.filter_append, List.map_append]
  rfl

theorem noncesOf_snoc (a : Address) (taken : List (Hash × PooledTx)) (hash : Hash)
    (q : PooledTx) : noncesOf a ((taken ++ [(hash, q)]).map Prod.snd) =
      noncesOf a (taken.map Prod.snd) ++ if q.tx.from = a then [q.tx.nonce.toNat] else [] := by
  rw [List.map_append, noncesOf_append]
  congr 1
  split_ifs with ha
  · subst ha
    exact noncesOf_cons_self q []
  · exact noncesOf_cons_ne ha []

section Take

variable {maxCount maxSize : ℕ} {pool : MempoolImpl} {acc : Selection}
  {taken : List (Hash × PooledTx)} {hash : Hash} {q : PooledTx}

/-- The accumulator after one more entry. -/
theorem Taken.take (h : Taken acc taken) (hash : Hash) (q : PooledTx) :
    Taken (takes hash q acc) (taken ++ [(hash, q)]) where
  selected := by
    rw [List.map_append, ← h.selected]
    rfl
  hashes hash' := by
    rw [List.map_append, List.mem_append, ← h.hashes hash']
    show hash' ∈ insert hash acc.selectedHashes ↔ _ ∨ hash' ∈ [hash]
    rw [Finset.mem_insert, List.mem_singleton]
    exact or_comm
  size := by
    rw [List.map_append, List.sum_append, ← h.size]
    rfl
  lastNonce a := by
    rw [noncesOf_snoc, tracked_takes]
    by_cases ha : q.tx.from = a
    · rw [if_pos ha, List.getLast?_concat, ← ha, Function.update_self]
    · rw [if_neg ha, List.append_nil, Function.update_of_ne (Ne.symm ha), h.lastNonce]

/-- A hash that was not selected is new. -/
theorem Taken.distinct_snoc (h : Taken acc taken) (hdistinct : (taken.map Prod.fst).Nodup)
    (hnew : hash ∉ acc.selectedHashes) : ((taken ++ [(hash, q)]).map Prod.fst).Nodup := by
  rw [h.hashes] at hnew
  rw [List.map_append]
  refine List.nodup_append.mpr ⟨hdistinct, List.nodup_singleton _, ?_⟩
  rintro x hx y hy rfl
  rw [List.mem_singleton.mp hy] at hx
  exact hnew hx

theorem pooled_snoc (hpooled : ∀ e ∈ taken, pool.transactions.lookup e.1 = some e.2)
    (hlookup : pool.transactions.lookup hash = some q) :
    ∀ e ∈ taken ++ [(hash, q)], pool.transactions.lookup e.1 = some e.2 := by
  intro e he
  rcases List.mem_append.mp he with he | he
  · exact hpooled e he
  · rw [List.mem_singleton.mp he]
    exact hlookup

/-- The nonces before the next one of a sender. -/
theorem Taken.lt_of_next (h : Taken acc taken)
    (hlimits : WithinLimits maxCount maxSize pool taken) {a : Address} {n : ℕ}
    (hn : GapPick.next (tracked acc a) ≤ n) : ∀ m ∈ noncesOf a (taken.map Prod.snd), m < n := by
  intro m hm
  have hsorted := hlimits.nonces a
  rw [h.lastNonce a] at hn
  rcases List.eq_nil_or_concat (noncesOf a (taken.map Prod.snd)) with hnil | ⟨init, last, heq⟩
  · rw [hnil] at hm
    cases hm
  · rw [List.concat_eq_append] at heq
    rw [heq] at hm hsorted hn
    rw [List.getLast?_concat] at hn
    have hlast : last + 1 ≤ n := hn
    rcases List.mem_append.mp hm with hm | hm
    · have hlt := (List.pairwise_append.mp hsorted).2.2 m hm last (List.mem_singleton_self _)
      omega
    · rw [List.mem_singleton.mp hm]
      omega

/-- An entry that the walk takes keeps within the limits. -/
theorem WithinLimits.take (hlimits : WithinLimits maxCount maxSize pool taken)
    (h : Taken acc taken) (hopen : ¬ Full maxCount maxSize acc) (hnew : hash ∉ acc.selectedHashes)
    (hlookup : pool.transactions.lookup hash = some q)
    (hnonce : GapPick.next (tracked acc q.tx.from) ≤ q.tx.nonce.toNat)
    (hsize : ¬ maxSize < acc.currentSize + q.size) :
    WithinLimits maxCount maxSize pool (taken ++ [(hash, q)]) where
  pooled := pooled_snoc hlimits.pooled hlookup
  distinct := h.distinct_snoc hlimits.distinct hnew
  count := by
    have hlen : acc.selected.length = taken.length := by rw [h.selected, List.length_map]
    have hlt := (not_or.mp hopen).1
    rw [hlen] at hlt
    rw [List.length_append, List.length_singleton]
    omega
  size := by
    rw [List.map_append, List.sum_append, ← h.size]
    exact Nat.le_of_not_lt hsize
  nonces a := by
    rw [noncesOf_snoc]
    refine List.pairwise_append.mpr ⟨hlimits.nonces a, ?_, ?_⟩
    · split_ifs
      · exact List.pairwise_singleton _ _
      · exact List.Pairwise.nil
    · intro m hm n hn
      split_ifs at hn with ha
      · subst ha
        rw [List.mem_singleton.mp hn]
        exact h.lt_of_next hlimits hnonce m hm
      · cases hn

/-- Entries under different hashes are together no larger than the pool. -/
theorem sum_size_le (hpooled : ∀ e ∈ taken, pool.transactions.lookup e.1 = some e.2)
    (hdistinct : (taken.map Prod.fst).Nodup) :
    (taken.map fun e => e.2.size).sum ≤ pool.transactions.total PooledTx.size := by
  have hsubset : taken ⊆ pool.transactions.toPairs := fun e he =>
    (Map.mem_toPairs pool.transactions e.1 e.2).mpr (hpooled e he)
  obtain ⟨l, hperm, hsub⟩ := (List.Nodup.of_map Prod.fst hdistinct).subperm hsubset
  have hsum := (hperm.map fun e => e.2.size).sum_eq
  rw [← hsum]
  exact (hsub.map fun e => e.2.size).sum_le_sum fun _ _ => Nat.zero_le _

end Take

/-! ## The walk -/

/-- The sums `current_size + pooled.size` of a walk. -/
def sizeSums (maxCount maxSize : ℕ) (pool : MempoolImpl) : List Hash → Selection → List ℕ
  | [], _ => []
  | hash :: rest, acc =>
    if maxCount ≤ acc.selected.length ∨ maxSize ≤ acc.currentSize then []
    else if hash ∈ acc.selectedHashes then sizeSums maxCount maxSize pool rest acc
    else
      match pool.transactions.lookup hash with
      | none => sizeSums maxCount maxSize pool rest acc
      | some pooled =>
        (acc.currentSize + pooled.size) ::
          match (consider maxSize pool.config.maxNonceGap hash pooled acc pool).1 with
          | .ok acc => sizeSums maxCount maxSize pool rest acc
          | _ => []

/-- The nonces of the pool and the gap are below `2 ^ 62`. -/
structure SmallNonces (pool : MempoolImpl) : Prop where
  nonce : ∀ hash q, pool.transactions.lookup hash = some q → q.tx.nonce.toNat < 2 ^ 62
  gap : pool.config.maxNonceGap.toNat < 2 ^ 62

/-- The next nonce of a sender is small. -/
theorem Taken.next_le {acc : Selection} {taken : List (Hash × PooledTx)} {pool : MempoolImpl}
    (h : Taken acc taken) (hpooled : ∀ e ∈ taken, pool.transactions.lookup e.1 = some e.2)
    (hsmall : SmallNonces pool) (a : Address) : GapPick.next (tracked acc a) ≤ 2 ^ 62 := by
  rw [h.lastNonce a]
  cases hlast : (noncesOf a (taken.map Prod.snd)).getLast? with
  | none => exact Nat.zero_le _
  | some n =>
      obtain ⟨q, hq, rfl⟩ := List.mem_map.mp (List.mem_of_getLast? hlast)
      obtain ⟨e, he, rfl⟩ := List.mem_map.mp (List.mem_filter.mp hq).1
      exact hsmall.nonce e.1 e.2 (hpooled e he)

/-- **What the walk does with a pooled entry** where nothing overflows: it passes it over, or it
takes it. -/
theorem consider_cases (maxSize : ℕ) {pool : MempoolImpl}
    (hgap : pool.config.maxNonceGap.toNat < 2 ^ 62) (hash : Hash) (q : PooledTx) {acc : Selection}
    (hnext : GapPick.next (tracked acc q.tx.from) ≤ 2 ^ 62) :
    consider maxSize pool.config.maxNonceGap hash q acc pool = (.ok acc, pool) ∨
      (GapPick.next (tracked acc q.tx.from) ≤ q.tx.nonce.toNat ∧
        ¬ maxSize < acc.currentSize + q.size ∧
        consider maxSize pool.config.maxNonceGap hash q acc pool =
          (.ok (takes hash q acc), pool)) := by
  rw [consider_run]
  unfold GapPick.verdict
  rw [if_neg (by omega)]
  by_cases hold : q.tx.nonce.toNat < GapPick.next (tracked acc q.tx.from)
  · rw [if_pos hold]
    exact Or.inl rfl
  rw [if_neg hold, if_neg (by omega)]
  cases decide (q.tx.nonce.toNat ≤
    GapPick.next (tracked acc q.tx.from) + pool.config.maxNonceGap.toNat) with
  | false => exact Or.inl rfl
  | true =>
      dsimp only
      by_cases hsize : maxSize < acc.currentSize + q.size
      · rw [if_pos hsize]
        exact Or.inl rfl
      · rw [if_neg hsize]
        exact Or.inr ⟨Nat.le_of_not_lt hold, hsize, rfl⟩

/-- The outcome of a walk: it does not panic, it keeps within the limits, and so do its sums. -/
def Keeps (maxCount maxSize : ℕ) (pool : MempoolImpl)
    (run : Outcome Empty Selection × MempoolImpl) (sums : List ℕ) : Prop :=
  (∃ acc taken, run = (.ok acc, pool) ∧ Taken acc taken ∧
    WithinLimits maxCount maxSize pool taken) ∧
  ∀ n ∈ sums, n ≤ pool.transactions.total PooledTx.size

/-- **The walk keeps within the limits.**  The induction is on the hashes that are left. -/
theorem selectAmong_within {maxCount maxSize : ℕ} {pool : MempoolImpl} (hsmall : SmallNonces pool)
    (hashes : List Hash) {acc : Selection} {taken : List (Hash × PooledTx)} (h : Taken acc taken)
    (hlimits : WithinLimits maxCount maxSize pool taken) :
    Keeps maxCount maxSize pool (selectAmong maxCount maxSize hashes acc pool)
      (sizeSums maxCount maxSize pool hashes acc) := by
  induction hashes generalizing acc taken with
  | nil => exact ⟨⟨acc, taken, rfl, h, hlimits⟩, fun _ hn => nomatch hn⟩
  | cons hash rest ih =>
      by_cases hfull : Full maxCount maxSize acc
      · have hsums : sizeSums maxCount maxSize pool (hash :: rest) acc = [] := if_pos hfull
        rw [selectAmong_full hfull, hsums]
        exact ⟨⟨acc, taken, rfl, h, hlimits⟩, fun _ hn => nomatch hn⟩
      have hprog : selectAmong maxCount maxSize (hash :: rest) acc = _ := if_neg hfull
      have hsums : sizeSums maxCount maxSize pool (hash :: rest) acc = _ := if_neg hfull
      rw [hprog, hsums]
      by_cases hnew : hash ∈ acc.selectedHashes
      · rw [if_pos hnew, if_pos hnew]
        exact ih h hlimits
      rw [if_neg hnew, if_neg hnew, run_bind, run_get]
      dsimp only
      cases hlookup : pool.transactions.lookup hash with
      | none => exact ih h hlimits
      | some q =>
          have hpooled := pooled_snoc hlimits.pooled hlookup
          -- the sum is the size of entries under different hashes
          have hsum : acc.currentSize + q.size ≤ pool.transactions.total PooledTx.size := by
            have hall := sum_size_le hpooled (h.distinct_snoc hlimits.distinct hnew)
            rw [List.map_append, List.sum_append, ← h.size] at hall
            exact hall
          have hrest : ∀ {acc' : Selection} {taken' : List (Hash × PooledTx)}, Taken acc' taken' →
              WithinLimits maxCount maxSize pool taken' →
              Keeps maxCount maxSize pool (selectAmong maxCount maxSize rest acc' pool)
                ((acc.currentSize + q.size) :: sizeSums maxCount maxSize pool rest acc') := by
            intro acc' taken' h' hlimits'
            obtain ⟨hrun, hsums'⟩ := ih h' hlimits'
            refine ⟨hrun, fun n hn => ?_⟩
            rcases List.mem_cons.mp hn with rfl | hn
            · exact hsum
            · exact hsums' n hn
          dsimp only
          rw [run_bind]
          rcases consider_cases maxSize hsmall.gap hash q
            (h.next_le hlimits.pooled hsmall q.tx.from) with hrun | ⟨hnonce, hsize, hrun⟩
          · rw [hrun]
            exact hrest h hlimits
          · rw [hrun]
            exact hrest (h.take hash q) (hlimits.take h hfull hnew hlookup hnonce hsize)

/-- The sums of `select_for_block`. -/
def selectionSums (maxCount maxSize : ℕ) (pool : MempoolImpl) : List ℕ :=
  sizeSums maxCount maxSize pool (listed pool.priorityIndex.reverse) ⟨[], ∅, 0, ∅⟩

/-- **A selection keeps within its limits**, whatever is pooled and listed, and nothing
overflows. -/
theorem selection_within_limits {pool : MempoolImpl} (h : SmallNonces pool)
    (maxCount maxSize : ℕ) :
    (∃ taken, (selectForBlock maxCount maxSize pool).1 =
        .ok (taken.map fun e : Hash × PooledTx => e.2.tx) ∧
      WithinLimits maxCount maxSize pool taken) ∧
    ∀ n ∈ selectionSums maxCount maxSize pool, n ≤ pool.transactions.total PooledTx.size := by
  have hstart : Taken ⟨[], ∅, 0, ∅⟩ [] :=
    ⟨rfl, fun _ => iff_of_false (Finset.notMem_empty _) List.not_mem_nil, rfl, fun _ => rfl⟩
  obtain ⟨⟨acc, taken, hrun, htaken, hlimits⟩, hsums⟩ := selectAmong_within h
    (listed pool.priorityIndex.reverse) hstart (withinLimits_nil maxCount maxSize pool)
  refine ⟨⟨taken, ?_, hlimits⟩, hsums⟩
  unfold selectForBlock
  rw [run_bind, run_get]
  dsimp only
  rw [run_bind, selectFrom_run, hrun]
  exact congrArg Outcome.ok htaken.selected

end MempoolImpl

/-! ## An index with a repeated hash and one that is not pooled -/

section Example

open scoped Sample

open MempoolImpl

/-- A pool with one transaction whose hash is listed twice, beside a hash that is not pooled. -/
def crowdedPool : MempoolImpl :=
  { MempoolImpl.new Sample.poolConfig with
    transactions := (∅ : Map Hash PooledTx).insert (sampleAddress 1)
      ⟨sampleTransfer (sampleAddress 1) (sampleAddress 2) 2, 0, sampleAddress 1, 121⟩
    priorityIndex := [(7, [sampleAddress 1, sampleAddress 9, sampleAddress 1])] }

/-- The transaction is selected once. -/
theorem crowded_within_limits :
    (selectForBlock 10 1000 crowdedPool).1 =
        .ok [sampleTransfer (sampleAddress 1) (sampleAddress 2) 2] ∧
      ∃ taken, (selectForBlock 10 1000 crowdedPool).1 =
          .ok (taken.map fun e : Hash × PooledTx => e.2.tx) ∧
        WithinLimits 10 1000 crowdedPool taken := by
  have hsmall : SmallNonces crowdedPool := by
    refine ⟨fun hash q hlookup => ?_, by decide⟩
    rcases (Map.lookup_insert_some _).mp hlookup with ⟨-, rfl⟩ | ⟨-, hnone⟩
    · decide
    · cases hnone
  exact ⟨by decide, (selection_within_limits hsmall 10 1000).1⟩

end Example
