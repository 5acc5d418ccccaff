/-
# Pruning

`Pruner::select_for_pruning` of `src/mempool/pruning.rs`: the transactions that are too old, the
cheapest ones where there are too many, and the oldest ones of every sender with too many.  The
three kinds are selected independently of each other, from all the transactions, and what they
have in common is selected once.

Every limit that the selection is for holds of what is left (`selectForPruning_reaches`): a limit
on a number is reached by its own kind alone, and the other kinds only take more away.

The fee rates are compared in `f64`; here `cheaper` stands for the comparison, which plays no part
in the limits.  The order in which the hash map lists its senders and the hash set its hashes is
arbitrary.
-/
import Pacyte.Grouping
import Pacyte.MempoolAdmission

namespace Pruner

variable [Primitives]

/-! ## The selection -/

/-- `current_time.saturating_sub(tx.timestamp) > max_tx_age_secs`. -/
def Expired (config : MempoolConfig) (currentTime : Timestamp) (tx : Transaction) : Prop :=
  config.maxTxAgeSecs < U64.saturatingSub currentTime tx.timestamp

instance (config : MempoolConfig) (currentTime : Timestamp) (tx : Transaction) :
    Decidable (Expired config currentTime tx) := inferInstanceAs (Decidable (_ < _))

/-- `count_by_address`. -/
def countByAddress (transactions : List Transaction) : Map Address ℕ :=
  Map.accumulate Transaction.from 0 (fun count _ => count + 1) ∅ transactions

section Select

variable (config : MempoolConfig) (cheaper : Transaction → Transaction → Prop)
  [DecidableRel cheaper]

/-- `prune_capacity`: the cheapest transactions, if there are too many; also the second part of
`select_for_pruning`. -/
def pruneCapacity (transactions : List Transaction) : List Hash :=
  if config.maxSize < transactions.length then
    ((transactions.insertionSort cheaper).take (transactions.length - config.maxSize)).map
      Transaction.hash
  else []

/-- The oldest transactions of a sender with `count` transactions, if these are too many. -/
def pruneSender (transactions : List Transaction) (address : Address) (count : ℕ) : List Hash :=
  if config.maxTxPerAddress < count then
    (((transactions.filter fun tx => tx.from = address).insertionSort
      fun a b => a.timestamp ≤ b.timestamp).take (count - config.maxTxPerAddress)).map
        Transaction.hash
  else []

/-- `to_prune`, with repetitions. -/
def toPrune (senders : Listing (Address × ℕ)) (transactions : List Transaction)
    (currentTime : Timestamp) : List Hash :=
  (transactions.filter fun tx => Expired config currentTime tx).map Transaction.hash ++
    pruneCapacity config cheaper transactions ++
    (senders.list (countByAddress transactions).toPairs).flatMap fun e =>
      pruneSender config transactions e.1 e.2

/-- `Pruner::select_for_pruning`. -/
def selectForPruning (senders : Listing (Address × ℕ)) (hashes : Listing Hash)
    (transactions : List Transaction) (currentTime : Timestamp) : List Hash :=
  hashes.list (toPrune config cheaper senders transactions currentTime).dedup

end Select

section Remaining

/-- Hashes are compared by value. -/
local instance lawfulBEq_hash : LawfulBEq Hash := inferInstance

/-- What is left when the hashes are removed. -/
def remaining (hashes : List Hash) (transactions : List Transaction) : List Transaction :=
  transactions.filter fun tx => tx.hash ∉ hashes

end Remaining

/-! ## What is selected -/

/-- The transactions keep the limits of the pool. -/
structure WithinLimits (config : MempoolConfig) (currentTime : Timestamp)
    (transactions : List Transaction) : Prop where
  size : transactions.length ≤ config.maxSize
  share : ∀ a, (transactions.filter fun tx => tx.from = a).length ≤ config.maxTxPerAddress
  age : ∀ tx ∈ transactions,
    currentTime.toNat - tx.timestamp.toNat ≤ config.maxTxAgeSecs.toNat

omit [Primitives] in
theorem expired_iff (config : MempoolConfig) (currentTime : Timestamp) (tx : Transaction) :
    Expired config currentTime tx ↔
      config.maxTxAgeSecs.toNat < currentTime.toNat - tx.timestamp.toNat := by
  unfold Expired U64.saturatingSub
  by_cases h : tx.timestamp ≤ currentTime
  · rw [if_pos h, UInt64.lt_iff_toNat_lt, UInt64.toNat_sub_of_le _ _ h]
  · rw [if_neg h, UInt64.lt_iff_toNat_lt]
    have hlt : currentTime.toNat < tx.timestamp.toNat := Nat.lt_of_not_le h
    rw [Nat.sub_eq_zero_of_le hlt.le]
    rfl

omit [Primitives] in
/-- The counter of a sender. -/
theorem mem_countByAddress (transactions : List Transaction) (a : Address) (count : ℕ) :
    (a, count) ∈ (countByAddress transactions).toPairs ↔
      a ∈ transactions.map Transaction.from ∧
        count = (transactions.filter fun tx => tx.from = a).length := by
  unfold countByAddress
  rw [Map.mem_toPairs_accumulate]
  have hlength : ∀ (l : List Transaction) (n : ℕ),
      l.foldl (fun count _ => count + 1) n = n + l.length := by
    intro l
    induction l with
    | nil => exact fun n => rfl
    | cons tx l ih =>
        intro n
        rw [List.foldl_cons, ih, List.length_cons]
        omega
  rw [hlength, Nat.zero_add]

variable (config : MempoolConfig) (cheaper : Transaction → Transaction → Prop)
  [DecidableRel cheaper]

theorem mem_pruneCapacity {transactions : List Transaction} {h : Hash}
    (hmem : h ∈ pruneCapacity config cheaper transactions) :
    config.maxSize < transactions.length ∧ h ∈ transactions.map Transaction.hash := by
  unfold pruneCapacity at hmem
  split at hmem
  · rename_i hlarge
    obtain ⟨tx, htx, rfl⟩ := List.mem_map.mp hmem
    exact ⟨hlarge, List.mem_map_of_mem
      ((List.perm_insertionSort cheaper transactions).mem_iff.mp (List.mem_of_mem_take htx))⟩
  · exact absurd hmem List.not_mem_nil

theorem mem_pruneSender {transactions : List Transaction} {a : Address} {count : ℕ} {h : Hash}
    (hmem : h ∈ pruneSender config transactions a count) :
    config.maxTxPerAddress < count ∧ h ∈ transactions.map Transaction.hash := by
  unfold pruneSender at hmem
  split at hmem
  · rename_i hlarge
    obtain ⟨tx, htx, rfl⟩ := List.mem_map.mp hmem
    have hsender := (List.perm_insertionSort _ _).mem_iff.mp (List.mem_of_mem_take htx)
    exact ⟨hlarge, List.mem_map_of_mem (List.mem_of_mem_filter hsender)⟩
  · exact absurd hmem List.not_mem_nil

section Selection

variable (senders : Listing (Address × ℕ)) (hashes : Listing Hash)
  (transactions : List Transaction) (currentTime : Timestamp)

/-- The three kinds of selected transactions. -/
theorem mem_selectForPruning (h : Hash) :
    h ∈ selectForPruning config cheaper senders hashes transactions currentTime ↔
      (∃ tx ∈ transactions, Expired config currentTime tx ∧ tx.hash = h) ∨
        h ∈ pruneCapacity config cheaper transactions ∨
        ∃ a ∈ transactions.map Transaction.from, h ∈ pruneSender config transactions a
          (transactions.filter fun tx => tx.from = a).length := by
  unfold selectForPruning toPrune
  rw [(hashes.perm _).mem_iff, List.mem_dedup, List.mem_append, List.mem_append, or_assoc]
  refine or_congr ?_ (or_congr Iff.rfl ?_)
  · rw [List.mem_map]
    refine exists_congr fun tx => ?_
    rw [List.mem_filter, decide_eq_true_eq, and_assoc]
  · rw [List.mem_flatMap]
    constructor
    · rintro ⟨⟨a, count⟩, hentry, hmem⟩
      obtain ⟨ha, rfl⟩ := (mem_countByAddress transactions a count).mp
        ((senders.perm _).mem_iff.mp hentry)
      exact ⟨a, ha, hmem⟩
    · rintro ⟨a, ha, hmem⟩
      exact ⟨(a, _), (senders.perm _).mem_iff.mpr
        ((mem_countByAddress transactions a _).mpr ⟨ha, rfl⟩), hmem⟩

/-! ## The limits -/

theorem nodup_selectForPruning :
    (selectForPruning config cheaper senders hashes transactions currentTime).Nodup :=
  (hashes.perm _).nodup_iff.mpr (List.nodup_dedup _)

theorem selectForPruning_subset :
    selectForPruning config cheaper senders hashes transactions currentTime ⊆
      transactions.map Transaction.hash := by
  intro h hmem
  rw [mem_selectForPruning] at hmem
  rcases hmem with ⟨tx, htx, -, rfl⟩ | hmem | ⟨a, -, hmem⟩
  · exact List.mem_map_of_mem htx
  · exact (mem_pruneCapacity config cheaper hmem).2
  · exact (mem_pruneSender config hmem).2

/-- What is left is within the size of the pool. -/
theorem length_remaining_le {victims : List Hash}
    (h : pruneCapacity config cheaper transactions ⊆ victims) :
    (remaining victims transactions).length ≤ config.maxSize := by
  by_cases hlarge : config.maxSize < transactions.length
  · have hleft : (remaining victims transactions).length ≤
        transactions.length - (transactions.length - config.maxSize) := by
      apply List.length_filter_le_of_take (List.perm_insertionSort cheaper transactions)
      intro tx htx
      rw [decide_eq_false_iff_not, not_not]
      apply h
      unfold pruneCapacity
      rw [if_pos hlarge]
      exact List.mem_map_of_mem htx
    omega
  · exact (List.length_filter_le _ _).trans (Nat.le_of_not_lt hlarge)

/-- What is left of a sender is within the limit for senders. -/
theorem share_remaining_le {victims : List Hash} (a : Address)
    (h : pruneSender config transactions a (transactions.filter fun tx => tx.from = a).length ⊆
      victims) :
    ((remaining victims transactions).filter fun tx => tx.from = a).length ≤
      config.maxTxPerAddress := by
  have hswap : (remaining victims transactions).filter (fun tx => tx.from = a) =
      remaining victims (transactions.filter fun tx => tx.from = a) := by
    unfold remaining
    rw [List.filter_filter, List.filter_filter]
    exact List.filter_congr fun tx _ => Bool.and_comm _ _
  rw [hswap]
  set own := transactions.filter fun tx => tx.from = a with hown
  by_cases hlarge : config.maxTxPerAddress < own.length
  · have hleft : (remaining victims own).length ≤
        own.length - (own.length - config.maxTxPerAddress) := by
      apply List.length_filter_le_of_take
        (List.perm_insertionSort (fun a b : Transaction => a.timestamp ≤ b.timestamp) own)
      intro tx htx
      rw [decide_eq_false_iff_not, not_not]
      apply h
      unfold pruneSender
      rw [if_pos hlarge, ← hown]
      exact List.mem_map_of_mem htx
    omega
  · exact (List.length_filter_le _ _).trans (Nat.le_of_not_lt hlarge)

/-- **What the selection reaches**: without the selected transactions all limits hold.  They are
selected once each, from the given ones, and none where the limits hold already. -/
theorem selectForPruning_reaches :
    WithinLimits config currentTime (remaining
        (selectForPruning config cheaper senders hashes transactions currentTime) transactions) ∧
      (selectForPruning config cheaper senders hashes transactions currentTime).Nodup ∧
      selectForPruning config cheaper senders hashes transactions currentTime ⊆
        transactions.map Transaction.hash ∧
      (WithinLimits config currentTime transactions →
        selectForPruning config cheaper senders hashes transactions currentTime = []) := by
  have hselected := mem_selectForPruning config cheaper senders hashes transactions currentTime
  refine ⟨⟨?_, fun a => ?_, fun tx htx => ?_⟩,
    nodup_selectForPruning config cheaper senders hashes transactions currentTime,
    selectForPruning_subset config cheaper senders hashes transactions currentTime, fun h => ?_⟩
  · exact length_remaining_le config cheaper transactions fun h hmem =>
      (hselected h).mpr (Or.inr (Or.inl hmem))
  · by_cases ha : a ∈ transactions.map Transaction.from
    · exact share_remaining_le config transactions a fun h hmem =>
        (hselected h).mpr (Or.inr (Or.inr ⟨a, ha, hmem⟩))
    · have hnone : (remaining (selectForPruning config cheaper senders hashes transactions
          currentTime) transactions).filter (fun tx => tx.from = a) = [] := by
        rw [List.filter_eq_nil_iff]
        intro tx htx heq
        exact ha (List.mem_map.mpr ⟨tx, List.mem_of_mem_filter htx, of_decide_eq_true heq⟩)
      rw [hnone]
      exact Nat.zero_le _
  · obtain ⟨htx, hkept⟩ := List.mem_filter.mp htx
    rw [decide_eq_true_eq] at hkept
    by_contra hold
    exact hkept ((hselected tx.hash).mpr (Or.inl ⟨tx, htx,
      (expired_iff config currentTime tx).mpr (Nat.lt_of_not_le hold), rfl⟩))
  · rw [List.eq_nil_iff_forall_not_mem]
    intro hash hmem
    rcases (hselected hash).mp hmem with ⟨tx, htx, hexpired, -⟩ | hmem | ⟨a, -, hmem⟩
    · exact absurd ((expired_iff config currentTime tx).mp hexpired)
        (Nat.not_lt.mpr (h.age tx htx))
    · exact absurd (mem_pruneCapacity config cheaper hmem).1 (Nat.not_lt.mpr h.size)
    · exact absurd (mem_pruneSender config hmem).1 (Nat.not_lt.mpr (h.share a))

end Selection

end Pruner
