/-
# The order of nonces

`TransactionOrdering` of `src/mempool/ordering.rs`.  `resolve_dependencies` sorts the transactions
of every sender by nonce.  `sort_by_nonce` does this as well, but to copies that it drops; what
reaches the caller is sorted by priority alone.  Its result has the nonces of every sender in order
exactly where the priorities have them in this order already (`nonceOrdered_iff`).
-/
import Pacyte.Grouping
import Pacyte.MempoolAdmission

/-- What the priorities take from `f64`. -/
class PriorityFloat (F : Type) extends FeeFloat F where
  sqrt : F → F
  /-- `f64::min`. -/
  minimum : F → F → F

/-- Exact rational arithmetic; the root is exact for squares. -/
instance : PriorityFloat ℚ where
  sqrt q := (Nat.sqrt ⌊q⌋₊ : ℚ)
  minimum := min

/-- `TransactionOrdering`. -/
structure TransactionOrdering (F : Type) where
  feePriorityWeight : F
  agePriorityWeight : F
  sizePriorityWeight : F

namespace TransactionOrdering

open FloatOps PriorityFloat

variable {F : Type} [PriorityFloat F]

/-- `TransactionOrdering::default`. -/
def default : TransactionOrdering F where
  feePriorityWeight := lit (7 / 10)
  agePriorityWeight := lit (2 / 10)
  sizePriorityWeight := lit (1 / 10)

/-- `TransactionOrdering::calculate_priority`. -/
def calculatePriority (ordering : TransactionOrdering F) (fee : U128) (size : ℕ)
    (ageSecs : UInt64) : F :=
  let feeScore := ofU128 fee / ofU128 (BitVec.ofNat 128 size)
  let ageScore := minimum (ofU128 (BitVec.ofNat 128 ageSecs.toNat) / lit 60) (lit 100)
  let sizeScore := lit 1 / sqrt (ofU128 (BitVec.ofNat 128 size))
  feeScore * ordering.feePriorityWeight + ageScore * ordering.agePriorityWeight +
    sizeScore * ordering.sizePriorityWeight

/-- The comparison of `sort_by_nonce` does not ask for `b` before `a`:
`b_priority.partial_cmp(&a_priority).unwrap_or(Ordering::Equal)` is not `Greater`. -/
def Precedes (ordering : TransactionOrdering F) (a b : Transaction) : Prop :=
  FeeFloat.less (ordering.calculatePriority a.fee a.size 0)
    (ordering.calculatePriority b.fee b.size 0) = false

instance (ordering : TransactionOrdering F) : DecidableRel ordering.Precedes :=
  fun _ _ => inferInstanceAs (Decidable (_ = false))

/-- `TransactionOrdering::sort_by_nonce`.  The loop over the groups sorts copies of the
transactions, which are dropped after it. -/
def sortByNonce (ordering : TransactionOrdering F) (txs : List Transaction) : List Transaction :=
  txs.insertionSort ordering.Precedes

/-- The chains of `resolve_dependencies` before they are sorted. -/
def groupBySender (txs : List Transaction) : Map Address (List Transaction) :=
  Map.accumulate Transaction.from [] (fun chain tx => chain ++ [tx]) ∅ txs

/-- `TransactionOrdering::resolve_dependencies`; the map lists its chains in any order. -/
def resolveDependencies (order : Listing (List Transaction)) (txs : List Transaction) :
    List (List Transaction) :=
  order.list ((groupBySender txs).toPairs.map fun e =>
    e.2.insertionSort fun a b => a.nonce ≤ b.nonce)

/-! ## What is asked for -/

/-- The nonces of every sender are in order. -/
def InNonceOrder (txs : List Transaction) : Prop :=
  txs.Pairwise fun a b => a.from = b.from → a.nonce ≤ b.nonce

/-- The transactions in one sorted chain for each sender. -/
structure Chains (txs : List Transaction) (chains : List (List Transaction)) : Prop where
  all : chains.flatten.Perm txs
  sender : ∀ chain ∈ chains, ∃ a ∈ txs.map Transaction.from,
    chain.Perm (txs.filter fun tx => tx.from = a)
  distinct : chains.Pairwise fun c d => ∀ x ∈ c, ∀ y ∈ d, x.from ≠ y.from
  sorted : ∀ chain ∈ chains, chain.Pairwise fun a b => a.nonce ≤ b.nonce

/-- What the two functions are for. -/
structure NonceOrdered (ordering : TransactionOrdering F) (order : Listing (List Transaction))
    (txs : List Transaction) : Prop where
  perm : (ordering.sortByNonce txs).Perm txs
  ordered : InNonceOrder (ordering.sortByNonce txs)
  chains : Chains txs (resolveDependencies order txs)

/-- The priorities of every sender have the order of the nonces; among equal priorities the
transactions have it. -/
structure FollowsNonces (ordering : TransactionOrdering F) (txs : List Transaction) : Prop where
  smaller : ∀ a ∈ txs, ∀ b ∈ txs, a.from = b.from → a.nonce < b.nonce → ordering.Precedes a b
  equal : txs.Pairwise fun a b => a.from = b.from → ordering.Precedes a b →
    ordering.Precedes b a → a.nonce ≤ b.nonce

/-! ## The chains -/

/-- The groups are those of the senders. -/
theorem mem_groupBySender (txs : List Transaction) (a : Address) (chain : List Transaction) :
    (a, chain) ∈ (groupBySender txs).toPairs ↔
      a ∈ txs.map Transaction.from ∧ chain = txs.filter fun tx => tx.from = a := by
  have hfold : ∀ l acc : List Transaction,
      l.foldl (fun chain tx => chain ++ [tx]) acc = acc ++ l := by
    intro l
    induction l with
    | nil => exact fun acc => (List.append_nil acc).symm
    | cons tx l ih =>
        intro acc
        rw [List.foldl_cons, ih, List.append_assoc, List.singleton_append]
  unfold groupBySender
  rw [Map.mem_toPairs_accumulate, hfold, List.nil_append]

/-- The chain of a sender. -/
def chainOf (txs : List Transaction) (a : Address) : List Transaction :=
  (txs.filter fun tx => tx.from = a).insertionSort fun a b => a.nonce ≤ b.nonce

instance : Std.Total fun a b : Transaction => a.nonce ≤ b.nonce :=
  ⟨fun a b => UInt64.le_total a.nonce b.nonce⟩

instance : IsTrans Transaction fun a b => a.nonce ≤ b.nonce :=
  ⟨fun _ _ _ => UInt64.le_trans⟩

theorem mem_chainOf {txs : List Transaction} {a : Address} {tx : Transaction} :
    tx ∈ chainOf txs a ↔ tx ∈ txs ∧ tx.from = a := by
  unfold chainOf
  rw [(List.perm_insertionSort _ _).mem_iff, List.mem_filter, decide_eq_true_eq]

/-- The chains of the senders, up to the order of the chains. -/
theorem resolveDependencies_perm (order : Listing (List Transaction)) (txs : List Transaction) :
    (resolveDependencies order txs).Perm ((groupBySender txs).keys.map (chainOf txs)) := by
  have hmap : ((groupBySender txs).toPairs.map fun e =>
      e.2.insertionSort fun a b => a.nonce ≤ b.nonce) =
        (groupBySender txs).keys.map (chainOf txs) := by
    rw [← Map.map_fst_toPairs, List.map_map]
    apply List.map_congr_left
    rintro ⟨a, group⟩ he
    rw [((mem_groupBySender txs a group).mp he).2]
    rfl
  rw [← hmap]
  exact order.perm _

theorem mem_keys_groupBySender {txs : List Transaction} {a : Address} :
    a ∈ (groupBySender txs).keys ↔ a ∈ txs.map Transaction.from := by
  have hmem := Map.mem_accumulate Transaction.from [] (fun chain tx => chain ++ [tx]) ∅ txs a
  rw [or_iff_right (AList.notMem_empty a)] at hmem
  exact hmem

/-- `resolve_dependencies` gives one sorted chain for each sender. -/
theorem chains_resolveDependencies (order : Listing (List Transaction))
    (txs : List Transaction) : Chains txs (resolveDependencies order txs) := by
  have hperm := resolveDependencies_perm order txs
  have hkeys : (groupBySender txs).keys.Nodup := AList.keys_nodup _
  have hchain : ∀ chain ∈ resolveDependencies order txs,
      ∃ a ∈ txs.map Transaction.from, chain = chainOf txs a := by
    intro chain hmem
    obtain ⟨a, ha, rfl⟩ := List.mem_map.mp (hperm.mem_iff.mp hmem)
    exact ⟨a, mem_keys_groupBySender.mp ha, rfl⟩
  refine ⟨?_, fun chain hmem => ?_, ?_, fun chain hmem => ?_⟩
  · have hgroups : ((groupBySender txs).keys.flatMap (chainOf txs)).Perm txs :=
      (List.Perm.flatMap_left _ fun a _ => List.perm_insertionSort _ _).trans
        (List.flatMap_filter_perm Transaction.from hkeys txs fun tx htx =>
          mem_keys_groupBySender.mpr (List.mem_map_of_mem htx))
    rw [List.flatMap_def] at hgroups
    exact hperm.flatten.trans hgroups
  · obtain ⟨a, ha, rfl⟩ := hchain chain hmem
    exact ⟨a, ha, List.perm_insertionSort _ _⟩
  · have hdistinct : ((groupBySender txs).keys.map (chainOf txs)).Pairwise
        fun c d => ∀ x ∈ c, ∀ y ∈ d, x.from ≠ y.from := by
      rw [List.pairwise_map]
      refine hkeys.imp fun hne x hx y hy heq => hne ?_
      rw [← (mem_chainOf.mp hx).2, heq, (mem_chainOf.mp hy).2]
    exact (hperm.pairwise_iff fun h x hx y hy => (h y hy x hx).symm).mpr hdistinct
  · obtain ⟨a, -, rfl⟩ := hchain chain hmem
    exact List.pairwise_insertionSort _ _

/-! ## The sorted transactions -/

section Sorted

variable (ordering : TransactionOrdering F)

theorem sortByNonce_perm (txs : List Transaction) : (ordering.sortByNonce txs).Perm txs :=
  List.perm_insertionSort _ txs

variable [Std.Total ordering.Precedes] [IsTrans Transaction ordering.Precedes]

/-- Two members of a list in some order. -/
theorem related_of_pairwise {α : Type} {r : α → α → Prop} {l : List α} (h : l.Pairwise r)
    {a b : α} (ha : a ∈ l) (hb : b ∈ l) (hne : a ≠ b) : r a b ∨ r b a := by
  have hsymm : Std.Symm fun x y => r x y ∨ r y x := ⟨fun _ _ => Or.symm⟩
  have heither : l.Pairwise fun x y => r x y ∨ r y x := h.imp Or.inl
  exact heither.forall ha hb hne

theorem InNonceOrder.followsNonces {txs : List Transaction}
    (h : InNonceOrder (ordering.sortByNonce txs)) : FollowsNonces ordering txs := by
  have hperm := ordering.sortByNonce_perm txs
  refine ⟨fun a ha b hb hsender hnonce => ?_, ?_⟩
  · have hboth : (ordering.sortByNonce txs).Pairwise fun x y => ordering.Precedes x y ∧
        (x.from = y.from → x.nonce ≤ y.nonce) :=
      (List.pairwise_insertionSort ordering.Precedes txs).and h
    have hne : a ≠ b := by
      rintro rfl
      exact UInt64.lt_irrefl _ hnonce
    rcases related_of_pairwise hboth (hperm.mem_iff.mpr ha) (hperm.mem_iff.mpr hb) hne with
      hab | hba
    · exact hab.1
    · exact absurd (hba.2 hsender.symm) (UInt64.not_le.mpr hnonce)
  · rw [List.pairwise_iff_forall_sublist]
    intro a b hsub hsender hab _
    exact List.pairwise_iff_forall_sublist.mp h
      (List.pair_sublist_insertionSort hab hsub) hsender

theorem FollowsNonces.inNonceOrder {txs : List Transaction} (h : FollowsNonces ordering txs) :
    InNonceOrder (ordering.sortByNonce txs) := by
  have hperm := ordering.sortByNonce_perm txs
  unfold InNonceOrder
  rw [List.pairwise_iff_forall_sublist]
  intro a b hsub hsender
  by_contra hnot
  have hnonce : b.nonce < a.nonce := UInt64.not_le.mp hnot
  have hmem := hsub.subset
  have ha : a ∈ txs := hperm.mem_iff.mp (hmem (List.mem_cons_self))
  have hb : b ∈ txs := hperm.mem_iff.mp (hmem (List.mem_cons_of_mem _ (List.mem_cons_self)))
  have hba : ordering.Precedes b a := h.smaller b hb a ha hsender.symm hnonce
  have hab : ordering.Precedes a b := List.pairwise_iff_forall_sublist.mp
    (List.pairwise_insertionSort ordering.Precedes txs) hsub
  -- the two have equal priorities, so sorting has left them and their copies in their places
  set p : Transaction → Bool := fun tx => decide (tx = a ∨ tx = b) with hp
  have hplaces : (ordering.sortByNonce txs).filter p = txs.filter p := by
    apply List.filter_insertionSort
    apply List.pairwise_of_forall_mem_list
    intro x hx y hy
    have hself : ∀ tx, ordering.Precedes tx tx := fun tx =>
      (Std.Total.total (r := ordering.Precedes) tx tx).elim id id
    have hx' : x = a ∨ x = b := of_decide_eq_true (p := x = a ∨ x = b) (List.mem_filter.mp hx).2
    have hy' : y = a ∨ y = b := of_decide_eq_true (p := y = a ∨ y = b) (List.mem_filter.mp hy).2
    rcases hx' with rfl | rfl <;> rcases hy' with rfl | rfl
    · exact hself _
    · exact hab
    · exact hba
    · exact hself _
  have hkeep : [a, b].Sublist (txs.filter p) := by
    rw [← hplaces]
    have hfilter := hsub.filter p
    have hself : [a, b].filter p = [a, b] := by
      simp [hp]
    rwa [hself] at hfilter
  exact hnot (List.pairwise_iff_forall_sublist.mp h.equal (hkeep.trans List.filter_sublist)
    hsender hab hba)

/-- **When the nonces come out in order**: if the priorities follow them. -/
theorem nonceOrdered_iff (order : Listing (List Transaction)) (txs : List Transaction) :
    NonceOrdered ordering order txs ↔ FollowsNonces ordering txs := by
  constructor
  · intro h
    exact InNonceOrder.followsNonces ordering h.ordered
  · intro h
    exact ⟨ordering.sortByNonce_perm txs, h.inNonceOrder ordering,
      chains_resolveDependencies order txs⟩

end Sorted

end TransactionOrdering

/-! ## A later nonce that pays more -/

section Example

open TransactionOrdering

/-- The transaction of a sender with 121 bytes. -/
def pricedTransfer (fee : U128) (nonce : UInt64) : Transaction :=
  ⟨Vector.replicate 32 1, Vector.replicate 32 2, 10, fee, nonce, [0], 0⟩

/-- The default weights over exact arithmetic. -/
def exactOrdering : TransactionOrdering ℚ := TransactionOrdering.default

instance : Std.Total exactOrdering.Precedes where
  total a b := by
    unfold Precedes
    simp only [FeeFloat.less, decide_eq_false_iff_not, not_lt]
    exact le_total _ _

instance : IsTrans Transaction exactOrdering.Precedes where
  trans a b c := by
    unfold Precedes
    simp only [FeeFloat.less, decide_eq_false_iff_not, not_lt]
    exact fun hab hbc => hbc.trans hab

/-- The chains in the order of the map. -/
def mapOrder : Listing (List Transaction) := ⟨id, List.Perm.refl⟩

/-- The second nonce pays more and is put first. -/
theorem later_nonce_first :
    exactOrdering.sortByNonce [pricedTransfer 10 0, pricedTransfer 20 1] =
        [pricedTransfer 20 1, pricedTransfer 10 0] ∧
      ¬ NonceOrdered exactOrdering mapOrder [pricedTransfer 10 0, pricedTransfer 20 1] := by
  have hsort : exactOrdering.sortByNonce [pricedTransfer 10 0, pricedTransfer 20 1] =
      [pricedTransfer 20 1, pricedTransfer 10 0] := by decide +kernel
  refine ⟨hsort, fun h => ?_⟩
  have hordered := h.ordered
  rw [hsort, InNonceOrder, List.pairwise_pair] at hordered
  exact absurd (hordered rfl) (by decide)

/-- The first nonce pays more. -/
theorem falling_fees_in_order :
    NonceOrdered exactOrdering mapOrder [pricedTransfer 10 1, pricedTransfer 20 0] := by
  refine (nonceOrdered_iff exactOrdering mapOrder _).mpr ⟨?_, ?_⟩
  · decide +kernel
  · decide +kernel

end Example
