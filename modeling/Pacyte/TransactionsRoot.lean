/-
# The two computations of a transactions root

`BlockBody::transactions_root` and `MerkleTree::new` build the same tree in two loops
(`BlockBody.transactionsRoot_eq_new`).  An odd level is padded by its last hash, so that lists of
different lengths may share a root; lists of one length do not, as long as no pairs that are
hashed collide (`BlockBody.transactionsRoot_binds`).
-/
import Pacyte.MerkleTree
import Pacyte.BlockIntegrity

section Roots

variable [Primitives]

/-- The hashes of the transactions of a body. -/
def BlockBody.hashes (body : BlockBody) : List Hash := body.transactions.map Transaction.hash

theorem BlockBody.hashes_ne_nil {body : BlockBody} (h : body.transactions ≠ []) :
    body.hashes ≠ [] := mt List.map_eq_nil_iff.mp h

/-- The root of a body is the root of the tree over its hashes. -/
theorem BlockBody.transactionsRoot_eq_new (body : BlockBody) :
    body.transactionsRoot = (MerkleTree.new body.hashes).root := by
  by_cases h : body.transactions = []
  · rw [BlockBody.transactionsRoot, BlockBody.hashes, h]
    rfl
  · have htop := MerkleTree.head?_top (BlockBody.hashes_ne_nil h)
    rw [BlockBody.hashes, body.climb_eq h] at htop
    exact Option.some.inj htop

/-- Two trees over lists of one length have the same root only if the lists are the same. -/
theorem MerkleTree.root_injective {leaves leaves' : List Hash}
    (hlen : leaves.length = leaves'.length)
    (hsep : HashTree.Separates hashMerklePair (MerkleTree.hashedPairs leaves)
      (MerkleTree.hashedPairs leaves'))
    (hroot : (MerkleTree.new leaves).root = (MerkleTree.new leaves').root) : leaves = leaves' := by
  by_cases hnil : leaves = []
  · rw [hnil, List.length_nil] at hlen
    rw [hnil, List.length_eq_zero_iff.mp hlen.symm]
  · have hnil' : leaves' ≠ [] := by
      rw [← List.length_pos_iff, ← hlen, List.length_pos_iff]
      exact hnil
    unfold MerkleTree.hashedPairs at hsep
    have hone := MerkleTree.length_top hnil
    have hone' := MerkleTree.length_top hnil'
    have htop := MerkleTree.head?_top hnil
    have htop' := MerkleTree.head?_top hnil'
    rw [← hlen] at hsep hone' htop'
    apply HashTree.climb_injective hashMerklePair leaves.length leaves leaves' hlen hsep
    obtain ⟨top, heq⟩ := List.length_eq_one_iff.mp hone
    obtain ⟨top', heq'⟩ := List.length_eq_one_iff.mp hone'
    rw [heq] at htop ⊢
    rw [heq'] at htop' ⊢
    rw [Option.some.inj htop, Option.some.inj htop', hroot]

/-- No two transactions of two lists have the same hash. -/
def DistinctHashes (txs txs' : List Transaction) : Prop :=
  ∀ tx ∈ txs, ∀ tx' ∈ txs', tx.hash = tx'.hash → tx = tx'

instance (txs txs' : List Transaction) : Decidable (DistinctHashes txs txs') :=
  inferInstanceAs (Decidable (∀ tx ∈ txs, ∀ tx' ∈ txs', _ → _))

theorem map_hash_injective {txs txs' : List Transaction} (hdistinct : DistinctHashes txs txs')
    (h : txs.map Transaction.hash = txs'.map Transaction.hash) : txs = txs' := by
  induction txs generalizing txs' with
  | nil => exact (List.map_eq_nil_iff.mp h.symm).symm
  | cons tx txs ih =>
      cases txs' with
      | nil => cases h
      | cons tx' txs' =>
          rw [List.map_cons, List.map_cons, List.cons.injEq] at h
          have hhead := hdistinct tx List.mem_cons_self tx' List.mem_cons_self h.1
          have hrest := ih (fun t ht t' ht' =>
            hdistinct t (List.mem_cons_of_mem _ ht) t' (List.mem_cons_of_mem _ ht')) h.2
          rw [hhead, hrest]

/-- **The two roots agree and bind the list.**  The root of a body is the one of the tree over its
hashes.  Two bodies of one length with the same root have the same transactions, in the same
order, if neither pairs nor transactions collide; so have the bodies of two blocks with the same
header that match it, whose lengths agree up to the 32 bits of the count. -/
theorem BlockBody.transactionsRoot_binds :
    (∀ body : BlockBody, body.transactionsRoot
        = (MerkleTree.new (body.transactions.map Transaction.hash)).root) ∧
      ∀ body body' : BlockBody,
        HashTree.Separates hashMerklePair (MerkleTree.hashedPairs body.hashes)
          (MerkleTree.hashedPairs body'.hashes) →
        DistinctHashes body.transactions body'.transactions →
        (body.transactions.length = body'.transactions.length →
          body.transactionsRoot = body'.transactionsRoot →
          body.transactions = body'.transactions) ∧
        ∀ header : BlockHeader, (Block.mk header body).headerMatchesBody →
          (Block.mk header body').headerMatchesBody →
          body.transactions.length % 2 ^ 32 = body'.transactions.length % 2 ^ 32 ∧
            (body.transactions.length = body'.transactions.length →
              body.transactions = body'.transactions) := by
  refine ⟨BlockBody.transactionsRoot_eq_new, fun body body' hsep hdistinct => ?_⟩
  have hbind : body.transactions.length = body'.transactions.length →
      body.transactionsRoot = body'.transactionsRoot →
      body.transactions = body'.transactions := by
    intro hlen hroot
    rw [transactionsRoot_eq_new, transactionsRoot_eq_new] at hroot
    have hhashes := MerkleTree.root_injective
      (by rw [BlockBody.hashes, BlockBody.hashes, List.length_map, List.length_map, hlen])
      hsep hroot
    exact map_hash_injective hdistinct hhashes
  refine ⟨hbind, fun header h h' => ⟨?_, fun hlen => hbind hlen (h.1.symm.trans h'.1)⟩⟩
  have hcount := congrArg UInt32.toNat (h.2.2.symm.trans h'.2.2)
  exact hcount

end Roots

/-! ## Two transactions -/

section Example

open Sample

/-- A body with two transfers. -/
def Sample.twoTransfers : BlockBody := ⟨[validTransfer 1, validTransfer 2]⟩

/-- A block that was built with them matches its header. -/
theorem BlockBody.transactionsRoot_binds_two :
    let block := Block.new 1 zero32 twoTransfers.transactions zero32 7
    block.body.transactions = twoTransfers.transactions ∧
      block.body.transactions.length % 2 ^ 32 = twoTransfers.transactions.length % 2 ^ 32 := by
  intro block
  have hbinds := BlockBody.transactionsRoot_binds.2 block.body twoTransfers
    (by decide +kernel) (by decide +kernel)
  have hmatch : block.headerMatchesBody := by decide +kernel
  exact ⟨hbinds.1 rfl rfl, (hbinds.2 block.header hmatch hmatch).1⟩

end Example
