/-
# What a block hash fixes

The hash of a block covers its header only, and `validate_block` never compares
the header with the body: it gives the same answer whatever root, count and size
the header claims (`validateBlock_withSummary`).  The comparison is made in
`Block::validate`, which the engine does not call.

For blocks as `Block::new` builds them the header does match, and then the hash
fixes the transactions, as long as SHA3-256 has no collision among the messages
that were hashed and the 32-bit count has not wrapped around (the number of
leaves has to be known, since an odd last leaf is counted twice).
-/
import Pacyte.CommitCertificate
import Pacyte.Conservation

section Integrity

variable [Primitives]

/-! ## Messages -/

/-- The messages hashed for a transaction. -/
def Transaction.hashed (tx : Transaction) : List Bytes := [tx.message, tx.sigMessage]

/-- The messages hashed for the header and the body of a block. -/
def Block.hashed (block : Block) : List Bytes :=
  let hashes := block.body.transactions.map Transaction.hash
  block.header.message :: block.body.transactions.flatMap Transaction.hashed ++
    (HashTree.climbPairs hashMerklePair hashes.length hashes).map
      fun p => p.1.toList ++ p.2.toList

/-- SHA3-256 tells the messages of the first list from those of the second. -/
def CollisionFree (ms ns : List Bytes) : Prop :=
  ∀ m ∈ ms, ∀ n ∈ ns, Primitives.sha3_256 m = Primitives.sha3_256 n → m = n

instance (ms ns : List Bytes) : Decidable (CollisionFree ms ns) :=
  inferInstanceAs (Decidable (∀ m ∈ ms, ∀ n ∈ ns, _ → _))

omit [Primitives] in
/-- The signed bytes determine all the fields but the signature. -/
theorem Transaction.sigMessage_inj {tx tx' : Transaction} (h : tx.sigMessage = tx'.sigMessage) :
    tx.from = tx'.from ∧ tx.to = tx'.to ∧ tx.amount = tx'.amount ∧ tx.fee = tx'.fee ∧
      tx.nonce = tx'.nonce ∧ tx.timestamp = tx'.timestamp := by
  simp only [Transaction.sigMessage, List.append_assoc] at h
  obtain ⟨hfrom, h⟩ := Vector.toList_append_inj h
  obtain ⟨hto, h⟩ := Vector.toList_append_inj h
  obtain ⟨hamount, h⟩ := leBytes_append_inj tx.amount.isLt tx'.amount.isLt h
  obtain ⟨hfee, h⟩ := leBytes_append_inj tx.fee.isLt tx'.fee.isLt h
  obtain ⟨hnonce, h⟩ := leBytes_append_inj tx.nonce.toNat_lt tx'.nonce.toNat_lt h
  have htime := leBytes_injective 8 _ _ tx.timestamp.toNat_lt tx'.timestamp.toNat_lt h
  exact ⟨hfrom, hto, BitVec.eq_of_toNat_eq hamount, BitVec.eq_of_toNat_eq hfee,
    UInt64.toNat_inj.mp hnonce, UInt64.toNat_inj.mp htime⟩

/-- The hash of a transaction determines it. -/
theorem Transaction.hash_inj {tx tx' : Transaction} (hfree : CollisionFree tx.hashed tx'.hashed)
    (h : tx.hash = tx'.hash) : tx = tx' := by
  have hmessage : tx.message = tx'.message :=
    hfree _ (by simp [Transaction.hashed]) _ (by simp [Transaction.hashed]) h
  obtain ⟨hsig, hsignature⟩ := Vector.toList_append_inj hmessage
  have hbytes : tx.sigMessage = tx'.sigMessage :=
    hfree _ (by simp [Transaction.hashed]) _ (by simp [Transaction.hashed]) hsig
  obtain ⟨h₁, h₂, h₃, h₄, h₅, h₆⟩ := Transaction.sigMessage_inj hbytes
  cases tx
  cases tx'
  simp_all

omit [Primitives] in
/-- The message of a header determines the root and the count. -/
theorem BlockHeader.message_inj {header header' : BlockHeader}
    (h : header.message = header'.message) :
    header.transactionsRoot = header'.transactionsRoot ∧
      header.transactionCount = header'.transactionCount := by
  simp only [BlockHeader.message, List.append_assoc] at h
  obtain ⟨-, h⟩ := leBytes_append_inj header.height.toNat_lt header'.height.toNat_lt h
  obtain ⟨-, h⟩ := Vector.toList_append_inj h
  obtain ⟨hroot, h⟩ := Vector.toList_append_inj h
  obtain ⟨-, h⟩ := Vector.toList_append_inj h
  obtain ⟨-, h⟩ := leBytes_append_inj header.timestamp.toNat_lt header'.timestamp.toNat_lt h
  obtain ⟨-, h⟩ := Vector.toList_append_inj h
  obtain ⟨hcount, -⟩ := leBytes_append_inj header.transactionCount.toNat_lt
    header'.transactionCount.toNat_lt h
  exact ⟨hroot, UInt32.toNat_inj.mp hcount⟩

/-! ## The root and the transactions -/

/-- The root of a nonempty body is what is left of the climb. -/
theorem BlockBody.climb_eq (body : BlockBody) (h : body.transactions ≠ []) :
    HashTree.climb hashMerklePair (body.transactions.map Transaction.hash).length
      (body.transactions.map Transaction.hash) = [body.transactionsRoot] := by
  have hne : body.transactions.map Transaction.hash ≠ [] := by simpa using h
  have hlen := HashTree.length_climb_le_one hashMerklePair
    (body.transactions.map Transaction.hash).length (body.transactions.map Transaction.hash)
    (Nat.le_succ _)
  have hclimb := HashTree.climb_ne_nil hashMerklePair
    (body.transactions.map Transaction.hash).length hne
  rw [BlockBody.transactionsRoot, if_neg (by simpa using h)]
  dsimp only
  match hc : HashTree.climb hashMerklePair (body.transactions.map Transaction.hash).length
    (body.transactions.map Transaction.hash) with
  | [] => exact absurd hc hclimb
  | [x] => rfl
  | x :: y :: rest =>
      rw [hc] at hlen
      simp at hlen

/-- Lists of transactions with equal hashes, one by one, are equal. -/
theorem Transaction.map_hash_inj (txs txs' : List Transaction)
    (hfree : CollisionFree (txs.flatMap Transaction.hashed) (txs'.flatMap Transaction.hashed))
    (h : txs.map Transaction.hash = txs'.map Transaction.hash) : txs = txs' := by
  induction txs generalizing txs' with
  | nil => exact (List.map_eq_nil_iff.mp h.symm).symm
  | cons tx rest ih =>
      cases txs' with
      | nil => cases h
      | cons tx' rest' =>
          rw [List.map_cons, List.map_cons, List.cons.injEq] at h
          rw [List.flatMap_cons, List.flatMap_cons] at hfree
          have hhead : tx = tx' := Transaction.hash_inj (fun m hm n hn =>
            hfree m (List.mem_append_left _ hm) n (List.mem_append_left _ hn)) h.1
          have hrest : rest = rest' := ih rest' (fun m hm n hn =>
            hfree m (List.mem_append_right _ hm) n (List.mem_append_right _ hn)) h.2
          rw [hhead, hrest]

/-- Bodies of one size with the same root have the same transactions. -/
theorem BlockBody.transactionsRoot_inj {block block' : Block}
    (hfree : CollisionFree block.hashed block'.hashed)
    (hlen : block.body.transactions.length = block'.body.transactions.length)
    (h : block.body.transactionsRoot = block'.body.transactionsRoot) :
    block.body.transactions = block'.body.transactions := by
  by_cases hnil : block.body.transactions = []
  · rw [hnil, List.length_nil] at hlen
    rw [hnil, List.length_eq_zero_iff.mp hlen.symm]
  · have hnil' : block'.body.transactions ≠ [] := by
      rw [← List.length_pos_iff, ← hlen, List.length_pos_iff]
      exact hnil
    have hclimb := (block.body.climb_eq hnil).trans
      ((congrArg (fun r => [r]) h).trans (block'.body.climb_eq hnil').symm)
    have hhashes : block.body.transactions.map Transaction.hash
        = block'.body.transactions.map Transaction.hash := by
      refine HashTree.climb_injective hashMerklePair
        (block.body.transactions.map Transaction.hash).length _ _ (by simpa using hlen) ?_ ?_
      · -- two pairs with one hash were hashed as one message
        rintro ⟨a, b⟩ hp ⟨c, d⟩ hq heq
        have hmessage : a.toList ++ b.toList = c.toList ++ d.toList := by
          refine hfree _ ?_ _ ?_ heq
          · exact List.mem_append_right _ (List.mem_map.mpr ⟨(a, b), hp, rfl⟩)
          · refine List.mem_append_right _ (List.mem_map.mpr ⟨(c, d), ?_, rfl⟩)
            rw [List.length_map, hlen] at hq
            rw [List.length_map]
            exact hq
        obtain ⟨hac, hbd⟩ := List.append_inj hmessage (by simp)
        rw [Vector.toList_inj.mp hac, Vector.toList_inj.mp hbd]
      · rw [hclimb, List.length_map, List.length_map, hlen]
    refine Transaction.map_hash_inj _ _ (fun m hm n hn => ?_) hhashes
    exact hfree m (List.mem_append_left _ (List.mem_cons_of_mem _ hm)) n
      (List.mem_append_left _ (List.mem_cons_of_mem _ hn))

/-! ## Blocks as they are built -/

/-- `Block::set_state_root`. -/
def Block.setStateRoot (root : Hash) (block : Block) : Block :=
  { block with header := { block.header with stateRoot := root } }

/-- `Block::sign`. -/
def Block.sign (signature : Signature) (block : Block) : Block :=
  { block with header := { block.header with signature := signature } }

/-- The block was made by `Block::new`; its state root and its signature may have
been set afterwards. -/
def Block.Built (block : Block) : Prop :=
  ∃ height previousHash transactions proposer now root signature,
    block = ((Block.new height previousHash transactions proposer now).setStateRoot root).sign
      signature

/-- The header matches the body exactly in blocks that `Block::new` has made. -/
theorem Block.headerMatchesBody_iff_built (block : Block) :
    block.headerMatchesBody ↔ block.Built := by
  constructor
  · rintro ⟨hroot, hsize, hcount⟩
    refine ⟨block.header.height, block.header.previousHash, block.body.transactions,
      block.header.proposer, block.header.timestamp, block.header.stateRoot,
      block.header.signature, ?_⟩
    obtain ⟨header, body⟩ := block
    cases header
    cases body
    dsimp only at hroot hsize hcount
    subst hroot hsize hcount
    rfl
  · rintro ⟨height, previousHash, transactions, proposer, now, root, signature, rfl⟩
    exact ⟨rfl, rfl, rfl⟩

/-- The hash of a built block fixes its transactions. -/
theorem Block.transactions_eq_of_hash_eq {block block' : Block} (hbuilt : block.Built)
    (hbuilt' : block'.Built) (hlen : block.body.transactions.length < 2 ^ 32)
    (hlen' : block'.body.transactions.length < 2 ^ 32)
    (hfree : CollisionFree block.hashed block'.hashed) (h : block.hash = block'.hash) :
    block.body.transactions = block'.body.transactions := by
  obtain ⟨hroot, -, hcount⟩ := block.headerMatchesBody_iff_built.mpr hbuilt
  obtain ⟨hroot', -, hcount'⟩ := block'.headerMatchesBody_iff_built.mpr hbuilt'
  have hmessage : block.header.message = block'.header.message :=
    hfree _ (by simp [Block.hashed]) _ (by simp [Block.hashed]) h
  obtain ⟨hroots, hcounts⟩ := BlockHeader.message_inj hmessage
  rw [hroot, hroot'] at hroots
  rw [hcount, hcount'] at hcounts
  refine BlockBody.transactionsRoot_inj hfree ?_ hroots
  have hnat := congrArg UInt32.toNat hcounts
  rwa [UInt32.toNat_ofNat_of_lt' hlen, UInt32.toNat_ofNat_of_lt' hlen'] at hnat

/-! ## What the engine accepts -/

/-- The block with another root, count and size in its header. -/
def Block.withSummary (root : Hash) (count size : UInt32) (block : Block) : Block :=
  { block with header := { block.header with
      transactionsRoot := root, transactionCount := count, blockSize := size } }

namespace Engine

variable {σ μ ν : Type} [Storage σ]

/-- `validate_block` does not look at the root, the count and the size. -/
theorem validateBlock_withSummary (root : Hash) (count size : UInt32) (block : Block) :
    (validateBlock (block.withSummary root count size) : Exec PacyteError (Engine σ μ ν) Bool)
      = validateBlock block := rfl

/-- **An accepted block matches its header exactly when it was built as
`Block::new` does.**  The check of the engine is blind to the root, the count and
the size in the header; the header matches the body if and only if the block was
made by `Block::new`; and for two such blocks, accepted by any two nodes, with
fewer than 2^32 transactions each and no collision of SHA3-256 among the messages
hashed for them, equal hashes mean equal transactions. -/
theorem accepted_integrity_iff (e e' : Engine σ μ ν) (block block' : Block)
    (h : (validateBlock block e).1 = .ok true) (h' : (validateBlock block' e').1 = .ok true) :
    (∀ root count size, (validateBlock (block.withSummary root count size) e).1 = .ok true ∧
      (validateBlock (block'.withSummary root count size) e').1 = .ok true) ∧
    (block.headerMatchesBody ↔ block.Built) ∧
    (block.Built → block'.Built → block.body.transactions.length < 2 ^ 32 →
      block'.body.transactions.length < 2 ^ 32 → CollisionFree block.hashed block'.hashed →
      block.hash = block'.hash → block.body.transactions = block'.body.transactions) := by
  refine ⟨fun root count size => ⟨?_, ?_⟩, block.headerMatchesBody_iff_built,
    Block.transactions_eq_of_hash_eq⟩
  · rw [validateBlock_withSummary]
    exact h
  · rw [validateBlock_withSummary]
    exact h'

end Engine

end Integrity

/-! ## One hash, two bodies -/

section Example

open scoped Sample
open Sample

/-- A transfer that passes the basic checks at time 7. -/
def Sample.validTransfer (amount : U128) : Transaction where
  «from» := sampleAddress 1
  «to» := sampleAddress 2
  amount := amount
  fee := 0
  nonce := 0
  signature := [1]
  timestamp := 7

/-- The header of an empty block with any transactions attached to it. -/
def Sample.attached (transactions : List Transaction) : Block :=
  { Block.new 1 blockOne.hash [] zero32 7 with body := ⟨transactions⟩ }

/-- The node accepts the header of an empty block with a transfer attached; two
such blocks have one hash and different transactions. -/
theorem one_hash_two_bodies :
    let e := (Node.boot (engine 1 [1] 7)).engine
    let block := attached [validTransfer 5]
    let block' := attached [validTransfer 6]
    (Engine.validateBlock block e).1 = .ok true ∧ (Engine.validateBlock block' e).1 = .ok true ∧
      ¬ block.headerMatchesBody ∧ block.hash = block'.hash ∧
      block.body.transactions ≠ block'.body.transactions := by
  decide +kernel

/-- Two nodes accept one built block with different signatures. -/
theorem built_blocks_agree :
    let e := (Node.boot (engine 1 [1] 7)).engine
    let block := Block.new 1 blockOne.hash [validTransfer 5, validTransfer 6] zero32 7
    let block' := block.sign [1]
    (Engine.validateBlock block e).1 = .ok true ∧ (Engine.validateBlock block' e).1 = .ok true ∧
      block.headerMatchesBody ∧ block.body.transactions = block'.body.transactions := by
  intro e block block'
  have hbuilt : block.Built := ⟨1, blockOne.hash, [validTransfer 5, validTransfer 6], zero32, 7,
    zero32, [], rfl⟩
  have hbuilt' : block'.Built := ⟨1, blockOne.hash, [validTransfer 5, validTransfer 6], zero32, 7,
    zero32, [1], rfl⟩
  have hvalid : (Engine.validateBlock block e).1 = .ok true := by decide +kernel
  have hvalid' : (Engine.validateBlock block' e).1 = .ok true := by decide +kernel
  obtain ⟨-, hiff, heq⟩ := Engine.accepted_integrity_iff e e block block' hvalid hvalid'
  exact ⟨hvalid, hvalid', hiff.mpr hbuilt, heq hbuilt hbuilt' (by decide) (by decide) (by decide +kernel) rfl⟩

end Example
