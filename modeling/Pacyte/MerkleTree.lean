/-
# Merkle trees and their proofs

`MerkleTree` and `MerkleProof` of `src/crypto/merkle.rs`, over any pair-hash function: it is
`hashMerklePair`, with an arbitrary SHA3-256.

The proof that a tree generates for one of its leaves verifies
(`MerkleTree.generateProof_verifies`).  Conversely a proof of the right length that verifies
against the root of a tree is about one of its leaves, the one that its flags spell
(`MerkleProof.verify_sound`), unless a pair that it hashes collides with one of the tree.
-/
import Pacyte.HashPath
import Pacyte.Crypto

open Primitives

section Proofs

variable [Primitives]

/-! ## The code -/

/-- `MerkleTree`. -/
structure MerkleTree where
  levels : List (List Hash)
  leafCount : ℕ
  root : Hash
  deriving DecidableEq

/-- `ProofNode`. -/
structure ProofNode where
  hash : Hash
  isLeftSibling : Bool
  deriving DecidableEq

/-- `MerkleProof`. -/
structure MerkleProof where
  leafIndex : ℕ
  leafHash : Hash
  proofNodes : List ProofNode
  root : Hash
  deriving DecidableEq

namespace MerkleTree

/-- `MerkleTree::new`.  The loop ends, after at most as many levels as there are leaves, with
one hash (`length_top`). -/
def new (leaves : List Hash) : MerkleTree :=
  if leaves.isEmpty then { levels := [[]], leafCount := 0, root := zero32 }
  else
    let currentLevel := HashTree.climb hashMerklePair leaves.length leaves
    { levels := HashTree.rows hashMerklePair leaves.length leaves
      leafCount := leaves.length
      root := (currentLevel.head?).getD zero32 }

/-- The node that `generate_proof` adds for a level; a last odd hash is paired with itself.
`none` stands for an index out of bounds. -/
def proofNode (level : List Hash) (index : ℕ) : Option ProofNode :=
  let isLeft := index % 2 == 0
  let siblingIndex := if isLeft then index + 1 else index - 1
  match level[siblingIndex]? with
  | some hash => some { hash := hash, isLeftSibling := !isLeft }
  | none => level[index]?.map fun hash => { hash := hash, isLeftSibling := false }

/-- The loop of `generate_proof` over the levels below the top. -/
def proofNodes : List (List Hash) → ℕ → Option (List ProofNode)
  | [], _ => some []
  | level :: rest, index => do
    let node ← proofNode level index
    let proof ← proofNodes rest (index / 2)
    return node :: proof

/-- `MerkleTree::generate_proof`. -/
def generateProof (tree : MerkleTree) (leafIndex : ℕ) : Outcome Empty (Option MerkleProof) :=
  if tree.leafCount ≤ leafIndex then .ok none
  else
    match proofNodes tree.levels.dropLast leafIndex,
      (tree.levels.head?).bind fun leaves => leaves[leafIndex]? with
    | some proof, some leafHash =>
        .ok (some
          { leafIndex := leafIndex, leafHash := leafHash, proofNodes := proof, root := tree.root })
    | _, _ => .panic

end MerkleTree

namespace MerkleProof

/-- The hash that `MerkleProof::verify` computes from the leaf. -/
def currentHash (proof : MerkleProof) : Hash :=
  proof.proofNodes.foldl (fun current node =>
    if node.isLeftSibling then hashMerklePair node.hash current
    else hashMerklePair current node.hash) proof.leafHash

/-- `MerkleProof::verify`. -/
def verify (proof : MerkleProof) : Bool := proof.currentHash == proof.root

/-- The siblings of a proof, each with its side. -/
def path (proof : MerkleProof) : List (Hash × Bool) :=
  proof.proofNodes.map fun node => (node.hash, node.isLeftSibling)

/-- The pairs that `MerkleProof::verify` hashes. -/
def hashedPairs (proof : MerkleProof) : List (Hash × Hash) :=
  HashTree.ascendPairs hashMerklePair proof.leafHash proof.path

/-- The flags of a proof, from the leaf to the root. -/
def flags (proof : MerkleProof) : List Bool := proof.proofNodes.map ProofNode.isLeftSibling

end MerkleProof

/-! ## Trees -/

namespace MerkleTree

theorem new_of_ne_nil {leaves : List Hash} (hne : leaves ≠ []) :
    new leaves =
      { levels := HashTree.rows hashMerklePair leaves.length leaves
        leafCount := leaves.length
        root := ((HashTree.climb hashMerklePair leaves.length leaves).head?).getD zero32 } :=
  if_neg (by rwa [List.isEmpty_iff])

/-- One hash is left at the top. -/
theorem length_top {leaves : List Hash} (hne : leaves ≠ []) :
    (HashTree.climb hashMerklePair leaves.length leaves).length = 1 := by
  have hle := HashTree.length_climb_le_one hashMerklePair leaves.length leaves (by omega)
  have hpos := List.length_pos_iff.mpr (HashTree.climb_ne_nil hashMerklePair leaves.length hne)
  omega

/-- The root of a tree is its top. -/
theorem head?_top {leaves : List Hash} (hne : leaves ≠ []) :
    (HashTree.climb hashMerklePair leaves.length leaves).head? = some (new leaves).root := by
  obtain ⟨top, htop⟩ := List.length_eq_one_iff.mp (length_top hne)
  rw [new_of_ne_nil hne, htop]
  rfl

/-- The pairs that `MerkleTree::new` hashes. -/
def hashedPairs (leaves : List Hash) : List (Hash × Hash) :=
  HashTree.climbPairs hashMerklePair leaves.length leaves

/-! ## Generated proofs -/

omit [Primitives] in
/-- The node of a level is the sibling, with its side. -/
theorem proofNode_eq_sibling (level : List Hash) (index : ℕ) :
    proofNode level index
      = (HashTree.sibling level index).map fun s => { hash := s.1, isLeftSibling := s.2 } := by
  unfold proofNode
  dsimp only
  unfold HashTree.sibling
  rcases Nat.mod_two_eq_zero_or_one index with heven | hodd
  · have hbeq : (index % 2 == 0) = true := beq_iff_eq.mpr heven
    rw [hbeq, if_pos heven, if_pos rfl]
    cases level[index + 1]? with
    | none => cases level[index]? <;> rfl
    | some hash => rfl
  · have hbeq : (index % 2 == 0) = false := beq_eq_false_iff_ne.mpr (by omega)
    rw [hbeq, if_neg Bool.false_ne_true, if_neg (by omega : ¬ index % 2 = 0)]
    cases hprev : level[index - 1]? with
    | none =>
        -- the index itself is out of bounds, too
        have hout : level[index]? = none := by
          rw [List.getElem?_eq_none_iff] at hprev ⊢
          omega
        rw [hout]
        rfl
    | some hash => rfl

omit [Primitives] in
/-- The nodes of a generated proof are the siblings on the way to the top. -/
theorem proofNodes_dropLast (levels : List (List Hash)) (index : ℕ) :
    proofNodes levels.dropLast index
      = (HashTree.siblings levels index).map
          (List.map fun s => { hash := s.1, isLeftSibling := s.2 }) := by
  induction levels, index using HashTree.siblings.induct with
  | case1 index => rfl
  | case2 index level => rfl
  | case3 level level' rest index ih =>
      rw [List.dropLast_cons_cons, proofNodes, HashTree.siblings, proofNode_eq_sibling, ih]
      cases HashTree.sibling level index with
      | none => rfl
      | some s => cases HashTree.siblings (level' :: rest) (index / 2) <;> rfl

end MerkleTree

namespace MerkleProof

/-- Verification climbs along the path. -/
theorem currentHash_eq_ascend (proof : MerkleProof) :
    proof.currentHash = HashTree.ascend hashMerklePair proof.leafHash proof.path := by
  obtain ⟨_, leafHash, nodes, _⟩ := proof
  unfold currentHash path
  induction nodes generalizing leafHash with
  | nil => rfl
  | cons node nodes ih =>
      rw [List.foldl_cons, List.map_cons, HashTree.ascend, ← ih]
      unfold HashTree.combined
      cases node.isLeftSibling <;> rfl

omit [Primitives] in
theorem map_snd_path (proof : MerkleProof) : proof.path.map Prod.snd = proof.flags := by
  rw [path, List.map_map]
  rfl

end MerkleProof

/-- **Merkle proofs are complete.**  A proof is generated exactly for the indices of the leaves;
it names the leaf and the root of the tree, and it verifies. -/
theorem MerkleTree.generateProof_verifies (leaves : List Hash) (hne : leaves ≠ []) (i : ℕ) :
    (leaves.length ≤ i ∧ (MerkleTree.new leaves).generateProof i = .ok none) ∨
      ∃ (hi : i < leaves.length) (proof : MerkleProof),
        (MerkleTree.new leaves).generateProof i = .ok (some proof) ∧ proof.leafIndex = i ∧
          proof.leafHash = leaves[i] ∧ proof.root = (MerkleTree.new leaves).root ∧
          proof.verify = true := by
  have hnew := MerkleTree.new_of_ne_nil hne
  by_cases hi : leaves.length ≤ i
  · refine Or.inl ⟨hi, ?_⟩
    rw [hnew]
    exact if_pos hi
  · have hlt := Nat.lt_of_not_le hi
    refine Or.inr ⟨hlt, ?_⟩
    obtain ⟨path, hpath, htop⟩ := HashTree.ascend_siblings hashMerklePair leaves.length leaves
      (by omega) (List.getElem?_eq_getElem hlt)
    have hnodes := MerkleTree.proofNodes_dropLast (MerkleTree.new leaves).levels i
    have hlevels : (MerkleTree.new leaves).levels
        = HashTree.rows hashMerklePair leaves.length leaves := by rw [hnew]
    rw [hlevels, hpath, Option.map_some] at hnodes
    have hleaf : (((MerkleTree.new leaves).levels.head?).bind fun leaves => leaves[i]?)
        = some leaves[i] := by
      rw [hlevels, HashTree.head?_rows]
      exact List.getElem?_eq_getElem hlt
    refine ⟨⟨i, leaves[i], path.map fun s => ⟨s.1, s.2⟩, (MerkleTree.new leaves).root⟩, ?_, rfl,
      rfl, rfl, ?_⟩
    · have hcount : ¬ (MerkleTree.new leaves).leafCount ≤ i := by
        rw [hnew]
        exact hi
      rw [MerkleTree.generateProof, if_neg hcount, hlevels, hnodes, ← hlevels, hleaf]
    · rw [MerkleProof.verify, MerkleProof.currentHash_eq_ascend, beq_iff_eq]
      have hround : (path.map fun s => (⟨s.1, s.2⟩ : ProofNode)).map
          (fun node => (node.hash, node.isLeftSibling)) = path := by
        rw [List.map_map]
        exact List.map_id _
      rw [MerkleProof.path, hround]
      rw [MerkleTree.head?_top hne] at htop
      exact (Option.some.inj htop).symm

/-! ## Proofs that verify -/

/-- **Merkle proofs are sound.**  A proof with arbitrary contents that verifies against the root
of a tree, with one node for every level above the leaves, is about the leaf that its flags
spell.  No pair that is hashed for the proof may collide with one that was hashed for the tree,
which holds in particular for an injective pair-hash function. -/
theorem MerkleProof.verify_sound (leaves : List Hash) (hne : leaves ≠ []) (proof : MerkleProof)
    (hinj : HashTree.Separates hashMerklePair proof.hashedPairs (MerkleTree.hashedPairs leaves))
    (hroot : proof.root = (MerkleTree.new leaves).root)
    (hlen : proof.proofNodes.length + 1 = (MerkleTree.new leaves).levels.length)
    (hverify : proof.verify = true) :
    leaves[HashTree.spelled ((MerkleTree.new leaves).levels.map List.length) proof.flags]?
      = some proof.leafHash := by
  have hlevels : (MerkleTree.new leaves).levels
      = HashTree.rows hashMerklePair leaves.length leaves := by
    rw [MerkleTree.new_of_ne_nil hne]
  rw [hlevels] at hlen ⊢
  rw [MerkleProof.verify, MerkleProof.currentHash_eq_ascend, beq_iff_eq, hroot] at hverify
  rw [← MerkleProof.map_snd_path]
  apply HashTree.getElem?_of_ascend hashMerklePair leaves.length leaves (by omega)
  · rw [MerkleProof.path, List.length_map]
    exact hlen
  · exact hinj
  · rw [hverify]
    exact MerkleTree.head?_top hne

/-! ## Two proofs for one index -/

/-- **What binds the leaf of a proof.**  Two verified proofs for the same root with the same flags
have the same leaf.  The index does not bind it: a verified proof whose first sibling is not its
leaf has a counterpart with the same index, root and number of nodes that verifies, with another
leaf. -/
theorem MerkleProof.leafHash_of_flags :
    (∀ proof proof' : MerkleProof,
        HashTree.Separates hashMerklePair proof.hashedPairs proof'.hashedPairs →
        proof.root = proof'.root → proof.verify = true → proof'.verify = true →
        proof.flags = proof'.flags → proof.leafHash = proof'.leafHash) ∧
      ∀ (proof : MerkleProof) (node : ProofNode) (rest : List ProofNode),
        proof.verify = true → proof.proofNodes = node :: rest → node.hash ≠ proof.leafHash →
        ∃ proof' : MerkleProof, proof'.root = proof.root ∧
          proof'.proofNodes.length = proof.proofNodes.length ∧
          proof'.leafIndex = proof.leafIndex ∧ proof'.verify = true ∧
          proof'.leafHash ≠ proof.leafHash := by
  constructor
  · intro proof proof' hsep hroot hverify hverify' hflags
    rw [MerkleProof.verify, MerkleProof.currentHash_eq_ascend, beq_iff_eq] at hverify hverify'
    rw [← MerkleProof.map_snd_path, ← MerkleProof.map_snd_path] at hflags
    have htop := hverify.trans (hroot.trans hverify'.symm)
    exact (HashTree.ascend_injective hashMerklePair hflags hsep htop).1
  · intro proof node rest hverify hnodes hne
    rw [MerkleProof.verify, MerkleProof.currentHash_eq_ascend, MerkleProof.path, hnodes,
      beq_iff_eq] at hverify
    refine ⟨{ proof with
        leafHash := node.hash
        proofNodes := ⟨proof.leafHash, !node.isLeftSibling⟩ :: rest }, rfl, ?_, rfl, ?_, hne⟩
    · rw [hnodes]
      rfl
    · rw [MerkleProof.verify, MerkleProof.currentHash_eq_ascend, beq_iff_eq]
      exact (HashTree.ascend_swap hashMerklePair _ _ _ _).trans hverify

end Proofs

/-! ## Three leaves -/

section Example

open scoped Sample

/-- Three leaves, so that the last one is paired with itself. -/
def Sample.threeLeaves : List Hash :=
  [Vector.replicate 32 1, Vector.replicate 32 2, Vector.replicate 32 3]

/-- A proof of the last leaf that takes the step into its duplicate. -/
def Sample.duplicateProof : MerkleProof where
  leafIndex := 7
  leafHash := Vector.replicate 32 3
  proofNodes := [⟨Vector.replicate 32 3, true⟩,
    ⟨hashMerklePair (Vector.replicate 32 1) (Vector.replicate 32 2), true⟩]
  root := (MerkleTree.new Sample.threeLeaves).root

/-- The last of three leaves. -/
theorem MerkleTree.generateProof_verifies_last :
    ∃ proof : MerkleProof,
      (MerkleTree.new Sample.threeLeaves).generateProof 2 = .ok (some proof) ∧
        proof.leafHash = Vector.replicate 32 3 ∧ proof.verify = true := by
  obtain ⟨hle, -⟩ | ⟨hi, proof, hgen, -, hleaf, -, hverify⟩ :=
    MerkleTree.generateProof_verifies Sample.threeLeaves (List.cons_ne_nil _ _) 2
  · exact absurd hle (by decide)
  · exact ⟨proof, hgen, hleaf, hverify⟩

/-- The step into the duplicate of the last leaf is taken as the last leaf. -/
theorem MerkleProof.verify_sound_duplicate :
    HashTree.spelled [3, 2, 1] Sample.duplicateProof.flags = 2 ∧
      Sample.threeLeaves[2]? = some Sample.duplicateProof.leafHash := by
  have hspelled : HashTree.spelled ((MerkleTree.new Sample.threeLeaves).levels.map List.length)
      Sample.duplicateProof.flags = 2 := by decide
  have hsound := MerkleProof.verify_sound Sample.threeLeaves (List.cons_ne_nil _ _)
    Sample.duplicateProof (by decide +kernel) rfl (by decide)
    (by decide +kernel)
  rw [hspelled] at hsound
  exact ⟨by decide, hsound⟩

/-- The proof of the first leaf, and the one that the second leaf is at the same place. -/
def Sample.firstProof : MerkleProof where
  leafIndex := 0
  leafHash := Vector.replicate 32 1
  proofNodes := [⟨Vector.replicate 32 2, false⟩,
    ⟨hashMerklePair (Vector.replicate 32 3) (Vector.replicate 32 3), false⟩]
  root := (MerkleTree.new Sample.threeLeaves).root

def Sample.forgedProof : MerkleProof where
  leafIndex := 0
  leafHash := Vector.replicate 32 2
  proofNodes := [⟨Vector.replicate 32 1, true⟩,
    ⟨hashMerklePair (Vector.replicate 32 3) (Vector.replicate 32 3), false⟩]
  root := (MerkleTree.new Sample.threeLeaves).root

/-- Both proofs are for index 0, and no pairs collide. -/
theorem MerkleProof.leafHash_forged :
    let p := Sample.firstProof
    let q := Sample.forgedProof
    HashTree.Separates hashMerklePair p.hashedPairs q.hashedPairs ∧ p.root = q.root ∧
      p.proofNodes.length = q.proofNodes.length ∧ p.leafIndex = q.leafIndex ∧
      p.verify = true ∧ q.verify = true ∧ p.leafHash ≠ q.leafHash := by
  refine ⟨?_, rfl, rfl, rfl, ?_, ?_, ?_⟩
  · decide +kernel
  · decide +kernel
  · decide +kernel
  · decide

/-- The proof of the first leaf, compared with itself, and its counterpart. -/
theorem MerkleProof.leafHash_of_flags_first :
    Sample.firstProof.leafHash = Sample.firstProof.leafHash ∧
      ∃ proof : MerkleProof, proof.leafIndex = 0 ∧ proof.verify = true ∧
        proof.leafHash ≠ Sample.firstProof.leafHash := by
  have hverify : Sample.firstProof.verify = true := by decide +kernel
  have hsame := MerkleProof.leafHash_of_flags.1 Sample.firstProof Sample.firstProof
    (by decide +kernel) rfl hverify hverify rfl
  obtain ⟨proof, -, -, hindex, hother, hne⟩ := MerkleProof.leafHash_of_flags.2 Sample.firstProof
    _ _ hverify rfl (by decide)
  exact ⟨hsame, proof, hindex, hother, hne⟩

end Example
