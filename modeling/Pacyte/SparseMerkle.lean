/-
# The sparse Merkle root

`SparseMerkleTree::root_from_updates` of `src/crypto/merkle.rs` against the tree it
is named after: the binary tree of depth 256 with the given values at the given
keys and zeros elsewhere (`sparseRoot`).

The code climbs from every update on its own, past default siblings, and combines
the results by exclusive or.  So it returns the sum of the roots of trees with one
update each and of the root of the empty tree (`rootFromUpdates_eq_sum`), which is
not the root of the tree with all updates.
-/
import Pacyte.Crypto
import Pacyte.XorSum
import Pacyte.SparseTree

/-! ## The tree with all updates -/

/-- The bits of a key as a path from the root: the loop of `root_from_updates` reads
them from the leaf upwards. -/
def keyPath (key : Hash) : List Bool := ((List.range 256).map (pathBit key)).reverse

/-- The leaf at a path: the value of the update with that key, or zeros. -/
def leafAt (updates : List (Hash × Hash)) (path : List Bool) : Hash :=
  ((updates.find? fun u => keyPath u.1 = path).map Prod.snd).getD zero32

theorem length_keyPath (key : Hash) : (keyPath key).length = 256 := by
  rw [keyPath, List.length_reverse, List.length_map, List.length_range]

/-- All bits of a key are on its path. -/
theorem keyPath_injective : Function.Injective keyPath := by
  intro key key' h
  have hbits : ∀ depth < 256, pathBit key depth = pathBit key' depth := by
    intro depth hdepth
    have hmap := List.reverse_inj.mp h
    rw [List.map_inj_left] at hmap
    exact hmap depth (List.mem_range.mpr hdepth)
  ext i hi
  apply Nat.eq_of_testBit_eq
  intro j
  by_cases hj : j < 8
  · have hbit := hbits (8 * (31 - i) + (7 - j)) (by omega)
    have hbyte : 31 - (8 * (31 - i) + (7 - j)) / 8 = i := by omega
    have hplace : 7 - (8 * (31 - i) + (7 - j)) % 8 = j := by omega
    simp only [pathBit, hbyte, hplace] at hbit
    simpa [hi] using hbit
  · -- bytes have no bits from the eighth on
    have hlt : ∀ b : UInt8, b.toNat < 2 ^ j := by
      intro b
      have hb := b.toNat_lt
      exact lt_of_lt_of_le hb (Nat.pow_le_pow_right (by decide) (by omega))
    rw [Nat.testBit_lt_two_pow (hlt _), Nat.testBit_lt_two_pow (hlt _)]

section Roots

variable [Primitives]

/-- The root of the tree of depth 256 with the given values at the given keys and
zeros at all others. -/
def sparseRoot (updates : List (Hash × Hash)) : Hash :=
  SparseTree.root hashMerklePair 256 (leafAt updates)

/-! ## One update -/

/-- The default hashes are the roots of empty trees. -/
theorem defaultHashes_eq (depth : ℕ) (h : depth < 257) :
    SparseMerkleTree.new.defaultHashes.getD depth zero32
      = SparseTree.empty hashMerklePair zero32 depth := by
  have hiter : ∀ n, (fun h => hashMerklePair h h)^[n] zero32
      = SparseTree.empty hashMerklePair zero32 n := by
    intro n
    induction n with
    | zero => rfl
    | succ n ih => rw [Function.iterate_succ_apply', ih, SparseTree.empty]
  rw [← hiter]
  show (List.iterate (fun h => hashMerklePair h h) zero32 257).getD depth zero32 = _
  rw [List.getD_eq_getElem?_getD, List.getElem?_iterate _ _ _ _ h]
  rfl

/-- The root that `SparseMerkleTree::new` starts from is the one of the empty tree. -/
theorem new_root : SparseMerkleTree.new.root = sparseRoot [] := by
  have hempty : sparseRoot [] = SparseTree.empty hashMerklePair zero32 256 :=
    SparseTree.root_const hashMerklePair zero32 256
  rw [hempty, ← defaultHashes_eq 256 (by omega)]
  rfl

/-- The inner loop computes the root of the tree with one update. -/
theorem branch_eq (key value : Hash) :
    SparseMerkleTree.new.branch key value = sparseRoot [(key, value)] := by
  have hleaf : leafAt [(key, value)] = fun p => if p = keyPath key then value else zero32 := by
    funext p
    by_cases hp : p = keyPath key
    · rw [leafAt, List.find?_cons_of_pos (by simp [hp]), if_pos hp]
      rfl
    · rw [leafAt, List.find?_cons_of_neg (by simpa using fun h => hp h.symm), if_neg hp]
      rfl
  rw [sparseRoot, hleaf, ← length_keyPath key, SparseTree.root_single, keyPath,
    ← SparseTree.foldl_range_climb, SparseMerkleTree.branch]
  apply List.foldl_ext
  intro node depth hdepth
  dsimp only
  rw [defaultHashes_eq depth (by have := List.mem_range.mp hdepth; omega)]

theorem rootFromUpdates_xor (updates : List (Hash × Hash)) :
    SparseMerkleTree.new.rootFromUpdates updates
      = (sparseRoot []).xor (Vector.xorAll (updates.map fun u => sparseRoot [u])) := by
  have hsum : updates.map (fun u => sparseRoot [u])
      = updates.map fun u => SparseMerkleTree.new.branch u.1 u.2 := by
    apply List.map_congr_left
    intro u _
    rw [branch_eq]
  rw [hsum, ← new_root, ← Vector.foldl_xor, List.foldl_map]
  rfl

/-! ## Default values -/

/-- The updates with a value other than zeros. -/
def nonzero (updates : List (Hash × Hash)) : List (Hash × Hash) :=
  updates.filter fun u => u.2 ≠ zero32

omit [Primitives] in
theorem leafAt_cons (u : Hash × Hash) (updates : List (Hash × Hash)) (p : List Bool) :
    leafAt (u :: updates) p = if keyPath u.1 = p then u.2 else leafAt updates p := by
  by_cases hp : keyPath u.1 = p
  · rw [leafAt, List.find?_cons_of_pos (by simpa using hp), if_pos hp]
    rfl
  · rw [leafAt, List.find?_cons_of_neg (by simpa using hp), if_neg hp]
    rfl

omit [Primitives] in
/-- Among distinct keys, updates to zeros do not change the leaves. -/
theorem leafAt_nonzero (updates : List (Hash × Hash)) (hkeys : (updates.map Prod.fst).Nodup) :
    leafAt (nonzero updates) = leafAt updates := by
  induction updates with
  | nil => rfl
  | cons u updates ih =>
      rw [List.map_cons, List.nodup_cons] at hkeys
      funext p
      rw [leafAt_cons, ← ih hkeys.2]
      by_cases hzero : u.2 = zero32
      · rw [nonzero, List.filter_cons_of_neg (by simpa using hzero)]
        split_ifs with hp
        · -- no other update has this key
          have hnone : (nonzero updates).find? (fun u' => keyPath u'.1 = p) = none := by
            rw [List.find?_eq_none]
            intro u' hu' hp'
            have hkey : u'.1 = u.1 := keyPath_injective ((of_decide_eq_true hp').trans hp.symm)
            exact hkeys.1 (hkey ▸ List.mem_map_of_mem (List.mem_of_mem_filter hu'))
          change leafAt (nonzero updates) p = u.2
          rw [leafAt, hnone, hzero]
          rfl
        · rfl
      · rw [nonzero, List.filter_cons_of_pos (by simpa using hzero), leafAt_cons]
        rfl

/-- A tree with an update to zeros is the empty tree. -/
theorem sparseRoot_zero (key : Hash) : sparseRoot [(key, zero32)] = sparseRoot [] := by
  rw [sparseRoot, ← leafAt_nonzero [(key, zero32)] (List.nodup_singleton key)]
  rfl

/-- The sum over all updates: every update to zeros adds the root of the empty tree. -/
theorem xorAll_sparseRoot (updates : List (Hash × Hash)) :
    Vector.xorAll (updates.map fun u => sparseRoot [u])
      = (if Even (updates.length - (nonzero updates).length) then Vector.zeros 32
          else sparseRoot []).xor
        (Vector.xorAll ((nonzero updates).map fun u => sparseRoot [u])) := by
  induction updates with
  | nil =>
      rw [if_pos (by decide), Vector.zeros_xor]
      rfl
  | cons u updates ih =>
      have hle : (nonzero updates).length ≤ updates.length := List.length_filter_le _ _
      rw [List.map_cons, Vector.xorAll_cons, ih, List.length_cons]
      by_cases hzero : u.2 = zero32
      · have hfilter : nonzero (u :: updates) = nonzero updates :=
          List.filter_cons_of_neg (by simpa using hzero)
        have hu : sparseRoot [u] = sparseRoot [] := by
          rw [← sparseRoot_zero u.1, ← hzero]
        have hparity : Even (updates.length + 1 - (nonzero updates).length) ↔
            ¬ Even (updates.length - (nonzero updates).length) := by
          rw [Nat.succ_sub hle, Nat.succ_eq_add_one, Nat.even_add_one]
        rw [hfilter, hu, ← Vector.xor_assoc]
        by_cases heven : Even (updates.length - (nonzero updates).length)
        · rw [if_pos heven, if_neg (fun h => hparity.mp h heven), Vector.xor_zeros]
        · rw [if_neg heven, if_pos (hparity.mpr heven), Vector.xor_self]
      · have hfilter : nonzero (u :: updates) = u :: nonzero updates :=
          List.filter_cons_of_pos (by simpa using hzero)
        rw [hfilter, List.map_cons, Vector.xorAll_cons, List.length_cons, Nat.add_sub_add_right,
          ← Vector.xor_assoc, ← Vector.xor_assoc, Vector.xor_comm (sparseRoot [u])]

/-- **`root_from_updates` adds up trees with one update each.**  The result is the
sum of the root of the empty tree and, for every update, of the root of the tree
of depth 256 that holds this update alone.  For distinct keys it is the root of the
tree with all updates if their number is even and at most one value is not zeros. -/
theorem rootFromUpdates_eq_sum (updates : List (Hash × Hash)) :
    SparseMerkleTree.new.rootFromUpdates updates
        = (sparseRoot []).xor (Vector.xorAll (updates.map fun u => sparseRoot [u])) ∧
      ((updates.map Prod.fst).Nodup → Even updates.length → (nonzero updates).length ≤ 1 →
        SparseMerkleTree.new.rootFromUpdates updates = sparseRoot updates) := by
  refine ⟨rootFromUpdates_xor updates, fun hkeys heven hone => ?_⟩
  have hroot : sparseRoot updates = sparseRoot (nonzero updates) := by
    rw [sparseRoot, sparseRoot, leafAt_nonzero updates hkeys]
  have hle : (nonzero updates).length ≤ updates.length := List.length_filter_le _ _
  rw [rootFromUpdates_xor, xorAll_sparseRoot, hroot]
  match hnonzero : nonzero updates with
  | [] =>
      rw [if_pos (by simpa using heven), List.map_nil, Vector.xorAll_nil, Vector.xor_zeros,
        Vector.xor_zeros]
  | [u] =>
      have hodd : ¬ Even (updates.length - [u].length) := by
        rw [hnonzero] at hle
        have hlen : updates.length - [u].length + 1 = updates.length := Nat.sub_add_cancel hle
        rw [← hlen, Nat.even_add_one] at heven
        exact heven
      rw [if_neg hodd, List.map_singleton, Vector.xorAll_cons, Vector.xorAll_nil, Vector.xor_zeros,
        Vector.xor_xor_cancel]
  | u :: u' :: rest =>
      rw [hnonzero, List.length_cons, List.length_cons] at hone
      omega

end Roots

/-! ## A tree with one update -/

section Example

open scoped Sample

/-- The first update of the test `test_sparse_merkle_tree`, alone: the result is
not the root of the tree with this update. -/
theorem one_update_not_sparseRoot :
    let updates := [((Vector.replicate 32 1 : Hash), (Vector.replicate 32 10 : Hash))]
    (updates.map Prod.fst).Nodup ∧
      SparseMerkleTree.new.rootFromUpdates updates ≠ sparseRoot updates := by
  intro updates
  refine ⟨List.nodup_singleton _, ?_⟩
  rw [rootFromUpdates_xor, List.map_singleton, Vector.xorAll_cons, Vector.xorAll_nil,
    Vector.xor_zeros, Ne, Vector.xor_eq_right_iff, ← new_root]
  have hroot : SparseMerkleTree.new.root ≠ Vector.zeros 32 := by decide +kernel
  exact hroot

/-- Two updates, one of them to zeros. -/
theorem two_updates_sparseRoot :
    let updates := [((Vector.replicate 32 1 : Hash), (Vector.replicate 32 10 : Hash)),
      (Vector.replicate 32 2, zero32)]
    SparseMerkleTree.new.rootFromUpdates updates = sparseRoot updates := by
  intro updates
  apply (rootFromUpdates_eq_sum updates).2
  · decide
  · decide
  · decide

end Example
