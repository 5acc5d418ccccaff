/-
# The order of the accounts in a state root

`root_from_updates` gives the same root for any order of its updates
(`SparseMerkleTree.rootFromUpdates_perm`), and so `compute_state_root` gives the same root for any
order in which the hash maps of the manager are walked (`StateManager.computeStateRoot_order`).
-/
import Pacyte.StateRoot

section Order

variable [Primitives]

/-- The root is the one of the tree plus one branch for every update. -/
theorem SparseMerkleTree.rootFromUpdates_eq (smt : SparseMerkleTree)
    (updates : List (Hash × Hash)) :
    smt.rootFromUpdates updates
      = smt.root.xor (Vector.xorAll (updates.map fun u => smt.branch u.1 u.2)) := by
  rw [← Vector.foldl_xor, List.foldl_map]
  rfl

/-- The order of the updates does not matter. -/
theorem SparseMerkleTree.rootFromUpdates_perm (smt : SparseMerkleTree)
    {updates updates' : List (Hash × Hash)} (h : updates.Perm updates') :
    smt.rootFromUpdates updates = smt.rootFromUpdates updates' := by
  rw [rootFromUpdates_eq, rootFromUpdates_eq, Vector.xorAll_perm (h.map _)]

namespace StateManager

variable {σ : Type} [Storage σ]

/-- The update of the tree for an account. -/
def update (e : Address × Account) : Hash × Hash :=
  (Primitives.sha3_256 e.1.toList,
    Primitives.sha3_256 ((Primitives.serializeAccount e.2).getD []))

/-- The managers agree on what the root is computed from, up to the order of their maps. -/
structure SameEntries (sm sm' : StateManager σ) : Prop where
  currentRoot : sm'.currentRoot = sm.currentRoot
  smt : sm'.smt = sm.smt
  accountCache : ∀ a, sm'.accountCache.lookup a = sm.accountCache.lookup a
  dirtyAccounts : ∀ a, sm'.dirtyAccounts.lookup a = sm.dirtyAccounts.lookup a

omit [Primitives] [Storage σ] in
/-- Maps with the same entries are walked in two orders. -/
theorem toPairs_perm {m m' : Map Address Account} (h : ∀ a, m'.lookup a = m.lookup a) :
    m'.toPairs.Perm m.toPairs := by
  rw [List.perm_ext_iff_of_nodup m'.nodup_toPairs m.nodup_toPairs]
  rintro ⟨a, acc⟩
  rw [Map.mem_toPairs, Map.mem_toPairs, h]

/-- With uncommitted changes, the root for the accounts at hand in any order. -/
theorem computeStateRoot_of_perm (sm : StateManager σ) (h : sm.dirtyAccounts ≠ ∅)
    {order : List (Address × Account)} (horder : order.Perm sm.allAccounts.toPairs) :
    (computeStateRoot sm).1 = .ok (sm.smt.rootFromUpdates (order.map update)) := by
  have hleaf : ((fun u : Hash × Hash => sm.smt.branch u.1 u.2) ∘ update) = leaf sm.smt := by
    funext e
    rw [Function.comp_apply, update, leaf]
  rw [computeStateRoot_eq sm h, SparseMerkleTree.rootFromUpdates_eq, List.map_map, hleaf,
    Vector.xorAll_perm (horder.map (leaf sm.smt))]

omit [Primitives] [Storage σ] in
theorem SameEntries.dirty_eq_empty {sm sm' : StateManager σ} (h : SameEntries sm sm')
    (hempty : sm.dirtyAccounts = ∅) : sm'.dirtyAccounts = ∅ := by
  apply AList.ext
  have hperm := toPairs_perm h.dirtyAccounts
  rw [hempty] at hperm
  exact List.map_eq_nil_iff.mp hperm.eq_nil

omit [Primitives] [Storage σ] in
theorem SameEntries.symm {sm sm' : StateManager σ} (h : SameEntries sm sm') :
    SameEntries sm' sm :=
  ⟨h.currentRoot.symm, h.smt.symm, fun a => (h.accountCache a).symm,
    fun a => (h.dirtyAccounts a).symm⟩

/-- **The state root does not depend on any order**: neither on the one of the updates, nor on
the one in which the accounts at hand are walked, nor on the ones of the two maps that they come
from. -/
theorem computeStateRoot_order :
    (∀ (smt : SparseMerkleTree) (updates updates' : List (Hash × Hash)),
        updates.Perm updates' → smt.rootFromUpdates updates = smt.rootFromUpdates updates') ∧
      (∀ (sm : StateManager σ) (order : List (Address × Account)), sm.dirtyAccounts ≠ ∅ →
        order.Perm sm.allAccounts.toPairs →
        (computeStateRoot sm).1 = .ok (sm.smt.rootFromUpdates (order.map update))) ∧
      ∀ sm sm' : StateManager σ, SameEntries sm sm' →
        (computeStateRoot sm').1 = (computeStateRoot sm).1 := by
  refine ⟨fun smt _ _ h => smt.rootFromUpdates_perm h,
    fun sm _ h horder => computeStateRoot_of_perm sm h horder, fun sm sm' h => ?_⟩
  by_cases hempty : sm.dirtyAccounts = ∅
  · rw [computeStateRoot_clean sm hempty, computeStateRoot_clean sm' (h.dirty_eq_empty hempty),
      h.currentRoot]
  · have hperm : sm'.allAccounts.toPairs.Perm sm.allAccounts.toPairs := by
      apply toPairs_perm
      intro a
      rw [lookup_allAccounts, lookup_allAccounts, h.accountCache, h.dirtyAccounts]
    rw [computeStateRoot_of_perm sm' (mt h.symm.dirty_eq_empty hempty) (List.Perm.refl _),
      computeStateRoot_of_perm sm hempty hperm, h.smt]

end StateManager

end Order

/-! ## Two updates and two accounts -/

section Example

open scoped Sample

/-- A manager with two uncommitted accounts, entered in one of the two orders. -/
def Sample.twoChanges (a b : Address) : StateManager MemoryStorage :=
  let sm := StateManager.new (MemoryStorage.new fun _ => 0) fun _ => 1
  { sm with dirtyAccounts :=
      AList.insert b (Account.new b 2 0) (AList.insert a (Account.new a 1 0) ∅) }

def Sample.twoChanges' (a b : Address) : StateManager MemoryStorage :=
  let sm := StateManager.new (MemoryStorage.new fun _ => 0) fun _ => 1
  { sm with dirtyAccounts :=
      AList.insert a (Account.new a 1 0) (AList.insert b (Account.new b 2 0) ∅) }

/-- Two updates in both orders, and two managers that hold the same accounts in two orders. -/
theorem StateManager.computeStateRoot_order_two :
    let a : Address := Vector.replicate 32 1
    let b : Address := Vector.replicate 32 2
    let sm := Sample.twoChanges a b
    let sm' := Sample.twoChanges' a b
    SparseMerkleTree.new.rootFromUpdates [(a, b), (b, a)]
        = SparseMerkleTree.new.rootFromUpdates [(b, a), (a, b)] ∧
      (computeStateRoot sm).1
        = .ok (sm.smt.rootFromUpdates (sm.allAccounts.toPairs.reverse.map update)) ∧
      (computeStateRoot sm').1 = (computeStateRoot sm).1 := by
  intro a b sm sm'
  obtain ⟨hupdates, haccounts, hmaps⟩ := computeStateRoot_order (σ := MemoryStorage)
  have hab : a ≠ b := by decide
  have hdirty : sm.dirtyAccounts ≠ ∅ := by
    intro h
    have hlookup : AList.lookup b sm.dirtyAccounts = some (Account.new b 2 0) :=
      AList.lookup_insert _
    rw [h] at hlookup
    cases hlookup
  refine ⟨hupdates _ _ _ (List.Perm.swap _ _ _),
    haccounts sm _ hdirty (List.reverse_perm _), hmaps sm sm' ⟨rfl, rfl, fun _ => rfl, ?_⟩⟩
  intro x
  change (AList.insert a _ (AList.insert b _ ∅)).lookup x
    = (AList.insert b _ (AList.insert a _ ∅)).lookup x
  by_cases ha : x = a
  · subst ha
    rw [AList.lookup_insert, AList.lookup_insert_ne hab, AList.lookup_insert]
  · by_cases hb : x = b
    · subst hb
      rw [AList.lookup_insert_ne ha, AList.lookup_insert, AList.lookup_insert]
    · rw [AList.lookup_insert_ne ha, AList.lookup_insert_ne hb, AList.lookup_insert_ne hb,
        AList.lookup_insert_ne ha]

end Example
