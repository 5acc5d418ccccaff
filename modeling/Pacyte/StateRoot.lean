/-
# The state root of a block

What the root of `compute_state_root` depends on, and what `apply_block` leaves
behind when it succeeds.

* `Recorded`: the state after an accepted block, from the one after its
  transfers: the version in memory, the root, the height, the accounts in the
  storage.
* `computeStateRoot_eq`: with uncommitted changes, the root is the root of the
  empty tree plus one branch for every account that is cached or uncommitted.
-/
import Pacyte.ApplyAtomicity
import Pacyte.XorSum

namespace StateManager

open Exec

variable {σ : Type} [LawfulStorage σ]

/-- The view, as the first of three answers. -/
theorem account_eq (sm : StateManager σ) (a : Address) :
    sm.account a = (sm.accountCache.lookup a).or
      ((sm.dirtyAccounts.lookup a).or (LawfulStorage.accountAt sm.storage a)) := by
  unfold account
  cases sm.accountCache.lookup a with
  | some acc => rfl
  | none => cases sm.dirtyAccounts.lookup a <;> rfl

/-! ## What an accepted block leaves behind -/

variable [Primitives]

/-- The state after a block whose transfers led to `mid`. -/
structure Recorded (block : Block) (mid : StateManager σ) (version : StateVersion)
    (sm' : StateManager σ) : Prop where
  root : (computeStateRoot mid).1 = .ok version.root
  height : version.height = block.header.height
  blockHash : version.blockHash = block.hash
  parentRoot : version.parentRoot = mid.currentRoot
  versions : sm'.versions = mid.versions.insert block.header.height version
  currentRoot : sm'.currentRoot = version.root
  currentHeight : sm'.currentHeight = block.header.height
  accountCache : sm'.accountCache = mid.accountCache
  dirtyAccounts : sm'.dirtyAccounts = ∅
  smt : sm'.smt = mid.smt
  account : sm'.account = mid.account
  clock : sm'.clock = fun k => mid.clock (k + 1)
  stored : ∀ a, LawfulStorage.accountAt sm'.storage a =
    (mid.dirtyAccounts.lookup a).or (LawfulStorage.accountAt mid.storage a)

omit [Primitives] in
/-- What `commit_dirty_accounts` does when it succeeds: the changes are in the
storage. -/
theorem commitDirtyAccounts_stored (sm : StateManager σ) :
    Post commitDirtyAccounts sm fun o sm' =>
      o = .ok () → sm' = { sm with dirtyAccounts := ∅, storage := sm'.storage } ∧
        ∀ a, LawfulStorage.accountAt sm'.storage a =
          (sm.dirtyAccounts.lookup a).or (LawfulStorage.accountAt sm.storage a) := by
  rw [Post, commitDirtyAccounts_run]
  split_ifs with hempty
  · intro _
    have hdirty : sm.dirtyAccounts = ∅ := AList.ext (by simpa using hempty)
    refine ⟨rfl, fun a => ?_⟩
    rw [hdirty, AList.lookup_empty, Option.none_or]
  · intro hok
    obtain ⟨hacc, hblocks⟩ := foldl_addAccount sm.dirtyAccounts.toPairs WriteBatch.new
    have hwrite := (LawfulStorage.writeBatch_ok sm.dirtyBatch sm.storage hblocks hok).1
    refine ⟨rfl, fun a => ?_⟩
    show LawfulStorage.accountAt (Storage.writeBatch sm.dirtyBatch sm.storage).2 a = _
    rw [hwrite, dirtyBatch, hacc, WriteBatch.new, List.nil_append, writeAccounts_toPairs]
    cases sm.dirtyAccounts.lookup a <;> rfl

omit [Primitives] in
/-- Moving the changes to the storage does not change the view. -/
theorem account_committed {mid sm' : StateManager σ} (hcache : sm'.accountCache = mid.accountCache)
    (hdirty : sm'.dirtyAccounts = ∅)
    (hstored : ∀ a, LawfulStorage.accountAt sm'.storage a =
      (mid.dirtyAccounts.lookup a).or (LawfulStorage.accountAt mid.storage a)) :
    sm'.account = mid.account := by
  funext a
  rw [account_eq, account_eq, hcache, hdirty, hstored, AList.lookup_empty, Option.none_or]

/-- **An accepted block**: all its transfers are made, and the state after them
is recorded under the version that is returned. -/
theorem applyBlock_recorded (block : Block) (sm : StateManager σ) :
    Post (applyBlock block) sm fun o sm' =>
      ∀ version, o = .ok version →
        ∃ mid, NextHeight sm block ∧ Transfers block.body.transactions sm mid ∧
          Recorded block mid version sm' := by
  unfold applyBlock
  simp only [post_bind, post_get, post_addU64]
  refine ⟨fun hfit => ?_, by rintro - _ ⟨⟩⟩
  rw [post_ite]
  refine ⟨by rintro - _ ⟨⟩, fun heq => ?_⟩
  have hheight : NextHeight sm block := by
    rw [NextHeight, not_not.mp heq]
    exact toNat_add_of_fits hfit
  refine (applyTransactions_spec block.body.transactions sm).seq ?_ ?_ ?_
  · rintro ⟨⟩ mid htr
    obtain ⟨root, hroot⟩ := computeStateRoot_run mid
    rw [post_bind, Post, hroot]
    simp only [post_bind, post_now, post_modify, onStorage, post_onPart]
    rw [Post]
    have hview := (LawfulStorage.saveStateRoot_view block.header.height root mid.storage).1
    rcases hsave : Storage.saveStateRoot block.header.height root mid.storage with ⟨⟨⟩ | e | _, st⟩
    · rw [hsave] at hview
      refine Post.mono (commitDirtyAccounts_stored _) ?_
      rintro (⟨⟩ | e | _) sm' hcommit version hok
      · obtain rfl := Outcome.ok.inj hok
        obtain ⟨hsm', hstored⟩ := hcommit rfl
        simp only [hview] at hstored
        refine ⟨mid, hheight, htr, ?_⟩
        rw [hsm']
        obtain ⟨-, -, hparent, -⟩ := htr.frame
        refine ⟨by rw [hroot], rfl, rfl, hparent.symm, rfl, rfl, rfl, rfl, rfl, rfl, ?_, rfl,
          hstored⟩
        exact account_committed rfl rfl hstored
      · cases hok
      · cases hok
    · rintro _ ⟨⟩
    · rintro _ ⟨⟩
  · rintro e sm' - _ ⟨⟩
  · rintro sm' - _ ⟨⟩

/-! ## The hashed accounts -/

omit [LawfulStorage σ] [Primitives] in
/-- A map that is filled from another one, entry by entry. -/
theorem lookup_foldl_insert (m base : Map Address Account) (a : Address) :
    (m.toPairs.foldl (fun m e => m.insert e.1 e.2) base).lookup a
      = (m.lookup a).or (base.lookup a) := by
  have hwrite : ∀ (l : List (Address × Account)) (base : Map Address Account),
      (l.foldl (fun m e => m.insert e.1 e.2) base).lookup
        = writeAccounts base.lookup (l.map fun e => (e.1, some e.2)) := by
    intro l
    induction l with
    | nil => exact fun _ => rfl
    | cons e rest ih =>
        intro base
        rw [List.foldl_cons, ih, List.map_cons, writeAccounts]
        congr 1
        funext x
        by_cases hx : x = e.1
        · rw [hx, AList.lookup_insert, Function.update_self]
        · rw [AList.lookup_insert_ne hx, Function.update_of_ne hx]
  refine (congrFun (hwrite m.toPairs base) a).trans ?_
  rw [writeAccounts_toPairs]
  cases m.lookup a <;> rfl

omit [LawfulStorage σ] in
/-- The accounts that go into the root: the cached ones, and over them the
uncommitted ones. -/
def allAccounts (sm : StateManager σ) : Map Address Account :=
  sm.dirtyAccounts.toPairs.foldl (fun m e => m.insert e.1 e.2)
    (sm.accountCache.toPairs.foldl (fun m e => m.insert e.1 e.2) ∅)

omit [LawfulStorage σ] [Primitives] in
theorem lookup_allAccounts (sm : StateManager σ) (a : Address) :
    sm.allAccounts.lookup a = (sm.dirtyAccounts.lookup a).or (sm.accountCache.lookup a) := by
  rw [allAccounts, lookup_foldl_insert, lookup_foldl_insert, AList.lookup_empty, Option.or_none]

/-- What an account adds to the root. -/
def leaf (smt : SparseMerkleTree) (e : Address × Account) : Hash :=
  smt.branch (Primitives.sha3_256 e.1.toList)
    (Primitives.sha3_256 ((Primitives.serializeAccount e.2).getD []))

omit [LawfulStorage σ] in
/-- With uncommitted changes, the root is the sum of the root of the tree and of
the leaves of all accounts at hand. -/
theorem computeStateRoot_eq [Storage σ] (sm : StateManager σ) (h : sm.dirtyAccounts ≠ ∅) :
    (computeStateRoot sm).1
      = .ok (sm.smt.root.xor (Vector.xorAll (sm.allAccounts.toPairs.map (leaf sm.smt)))) := by
  have hne : ¬ sm.dirtyAccounts.entries.isEmpty := by
    intro hempty
    exact h (AList.ext (by simpa using hempty))
  unfold computeStateRoot
  rw [Exec.run_bind, Exec.run_get]
  dsimp only
  rw [if_neg hne, ← Vector.foldl_xor]
  show Outcome.ok (SparseMerkleTree.rootFromUpdates _ _) = _
  rw [SparseMerkleTree.rootFromUpdates, List.foldl_map, List.foldl_map]
  rfl

omit [LawfulStorage σ] in
/-- Without uncommitted changes the root is the one of before. -/
theorem computeStateRoot_clean [Storage σ] (sm : StateManager σ) (h : sm.dirtyAccounts = ∅) :
    (computeStateRoot sm).1 = .ok sm.currentRoot := by
  unfold computeStateRoot
  rw [Exec.run_bind, Exec.run_get]
  dsimp only
  rw [if_pos (by rw [h]; rfl)]
  rfl

/-! ## Sums over a map -/

omit [LawfulStorage σ] [Primitives] in
/-- Two maps that agree where `g` is not zero have the same sum of `g`. -/
theorem xorAll_toPairs_congr (g : Address × Account → Hash) {m m' : Map Address Account}
    (h : ∀ a acc, g (a, acc) ≠ Vector.zeros 32 → (m.lookup a = some acc ↔ m'.lookup a = some acc)) :
    Vector.xorAll (m.toPairs.map g) = Vector.xorAll (m'.toPairs.map g) := by
  rw [← Vector.xorAll_filter_ne_zero (m.toPairs.map g),
    ← Vector.xorAll_filter_ne_zero (m'.toPairs.map g), List.filter_map, List.filter_map]
  apply Vector.xorAll_perm
  apply List.Perm.map
  rw [List.perm_ext_iff_of_nodup (m.nodup_toPairs.filter _) (m'.nodup_toPairs.filter _)]
  rintro ⟨a, acc⟩
  rw [List.mem_filter, List.mem_filter, Map.mem_toPairs, Map.mem_toPairs]
  refine and_congr_left fun hg => h a acc ?_
  simpa using hg

omit [LawfulStorage σ] [Primitives] in
/-- One account more adds its value. -/
theorem xorAll_toPairs_insert (g : Address × Account → Hash) {m m' : Map Address Account}
    {a : Address} {acc : Account} (hm : m.lookup a = none)
    (h : ∀ x, m'.lookup x = (m.insert a acc).lookup x) :
    Vector.xorAll (m'.toPairs.map g) = (g (a, acc)).xor (Vector.xorAll (m.toPairs.map g)) := by
  have hcongr : Vector.xorAll (m'.toPairs.map g)
      = Vector.xorAll ((Map.toPairs (m.insert a acc)).map g) :=
    xorAll_toPairs_congr g fun x y _ => by rw [h]
  have hentries : Map.toPairs (m.insert a acc) = (a, acc) :: m.toPairs := by
    rw [Map.toPairs, AList.entries_insert_of_notMem (AList.lookup_eq_none.mp hm), List.map_cons]
    rfl
  rw [hcongr, hentries, List.map_cons, Vector.xorAll_cons]

end StateManager
