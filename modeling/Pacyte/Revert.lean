/-
# Reverting to an earlier height

`revert_to_height` empties the cache and the uncommitted changes and takes the
root and the height from the recorded version.  The accounts were written to the
storage when their block was applied, and nothing puts the older ones back.

So after a revert the accounts are still those of the last block
(`revertToHeight_run`), and the state of the earlier height is restored exactly
when the blocks since then had no transactions (`revert_restores_iff`).
-/
import Pacyte.Coherence
import Pacyte.ClockDependence
import Pacyte.Replay

namespace StateManager

open Exec

variable {σ : Type} [LawfulStorage σ] [Primitives]

/-! ## Runs of accepted blocks -/

/-- The state after the blocks. -/
def runBlocks : List Block → StateManager σ → StateManager σ
  | [], sm => sm
  | block :: rest, sm => runBlocks rest (applyBlock block sm).2

theorem accepts_append (pre post : List Block) (sm : StateManager σ) :
    Accepts (pre ++ post) sm ↔ Accepts pre sm ∧ Accepts post (runBlocks pre sm) := by
  induction pre generalizing sm with
  | nil => simp [Accepts, runBlocks]
  | cons block rest ih =>
      rw [List.cons_append, Accepts, Accepts, runBlocks, ih, and_assoc]

theorem runBlocks_append (pre post : List Block) (sm : StateManager σ) :
    runBlocks (pre ++ post) sm = runBlocks post (runBlocks pre sm) := by
  induction pre generalizing sm with
  | nil => rfl
  | cons block rest ih => rw [List.cons_append, runBlocks, runBlocks, ih]

/-- The cache is coherent, and there are no uncommitted changes: all accounts are in the
storage. -/
structure Flushed (sm : StateManager σ) : Prop where
  coherent : Coherent sm
  dirtyAccounts : sm.dirtyAccounts = ∅
  stored : ∀ a, LawfulStorage.accountAt sm.storage a = sm.account a

/-- What one accepted block does to a coherent manager. -/
theorem accepted_step {block : Block} {sm : StateManager σ} (hc : Coherent sm)
    (h : (applyBlock block sm).1.IsOk) :
    ∃ mid v, NextHeight sm block ∧ Transfers block.body.transactions sm mid ∧
      (applyBlock block sm).1 = .ok v ∧ Recorded block mid v (applyBlock block sm).2 ∧
      Flushed (applyBlock block sm).2 := by
  obtain ⟨v, hv⟩ := (Outcome.isOk_iff _).mp h
  obtain ⟨mid, hnext, htr, hrec⟩ := recorded_of_ok hv
  obtain ⟨hc', hstored⟩ := hrec.coherent (htr.wrote.2.coherent hc)
  exact ⟨mid, v, hnext, htr, hv, hrec, hc', hrec.dirtyAccounts, hstored⟩

/-- A run of accepted blocks keeps the cache coherent. -/
theorem coherent_runBlocks {blocks : List Block} {sm : StateManager σ} (h : Coherent sm)
    (hrun : Accepts blocks sm) : Coherent (runBlocks blocks sm) := by
  induction blocks generalizing sm with
  | nil => exact h
  | cons block rest ih =>
      obtain ⟨_, _, -, -, -, -, hflushed⟩ := accepted_step h hrun.1
      exact ih hflushed.coherent hrun.2

/-- A run of accepted blocks keeps a manager flushed. -/
theorem flushed_runBlocks {blocks : List Block} {sm : StateManager σ} (h : Flushed sm)
    (hrun : Accepts blocks sm) : Flushed (runBlocks blocks sm) := by
  induction blocks generalizing sm with
  | nil => exact h
  | cons block rest ih =>
      obtain ⟨_, _, -, -, -, -, hflushed⟩ := accepted_step h.coherent hrun.1
      exact ih hflushed hrun.2

/-- The versions up to the current height are kept by the blocks that follow. -/
theorem versions_runBlocks {blocks : List Block} {sm : StateManager σ} (hc : Coherent sm)
    (hrun : Accepts blocks sm) {height : BlockHeight}
    (hle : height.toNat ≤ sm.currentHeight.toNat) :
    (runBlocks blocks sm).versions.lookup height = sm.versions.lookup height := by
  induction blocks generalizing sm with
  | nil => rfl
  | cons block rest ih =>
      obtain ⟨mid, v, hnext, htr, -, hrec, hflushed⟩ := accepted_step hc hrun.1
      obtain ⟨-, hversions, -⟩ := htr.frame
      rw [NextHeight] at hnext
      have hne : height ≠ block.header.height := by
        rintro rfl
        omega
      rw [runBlocks, ih hflushed.coherent hrun.2 (by rw [hrec.currentHeight]; omega),
        hrec.versions, AList.lookup_insert_ne hne, hversions]

/-- Blocks without transactions keep the accounts. -/
theorem account_runBlocks_empty {blocks : List Block} {sm : StateManager σ} (hc : Coherent sm)
    (hrun : Accepts blocks sm) (hempty : ∀ b ∈ blocks, b.body.transactions = []) :
    (runBlocks blocks sm).account = sm.account := by
  induction blocks generalizing sm with
  | nil => rfl
  | cons block rest ih =>
      obtain ⟨mid, v, -, htr, -, hrec, hflushed⟩ := accepted_step hc hrun.1
      rw [hempty block List.mem_cons_self] at htr
      cases htr
      rw [runBlocks, ih hflushed.coherent hrun.2 fun b hb => hempty b (List.mem_cons_of_mem _ hb),
        hrec.account]

/-- After a run in which some block had transactions, an account shows a time of
that run. -/
theorem stamped_runBlocks {blocks : List Block} {sm : StateManager σ} (hc : Coherent sm)
    (hrun : Accepts blocks sm) :
    (∀ b ∈ blocks, b.body.transactions = []) ∨
      ∃ a acc k, (runBlocks blocks sm).account a = some acc ∧ acc.lastActivity = sm.clock k := by
  induction blocks generalizing sm with
  | nil => exact Or.inl fun _ h => nomatch h
  | cons block rest ih =>
      obtain ⟨mid, v, -, htr, -, hrec, hflushed⟩ := accepted_step hc hrun.1
      rcases ih hflushed.coherent hrun.2 with hempty | ⟨a, acc, k, hacc, htime⟩
      · -- only this block can have written
        have hrest := account_runBlocks_empty hflushed.coherent hrun.2 hempty
        rcases htr.stamped with hnil | ⟨a, acc, k, hacc, htime⟩
        · exact Or.inl (List.forall_mem_cons.mpr ⟨hnil, hempty⟩)
        · refine Or.inr ⟨a, acc, k, ?_, htime⟩
          rw [runBlocks, hrest, hrec.account, hacc]
      · obtain ⟨-, -, -, -, n, hn⟩ := htr.frame
        refine Or.inr ⟨a, acc, k + 1 + n, hacc, ?_⟩
        rw [htime, hrec.clock, hn]

/-! ## The revert -/

/-- The state that `revert_to_height` leaves behind when it finds the version. -/
def reverted (sm : StateManager σ) (version : StateVersion) (height : BlockHeight) :
    StateManager σ :=
  { sm with
    accountCache := ∅
    dirtyAccounts := ∅
    currentRoot := version.root
    currentHeight := height
    smt := SparseMerkleTree.new }

theorem revertToHeight_run {sm : StateManager σ} {height : BlockHeight} {version : StateVersion}
    (h : sm.versions.lookup height = some version) :
    revertToHeight height sm = (.ok (), sm.reverted version height) := by
  have hget : getVersion height sm = (.ok (some version), sm) := by
    unfold getVersion
    rw [run_bind, run_get]
    dsimp only
    rw [h]
    rfl
  unfold revertToHeight
  rw [run_bind, hget]
  rfl

/-- A revert does not change the accounts of a flushed manager. -/
theorem account_reverted {sm : StateManager σ} (h : Flushed sm) (version : StateVersion)
    (height : BlockHeight) : (sm.reverted version height).account = sm.account := by
  funext a
  rw [account_eq, ← h.stored]
  rfl

/-- A revert leaves a flushed manager flushed. -/
theorem flushed_reverted {sm : StateManager σ} (h : Flushed sm) (version : StateVersion)
    (height : BlockHeight) : Flushed (sm.reverted version height) := by
  refine ⟨coherent_of_empty rfl, rfl, ?_⟩
  intro a
  rw [account_reverted h]
  exact h.stored a

/-- The accounts, the root and the height are those of `sm`. -/
structure Restored (sm sm' : StateManager σ) : Prop where
  account : sm'.account = sm.account
  currentRoot : sm'.currentRoot = sm.currentRoot
  currentHeight : sm'.currentHeight = sm.currentHeight

/-! ## Applying the blocks again -/

/-- Both managers accept the blocks, with the same roots and the same accounts
after each of them. -/
def Replays : List Block → StateManager σ → StateManager σ → Prop
  | [], _, _ => True
  | block :: rest, sm, sm' =>
      (∃ v v', (applyBlock block sm).1 = .ok v ∧ (applyBlock block sm').1 = .ok v' ∧
        v'.height = v.height ∧ v'.root = v.root ∧ v'.blockHash = v.blockHash ∧
        v'.parentRoot = v.parentRoot) ∧
      Restored (applyBlock block sm).2 (applyBlock block sm').2 ∧
      Replays rest (applyBlock block sm).2 (applyBlock block sm').2

/-- On the states `Good` the storage saves state roots. -/
def SavesRoots (Good : σ → Prop) : Prop :=
  ∀ height root s, Good s → (Storage.saveStateRoot height root s).1 = .ok () ∧
    Good (Storage.saveStateRoot height root s).2

/-- The version of a block without transactions. -/
def emptyVersion (block : Block) (sm : StateManager σ) : StateVersion where
  height := block.header.height
  root := sm.currentRoot
  timestamp := sm.clock 0
  blockHash := block.hash
  parentRoot := sm.currentRoot

/-- A block without transactions, on a manager without changes. -/
theorem applyBlock_empty_run {block : Block} {sm : StateManager σ}
    (hempty : block.body.transactions = []) (hclean : sm.dirtyAccounts = ∅)
    (hnext : NextHeight sm block)
    (hsave : (Storage.saveStateRoot block.header.height sm.currentRoot sm.storage).1 = .ok ()) :
    applyBlock block sm = (.ok (emptyVersion block sm),
      { sm with
        storage := (Storage.saveStateRoot block.header.height sm.currentRoot sm.storage).2
        clock := fun k => sm.clock (k + 1)
        currentHeight := block.header.height
        versions := sm.versions.insert block.header.height (emptyVersion block sm) }) := by
  have hroot : computeStateRoot sm = (.ok sm.currentRoot, sm) := by
    obtain ⟨root, hrun⟩ := computeStateRoot_run sm
    have hval := computeStateRoot_clean sm hclean
    rw [hrun] at hval ⊢
    rw [Outcome.ok.inj hval]
  rw [NextHeight] at hnext
  have hlt := block.header.height.toNat_lt
  have hfit : sm.currentHeight.toNat + UInt64.toNat 1 < 2 ^ 64 := by
    have hone : UInt64.toNat 1 = 1 := rfl
    omega
  have hheight : block.header.height = sm.currentHeight + 1 :=
    UInt64.toNat_inj.mp (hnext.trans (toNat_add_of_fits hfit).symm)
  rcases hst : Storage.saveStateRoot block.header.height sm.currentRoot sm.storage with ⟨o, st⟩
  rw [hst] at hsave
  change o = .ok () at hsave
  subst hsave
  unfold applyBlock
  simp only [run_bind, run_get, addU64, if_pos hfit, run_pure, ← hheight, ne_eq, not_true,
    if_false, hempty, applyTransactions, hroot, run_modify, onClock, onStorage, run_onPart,
    currentTimestamp, hst, commitDirtyAccounts_run, hclean]
  rfl

/-- A block without transactions records the root of before. -/
theorem root_of_clean {block : Block} {sm sm' : StateManager σ} {v : StateVersion}
    (hflushed : Flushed sm) (h : Recorded block sm v sm') : v.root = sm.currentRoot := by
  have hclean := computeStateRoot_clean sm hflushed.dirtyAccounts
  rw [h.root] at hclean
  exact Outcome.ok.inj hclean

/-- Blocks without transactions that one manager accepted are accepted by any other
one with the same accounts, root and height, and with the same results. -/
theorem replays_empty {Good : σ → Prop} (hsave : SavesRoots Good) {blocks : List Block}
    {sm sm' : StateManager σ} (hflushed : Flushed sm) (hflushed' : Flushed sm')
    (hgood : Good sm'.storage) (h : Restored sm sm') (hrun : Accepts blocks sm)
    (hempty : ∀ b ∈ blocks, b.body.transactions = []) : Replays blocks sm sm' := by
  induction blocks generalizing sm sm' with
  | nil => trivial
  | cons block rest ih =>
      obtain ⟨hblock, hrest⟩ := List.forall_mem_cons.mp hempty
      obtain ⟨mid, v, hnext, htr, hv, hrec, hstep⟩ := accepted_step hflushed.coherent hrun.1
      rw [hblock] at htr
      cases htr
      have hroot : v.root = sm.currentRoot := root_of_clean hflushed hrec
      have hnext' : NextHeight sm' block := by
        rw [NextHeight, h.currentHeight]
        exact hnext
      -- the second time the block finds the same root and the same height
      obtain ⟨hok, hgood'⟩ := hsave block.header.height sm'.currentRoot sm'.storage hgood
      have hrun' := applyBlock_empty_run hblock hflushed'.dirtyAccounts hnext' hok
      have hok' : (applyBlock block sm').1.IsOk := by
        rw [hrun']
        trivial
      obtain ⟨mid', v', -, htr', hv', hrec', hstep'⟩ := accepted_step hflushed'.coherent hok'
      rw [hblock] at htr'
      cases htr'
      have hroot' : v'.root = sm'.currentRoot := root_of_clean hflushed' hrec'
      have hrestored : Restored (applyBlock block sm).2 (applyBlock block sm').2 := by
        refine ⟨?_, ?_, ?_⟩
        · rw [hrec'.account, hrec.account, h.account]
        · rw [hrec'.currentRoot, hrec.currentRoot, hroot, hroot', h.currentRoot]
        · rw [hrec'.currentHeight, hrec.currentHeight]
      refine ⟨⟨v, v', hv, hv', ?_, ?_, ?_, ?_⟩, hrestored, ih hstep hstep' ?_ hrestored hrun.2 hrest⟩
      · rw [hrec'.height, hrec.height]
      · rw [hroot, hroot', h.currentRoot]
      · rw [hrec'.blockHash, hrec.blockHash]
      · rw [hrec'.parentRoot, hrec.parentRoot, h.currentRoot]
      · rw [hrun']
        exact hgood'

/-- **A revert restores an earlier height exactly when the blocks since then had
no transactions.**  In a run of accepted blocks, `revert_to_height` succeeds for
the height of every block of the run.  If the later blocks have no transactions,
the accounts, the root and the height are those after that block, and applying the
later blocks again gives the same results.  With a clock that has moved on, they
are not the same otherwise. -/
theorem revert_restores_iff {Good : σ → Prop} (hsave : SavesRoots Good) (pre post : List Block)
    (block : Block) (sm : StateManager σ) (hc : Coherent sm)
    (hrun : Accepts (pre ++ block :: post) sm)
    (hgood : Good (runBlocks (pre ++ block :: post) sm).storage) :
    let after := runBlocks (pre ++ [block]) sm
    let last := runBlocks (pre ++ block :: post) sm
    let back := revertToHeight block.header.height last
    back.1 = .ok () ∧
    ((∀ b ∈ post, b.body.transactions = []) → Restored after back.2 ∧ Replays post after back.2) ∧
    (ClockMoved after → Restored after back.2 → ∀ b ∈ post, b.body.transactions = []) := by
  intro after last back
  obtain ⟨hpre, hblock, hpost⟩ := (accepts_append pre (block :: post) sm).mp hrun
  obtain ⟨mid, v, -, -, -, hrec, hflushed⟩ := accepted_step (coherent_runBlocks hc hpre) hblock
  have hafter : after = (applyBlock block (runBlocks pre sm)).2 := runBlocks_append pre [block] sm
  have hlast : last = runBlocks post after := by
    rw [hafter]
    exact runBlocks_append pre (block :: post) sm
  rw [← hafter] at hpost hrec hflushed
  have hflushed' : Flushed last := by
    rw [hlast]
    exact flushed_runBlocks hflushed hpost
  have hversion : last.versions.lookup block.header.height = some v := by
    rw [hlast, versions_runBlocks hflushed.coherent hpost (by rw [hrec.currentHeight]),
      hrec.versions, AList.lookup_insert]
  have hback : back = (.ok (), last.reverted v block.header.height) := revertToHeight_run hversion
  have haccount := account_reverted hflushed' v block.header.height
  rw [hback]
  refine ⟨rfl, ?_, ?_⟩
  · intro hempty
    have hrestored : Restored after (last.reverted v block.header.height) := by
      refine ⟨?_, hrec.currentRoot.symm, hrec.currentHeight.symm⟩
      rw [haccount, hlast, account_runBlocks_empty hflushed.coherent hpost hempty]
    refine ⟨hrestored, replays_empty hsave hflushed ?_ hgood hrestored hpost hempty⟩
    exact flushed_reverted hflushed' v block.header.height
  · intro hclock hrestored
    rcases stamped_runBlocks hflushed.coherent hpost with hempty | ⟨a, acc, k, hacc, htime⟩
    · exact hempty
    · -- a transfer since then has left its time
      rw [← hlast, ← haccount, hrestored.account] at hacc
      exact absurd htime (hclock.accounts a acc k hacc)

end StateManager

/-! ## A transfer that is not taken back -/

section Example

open scoped Sample

/-- The in-memory storage saves every state root. -/
theorem MemoryStorage.savesRoots : StateManager.SavesRoots (fun _ : MemoryStorage => True) :=
  fun _ _ _ _ => ⟨rfl, trivial⟩

/-- The second block, with the given transactions. -/
def secondBlock (txs : List Transaction) : Block := Block.new 2 zero32 txs zero32 0

/-- An empty block, then one with a transfer.  After the revert to the first block
the sender still has what it had after the second. -/
theorem revert_keeps_transfer :
    let sm := sampleState [(sampleAddress 1, 100)]
    let blocks := [sampleBlock [],
      secondBlock [sampleTransfer (sampleAddress 1) (sampleAddress 2) 0]]
    let after := StateManager.runBlocks [sampleBlock []] sm
    let back := StateManager.revertToHeight 1 (StateManager.runBlocks blocks sm)
    StateManager.Accepts blocks sm ∧ back.1 = .ok () ∧ ¬ StateManager.Restored after back.2 := by
  intro sm blocks after back
  refine ⟨⟨?_, ?_, trivial⟩, ?_, ?_⟩
  · decide
  · decide
  · decide
  · intro h
    have haccount := congrFun h.account (sampleAddress 1)
    revert haccount
    decide

/-- A block with a transfer, then an empty one.  The revert to the first block
restores its state. -/
theorem revert_restores_empty :
    let sm := sampleState [(sampleAddress 1, 100)]
    let first := sampleBlock [sampleTransfer (sampleAddress 1) (sampleAddress 2) 0]
    let after := StateManager.runBlocks [first] sm
    let back := StateManager.revertToHeight 1 (StateManager.runBlocks [first, secondBlock []] sm)
    StateManager.Restored after back.2 ∧ StateManager.Replays [secondBlock []] after back.2 := by
  intro sm first after back
  have hrun : StateManager.Accepts [first, secondBlock []] sm := by
    refine ⟨?_, ?_, trivial⟩
    · decide
    · decide
  have hrestores := StateManager.revert_restores_iff MemoryStorage.savesRoots [] [secondBlock []]
    first sm (StateManager.coherent_of_empty rfl) hrun trivial
  refine hrestores.2.1 ?_
  intro b hb
  rw [List.mem_singleton.mp hb]
  rfl

end Example
