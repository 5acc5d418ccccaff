/-
# Atomicity of `commit_block`

`commit_block` updates the state manager, the storage, the mempool and the engine
one after the other and undoes nothing.  An error leaves all four as they were in
three cases (`FailsCleanly`): there is no proposal, `apply_block` fails before it
has written anything, or the block is empty and its state root cannot be saved.

After any other error the state manager has moved on.  In particular, when
`save_block` fails it is already at the new height, and the height check refuses
the same commit from then on.
-/
import Pacyte.ApplyAtomicity
import Pacyte.CommitCertificate
import Pacyte.RocksDBStorage

namespace Engine

open Exec

variable {σ μ ν : Type} [LawfulStorage σ]

/-- The accounts, the root and the height of the state manager, the stored blocks,
the mempool, and the height, the round and the committed blocks of the engine are
the same. -/
structure Intact (e e' : Engine σ μ ν) : Prop where
  account : e'.stateManager.account = e.stateManager.account
  currentRoot : e'.stateManager.currentRoot = e.stateManager.currentRoot
  currentHeight : e'.stateManager.currentHeight = e.stateManager.currentHeight
  blocks : LawfulStorage.blockAt e'.stateManager.storage
    = LawfulStorage.blockAt e.stateManager.storage
  mempool : e'.mempool = e.mempool
  height : e'.height = e.height
  round : e'.round = e.round
  committedBlocks : e'.committedBlocks = e.committedBlocks

/-- Only the ledger of the state manager matters. -/
theorem Intact.of_sameLedger {e : Engine σ μ ν} {sm : StateManager σ}
    (h : StateManager.SameLedger e.stateManager sm) : Intact e { e with stateManager := sm } :=
  ⟨h.account, h.currentRoot, h.currentHeight, h.blocks, rfl, rfl, rfl, rfl⟩

variable [Primitives]

/-- The error comes before anything that matters is written. -/
def FailsCleanly (e : Engine σ μ ν) : Prop :=
  ∀ p, e.currentProposal = some p →
    StateManager.FailsFirst e.stateManager p.block ∨
      StateManager.RootFails e.stateManager p.block

/-! ## How a commit fails -/

/-- The places where `commit_block` can return an error before it moves to the
next height. -/
inductive CommitFailed (e : Engine σ μ ν) : Engine σ μ ν → Prop
  | noProposal : e.currentProposal = none → CommitFailed e e
  | notApplied {p : Proposal} {x : PacyteError} {sm : StateManager σ} :
      e.currentProposal = some p →
      StateManager.applyBlock p.block e.stateManager = (.err x, sm) →
      CommitFailed e { e with stateManager := sm }
  | notSaved {p : Proposal} {version : StateVersion} {sm : StateManager σ} {st : σ} :
      e.currentProposal = some p →
      StateManager.applyBlock p.block e.stateManager = (.ok version, sm) →
      CommitFailed e { e with stateManager := { sm with storage := st } }

variable [Mempool μ σ] [Network ν]

/-- An error after the block is saved comes from the next height. -/
theorem afterSave_height (block : Block) (e : Engine σ μ ν) :
    Post (afterSave e.height block) e fun o e' =>
      o.IsErr → e'.height.toNat = e.height.toNat + 1 := by
  have hnoerr := onMempool_noErr (μ := μ) (ν := ν)
    (Mempool.cleanup (σ := σ) (block.body.transactions.map Transaction.hash)) e
  unfold afterSave
  rw [post_bind, Post]
  rcases hr : onMempool (Mempool.cleanup (block.body.transactions.map Transaction.hash)) e
    with ⟨_ | x | _, e₁⟩
  · simp only [post_bind, post_modify, emit, post_addU64]
    refine ⟨fun hfit => ?_, fun _ h => absurd h Outcome.not_isErr_panic⟩
    refine Post.mono (startNewRound_ballot _ 0 _) ?_
    rintro o e' ⟨q, hq⟩ -
    have hheight : e'.height = e.height + 1 := congrArg Ballot.height hq
    rw [hheight]
    exact toNat_add_of_fits hfit
  · rw [hr] at hnoerr
    exact absurd (Outcome.isErr_err x) hnoerr
  · exact fun h => absurd h Outcome.not_isErr_panic

/-- **An error of `commit_block` at the present height is a `CommitFailed`.** -/
theorem commitBlock_failed (e : Engine σ μ ν) (certificate : Certificate) :
    Post (commitBlock e.height certificate) e fun o e' =>
      o.IsErr → e'.height = e.height → CommitFailed e e' := by
  unfold commitBlock
  rw [post_bind, post_get]
  dsimp only
  cases hp : e.currentProposal with
  | none => exact fun _ _ => CommitFailed.noProposal hp
  | some p =>
      rw [post_bind, onState, post_onPart]
      rw [Post]
      rcases hsm : StateManager.applyBlock p.block e.stateManager with ⟨version | x | _, sm⟩
      · dsimp only
        rw [post_bind, onStorage, onState, StateManager.onStorage, post_onPart, post_onPart, Post]
        rcases hr : Storage.saveBlock p.block sm.storage with ⟨_ | _ | _, st⟩
        · rw [post_bind, post_modify]
          refine Post.mono (afterSave_height p.block { e with
            stateManager := { sm with storage := st }
            commits := e.commits ++ [⟨certificate, p.block⟩] }) ?_
          intro o e' h herr hsame
          have hnext := h herr
          rw [hsame] at hnext
          exact absurd hnext (Nat.lt_succ_self _).ne
        · exact fun _ _ => CommitFailed.notSaved hp hsm
        · exact fun h => absurd h Outcome.not_isErr_panic
      · exact fun _ _ => CommitFailed.notApplied hp hsm
      · exact fun h => absurd h Outcome.not_isErr_panic

/-! ## Clean failures -/

omit [Mempool μ σ] [Network ν] in
/-- When the root of an empty block cannot be saved, nothing else was touched. -/
theorem applyBlock_rootFails {block : Block} {sm : StateManager σ}
    (h : StateManager.RootFails sm block) :
    Post (StateManager.applyBlock block) sm fun o sm' => ¬ o.IsOk ∧
      sm'.account = sm.account ∧ sm'.currentRoot = sm.currentRoot ∧
      sm'.currentHeight = sm.currentHeight ∧
      LawfulStorage.blockAt sm'.storage = LawfulStorage.blockAt sm.storage := by
  obtain ⟨-, htxs, root, hroot, x, hx⟩ := h
  unfold StateManager.applyBlock
  rw [post_bind, post_get]
  dsimp only
  rw [post_bind, post_addU64]
  refine ⟨fun _ => ?_, fun _ => ⟨id, rfl, rfl, rfl, rfl⟩⟩
  dsimp only
  rw [post_ite]
  refine ⟨fun _ => ⟨id, rfl, rfl, rfl, rfl⟩, fun _ => ?_⟩
  rw [htxs, StateManager.applyTransactions]
  obtain ⟨root', hrun⟩ := StateManager.computeStateRoot_run sm
  obtain rfl : root' = root := by
    rw [hrun] at hroot
    exact Outcome.ok.inj hroot
  rw [post_bind, post_pure]
  dsimp only
  rw [post_bind, Post, hrun]
  dsimp only
  rw [post_bind, StateManager.post_now]
  dsimp only
  rw [post_bind, post_modify]
  dsimp only
  rw [post_bind, StateManager.onStorage, post_onPart, Post]
  obtain ⟨hacc, hblk⟩ := LawfulStorage.saveStateRoot_view block.header.height root' sm.storage
  rcases hsave : Storage.saveStateRoot block.header.height root' sm.storage with ⟨o, st⟩
  rw [hsave] at hacc hblk hx
  obtain rfl : o = .err x := hx
  refine ⟨id, ?_, rfl, rfl, hblk⟩
  funext a
  simp only [StateManager.account, hacc]

omit [Mempool μ σ] [Network ν] in
/-- A clean failure leaves everything as it was. -/
theorem CommitFailed.intact {e e' : Engine σ μ ν} (h : CommitFailed e e')
    (hclean : FailsCleanly e) : Intact e e' := by
  cases h with
  | noProposal => exact ⟨rfl, rfl, rfl, rfl, rfl, rfl, rfl, rfl⟩
  | @notApplied p x sm hp hrun =>
      rcases hclean p hp with hfirst | hroot
      · have hfailed := StateManager.applyFailed_of_isErr p.block e.stateManager
          (by rw [hrun]; exact Outcome.isErr_err x)
        rw [hrun] at hfailed
        exact Intact.of_sameLedger (hfailed.sameLedger hfirst)
      · have hspec := applyBlock_rootFails hroot
        rw [Post, hrun] at hspec
        obtain ⟨-, hacc, hr, hh, hb⟩ := hspec
        exact ⟨hacc, hr, hh, hb, rfl, rfl, rfl, rfl⟩
  | @notSaved p version sm st hp hrun =>
      -- a block that was applied has not failed cleanly
      rcases hclean p hp with hfirst | hroot
      · have hspec := StateManager.applyBlock_spec p.block e.stateManager
        rw [Post, hrun] at hspec
        obtain ⟨mid, htr, -⟩ := StateManager.Applied.transfers hspec
        exact absurd htr (hfirst.not_transfers (StateManager.Applied.next hspec))
      · have hspec := applyBlock_rootFails hroot
        rw [Post, hrun] at hspec
        exact absurd trivial hspec.1

omit [Mempool μ σ] [Network ν] in
/-- With a clock that has moved on, a failure that leaves everything as it was is
clean. -/
theorem CommitFailed.failsCleanly {e e' : Engine σ μ ν} (h : CommitFailed e e')
    (hclock : StateManager.ClockMoved e.stateManager) (hintact : Intact e e') :
    FailsCleanly e := by
  intro q hq
  cases h with
  | noProposal hp =>
      rw [hp] at hq
      cases hq
  | @notApplied p x sm hp hrun =>
      obtain rfl : p = q := Option.some.inj (hp.symm.trans hq)
      have hfailed := StateManager.applyFailed_of_isErr p.block e.stateManager
        (by rw [hrun]; exact Outcome.isErr_err x)
      rw [hrun] at hfailed
      exact hfailed.early hclock hintact.account hintact.currentHeight
  | @notSaved p version sm st hp hrun =>
      have hspec := StateManager.applyBlock_spec p.block e.stateManager
      rw [Post, hrun] at hspec
      have hnext := StateManager.Applied.next hspec
      have hheight : sm.currentHeight = e.stateManager.currentHeight := hintact.currentHeight
      rw [StateManager.NextHeight, ← StateManager.Applied.currentHeight hspec, hheight] at hnext
      omega

/-- **`commit_block` is atomic exactly on clean failures.**  An error at the
present height leaves the accounts, the root and the height of the state manager,
the stored blocks, the mempool and the engine's height, round and committed blocks
as they were if there is no proposal, if `apply_block` fails before it has written
anything, or if the root of an empty block cannot be saved, and, with a clock that
has moved on, only then. -/
theorem commitBlock_atomic_iff (e : Engine σ μ ν) (certificate : Certificate)
    (herr : (commitBlock e.height certificate e).1.IsErr)
    (hstays : (commitBlock e.height certificate e).2.height = e.height) :
    (FailsCleanly e → Intact e (commitBlock e.height certificate e).2) ∧
    (StateManager.ClockMoved e.stateManager →
      Intact e (commitBlock e.height certificate e).2 → FailsCleanly e) := by
  have hfailed := commitBlock_failed e certificate herr hstays
  exact ⟨hfailed.intact, hfailed.failsCleanly⟩

end Engine

/-! ## A block that cannot be saved -/

section Example

open scoped Sample
open Sample

/-- The only validator at height 1 with its own proposal, over a database with the
first two blocks and the given faults to come. -/
def Sample.committingEngine (faults : ℕ → Option String) :
    Engine RocksDBStorage EmptyPool OpenNetwork :=
  let storage := { RocksDBStorage.new faults with
    cfBlocks := (AList.insert 1 blockOne ∅).insert 0 blockZero
    blockHeight := some 1 }
  { ((Engine.new ⟨1000000, 10⟩ (StateManager.new storage fun _ => 7) ⟨⟩ ⟨⟩).setValidator 1
      fun _ => [1]).updateValidatorSet (validators [1]) with
    height := 1
    currentProposal := some ownProposal }

/-- The state root is saved, the block is not: the state manager is one height
further, and the same commit is refused from then on although the database works
again. -/
theorem unsaved_block_not_intact :
    let e := committingEngine fun k => if k = 1 then some "no space" else none
    let certificate : Certificate := ⟨1, 0, ownProposal.hash⟩
    let e' := (Engine.commitBlock e.height certificate e).2
    (Engine.commitBlock e.height certificate e).1.IsErr ∧ e'.height = e.height ∧
      e'.stateManager.storage.Healthy ∧ ¬ Engine.Intact e e' ∧
      (Engine.commitBlock e'.height certificate e').1.IsErr := by
  intro e certificate e'
  refine ⟨by decide, by decide, fun _ => rfl, fun h => ?_, by decide⟩
  have hne : e'.stateManager.currentHeight ≠ e.stateManager.currentHeight := by decide
  exact hne h.currentHeight

/-- The root of an empty block is not saved: nothing has changed. -/
theorem unsaved_root_intact :
    let e := committingEngine fun k => if k = 0 then some "no space" else none
    let certificate : Certificate := ⟨1, 0, ownProposal.hash⟩
    (Engine.commitBlock e.height certificate e).1.IsErr ∧
      Engine.Intact e (Engine.commitBlock e.height certificate e).2 := by
  intro e certificate
  have herr : (Engine.commitBlock e.height certificate e).1.IsErr := by decide
  refine ⟨herr, (Engine.commitBlock_atomic_iff e certificate herr (by decide)).1 ?_⟩
  rintro p ⟨⟩
  exact Or.inr ⟨rfl, rfl, _, rfl, .rocksDBError "no space", rfl⟩

end Example
