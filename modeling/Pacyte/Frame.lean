/-
# What the engine's reads leave alone

Between two votes the engine reads the clock, the storage and the mempool, emits
events and sends proposals.  A relation between engine states that all of these
respect is `Inert`; the functions of the engine that do nothing else then move
along it.  `VoteInert` adds the votes.

`afterSave` names the end of `commit_block`, which two arguments below share.
-/
import Pacyte.Engine

namespace Engine

open Exec

variable {σ μ ν : Type} [Storage σ] [Mempool μ σ]

/-- Clock readings, reads, events and proposals that are sent move along `R`. -/
structure Inert (R : Engine σ μ ν → Engine σ μ ν → Prop) : Prop where
  clock : ∀ (e : Engine σ μ ν) c,
    R e { e with stateManager := { e.stateManager with clock := c } }
  latestBlock : Within R (onStorage Storage.getLatestBlock)
  selectForBlock : ∀ count size, Within R (onMempool (Mempool.selectForBlock count size))
  event : ∀ e event, R e { e with events := e.events ++ [event] }
  sent : ∀ e p, R e { e with sent := e.sent ++ [.proposal p] }
  network : ∀ (e : Engine σ μ ν) n, R e { e with network := n }
  commands : ∀ e command, R e { e with commands := e.commands ++ [command] }

/-- Also votes that are recorded or sent move along `R`. -/
structure VoteInert (R : Engine σ μ ν → Engine σ μ ν → Prop) : Prop extends Inert R where
  recorded : ∀ e v, R e (addVote v e)
  voted : ∀ e v, R e { e with sent := e.sent ++ [.vote v] }

namespace Inert

variable {R : Engine σ μ ν → Engine σ μ ν → Prop}

theorem onClock {α : Type} (h : Inert R) (m : Exec PacyteError Clock α) :
    Within R (Engine.onClock m) := fun e => h.clock e _

theorem emit (h : Inert R) (event : ConsensusEvent) : Within R (Engine.emit event) :=
  fun e => h.event e event

variable [Std.Refl R] [IsTrans (Engine σ μ ν) R]

omit [Storage σ] [Mempool μ σ] [IsTrans (Engine σ μ ν) R] in
theorem requireId : Within R Engine.requireId := by
  intro e
  unfold Engine.requireId
  rw [run_bind, run_get]
  dsimp only
  cases e.myValidatorId <;> exact refl_of R e

omit [Storage σ] [Mempool μ σ] in
theorem getProposer (height : BlockHeight) (round : UInt64) :
    Within R (Engine.getProposer height round) := by
  refine Within.bind Within.get fun e => Within.bind ?_ fun _ => Within.pure _
  unfold ValidatorSet.getProposer
  exact Within.ite (Within.pure _) (Within.bind (Within.addU64 _ _) fun _ => Within.pure _)

omit [Storage σ] [Mempool μ σ] in
theorem amIProposer (height : BlockHeight) (round : UInt64) :
    Within R (Engine.amIProposer height round) := by
  refine Within.bind Within.get fun e => ?_
  cases e.myValidatorId with
  | none => exact Within.pure _
  | some id => exact Within.bind (getProposer height round) fun _ => Within.pure _

theorem validateTransactions (h : Inert R) (txs : List Transaction) :
    Within R (Engine.validateTransactions txs) := by
  induction txs with
  | nil => exact Within.pure _
  | cons tx rest ih => exact Within.bind (h.onClock _) fun _ => Within.ite ih (Within.pure _)

variable [Primitives]

theorem createBlock (h : Inert R) (height : BlockHeight) :
    Within R (Engine.createBlock height) := by
  refine Within.bind h.latestBlock fun prev => ?_
  cases prev with
  | none => exact Within.bind (Within.subU64 _ _) fun _ => Within.throw _
  | some prev =>
      exact Within.bind Within.get fun e => Within.bind (h.selectForBlock _ _) fun txs =>
        Within.bind requireId fun _ => Within.bind (h.onClock _) fun _ => Within.pure _

theorem createProposal (h : Inert R) (height : BlockHeight) (round : UInt64) (block : Block) :
    Within R (Engine.createProposal height round block) :=
  Within.bind requireId fun _ => Within.bind (h.onClock _) fun _ =>
    Within.bind Within.get fun _ => Within.pure _

theorem validateBlock (h : Inert R) (block : Block) : Within R (Engine.validateBlock block) := by
  refine Within.bind Within.get fun e => Within.ite (Within.pure _) ?_
  refine Within.bind h.latestBlock fun prev => ?_
  cases prev with
  | none => exact h.validateTransactions _
  | some prev => exact Within.ite (Within.pure _) (h.validateTransactions _)

omit [Primitives] [Std.Refl R] in
theorem broadcastProposal [Network ν] (h : Inert R) (proposal : Proposal) :
    Within R (Engine.broadcastProposal proposal) :=
  Within.bind (Within.bind (fun e => h.sent e proposal.wire) fun _ e => h.network e _) fun _ e =>
    h.commands e _

end Inert

variable {R : Engine σ μ ν → Engine σ μ ν → Prop} [Std.Refl R] [IsTrans (Engine σ μ ν) R]

theorem VoteInert.castVote [Primitives] [Network ν] (h : VoteInert R) (blockHash : Hash)
    (voteType : VoteType) : Within R (Engine.castVote blockHash voteType) := by
  refine Within.bind Within.get fun e => Within.bind Inert.requireId fun voter => ?_
  refine Within.bind (h.onClock _) fun now => Within.bind (fun e' => h.recorded e' _) fun _ => ?_
  refine Within.bind (Within.bind (fun e' => h.voted e' _) fun _ e' => h.network e' _) fun _ => ?_
  exact Within.bind (h.emit _) fun _ => Within.pure _

/-! ## The end of a commit -/

omit [Storage σ] [Mempool μ σ] in
/-- A mempool operation returns no error. -/
theorem onMempool_noErr {α : Type} (m : Exec Empty (μ × StateManager σ) α) (e : Engine σ μ ν) :
    ¬ (onMempool m e : Outcome PacyteError α × Engine σ μ ν).1.IsErr := by
  rw [onMempool, run_onPart, infallible]
  rcases m (e.mempool, e.stateManager) with ⟨_ | x | _, p⟩
  · exact Outcome.not_isErr_ok _
  · exact x.elim
  · exact Outcome.not_isErr_panic

/-- The part of `commit_block` after the block is saved. -/
def afterSave [Primitives] [Network ν] (height : BlockHeight) (block : Block) :
    Exec PacyteError (Engine σ μ ν) Unit := do
  onMempool (Mempool.cleanup (block.body.transactions.map Transaction.hash))
  Exec.modify fun e =>
    { e with committedBlocks := e.committedBlocks ++ [block.hash], state := .committed }
  emit (.blockCommitted block height)
  let next ← Exec.addU64 height 1
  Exec.modify fun e => { e with height := next, round := 0 }
  startNewRound next 0

end Engine
