/-
# The committed chain is linked

`commit_block` takes whatever is in `current_proposal`: a proposal that was
accepted, one the node made for any height, or one that is left over.  What ties
it to the chain is that its block either names the latest stored block as its
predecessor or has a height that `apply_block` will refuse (`Linked.proposal`).

With a storage that does not fail and that returns the block saved last, every
saved block therefore follows the one saved before it.
-/
import Pacyte.Steady
import Pacyte.Upheld
import Pacyte.CommitCertificate

section Follows

variable [Primitives]

/-- The block has the next height and names `prev` as its predecessor. -/
structure Follows (prev block : Block) : Prop where
  height : block.header.height.toNat = prev.header.height.toNat + 1
  previousHash : block.header.previousHash = prev.hash

/-- The heights along a linked chain are all different. -/
theorem Follows.nodup_heights {blocks : List Block} (h : List.IsChain Follows blocks) :
    (blocks.map fun b => b.header.height).Nodup := by
  have hlt : List.IsChain (fun a b : UInt64 => a.toNat < b.toNat)
      (blocks.map fun b => b.header.height) := by
    refine List.isChain_map_of_isChain _ ?_ h
    intro a b hab
    rw [hab.height]
    exact Nat.lt_succ_self _
  have : IsTrans UInt64 fun a b => a.toNat < b.toNat := ⟨fun _ _ _ => Nat.lt_trans⟩
  refine (List.isChain_iff_pairwise.mp hlt).imp ?_
  rintro a b hab rfl
  exact Nat.lt_irrefl _ hab

end Follows

namespace Engine

open Exec

variable {σ μ ν : Type} [Primitives]

/-- The block `start` and the blocks saved after it. -/
def chain (start : Block) (e : Engine σ μ ν) : List Block := start :: e.commits.map (·.block)

/-- The saved blocks form a chain that ends in the latest stored block, and the
current proposal extends it or is stale. -/
structure Linked (Good : σ → Prop) (latest : σ → Block) (start : Block) (e : Engine σ μ ν) :
    Prop where
  good : Good e.stateManager.storage
  height : e.stateManager.currentHeight = (latest e.stateManager.storage).header.height
  proposal : ∀ p, e.currentProposal = some p →
    p.block.header.previousHash = (latest e.stateManager.storage).hash ∨
      p.block.header.height.toNat ≤ e.stateManager.currentHeight.toNat
  chain : List.IsChain Follows (e.chain start)
  last : (e.chain start).getLast? = some (latest e.stateManager.storage)

variable {Good : σ → Prop} {latest : σ → Block} {start : Block}

/-- A steady move keeps the links. -/
theorem Linked.steady {e e' : Engine σ μ ν} (h : Linked Good latest start e)
    (hs : Steady Good latest e e') : Linked Good latest start e' := by
  obtain ⟨hgood, hlatest, hheight⟩ := hs.stateManager h.good
  have hchain : e'.chain start = e.chain start := by rw [Engine.chain, Engine.chain, hs.commits]
  refine ⟨hgood, ?_, ?_, ?_, ?_⟩
  · rw [hheight, hlatest, h.height]
  · rw [hs.currentProposal, hlatest, hheight]
    exact h.proposal
  · rw [hchain]
    exact h.chain
  · rw [hchain, hlatest]
    exact h.last

variable [Storage σ]

omit [Primitives] in
/-- `get_latest_block` returns the latest block. -/
theorem getLatestBlock_latest (h : Storage.KeepsLatest Good latest) (e : Engine σ μ ν)
    (hgood : Good e.stateManager.storage) :
    Post (onStorage Storage.getLatestBlock) e fun o _ => ∀ r, o = .ok r →
      r = some (latest e.stateManager.storage) :=
  fun r hr => h.getLatestBlock_eq e.stateManager.storage r hgood hr

/-- A created block names the latest block as its predecessor. -/
theorem createBlock_previousHash [Mempool μ σ] (h : Storage.KeepsLatest Good latest)
    (height : BlockHeight) (e : Engine σ μ ν) (hgood : Good e.stateManager.storage) :
    Post (createBlock height) e fun o _ => ∀ block, o = .ok block →
      block.header.previousHash = (latest e.stateManager.storage).hash := by
  unfold createBlock
  refine (getLatestBlock_latest h e hgood).seq ?_ (by rintro _ _ - _ ⟨⟩) (by rintro _ - _ ⟨⟩)
  intro r e₁ hr
  rw [hr r rfl]
  refine Returns.bind (P := fun block : Block =>
    block.header.previousHash = (latest e.stateManager.storage).hash) _ (fun _ => ?_) e₁
  exact Returns.bind _ fun txs => Returns.bind _ fun proposer => Returns.bind _ fun now =>
    Returns.pure rfl

/-- A block that passes the check names the latest block as its predecessor. -/
theorem validateBlock_previousHash (h : Storage.KeepsLatest Good latest) (block : Block)
    (e : Engine σ μ ν) (hgood : Good e.stateManager.storage) :
    Post (validateBlock block) e fun o _ => o = .ok true →
      block.header.previousHash = (latest e.stateManager.storage).hash := by
  unfold validateBlock
  rw [post_bind, post_get]
  dsimp only
  rw [post_ite]
  refine ⟨by rintro - ⟨⟩, fun _ => ?_⟩
  refine (getLatestBlock_latest h e hgood).seq ?_ (by rintro _ _ - ⟨⟩) (by rintro _ - ⟨⟩)
  intro r e₁ hr
  rw [hr r rfl]
  dsimp only
  rw [post_ite]
  exact ⟨by rintro - ⟨⟩, fun hprev _ => not_not.mp hprev⟩

variable [LawfulMempool μ σ] [Network ν]

omit [Network ν] in
/-- Between commits the links are kept. -/
theorem linked_proposes (h : Storage.KeepsLatest Good latest) (start : Block) :
    Proposes (Steady (μ := μ) (ν := ν) Good latest)
      (fun e block => block.header.previousHash = (latest e.stateManager.storage).hash)
      (Linked Good latest start) (fun e => List.IsChain Follows (e.chain start)) where
  inert := voteInert_steady h.toDependable
  height _ _ hs := hs.height
  panic _ he := he.chain
  moves _ _ hs he := he.steady hs
  round _ _ _ _ he := ⟨he.good, he.height, he.proposal, he.chain, he.last⟩
  fits e e' block hs he hfits := by rw [hfits, (hs.stateManager he.good).2.1]
  created height e block he := createBlock_previousHash h height e he.good block
  validated e block he := validateBlock_previousHash h block e he.good
  proposal e p he hfits := by
    refine ⟨he.good, he.height, ?_, he.chain, he.last⟩
    rintro q ⟨⟩
    exact Or.inl hfits

omit [Storage σ] [LawfulMempool μ σ] [Network ν] in
/-- The state with the current proposal's block saved. -/
theorem Linked.saved {e : Engine σ μ ν} (he : Linked Good latest start e) {p : Proposal}
    (hp : e.currentProposal = some p) {sm : StateManager σ} (certificate : Certificate)
    (hfollows : Follows (latest e.stateManager.storage) p.block)
    (hgood : Good sm.storage) (hlatest : latest sm.storage = p.block)
    (hheight : sm.currentHeight = p.block.header.height) :
    Linked Good latest start
      { e with stateManager := sm, commits := e.commits ++ [⟨certificate, p.block⟩] } := by
  have hchain : Engine.chain start
      { e with stateManager := sm, commits := e.commits ++ [⟨certificate, p.block⟩] }
        = e.chain start ++ [p.block] := by
    rw [Engine.chain, Engine.chain, List.map_append, List.cons_append]
    rfl
  refine ⟨hgood, by rw [hheight, hlatest], ?_, ?_, ?_⟩
  · intro q hq
    obtain rfl : p = q := Option.some.inj (hp.symm.trans hq)
    exact Or.inr (by rw [hheight])
  · rw [hchain]
    refine he.chain.append (List.isChain_singleton _) ?_
    rintro x hx y ⟨⟩
    obtain rfl : latest e.stateManager.storage = x := Option.some.inj (he.last.symm.trans hx)
    exact hfollows
  · rw [hchain, List.getLast?_concat, hlatest]

/-- What `commit_block` does after the block is saved keeps the links. -/
theorem linked_afterSave (h : Storage.KeepsLatest Good latest) (height : BlockHeight)
    (block : Block) :
    Keeps (Linked Good latest start) (fun e => List.IsChain Follows (e.chain start))
      (afterSave height block : Exec PacyteError (Engine σ μ ν) Unit) := by
  have hpr := linked_proposes (μ := μ) (ν := ν) h start
  have hcleanup := onMempool_steady (μ := μ) (ν := ν) h.toDependable
    (LawfulMempool.cleanup_lookups (block.body.transactions.map Transaction.hash))
  refine Keeps.bind (hpr.keeps hcleanup) fun _ => ?_
  refine Keeps.bind (Keeps.modify fun e he => ?_) fun _ => ?_
  · exact ⟨he.good, he.height, he.proposal, he.chain, he.last⟩
  refine Keeps.bind (hpr.keeps (hpr.inert.emit _)) fun _ => ?_
  refine Keeps.bind (hpr.keeps (Within.addU64 _ _)) fun next => ?_
  refine Keeps.bind (Keeps.modify fun e he => ?_) fun _ => hpr.startNewRound next 0
  exact ⟨he.good, he.height, he.proposal, he.chain, he.last⟩

/-- **A commit keeps the links.** -/
theorem linked_commit (h : Storage.KeepsLatest Good latest) (e : Engine σ μ ν)
    (height : BlockHeight) (certificate : Certificate) (he : Linked Good latest start e) :
    Post (commitBlock height certificate) e
      (Ends (Linked Good latest start) fun e => List.IsChain Follows (e.chain start)) := by
  refine commitBlock_rule h.toDependable e height certificate he.good (fun _ => he.steady)
    (fun _ => he.chain) ?_
  intro p sm st hp hnext hheight hgood hlatest hsave
  -- a stale proposal has not passed the height check
  have hprev : p.block.header.previousHash = (latest e.stateManager.storage).hash := by
    refine (he.proposal p hp).resolve_right fun hle => ?_
    rw [StateManager.NextHeight] at hnext
    omega
  have hnext : p.block.header.height.toNat
      = (latest e.stateManager.storage).header.height.toNat + 1 := by
    rw [← he.height]
    exact hnext
  have hsaved := h.saveBlock p.block sm.storage hgood (by rw [hlatest, hnext]) (by rw [hsave])
  rw [hsave] at hsaved
  exact linked_afterSave h height p.block _
    (he.saved hp certificate ⟨hnext, hprev⟩ hsaved.1 hsaved.2 hheight)

theorem linked_upheld (h : Storage.KeepsLatest Good latest) (start : Block) :
    Upheld (Steady (μ := μ) (ν := ν) Good latest)
      (fun e block => block.header.previousHash = (latest e.stateManager.storage).hash)
      (Linked Good latest start) (fun e => List.IsChain Follows (e.chain start)) where
  toProposes := linked_proposes h start
  commit e certificate he := linked_commit h e e.height certificate he

/-- The start-up keeps the links. -/
theorem linked_startUp (h : Storage.KeepsLatest Good latest) (start : Block) :
    Keeps (Linked Good latest start) (fun e => List.IsChain Follows (e.chain start))
      (startUp : Exec PacyteError (Engine σ μ ν) Unit) := by
  have hpr := linked_proposes (μ := μ) (ν := ν) h start
  have hraise : Keeps (Linked Good latest start) (fun e => List.IsChain Follows (e.chain start))
      (raiseHeight : Exec PacyteError (Engine σ μ ν) Unit) := by
    have hread : Within (Steady (μ := μ) (ν := ν) Good latest) (onStorage Storage.getBlockHeight) :=
      onState_steady (StateManager.onStorage_steady h.getBlockHeight)
    refine Keeps.bind (hpr.keeps (hread.unwrapOr 0)) fun saved => Keeps.modify fun e he => ?_
    split_ifs
    · exact ⟨he.good, he.height, he.proposal, he.chain, he.last⟩
    · exact he
  exact Keeps.bind hraise fun _ => Keeps.bind Keeps.get fun e =>
    Keeps.bind (hpr.startNewRound _ _) fun _ => hraise

end Engine

/-! ## Runs -/

namespace Node

open Engine

variable {σ μ ν : Type} [Primitives] [Storage σ] [LawfulMempool μ σ] [Network ν]

/-- **The committed chain is linked and has no gaps.**  On a storage that does
not fail and returns the block saved last, started where the height of the state
manager is the one of that block, every block that a run saves has the height
after the block saved before it and names it as its predecessor; no height is
saved twice. -/
theorem commits_linked {Good : σ → Prop} {latest : σ → Block}
    (h : Storage.KeepsLatest Good latest) (e : Engine σ μ ν)
    (hgood : Good e.stateManager.storage)
    (hheight : e.stateManager.currentHeight = (latest e.stateManager.storage).header.height)
    (hproposal : e.currentProposal = none) (hcommits : e.commits = [])
    (commands : List ConsensusCommand) :
    let blocks := ((boot e).run commands).engine.chain (latest e.stateManager.storage)
    List.IsChain Follows blocks ∧ (blocks.map fun b => b.header.height).Nodup := by
  set start := latest e.stateManager.storage with hstart
  have hinit : Linked Good latest start e := by
    refine ⟨hgood, hheight, ?_, ?_, ?_⟩
    · intro p hp
      rw [hproposal] at hp
      cases hp
    · rw [Engine.chain, hcommits]
      exact List.isChain_singleton _
    · rw [Engine.chain, hcommits]
      rfl
  have hheld := run_holds (linked_upheld h start) (boot e) commands
    (boot_holds (fun _ he => he.chain) (linked_startUp h start e hinit))
  have hchain : List.IsChain Follows (((boot e).run commands).engine.chain start) := by
    rw [Holds] at hheld
    split_ifs at hheld
    · exact hheld.chain
    · exact hheld
  exact ⟨hchain, Follows.nodup_heights hchain⟩

end Node

/-! ## Two blocks on top of the first -/

section Example

open scoped Sample
open Sample

/-- A storage with the first block only. -/
def Sample.genesisStorage : MemoryStorage :=
  { MemoryStorage.new (fun _ => 0) with blocks := [blockZero] }

/-- The engine of the only validator over `genesisStorage`. -/
def Sample.genesisEngine : Engine MemoryStorage EmptyPool OpenNetwork :=
  { engine 1 [1] 7 with stateManager := StateManager.new genesisStorage fun _ => 7 }

/-- Blocks asked for by `Propose` commands, one and two heights above the first,
and committed by one precommit each: they are linked. -/
theorem two_commits_linked :
    let node := Node.boot genesisEngine
    let commands := [ConsensusCommand.propose 1 0,
      .voteReceived { vote .precommit 1 0 zero32 with height := 0 },
      .propose 2 0, .voteReceived (vote .precommit 1 0 zero32)]
    (node.run commands).engine.commits.length = 2 ∧
      List.IsChain Follows ((node.run commands).engine.chain blockZero) ∧
      (((node.run commands).engine.chain blockZero).map fun b => b.header.height).Nodup := by
  intro node commands
  have hchain := Node.commits_linked MemoryStorage.keepsLatest genesisEngine
    ⟨blockZero, rfl, rfl⟩ rfl rfl rfl commands
  exact ⟨by decide, hchain⟩

end Example
