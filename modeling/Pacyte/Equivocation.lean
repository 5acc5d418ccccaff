/-
# Equivocation

Does a node ever broadcast two prevotes, or two precommits, for different blocks
in one round?

`handle_proposal` prevotes for every valid proposal of the present round, the
second as well as the first, and `check_prevote_quorum` precommits whenever a
hash has a quorum, whatever was precommitted before.  Runs in which neither
happens (`VotesOnce`) are free of equivocation (`never_equivocates`): rounds only
move forward, so all votes of a round are cast while the node is in it, and its
prevotes are for the current proposal.
-/
import Pacyte.CommitCertificate

/-! ## The property and the condition -/

/-- No two votes of one kind, height and round are for different blocks. -/
def NoEquivocation (votes : List ConsensusVote) : Prop :=
  ∀ w ∈ votes, ∀ w' ∈ votes, w.voteType = w'.voteType → w.height = w'.height →
    w.round = w'.round → w.blockHash = w'.blockHash

/-- The commands of peers and of the timer. -/
def ConsensusCommand.IsExternal : ConsensusCommand → Prop
  | .proposalReceived _ => True
  | .voteReceived _ => True
  | .timeout _ _ => True
  | _ => False

namespace Node

open Ballot

variable {σ μ ν : Type} [Primitives] [Storage σ] [Mempool μ σ] [Network ν]

/-- The command does not make the node vote twice in the round. -/
structure VotesOnce (node : Node σ μ ν) (command : ConsensusCommand) : Prop where
  /-- A proposal is not accepted after one of another block in the same round. -/
  proposal : ∀ p q, command = .proposalReceived p → node.engine.Accepts p →
    node.engine.currentProposal = some q → q.height = node.engine.height →
    q.round = node.engine.round → q.hash = p.hash
  /-- A quorum of prevotes is not reached after a precommit for another block in
  the same round. -/
  precommit : ∀ x b, CountsPrevotes node.engine.Accepts node.engine.ballot command x b →
    PrevoteQuorum b x → ∀ w ∈ node.engine.ballot.votes, w.voteType = .precommit →
    w.height = node.engine.height → w.round = node.engine.round → w.blockHash = x

end Node

/-! ## The invariant -/

namespace Ballot

variable [Primitives]

/-- The prevotes of the present round are for the current proposal, all votes are
of the present round or of earlier ones, and there is no equivocation. -/
structure RoundInv (b : Ballot) : Prop where
  agree : NoEquivocation b.votes
  past : ∀ w ∈ b.votes, w.height.toNat < b.height.toNat ∨
    w.height = b.height ∧ w.round.toNat ≤ b.round.toNat
  prevote : ∀ w ∈ b.votes, w.voteType = .prevote → w.height = b.height → w.round = b.round →
    ∃ q, b.proposal = some q ∧ q.height = b.height ∧ q.round = b.round ∧ q.hash = w.blockHash

variable {b b' : Ballot} {x : Hash}

theorem RoundInv.record (h : RoundInv b) (v : Vote) : RoundInv (b.record v) := by
  refine ⟨?_, ?_, ?_⟩
  · rw [votes_record]
    exact h.agree
  · rw [votes_record, height_record, round_record]
    exact h.past
  · rw [votes_record, height_record, round_record, proposal_record]
    exact h.prevote

/-- An own vote may be cast if the earlier ones of its kind in the round are for
the same block, and a prevote is for the current proposal. -/
theorem RoundInv.cast (h : RoundInv b) {voteType : VoteType} {v : Vote}
    (hown : Own b voteType x v)
    (hsame : ∀ w ∈ b.votes, w.voteType = voteType → w.height = b.height → w.round = b.round →
      w.blockHash = x)
    (hprop : voteType = .prevote →
      ∃ q, b.proposal = some q ∧ q.height = b.height ∧ q.round = b.round ∧ q.hash = x) :
    RoundInv (b.cast v) := by
  obtain ⟨-, hvh, hvr, hvx, hvt⟩ := hown
  have hnew : ∀ w ∈ b.votes, w.voteType = v.wire.voteType → w.height = v.wire.height →
      w.round = v.wire.round → w.blockHash = v.wire.blockHash := by
    intro w hw h₁ h₂ h₃
    rw [hsame w hw (h₁.trans hvt) (h₂.trans hvh) (h₃.trans hvr)]
    exact hvx.symm
  refine ⟨?_, ?_, ?_⟩
  · intro w hw w' hw' h₁ h₂ h₃
    rw [votes_cast, List.mem_append, List.mem_singleton] at hw hw'
    rcases hw with hw | rfl <;> rcases hw' with hw' | rfl
    · exact h.agree w hw w' hw' h₁ h₂ h₃
    · exact hnew w hw h₁ h₂ h₃
    · exact (hnew w' hw' h₁.symm h₂.symm h₃.symm).symm
    · rfl
  · intro w hw
    rw [votes_cast, List.mem_append, List.mem_singleton] at hw
    rw [height_cast, round_cast]
    rcases hw with hw | rfl
    · exact h.past w hw
    · exact Or.inr ⟨hvh, le_of_eq (congrArg UInt64.toNat hvr)⟩
  · intro w hw h₁ h₂ h₃
    rw [votes_cast, List.mem_append, List.mem_singleton] at hw
    rw [height_cast] at h₂
    rw [round_cast] at h₃
    rw [height_cast, round_cast, proposal_cast]
    rcases hw with hw | rfl
    · exact h.prevote w hw h₁ h₂ h₃
    · obtain ⟨q, hq⟩ := hprop (hvt.symm.trans h₁)
      exact ⟨q, hq.1, hq.2.1, hq.2.2.1, hq.2.2.2.trans hvx.symm⟩

/-- A proposal of the present round may be stored if the prevotes of the round
are for its block. -/
theorem RoundInv.accept (h : RoundInv b) {p : Proposal} (hheight : p.height = b.height)
    (hround : p.round = b.round)
    (hsame : ∀ w ∈ b.votes, w.voteType = .prevote → w.height = b.height → w.round = b.round →
      w.blockHash = p.hash) : RoundInv { b with proposal := some p } :=
  ⟨h.agree, h.past, fun w hw h₁ h₂ h₃ =>
    ⟨p, rfl, hheight, hround, (hsame w hw h₁ h₂ h₃).symm⟩⟩

/-- A later round has no votes yet. -/
theorem RoundInv.later (h : RoundInv b) (height : BlockHeight) (round : UInt64)
    (q : Option Proposal) (commits : List Commit)
    (hlater : b.height.toNat < height.toNat ∨
      height = b.height ∧ b.round.toNat < round.toNat) :
    RoundInv { b with height := height, round := round, proposal := q, commits := commits } := by
  refine ⟨h.agree, ?_, ?_⟩
  · intro w hw
    rcases h.past w hw with hp | ⟨hp, hp'⟩ <;> rcases hlater with hl | ⟨hl, hl'⟩
    · exact Or.inl (hp.trans hl)
    · exact Or.inl (hl ▸ hp)
    · exact Or.inl (hp ▸ hl)
    · exact Or.inr ⟨hp.trans hl.symm, by show w.round.toNat ≤ round.toNat; omega⟩
  · intro w hw _ h₂ h₃
    exfalso
    have h₂ : w.height = height := h₂
    have h₃ : w.round = round := h₃
    subst h₂ h₃
    rcases h.past w hw with hp | ⟨hp, hp'⟩ <;> rcases hlater with hl | ⟨hl, hl'⟩
    · omega
    · rw [hl] at hp
      omega
    · rw [hp] at hl
      omega
    · omega

theorem RoundInv.commits (h : RoundInv b) (hc : Commits x b b') : RoundInv b' := by
  cases hc with
  | stays => exact h
  | saved _ _ => exact ⟨h.agree, h.past, h.prevote⟩
  | advanced _ _ hnext => exact h.later _ 0 _ _ (Or.inl (by omega))

/-- A precommit may follow if the earlier ones of the round are for the same
block. -/
theorem RoundInv.precommits (h : RoundInv b) (hp : Precommits x b b')
    (hsame : PrevoteQuorum b x → ∀ w ∈ b.votes, w.voteType = .precommit →
      w.height = b.height → w.round = b.round → w.blockHash = x) : RoundInv b' := by
  cases hp with
  | stays => exact h
  | cast hq hown hc => exact (h.cast hown (hsame hq) (fun hc => by cases hc)).commits hc

end Ballot

namespace Node

open Ballot

variable {σ μ ν : Type} [Primitives] [Storage σ] [Mempool μ σ] [Network ν]

/-- **One command that votes at most once keeps the invariant.** -/
theorem roundInv_step (node : Node σ μ ν) (command : ConsensusCommand)
    (hext : command.IsExternal) (honce : VotesOnce node command)
    (hinv : RoundInv node.engine.ballot) : RoundInv (node.step command).engine.ballot := by
  have hstep := node.step_ballot command
  generalize (node.step command).engine.ballot = b' at hstep
  -- an accepted proposal is for the block of the earlier prevotes of the round
  have haccept : ∀ p, command = .proposalReceived p → node.engine.Accepts p →
      RoundInv { node.engine.ballot with proposal := some p } := by
    intro p hcommand hacc
    refine hinv.accept hacc.height hacc.round ?_
    intro w hw h₁ h₂ h₃
    obtain ⟨q, hq, hqh, hqr, hqx⟩ := hinv.prevote w hw h₁ h₂ h₃
    exact hqx.symm.trans (honce.proposal p q hcommand hacc hq hqh hqr)
  cases hstep with
  | idle => exact hinv
  | propose => exact hext.elim
  | timeout hnext => exact hinv.later _ _ _ _ (Or.inr ⟨rfl, by omega⟩)
  | accepted hacc => exact haccept _ rfl hacc
  | @prevoted p v b' hacc hown hpre =>
      have hmid := haccept p rfl hacc
      have hown' : Own { node.engine.ballot with proposal := some p } .prevote p.hash v :=
        ⟨hown.voter, hown.height, hown.round, hown.blockHash, hown.voteType⟩
      have hcast : RoundInv (cast v { node.engine.ballot with proposal := some p }) := by
        refine hmid.cast hown' ?_ ?_
        · intro w hw h₁ h₂ h₃
          obtain ⟨q, hq, -, -, hqx⟩ := hmid.prevote w hw h₁ h₂ h₃
          obtain rfl := Option.some.inj hq
          exact hqx.symm
        · exact fun _ => ⟨p, rfl, hacc.height, hacc.round, rfl⟩
      refine hcast.precommits hpre ?_
      intro hq w hw h₁ h₂ h₃
      rw [height_cast] at h₂
      rw [round_cast] at h₃
      rw [votes_cast, List.mem_append, List.mem_singleton] at hw
      rcases hw with hw | rfl
      · exact honce.precommit p.hash _ (CountsPrevotes.proposal hacc hown) hq w hw h₁ h₂ h₃
      · rw [show v.wire.voteType = .prevote from hown.voteType] at h₁
        cases h₁
  | @prevoteReceived v b' hh hr ht hpre =>
      refine (hinv.record v).precommits hpre ?_
      intro hq w hw h₁ h₂ h₃
      rw [height_record] at h₂
      rw [round_record] at h₃
      rw [votes_record] at hw
      exact honce.precommit v.blockHash _ (CountsPrevotes.received hh hr ht) hq w hw h₁ h₂ h₃
  | @precommitReceived v b' hh hr ht hcom => exact (hinv.record v).commits hcom

/-- **A node whose commands make it vote at most once never equivocates.**  From
a node that has not voted yet, over any proposals, votes and timeouts, if no
proposal is accepted after one of another block in the same round and no quorum
of prevotes is reached after a precommit for another block in the same round,
then no two prevotes and no two precommits of one round are for different
blocks. -/
theorem never_equivocates (node : Node σ μ ν) (commands : List ConsensusCommand)
    (hfresh : node.engine.ballot.Fresh)
    (hmeets : Meets (fun n c => c.IsExternal ∧ VotesOnce n c) node commands) :
    NoEquivocation (votesAmong (node.run commands).engine.sent) := by
  have hinit : RoundInv node.engine.ballot := by
    refine ⟨?_, ?_, ?_⟩ <;> intro w hw <;> rw [hfresh.votes] at hw <;> cases hw
  have hinv := run_invariant (I := fun _ n => RoundInv n.engine.ballot)
    (fun _ n c hc hn => roundInv_step n c hc.1 hc.2 hn) [] node commands hmeets hinit
  exact hinv.agree

end Node

/-! ## Two proposals in one round -/

section Example

open scoped Sample
open Sample

/-- A proposal of validator 2 for height 1 and round 0, made at time `now`. -/
def rivalProposal (now : Timestamp) : Proposal :=
  (Proposal.new 1 0 (Block.new 1 blockOne.hash [] zero32 now) 2 now).signed (some fun _ => [1])

/-- Validator 1 of four receives two proposals of the same round and prevotes for
both blocks. -/
theorem two_proposals_equivocate :
    let node := Node.boot (engine 1 [1, 2, 3, 4] 7)
    let commands := [ConsensusCommand.proposalReceived (rivalProposal 7),
      ConsensusCommand.proposalReceived (rivalProposal 8)]
    node.engine.ballot.Fresh ∧
      ¬ NoEquivocation (votesAmong (node.run commands).engine.sent) := by
  intro node commands
  refine ⟨Node.boot_fresh _ ⟨rfl, rfl, rfl, rfl⟩, fun h => ?_⟩
  have htwo : ∃ w ∈ votesAmong (node.run commands).engine.sent,
      ∃ w' ∈ votesAmong (node.run commands).engine.sent, w.voteType = w'.voteType ∧
        w.height = w'.height ∧ w.round = w'.round ∧ w.blockHash ≠ w'.blockHash := by
    decide +kernel
  obtain ⟨w, hw, w', hw', h₁, h₂, h₃, hne⟩ := htwo
  exact hne (h w hw w' hw' h₁ h₂ h₃)

/-- A command about the one block that the node knows of does not make it vote for two. -/
theorem votesOnce_of_one {node : Node MemoryStorage EmptyPool OpenNetwork}
    {command : ConsensusCommand} {x : Hash}
    (hproposal : ∀ q ∈ node.engine.currentProposal, q.hash = x)
    (hvotes : ∀ w ∈ node.engine.ballot.votes, w.blockHash = x)
    (hproposed : ∀ p, command = .proposalReceived p → p.hash = x)
    (hreceived : ∀ v, command = .voteReceived v → v.blockHash = x) : Node.VotesOnce node command := by
  refine ⟨fun p q hp _ hq _ _ => ?_, fun y b hcounts _ w hw _ _ _ => ?_⟩
  · rw [hproposal q hq, hproposed p hp]
  · rw [hvotes w hw]
    cases hcounts with
    | received _ _ _ => exact (hreceived _ rfl).symm
    | proposal _ _ => exact (hproposed _ rfl).symm

/-- The proposal of a block arrives three times, the last time after two others have prevoted. -/
def Sample.repeatedProposal : List ConsensusCommand :=
  [.proposalReceived (rivalProposal 7), .proposalReceived (rivalProposal 7),
    .voteReceived (vote .prevote 2 0 (rivalProposal 7).hash),
    .voteReceived (vote .prevote 3 0 (rivalProposal 7).hash), .proposalReceived (rivalProposal 7)]

/-- Validator 1 of four prevotes three times and precommits twice, always for this block. -/
theorem one_proposal_votes_once :
    let node := Node.boot (engine 1 [1, 2, 3, 4] 7)
    (votesAmong (node.run repeatedProposal).engine.sent).map (·.voteType)
        = [.prevote, .prevote, .precommit, .prevote, .precommit] ∧
      NoEquivocation (votesAmong (node.run repeatedProposal).engine.sent) := by
  intro node
  have hfresh : node.engine.ballot.Fresh := Node.boot_fresh _ ⟨rfl, rfl, rfl, rfl⟩
  have hproposed : ∀ p, ConsensusCommand.proposalReceived (rivalProposal 7) = .proposalReceived p →
      p.hash = (rivalProposal 7).hash := by
    rintro p ⟨⟩
    rfl
  have hreceived : ∀ voter v, ConsensusCommand.voteReceived
      (vote .prevote voter 0 (rivalProposal 7).hash) = .voteReceived v →
      v.blockHash = (rivalProposal 7).hash := by
    rintro voter v ⟨⟩
    rfl
  refine ⟨by decide +kernel, Node.never_equivocates node _ hfresh ?_⟩
  refine ⟨⟨trivial, votesOnce_of_one ?_ ?_ hproposed (by rintro v ⟨⟩)⟩,
    ⟨trivial, votesOnce_of_one ?_ ?_ hproposed (by rintro v ⟨⟩)⟩,
    ⟨trivial, votesOnce_of_one ?_ ?_ (by rintro p ⟨⟩) (hreceived 2)⟩,
    ⟨trivial, votesOnce_of_one ?_ ?_ (by rintro p ⟨⟩) (hreceived 3)⟩,
    ⟨trivial, votesOnce_of_one ?_ ?_ hproposed (by rintro v ⟨⟩)⟩, trivial⟩
  all_goals decide +kernel

end Example
