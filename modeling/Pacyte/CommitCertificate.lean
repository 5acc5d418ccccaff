/-
# Certificates of commits

When is a saved block backed by a quorum of precommits for that very block?

`check_precommit_quorum` counts whatever precommits are recorded for the height
and the hash, from any id and of any round, and `commit_block` takes the block
from `current_proposal`.  The link is made by three checks that the code does
not have: that a voter is a validator, that the counted precommits are of the
present round, and that the current proposal has the hash under vote
(`Vetted`).  In runs where they would have passed, every commit is certified
(`commits_certified`).
-/
import Pacyte.VoteRecords
import Pacyte.MemoryStorage

namespace Node

open Ballot

variable {σ μ ν : Type} [Primitives] [Storage σ] [Mempool μ σ] [Network ν]

/-! ## The condition and the property -/

/-- The checks that would have passed when `command` was handled. -/
structure Vetted (node : Node σ μ ν) (command : ConsensusCommand) : Prop where
  /-- The node's own id belongs to a validator. -/
  self : ∀ id, node.engine.myValidatorId = some id → node.engine.validatorSet.Member id
  /-- A vote that is recorded comes from a validator. -/
  voter : ∀ v, command = .voteReceived v → v.height = node.engine.height →
    v.round = node.engine.round → node.engine.validatorSet.Member v.voter
  /-- Precommits that are counted as a quorum are of the present round. -/
  round : ∀ x b, CountsPrecommits node.engine.Accepts node.engine.ballot command x b →
    PrecommitQuorum b x → ∀ v ∈ b.precommits.votes b.height x, v.round = b.round
  /-- A quorum for a hash finds the proposal of that hash. -/
  proposal : ∀ x b, CountsPrecommits node.engine.Accepts node.engine.ballot command x b →
    PrecommitQuorum b x → ∀ p, b.proposal = some p → p.hash = x

/-- The vote was sent: it came in with a command, or the node broadcast it. -/
def Sent (commands : List ConsensusCommand) (b : Ballot) (v : Vote) : Prop :=
  .voteReceived v ∈ commands ∨ v.wire ∈ b.votes

/-- The saved block has the hash of its certificate, and a quorum of validators
have sent a precommit for exactly the height, round and hash of the
certificate. -/
structure Certified (commands : List ConsensusCommand) (b : Ballot) (k : Commit) : Prop where
  blockHash : k.block.hash = k.certificate.blockHash
  quorum : ∃ ids : Finset UInt64, b.validatorSet.quorum ≤ ids.card ∧
    ∀ id ∈ ids, b.validatorSet.Member id ∧
      ∃ v : Vote, v.voter = id ∧ v.voteType = .precommit ∧ v.height = k.certificate.height ∧
        v.round = k.certificate.round ∧ v.blockHash = k.certificate.blockHash ∧
        Sent commands b v

/-! ## The invariant -/

/-- What holds after every command of a vetted run. -/
structure CertificateInv (commands : List ConsensusCommand) (b : Ballot) : Prop where
  sound : BooksSound b
  voters : ∀ h x, ∀ v ∈ b.precommits.votes h x,
    b.validatorSet.Member v.voter ∧ Sent commands b v
  commits : ∀ k ∈ b.commits, Certified commands b k

omit [Mempool μ σ] [Network ν] in
/-- Precommits that are recorded during a step come from validators and were
sent. -/
theorem voters_step {past : List ConsensusCommand} {node : Node σ μ ν}
    {command : ConsensusCommand} {b' : Ballot} (hv : Vetted node command)
    (hinv : CertificateInv past node.engine.ballot)
    (hstep : Step node.engine.Accepts node.engine.ballot command b') :
    ∀ h x, ∀ v ∈ b'.precommits.votes h x,
      node.engine.validatorSet.Member v.voter ∧ Sent (past ++ [command]) b' v := by
  refine hstep.induct (fun _ com votes => ∀ h x, ∀ v ∈ com.votes h x,
    node.engine.validatorSet.Member v.voter ∧
      (.voteReceived v ∈ past ++ [command] ∨ v.wire ∈ votes)) ?_ ?_ ?_
  · rintro v rfl hh hr ih h x w hw
    rcases mem_precommits_record hw with hw | rfl
    · exact ih h x w hw
    · exact ⟨hv.voter w rfl hh hr, Or.inl (by simp)⟩
  · intro b₁ ty y v hmid hown ih h x w hw
    rcases mem_precommits_record hw with hw | rfl
    · exact ⟨(ih h x w hw).1, (ih h x w hw).2.imp_right (List.mem_append_left _)⟩
    · exact ⟨hv.self _ (hmid.me.symm.trans hown.voter), Or.inr (by simp)⟩
  · intro h x v hmem
    obtain ⟨hm, hs⟩ := hinv.voters h x v hmem
    exact ⟨hm, hs.imp_left (List.mem_append_left _)⟩

/-- **One vetted command keeps the invariant.** -/
theorem certificateInv_step (past : List ConsensusCommand) (node : Node σ μ ν)
    (command : ConsensusCommand) (hv : Vetted node command)
    (hinv : CertificateInv past node.engine.ballot) :
    CertificateInv (past ++ [command]) (node.step command).engine.ballot := by
  have hstep := node.step_ballot command
  have hvoters := voters_step hv hinv hstep
  have hsound := hstep.booksSound hinv.sound
  have hset := hstep.constants.1
  set b' := (node.step command).engine.ballot
  refine ⟨hsound, ?_, ?_⟩
  · intro h x v hmem
    rw [hset]
    exact hvoters h x v hmem
  · intro k hk
    rcases hstep.mem_commits hk with hold | ⟨x, b₁, p, hcount, hq, hp, rfl, hpre, -⟩
    · -- an old commit: its votes were sent before
      obtain ⟨hhash, ids, hcard, hids⟩ := hinv.commits k hold
      refine ⟨hhash, ids, by rwa [hset], fun id hid => ?_⟩
      obtain ⟨hm, v, h₁, h₂, h₃, h₄, h₅, hs⟩ := hids id hid
      refine ⟨by rwa [hset], v, h₁, h₂, h₃, h₄, h₅, ?_⟩
      exact hs.imp (List.mem_append_left _) (fun h => hstep.votes_subset h)
    · -- a new commit: the counted precommits are the certificate
      have hmid := hcount.midway
      refine ⟨hv.proposal x b₁ hcount hq p hp, b'.precommits.voters node.engine.height x, ?_, ?_⟩
      · rw [hsound.2.card_voters, hpre, hset, ← hmid.validatorSet]
        have hheight : b₁.height = node.engine.height := hmid.height
        rw [← hheight]
        exact hq
      · intro id hid
        obtain ⟨v, hmem, rfl⟩ := VoteBook.mem_voters.mp hid
        obtain ⟨hm, hs⟩ := hvoters _ _ v hmem
        refine ⟨by rwa [hset], v, rfl, hsound.2.kind _ _ v hmem, hsound.2.height _ _ v hmem, ?_,
          hsound.2.blockHash _ _ v hmem, hs⟩
        rw [hpre] at hmem
        have hheight : node.engine.height = b₁.height := hmid.height.symm
        rw [hheight] at hmem
        exact (hv.round x b₁ hcount hq v hmem).trans hmid.round

/-- **Every commit of a vetted run is certified.**  From a node that has not
voted yet, over any commands whose handling would have passed the missing
checks, every block that `commit_block` saves has the hash that reached the
quorum, and a quorum of different validators have sent a precommit for exactly
that height, round and hash. -/
theorem commits_certified (node : Node σ μ ν) (commands : List ConsensusCommand)
    (hfresh : node.engine.ballot.Fresh) (hmeets : Meets Vetted node commands) :
    ∀ k ∈ (node.run commands).engine.commits,
      Certified commands (node.run commands).engine.ballot k := by
  have hinit : CertificateInv [] node.engine.ballot := by
    refine ⟨⟨?_, ?_⟩, ?_, ?_⟩
    · rw [hfresh.prevotes]
      exact VoteBook.sound_empty _
    · rw [hfresh.precommits]
      exact VoteBook.sound_empty _
    · intro h x v hv
      rw [hfresh.precommits, VoteBook.votes_empty] at hv
      cases hv
    · intro k hk
      rw [hfresh.commits] at hk
      cases hk
  have hinv := run_invariant
    (I := fun past node => CertificateInv past node.engine.ballot)
    certificateInv_step [] node commands hmeets hinit
  exact hinv.commits

omit [Mempool μ σ] [Network ν] in
/-- The first proposal passes the checks: all counted votes are the node's own. -/
theorem vetted_of_fresh (node : Node σ μ ν) (p : Proposal) (hfresh : node.engine.ballot.Fresh)
    (hself : ∀ id, node.engine.myValidatorId = some id → node.engine.validatorSet.Member id) :
    Vetted node (.proposalReceived p) where
  self := hself
  voter := by
    rintro v ⟨⟩
  round := by
    intro x b hcount _ v hv
    cases hcount with
    | cast hpre _ hown =>
        cases hpre with
        | proposal hacc hown' =>
            rcases mem_precommits_record hv with hv | rfl
            · rcases mem_precommits_record hv with hv | rfl
              · rw [show node.engine.ballot.precommits = ∅ from hfresh.precommits,
                  VoteBook.votes_empty] at hv
                cases hv
              · rw [hown'.round, round_cast, round_cast]
            · exact hown.round.trans (round_cast _ _).symm
  proposal := by
    intro x b hcount _ q hq
    cases hcount with
    | cast hpre _ _ =>
        cases hpre with
        | proposal _ _ =>
            rw [proposal_cast, proposal_cast] at hq
            obtain rfl := Option.some.inj hq
            rfl

end Node

/-! ## A commit on the word of a stranger -/

namespace Sample

/-- The first two blocks of a chain. -/
def blockZero : Block := Block.genesis 0

def blockOne : Block := Block.new 1 blockZero.hash [] zero32 0

/-- A storage with the first two blocks. -/
def storage : MemoryStorage :=
  { MemoryStorage.new (fun _ => 0) with blocks := [blockZero, blockOne] }

/-- The set of active validators with the given ids. -/
def validators (ids : List UInt64) : ValidatorSet where
  validators := ids.map fun id => ⟨id, zero32, [], 1, 1, true⟩
  totalStake := BitVec.ofNat 128 ids.length
  epoch := 0

/-- An engine over `storage` before its start; its clock stands at `now`. -/
def engine (id : UInt64) (ids : List UInt64) (now : Timestamp) :
    Engine MemoryStorage EmptyPool OpenNetwork :=
  ((Engine.new ⟨1000000, 10⟩ (StateManager.new storage fun _ => now) ⟨⟩ ⟨⟩).setValidator id
    fun _ => [1]).updateValidatorSet (validators ids)

/-- A vote with an arbitrary signature. -/
def vote (voteType : VoteType) (voter : UInt64) (round : UInt64) (x : Hash) : Vote where
  height := 1
  round := round
  blockHash := x
  voter := voter
  voteType := voteType
  signature := [1]
  timestamp := 0

end Sample

section Example

open scoped Sample
open Sample

/-- The only validator has made its proposal; one precommit from the unknown id 9
for the hash of zeros makes it commit the proposal's block, which has another
hash. -/
theorem stranger_makes_commit :
    let node := Node.boot (engine 1 [1] 7)
    let commands := [ConsensusCommand.voteReceived (vote .precommit 9 0 zero32)]
    node.engine.ballot.Fresh ∧
      ¬ ∀ k ∈ (node.run commands).engine.commits,
        Node.Certified commands (node.run commands).engine.ballot k := by
  intro node commands
  refine ⟨Node.boot_fresh _ ⟨rfl, rfl, rfl, rfl⟩, fun h => ?_⟩
  have hwrong : ∃ k ∈ (node.run commands).engine.commits,
      k.block.hash ≠ k.certificate.blockHash := by decide +kernel
  obtain ⟨k, hk, hne⟩ := hwrong
  exact hne (h k hk).blockHash

/-- The proposal that the only validator sends to itself. -/
def ownProposal : Proposal :=
  (Proposal.new 1 0 (Block.new 1 blockOne.hash [] zero32 7) 1 7).signed (some fun _ => [1])

/-- On its own proposal the only validator votes and commits, certified by
itself. -/
theorem own_proposal_certified :
    let node := Node.boot (engine 1 [1] 7)
    let commands := [ConsensusCommand.proposalReceived ownProposal]
    (node.run commands).engine.commits.length = 1 ∧
      ∀ k ∈ (node.run commands).engine.commits,
        Node.Certified commands (node.run commands).engine.ballot k := by
  intro node commands
  have hfresh : node.engine.ballot.Fresh := Node.boot_fresh _ ⟨rfl, rfl, rfl, rfl⟩
  have hself : ∀ id, node.engine.myValidatorId = some id →
      node.engine.validatorSet.Member id := by
    have hid : node.engine.myValidatorId = some 1 ∧ node.engine.validatorSet.Member 1 := by
      decide
    intro id h
    obtain rfl : 1 = id := Option.some.inj (hid.1.symm.trans h)
    exact hid.2
  refine ⟨by decide +kernel, Node.commits_certified node commands hfresh ⟨?_, trivial⟩⟩
  exact Node.vetted_of_fresh node ownProposal hfresh hself

end Example
