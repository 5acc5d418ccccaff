/-
# Agreement

Several nodes with one validator set, some of them faulty.  A run is a list of
deliveries: a node that is not faulty is handed a proposal, a vote or a timeout.
Proposals and votes may come late, again, in any order or never; a vote comes
from the validator it names (`Deliverable`).

Two quorums of votes share a node that is not faulty, so two
blocks can be committed at one height only if such a node has precommitted both.
The engine keeps no lock: nothing stops it from that, nor from committing a
current proposal that is not the block of the quorum.  In runs in which neither
happens (`Careful`) no two blocks are committed at one height (`agreement`).
-/
import Pacyte.Equivocation
import Pacyte.WeightedQuorum

/-! ## Runs of several nodes -/

/-- A command handed to a node. -/
structure Delivery (n : ℕ) where
  node : Fin n
  command : ConsensusCommand

namespace System

open Ballot Node

variable {σ μ ν : Type} [Primitives] [Storage σ] [Mempool μ σ] [Network ν]
variable {n : ℕ} (ids : Fin n → UInt64) (faulty : Finset (Fin n))

/-- What may be delivered.  A proposal was broadcast, or a faulty node made it; a
vote was broadcast by the validator it names, or that validator is faulty. -/
def Deliverable (nodes : Fin n → Node σ μ ν) (d : Delivery n) : Prop :=
  d.node ∉ faulty ∧
    match d.command with
    | .proposalReceived p =>
        faulty.Nonempty ∨ ∃ j, .proposal p.wire ∈ (nodes j).engine.sent
    | .voteReceived v =>
        ∃ j, v.voter = ids j ∧ (j ∈ faulty ∨ .vote v.wire ∈ (nodes j).engine.sent)
    | .timeout _ _ => True
    | _ => False

/-- One delivery. -/
def deliver (nodes : Fin n → Node σ μ ν) (d : Delivery n) : Fin n → Node σ μ ν :=
  Function.update nodes d.node ((nodes d.node).step d.command)

/-- The deliveries of a list, one after the other. -/
def run (nodes : Fin n → Node σ μ ν) (deliveries : List (Delivery n)) : Fin n → Node σ μ ν :=
  deliveries.foldl deliver nodes

/-- Every delivery is made in a state that satisfies `P` with it. -/
def Meets (P : (Fin n → Node σ μ ν) → Delivery n → Prop) (nodes : Fin n → Node σ μ ν) :
    List (Delivery n) → Prop
  | [] => True
  | d :: rest => P nodes d ∧ Meets P (deliver nodes d) rest

end System

namespace Node

open Ballot

variable {σ μ ν : Type} [Primitives] [Storage σ] [Mempool μ σ] [Network ν]

/-- The command finds the node as a lock would keep it. -/
structure Careful (node : Node σ μ ν) (command : ConsensusCommand) : Prop where
  /-- A quorum of prevotes is not reached after a precommit for another block at
  the same height. -/
  lock : ∀ x b, CountsPrevotes node.engine.Accepts node.engine.ballot command x b →
    PrevoteQuorum b x → ∀ w ∈ node.engine.ballot.votes, w.voteType = .precommit →
    w.height = node.engine.height → w.blockHash = x
  /-- A quorum of precommits for a hash finds the proposal of that hash. -/
  proposal : ∀ x b, CountsPrecommits node.engine.Accepts node.engine.ballot command x b →
    PrecommitQuorum b x → ∀ p, b.proposal = some p → p.hash = x

/-- All precommits of one height are for one block. -/
def Locked (votes : List ConsensusVote) : Prop :=
  ∀ w ∈ votes, ∀ w' ∈ votes, w.voteType = .precommit → w'.voteType = .precommit →
    w.height = w'.height → w.blockHash = w'.blockHash

/-- A careful command keeps the precommits of a height on one block. -/
theorem locked_step (node : Node σ μ ν) (command : ConsensusCommand)
    (hcareful : Careful node command) (hlocked : Locked node.engine.ballot.votes) :
    Locked (node.step command).engine.ballot.votes := by
  have hstep := node.step_ballot command
  -- a precommit of this step: its hash was counted, its height is the present one
  have hnew : ∀ w ∈ (node.step command).engine.ballot.votes, w.voteType = .precommit →
      w ∈ node.engine.ballot.votes ∨ ∃ b, PrevoteQuorum b w.blockHash ∧
        w.height = node.engine.height ∧
        CountsPrevotes node.engine.Accepts node.engine.ballot command w.blockHash b := by
    intro w hw htype
    rcases hstep.mem_votes hw with hw | ⟨p, v, -, -, hown, rfl⟩ | ⟨x, b, v, hc, hq, hown, rfl⟩
    · exact Or.inl hw
    · rw [show v.wire.voteType = .prevote from hown.voteType] at htype
      cases htype
    · have hx : v.wire.blockHash = x := hown.blockHash
      rw [hx]
      exact Or.inr ⟨b, hq, hown.height.trans hc.midway.height, hc⟩
  intro w hw w' hw' h₁ h₂ hheight
  rcases hnew w hw h₁ with hold | ⟨b, hq, hh, hc⟩ <;>
    rcases hnew w' hw' h₂ with hold' | ⟨b', hq', hh', hc'⟩
  · exact hlocked w hold w' hold' h₁ h₂ hheight
  · exact hcareful.lock _ _ hc' hq' w hold h₁ (hheight.trans hh')
  · exact (hcareful.lock _ _ hc hq w' hold' h₂ (hheight.symm.trans hh)).symm
  · exact hc.unique hc'

end Node

/-! ## The invariant -/

theorem mem_votesAmong {messages : List NetworkMessage} {d : ConsensusVote} :
    d ∈ votesAmong messages ↔ .vote d ∈ messages := by
  rw [votesAmong, List.mem_filterMap]
  constructor
  · rintro ⟨m, hm, h⟩
    cases m with
    | vote data =>
        obtain rfl := Option.some.inj h
        exact hm
    | proposal data => cases h
  · exact fun h => ⟨.vote d, h, rfl⟩

namespace System

open Ballot Node

variable {σ μ ν : Type} [Primitives] [Storage σ] [Mempool μ σ] [Network ν]
variable {n : ℕ} (ids : Fin n → UInt64) (faulty : Finset (Fin n)) (set : ValidatorSet)

/-- The vote was broadcast by the node it names, or that node is faulty. -/
def Authentic (nodes : Fin n → Node σ μ ν) (v : Vote) : Prop :=
  ∃ j, v.voter = ids j ∧ (j ∈ faulty ∨ v.wire ∈ (nodes j).engine.ballot.votes)

/-- The block has the hash of its certificate, and a quorum of nodes are faulty or
have broadcast a precommit for it at the certificate's height. -/
structure Backed (nodes : Fin n → Node σ μ ν) (k : Commit) : Prop where
  blockHash : k.block.hash = k.certificate.blockHash
  quorum : ∃ A : Finset (Fin n), set.quorum ≤ A.card ∧ ∀ j ∈ A, j ∈ faulty ∨
    ∃ w ∈ (nodes j).engine.ballot.votes, w.voteType = .precommit ∧
      w.height = k.certificate.height ∧ w.blockHash = k.certificate.blockHash

/-- What holds of a node that is not faulty. -/
structure NodeInv (nodes : Fin n → Node σ μ ν) (i : Fin n) : Prop where
  validatorSet : (nodes i).engine.ballot.validatorSet = set
  me : (nodes i).engine.ballot.me = some (ids i)
  sound : BooksSound (nodes i).engine.ballot
  locked : Locked (nodes i).engine.ballot.votes
  recorded : ∀ h x, ∀ v ∈ (nodes i).engine.ballot.precommits.votes h x, Authentic ids faulty nodes v
  commits : ∀ k ∈ (nodes i).engine.ballot.commits, Backed faulty set nodes k

variable {ids faulty set} {nodes : Fin n → Node σ μ ν} {d : Delivery n}

theorem deliver_self : deliver nodes d d.node = (nodes d.node).step d.command :=
  Function.update_self _ _ _

theorem deliver_other {i : Fin n} (h : i ≠ d.node) : deliver nodes d i = nodes i :=
  Function.update_of_ne h _ _

/-- Votes that were broadcast stay broadcast. -/
theorem votes_subset_deliver (nodes : Fin n → Node σ μ ν) (d : Delivery n) (j : Fin n) :
    (nodes j).engine.ballot.votes ⊆ (deliver nodes d j).engine.ballot.votes := by
  by_cases h : j = d.node
  · subst h
    rw [deliver_self]
    exact ((nodes d.node).step_ballot d.command).votes_subset
  · rw [deliver_other h]
    exact List.Subset.refl _

theorem Authentic.deliver {v : Vote} (h : Authentic ids faulty nodes v) :
    Authentic ids faulty (deliver nodes d) v := by
  obtain ⟨j, hj, h⟩ := h
  exact ⟨j, hj, h.imp_right fun hw => votes_subset_deliver nodes d j hw⟩

theorem Backed.deliver {k : Commit} (h : Backed faulty set nodes k) :
    Backed faulty set (deliver nodes d) k := by
  obtain ⟨hhash, A, hcard, hA⟩ := h
  refine ⟨hhash, A, hcard, fun j hj => (hA j hj).imp_right ?_⟩
  rintro ⟨w, hw, h⟩
  exact ⟨w, votes_subset_deliver nodes d j hw, h⟩

omit [Primitives] [Storage σ] [Mempool μ σ] [Network ν] in
/-- A quorum of authentic votes from different voters is a quorum of nodes. -/
theorem exists_quorum {b : Ballot} (hsound : VoteBook.Sound .precommit b.precommits)
    {h : BlockHeight} {x : Hash} (hq : set.quorum ≤ (b.precommits.votes h x).length)
    (hauth : ∀ v ∈ b.precommits.votes h x, Authentic ids faulty nodes v) :
    ∃ A : Finset (Fin n), set.quorum ≤ A.card ∧ ∀ j ∈ A, j ∈ faulty ∨
      ∃ w ∈ (nodes j).engine.ballot.votes, w.voteType = .precommit ∧ w.height = h ∧
        w.blockHash = x := by
  classical
  let good : Fin n → Prop := fun j => j ∈ faulty ∨
    ∃ w ∈ (nodes j).engine.ballot.votes, w.voteType = .precommit ∧ w.height = h ∧ w.blockHash = x
  refine ⟨Finset.univ.filter good, ?_, fun j hj => (Finset.mem_filter.mp hj).2⟩
  -- every voter is the id of such a node
  have hsub : b.precommits.voters h x ⊆ (Finset.univ.filter good).image ids := by
    intro id hid
    obtain ⟨v, hv, rfl⟩ := VoteBook.mem_voters.mp hid
    obtain ⟨j, hj, hvote⟩ := hauth v hv
    refine Finset.mem_image.mpr ⟨j, Finset.mem_filter.mpr ⟨Finset.mem_univ _, ?_⟩, hj.symm⟩
    refine hvote.imp_right fun hw => ⟨v.wire, hw, ?_⟩
    exact ⟨hsound.kind h x v hv, hsound.height h x v hv, hsound.blockHash h x v hv⟩
  calc set.quorum ≤ (b.precommits.votes h x).length := hq
    _ = (b.precommits.voters h x).card := (hsound.card_voters h x).symm
    _ ≤ ((Finset.univ.filter good).image ids).card := Finset.card_le_card hsub
    _ ≤ (Finset.univ.filter good).card := Finset.card_image_le

/-- The precommits a node has recorded after a delivery are authentic. -/
theorem recorded_deliver (hd : Deliverable ids faulty nodes d)
    (hinv : NodeInv ids faulty set nodes d.node) :
    ∀ h x, ∀ v ∈ (deliver nodes d d.node).engine.ballot.precommits.votes h x,
      Authentic ids faulty (deliver nodes d) v := by
  have hstep := (nodes d.node).step_ballot d.command
  have hvotes := votes_subset_deliver nodes d
  -- the books of the step, with the votes it has sent so far
  have hbooks := hstep.induct (fun _ com votes => ∀ h x, ∀ v ∈ com.votes h x,
    Authentic ids faulty nodes v ∨ v.voter = ids d.node ∧ v.wire ∈ votes) ?_ ?_ ?_
  · intro h x v hv
    rw [deliver_self] at hv
    rcases hbooks h x v hv with hauth | ⟨hvoter, hwire⟩
    · exact hauth.deliver
    · exact ⟨d.node, hvoter, Or.inr (by rw [deliver_self]; exact hwire)⟩
  · intro v hcommand _ _ ih h x w hw
    rcases mem_precommits_record hw with hw | rfl
    · exact ih h x w hw
    · left
      obtain ⟨-, hallowed⟩ := hd
      rw [hcommand] at hallowed
      obtain ⟨j, hj, hsent⟩ := hallowed
      exact ⟨j, hj, hsent.imp_right mem_votesAmong.mpr⟩
  · intro b₁ ty y v hmid hown ih h x w hw
    rcases mem_precommits_record hw with hw | rfl
    · exact (ih h x w hw).imp_right fun hc => ⟨hc.1, List.mem_append_left _ hc.2⟩
    · refine Or.inr ⟨?_, by simp⟩
      exact Option.some.inj (hown.voter.symm.trans (hmid.me.trans hinv.me))
  · exact fun h x v hv => Or.inl (hinv.recorded h x v hv)

/-- **One careful delivery keeps the invariant at every node that is not
faulty.** -/
theorem nodeInv_deliver (hd : Deliverable ids faulty nodes d)
    (hcareful : Careful (nodes d.node) d.command)
    (hinv : ∀ i ∉ faulty, NodeInv ids faulty set nodes i) :
    ∀ i ∉ faulty, NodeInv ids faulty set (deliver nodes d) i := by
  intro i hi
  have hi' := hinv i hi
  by_cases hnode : i = d.node
  · subst hnode
    have hstep := (nodes d.node).step_ballot d.command
    have hself : deliver nodes d d.node = (nodes d.node).step d.command := deliver_self
    have hrec := recorded_deliver hd hi'
    have hsound : BooksSound (deliver nodes d d.node).engine.ballot := by
      rw [hself]
      exact hstep.booksSound hi'.sound
    refine ⟨?_, ?_, hsound, ?_, hrec, ?_⟩
    · rw [hself, hstep.constants.1]
      exact hi'.validatorSet
    · rw [hself, hstep.constants.2]
      exact hi'.me
    · rw [hself]
      exact locked_step _ _ hcareful hi'.locked
    · intro k hk
      rw [hself] at hk
      rcases hstep.mem_commits hk with hold | ⟨x, b₁, p, hcount, hq, hp, rfl, hpre, -⟩
      · exact (hi'.commits k hold).deliver
      · have hmid := hcount.midway
        refine ⟨hcareful.proposal x b₁ hcount hq p hp, ?_⟩
        refine exists_quorum hsound.2 ?_ (hrec _ _)
        rw [hself, hpre]
        have hq' : b₁.validatorSet.quorum ≤ (b₁.precommits.votes b₁.height x).length := hq
        rwa [hmid.validatorSet, hi'.validatorSet, hmid.height] at hq'
  · have hother : deliver nodes d i = nodes i := deliver_other hnode
    refine ⟨?_, ?_, ?_, ?_, ?_, ?_⟩
    · rw [hother]
      exact hi'.validatorSet
    · rw [hother]
      exact hi'.me
    · rw [hother]
      exact hi'.sound
    · rw [hother]
      exact hi'.locked
    · rw [hother]
      exact fun h x v hv => (hi'.recorded h x v hv).deliver
    · rw [hother]
      exact fun k hk => (hi'.commits k hk).deliver

theorem nodeInv_run (deliveries : List (Delivery n)) (nodes : Fin n → Node σ μ ν)
    (hmeets : Meets (fun s d => Deliverable ids faulty s d ∧ Careful (s d.node) d.command)
      nodes deliveries)
    (hinv : ∀ i ∉ faulty, NodeInv ids faulty set nodes i) :
    ∀ i ∉ faulty, NodeInv ids faulty set (run nodes deliveries) i := by
  induction deliveries generalizing nodes with
  | nil => exact hinv
  | cons d rest ih =>
      exact ih (deliver nodes d) hmeets.2 (nodeInv_deliver hmeets.1.1 hmeets.1.2 hinv)

/-- The start of a run: every node that is not faulty has the common validator
set and its own id, and has not voted. -/
structure Initial (ids : Fin n → UInt64) (faulty : Finset (Fin n)) (set : ValidatorSet)
    (nodes : Fin n → Node σ μ ν) : Prop where
  validatorSet : ∀ i ∉ faulty, (nodes i).engine.validatorSet = set
  me : ∀ i ∉ faulty, (nodes i).engine.myValidatorId = some (ids i)
  fresh : ∀ i ∉ faulty, (nodes i).engine.ballot.Fresh

/-- **Agreement in careful runs.**  Among `n` nodes with the same set of `n`
active validators, at most `f` of them faulty and `n ≥ 3 f + 1`, whatever is
delivered in whatever order: if no node that is not faulty reaches a quorum of
prevotes after a precommit for another block at the same height, or a quorum of
precommits with another current proposal, then no two of these nodes commit
blocks with different hashes at one height. -/
theorem agreement {f : ℕ} (nodes : Fin n → Node σ μ ν) (deliveries : List (Delivery n))
    (hactive : set.activeCount = n) (hn : 3 * f + 1 ≤ n) (hf : faulty.card ≤ f)
    (hinit : Initial ids faulty set nodes)
    (hmeets : Meets (fun s d => Deliverable ids faulty s d ∧ Careful (s d.node) d.command)
      nodes deliveries) :
    ∀ i ∉ faulty, ∀ j ∉ faulty,
      ∀ k ∈ (run nodes deliveries i).engine.commits,
      ∀ k' ∈ (run nodes deliveries j).engine.commits,
        k.certificate.height = k'.certificate.height → k.block.hash = k'.block.hash := by
  have hstart : ∀ i ∉ faulty, NodeInv ids faulty set nodes i := by
    intro i hi
    have hfresh := hinit.fresh i hi
    refine ⟨hinit.validatorSet i hi, hinit.me i hi, ⟨?_, ?_⟩, ?_, ?_, ?_⟩
    · rw [hfresh.prevotes]
      exact VoteBook.sound_empty _
    · rw [hfresh.precommits]
      exact VoteBook.sound_empty _
    · intro w hw
      rw [hfresh.votes] at hw
      cases hw
    · intro h x v hv
      rw [hfresh.precommits, VoteBook.votes_empty] at hv
      cases hv
    · intro k hk
      rw [hfresh.commits] at hk
      cases hk
  have hinv := nodeInv_run deliveries nodes hmeets hstart
  intro i hi j hj k hk k' hk' hheight
  obtain ⟨hhash, A, hA, hAvotes⟩ := (hinv i hi).commits k hk
  obtain ⟨hhash', B, hB, hBvotes⟩ := (hinv j hj).commits k' hk'
  rw [ValidatorSet.quorum, hactive] at hA hB
  have hunion : (A ∪ B).card ≤ n := by
    have hle := Finset.card_le_univ (A ∪ B)
    rwa [Fintype.card_fin] at hle
  obtain ⟨m, hmA, hmB, hm⟩ := WeightedQuorum.exists_not_faulty hn hf hunion hA hB
  obtain ⟨w, hw, htype, hwh, hwx⟩ := (hAvotes m hmA).resolve_left hm
  obtain ⟨w', hw', htype', hwh', hwx'⟩ := (hBvotes m hmB).resolve_left hm
  have hlock := (hinv m hm).locked w hw w' hw' htype htype'
    (hwh.trans (hheight.trans hwh'.symm))
  rw [hhash, hhash', ← hwx, ← hwx', hlock]

end System

/-! ## Runs on concrete nodes -/

namespace System

open Ballot Node

variable {σ μ ν : Type} [Primitives] [Storage σ] [Mempool μ σ] [Network ν] {n : ℕ}

theorem Meets.mono {P Q : (Fin n → Node σ μ ν) → Delivery n → Prop}
    (hPQ : ∀ nodes d, P nodes d → Q nodes d) {nodes : Fin n → Node σ μ ν}
    {deliveries : List (Delivery n)} (h : Meets P nodes deliveries) :
    Meets Q nodes deliveries := by
  induction deliveries generalizing nodes with
  | nil => trivial
  | cons d rest ih => exact ⟨hPQ nodes d h.1, ih h.2⟩

instance decidableMeets {P : (Fin n → Node σ μ ν) → Delivery n → Prop}
    [∀ nodes d, Decidable (P nodes d)] :
    ∀ (nodes : Fin n → Node σ μ ν) (deliveries : List (Delivery n)),
      Decidable (Meets P nodes deliveries)
  | _, [] => isTrue trivial
  | nodes, d :: rest =>
      have := decidableMeets (P := P) (deliver nodes d) rest
      inferInstanceAs (Decidable (_ ∧ _))

instance decidableDeliverable (ids : Fin n → UInt64) (faulty : Finset (Fin n))
    (nodes : Fin n → Node σ μ ν) : ∀ d, Decidable (Deliverable ids faulty nodes d)
  | ⟨_, .proposalReceived _⟩ => inferInstanceAs (Decidable (_ ∧ (_ ∨ _)))
  | ⟨_, .voteReceived _⟩ => inferInstanceAs (Decidable (_ ∧ (∃ _, _ ∧ _)))
  | ⟨_, .timeout _ _⟩ => inferInstanceAs (Decidable (_ ∧ True))
  | ⟨_, .propose _ _⟩ => inferInstanceAs (Decidable (_ ∧ False))
  | ⟨_, .newBlock _⟩ => inferInstanceAs (Decidable (_ ∧ False))
  | ⟨_, .synced _⟩ => inferInstanceAs (Decidable (_ ∧ False))
  | ⟨_, .stop⟩ => inferInstanceAs (Decidable (_ ∧ False))

/-- The hash that a command is about. -/
def subject : ConsensusCommand → Option Hash
  | .proposalReceived p => some p.hash
  | .voteReceived v => some v.blockHash
  | _ => none

/-- The node has precommitted at its height, and has as its current proposal,
nothing but the block the command is about. -/
def OneBlock (node : Node σ μ ν) (command : ConsensusCommand) : Prop :=
  ∀ x ∈ subject command,
    (∀ w ∈ node.engine.ballot.votes, w.voteType = .precommit → w.height = node.engine.height →
      w.blockHash = x) ∧
    ∀ p ∈ node.engine.currentProposal, p.hash = x

instance (node : Node σ μ ν) (command : ConsensusCommand) : Decidable (OneBlock node command) :=
  @Option.decidableForallMem _ _
    (fun _ => inferInstanceAs (Decidable (_ ∧ ∀ p ∈ node.engine.currentProposal, _)))
    (subject command)

omit [Mempool μ σ] [Network ν] in
/-- Commands about the one block a node is concerned with are careful. -/
theorem OneBlock.careful {node : Node σ μ ν} {command : ConsensusCommand}
    (h : OneBlock node command) : Careful node command := by
  have hpre : ∀ {x b}, CountsPrevotes node.engine.Accepts node.engine.ballot command x b →
      x ∈ subject command ∧ ∀ p, b.proposal = some p → p.hash = x := by
    intro x b hc
    cases hc with
    | received => exact ⟨rfl, fun p hp => (h _ rfl).2 p (by simpa [Engine.ballot] using hp)⟩
    | @proposal p v _ _ =>
        refine ⟨rfl, fun q hq => ?_⟩
        rw [proposal_cast] at hq
        obtain rfl := Option.some.inj hq
        rfl
  refine ⟨fun x b hc _ => (h x (hpre hc).1).1, ?_⟩
  intro x b hc _ p hp
  cases hc with
  | received => exact (h _ rfl).2 p (by simpa [Engine.ballot] using hp)
  | cast hc _ _ => exact (hpre hc).2 p (by simpa using hp)

end System

section Example

open scoped Sample
open Sample System

/-- Four validators. -/
def fourIds : Fin 4 → UInt64 := ![1, 2, 3, 4]

/-- Four nodes that have just started, with different clocks. -/
def fourNodes (i : Fin 4) : Node MemoryStorage EmptyPool OpenNetwork :=
  Node.boot (engine (fourIds i) [1, 2, 3, 4] (![7, 8, 9, 10] i))

/-- The proposal of validator 2 in round 0. -/
def firstProposal : Proposal :=
  (Proposal.new 1 0 (Block.new 1 blockOne.hash [] zero32 8) 2 8).signed (some fun _ => [1])

/-- The proposal of validator 3 in round 1. -/
def secondProposal : Proposal :=
  (Proposal.new 1 1 (Block.new 1 blockOne.hash [] zero32 9) 3 9).signed (some fun _ => [1])

/-- The votes of two nodes for the block of a proposal, delivered to `i`. -/
def votesTo (voteType : VoteType) (p : Proposal) (i j k : Fin 4) : List (Delivery 4) :=
  [⟨i, .voteReceived (vote voteType (fourIds j) p.round p.hash)⟩,
    ⟨i, .voteReceived (vote voteType (fourIds k) p.round p.hash)⟩]

/-- Three nodes receive a proposal and each other's prevotes. -/
def prevoting (p : Proposal) (i j k : Fin 4) : List (Delivery 4) :=
  [⟨i, .proposalReceived p⟩, ⟨j, .proposalReceived p⟩, ⟨k, .proposalReceived p⟩] ++
    votesTo .prevote p i j k ++ votesTo .prevote p j i k ++ votesTo .prevote p k i j

/-- Node 0 commits the block of round 0.  The others have precommitted it too, but
do not hear of each other, time out, and commit the block of round 1. -/
def forkingRun : List (Delivery 4) :=
  prevoting firstProposal 0 1 2 ++ votesTo .precommit firstProposal 0 1 2 ++
    [⟨1, .timeout 1 0⟩, ⟨2, .timeout 1 0⟩, ⟨3, .timeout 1 0⟩] ++
    prevoting secondProposal 1 2 3 ++ votesTo .precommit secondProposal 1 2 3

theorem fourNodes_initial : Initial fourIds ∅ (validators [1, 2, 3, 4]) fourNodes where
  validatorSet := by
    intro i _
    revert i
    decide
  me := by
    intro i _
    revert i
    decide
  fresh := fun i _ => Node.boot_fresh _ ⟨rfl, rfl, rfl, rfl⟩

/-- Without any faulty node two nodes commit different blocks at height 1. -/
theorem forkingRun_disagrees :
    Initial fourIds ∅ (validators [1, 2, 3, 4]) fourNodes ∧
      Meets (Deliverable fourIds ∅) fourNodes forkingRun ∧
      ∃ k ∈ (run fourNodes forkingRun 0).engine.commits,
        ∃ k' ∈ (run fourNodes forkingRun 1).engine.commits,
          k.certificate.height = k'.certificate.height ∧ k.block.hash ≠ k'.block.hash :=
  ⟨fourNodes_initial, by decide +kernel, by decide +kernel⟩

/-- Nodes 0 and 1 commit the block of round 0. -/
def quietRun : List (Delivery 4) :=
  prevoting firstProposal 0 1 2 ++ votesTo .precommit firstProposal 0 1 2 ++
    votesTo .precommit firstProposal 1 0 2

theorem quietRun_agrees :
    (run fourNodes quietRun 0).engine.commits.length = 1 ∧
      (run fourNodes quietRun 1).engine.commits.length = 1 ∧
      ∀ i ∉ (∅ : Finset (Fin 4)), ∀ j ∉ (∅ : Finset (Fin 4)),
        ∀ k ∈ (run fourNodes quietRun i).engine.commits,
        ∀ k' ∈ (run fourNodes quietRun j).engine.commits,
          k.certificate.height = k'.certificate.height → k.block.hash = k'.block.hash := by
  have hmeets : Meets (fun s d => Deliverable fourIds ∅ s d ∧ OneBlock (s d.node) d.command)
      fourNodes quietRun := by decide +kernel
  refine ⟨by decide +kernel, by decide +kernel, ?_⟩
  exact System.agreement (f := 1) fourNodes quietRun (by decide) (by decide) (by decide)
    fourNodes_initial (hmeets.mono fun _ _ h => ⟨h.1, h.2.careful⟩)

end Example
