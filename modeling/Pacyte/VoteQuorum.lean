/-
# Reported quorums

`check_quorum` compares the voting power of the stored votes, which comes from stakes, with
a number of validators.  So a quorum is reported for a power that is far from two thirds:
exactly for a power in the window between the two numbers (`Window`).  Outside of it a
reported quorum has more than two thirds of the power, and two quorums share more than a
third.
-/
import Pacyte.VoteStore
import Pacyte.QuorumOverlap

namespace VoteManager

/-! ## Voting power -/

/-- The voting power of a validator, as its record has it. -/
def powerAt (vm : ValidatorManager) (id : UInt64) : ℕ :=
  ((vm.validators.lookup id).map fun r => r.votingPower.toNat).getD 0

/-- The voting power of some validators. -/
def held (vm : ValidatorManager) (ids : Finset UInt64) : ℕ := ∑ id ∈ ids, powerAt vm id

/-- The validators whose votes are stored for a block. -/
def voters (s : VoteManager) (height : BlockHeight) (round : UInt64) (blockHash : Hash)
    (voteType : VoteType) : Finset UInt64 :=
  ((s.votesAt height round blockHash voteType).map Vote.voter).toFinset

theorem powerOf_eq_sum (vm : ValidatorManager) (votes : List Vote) :
    powerOf vm votes = (votes.map fun v => powerAt vm v.voter).sum := by
  induction votes with
  | nil => rfl
  | cons vote rest ih =>
      rw [List.map_cons, List.sum_cons, ← ih, powerOf, List.filterMap_cons, powerAt]
      cases vm.validators.lookup vote.voter with
      | none =>
          show powerOf vm rest = 0 + powerOf vm rest
          rw [Nat.zero_add]
      | some r => rfl

/-- The power of the stored votes is the one of the distinct validators. -/
theorem Sound.powerOf_votesAt {s : VoteManager} (hs : Sound s) (vm : ValidatorManager)
    (height : BlockHeight) (round : UInt64) (blockHash : Hash) (voteType : VoteType) :
    powerOf vm (s.votesAt height round blockHash voteType)
      = held vm (s.voters height round blockHash voteType) := by
  have hnodup := hs.nodup height round blockHash voteType
  rw [powerOf_eq_sum, held, voters, List.sum_toFinset _ hnodup, List.map_map]
  rfl

/-- The power reaches the number of validators that is asked for, but not more than two
thirds of the power of the active set. -/
def Window (vm : ValidatorManager) (ids : Finset UInt64) : Prop :=
  threshold vm ≤ held vm ids ∧ held vm ids < 2 ^ 64 ∧ 3 * held vm ids ≤ 2 * vm.currentSet.power

instance (vm : ValidatorManager) (ids : Finset UInt64) : Decidable (Window vm ids) :=
  inferInstanceAs (Decidable (_ ∧ _ ∧ _))

/-! ## Quorums of a sound store -/

theorem Sound.hasQuorum_iff {s : VoteManager} (hs : Sound s) (height : BlockHeight)
    (round : UInt64) (blockHash : Hash) (voteType : VoteType) :
    (hasQuorum height round blockHash voteType s).1 = .ok true ↔
      threshold s.validatorManager
          ≤ held s.validatorManager (s.voters height round blockHash voteType) ∧
        held s.validatorManager (s.voters height round blockHash voteType) < 2 ^ 64 := by
  rw [hasQuorum, checkQuorum_fst, hs.powerOf_votesAt]
  split_ifs with hfits
  · rw [Outcome.ok.injEq, decide_eq_true_iff]
    exact (and_iff_left hfits).symm
  · refine iff_of_false ?_ fun hand => hfits hand.2
    intro heq
    cases heq

/-- A reported quorum has more than two thirds of the power outside of the window only. -/
theorem two_thirds_iff {vm : ValidatorManager} {ids : Finset UInt64} :
    (threshold vm ≤ held vm ids ∧ held vm ids < 2 ^ 64 →
      2 * vm.currentSet.power < 3 * held vm ids) ↔ ¬ Window vm ids := by
  unfold Window
  constructor
  · rintro himp ⟨hreached, hfits, hle⟩
    exact absurd (himp ⟨hreached, hfits⟩) (not_lt.mpr hle)
  · rintro hnot ⟨hreached, hfits⟩
    by_contra hle
    exact hnot ⟨hreached, hfits, not_lt.mp hle⟩

/-- The validators counted for the block of a vote after it was accepted. -/
theorem Sound.voters_stored {s : VoteManager} (hs : Sound s) {vote : Vote}
    (hfresh : vote.key ∉ s.seenVotes) :
    ((s.recorded vote).stored vote).voters vote.height vote.round vote.blockHash vote.voteType
      = insert vote.voter
        (s.voters vote.height vote.round vote.blockHash vote.voteType) := by
  have hvotes : ((s.recorded vote).stored vote).votesAt vote.height vote.round vote.blockHash
      vote.voteType = s.votesAt vote.height vote.round vote.blockHash vote.voteType ++ [vote] := by
    rw [votesAt_stored, if_pos rfl, if_pos rfl, if_pos ⟨rfl, rfl⟩]
    exact hs.extended hfresh
  unfold voters
  rw [hvotes, List.map_append, List.toFinset_append, Finset.union_comm]
  rfl

section AddVote

variable [Primitives] [Verifiers]

/-- `add_vote` reports a quorum for a vote that it accepts and that makes one. -/
theorem Sound.addVote_quorum_iff {s : VoteManager} (hs : Sound s) (vote : Vote) :
    (addVote vote s).1 = .ok (.added true) ↔
      s.Accepts vote ∧
        threshold s.validatorManager ≤ held s.validatorManager (insert vote.voter
          (s.voters vote.height vote.round vote.blockHash vote.voteType)) ∧
        held s.validatorManager (insert vote.voter
          (s.voters vote.height vote.round vote.blockHash vote.voteType)) < 2 ^ 64 := by
  by_cases hvalid : s.Valid vote
  · by_cases hseen : vote.key ∈ s.seenVotes
    · rw [(addVote_seen hvalid hseen).2.2]
      refine iff_of_false (fun heq => ?_) fun hand => hand.1.2 hseen
      cases heq
    · have hquorum := (hs.stored hseen).hasQuorum_iff vote.height vote.round vote.blockHash
        vote.voteType
      rw [hs.voters_stored hseen] at hquorum
      change _ ↔ threshold s.validatorManager ≤ held s.validatorManager _ ∧
        held s.validatorManager _ < 2 ^ 64 at hquorum
      rw [← hquorum, (hs.addVote_accepted ⟨hvalid, hseen⟩).2, hasQuorum]
      cases (checkQuorum vote.height vote.round vote.blockHash vote.voteType
        ((s.recorded vote).stored vote)).1 with
      | ok q => simp [Accepts, hvalid, hseen]
      | err e => simp
      | panic => simp
  · refine iff_of_false ((addVote_invalid hvalid).2.2.1 _) fun hand => hvalid hand.1.1

/-- **What a reported quorum is worth.**  In every state that is reached from a new vote
manager:

* `has_quorum` is a report of more than two thirds of the voting power of the active set if
  and only if the power of the voters is not in the window;
* the same holds for the answer of `add_vote`, with the voter of the new vote;
* two quorums that are reported outside of the window share more than a third of the power,
  if their voters together hold no more power than the active set. -/
theorem reported_quorum (vm : ValidatorManager) (clock : Clock) (ops : List VoteOp)
    (height : BlockHeight) (round : UInt64) :
    let s := (new vm clock).run ops
    let total := s.validatorManager.currentSet.power
    (∀ blockHash voteType,
      ((hasQuorum height round blockHash voteType s).1 = .ok true →
        2 * total < 3 * held s.validatorManager (s.voters height round blockHash voteType)) ↔
      ¬ Window s.validatorManager (s.voters height round blockHash voteType)) ∧
    (∀ vote, ((addVote vote s).1 = .ok (.added true) →
        2 * total < 3 * held s.validatorManager ((addVote vote s).2.voters vote.height vote.round
          vote.blockHash vote.voteType)) ↔
      (s.Accepts vote → ¬ Window s.validatorManager (insert vote.voter
        (s.voters vote.height vote.round vote.blockHash vote.voteType)))) ∧
    ∀ blockHash voteType blockHash' voteType',
      (hasQuorum height round blockHash voteType s).1 = .ok true →
      (hasQuorum height round blockHash' voteType' s).1 = .ok true →
      ¬ Window s.validatorManager (s.voters height round blockHash voteType) →
      ¬ Window s.validatorManager (s.voters height round blockHash' voteType') →
      held s.validatorManager (s.voters height round blockHash voteType ∪
        s.voters height round blockHash' voteType') ≤ total →
      total < 3 * held s.validatorManager (s.voters height round blockHash voteType ∩
        s.voters height round blockHash' voteType') := by
  intro s total
  have hs : Sound s := (sound_new vm clock).run ops
  refine ⟨fun blockHash voteType => ?_, fun vote => ?_, ?_⟩
  · rw [hs.hasQuorum_iff]
    exact two_thirds_iff
  · by_cases haccepts : s.Accepts vote
    · have hvoters : (addVote vote s).2.voters vote.height vote.round vote.blockHash vote.voteType
          = insert vote.voter
            (s.voters vote.height vote.round vote.blockHash vote.voteType) := by
        unfold voters
        rw [(hs.addVote_accepted haccepts).1.votesAt]
        exact hs.voters_stored haccepts.2
      rw [hs.addVote_quorum_iff, hvoters]
      simp only [haccepts, true_and, true_imp_iff]
      exact two_thirds_iff
    · refine iff_of_true (fun hadded => ?_) fun hand => absurd hand haccepts
      exact absurd ((hs.addVote_quorum_iff vote).mp hadded).1 haccepts
  · intro blockHash voteType blockHash' voteType' hquorum hquorum' hwindow hwindow' hunion
    rw [hs.hasQuorum_iff] at hquorum hquorum'
    exact WeightedQuorum.third_lt_inter hunion (two_thirds_iff.mpr hwindow hquorum)
      (two_thirds_iff.mpr hwindow' hquorum')

end AddVote

end VoteManager

section Example

open scoped Sample
open Sample VoteManager

/-- One of two validators with equal stakes votes, and a quorum is reported for half of the
power. -/
theorem half_is_reported_as_quorum :
    let s := (voteManager [(1, 1000000000000), (2, 1000000000000)]).run []
    let vote := ballot 1 1 0 .prevote zero32
    (addVote vote s).1 = .ok (.added true) ∧
      (hasQuorum 1 0 zero32 .prevote (addVote vote s).2).1 = .ok true ∧
      held s.validatorManager ((addVote vote s).2.voters 1 0 zero32 .prevote) = 1000000 ∧
      s.validatorManager.currentSet.power = 2000000 := by
  intro s vote
  refine ⟨?_, ?_, ?_, ?_⟩
  · decide +kernel
  · decide +kernel
  · decide +kernel
  · decide +kernel

/-- Four validators with the same stake. -/
def Sample.fourVoters : ValidatorManager :=
  registry inOrder [(1, 1000000000000), (2, 1000000000000), (3, 1000000000000), (4, 1000000000000)]

/-- The first three of them prevote for a block, the last three precommit it. -/
def Sample.overlappingVotes : List VoteOp :=
  [.addVote (ballot 1 1 0 .prevote zero32), .addVote (ballot 2 2 0 .prevote zero32),
    .addVote (ballot 3 3 0 .prevote zero32), .addVote (ballot 2 2 0 .precommit zero32),
    .addVote (ballot 3 3 0 .precommit zero32), .addVote (ballot 4 4 0 .precommit zero32)]

/-- The two quorums share half of the power, and each is one of more than two thirds. -/
theorem full_quorums_share :
    let s := (new fourVoters fun _ => 1000).run overlappingVotes
    s.validatorManager.currentSet.power < 3 * held s.validatorManager
      (s.voters 1 0 zero32 .prevote ∩ s.voters 1 0 zero32 .precommit) ∧
      2 * s.validatorManager.currentSet.power < 3 * held s.validatorManager
        (s.voters 1 0 zero32 .prevote) := by
  obtain ⟨hreport, -, hshare⟩ := reported_quorum fourVoters (fun _ => 1000) overlappingVotes 1 0
  have hprevotes : (hasQuorum 1 0 zero32 .prevote
      ((new fourVoters fun _ => 1000).run overlappingVotes)).1 = .ok true := by decide +kernel
  refine ⟨hshare zero32 .prevote zero32 .precommit hprevotes ?_ ?_ ?_ ?_,
    (hreport zero32 .prevote).mpr ?_ hprevotes⟩
  · decide +kernel
  · decide +kernel
  · decide +kernel
  · decide +kernel
  · decide +kernel

end Example
