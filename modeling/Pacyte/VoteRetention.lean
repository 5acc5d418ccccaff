/-
# Accepted votes

The store has one round for each height.  A vote of another round, earlier or later, takes
the place of all votes of the height, and the votes that were lost cannot be submitted
again: their keys were seen.  `retained_iff` says exactly when an accepted vote is still
counted.
-/
import Pacyte.VoteQuorum

namespace VoteManager

variable [Primitives] [Verifiers]

/-! ## What happens to a stored vote -/

/-- The operation drops the height of the vote. -/
def Drops (s : VoteManager) (vote : Vote) : VoteOp → Prop
  | .clearRound height => height = vote.height
  | .pruneOldHeights keepLast => vote.height ∈ pruned keepLast s.votes.keys
  | _ => False

/-- The operation is a vote of another round at the height of the vote, and it is
accepted. -/
def Displaces (s : VoteManager) (vote : Vote) : VoteOp → Prop
  | .addVote w => w.height = vote.height ∧ w.round ≠ vote.round ∧ s.Accepts w
  | _ => False

/-- The voter of the vote is counted in its place. -/
def Counts (s : VoteManager) (vote : Vote) : Prop :=
  vote.voter ∈ s.voters vote.height vote.round vote.blockHash vote.voteType

omit [Primitives] [Verifiers] in
theorem counts_of_votesAt {s s' : VoteManager} {vote : Vote}
    (h : s'.votesAt vote.height vote.round vote.blockHash vote.voteType
      = s.votesAt vote.height vote.round vote.blockHash vote.voteType) :
    s'.Counts vote ↔ s.Counts vote := by
  unfold Counts voters
  rw [h]

omit [Primitives] [Verifiers] in
/-- A vote that is accepted does not touch a stored vote, unless it is one of another
round. -/
theorem Sound.counts_stored {s : VoteManager} (hs : Sound s) {vote w : Vote}
    (hfresh : w.key ∉ s.seenVotes) (hseen : vote.key ∈ s.seenVotes) :
    ((s.recorded w).stored w).Counts vote ↔
      s.Counts vote ∧ ¬ (w.height = vote.height ∧ w.round ≠ vote.round) := by
  have hvotes := votesAt_stored (s.recorded w) w vote.height vote.round vote.blockHash vote.voteType
  change _ = (if vote.height = w.height then
    if vote.round = w.round then
      if vote.voteType = w.voteType ∧ vote.blockHash = w.blockHash then s.extended w
      else s.votesAt vote.height vote.round vote.blockHash vote.voteType
    else []
    else s.votesAt vote.height vote.round vote.blockHash vote.voteType) at hvotes
  split_ifs at hvotes with hheight hround hplace
  · -- the same place: the voter is another one, because the key is new
    have hvoter : vote.voter ≠ w.voter := by
      intro hsame
      have hkey : vote.key = w.key := by
        unfold Vote.key
        rw [hheight, hround, hplace.1, hsame]
      rw [hkey] at hseen
      exact hfresh hseen
    rw [hs.extended hfresh, ← hheight, ← hround, ← hplace.1, ← hplace.2] at hvotes
    unfold Counts voters
    rw [hvotes]
    simp [hvoter, hround]
  · rw [counts_of_votesAt hvotes]
    simp [hround]
  · unfold Counts voters
    rw [hvotes]
    simp [hheight, Ne.symm hround]
  · rw [counts_of_votesAt hvotes]
    simp [Ne.symm hheight]

/-- **One operation**: a stored vote stays, unless its height is dropped or it is
displaced. -/
theorem Sound.counts_after {s : VoteManager} (hs : Sound s) {vote : Vote}
    (hseen : vote.key ∈ s.seenVotes) (op : VoteOp) (hdrops : ¬ s.Drops vote op) :
    (op.after s).Counts vote ↔ s.Counts vote ∧ ¬ s.Displaces vote op := by
  cases op with
  | addVote w =>
      have hquiet := hs.addVote_quiet w
      have hsame : ((VoteOp.addVote w).after s).Counts vote ↔ (s.voted w).Counts vote :=
        counts_of_votesAt (hquiet.votesAt _ _ _ _)
      rw [hsame]
      unfold VoteManager.voted Displaces
      split_ifs with haccepts
      · rw [hs.counts_stored haccepts.2 hseen]
        simp [haccepts]
      · simp [haccepts]
  | clearRound height =>
      have hlookup := lookup_clearRound s height vote.height
      rw [if_neg (Ne.symm hdrops)] at hlookup
      unfold Displaces
      rw [and_iff_left not_false]
      exact counts_of_votesAt (votesAt_of_lookup hlookup _ _ _)
  | pruneOldHeights keepLast =>
      have hlookup := lookup_pruneOldHeights s keepLast vote.height
      unfold Drops at hdrops
      rw [if_neg hdrops] at hlookup
      unfold Displaces
      rw [and_iff_left not_false]
      exact counts_of_votesAt (votesAt_of_lookup hlookup _ _ _)
  | validators vm =>
      unfold Displaces
      rw [and_iff_left not_false]
      exact Iff.rfl

/-- The keys that were seen stay seen. -/
theorem Sound.seenVotes_after {s : VoteManager} (hs : Sound s) (op : VoteOp) :
    s.seenVotes ⊆ (op.after s).seenVotes := by
  cases op with
  | addVote vote => exact hs.seenVotes_addVote vote
  | clearRound height => exact Finset.Subset.refl _
  | pruneOldHeights keepLast => exact Finset.Subset.refl _
  | validators vm => exact Finset.Subset.refl _

/-- **Whole runs.** -/
theorem Sound.counts_run {s : VoteManager} (hs : Sound s) {vote : Vote}
    (hseen : vote.key ∈ s.seenVotes) (ops : List VoteOp)
    (hkept : Runs.Along VoteOp.after (fun s op => ¬ s.Drops vote op) s ops) :
    (s.run ops).Counts vote ↔
      s.Counts vote ∧ Runs.Along VoteOp.after (fun s op => ¬ s.Displaces vote op) s ops := by
  induction ops generalizing s with
  | nil => exact (and_iff_left trivial).symm
  | cons op rest ih =>
      have hrest := ih (hs.after op) (hs.seenVotes_after op hseen) hkept.2
      show ((op.after s).run rest).Counts vote ↔ _
      rw [hrest, hs.counts_after hseen op hkept.1, Runs.along_cons, and_assoc]

/-! ## Accepted votes -/

omit [Primitives] [Verifiers] in
/-- `get_vote_count` is the number of distinct validators that are counted. -/
theorem Sound.getVoteCount_fst {s : VoteManager} (hs : Sound s) (height : BlockHeight)
    (round : UInt64) (blockHash : Hash) (voteType : VoteType) :
    (getVoteCount height round blockHash voteType s).1
      = .ok (s.voters height round blockHash voteType).card := by
  have hnodup := hs.nodup height round blockHash voteType
  unfold voters
  rw [List.toFinset_card_of_nodup hnodup, List.length_map]
  rfl

/-- The voter of an accepted vote is counted. -/
theorem Sound.counts_accepted {s : VoteManager} (hs : Sound s) {vote : Vote} {q : Bool}
    (hadded : (addVote vote s).1 = .ok (.added q)) :
    (addVote vote s).2.Counts vote ∧ vote.key ∈ (addVote vote s).2.seenVotes := by
  have haccepts : s.Accepts vote := by
    by_contra hnot
    by_cases hvalid : s.Valid vote
    · have hseen : vote.key ∈ s.seenVotes := by
        by_contra hfresh
        exact hnot ⟨hvalid, hfresh⟩
      rw [(addVote_seen hvalid hseen).2.2] at hadded
      cases hadded
    · exact (addVote_invalid hvalid).2.2.1 _ hadded
  have hquiet := (hs.addVote_accepted haccepts).1
  constructor
  · rw [counts_of_votesAt (hquiet.votesAt _ _ _ _), Counts, hs.voters_stored haccepts.2]
    exact Finset.mem_insert_self _ _
  · rw [hquiet.seenVotes]
    exact Finset.mem_insert_self _ _

/-- **When an accepted vote is still counted.**  After `add_vote` has returned `Added` in a
state that is reached from a new vote manager, and in every run that does not drop the
height: `get_vote_count` is the number of distinct voters in the store, and the voter is one
of them if and only if no vote of another round at the same height was accepted in the
meantime. -/
theorem retained_iff (vm : ValidatorManager) (clock : Clock) (past : List VoteOp) (vote : Vote)
    (q : Bool) (hadded : (addVote vote ((new vm clock).run past)).1 = .ok (.added q))
    (ops : List VoteOp) :
    let s := (addVote vote ((new vm clock).run past)).2
    Runs.Along VoteOp.after (fun s op => ¬ s.Drops vote op) s ops →
      (getVoteCount vote.height vote.round vote.blockHash vote.voteType (s.run ops)).1
          = .ok ((s.run ops).voters vote.height vote.round vote.blockHash vote.voteType).card ∧
        (vote.voter ∈ (s.run ops).voters vote.height vote.round vote.blockHash vote.voteType ↔
          Runs.Along VoteOp.after (fun s op => ¬ s.Displaces vote op) s ops) := by
  intro s hkept
  have hpast : Sound ((new vm clock).run past) := (sound_new vm clock).run past
  have hs : Sound s := hpast.after (.addVote vote)
  obtain ⟨hcounts, hseen⟩ := hpast.counts_accepted hadded
  refine ⟨(hs.run ops).getVoteCount_fst _ _ _ _, ?_⟩
  exact (hs.counts_run hseen ops hkept).trans (and_iff_right hcounts)

end VoteManager

section Example

open scoped Sample
open Sample VoteManager

/-- A vote of round 1 by the second validator: the accepted vote of round 0 is no longer
counted, and cannot be submitted again. -/
theorem late_round_loses_vote :
    let s := voteManager [(1, 1000000000000), (2, 1000000000000)]
    let vote := ballot 1 1 0 .prevote zero32
    let other := ballot 2 2 1 .prevote zero32
    let s' := (addVote other (addVote vote s).2).2
    (addVote vote s).1 = .ok (.added true) ∧
      (getVoteCount 1 0 zero32 .prevote (addVote vote s).2).1 = .ok 1 ∧
      (getVoteCount 1 0 zero32 .prevote s').1 = .ok 0 ∧
      (addVote vote s').1 = .ok .alreadySeen := by
  intro s vote other s'
  refine ⟨?_, ?_, ?_, ?_⟩
  · decide +kernel
  · decide +kernel
  · decide +kernel
  · decide +kernel

/-- A vote of the same round leaves it in the store. -/
theorem same_round_keeps_vote :
    let vm := registry inOrder [(1, 1000000000000), (2, 1000000000000)]
    let vote := ballot 1 1 0 .prevote zero32
    let ops := [VoteOp.addVote (ballot 2 2 0 .prevote zero32)]
    let s := (addVote vote ((new vm fun _ => 1000).run [])).2
    vote.voter ∈ (s.run ops).voters vote.height vote.round vote.blockHash vote.voteType := by
  intro vm vote ops s
  have hadded : (addVote vote ((new vm fun _ => 1000).run [])).1 = .ok (.added true) := by
    decide +kernel
  have hretained := retained_iff vm (fun _ => 1000) [] vote true hadded ops
  refine (hretained ⟨not_false, trivial⟩).2.mpr ⟨?_, trivial⟩
  rintro ⟨-, hround, -⟩
  exact hround rfl

end Example
