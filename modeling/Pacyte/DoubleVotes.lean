/-
# Double votes

`add_vote` slashes a validator that has voted for two blocks in one round.  But the key of
a vote does not name its block, so the second vote is answered with `AlreadySeen` before
anything is compared: in no run a double vote is caught (`caught_iff`), and nobody is
slashed.
-/
import Pacyte.VoteStore

/-- Two votes of one validator in one round, of the same type and for different blocks. -/
structure Vote.Conflicts (v w : Vote) : Prop where
  voter : v.voter = w.voter
  height : v.height = w.height
  round : v.round = w.round
  voteType : v.voteType = w.voteType
  blockHash : v.blockHash ≠ w.blockHash

/-- The keys of conflicting votes are the same. -/
theorem Vote.Conflicts.key {v w : Vote} (h : v.Conflicts w) : v.key = w.key := by
  unfold Vote.key
  rw [h.voter, h.height, h.round, h.voteType]

namespace VoteManager

variable [Primitives] [Verifiers]

/-! ## Submitting votes -/

/-- The state after some votes were submitted. -/
def submit (s : VoteManager) (votes : List Vote) : VoteManager :=
  votes.foldl (fun s vote => (addVote vote s).2) s

theorem submit_append (s : VoteManager) (votes votes' : List Vote) :
    s.submit (votes ++ votes') = (s.submit votes).submit votes' := List.foldl_append

theorem submit_cons (s : VoteManager) (vote : Vote) (votes : List Vote) :
    s.submit (vote :: votes) = (addVote vote s).2.submit votes := rfl

/-- The key of a valid vote is seen in the end, whether or not it was new. -/
theorem Sound.key_mem_addVote {s : VoteManager} (hs : Sound s) {vote : Vote}
    (hvalid : s.Valid vote) : vote.key ∈ (VoteManager.addVote vote s).2.seenVotes := by
  by_cases hseen : vote.key ∈ s.seenVotes
  · exact hs.seenVotes_addVote vote hseen
  · rw [(hs.addVote_quiet vote).seenVotes]
    unfold VoteManager.voted
    rw [if_pos ⟨hvalid, hseen⟩]
    exact Finset.mem_insert_self _ _

/-- Adding a vote leaves the records as they are. -/
theorem Sound.validators_addVote {s : VoteManager} (hs : Sound s) (vote : Vote) :
    (VoteManager.addVote vote s).2.validatorManager.validators = s.validatorManager.validators := by
  rw [(hs.addVote_quiet vote).validators]
  unfold VoteManager.voted
  split_ifs
  · rfl
  · rfl

/-- **Whole runs**: the store stays sound, no key is forgotten, and no record changes. -/
theorem Sound.submit {s : VoteManager} (hs : Sound s) (votes : List Vote) :
    Sound (s.submit votes) ∧ s.seenVotes ⊆ (s.submit votes).seenVotes ∧
      (s.submit votes).validatorManager.validators = s.validatorManager.validators := by
  induction votes generalizing s with
  | nil => exact ⟨hs, Finset.Subset.refl _, rfl⟩
  | cons vote rest ih =>
      obtain ⟨hsound, hseen, hrecords⟩ := ih (hs.afterVote vote)
      rw [submit_cons]
      exact ⟨hsound, (hs.seenVotes_addVote vote).trans hseen,
        hrecords.trans (hs.validators_addVote vote)⟩

/-! ## Double votes are not caught -/

/-- After `before`, `v` and `between`, the vote `w` conflicts with `v`, and each of the two
passes the validation when it is submitted. -/
structure DoubleVote (s : VoteManager) (before : List Vote) (v : Vote) (between : List Vote)
    (w : Vote) : Prop where
  conflicts : v.Conflicts w
  first : (s.submit before).Valid v
  second : (s.submit (before ++ v :: between)).Valid w

/-- The second vote of every double vote is refused with `DoubleVoting`, and its voter is
slashed in the end. -/
def Caught (s : VoteManager) (votes : List Vote) : Prop :=
  ∀ before v between w rest, votes = before ++ v :: between ++ w :: rest →
    DoubleVote s before v between w →
    (addVote w (s.submit (before ++ v :: between))).1 = .err (.doubleVoting w.voter) ∧
      ((s.submit votes).validatorManager.validators.lookup w.voter).map (·.status)
        = some .slashed

/-- The record of a validator without conflicting votes is never touched. -/
def SparesInnocents (s : VoteManager) (votes : List Vote) : Prop :=
  ∀ id, (∀ v ∈ votes, ∀ w ∈ votes, v.voter = id → ¬ v.Conflicts w) →
    ∀ before rest, votes = before ++ rest →
      (s.submit before).validatorManager.validators.lookup id
        = s.validatorManager.validators.lookup id

/-- The second of two conflicting votes is taken for the first one. -/
theorem Sound.second_alreadySeen {s : VoteManager} (hs : Sound s) {before between : List Vote}
    {v w : Vote} (h : DoubleVote s before v between w) :
    (VoteManager.addVote w (s.submit (before ++ v :: between))).1 = .ok .alreadySeen := by
  have hbefore := (hs.submit before).1
  have hkey : v.key ∈ (VoteManager.addVote v (s.submit before)).2.seenVotes :=
    hbefore.key_mem_addVote h.first
  have hbetween := ((hbefore.afterVote v).submit between).2.1 hkey
  rw [h.conflicts.key] at hbetween
  rw [← submit_cons, ← submit_append] at hbetween
  exact (addVote_seen h.second hbetween).2.2

/-- **No double vote is caught.**  For every run of `add_vote` from a new vote manager, the
double votes are caught and the innocent are spared if and only if the run has no double
vote. -/
theorem caught_iff (vm : ValidatorManager) (clock : Clock) (votes : List Vote) :
    (Caught (new vm clock) votes ∧ SparesInnocents (new vm clock) votes) ↔
      ∀ before v between w rest, votes = before ++ v :: between ++ w :: rest →
        ¬ DoubleVote (new vm clock) before v between w := by
  have hs := sound_new vm clock
  constructor
  · rintro ⟨hcaught, -⟩ before v between w rest hvotes hdouble
    have herr := (hcaught before v between w rest hvotes hdouble).1
    rw [hs.second_alreadySeen hdouble] at herr
    cases herr
  · intro hnone
    refine ⟨fun before v between w rest hvotes hdouble => ?_, fun id _ before rest _ => ?_⟩
    · exact absurd hdouble (hnone before v between w rest hvotes)
    · rw [(hs.submit before).2.2]

end VoteManager

section Example

open scoped Sample
open Sample VoteManager

/-- The only validator votes for two blocks; the second vote is answered with
`AlreadySeen`, and the validator stays active. -/
theorem second_vote_is_ignored :
    let s := voteManager [(1, 1000000000000)]
    let v := ballot 1 1 0 .prevote zero32
    let w := ballot 1 1 0 .prevote (Vector.replicate 32 1)
    DoubleVote s [] v [] w ∧
      (addVote w (s.submit [v])).1 = .ok .alreadySeen ∧
      ((s.submit [v, w]).validatorManager.validators.lookup 1).map (·.status) = some .active ∧
      ¬ Caught s [v, w] := by
  intro s v w
  have hdouble : DoubleVote s [] v [] w := by
    refine ⟨⟨rfl, rfl, rfl, rfl, by decide +kernel⟩, ?_, ?_⟩
    · decide +kernel
    · decide +kernel
  have hanswer : (addVote w (s.submit [v])).1 = .ok .alreadySeen := by decide +kernel
  refine ⟨hdouble, hanswer, ?_, fun hcaught => ?_⟩
  · decide +kernel
  · have herr := (hcaught [] v [] w [] rfl hdouble).1
    rw [show s.submit ([] ++ v :: []) = s.submit [v] from rfl, hanswer] at herr
    cases herr

end Example
