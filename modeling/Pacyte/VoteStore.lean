/-
# What the vote store holds

The store has one round for each height.  `votesAt_stored` says what is found in it after
a vote was stored: the votes of the same height and another round are gone, the votes for
other heights, types and blocks are what they were.

In every state that the public operations reach, the stored votes fit their place, their
keys are among the keys that were seen, and no validator has two votes of one type in one
round (`Sound`).
-/
import Pacyte.VoteRuns
import Pacyte.Runs

open Locks

namespace RoundVotes

theorem round_setVotes (rv : RoundVotes) (voteType : VoteType) (blockHash : Hash)
    (votes : List Vote) : (rv.setVotes voteType blockHash votes).round = rv.round := by
  cases voteType with
  | prevote => rfl
  | precommit => rfl

/-- Only the votes of the type for the block are replaced. -/
theorem votesFor_setVotes (rv : RoundVotes) (voteType voteType' : VoteType)
    (blockHash blockHash' : Hash) (votes : List Vote) :
    (rv.setVotes voteType blockHash votes).votesFor voteType' blockHash'
      = if voteType' = voteType ∧ blockHash' = blockHash then votes
        else rv.votesFor voteType' blockHash' := by
  by_cases hhash : blockHash' = blockHash
  · subst hhash
    cases voteType with
    | prevote =>
        cases voteType' with
        | prevote => simp [setVotes, votesFor, voteMap]
        | precommit => simp [setVotes, votesFor, voteMap]
    | precommit =>
        cases voteType' with
        | prevote => simp [setVotes, votesFor, voteMap]
        | precommit => simp [setVotes, votesFor, voteMap]
  · cases voteType with
    | prevote =>
        cases voteType' with
        | prevote => simp [setVotes, votesFor, voteMap, hhash, AList.lookup_insert_ne hhash]
        | precommit => simp [setVotes, votesFor, voteMap]
    | precommit =>
        cases voteType' with
        | prevote => simp [setVotes, votesFor, voteMap]
        | precommit => simp [setVotes, votesFor, voteMap, hhash, AList.lookup_insert_ne hhash]

theorem votesFor_new (round : UInt64) (voteType : VoteType) (blockHash : Hash) :
    (new round).votesFor voteType blockHash = [] := by
  cases voteType with
  | prevote => rfl
  | precommit => rfl

end RoundVotes

namespace VoteManager

/-! ## The votes for a block -/

/-- The votes for a block, through the round of the height. -/
theorem votesAt_eq_ite (s : VoteManager) (height : BlockHeight) (round : UInt64)
    (blockHash : Hash) (voteType : VoteType) :
    s.votesAt height round blockHash voteType
      = match s.votes.lookup height with
        | none => []
        | some rv => if rv.round = round then rv.votesFor voteType blockHash else [] := by
  unfold votesAt roundVotes
  cases hlookup : s.votes.lookup height with
  | none => rfl
  | some rv =>
      rw [Option.filter_some]
      by_cases hround : rv.round = round
      · simp [hround]
      · simp [hround]

theorem round_currentRound (s : VoteManager) (vote : Vote) :
    (s.currentRound vote).round = vote.round := by
  unfold currentRound
  cases hlookup : s.votes.lookup vote.height with
  | none => rfl
  | some rv =>
      by_cases hround : rv.round = vote.round
      · simp [hround]
      · simp [hround, RoundVotes.new]

/-- The votes of the round that a vote is put into. -/
theorem votesFor_currentRound (s : VoteManager) (vote : Vote) (voteType : VoteType)
    (blockHash : Hash) :
    (s.currentRound vote).votesFor voteType blockHash
      = s.votesAt vote.height vote.round blockHash voteType := by
  rw [votesAt_eq_ite]
  unfold currentRound
  cases hlookup : s.votes.lookup vote.height with
  | none => exact RoundVotes.votesFor_new _ _ _
  | some rv =>
      by_cases hround : rv.round = vote.round
      · simp [hround]
      · simp [hround, RoundVotes.votesFor_new]

theorem rivals_eq (s : VoteManager) (vote : Vote) :
    s.rivals vote = s.votesAt vote.height vote.round vote.blockHash vote.voteType :=
  votesFor_currentRound s vote vote.voteType vote.blockHash

theorem isDuplicate_iff (s : VoteManager) (vote : Vote) :
    s.isDuplicate vote = true ↔
      ∃ v ∈ s.votesAt vote.height vote.round vote.blockHash vote.voteType, v.voter = vote.voter := by
  rw [isDuplicate, rivals_eq, List.any_eq_true]
  simp only [decide_eq_true_eq]

/-- The votes for the block of a vote after it was stored. -/
def extended (s : VoteManager) (vote : Vote) : List Vote :=
  if s.isDuplicate vote then s.rivals vote else s.rivals vote ++ [vote]

/-- **What is found in the store after a vote was put into it.** -/
theorem votesAt_stored (s : VoteManager) (vote : Vote) (height : BlockHeight) (round : UInt64)
    (blockHash : Hash) (voteType : VoteType) :
    (s.stored vote).votesAt height round blockHash voteType =
      if height = vote.height then
        if round = vote.round then
          if voteType = vote.voteType ∧ blockHash = vote.blockHash then s.extended vote
          else s.votesAt height round blockHash voteType
        else []
      else s.votesAt height round blockHash voteType := by
  rw [votesAt_eq_ite (s.stored vote)]
  by_cases hheight : height = vote.height
  · subst hheight
    have hlookup : (s.stored vote).votes.lookup vote.height
        = some ((s.currentRound vote).setVotes vote.voteType vote.blockHash (s.extended vote)) :=
      AList.lookup_insert _
    rw [hlookup, if_pos rfl]
    dsimp only
    rw [RoundVotes.round_setVotes, round_currentRound]
    by_cases hround : round = vote.round
    · rw [if_pos hround, if_pos hround.symm, RoundVotes.votesFor_setVotes, votesFor_currentRound,
        hround]
    · rw [if_neg hround, if_neg (Ne.symm hround)]
  · have hlookup : (s.stored vote).votes.lookup height = s.votes.lookup height :=
      AList.lookup_insert_ne hheight
    rw [hlookup, if_neg hheight, votesAt_eq_ite]

/-- A double vote is another vote of the voter in the same round and of the same type. -/
theorem isDouble_iff (s : VoteManager) (vote : Vote) :
    s.isDouble vote = true ↔
      ∃ blockHash, blockHash ≠ vote.blockHash ∧
        ∃ v ∈ s.votesAt vote.height vote.round blockHash vote.voteType, v.voter = vote.voter := by
  unfold isDouble votesAt
  cases hround : s.roundVotes vote.height vote.round with
  | none => simp
  | some rv =>
      simp only [List.any_eq_true, Bool.and_eq_true, decide_eq_true_eq]
      constructor
      · rintro ⟨⟨blockHash, votes⟩, hmem, hne, v, hv, hvoter⟩
        rw [Map.mem_toPairs] at hmem
        refine ⟨blockHash, hne, v, ?_, hvoter⟩
        rw [RoundVotes.votesFor, hmem]
        exact hv
      · rintro ⟨blockHash, hne, v, hv, hvoter⟩
        cases hlookup : (rv.voteMap vote.voteType).lookup blockHash with
        | none =>
            rw [RoundVotes.votesFor, hlookup] at hv
            exact absurd hv List.not_mem_nil
        | some votes =>
            rw [RoundVotes.votesFor, hlookup] at hv
            exact ⟨(blockHash, votes), (Map.mem_toPairs _ _ _).mpr hlookup, hne, v, hv, hvoter⟩

/-- Storing a vote does not change whether it is a double vote. -/
theorem isDouble_stored (s : VoteManager) (vote : Vote) :
    (s.stored vote).isDouble vote = s.isDouble vote := by
  rw [Bool.eq_iff_iff, isDouble_iff, isDouble_iff]
  refine exists_congr fun blockHash => and_congr_right fun hne => ?_
  rw [votesAt_stored, if_pos rfl, if_pos rfl, if_neg (fun h => hne h.2)]

/-! ## Sound stores -/

/-- The stored votes fit their place, their keys were seen, and a validator has at most
one of them for each round and type. -/
structure Sound (s : VoteManager) : Prop where
  fits : ∀ height round blockHash voteType, ∀ v ∈ s.votesAt height round blockHash voteType,
    v.height = height ∧ v.round = round ∧ v.blockHash = blockHash ∧ v.voteType = voteType
  seen : ∀ height round blockHash voteType, ∀ v ∈ s.votesAt height round blockHash voteType,
    v.key ∈ s.seenVotes
  single : ∀ height round blockHash blockHash' voteType,
    ∀ v ∈ s.votesAt height round blockHash voteType,
    ∀ w ∈ s.votesAt height round blockHash' voteType, v.voter = w.voter → v = w
  nodup : ∀ height round blockHash voteType,
    ((s.votesAt height round blockHash voteType).map Vote.voter).Nodup

/-- A store from which some places were emptied. -/
theorem Sound.of_emptied {s s' : VoteManager} (hs : Sound s)
    (hvotes : ∀ height round blockHash voteType,
      s'.votesAt height round blockHash voteType = [] ∨
      s'.votesAt height round blockHash voteType = s.votesAt height round blockHash voteType)
    (hseen : s'.seenVotes = s.seenVotes) : Sound s' := by
  have hmem : ∀ {height round blockHash voteType v},
      v ∈ s'.votesAt height round blockHash voteType →
      v ∈ s.votesAt height round blockHash voteType := by
    intro height round blockHash voteType v hv
    rcases hvotes height round blockHash voteType with hempty | hsame
    · rw [hempty] at hv
      exact absurd hv List.not_mem_nil
    · rwa [hsame] at hv
  refine ⟨fun h r b ty v hv => hs.fits h r b ty v (hmem hv), fun h r b ty v hv => ?_,
    fun h r b b' ty v hv w hw => hs.single h r b b' ty v (hmem hv) w (hmem hw),
    fun h r b ty => ?_⟩
  · rw [hseen]
    exact hs.seen h r b ty v (hmem hv)
  · rcases hvotes h r b ty with hempty | hsame
    · rw [hempty]
      exact List.nodup_nil
    · rw [hsame]
      exact hs.nodup h r b ty

theorem Quiet.sound {s s' : VoteManager} (h : Quiet s s') (hs : Sound s) : Sound s' :=
  hs.of_emptied (fun height round blockHash voteType =>
    Or.inr (h.votesAt height round blockHash voteType)) h.seenVotes

theorem sound_new (vm : ValidatorManager) (clock : Clock) : Sound (new vm clock) := by
  have hempty : ∀ height round blockHash voteType,
      (new vm clock).votesAt height round blockHash voteType = [] := fun _ _ _ _ => rfl
  refine ⟨fun h r b ty v hv => ?_, fun h r b ty v hv => ?_, fun h r b b' ty v hv => ?_,
    fun h r b ty => ?_⟩
  · exact absurd hv List.not_mem_nil
  · exact absurd hv List.not_mem_nil
  · exact absurd hv List.not_mem_nil
  · exact List.nodup_nil

/-- A voter whose key is new has no vote of the type in the round. -/
theorem Sound.voter_ne {s : VoteManager} (hs : Sound s) {vote : Vote}
    (hfresh : vote.key ∉ s.seenVotes) (blockHash : Hash) :
    ∀ v ∈ s.votesAt vote.height vote.round blockHash vote.voteType, v.voter ≠ vote.voter := by
  intro v hv hvoter
  obtain ⟨hheight, hround, -, htype⟩ := hs.fits _ _ _ _ v hv
  have hkey : v.key = vote.key := by
    rw [Vote.key, hheight, hround, htype, hvoter]
    rfl
  have hseen := hs.seen _ _ _ _ v hv
  rw [hkey] at hseen
  exact hfresh hseen

theorem Sound.isDuplicate {s : VoteManager} (hs : Sound s) {vote : Vote}
    (hfresh : vote.key ∉ s.seenVotes) : s.isDuplicate vote = false := by
  rw [← Bool.not_eq_true, isDuplicate_iff]
  rintro ⟨v, hv, hvoter⟩
  exact hs.voter_ne hfresh _ v hv hvoter

theorem Sound.isDouble {s : VoteManager} (hs : Sound s) {vote : Vote}
    (hfresh : vote.key ∉ s.seenVotes) : s.isDouble vote = false := by
  rw [← Bool.not_eq_true, isDouble_iff]
  rintro ⟨blockHash, -, v, hv, hvoter⟩
  exact hs.voter_ne hfresh _ v hv hvoter

/-- The votes for its block after a vote with a new key was stored. -/
theorem Sound.extended {s : VoteManager} (hs : Sound s) {vote : Vote}
    (hfresh : vote.key ∉ s.seenVotes) :
    s.extended vote
      = s.votesAt vote.height vote.round vote.blockHash vote.voteType ++ [vote] := by
  rw [VoteManager.extended, hs.isDuplicate hfresh, rivals_eq]
  rfl

/-- A vote that is found after storing was there before, or is the new one. -/
theorem Sound.mem_stored {s : VoteManager} (hs : Sound s) {vote : Vote}
    (hfresh : vote.key ∉ s.seenVotes) {height : BlockHeight} {round : UInt64} {blockHash : Hash}
    {voteType : VoteType} {v : Vote}
    (hv : v ∈ ((s.recorded vote).stored vote).votesAt height round blockHash voteType) :
    v ∈ s.votesAt height round blockHash voteType ∨
      v = vote ∧ height = vote.height ∧ round = vote.round ∧ voteType = vote.voteType ∧
        blockHash = vote.blockHash := by
  rw [votesAt_stored] at hv
  change v ∈ (if height = vote.height then
    if round = vote.round then
      if voteType = vote.voteType ∧ blockHash = vote.blockHash then s.extended vote
      else s.votesAt height round blockHash voteType
    else []
    else s.votesAt height round blockHash voteType) at hv
  split_ifs at hv with hheight hround hplace
  · rw [hs.extended hfresh, List.mem_append, List.mem_singleton] at hv
    rcases hv with hold | hnew
    · rw [hheight, hround, hplace.1, hplace.2]
      exact Or.inl hold
    · exact Or.inr ⟨hnew, hheight, hround, hplace.1, hplace.2⟩
  · exact Or.inl hv
  · exact absurd hv List.not_mem_nil
  · exact Or.inl hv

/-- A vote with a new key keeps the store sound. -/
theorem Sound.stored {s : VoteManager} (hs : Sound s) {vote : Vote}
    (hfresh : vote.key ∉ s.seenVotes) : Sound ((s.recorded vote).stored vote) := by
  refine ⟨fun h r b ty v hv => ?_, fun h r b ty v hv => ?_, fun h r b b' ty v hv w hw => ?_,
    fun h r b ty => ?_⟩
  · rcases hs.mem_stored hfresh hv with hold | ⟨rfl, rfl, rfl, rfl, rfl⟩
    · exact hs.fits h r b ty v hold
    · exact ⟨rfl, rfl, rfl, rfl⟩
  · rcases hs.mem_stored hfresh hv with hold | ⟨rfl, -⟩
    · exact Finset.mem_insert_of_mem (hs.seen h r b ty v hold)
    · exact Finset.mem_insert_self _ _
  · intro hvoter
    rcases hs.mem_stored hfresh hv with hold | ⟨rfl, rfl, rfl, rfl, -⟩
    · rcases hs.mem_stored hfresh hw with hold' | ⟨rfl, rfl, rfl, rfl, -⟩
      · exact hs.single h r b b' ty v hold w hold' hvoter
      · exact absurd hvoter (hs.voter_ne hfresh b v hold)
    · rcases hs.mem_stored hfresh hw with hold' | ⟨rfl, -⟩
      · exact absurd hvoter.symm (hs.voter_ne hfresh b' w hold')
      · rfl
  · rw [votesAt_stored]
    change ((if h = vote.height then
      if r = vote.round then
        if ty = vote.voteType ∧ b = vote.blockHash then s.extended vote else s.votesAt h r b ty
      else []
      else s.votesAt h r b ty).map Vote.voter).Nodup
    split_ifs with hheight hround hplace
    · rw [hs.extended hfresh, List.map_append, List.nodup_append]
      refine ⟨hs.nodup _ _ _ _, List.nodup_singleton _, ?_⟩
      intro voter hvoter voter' hvoter'
      obtain ⟨v, hv, rfl⟩ := List.mem_map.mp hvoter
      rw [List.map_singleton, List.mem_singleton] at hvoter'
      rw [hvoter']
      exact hs.voter_ne hfresh _ v hv
    · exact hs.nodup h r b ty
    · exact List.nodup_nil
    · exact hs.nodup h r b ty

/-! ## Adding a vote to a sound store -/

section AddVote

variable [Primitives] [Verifiers]

/-- The vote is valid and its key is new. -/
def Accepts (s : VoteManager) (vote : Vote) : Prop := s.Valid vote ∧ vote.key ∉ s.seenVotes

instance (s : VoteManager) (vote : Vote) : Decidable (s.Accepts vote) :=
  inferInstanceAs (Decidable (_ ∧ _))

/-- What `add_vote` makes of a sound store. -/
def voted (s : VoteManager) (vote : Vote) : VoteManager :=
  if s.Accepts vote then (s.recorded vote).stored vote else s

/-- A vote that is accepted is stored, and nothing is slashed. -/
theorem Sound.addVote_accepted {s : VoteManager} (hs : Sound s) {vote : Vote}
    (h : s.Accepts vote) :
    Quiet ((s.recorded vote).stored vote) (addVote vote s).2 ∧
      (addVote vote s).1 =
        match (checkQuorum vote.height vote.round vote.blockHash vote.voteType
          ((s.recorded vote).stored vote)).1 with
        | .ok quorumReached => .ok (.added quorumReached)
        | .err e => .err e
        | .panic => .panic := by
  obtain ⟨t, hquiet, -, hrun⟩ := addVote_fresh h.1 h.2
  have hdouble : ((s.recorded vote).stored vote).isDouble vote = false :=
    (isDouble_stored (s.recorded vote) vote).trans (hs.isDouble h.2)
  rw [hs.isDuplicate h.2, hdouble] at hrun
  simp only [Bool.false_eq_true, if_false] at hrun
  rw [hrun]
  cases (checkQuorum vote.height vote.round vote.blockHash vote.voteType
    ((s.recorded vote).stored vote)).1 with
  | ok q => exact ⟨hquiet, rfl⟩
  | err e => exact ⟨hquiet, rfl⟩
  | panic => exact ⟨hquiet, rfl⟩

/-- **Adding a vote to a sound store.** -/
theorem Sound.addVote_quiet {s : VoteManager} (hs : Sound s) (vote : Vote) :
    Quiet (s.voted vote) (addVote vote s).2 := by
  unfold voted
  by_cases hvalid : s.Valid vote
  · by_cases hseen : vote.key ∈ s.seenVotes
    · rw [if_neg (fun h => h.2 hseen)]
      exact (addVote_seen hvalid hseen).1
    · rw [if_pos ⟨hvalid, hseen⟩]
      exact (hs.addVote_accepted ⟨hvalid, hseen⟩).1
  · rw [if_neg (fun h => hvalid h.1)]
    exact (addVote_invalid hvalid).1

theorem Sound.voted {s : VoteManager} (hs : Sound s) (vote : Vote) : Sound (s.voted vote) := by
  unfold VoteManager.voted
  split_ifs with h
  · exact hs.stored h.2
  · exact hs

/-- Adding a vote keeps the store sound. -/
theorem Sound.afterVote {s : VoteManager} (hs : Sound s) (vote : Vote) :
    Sound (VoteManager.addVote vote s).2 := (hs.addVote_quiet vote).sound (hs.voted vote)

/-- The keys that were seen stay seen. -/
theorem Sound.seenVotes_addVote {s : VoteManager} (hs : Sound s) (vote : Vote) :
    s.seenVotes ⊆ (VoteManager.addVote vote s).2.seenVotes := by
  rw [(hs.addVote_quiet vote).seenVotes]
  unfold VoteManager.voted
  split_ifs
  · exact Finset.subset_insert _ _
  · exact Finset.Subset.refl _

end AddVote

/-! ## Clearing and pruning -/

/-- A store in which some heights were dropped. -/
theorem votesAt_of_lookup {s s' : VoteManager} {height : BlockHeight}
    (h : s'.votes.lookup height = s.votes.lookup height) (round : UInt64) (blockHash : Hash)
    (voteType : VoteType) :
    s'.votesAt height round blockHash voteType = s.votesAt height round blockHash voteType := by
  rw [votesAt_eq_ite, votesAt_eq_ite, h]

theorem votesAt_of_none {s : VoteManager} {height : BlockHeight}
    (h : s.votes.lookup height = none) (round : UInt64) (blockHash : Hash) (voteType : VoteType) :
    s.votesAt height round blockHash voteType = [] := by
  rw [votesAt_eq_ite, h]

theorem lookup_clearRound (s : VoteManager) (height height' : BlockHeight) :
    (clearRound height s).2.votes.lookup height'
      = if height' = height then none else s.votes.lookup height' := by
  show (s.votes.erase height).lookup height' = _
  split_ifs with heq
  · rw [heq, AList.lookup_erase]
  · rw [AList.lookup_erase_ne heq]

theorem lookup_foldl_erase (m : Map BlockHeight RoundVotes) (heights : List BlockHeight)
    (height : BlockHeight) :
    (heights.foldl (fun votes height => votes.erase height) m).lookup height
      = if height ∈ heights then none else m.lookup height := by
  induction heights generalizing m with
  | nil => rfl
  | cons first rest ih =>
      rw [List.foldl_cons, ih]
      by_cases hfirst : height = first
      · subst hfirst
        rw [AList.lookup_erase, ite_self, if_pos List.mem_cons_self]
      · rw [AList.lookup_erase_ne hfirst]
        simp [hfirst]

theorem lookup_pruneOldHeights (s : VoteManager) (keepLast : ℕ) (height : BlockHeight) :
    (pruneOldHeights keepLast s).2.votes.lookup height
      = if height ∈ pruned keepLast s.votes.keys then none else s.votes.lookup height :=
  lookup_foldl_erase s.votes _ height

/-! ## Runs -/

/-- An operation on the vote manager.  Its validator manager is shared: between two calls
its other owners may have changed it to whatever they like. -/
inductive VoteOp : Type where
  | addVote (vote : Vote)
  | clearRound (height : BlockHeight)
  | pruneOldHeights (keepLast : ℕ)
  | validators (vm : ValidatorManager)

section Runs

variable [Primitives] [Verifiers]

/-- The state after an operation. -/
def VoteOp.after (op : VoteOp) (s : VoteManager) : VoteManager :=
  match op with
  | addVote vote => (VoteManager.addVote vote s).2
  | clearRound height => (VoteManager.clearRound height s).2
  | pruneOldHeights keepLast => (VoteManager.pruneOldHeights keepLast s).2
  | validators vm => { s with validatorManager := vm }

/-- The state after a run. -/
def run (s : VoteManager) (ops : List VoteOp) : VoteManager := Runs.run VoteOp.after s ops

omit [Primitives] [Verifiers] in
/-- Dropped heights keep the store sound. -/
theorem Sound.of_dropped {s s' : VoteManager} (hs : Sound s)
    (hvotes : ∀ height, s'.votes.lookup height = none ∨
      s'.votes.lookup height = s.votes.lookup height)
    (hseen : s'.seenVotes = s.seenVotes) : Sound s' := by
  refine hs.of_emptied (fun height round blockHash voteType => ?_) hseen
  rcases hvotes height with hnone | hsame
  · exact Or.inl (votesAt_of_none hnone round blockHash voteType)
  · exact Or.inr (votesAt_of_lookup hsame round blockHash voteType)

theorem Sound.after {s : VoteManager} (hs : Sound s) (op : VoteOp) : Sound (op.after s) := by
  cases op with
  | addVote vote => exact hs.afterVote vote
  | clearRound height =>
      refine hs.of_dropped (fun height' => ?_) rfl
      show (VoteManager.clearRound height s).2.votes.lookup height' = none ∨
        (VoteManager.clearRound height s).2.votes.lookup height' = _
      rw [lookup_clearRound]
      split_ifs
      · exact Or.inl rfl
      · exact Or.inr rfl
  | pruneOldHeights keepLast =>
      refine hs.of_dropped (fun height => ?_) rfl
      show (VoteManager.pruneOldHeights keepLast s).2.votes.lookup height = none ∨
        (VoteManager.pruneOldHeights keepLast s).2.votes.lookup height = _
      rw [lookup_pruneOldHeights]
      split_ifs
      · exact Or.inl rfl
      · exact Or.inr rfl
  | validators vm => exact hs.of_dropped (fun _ => Or.inr rfl) rfl

/-- **Every reachable store is sound.** -/
theorem Sound.run {s : VoteManager} (hs : Sound s) (ops : List VoteOp) : Sound (s.run ops) :=
  Runs.invariant (fun _ op hs => hs.after op) hs ops

end Runs

end VoteManager
