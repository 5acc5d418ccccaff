/-
# Runs of the vote manager

Most of what `add_vote` does only looks at the votes and the validators (`Quiet`).  What
is left is one step: a vote that is valid and has a new key is put into the store
(`addVote_run`).

The quorum is checked by adding up the voting power of the stored votes (`powerOf`).
-/
import Pacyte.Votes
import Pacyte.ValidatorRuns

open Locks

namespace VoteManager

/-! ## Programs that only look -/

/-- Nothing but clock and guards differs, and no guard of the validators is left or in
conflict. -/
structure Quiet (s s' : VoteManager) : Prop where
  votes : s'.votes = s.votes
  seenVotes : s'.seenVotes = s.seenVotes
  validators : s'.validatorManager = s.validatorManager.withGuards s'.validatorManager.guards
  free : s.validatorManager.guards = Guards.free → s'.validatorManager.guards = Guards.free

instance : Std.Refl Quiet := ⟨fun _ => ⟨rfl, rfl, rfl, id⟩⟩

instance : IsTrans VoteManager Quiet where
  trans a b c hab hbc := by
    refine ⟨hbc.votes.trans hab.votes, hbc.seenVotes.trans hab.seenVotes, ?_,
      fun h => hbc.free (hab.free h)⟩
    rw [hbc.validators, hab.validators]
    rfl

theorem Quiet.guarded {α : Type} {body : Exec PacyteError VoteManager α}
    (h : Exec.Within Quiet body) (l : VoteLock) (m : Mode) :
    Exec.Within Quiet (guarded l m body) := by
  intro s
  have hbody := h { s with guards := s.guards.acquire l m }
  exact ⟨hbody.votes, hbody.seenVotes, hbody.validators, hbody.free⟩

theorem Quiet.getValidator (id : UInt64) :
    Exec.Within Quiet (onValidators (ValidatorManager.getValidator id)) := by
  intro s
  refine ⟨rfl, rfl, rfl, fun h => ?_⟩
  show s.validatorManager.guards.touch .validators .read = Guards.free
  rw [h]
  rfl

theorem Quiet.activeCount : Exec.Within Quiet (onValidators ValidatorManager.activeCount) := by
  intro s
  refine ⟨rfl, rfl, rfl, fun h => ?_⟩
  show s.validatorManager.guards.touch .currentSet .read = Guards.free
  rw [h]
  rfl

theorem Quiet.sumPower (acc : UInt64) (votes : List Vote) :
    Exec.Within Quiet (sumPower acc votes) := by
  induction votes generalizing acc with
  | nil => exact Exec.Within.pure acc
  | cons vote rest ih =>
      refine Exec.Within.bind (Quiet.getValidator vote.voter) ?_
      intro found
      cases found with
      | none => exact ih acc
      | some validator => exact Exec.Within.bind (Exec.Within.addU64 _ _) fun acc => ih acc

theorem Quiet.getVotingPowerForVotes (height : BlockHeight) (round : UInt64) (blockHash : Hash)
    (voteType : VoteType) :
    Exec.Within Quiet (getVotingPowerForVotes height round blockHash voteType) := by
  apply Quiet.guarded
  refine Exec.Within.bind Exec.Within.get ?_
  intro s
  split
  · exact Exec.Within.pure 0
  · split
    · exact Exec.Within.pure 0
    · exact Quiet.sumPower 0 _

theorem Quiet.checkQuorum (height : BlockHeight) (round : UInt64) (blockHash : Hash)
    (voteType : VoteType) : Exec.Within Quiet (checkQuorum height round blockHash voteType) := by
  apply Quiet.guarded
  refine Exec.Within.bind Exec.Within.get ?_
  intro s
  split
  · exact Exec.Within.pure false
  · refine Exec.Within.bind (Quiet.getVotingPowerForVotes _ _ _ _) fun _ => ?_
    exact Exec.Within.bind Quiet.activeCount fun _ => Exec.Within.pure _

theorem Quiet.detectDoubleVoting (vote : Vote) : Exec.Within Quiet (detectDoubleVoting vote) := by
  apply Quiet.guarded
  refine Exec.Within.bind Exec.Within.get ?_
  intro s
  split
  · exact Exec.Within.pure false
  · exact Exec.Within.pure _

theorem Quiet.validateVote [Primitives] [Verifiers] (vote : Vote) :
    Exec.Within Quiet (validateVote vote) := by
  refine Exec.Within.bind (Quiet.getValidator vote.voter) ?_
  intro found
  cases found with
  | none => exact Exec.Within.throw _
  | some validator =>
      refine Exec.Within.ite (Exec.Within.throw _) (Exec.Within.ite (Exec.Within.throw _) ?_)
      refine Exec.Within.bind (Exec.Within.onPart (fun s t => ⟨rfl, rfl, rfl, id⟩) _) fun now => ?_
      refine Exec.Within.bind (Exec.Within.addU64 _ _) fun latest => ?_
      refine Exec.Within.ite (Exec.Within.throw _) ?_
      refine Exec.Within.bind (Exec.Within.subU64 _ _) fun earliest => ?_
      exact Exec.Within.ite (Exec.Within.throw _) (Exec.Within.pure ())

/-! ## The quorum -/

/-- The voting power of the validators of some votes, as their records have it. -/
def powerOf (vm : ValidatorManager) (votes : List Vote) : ℕ :=
  ((votes.filterMap fun v => vm.validators.lookup v.voter).map fun r => r.votingPower.toNat).sum

/-- The number of validators that the quorum is compared with. -/
def threshold (vm : ValidatorManager) : ℕ := vm.currentSet.activeCount * 2 / 3 + 1

theorem sumPower_fst (acc : UInt64) (votes : List Vote) (s : VoteManager) :
    (sumPower acc votes s).1 =
      if acc.toNat + powerOf s.validatorManager votes < 2 ^ 64 then
        .ok (UInt64.ofNat (acc.toNat + powerOf s.validatorManager votes))
      else .panic := by
  induction votes generalizing acc s with
  | nil =>
      have hfits : acc.toNat + 0 < 2 ^ 64 := acc.toNat_lt
      show Outcome.ok acc = if acc.toNat + 0 < 2 ^ 64 then _ else _
      rw [if_pos hfits]
      show Outcome.ok acc = .ok (UInt64.ofNat (acc.toNat + 0))
      rw [Nat.add_zero, UInt64.ofNat_toNat]
  | cons vote rest ih =>
      have hget : onValidators (ValidatorManager.getValidator vote.voter) s
          = (.ok (s.validatorManager.validators.lookup vote.voter),
            (onValidators (ValidatorManager.getValidator vote.voter) s).2) := rfl
      rw [sumPower, Exec.run_bind_of_ok hget]
      cases hlookup : s.validatorManager.validators.lookup vote.voter with
      | none =>
          have hpower : powerOf s.validatorManager (vote :: rest)
              = powerOf s.validatorManager rest := by
            rw [powerOf, List.filterMap_cons, hlookup]
            rfl
          dsimp only
          rw [hpower]
          exact ih acc _
      | some validator =>
          have hpower : powerOf s.validatorManager (vote :: rest)
              = validator.votingPower.toNat + powerOf s.validatorManager rest := by
            rw [powerOf, List.filterMap_cons, hlookup]
            rfl
          dsimp only
          rw [hpower, Exec.run_bind, Exec.addU64]
          by_cases hfits : acc.toNat + validator.votingPower.toNat < 2 ^ 64
          · rw [if_pos hfits, Exec.run_pure]
            dsimp only
            rw [ih, Exec.toNat_add_of_fits hfits, Nat.add_assoc]
            rfl
          · rw [if_neg hfits, Exec.run_abort, if_neg (by omega)]

theorem votesAt_eq (s : VoteManager) (height : BlockHeight) (round : UInt64) (blockHash : Hash)
    (voteType : VoteType) {rv : RoundVotes} (h : s.roundVotes height round = some rv) :
    s.votesAt height round blockHash voteType
      = ((rv.voteMap voteType).lookup blockHash).getD [] := by
  rw [votesAt, h]
  rfl

/-- The power that is computed for the stored votes. -/
theorem getVotingPowerForVotes_fst (height : BlockHeight) (round : UInt64) (blockHash : Hash)
    (voteType : VoteType) (s : VoteManager) :
    (getVotingPowerForVotes height round blockHash voteType s).1 =
      if powerOf s.validatorManager (s.votesAt height round blockHash voteType) < 2 ^ 64 then
        .ok (UInt64.ofNat (powerOf s.validatorManager (s.votesAt height round blockHash voteType)))
      else .panic := by
  have hempty : powerOf s.validatorManager [] = 0 := rfl
  unfold getVotingPowerForVotes
  rw [VoteManager.guarded, Exec.run_guarded, Exec.run_bind, Exec.run_get]
  dsimp only
  rw [show ({ s with guards := s.guards.acquire .votes .read } : VoteManager).roundVotes height round
    = s.roundVotes height round from rfl]
  cases hround : s.roundVotes height round with
  | none =>
      have hnone : s.votesAt height round blockHash voteType = [] := by
        rw [votesAt, hround]
      rw [hnone, hempty]
      rfl
  | some rv =>
      rw [votesAt_eq s height round blockHash voteType hround]
      dsimp only
      cases hlookup : (rv.voteMap voteType).lookup blockHash with
      | none =>
          rw [Option.getD_none, hempty]
          rfl
      | some votes =>
          rw [Option.getD_some]
          have hsum := sumPower_fst 0 votes { s with guards := s.guards.acquire .votes .read }
          have hzero : UInt64.toNat 0 = 0 := rfl
          rw [hzero, Nat.zero_add] at hsum
          exact hsum

/-- **The outcome of the quorum check.** -/
theorem checkQuorum_fst (height : BlockHeight) (round : UInt64) (blockHash : Hash)
    (voteType : VoteType) (s : VoteManager) :
    (checkQuorum height round blockHash voteType s).1 =
      if powerOf s.validatorManager (s.votesAt height round blockHash voteType) < 2 ^ 64 then
        .ok (decide (threshold s.validatorManager
          ≤ powerOf s.validatorManager (s.votesAt height round blockHash voteType)))
      else .panic := by
  unfold checkQuorum
  rw [VoteManager.guarded, Exec.run_guarded, Exec.run_bind, Exec.run_get]
  dsimp only
  set s₁ : VoteManager := { s with guards := s.guards.acquire .votes .read }
  rw [show s₁.roundVotes height round = s.roundVotes height round from rfl]
  cases hround : s.roundVotes height round with
  | none =>
      have hnone : s.votesAt height round blockHash voteType = [] := by
        rw [votesAt, hround]
      rw [hnone]
      rfl
  | some rv =>
      dsimp only
      have hpower := getVotingPowerForVotes_fst height round blockHash voteType s₁
      have hquiet := Quiet.getVotingPowerForVotes height round blockHash voteType s₁
      change _ = if powerOf s.validatorManager (s.votesAt height round blockHash voteType) < 2 ^ 64
        then Outcome.ok (UInt64.ofNat
          (powerOf s.validatorManager (s.votesAt height round blockHash voteType)))
        else .panic at hpower
      rw [Exec.run_bind]
      rcases hrun : getVotingPowerForVotes height round blockHash voteType s₁ with ⟨o, s₂⟩
      rw [hrun] at hpower hquiet
      change o = _ at hpower
      split_ifs at hpower ⊢ with hfits
      · subst hpower
        have hcount : s₂.validatorManager.currentSet = s.validatorManager.currentSet := by
          rw [hquiet.validators]
          rfl
        have hword : (UInt64.ofNat (powerOf s.validatorManager
            (s.votesAt height round blockHash voteType))).toNat
              = powerOf s.validatorManager (s.votesAt height round blockHash voteType) :=
          UInt64.toNat_ofNat_of_lt' hfits
        show Outcome.ok (decide (s₂.validatorManager.currentSet.activeCount * 2 / 3 + 1 ≤ _)) = _
        rw [hcount, hword]
        rfl
      · subst hpower
        rfl

/-! ## Locks -/

/-- At most the votes are asked for, to read them. -/
def Asks (s s' : VoteManager) : Prop :=
  s'.guards = s.guards ∨ s'.guards = s.guards.touch .votes .read

instance : Std.Refl Asks := ⟨fun _ => Or.inl rfl⟩

instance : IsTrans VoteManager Asks where
  trans a b c hab hbc := by
    unfold Asks at *
    rcases hab with hab | hab
    · rw [hab] at hbc
      exact hbc
    · rw [hab, Guards.touch_touch, or_self] at hbc
      exact Or.inr hbc

theorem Asks.onValidators {α : Type} (m : Exec PacyteError ValidatorManager α) :
    Exec.Within Asks (onValidators m) := fun _ => Or.inl rfl

/-- A program that reads the votes may ask for them again. -/
theorem guards_guarded_votes {α : Type} {body : Exec PacyteError VoteManager α}
    (h : Exec.Within Asks body) (s : VoteManager) :
    (guarded .votes .read body s).2.guards = s.guards.touch .votes .read := by
  have htwice : (s.guards.acquire .votes .read).touch .votes .read
      = s.guards.acquire .votes .read := by
    simp [Guards.touch, Guards.acquire, Guards.blocks, Mode.conflicts]
  have hbody := h { s with guards := s.guards.acquire .votes .read }
  have hguards : (body { s with guards := s.guards.acquire .votes .read }).2.guards
      = s.guards.acquire .votes .read := by
    rcases hbody with hsame | htouch
    · exact hsame
    · exact htouch.trans htwice
  exact congrArg (fun g : Guards VoteLock => (⟨s.guards.held, g.clash⟩ : Guards VoteLock)) hguards

theorem Asks.guarded {α : Type} {body : Exec PacyteError VoteManager α}
    (h : Exec.Within Asks body) : Exec.Within Asks (guarded .votes .read body) :=
  fun s => Or.inr (guards_guarded_votes h s)

theorem Asks.sumPower (acc : UInt64) (votes : List Vote) :
    Exec.Within Asks (sumPower acc votes) := by
  induction votes generalizing acc with
  | nil => exact Exec.Within.pure acc
  | cons vote rest ih =>
      refine Exec.Within.bind (Asks.onValidators _) ?_
      intro found
      cases found with
      | none => exact ih acc
      | some validator => exact Exec.Within.bind (Exec.Within.addU64 _ _) fun acc => ih acc

theorem Asks.getVotingPowerForVotes (height : BlockHeight) (round : UInt64) (blockHash : Hash)
    (voteType : VoteType) :
    Exec.Within Asks (getVotingPowerForVotes height round blockHash voteType) := by
  apply Asks.guarded
  refine Exec.Within.bind Exec.Within.get ?_
  intro s
  split
  · exact Exec.Within.pure 0
  · split
    · exact Exec.Within.pure 0
    · exact Asks.sumPower 0 _

/-- The check of a quorum asks for the votes only. -/
theorem guards_checkQuorum (height : BlockHeight) (round : UInt64) (blockHash : Hash)
    (voteType : VoteType) (s : VoteManager) :
    (checkQuorum height round blockHash voteType s).2.guards = s.guards.touch .votes .read := by
  apply guards_guarded_votes
  refine Exec.Within.bind Exec.Within.get ?_
  intro s
  split
  · exact Exec.Within.pure false
  · refine Exec.Within.bind (Asks.getVotingPowerForVotes _ _ _ _) fun _ => ?_
    exact Exec.Within.bind (Asks.onValidators _) fun _ => Exec.Within.pure _

theorem guards_detectDoubleVoting (vote : Vote) (s : VoteManager) :
    (detectDoubleVoting vote s).2.guards = s.guards.touch .votes .read := by
  apply guards_guarded_votes
  refine Exec.Within.bind Exec.Within.get ?_
  intro s
  split
  · exact Exec.Within.pure false
  · exact Exec.Within.pure _

/-- Validating a vote asks for no lock of the vote manager. -/
theorem guards_validateVote [Primitives] [Verifiers] (vote : Vote) :
    Exec.Within (fun s s' : VoteManager => s'.guards = s.guards) (validateVote vote) := by
  have hrefl : Std.Refl fun s s' : VoteManager => s'.guards = s.guards := ⟨fun _ => rfl⟩
  have htrans : IsTrans VoteManager fun s s' => s'.guards = s.guards :=
    ⟨fun _ _ _ hab hbc => hbc.trans hab⟩
  refine Exec.Within.bind (fun _ => rfl) ?_
  intro found
  cases found with
  | none => exact Exec.Within.throw _
  | some validator =>
      refine Exec.Within.ite (Exec.Within.throw _) (Exec.Within.ite (Exec.Within.throw _) ?_)
      refine Exec.Within.bind (fun _ => rfl) fun now => ?_
      refine Exec.Within.bind (Exec.Within.addU64 _ _) fun latest => ?_
      refine Exec.Within.ite (Exec.Within.throw _) ?_
      refine Exec.Within.bind (Exec.Within.subU64 _ _) fun earliest => ?_
      exact Exec.Within.ite (Exec.Within.throw _) (Exec.Within.pure ())

/-! ## Storing a vote -/

/-- The votes for the block of a vote, in the round of the vote. -/
def rivals (s : VoteManager) (vote : Vote) : List Vote :=
  (s.currentRound vote).votesFor vote.voteType vote.blockHash

/-- The voter has a vote for the block in the store. -/
def isDuplicate (s : VoteManager) (vote : Vote) : Bool :=
  (s.rivals vote).any fun v => v.voter = vote.voter

/-- The store with the vote. -/
def stored (s : VoteManager) (vote : Vote) : VoteManager :=
  putVotes vote (if s.isDuplicate vote then s.rivals vote else s.rivals vote ++ [vote]) s

/-- The voter has a vote for another block in the store, in the same round and of the same
type. -/
def isDouble (s : VoteManager) (vote : Vote) : Bool :=
  match s.roundVotes vote.height vote.round with
  | none => false
  | some rv => (rv.voteMap vote.voteType).toPairs.any fun e =>
      decide (e.1 ≠ vote.blockHash) && e.2.any fun v => v.voter = vote.voter

theorem detectDoubleVoting_fst (vote : Vote) (s : VoteManager) :
    (detectDoubleVoting vote s).1 = .ok (s.isDouble vote) := by
  unfold detectDoubleVoting isDouble
  rw [VoteManager.guarded, Exec.run_guarded, Exec.run_bind, Exec.run_get]
  dsimp only
  change ((match s.roundVotes vote.height vote.round with
    | none => _
    | some rv => _ : Exec PacyteError VoteManager Bool) _).1 = _
  cases s.roundVotes vote.height vote.round with
  | none => rfl
  | some rv => rfl

/-- **Storing a vote**: the store, the answer and the locks. -/
theorem storeVote_run (vote : Vote) (s : VoteManager) :
    Quiet (s.stored vote) (storeVote vote s).2 ∧
      (storeVote vote s).1 = (if s.isDuplicate vote then .ok false
        else (checkQuorum vote.height vote.round vote.blockHash vote.voteType (s.stored vote)).1) ∧
      (storeVote vote s).2.guards = (if s.isDuplicate vote then s.guards.touch .votes .write
        else ⟨s.guards.held, true⟩) := by
  set s₁ : VoteManager := { s with guards := s.guards.acquire .votes .write }
  cases hdup : s.isDuplicate vote with
  | true =>
      have hrun : storeVote vote s = (.ok false,
          { s.stored vote with guards := s.guards.touch .votes .write }) := by
        have hany : ((s₁.currentRound vote).votesFor vote.voteType vote.blockHash).any
            (fun v => decide (v.voter = vote.voter)) = true := hdup
        unfold storeVote
        rw [VoteManager.guarded, Exec.run_guarded, Exec.run_bind, Exec.run_get]
        dsimp only
        rw [if_pos hany, stored, hdup]
        rfl
      rw [hrun]
      exact ⟨⟨rfl, rfl, rfl, id⟩, rfl, rfl⟩
  | false =>
      set s₂ : VoteManager := { s.stored vote with guards := s.guards.acquire .votes .write }
      have hrun : storeVote vote s =
          ((checkQuorum vote.height vote.round vote.blockHash vote.voteType s₂).1,
            { (checkQuorum vote.height vote.round vote.blockHash vote.voteType s₂).2 with
              guards := ⟨s.guards.held,
                (checkQuorum vote.height vote.round vote.blockHash vote.voteType s₂).2.guards.clash⟩ }) := by
        have hany : ¬ ((s₁.currentRound vote).votesFor vote.voteType vote.blockHash).any
            (fun v => decide (v.voter = vote.voter)) = true := by
          rw [show ((s₁.currentRound vote).votesFor vote.voteType vote.blockHash).any
            (fun v => decide (v.voter = vote.voter)) = false from hdup]
          exact Bool.false_ne_true
        have hput : putVotes vote ((s₁.currentRound vote).votesFor vote.voteType vote.blockHash
            ++ [vote]) s₁ = s₂ := by
          have hstored : s.stored vote = putVotes vote (s.rivals vote ++ [vote]) s := by
            rw [stored, hdup]
            rfl
          simp only [s₂, hstored]
          rfl
        unfold storeVote
        rw [VoteManager.guarded, Exec.run_guarded, Exec.run_bind, Exec.run_get]
        dsimp only
        rw [if_neg hany, Exec.run_bind, Exec.run_modify]
        dsimp only
        rw [hput]
      have hquiet := Quiet.checkQuorum vote.height vote.round vote.blockHash vote.voteType s₂
      have hguards := guards_checkQuorum vote.height vote.round vote.blockHash vote.voteType s₂
      rw [hrun]
      refine ⟨⟨hquiet.votes, hquiet.seenVotes, hquiet.validators, hquiet.free⟩, ?_, ?_⟩
      · simp only [Bool.false_eq_true, if_false]
        rw [checkQuorum_fst, checkQuorum_fst]
        rfl
      · simp only [Bool.false_eq_true, if_false]
        rw [hguards]
        show (⟨s.guards.held, (s.guards.acquire .votes .write).clash ||
          (s.guards.acquire .votes .write).blocks .votes .read⟩ : Guards VoteLock) = _
        simp [Guards.blocks_acquire_self, Mode.conflicts]

theorem Quiet.isDouble {s s' : VoteManager} (h : Quiet s s') (vote : Vote) :
    s'.isDouble vote = s.isDouble vote := by
  unfold VoteManager.isDouble roundVotes
  rw [h.votes]

theorem Quiet.isDuplicate {s s' : VoteManager} (h : Quiet s s') (vote : Vote) :
    s'.isDuplicate vote = s.isDuplicate vote := by
  unfold VoteManager.isDuplicate rivals currentRound
  rw [h.votes]

theorem Quiet.stored {s s' : VoteManager} (h : Quiet s s') (vote : Vote) :
    Quiet (s.stored vote) (s'.stored vote) := by
  refine ⟨?_, h.seenVotes, h.validators, h.free⟩
  unfold VoteManager.stored putVotes
  rw [h.isDuplicate]
  unfold rivals currentRound
  rw [h.votes]

theorem Quiet.powerOf {s s' : VoteManager} (h : Quiet s s') (votes : List Vote) :
    powerOf s'.validatorManager votes = powerOf s.validatorManager votes := by
  rw [h.validators]
  rfl

theorem Quiet.threshold {s s' : VoteManager} (h : Quiet s s') :
    threshold s'.validatorManager = threshold s.validatorManager := by
  rw [h.validators]
  rfl

theorem Quiet.votesAt {s s' : VoteManager} (h : Quiet s s') (height : BlockHeight) (round : UInt64)
    (blockHash : Hash) (voteType : VoteType) :
    s'.votesAt height round blockHash voteType = s.votesAt height round blockHash voteType := by
  unfold VoteManager.votesAt roundVotes
  rw [h.votes]

/-- The check of a quorum looks at votes and validators only. -/
theorem Quiet.checkQuorum_fst {s s' : VoteManager} (h : Quiet s s') (height : BlockHeight)
    (round : UInt64) (blockHash : Hash) (voteType : VoteType) :
    (VoteManager.checkQuorum height round blockHash voteType s').1
      = (VoteManager.checkQuorum height round blockHash voteType s).1 := by
  rw [VoteManager.checkQuorum_fst, VoteManager.checkQuorum_fst, h.powerOf, h.threshold, h.votesAt]

/-! ## Adding a vote -/

/-- The key of the vote is added to the keys that were seen. -/
def recorded (s : VoteManager) (vote : Vote) : VoteManager :=
  { s with seenVotes := insert vote.key s.seenVotes }

theorem Quiet.recorded {s s' : VoteManager} (h : Quiet s s') (vote : Vote) :
    Quiet (s.recorded vote) (s'.recorded vote) := by
  refine ⟨h.votes, ?_, h.validators, h.free⟩
  show insert vote.key s'.seenVotes = insert vote.key s.seenVotes
  rw [h.seenVotes]

section AddVote

variable [Primitives] [Verifiers]

/-- `validate_vote` accepts the vote. -/
def Valid (s : VoteManager) (vote : Vote) : Prop := (validateVote vote s).1 = .ok ()

instance (s : VoteManager) (vote : Vote) : Decidable (s.Valid vote) :=
  inferInstanceAs (Decidable ((validateVote vote s).1 = .ok ()))

/-- A vote that is not valid changes nothing and is not answered with a value. -/
theorem addVote_invalid {s : VoteManager} {vote : Vote} (h : ¬ s.Valid vote) :
    Quiet s (addVote vote s).2 ∧ (addVote vote s).2.guards = s.guards ∧
      (∀ r, (addVote vote s).1 ≠ .ok r) ∧
      ∀ e, (addVote vote s).1 = .err e → (validateVote vote s).1 = .err e := by
  have hquiet := Quiet.validateVote vote s
  have hguards := guards_validateVote vote s
  unfold Valid at h
  unfold addVote
  rcases hrun : validateVote vote s with ⟨_ | e | _, s'⟩
  · rw [hrun] at h
    exact absurd rfl h
  · rw [hrun] at hquiet hguards
    rw [Exec.run_bind_of_err hrun]
    refine ⟨hquiet, hguards, fun r heq => (nomatch heq), ?_⟩
    intro e' heq
    cases heq
    rfl
  · rw [hrun] at hquiet hguards
    rw [Exec.run_bind_of_panic hrun]
    exact ⟨hquiet, hguards, fun r heq => (nomatch heq), fun e heq => (nomatch heq)⟩

/-- A vote with a known key is ignored. -/
theorem addVote_seen {s : VoteManager} {vote : Vote} (h : s.Valid vote)
    (hseen : vote.key ∈ s.seenVotes) :
    Quiet s (addVote vote s).2 ∧ (addVote vote s).2.guards = s.guards.touch .seenVotes .write ∧
      (addVote vote s).1 = .ok .alreadySeen := by
  have hquiet := Quiet.validateVote vote s
  have hguards := guards_validateVote vote s
  obtain ⟨s', hrun⟩ : ∃ s', validateVote vote s = (.ok (), s') := ⟨_, Prod.ext h rfl⟩
  rw [hrun] at hquiet hguards
  change s'.guards = s.guards at hguards
  have hkey : recordKey vote s' = (.ok false,
      { s' with guards := s'.guards.touch .seenVotes .write }) := by
    have hmem : vote.key ∈ s'.seenVotes := by
      rw [hquiet.seenVotes]
      exact hseen
    unfold recordKey
    rw [VoteManager.guarded, Exec.run_guarded, Exec.run_bind, Exec.run_get]
    dsimp only
    rw [if_pos hmem]
    rfl
  unfold addVote
  rw [Exec.run_bind_of_ok hrun, Exec.run_bind_of_ok hkey]
  refine ⟨⟨hquiet.votes, hquiet.seenVotes, hquiet.validators, hquiet.free⟩, ?_, rfl⟩
  show s'.guards.touch .seenVotes .write = _
  rw [hguards]

/-- The state after a new vote was stored and checked for a double vote. -/
theorem addVote_fresh {s : VoteManager} {vote : Vote} (h : s.Valid vote)
    (hfresh : vote.key ∉ s.seenVotes) :
    ∃ t, Quiet ((s.recorded vote).stored vote) t ∧
      t.guards = (if s.isDuplicate vote then
        ((s.guards.touch .seenVotes .write).touch .votes .write).touch .votes .read
        else ⟨s.guards.held, true⟩) ∧
      addVote vote s = match (if s.isDuplicate vote then .ok false
          else (checkQuorum vote.height vote.round vote.blockHash vote.voteType
            ((s.recorded vote).stored vote)).1) with
        | .ok quorumReached =>
          if ((s.recorded vote).stored vote).isDouble vote then
            (Exec.attempt (onValidators (ValidatorManager.slashDoubleSign vote.voter)) >>=
              fun _ => Exec.throw (.doubleVoting vote.voter)) t
          else (.ok (.added quorumReached), t)
        | .err e => (.err e, t)
        | .panic => (.panic, t) := by
  have hquiet := Quiet.validateVote vote s
  have hguards := guards_validateVote vote s
  obtain ⟨s', hrun⟩ : ∃ s', validateVote vote s = (.ok (), s') := ⟨_, Prod.ext h rfl⟩
  rw [hrun] at hquiet hguards
  change s'.guards = s.guards at hguards
  set s₁ : VoteManager := { s'.recorded vote with guards := s'.guards.touch .seenVotes .write }
  have hkey : recordKey vote s' = (.ok true, s₁) := by
    have hmem : vote.key ∉ s'.seenVotes := by
      rw [hquiet.seenVotes]
      exact hfresh
    unfold recordKey
    rw [VoteManager.guarded, Exec.run_guarded, Exec.run_bind, Exec.run_get]
    dsimp only
    rw [if_neg hmem]
    rfl
  have hrecorded : Quiet (s.recorded vote) s₁ := by
    have hq := hquiet.recorded vote
    exact ⟨hq.votes, hq.seenVotes, hq.validators, hq.free⟩
  have hdup : s₁.isDuplicate vote = s.isDuplicate vote := hrecorded.isDuplicate vote
  obtain ⟨hstate, hfst, hlocks⟩ := storeVote_run vote s₁
  have hstored := trans_of Quiet (hrecorded.stored vote) hstate
  rw [hdup, (hrecorded.stored vote).checkQuorum_fst] at hfst
  rw [hdup] at hlocks
  have hheld : s₁.guards = s.guards.touch .seenVotes .write := by
    show s'.guards.touch .seenVotes .write = _
    rw [hguards]
  rw [hheld] at hlocks
  have hunfold : addVote vote s = (storeVote vote >>= fun quorumReached =>
      detectDoubleVoting vote >>= fun double =>
        if double then
          Exec.attempt (onValidators (ValidatorManager.slashDoubleSign vote.voter)) >>=
            fun _ => Exec.throw (.doubleVoting vote.voter)
        else pure (.added quorumReached)) s₁ := by
    unfold addVote
    rw [Exec.run_bind_of_ok hrun, Exec.run_bind_of_ok hkey]
    rfl
  rw [hunfold]
  rcases hstore : storeVote vote s₁ with ⟨q | e | _, s₂⟩
  · rw [hstore] at hstored hfst hlocks
    rw [Exec.run_bind_of_ok hstore, ← hfst]
    have hdetect := detectDoubleVoting_fst vote s₂
    have hsame := Quiet.detectDoubleVoting vote s₂
    have hasks := guards_detectDoubleVoting vote s₂
    rw [hstored.isDouble] at hdetect
    refine ⟨(detectDoubleVoting vote s₂).2, trans_of Quiet hstored hsame, ?_, ?_⟩
    · rw [hasks, show s₂.guards = _ from hlocks]
      split_ifs
      · rfl
      · simp [Guards.touch]
    · rw [Exec.run_bind_of_ok (Prod.ext hdetect rfl : detectDoubleVoting vote s₂
        = (.ok (((s.recorded vote).stored vote).isDouble vote), (detectDoubleVoting vote s₂).2))]
      dsimp only
      split_ifs
      · rfl
      · rfl
  · rw [hstore] at hstored hfst hlocks
    rw [Exec.run_bind_of_err hstore, ← hfst]
    refine ⟨s₂, hstored, ?_, rfl⟩
    rw [show s₂.guards = _ from hlocks]
    -- the store answers a duplicate with a value
    split_ifs at hfst ⊢
    rfl
  · rw [hstore] at hstored hfst hlocks
    rw [Exec.run_bind_of_panic hstore, ← hfst]
    refine ⟨s₂, hstored, ?_, rfl⟩
    rw [show s₂.guards = _ from hlocks]
    -- the store answers a duplicate with a value
    split_ifs at hfst ⊢
    rfl

end AddVote

end VoteManager
