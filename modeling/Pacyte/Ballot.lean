/-
# What the engine does with votes

The part of the engine that votes and commits depend on (`Ballot`), and the
moves a command can make on it (`Ballot.Step`): record a vote, cast the own
prevote for a proposal it accepts, cast the own precommit when the prevotes are
a quorum, commit the current proposal when the precommits are a quorum, start a
round.

`Engine.dispatch_step` says that every command of the engine, whatever storage,
network, mempool and clock do, is such a step.  The properties of votes and
commits are proved from the steps.
-/
import Pacyte.Frame

/-- The fields of the engine that votes and commits depend on. -/
@[ext] structure Ballot where
  validatorSet : ValidatorSet
  me : Option UInt64
  height : BlockHeight
  round : UInt64
  prevotes : VoteBook
  precommits : VoteBook
  proposal : Option Proposal
  votes : List ConsensusVote
  commits : List Commit

/-- The votes among the messages that were sent. -/
def votesAmong (messages : List NetworkMessage) : List ConsensusVote :=
  messages.filterMap fun
    | .vote data => some data
    | .proposal _ => none

/-- The ballot of an engine. -/
def Engine.ballot {σ μ ν : Type} (e : Engine σ μ ν) : Ballot where
  validatorSet := e.validatorSet
  me := e.myValidatorId
  height := e.height
  round := e.round
  prevotes := e.prevotes
  precommits := e.precommits
  proposal := e.currentProposal
  votes := votesAmong e.sent
  commits := e.commits

namespace Ballot

/-! ## Moves -/

/-- `add_vote`. -/
def record (v : Vote) (b : Ballot) : Ballot :=
  match v.voteType with
  | .prevote => { b with prevotes := b.prevotes.add v }
  | .precommit => { b with precommits := b.precommits.add v }

/-- The own vote, recorded and broadcast. -/
def cast (v : Vote) (b : Ballot) : Ballot :=
  { b.record v with votes := b.votes ++ [v.wire] }

section Fields

variable (v : Vote) (b : Ballot)

@[simp] theorem validatorSet_record : (b.record v).validatorSet = b.validatorSet := by
  unfold record
  cases v.voteType <;> rfl

@[simp] theorem me_record : (b.record v).me = b.me := by
  unfold record
  cases v.voteType <;> rfl

@[simp] theorem height_record : (b.record v).height = b.height := by
  unfold record
  cases v.voteType <;> rfl

@[simp] theorem round_record : (b.record v).round = b.round := by
  unfold record
  cases v.voteType <;> rfl

@[simp] theorem proposal_record : (b.record v).proposal = b.proposal := by
  unfold record
  cases v.voteType <;> rfl

@[simp] theorem votes_record : (b.record v).votes = b.votes := by
  unfold record
  cases v.voteType <;> rfl

@[simp] theorem commits_record : (b.record v).commits = b.commits := by
  unfold record
  cases v.voteType <;> rfl

@[simp] theorem validatorSet_cast : (b.cast v).validatorSet = b.validatorSet :=
  validatorSet_record v b

@[simp] theorem me_cast : (b.cast v).me = b.me := me_record v b

@[simp] theorem height_cast : (b.cast v).height = b.height := height_record v b

@[simp] theorem round_cast : (b.cast v).round = b.round := round_record v b

@[simp] theorem proposal_cast : (b.cast v).proposal = b.proposal := proposal_record v b

@[simp] theorem votes_cast : (b.cast v).votes = b.votes ++ [v.wire] := rfl

@[simp] theorem commits_cast : (b.cast v).commits = b.commits := commits_record v b

@[simp] theorem prevotes_cast : (b.cast v).prevotes = (b.record v).prevotes := rfl

@[simp] theorem precommits_cast : (b.cast v).precommits = (b.record v).precommits := rfl

end Fields

/-- The vote is the node's own, of the given kind and for the given hash, at the
present height and round. -/
structure Own (b : Ballot) (voteType : VoteType) (x : Hash) (v : Vote) : Prop where
  voter : b.me = some v.voter
  height : v.height = b.height
  round : v.round = b.round
  blockHash : v.blockHash = x
  voteType : v.voteType = voteType

/-- The prevotes recorded for `x` at the present height are a quorum. -/
def PrevoteQuorum (b : Ballot) (x : Hash) : Prop :=
  b.validatorSet.quorum ≤ (b.prevotes.votes b.height x).length

/-- The precommits recorded for `x` at the present height are a quorum. -/
def PrecommitQuorum (b : Ballot) (x : Hash) : Prop :=
  b.validatorSet.quorum ≤ (b.precommits.votes b.height x).length

/-- The block of `p` is saved for a certificate on `x`. -/
def commit (x : Hash) (p : Proposal) (b : Ballot) : Ballot :=
  { b with commits := b.commits ++ [⟨⟨b.height, b.round, x⟩, p.block⟩] }

/-- What `check_precommit_quorum` for `x` can do. -/
inductive Commits (x : Hash) (b : Ballot) : Ballot → Prop
  | stays : Commits x b b
  | saved {p : Proposal} : PrecommitQuorum b x → b.proposal = some p → Commits x b (b.commit x p)
  | advanced {p : Proposal} {next : BlockHeight} {q : Option Proposal} :
      PrecommitQuorum b x → b.proposal = some p → next.toNat = b.height.toNat + 1 →
      Commits x b { b.commit x p with height := next, round := 0, proposal := q }

/-- What `check_prevote_quorum` for `x` can do. -/
inductive Precommits (x : Hash) (b : Ballot) : Ballot → Prop
  | stays : Precommits x b b
  | cast {v : Vote} {b' : Ballot} :
      PrevoteQuorum b x → Own b .precommit x v → Commits x (b.cast v) b' → Precommits x b b'

/-- A ballot on which nothing has happened yet. -/
structure Fresh (b : Ballot) : Prop where
  prevotes : b.prevotes = ∅
  precommits : b.precommits = ∅
  votes : b.votes = []
  commits : b.commits = []

variable [Primitives]

/-- What one command can do; `Accepts` tells which proposals pass the checks of
`handle_proposal`. -/
inductive Step (Accepts : Proposal → Prop) (b : Ballot) : ConsensusCommand → Ballot → Prop
  | idle {command : ConsensusCommand} : Step Accepts b command b
  | propose {height : BlockHeight} {round : UInt64} {q : Option Proposal} :
      Step Accepts b (.propose height round) { b with round := round, proposal := q }
  | timeout {next : UInt64} {q : Option Proposal} :
      next.toNat = b.round.toNat + 1 →
      Step Accepts b (.timeout b.height b.round) { b with round := next, proposal := q }
  | accepted {p : Proposal} :
      Accepts p → Step Accepts b (.proposalReceived p) { b with proposal := some p }
  | prevoted {p : Proposal} {v : Vote} {b' : Ballot} :
      Accepts p → Own b .prevote p.hash v →
      Precommits p.hash (cast v { b with proposal := some p }) b' →
      Step Accepts b (.proposalReceived p) b'
  | prevoteReceived {v : Vote} {b' : Ballot} :
      v.height = b.height → v.round = b.round → v.voteType = .prevote →
      Precommits v.blockHash (b.record v) b' → Step Accepts b (.voteReceived v) b'
  | precommitReceived {v : Vote} {b' : Ballot} :
      v.height = b.height → v.round = b.round → v.voteType = .precommit →
      Commits v.blockHash (b.record v) b' → Step Accepts b (.voteReceived v) b'

end Ballot

/-! ## Operations outside the ballot -/

namespace Engine

open Exec

variable {σ μ ν : Type} {α : Type}

/-- The ballot is the same. -/
def Aside (e e' : Engine σ μ ν) : Prop := e'.ballot = e.ballot

instance : Std.Refl (Aside (σ := σ) (μ := μ) (ν := ν)) := ⟨fun _ => rfl⟩

instance : IsTrans (Engine σ μ ν) Aside := ⟨fun _ _ _ h h' => h'.trans h⟩

theorem onState_aside (m : Exec PacyteError (StateManager σ) α) :
    Within Aside (onState m : Exec PacyteError (Engine σ μ ν) α) :=
  fun _ => rfl

theorem onStorage_aside (m : Exec PacyteError σ α) :
    Within Aside (onStorage m : Exec PacyteError (Engine σ μ ν) α) := onState_aside _

theorem onMempool_aside (m : Exec Empty (μ × StateManager σ) α) :
    Within Aside (onMempool m : Exec PacyteError (Engine σ μ ν) α) :=
  fun _ => rfl

variable [Primitives] [Storage σ] [Mempool μ σ] [Network ν]

omit [Primitives] [Network ν] in
/-- A proposal that is sent is not a vote. -/
theorem inert_aside : Inert (Aside (σ := σ) (μ := μ) (ν := ν)) where
  clock _ _ := rfl
  latestBlock := onStorage_aside _
  selectForBlock _ _ := onMempool_aside _
  event _ _ := rfl
  sent e p := by simp [Aside, ballot, votesAmong]
  network _ _ := rfl
  commands _ _ := rfl

/-! ## Rounds and commits -/

/-- The ballot is the same up to the current proposal. -/
def Reproposes (e e' : Engine σ μ ν) : Prop :=
  ∃ q, e'.ballot = { e.ballot with proposal := q }

instance : Std.Refl (Reproposes (σ := σ) (μ := μ) (ν := ν)) := ⟨fun e => ⟨e.ballot.proposal, rfl⟩⟩

instance : IsTrans (Engine σ μ ν) Reproposes := by
  refine ⟨?_⟩
  rintro e₁ e₂ e₃ ⟨q, h⟩ ⟨q', h'⟩
  exact ⟨q', by rw [h', h]⟩

omit [Primitives] [Storage σ] [Mempool μ σ] [Network ν] in
theorem within_reproposes {m : Exec PacyteError (Engine σ μ ν) α} (h : Within Aside m) :
    Within Reproposes m := fun e => ⟨e.ballot.proposal, h e⟩

/-- `start_new_round` sets the round and perhaps the current proposal. -/
theorem startNewRound_ballot (height : BlockHeight) (round : UInt64) (e : Engine σ μ ν) :
    Post (startNewRound height round) e fun _ e' =>
      ∃ q, e'.ballot = { e.ballot with round := round, proposal := q } := by
  unfold startNewRound
  rw [post_bind, post_modify]
  have hrest : Within Reproposes (do
      let now ← onClock currentTimestamp
      Exec.modify fun e => { e with roundStartTime := some now, state := .proposing }
      emit (.newRound height round)
      if ← amIProposer height round then
        let block ← createBlock height
        let proposal ← createProposal height round block
        broadcastProposal proposal
        Exec.modify fun e => { e with currentProposal := some proposal, state := .prevoting }
        emit (.proposalSent height round)
      else
        Exec.modify fun e => { e with state := .waitingForBlock } :
      Exec PacyteError (Engine σ μ ν) Unit) := by
    refine Within.bind (within_reproposes (inert_aside.onClock _)) fun now => ?_
    refine Within.bind (within_reproposes (Within.modify fun _ => rfl)) fun _ => ?_
    refine Within.bind (within_reproposes (inert_aside.emit _)) fun _ => ?_
    refine Within.bind (Inert.amIProposer _ _) fun mine => ?_
    refine Within.ite ?_ (within_reproposes (Within.modify fun _ => rfl))
    refine Within.bind (within_reproposes (inert_aside.createBlock _)) fun block => ?_
    refine Within.bind (within_reproposes (inert_aside.createProposal _ _ _)) fun proposal => ?_
    refine Within.bind (within_reproposes (inert_aside.broadcastProposal _)) fun _ => ?_
    exact Within.bind (Within.modify fun _ => ⟨some proposal, rfl⟩) fun _ =>
      within_reproposes (inert_aside.emit _)
  exact hrest _

/-- `commit_block` at the present height fails without a trace in the ballot,
saves the current proposal's block and panics, or saves it and goes on to the
next height. -/
theorem commitBlock_ballot (x : Hash) (e : Engine σ μ ν) (hq : e.ballot.PrecommitQuorum x) :
    Post (commitBlock e.height ⟨e.height, e.round, x⟩) e fun _ e' =>
      Ballot.Commits x e.ballot e'.ballot := by
  unfold commitBlock
  rw [post_bind, post_get]
  dsimp only
  cases hp : e.currentProposal with
  | none => exact Ballot.Commits.stays
  | some p =>
      have hstays : ∀ e' : Engine σ μ ν, Aside e e' → Ballot.Commits x e.ballot e'.ballot := by
        intro e' h
        rw [show e'.ballot = e.ballot from h]
        exact Ballot.Commits.stays
      refine ((onState_aside _).post e).seq ?_ (fun _ e' => hstays e') hstays
      intro _ e₁ h₁
      refine ((onStorage_aside _).post e₁).seq ?_ (fun _ e' h => hstays e' (h.trans h₁))
        (fun e' h => hstays e' (h.trans h₁))
      intro _ e₂ h₂
      have h₂ : Aside e e₂ := h₂.trans h₁
      rw [post_bind, post_modify]
      -- from here on the block is saved
      set e₃ : Engine σ μ ν :=
        { e₂ with commits := e₂.commits ++ [⟨⟨e.height, e.round, x⟩, p.block⟩] } with he₃
      have h₃ : e₃.ballot = e.ballot.commit x p := by
        have hb : e₃.ballot
            = { e₂.ballot with commits := e₂.ballot.commits ++ [⟨⟨e.height, e.round, x⟩, p.block⟩] } :=
          rfl
        rw [hb, show e₂.ballot = e.ballot from h₂]
        rfl
      have hsaved : ∀ e' : Engine σ μ ν, Aside e₃ e' → Ballot.Commits x e.ballot e'.ballot := by
        intro e' h
        rw [show e'.ballot = e₃.ballot from h, h₃]
        exact Ballot.Commits.saved hq hp
      refine ((onMempool_aside _).post e₃).seq ?_ (fun _ e' => hsaved e') hsaved
      intro _ e₄ h₄
      simp only [post_bind, post_modify, emit, post_addU64]
      refine ⟨fun hfit => ?_, fun _ => hsaved _ h₄⟩
      refine Post.mono (startNewRound_ballot _ 0 _) ?_
      rintro o e' ⟨q, hq'⟩
      have hb : e'.ballot
          = { e₄.ballot with height := e.height + 1, round := 0, proposal := q } := hq'
      rw [hb, show e₄.ballot = e₃.ballot from h₄, h₃]
      exact Ballot.Commits.advanced hq hp (toNat_add_of_fits hfit)

/-! ## Votes -/

theorem checkPrecommitQuorum_ballot (x : Hash) (e : Engine σ μ ν) :
    Post (checkPrecommitQuorum e.height e.round x) e fun _ e' =>
      Ballot.Commits x e.ballot e'.ballot := by
  unfold checkPrecommitQuorum
  rw [post_bind, post_get]
  dsimp only
  rw [post_ite]
  refine ⟨fun hq => ?_, fun _ => Ballot.Commits.stays⟩
  rw [post_bind, emit, post_modify]
  exact commitBlock_ballot x
    { e with events := e.events ++ [.quorumReached e.height e.round .precommit] } hq

omit [Storage σ] [Mempool μ σ] in
/-- The own vote is recorded and broadcast, unless the node has no id. -/
theorem castVote_ballot (x : Hash) (voteType : VoteType) (e : Engine σ μ ν) :
    Post (castVote x voteType) e fun o e' =>
      match o with
      | .ok r => r = (e.height, e.round) ∧
          ∃ v, Ballot.Own e.ballot voteType x v ∧ e'.ballot = e.ballot.cast v
      | .err _ => Aside e e' ∨
          ∃ v, Ballot.Own e.ballot voteType x v ∧ e'.ballot = e.ballot.cast v
      | .panic => Aside e e' ∨
          ∃ v, Ballot.Own e.ballot voteType x v ∧ e'.ballot = e.ballot.cast v := by
  unfold castVote requireId
  simp only [post_bind, post_get]
  cases hid : e.myValidatorId with
  | none => exact Or.inl rfl
  | some id =>
      rw [post_pure]
      refine Post.mono ((onState_aside (StateManager.onClock currentTimestamp)).post e).run ?_
      rintro (now | _ | _) e₁ ⟨-, h₁⟩
      · simp only [post_modify, broadcast, post_bind, post_onPart]
        set v := (Vote.new e.height e.round x id voteType now).signed e.signer with hv
        have hown : Ballot.Own e.ballot voteType x v := by
          rw [hv]
          cases e.signer <;> exact ⟨hid, rfl, rfl, rfl, rfl⟩
        have hcast : Ballot.cast v e₁.ballot = e.ballot.cast v :=
          congrArg (Ballot.cast v) h₁
        have hvote : ∀ n : ν, Engine.ballot
            { addVote v e₁ with
              sent := (addVote v e₁).sent ++ [.vote v.wire], network := n } = e.ballot.cast v := by
          intro n
          rw [← hcast]
          have htype := hown.voteType
          cases voteType <;>
            simp [addVote, htype, Engine.ballot, Ballot.cast, Ballot.record, votesAmong]
        refine Post.mono (Q := fun _ _ => True) trivial ?_
        rintro (_ | _ | _) n -
        · exact ⟨rfl, v, hown, hvote n⟩
        · exact Or.inr ⟨v, hown, hvote n⟩
        · exact Or.inr ⟨v, hown, hvote n⟩
      · exact Or.inl h₁
      · exact Or.inl h₁

theorem sendPrecommit_ballot (x : Hash) (e : Engine σ μ ν) (hq : e.ballot.PrevoteQuorum x) :
    Post (sendPrecommit x) e fun _ e' => Ballot.Precommits x e.ballot e'.ballot := by
  -- a vote that is cast without a check of the quorum is also a case of `cast`
  have hstop : ∀ e' : Engine σ μ ν, (Aside e e' ∨
      ∃ v, Ballot.Own e.ballot .precommit x v ∧ e'.ballot = e.ballot.cast v) →
      Ballot.Precommits x e.ballot e'.ballot := by
    rintro e' (h | ⟨v, hown, h⟩)
    · rw [show e'.ballot = e.ballot from h]
      exact Ballot.Precommits.stays
    · rw [h]
      exact Ballot.Precommits.cast hq hown Ballot.Commits.stays
  unfold sendPrecommit
  refine (castVote_ballot x .precommit e).seq ?_ (fun _ e' => hstop e') hstop
  rintro r e₁ ⟨rfl, v, hown, h₁⟩
  have hheight : e₁.height = e.height := (congrArg Ballot.height h₁).trans (by simp [ballot])
  have hround : e₁.round = e.round := (congrArg Ballot.round h₁).trans (by simp [ballot])
  dsimp only
  rw [← hheight, ← hround]
  refine Post.mono (checkPrecommitQuorum_ballot x e₁) ?_
  intro _ e' h
  rw [h₁] at h
  exact Ballot.Precommits.cast hq hown h

theorem checkPrevoteQuorum_ballot (x : Hash) (e : Engine σ μ ν) :
    Post (checkPrevoteQuorum e.height e.round x) e fun _ e' =>
      Ballot.Precommits x e.ballot e'.ballot := by
  unfold checkPrevoteQuorum
  rw [post_bind, post_get]
  dsimp only
  rw [post_ite]
  refine ⟨fun hq => ?_, fun _ => Ballot.Precommits.stays⟩
  rw [post_bind, emit, post_modify]
  exact sendPrecommit_ballot x
    { e with events := e.events ++ [.quorumReached e.height e.round .prevote] } hq

/-- `send_prevote` casts the prevote and goes on with the quorum, or stops at a
missing id. -/
theorem sendPrevote_ballot (x : Hash) (e : Engine σ μ ν) :
    Post (sendPrevote x) e fun _ e' => Aside e e' ∨
      ∃ v, Ballot.Own e.ballot .prevote x v ∧
        Ballot.Precommits x (e.ballot.cast v) e'.ballot := by
  have hstop : ∀ e' : Engine σ μ ν, (Aside e e' ∨
      ∃ v, Ballot.Own e.ballot .prevote x v ∧ e'.ballot = e.ballot.cast v) → Aside e e' ∨
      ∃ v, Ballot.Own e.ballot .prevote x v ∧
        Ballot.Precommits x (e.ballot.cast v) e'.ballot := by
    rintro e' (h | ⟨v, hown, h⟩)
    · exact Or.inl h
    · exact Or.inr ⟨v, hown, by rw [h]; exact Ballot.Precommits.stays⟩
  unfold sendPrevote
  refine (castVote_ballot x .prevote e).seq ?_ (fun _ e' => hstop e') hstop
  rintro r e₁ ⟨rfl, v, hown, h₁⟩
  have hheight : e₁.height = e.height := (congrArg Ballot.height h₁).trans (by simp [ballot])
  have hround : e₁.round = e.round := (congrArg Ballot.round h₁).trans (by simp [ballot])
  dsimp only
  rw [← hheight, ← hround]
  refine Post.mono (checkPrevoteQuorum_ballot x e₁) ?_
  intro _ e' h
  rw [h₁] at h
  exact Or.inr ⟨v, hown, h⟩

/-! ## Commands -/

/-- The proposal passes all the checks of `handle_proposal`. -/
structure Accepts (e : Engine σ μ ν) (p : Proposal) : Prop where
  height : p.height = e.height
  round : p.round = e.round
  proposer : (getProposer e.height e.round e).1 = .ok (some p.proposer)
  known : (e.validatorSet.getValidator p.proposer).isSome
  valid : (validateBlock p.block e).1 = .ok true

omit [Primitives] [Storage σ] [Mempool μ σ] [Network ν] in
/-- `get_proposer` only reads. -/
theorem getProposer_state (height : BlockHeight) (round : UInt64) (e : Engine σ μ ν) :
    (getProposer height round e).2 = e := by
  unfold getProposer ValidatorSet.getProposer Exec.addU64
  simp only [run_bind, run_get]
  split_ifs <;> rfl

theorem handleProposal_step (p : Proposal) (e : Engine σ μ ν) :
    Post (handleProposal p) e fun _ e' =>
      Ballot.Step (Accepts e) e.ballot (.proposalReceived p) e'.ballot := by
  have hidle : ∀ e' : Engine σ μ ν, Aside e e' →
      Ballot.Step (Accepts e) e.ballot (.proposalReceived p) e'.ballot := by
    intro e' h
    rw [show e'.ballot = e.ballot from h]
    exact Ballot.Step.idle
  unfold handleProposal
  rw [post_bind, post_get]
  dsimp only
  rw [post_ite]
  refine ⟨fun _ => hidle e rfl, fun hat => ?_⟩
  push Not at hat
  have hstate := getProposer_state e.height e.round e
  rw [post_bind, Post, hstate]
  rcases hprop : (getProposer e.height e.round e).1 with expected | _ | _
  · dsimp only
    rw [post_ite]
    refine ⟨fun _ => hidle e rfl, fun hexp => ?_⟩
    have hexp : expected = some p.proposer := not_not.mp hexp
    unfold verifyProposalSignature
    simp only [post_bind, post_get, post_pure]
    rw [post_ite]
    refine ⟨fun hknown => ?_, fun _ => hidle e rfl⟩
    refine ((inert_aside.validateBlock p.block).post e).run.seq ?_ (fun _ e' h => hidle e' h.2)
      (fun e' h => hidle e' h.2)
    rintro valid e₁ ⟨hrun, h₁⟩
    rw [post_ite]
    refine ⟨fun hvalid => ?_, fun _ => hidle e₁ h₁⟩
    have hacc : Accepts e p :=
      ⟨hat.1, hat.2, by rw [hprop, hexp], hknown, by rw [hrun, hvalid]⟩
    rw [post_bind, post_modify]
    have h₂ : Engine.ballot { e₁ with currentProposal := some p }
        = { e.ballot with proposal := some p } := by
      rw [← show e₁.ballot = e.ballot from h₁]
      rfl
    refine Post.mono (sendPrevote_ballot p.hash _) ?_
    rintro _ e' (h | ⟨v, hown, h⟩)
    · rw [show e'.ballot = _ from h, h₂]
      exact Ballot.Step.accepted hacc
    · rw [h₂] at hown h
      exact Ballot.Step.prevoted hacc ⟨hown.voter, hown.height, hown.round, hown.blockHash,
        hown.voteType⟩ h
  · exact hidle e rfl
  · exact hidle e rfl

theorem handleVote_step (v : Vote) (e : Engine σ μ ν) :
    Post (handleVote v) e fun _ e' =>
      Ballot.Step (Accepts e) e.ballot (.voteReceived v) e'.ballot := by
  unfold handleVote
  rw [post_bind, post_get]
  dsimp only
  rw [post_ite]
  refine ⟨fun _ => Ballot.Step.idle, fun hat => ?_⟩
  push Not at hat
  rw [post_bind, post_modify]
  have hrec : (addVote v e).ballot = e.ballot.record v := by
    unfold addVote Ballot.record
    cases v.voteType <;> rfl
  have hheight : (addVote v e).height = e.height :=
    (congrArg Ballot.height hrec).trans (Ballot.height_record v e.ballot)
  have hround : (addVote v e).round = e.round :=
    (congrArg Ballot.round hrec).trans (Ballot.round_record v e.ballot)
  rw [← hheight, ← hround]
  cases htype : v.voteType with
  | prevote =>
      refine Post.mono (checkPrevoteQuorum_ballot v.blockHash (addVote v e)) ?_
      intro _ e' h
      rw [hrec] at h
      exact Ballot.Step.prevoteReceived hat.1 hat.2 htype h
  | precommit =>
      refine Post.mono (checkPrecommitQuorum_ballot v.blockHash (addVote v e)) ?_
      intro _ e' h
      rw [hrec] at h
      exact Ballot.Step.precommitReceived hat.1 hat.2 htype h

/-- **Every command is a step of the ballot**, whatever storage, network, mempool
and clock do. -/
theorem dispatch_step (command : ConsensusCommand) (e : Engine σ μ ν) :
    Post (dispatch command) e fun _ e' =>
      Ballot.Step (Accepts e) e.ballot command e'.ballot := by
  unfold dispatch
  cases command with
  | propose height round =>
      refine Post.attempt_pure ((startNewRound_ballot height round e).mono ?_) true
      rintro _ e' ⟨q, h⟩
      rw [h]
      exact Ballot.Step.propose
  | proposalReceived p => exact Post.attempt_pure (handleProposal_step p e) true
  | voteReceived v => exact Post.attempt_pure (handleVote_step v e) true
  | timeout height round =>
      rw [post_bind, post_get]
      dsimp only
      split_ifs with hat hround
      · obtain ⟨rfl, rfl⟩ := hat
        rw [post_bind, post_addU64]
        refine ⟨fun hfit => ?_, fun _ => Ballot.Step.idle⟩
        refine Post.attempt_pure ((startNewRound_ballot e.height (e.round + 1) e).mono ?_) true
        rintro _ e' ⟨q, h⟩
        rw [h]
        exact Ballot.Step.timeout (toNat_add_of_fits hfit)
      · exact Ballot.Step.idle
      · exact Ballot.Step.idle
  | newBlock _ => exact Ballot.Step.idle
  | synced _ => exact Ballot.Step.idle
  | stop => exact Ballot.Step.idle

/-! ## The start -/

/-- The ballot is the same up to height, round and current proposal. -/
def Starts (e e' : Engine σ μ ν) : Prop :=
  ∃ h r q, e'.ballot = { e.ballot with height := h, round := r, proposal := q }

instance : Std.Refl (Starts (σ := σ) (μ := μ) (ν := ν)) :=
  ⟨fun e => ⟨e.ballot.height, e.ballot.round, e.ballot.proposal, rfl⟩⟩

instance : IsTrans (Engine σ μ ν) Starts := by
  refine ⟨?_⟩
  rintro e₁ e₂ e₃ ⟨h, r, q, hb⟩ ⟨h', r', q', hb'⟩
  exact ⟨h', r', q', by rw [hb', hb]⟩

omit [Primitives] [Mempool μ σ] [Network ν] in
theorem raiseHeight_starts :
    Within Starts (raiseHeight : Exec PacyteError (Engine σ μ ν) Unit) := by
  have hread : Within Starts (onStorage Storage.getBlockHeight :
      Exec PacyteError (Engine σ μ ν) BlockHeight) :=
    fun e => ⟨e.ballot.height, e.ballot.round, e.ballot.proposal, rfl⟩
  refine Within.bind (hread.unwrapOr 0) fun saved => Within.modify fun e => ?_
  split_ifs
  · exact ⟨saved, e.ballot.round, e.ballot.proposal, rfl⟩
  · exact refl_of Starts e

theorem startUp_starts : Within Starts (startUp : Exec PacyteError (Engine σ μ ν) Unit) := by
  refine Within.bind raiseHeight_starts fun _ => Within.bind Within.get fun e => ?_
  refine Within.bind (fun e' => ?_) fun _ => raiseHeight_starts
  obtain ⟨q, h⟩ := startNewRound_ballot e.height 0 e'
  exact ⟨e'.ballot.height, 0, q, h⟩

end Engine

/-! ## Nodes -/

namespace Node

variable {σ μ ν : Type} [Primitives] [Storage σ] [Mempool μ σ] [Network ν]

/-- One turn of a node's loop is a step of its ballot. -/
theorem step_ballot (node : Node σ μ ν) (command : ConsensusCommand) :
    Ballot.Step node.engine.Accepts node.engine.ballot command
      (node.step command).engine.ballot := by
  unfold step
  split_ifs
  · have h := Engine.dispatch_step command node.engine
    rw [Exec.Post] at h
    rcases hr : Engine.dispatch command node.engine with ⟨_ | _ | _, e⟩ <;>
      rw [hr] at h <;> exact h
  · exact Ballot.Step.idle

/-- Every command of the run is issued in a state that satisfies `P` with it. -/
def Meets (P : Node σ μ ν → ConsensusCommand → Prop) (node : Node σ μ ν) :
    List ConsensusCommand → Prop
  | [] => True
  | command :: rest => P node command ∧ Meets P (node.step command) rest

/-- **The invariant rule for runs**: what every step that meets the condition
preserves holds at the end of every run whose steps meet it.  The invariant may
speak about the commands so far. -/
theorem run_invariant {P : Node σ μ ν → ConsensusCommand → Prop}
    {I : List ConsensusCommand → Node σ μ ν → Prop}
    (hstep : ∀ past node command, P node command → I past node →
      I (past ++ [command]) (node.step command))
    (past : List ConsensusCommand) (node : Node σ μ ν) (commands : List ConsensusCommand)
    (h : Meets P node commands) (hinit : I past node) :
    I (past ++ commands) (node.run commands) := by
  induction commands generalizing past node with
  | nil => rwa [List.append_nil]
  | cons command rest ih =>
      have hnext := ih (past ++ [command]) (node.step command) h.2
        (hstep past node command h.1 hinit)
      rwa [List.append_assoc, List.singleton_append] at hnext

theorem boot_engine (e : Engine σ μ ν) : (boot e).engine = (Engine.startUp e).2 := by
  unfold boot
  rcases Engine.startUp e with ⟨_ | _ | _, e'⟩ <;> rfl

/-- A node that has just started has not voted. -/
theorem boot_fresh (e : Engine σ μ ν) (h : e.ballot.Fresh) :
    (boot e).engine.ballot.Fresh := by
  obtain ⟨_, _, _, hb⟩ := Engine.startUp_starts e
  rw [boot_engine, hb]
  exact ⟨h.prevotes, h.precommits, h.votes, h.commits⟩

end Node
