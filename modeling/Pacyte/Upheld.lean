/-
# Invariants of the engine

A property of the engine that talks about the current proposal, the heights and
the saved blocks can only change at a few places: when a round starts, when an
own or a received block becomes the current proposal, and when a block is
committed.  `Proposes` and `Upheld` list what has to be shown there, and
`Node.run_holds` is the rule: such a property holds in every state that the loop
reaches.
-/
import Pacyte.Ballot

/-! ## The engine -/

namespace Engine

open Exec

variable {σ μ ν : Type}

variable [Primitives] [Storage σ] [Mempool μ σ] [Network ν]

omit [Storage σ] [Mempool μ σ] [Network ν] in
/-- `create_proposal` keeps the block. -/
theorem createProposal_block {height : BlockHeight} {round : UInt64} {block : Block}
    {e e' : Engine σ μ ν} {p : Proposal}
    (h : createProposal height round block e = (.ok p, e')) : p.block = block := by
  unfold createProposal requireId at h
  simp only [run_bind, run_get] at h
  cases hid : e.myValidatorId with
  | none =>
      rw [hid] at h
      cases h
  | some id =>
      rw [hid] at h
      cases h
      unfold Proposal.signed
      cases e.signer <;> rfl

/-- What makes `J` an invariant between commits, with `K` for the state that a
panic leaves behind.  `Fits e block` is what the making and the checking of a
block establish. -/
structure Proposes (R : Engine σ μ ν → Engine σ μ ν → Prop) (Fits : Engine σ μ ν → Block → Prop)
    (J K : Engine σ μ ν → Prop) : Prop where
  inert : VoteInert R
  height : ∀ e e', R e e' → e'.height = e.height
  panic : ∀ e, J e → K e
  moves : ∀ e e', R e e' → J e → J e'
  round : ∀ e r t s, J e → J { e with round := r, roundStartTime := t, state := s }
  fits : ∀ e e' block, R e e' → J e → Fits e block → Fits e' block
  created : ∀ height e block, J e → (createBlock height e).1 = .ok block → Fits e block
  validated : ∀ e block, J e → (validateBlock block e).1 = .ok true → Fits e block
  proposal : ∀ e p, J e → Fits e p.block → J { e with currentProposal := some p }

/-- What makes `J` an invariant: also a commit at the present height keeps it. -/
structure Upheld (R : Engine σ μ ν → Engine σ μ ν → Prop) (Fits : Engine σ μ ν → Block → Prop)
    (J K : Engine σ μ ν → Prop) : Prop extends Proposes R Fits J K where
  commit : ∀ e certificate, J e → Post (commitBlock e.height certificate) e (Ends J K)

variable {R : Engine σ μ ν → Engine σ μ ν → Prop} [Std.Refl R] [IsTrans (Engine σ μ ν) R]
  {Fits : Engine σ μ ν → Block → Prop} {J K : Engine σ μ ν → Prop}

namespace Proposes

omit [Network ν] [Std.Refl R] [IsTrans (Engine σ μ ν) R] in
theorem keeps {α : Type} (h : Proposes R Fits J K) {m : Exec PacyteError (Engine σ μ ν) α}
    (hm : Within R m) : Keeps J K m := Keeps.of_within hm h.moves h.panic

omit [Network ν] [Std.Refl R] [IsTrans (Engine σ μ ν) R] in
/-- Together with a block that fits. -/
theorem keeps_fits {α : Type} (h : Proposes R Fits J K) (block : Block)
    {m : Exec PacyteError (Engine σ μ ν) α} (hm : Within R m) :
    Keeps (fun e => J e ∧ Fits e block) K m :=
  Keeps.of_within hm
    (fun e e' hR he => ⟨h.moves e e' hR he.1, h.fits e e' block hR he.1 he.2⟩)
    (fun e he => h.panic e he.1)

/-- The end of `start_new_round` for the proposer: a block that fits becomes the
current proposal. -/
theorem propose (h : Proposes R Fits J K) (height : BlockHeight) (round : UInt64) (block : Block)
    (e : Engine σ μ ν) (he : J e ∧ Fits e block) :
    Post (do
      let proposal ← createProposal height round block
      broadcastProposal proposal
      Exec.modify fun e => { e with currentProposal := some proposal, state := .prevoting }
      emit (.proposalSent height round)) e (Ends J K) := by
  refine (h.keeps_fits block (h.inert.createProposal height round block) e he).run.seq ?_
    (fun _ _ h' => h'.2.1) (fun _ h' => h'.2)
  rintro p e₁ ⟨hrun, he₁⟩
  have hblock : p.block = block := createProposal_block hrun
  refine (h.keeps_fits block (h.inert.broadcastProposal p) e₁ he₁).seq ?_
    (fun _ _ h' => h'.1) (fun _ h' => h')
  rintro _ e₂ ⟨he₂, hfits⟩
  rw [post_bind, post_modify]
  refine h.keeps (h.inert.emit _) _ ?_
  exact h.round _ e₂.round e₂.roundStartTime .prevoting
    (h.proposal e₂ p he₂ (by rwa [hblock]))

theorem startNewRound (h : Proposes R Fits J K) (height : BlockHeight) (round : UInt64) :
    Keeps J K (Engine.startNewRound height round) := by
  refine Keeps.bind (Keeps.modify fun e he => h.round e round e.roundStartTime e.state he)
    fun _ => ?_
  refine Keeps.bind (h.keeps (h.inert.onClock _)) fun now => ?_
  refine Keeps.bind (Keeps.modify fun e he => h.round e e.round (some now) .proposing he)
    fun _ => ?_
  refine Keeps.bind (h.keeps (h.inert.emit _)) fun _ => ?_
  refine Keeps.bind (h.keeps (Inert.amIProposer _ _)) fun mine => ?_
  refine Keeps.ite ?_ (Keeps.modify fun e he => h.round e e.round e.roundStartTime _ he)
  intro e he
  refine (Within.post (h.inert.createBlock height) e).run.seq ?_
    (fun _ e' h' => h.moves e e' h'.2 he) (fun e' h' => h.panic e' (h.moves e e' h'.2 he))
  rintro block e₁ ⟨hrun, h₁⟩
  have hfits := h.created height e block he (by rw [hrun])
  exact h.propose height round block e₁ ⟨h.moves e e₁ h₁ he, h.fits e e₁ block h₁ he hfits⟩

end Proposes

namespace Upheld

omit [Std.Refl R] [IsTrans (Engine σ μ ν) R] in
theorem checkPrecommitQuorum (h : Upheld R Fits J K) (round : UInt64) (x : Hash)
    (e : Engine σ μ ν) (he : J e) :
    Post (Engine.checkPrecommitQuorum e.height round x) e (Ends J K) := by
  unfold Engine.checkPrecommitQuorum
  rw [post_bind, post_get]
  dsimp only
  rw [post_ite]
  refine ⟨fun _ => ?_, fun _ => he⟩
  rw [post_bind, Engine.emit, post_modify]
  have hmove := h.inert.event e (.quorumReached e.height round .precommit)
  exact h.commit _ _ (h.moves _ _ hmove he)

/-- Casting a vote keeps the invariant and returns the present height. -/
theorem castVote (h : Upheld R Fits J K) (x : Hash) (voteType : VoteType) (e : Engine σ μ ν)
    (he : J e) :
    Post (Engine.castVote x voteType) e fun o e' => Ends J K o e' ∧
      ∀ r, o = .ok r → r.1 = e'.height := by
  have hmove := h.inert.castVote x voteType e
  have hkeep := h.keeps (h.inert.castVote x voteType) e he
  refine Post.mono (castVote_ballot x voteType e).run ?_
  rintro o e' ⟨hrun, hcast⟩
  rw [Post, hrun] at hkeep
  rw [hrun] at hmove
  refine ⟨hkeep, ?_⟩
  rintro r rfl
  rw [h.height e e' hmove, hcast.1]

/-- A vote that is cast and then counted. -/
theorem castThen (h : Upheld R Fits J K) (x : Hash) (voteType : VoteType)
    (next : BlockHeight → UInt64 → Exec PacyteError (Engine σ μ ν) Unit)
    (hnext : ∀ e round, J e → Post (next e.height round) e (Ends J K))
    (e : Engine σ μ ν) (he : J e) :
    Post (do
      let (height, round) ← Engine.castVote x voteType
      next height round) e (Ends J K) := by
  refine (h.castVote x voteType e he).seq ?_ (fun _ _ h' => h'.1) (fun _ h' => h'.1)
  rintro ⟨height, round⟩ e₁ ⟨he₁, hr⟩
  obtain rfl : height = e₁.height := hr _ rfl
  exact hnext e₁ round he₁

theorem checkPrevoteQuorum (h : Upheld R Fits J K) (round : UInt64) (x : Hash)
    (e : Engine σ μ ν) (he : J e) :
    Post (Engine.checkPrevoteQuorum e.height round x) e (Ends J K) := by
  unfold Engine.checkPrevoteQuorum
  rw [post_bind, post_get]
  dsimp only
  rw [post_ite]
  refine ⟨fun _ => ?_, fun _ => he⟩
  rw [post_bind, Engine.emit, post_modify]
  have hmove := h.inert.event e (.quorumReached e.height round .prevote)
  exact h.castThen x .precommit (fun height round => Engine.checkPrecommitQuorum height round x)
    (fun e' r he' => h.checkPrecommitQuorum r x e' he') _ (h.moves _ _ hmove he)

theorem handleProposal (h : Upheld R Fits J K) (p : Proposal) :
    Keeps J K (Engine.handleProposal p) := by
  refine Keeps.bind Keeps.get fun e₀ => Keeps.ite (Keeps.pure _) ?_
  refine Keeps.bind (h.keeps (Inert.getProposer _ _)) fun expected => ?_
  refine Keeps.ite (Keeps.pure _) (Keeps.bind (Keeps.bind Keeps.get fun _ => Keeps.pure _) ?_)
  refine fun known => Keeps.ite ?_ (Keeps.pure _)
  intro e he
  refine (Within.post (h.inert.validateBlock p.block) e).run.seq ?_
    (fun _ e' h' => h.moves e e' h'.2 he) (fun e' h' => h.panic e' (h.moves e e' h'.2 he))
  rintro valid e₁ ⟨hrun, h₁⟩
  have he₁ := h.moves e e₁ h₁ he
  rw [post_ite]
  refine ⟨fun hvalid => ?_, fun _ => he₁⟩
  have hfits := h.validated e p.block he (by rw [hrun, hvalid])
  rw [post_bind, post_modify]
  exact h.castThen p.hash .prevote (fun height round => Engine.checkPrevoteQuorum height round p.hash)
    (fun e' r he' => h.checkPrevoteQuorum r p.hash e' he') _
    (h.proposal e₁ p he₁ (h.fits e e₁ p.block h₁ he hfits))

theorem handleVote (h : Upheld R Fits J K) (v : Vote) : Keeps J K (Engine.handleVote v) := by
  intro e he
  unfold Engine.handleVote
  rw [post_bind, post_get]
  dsimp only
  rw [post_ite]
  refine ⟨fun _ => he, fun _ => ?_⟩
  have hmove := h.inert.recorded e v
  have he₁ := h.moves _ _ hmove he
  rw [post_bind, post_modify, ← h.height _ _ hmove]
  cases v.voteType with
  | prevote => exact h.checkPrevoteQuorum _ _ _ he₁
  | precommit => exact h.checkPrecommitQuorum _ _ _ he₁

/-- **Every command keeps an upheld invariant.** -/
theorem dispatch (h : Upheld R Fits J K) (command : ConsensusCommand) :
    Keeps J K (Engine.dispatch command : Exec PacyteError (Engine σ μ ν) Bool) := by
  cases command with
  | propose height round =>
      exact Keeps.bind (h.startNewRound height round).attempt fun _ => Keeps.pure _
  | proposalReceived p => exact Keeps.bind (h.handleProposal p).attempt fun _ => Keeps.pure _
  | voteReceived v => exact Keeps.bind (h.handleVote v).attempt fun _ => Keeps.pure _
  | timeout height round =>
      refine Keeps.bind Keeps.get fun e => ?_
      dsimp only
      split_ifs
      · exact Keeps.bind (h.keeps (Within.addU64 _ _)) fun next =>
          Keeps.bind (h.startNewRound height next).attempt fun _ => Keeps.pure _
      · exact Keeps.pure _
      · exact Keeps.pure _
  | newBlock _ => exact Keeps.pure _
  | synced _ => exact Keeps.pure _
  | stop => exact Keeps.pure _

end Upheld

end Engine

/-! ## Nodes -/

namespace Node

variable {σ μ ν : Type} [Primitives] [Storage σ] [Mempool μ σ] [Network ν]
  {R : Engine σ μ ν → Engine σ μ ν → Prop} [Std.Refl R] [IsTrans (Engine σ μ ν) R]
  {Fits : Engine σ μ ν → Block → Prop} {J K : Engine σ μ ν → Prop}

/-- A running node satisfies `J`, a stopped one `K`. -/
def Holds (J K : Engine σ μ ν → Prop) (node : Node σ μ ν) : Prop :=
  if node.running then J node.engine else K node.engine

theorem step_holds (h : Engine.Upheld R Fits J K) (node : Node σ μ ν)
    (command : ConsensusCommand) (hn : Holds J K node) : Holds J K (node.step command) := by
  unfold step
  split_ifs with hrun
  · rw [Holds, if_pos hrun] at hn
    have hkeep := h.dispatch command node.engine hn
    rw [Exec.Post] at hkeep
    rcases hr : Engine.dispatch command node.engine with ⟨goesOn | _ | _, e⟩ <;> rw [hr] at hkeep
    · cases goesOn
      · exact h.panic e hkeep
      · exact hkeep
    · exact h.panic e hkeep
    · exact hkeep
  · exact hn

/-- **An upheld invariant holds in every state that the loop reaches.** -/
theorem run_holds (h : Engine.Upheld R Fits J K) (node : Node σ μ ν)
    (commands : List ConsensusCommand) (hn : Holds J K node) : Holds J K (node.run commands) := by
  unfold run
  induction commands generalizing node with
  | nil => exact hn
  | cons command rest ih => exact ih (node.step command) (step_holds h node command hn)

/-- A start-up that keeps the invariant leads to a node that satisfies it. -/
theorem boot_holds (hK : ∀ e, J e → K e) {e : Engine σ μ ν}
    (h : Exec.Post Engine.startUp e (Exec.Ends J K)) : Holds J K (boot e) := by
  rw [Exec.Post] at h
  unfold boot
  rcases hr : Engine.startUp e with ⟨_ | _ | _, e'⟩ <;> rw [hr] at h
  · exact h
  · exact hK e' h
  · exact h

end Node
