/-
# The safety rules

`SafetyRules` of `src/consensus/safety.rs`: which proposals were seen, the locked proposal
and the hashes of the committed blocks.

* A proposal is taken for a second one if its height, round and proposer were seen before.
  Its block is not compared, so a proposal that is delivered twice costs its proposer a part
  of the stake (`spared_of_deliveredOnce`).
* A block is refused if its hash was committed before.  Neither its height nor the lock is
  compared (`commits_safe_iff`).

The locks are treated as reentrant.
-/
import Pacyte.ProposerAgreement
import Pacyte.CommitCertificate

/-! ## The rules -/

/-- `LockedProposal`. -/
structure LockedProposal where
  height : BlockHeight
  round : UInt64
  blockHash : Hash
  lockedAt : UInt64
  deriving DecidableEq, Repr

/-- `SafetyRules`, with the clock. -/
structure SafetyRules where
  validatorManager : ValidatorManager
  lockedProposal : Option LockedProposal
  committedBlocks : Finset Hash
  seenProposals : Finset (BlockHeight × UInt64 × UInt64)
  clock : Clock

/-- The key of a proposal in `seen_proposals`. -/
def Proposal.key (proposal : Proposal) : BlockHeight × UInt64 × UInt64 :=
  (proposal.height, proposal.round, proposal.proposer)

namespace SafetyRules

/-- `SafetyRules::new`. -/
def new (validatorManager : ValidatorManager) (clock : Clock) : SafetyRules where
  validatorManager := validatorManager
  lockedProposal := none
  committedBlocks := ∅
  seenProposals := ∅
  clock := clock

/-- A call of the validator manager. -/
def onValidators {α : Type} (m : Exec PacyteError ValidatorManager α) :
    Exec PacyteError SafetyRules α :=
  Exec.onPart (·.validatorManager) (fun vm s => { s with validatorManager := vm }) m

/-- A twentieth of the proposer's stake is taken for a double proposal. -/
def slashProposer (id : UInt64) : Exec PacyteError ValidatorManager Unit := do
  let found ← ValidatorManager.getValidator id
  ValidatorManager.slash id ((found.map fun v => BitVec.ofNat 128 (v.stake.toNat / 20)).getD 0)

section Calls

variable [Primitives]

/-- The last check of `check_proposal_safety`: the locked proposal. -/
def checkLocked (proposal : Proposal) : Exec PacyteError SafetyRules Unit := do
  let s ← Exec.get
  match s.lockedProposal with
  | none => return ()
  | some locked =>
    if locked.height = proposal.height then
      if locked.blockHash ≠ proposal.block.hash then
        Exec.throw (.safetyViolation ("Cannot propose different block at height " ++
          toString proposal.height.toNat ++ ": locked=" ++ debugBytes locked.blockHash.toList))
      else
        return ()
    else if proposal.height < locked.height then
      Exec.throw (.safetyViolation ("Locked at height " ++ toString locked.height.toNat ++
        " > proposal height " ++ toString proposal.height.toNat))
    else
      return ()

/-- `SafetyRules::check_proposal_safety`. -/
def checkProposalSafety (proposal : Proposal) : Exec PacyteError SafetyRules Unit := do
  let expected ← onValidators (ValidatorManager.getProposer proposal.height proposal.round)
  if expected ≠ some proposal.proposer then
    Exec.throw (.invalidProposer expected proposal.proposer)
  else
    let s ← Exec.get
    if proposal.key ∈ s.seenProposals then
      Exec.attempt (onValidators (slashProposer proposal.proposer))
      Exec.throw (.doubleProposal proposal.proposer)
    else
      Exec.modify fun s => { s with seenProposals := insert proposal.key s.seenProposals }
      checkLocked proposal

/-- `SafetyRules::lock_proposal`. -/
def lockProposal (height : BlockHeight) (round : UInt64) (blockHash : Hash) :
    Exec PacyteError SafetyRules Unit := do
  let now ← Exec.onPart (·.clock) (fun c s => { s with clock := c }) currentTimestamp
  Exec.modify fun s => { s with lockedProposal := some ⟨height, round, blockHash, now⟩ }

/-- `SafetyRules::unlock`. -/
def unlock : Exec PacyteError SafetyRules Unit :=
  Exec.modify fun s => { s with lockedProposal := none }

/-- `SafetyRules::commit_block`. -/
def commitBlock (block : Block) : Exec PacyteError SafetyRules Unit := do
  let s ← Exec.get
  if block.hash ∈ s.committedBlocks then
    Exec.throw (.blockAlreadyCommitted block.header.height)
  else
    Exec.modify fun s => { s with committedBlocks := insert block.hash s.committedBlocks }
    unlock

/-- `SafetyRules::check_double_vote`. -/
def checkDoubleVote (vote₁ vote₂ : Vote) : Bool :=
  decide (vote₁.height = vote₂.height ∧ vote₁.round = vote₂.round ∧ vote₁.voter = vote₂.voter ∧
    vote₁.voteType = vote₂.voteType ∧ vote₁.blockHash ≠ vote₂.blockHash)

end Calls

end SafetyRules

/-- A call on the safety rules. -/
inductive SafetyOp : Type where
  | check (proposal : Proposal)
  | lock (height : BlockHeight) (round : UInt64) (blockHash : Hash)
  | unlock
  | commit (block : Block)

namespace SafetyOp

variable [Primitives]

/-- A call. -/
def run (op : SafetyOp) : Exec PacyteError SafetyRules Unit :=
  match op with
  | check proposal => SafetyRules.checkProposalSafety proposal
  | lock height round blockHash => SafetyRules.lockProposal height round blockHash
  | unlock => SafetyRules.unlock
  | commit block => SafetyRules.commitBlock block

/-- The state after a call. -/
def after (op : SafetyOp) (s : SafetyRules) : SafetyRules := (op.run s).2

end SafetyOp

namespace SafetyRules

variable [Primitives]

/-! ## Checking a proposal -/

/-- The proposer of the proposal is the one of its height and round. -/
def Expected (s : SafetyRules) (proposal : Proposal) : Prop :=
  (ValidatorManager.getProposer proposal.height proposal.round s.validatorManager).1
    = .ok (some proposal.proposer)

instance (s : SafetyRules) (proposal : Proposal) : Decidable (s.Expected proposal) :=
  inferInstanceAs (Decidable (_ = _))

theorem checkLocked_snd (proposal : Proposal) (s : SafetyRules) :
    (checkLocked proposal s).2 = s := by
  unfold checkLocked
  rw [Exec.run_bind, Exec.run_get]
  dsimp only
  cases s.lockedProposal with
  | none => rfl
  | some locked =>
      dsimp only
      split_ifs
      · rfl
      · rfl
      · rfl
      · rfl

theorem checkLocked_fst (proposal : Proposal) (s : SafetyRules) (id : UInt64) :
    (checkLocked proposal s).1 ≠ .err (.doubleProposal id) := by
  unfold checkLocked
  rw [Exec.run_bind, Exec.run_get]
  dsimp only
  cases s.lockedProposal with
  | none => exact fun h => nomatch h
  | some locked =>
      dsimp only
      split_ifs
      · exact fun h => nomatch h
      · exact fun h => nomatch h
      · exact fun h => nomatch h
      · exact fun h => nomatch h

/-- **What `check_proposal_safety` can do.** -/
theorem checkProposalSafety_cases (proposal : Proposal) (s : SafetyRules) :
    (¬ s.Expected proposal ∧
      (checkProposalSafety proposal s).2.seenProposals = s.seenProposals ∧
      (checkProposalSafety proposal s).2.validatorManager.validators
        = s.validatorManager.validators ∧
      ∀ id, (checkProposalSafety proposal s).1 ≠ .err (.doubleProposal id)) ∨
    (s.Expected proposal ∧ proposal.key ∈ s.seenProposals ∧
      (checkProposalSafety proposal s).2.seenProposals = s.seenProposals ∧
      (∃ g, (checkProposalSafety proposal s).2.validatorManager
        = (slashProposer proposal.proposer (s.validatorManager.withGuards g)).2) ∧
      ((checkProposalSafety proposal s).1 = .err (.doubleProposal proposal.proposer) ∨
        (checkProposalSafety proposal s).1 = .panic)) ∨
    (s.Expected proposal ∧ proposal.key ∉ s.seenProposals ∧
      (checkProposalSafety proposal s).2.seenProposals = insert proposal.key s.seenProposals ∧
      (checkProposalSafety proposal s).2.validatorManager.validators
        = s.validatorManager.validators ∧
      ∀ id, (checkProposalSafety proposal s).1 ≠ .err (.doubleProposal id)) := by
  set g := s.validatorManager.guards.touch .currentSet .read
  set s₁ : SafetyRules := { s with validatorManager := s.validatorManager.withGuards g }
  have hstate : (onValidators (ValidatorManager.getProposer proposal.height proposal.round) s).2
      = s₁ := by
    show { s with validatorManager := (ValidatorManager.getProposer proposal.height proposal.round
      s.validatorManager).2 } = s₁
    rw [ValidatorManager.getProposer_snd]
  have hasked := ValidatorManager.getProposer_fst proposal.height proposal.round s.validatorManager
  rcases hrun : onValidators (ValidatorManager.getProposer proposal.height proposal.round) s
    with ⟨expected | e | _, s'⟩
  · rw [hrun] at hstate
    change s' = s₁ at hstate
    subst hstate
    have hfst : (ValidatorManager.getProposer proposal.height proposal.round
        s.validatorManager).1 = .ok expected := congrArg Prod.fst hrun
    have hexpected : s.Expected proposal ↔ expected = some proposal.proposer := by
      unfold Expected
      rw [hfst, Outcome.ok.injEq]
    unfold checkProposalSafety
    rw [Exec.run_bind_of_ok hrun, hexpected]
    by_cases hproposer : expected = some proposal.proposer
    · rw [if_neg (not_not_intro hproposer), Exec.run_bind, Exec.run_get]
      dsimp only
      by_cases hseen : proposal.key ∈ s.seenProposals
      · -- the proposer is slashed, whatever becomes of it
        refine Or.inr (Or.inl ⟨hproposer, hseen, ?_⟩)
        rw [if_pos (show proposal.key ∈ s₁.seenProposals from hseen), Exec.run_bind]
        unfold Exec.attempt onValidators
        rw [Exec.run_onPart]
        cases (slashProposer proposal.proposer s₁.validatorManager).1 with
        | ok a => exact ⟨rfl, ⟨g, rfl⟩, Or.inl rfl⟩
        | err e => exact ⟨rfl, ⟨g, rfl⟩, Or.inl rfl⟩
        | panic => exact ⟨rfl, ⟨g, rfl⟩, Or.inr rfl⟩
      · refine Or.inr (Or.inr ⟨hproposer, hseen, ?_⟩)
        rw [if_neg (show proposal.key ∉ s₁.seenProposals from hseen), Exec.run_bind,
          Exec.run_modify]
        dsimp only
        rw [checkLocked_snd]
        exact ⟨rfl, rfl, checkLocked_fst proposal _⟩
    · rw [if_pos hproposer]
      refine Or.inl ⟨hproposer, rfl, rfl, fun id h => ?_⟩
      cases h
  · have hfst : (ValidatorManager.getProposer proposal.height proposal.round
        s.validatorManager).1 = .err e := congrArg Prod.fst hrun
    rw [hasked] at hfst
    split_ifs at hfst
  · rw [hrun] at hstate
    change s' = s₁ at hstate
    subst hstate
    have hfst : (ValidatorManager.getProposer proposal.height proposal.round
        s.validatorManager).1 = .panic := congrArg Prod.fst hrun
    refine Or.inl ⟨fun hexpected => ?_, ?_⟩
    · rw [Expected, hfst] at hexpected
      cases hexpected
    · unfold checkProposalSafety
      rw [Exec.run_bind_of_panic hrun]
      exact ⟨rfl, rfl, fun id h => nomatch h⟩

/-! ## Innocent proposers -/

omit [Primitives] in
/-- A slash leaves the records of the other validators as they are, however it ends. -/
theorem slashProposer_lookup {id id' : UInt64} (h : id' ≠ id) (vm : ValidatorManager) :
    (slashProposer id vm).2.validators.lookup id' = vm.validators.lookup id' := by
  set vm₁ := vm.withGuards (vm.guards.touch .validators .read)
  have hget : ValidatorManager.getValidator id vm = (.ok (vm.validators.lookup id), vm₁) := rfl
  unfold slashProposer
  rw [Exec.run_bind_of_ok hget]
  exact ValidatorManager.slash_lookup_of_ne h _ vm₁

/-- The proposals of a validator for one height and round have one block hash. -/
def Innocent (ops : List SafetyOp) (id : UInt64) : Prop :=
  ∀ p p', .check p ∈ ops → .check p' ∈ ops → p.proposer = id → p'.proposer = id →
    p.height = p'.height → p.round = p'.round → p.hash = p'.hash

/-- After `before` and the first proposal, a second one with its height, round and proposer
is delivered, and the proposer is the expected one both times. -/
structure Redelivered (s : SafetyRules) (before : List SafetyOp) (p : Proposal)
    (between : List SafetyOp) (p' : Proposal) : Prop where
  key : p.key = p'.key
  first : (Runs.run SafetyOp.after s before).Expected p
  second : (Runs.run SafetyOp.after s (before ++ .check p :: between)).Expected p'

/-- No proposal of the validator is delivered a second time. -/
def DeliveredOnce (s : SafetyRules) (ops : List SafetyOp) (id : UInt64) : Prop :=
  ∀ before p between p' rest, ops = before ++ .check p :: between ++ .check p' :: rest →
    p.proposer = id → ¬ Redelivered s before p between p'

/-- No call returns `DoubleProposal` for the validator, and its record is never touched. -/
structure Spared (s : SafetyRules) (ops : List SafetyOp) (id : UInt64) : Prop where
  unaccused : ∀ before p rest, ops = before ++ .check p :: rest →
    ((SafetyOp.check p).run (Runs.run SafetyOp.after s before)).1 ≠ .err (.doubleProposal id)
  unslashed : ∀ before rest, ops = before ++ rest →
    (Runs.run SafetyOp.after s before).validatorManager.validators.lookup id
      = s.validatorManager.validators.lookup id

/-- **One call**: the keys that are seen. -/
theorem seenProposals_after (op : SafetyOp) (s : SafetyRules) :
    (op.after s).seenProposals = s.seenProposals ∨
      ∃ p, op = .check p ∧ s.Expected p ∧
        (op.after s).seenProposals = insert p.key s.seenProposals := by
  cases op with
  | check p =>
      rcases checkProposalSafety_cases p s with ⟨-, hseen, -⟩ | ⟨-, -, hseen, -⟩ |
        ⟨hexpected, -, hseen, -⟩
      · exact Or.inl hseen
      · exact Or.inl hseen
      · exact Or.inr ⟨p, rfl, hexpected, hseen⟩
  | lock height round blockHash => exact Or.inl rfl
  | unlock => exact Or.inl rfl
  | commit block =>
      refine Or.inl ?_
      show (commitBlock block s).2.seenProposals = _
      unfold commitBlock
      rw [Exec.run_bind, Exec.run_get]
      dsimp only
      split_ifs
      · rfl
      · rfl

/-- The key of an expected proposal is seen after it. -/
theorem key_mem_after {s : SafetyRules} {p : Proposal} (h : s.Expected p) :
    p.key ∈ ((SafetyOp.check p).after s).seenProposals := by
  rcases checkProposalSafety_cases p s with ⟨hnot, -⟩ | ⟨-, hmem, hseen, -⟩ | ⟨-, -, hseen, -⟩
  · exact absurd h hnot
  · show p.key ∈ (checkProposalSafety p s).2.seenProposals
    rw [hseen]
    exact hmem
  · show p.key ∈ (checkProposalSafety p s).2.seenProposals
    rw [hseen]
    exact Finset.mem_insert_self _ _

/-- Keys stay seen. -/
theorem seenProposals_run (s : SafetyRules) (ops : List SafetyOp) :
    s.seenProposals ⊆ (Runs.run SafetyOp.after s ops).seenProposals := by
  refine Runs.invariant (I := fun s' : SafetyRules => s.seenProposals ⊆ s'.seenProposals) ?_
    (Finset.Subset.refl _) ops
  intro s' op hsub
  rcases seenProposals_after op s' with hsame | ⟨p, -, -, hinsert⟩
  · rwa [hsame]
  · rw [hinsert]
    exact hsub.trans (Finset.subset_insert _ _)

/-- **A seen key was delivered**: by an expected proposal of the run. -/
theorem delivered_of_seen (s : SafetyRules) (hs : s.seenProposals = ∅) (ops : List SafetyOp)
    {key : BlockHeight × UInt64 × UInt64}
    (hkey : key ∈ (Runs.run SafetyOp.after s ops).seenProposals) :
    ∃ before p rest, ops = before ++ .check p :: rest ∧ p.key = key ∧
      (Runs.run SafetyOp.after s before).Expected p := by
  induction ops using List.reverseRecOn with
  | nil =>
      rw [Runs.run_nil, hs] at hkey
      exact absurd hkey (Finset.notMem_empty _)
  | append_singleton ops op ih =>
      rw [Runs.run_append] at hkey
      change key ∈ (op.after (Runs.run SafetyOp.after s ops)).seenProposals at hkey
      have hold : key ∈ (Runs.run SafetyOp.after s ops).seenProposals →
          ∃ before p rest, ops ++ [op] = before ++ .check p :: rest ∧ p.key = key ∧
            (Runs.run SafetyOp.after s before).Expected p := by
        intro hmem
        obtain ⟨before, p, rest, hops, hp, hexpected⟩ := ih hmem
        refine ⟨before, p, rest ++ [op], ?_, hp, hexpected⟩
        rw [hops, List.append_assoc, List.cons_append]
      rcases seenProposals_after op (Runs.run SafetyOp.after s ops) with hsame | ⟨p, rfl, hexp, hins⟩
      · rw [hsame] at hkey
        exact hold hkey
      · rw [hins, Finset.mem_insert] at hkey
        rcases hkey with rfl | hmem
        · exact ⟨ops, p, [], rfl, rfl, hexp⟩
        · exact hold hmem

/-- A call that is not a second delivery does not touch the record of the validator. -/
theorem lookup_after {s : SafetyRules} {op : SafetyOp} {id : UInt64}
    (h : ∀ p, op = .check p → p.proposer = id → s.Expected p → p.key ∉ s.seenProposals) :
    (op.after s).validatorManager.validators.lookup id
        = s.validatorManager.validators.lookup id ∧
      ∀ p, op = .check p → (op.run s).1 ≠ .err (.doubleProposal id) := by
  cases op with
  | check p =>
      rcases checkProposalSafety_cases p s with ⟨-, -, hvalidators, hfst⟩ |
        ⟨hexpected, hseen, -, ⟨g, hslash⟩, hfst⟩ | ⟨-, -, -, hvalidators, hfst⟩
      · exact ⟨congrArg (AList.lookup id) hvalidators, fun _ _ => hfst id⟩
      · have hne : id ≠ p.proposer := by
          rintro rfl
          exact h p rfl rfl hexpected hseen
        constructor
        · show (checkProposalSafety p s).2.validatorManager.validators.lookup id = _
          rw [hslash, slashProposer_lookup hne]
          rfl
        · intro q hq herr
          cases hq
          rcases hfst with hdouble | hpanic
          · rw [show (SafetyOp.check p).run s = checkProposalSafety p s from rfl, hdouble] at herr
            cases herr
            exact hne rfl
          · rw [show (SafetyOp.check p).run s = checkProposalSafety p s from rfl, hpanic] at herr
            cases herr
      · exact ⟨congrArg (AList.lookup id) hvalidators, fun _ _ => hfst id⟩
  | lock height round blockHash => exact ⟨rfl, fun p hp => nomatch hp⟩
  | unlock => exact ⟨rfl, fun p hp => nomatch hp⟩
  | commit block =>
      refine ⟨?_, fun p hp => nomatch hp⟩
      show (commitBlock block s).2.validatorManager.validators.lookup id = _
      unfold commitBlock
      rw [Exec.run_bind, Exec.run_get]
      dsimp only
      split_ifs
      · rfl
      · rfl

/-- Where no proposal is delivered twice, none is seen when it arrives. -/
theorem DeliveredOnce.unseen {s : SafetyRules} {ops : List SafetyOp} {id : UInt64}
    (h : DeliveredOnce s ops id) (hs : s.seenProposals = ∅) {before rest : List SafetyOp}
    {op : SafetyOp} (hops : ops = before ++ op :: rest) :
    ∀ p, op = .check p → p.proposer = id → (Runs.run SafetyOp.after s before).Expected p →
      p.key ∉ (Runs.run SafetyOp.after s before).seenProposals := by
  rintro p rfl hid hexpected hseen
  obtain ⟨first, q, between, hbefore, hkey, hq⟩ := delivered_of_seen s hs before hseen
  rw [hbefore] at hops hexpected
  have hproposer : q.proposer = p.proposer := congrArg (fun key => key.2.2) hkey
  exact h first q between p rest hops (hproposer.trans hid) ⟨hkey, hq, hexpected⟩

/-- **Who is spared.**  In every run of the four calls from new safety rules:

* a validator none of whose proposals is delivered again, as an expected one both times, is
  never slashed and never accused;
* each second delivery is answered with `DoubleProposal`, whatever its block is, unless the
  slash panics. -/
theorem spared_of_deliveredOnce (vm : ValidatorManager) (clock : Clock) (ops : List SafetyOp)
    (id : UInt64) :
    (DeliveredOnce (new vm clock) ops id → Spared (new vm clock) ops id) ∧
    ∀ before p between p' rest, ops = before ++ .check p :: between ++ .check p' :: rest →
      p.proposer = id → Redelivered (new vm clock) before p between p' →
      let s := Runs.run SafetyOp.after (new vm clock) (before ++ .check p :: between)
      ((SafetyOp.check p').run s).1 = .err (.doubleProposal id) ∨
        ((SafetyOp.check p').run s).1 = .panic := by
  refine ⟨fun honce => ⟨?_, ?_⟩, ?_⟩
  · intro before p rest hops
    exact (lookup_after (honce.unseen rfl hops)).2 p rfl
  · intro before
    induction before using List.reverseRecOn with
    | nil => exact fun _ _ => rfl
    | append_singleton before op ih =>
        intro rest hops
        rw [List.append_assoc] at hops
        rw [Runs.run_append]
        exact (lookup_after (honce.unseen rfl hops)).1.trans (ih _ hops)
  · intro before p between p' rest _ hid hagain s
    have hproposer : p'.proposer = id :=
      (congrArg (fun key => key.2.2) hagain.key).symm.trans hid
    have hseen : p'.key ∈ s.seenProposals := by
      have hfirst := key_mem_after hagain.first
      rw [← hagain.key]
      show p.key ∈
        (Runs.run SafetyOp.after (new vm clock) (before ++ .check p :: between)).seenProposals
      rw [Runs.run_append, Runs.run_cons]
      exact seenProposals_run _ between hfirst
    rcases checkProposalSafety_cases p' s with ⟨hnot, -⟩ | ⟨-, -, -, -, hfst⟩ | ⟨-, hnot, -⟩
    · exact absurd hagain.second hnot
    · rw [hproposer] at hfst
      exact hfst
    · exact absurd hseen hnot

/-! ## Commits -/

/-- **What `commit_block` does.** -/
theorem commitBlock_run (block : Block) (s : SafetyRules) :
    commitBlock block s =
      if block.hash ∈ s.committedBlocks then
        (.err (.blockAlreadyCommitted block.header.height), s)
      else
        (.ok (), { s with committedBlocks := insert block.hash s.committedBlocks
                          lockedProposal := none }) := by
  unfold commitBlock
  rw [Exec.run_bind, Exec.run_get]
  dsimp only
  split_ifs
  · rfl
  · rfl

/-- A block is committed unless its hash is among the committed ones. -/
theorem commits_iff (block : Block) (s : SafetyRules) :
    ((SafetyOp.commit block).run s).1 = .ok () ↔ block.hash ∉ s.committedBlocks := by
  rw [show (SafetyOp.commit block).run s = commitBlock block s from rfl, commitBlock_run]
  split_ifs with hmem
  · exact ⟨fun h => (nomatch h), fun h => absurd hmem h⟩
  · exact ⟨fun _ => hmem, fun _ => rfl⟩

/-- The check of a proposal leaves the committed blocks as they are. -/
theorem checkProposalSafety_committedBlocks (proposal : Proposal) (s : SafetyRules) :
    (checkProposalSafety proposal s).2.committedBlocks = s.committedBlocks := by
  let R : SafetyRules → SafetyRules → Prop := fun s s' => s'.committedBlocks = s.committedBlocks
  have : Std.Refl R := ⟨fun _ => rfl⟩
  have : IsTrans SafetyRules R := ⟨fun _ _ _ h h' => h'.trans h⟩
  have hvalidators : ∀ {α : Type} (m : Exec PacyteError ValidatorManager α),
      Exec.Within R (onValidators m) := fun m s => rfl
  have hlocked : Exec.Within R (checkLocked proposal) := fun s => by rw [checkLocked_snd]
  have hwithin : Exec.Within R (checkProposalSafety proposal) := by
    refine (hvalidators _).bind fun expected => Exec.Within.ite (Exec.Within.throw _) ?_
    refine Exec.Within.get.bind fun s' => Exec.Within.ite ?_ ?_
    · exact (hvalidators _).attempt.bind fun _ => Exec.Within.throw _
    · exact Exec.Within.bind (R := R) (fun _ => rfl) fun _ => hlocked
  exact hwithin s

/-- **One call**: the committed blocks. -/
theorem committedBlocks_after (op : SafetyOp) (s : SafetyRules) (x : Hash) :
    x ∈ (op.after s).committedBlocks ↔
      x ∈ s.committedBlocks ∨ ∃ block, op = .commit block ∧ block.hash = x := by
  have hsame : (op.after s).committedBlocks = s.committedBlocks →
      (∀ block, op ≠ .commit block) → (x ∈ (op.after s).committedBlocks ↔
        x ∈ s.committedBlocks ∨ ∃ block, op = .commit block ∧ block.hash = x) := by
    intro hblocks hne
    rw [hblocks]
    exact ⟨Or.inl, fun h => h.resolve_right fun ⟨block, hop, _⟩ => hne block hop⟩
  cases op with
  | check p =>
      exact hsame (checkProposalSafety_committedBlocks p s) fun block h => nomatch h
  | lock height round blockHash => exact hsame rfl fun block h => nomatch h
  | unlock => exact hsame rfl fun block h => nomatch h
  | commit block =>
      show x ∈ (commitBlock block s).2.committedBlocks ↔ _
      rw [commitBlock_run]
      split_ifs with hmem
      · refine ⟨Or.inl, fun h => h.elim id ?_⟩
        rintro ⟨block', hop, rfl⟩
        cases hop
        exact hmem
      · rw [Finset.mem_insert, or_comm]
        refine or_congr_right ⟨fun h => ⟨block, rfl, h.symm⟩, ?_⟩
        rintro ⟨block', hop, rfl⟩
        cases hop
        rfl

/-- **The committed hashes** are those of the blocks that `commit_block` was called with. -/
theorem mem_committedBlocks_run (vm : ValidatorManager) (clock : Clock) (ops : List SafetyOp)
    (x : Hash) :
    x ∈ (Runs.run SafetyOp.after (new vm clock) ops).committedBlocks ↔
      ∃ block, .commit block ∈ ops ∧ block.hash = x := by
  induction ops using List.reverseRecOn with
  | nil => exact ⟨fun h => absurd h (Finset.notMem_empty x), fun ⟨_, h, _⟩ => nomatch h⟩
  | append_singleton ops op ih =>
      rw [Runs.run_append]
      show x ∈ (op.after (Runs.run SafetyOp.after (new vm clock) ops)).committedBlocks ↔ _
      rw [committedBlocks_after, ih]
      constructor
      · rintro (⟨block, hmem, hx⟩ | ⟨block, rfl, hx⟩)
        · exact ⟨block, List.mem_append_left _ hmem, hx⟩
        · exact ⟨block, List.mem_append_right _ (List.mem_singleton_self _), hx⟩
      · rintro ⟨block, hmem, hx⟩
        rcases List.mem_append.mp hmem with hold | hlast
        · exact Or.inl ⟨block, hold, hx⟩
        · exact Or.inr ⟨block, (List.mem_singleton.mp hlast).symm, hx⟩

/-- Among the blocks that are committed, one height has one hash. -/
def OnePerHeight (s : SafetyRules) (ops : List SafetyOp) : Prop :=
  ∀ before b between b' rest, ops = before ++ .commit b :: between ++ .commit b' :: rest →
    ((SafetyOp.commit b).run (Runs.run SafetyOp.after s before)).1 = .ok () →
    ((SafetyOp.commit b').run
      (Runs.run SafetyOp.after s (before ++ .commit b :: between))).1 = .ok () →
    b.header.height = b'.header.height → b.hash = b'.hash

/-- While a lock is held, no other block of its height is committed. -/
def RespectsLock (s : SafetyRules) (ops : List SafetyOp) : Prop :=
  ∀ before b rest locked, ops = before ++ .commit b :: rest →
    (Runs.run SafetyOp.after s before).lockedProposal = some locked →
    locked.height = b.header.height →
    ((SafetyOp.commit b).run (Runs.run SafetyOp.after s before)).1 = .ok () →
    b.hash = locked.blockHash

/-- No call has yet asked to commit a block with the hash. -/
def Uncommitted (ops : List SafetyOp) (x : Hash) : Prop :=
  ∀ block, .commit block ∈ ops → block.hash ≠ x

/-- The calls do not ask to commit two new blocks of one height, nor a new block against
the lock. -/
structure CallerAgrees (s : SafetyRules) (ops : List SafetyOp) : Prop where
  heights : ∀ before b between b' rest,
    ops = before ++ .commit b :: between ++ .commit b' :: rest → Uncommitted before b.hash →
    Uncommitted (before ++ .commit b :: between) b'.hash →
    b.header.height ≠ b'.header.height
  locks : ∀ before b rest locked, ops = before ++ .commit b :: rest →
    Uncommitted before b.hash → (Runs.run SafetyOp.after s before).lockedProposal = some locked →
    locked.height = b.header.height → b.hash = locked.blockHash

/-- A new block is committed, an old one is not. -/
theorem commits_iff_uncommitted (vm : ValidatorManager) (clock : Clock) (ops : List SafetyOp)
    (block : Block) :
    ((SafetyOp.commit block).run (Runs.run SafetyOp.after (new vm clock) ops)).1 = .ok () ↔
      Uncommitted ops block.hash := by
  rw [commits_iff, mem_committedBlocks_run]
  exact ⟨fun h block' hmem hx => h ⟨block', hmem, hx⟩, fun h ⟨block', hmem, hx⟩ => h block' hmem hx⟩

/-- **The height and the lock are left to the caller.**  For every run of the four calls
from new safety rules, no two blocks of one height are committed and the lock is respected
if and only if no call asks for the opposite: `commit_block` refuses nothing but a hash that
was committed before. -/
theorem commits_safe_iff (vm : ValidatorManager) (clock : Clock) (ops : List SafetyOp) :
    OnePerHeight (new vm clock) ops ∧ RespectsLock (new vm clock) ops ↔
      CallerAgrees (new vm clock) ops := by
  constructor
  · rintro ⟨hheights, hlocks⟩
    constructor
    · intro before b between b' rest hops hb hb' heq
      have hsame := hheights before b between b' rest hops
        ((commits_iff_uncommitted vm clock before b).mpr hb)
        ((commits_iff_uncommitted vm clock _ b').mpr hb') heq
      -- the second block would not be new
      exact hb' b (List.mem_append_right _ List.mem_cons_self) hsame
    · intro before b rest locked hops hb hlocked heq
      exact hlocks before b rest locked hops hlocked heq
        ((commits_iff_uncommitted vm clock before b).mpr hb)
  · intro hagrees
    constructor
    · intro before b between b' rest hops hb hb' heq
      have hne := hagrees.heights before b between b' rest hops
        ((commits_iff_uncommitted vm clock before b).mp hb)
        ((commits_iff_uncommitted vm clock _ b').mp hb')
      exact absurd heq hne
    · intro before b rest locked hops hlocked heq hb
      exact hagrees.locks before b rest locked hops
        ((commits_iff_uncommitted vm clock before b).mp hb) hlocked heq

end SafetyRules

section Example

open scoped Sample
open Sample SafetyRules

/-- The safety rules of a node with one validator. -/
def ruled : SafetyRules :=
  SafetyRules.new (registry inOrder [(1, 2000000000000)]) fun _ => 7

/-- The only proposal of the only validator arrives twice.  The second time the validator is
accused and loses a twentieth of its stake. -/
theorem redelivery_is_slashed :
    let ops := [SafetyOp.check ownProposal, .check ownProposal]
    Innocent ops 1 ∧ ¬ Spared ruled ops 1 ∧
      ((Runs.run SafetyOp.after ruled ops).validatorManager.validators.lookup 1).map (·.stake)
        = some 1900000000000 := by
  intro ops
  refine ⟨?_, fun h => ?_, by decide +kernel⟩
  · intro p p' hp hp' _ _ _ _
    have hall : ∀ q, SafetyOp.check q ∈ ops → q = ownProposal := by
      intro q hq
      rcases List.mem_cons.mp hq with heq | hq
      · cases heq
        rfl
      · cases List.mem_singleton.mp hq
        rfl
    rw [hall p hp, hall p' hp']
  · refine h.unaccused [SafetyOp.check ownProposal] ownProposal [] rfl ?_
    decide +kernel

/-- The key of a proposal of the validator that is delivered. -/
def deliveredKey (id : UInt64) : SafetyOp → Option (BlockHeight × UInt64 × UInt64)
  | .check p => if p.proposer = id then some p.key else none
  | _ => none

/-- Proposals with different keys are delivered once. -/
theorem deliveredOnce_of_nodup {s : SafetyRules} {ops : List SafetyOp} {id : UInt64}
    (h : (ops.filterMap (deliveredKey id)).Nodup) : DeliveredOnce s ops id := by
  rintro before p between p' rest rfl hid ⟨hkey, -, -⟩
  have hid' : p'.proposer = id := (congrArg (fun key => key.2.2) hkey).symm.trans hid
  have hfirst : p.key ∈ (before ++ .check p :: between).filterMap (deliveredKey id) :=
    List.mem_filterMap.mpr ⟨.check p, List.mem_append_right _ List.mem_cons_self, if_pos hid⟩
  have hsecond : p'.key ∈ (.check p' :: rest).filterMap (deliveredKey id) :=
    List.mem_filterMap.mpr ⟨.check p', List.mem_cons_self, if_pos hid'⟩
  rw [List.filterMap_append] at h
  exact (List.nodup_append.mp h).2.2 p.key hfirst p'.key hsecond hkey

/-- A proposal of a round. -/
def Sample.roundProposal (round proposer : UInt64) : Proposal :=
  (Proposal.new 1 round (Block.new 1 blockOne.hash [] zero32 7) proposer 7).signed (some fun _ => [1])

/-- Two validators take turns, and one proposal of the second one arrives twice. -/
def Sample.turns : List SafetyOp :=
  [.check (roundProposal 0 1), .check (roundProposal 1 2), .lock 1 1 (roundProposal 1 2).hash,
    .check (roundProposal 1 2), .unlock, .check (roundProposal 2 1),
    .commit (roundProposal 2 1).block]

/-- The first one is spared, the second one loses a twentieth. -/
theorem turns_spared :
    let s := SafetyRules.new (registry inOrder [(1, 2000000000000), (2, 3000000000000)]) fun _ => 7
    Spared s turns 1 ∧
      ((Runs.run SafetyOp.after s turns).validatorManager.validators.lookup 2).map (·.stake)
        = some 2850000000000 := by
  intro s
  have hfirst := (spared_of_deliveredOnce (registry inOrder [(1, 2000000000000), (2, 3000000000000)])
    (fun _ => 7) turns 1).1
  exact ⟨hfirst (deliveredOnce_of_nodup (by decide)), by decide +kernel⟩

/-- A block at the height of the genesis block. -/
def rival : Block := Block.genesis 1

/-- Two blocks of height 0 are committed, the second one against the lock on the first. -/
theorem rival_is_committed :
    let ops := [SafetyOp.commit blockZero, .lock 0 0 blockZero.hash, .commit rival]
    ¬ OnePerHeight ruled ops ∧ ¬ RespectsLock ruled ops := by
  intro ops
  constructor
  · intro h
    have hsame := h [] blockZero [.lock 0 0 blockZero.hash] rival [] rfl (by decide)
      (by decide +kernel) rfl
    revert hsame
    decide +kernel
  · intro h
    have hsame := h [SafetyOp.commit blockZero, .lock 0 0 blockZero.hash] rival []
      ⟨0, 0, blockZero.hash, 7⟩ rfl (by rfl) rfl (by decide +kernel)
    revert hsame
    decide +kernel

end Example
