/-
# The locks of the managers

A call of the validator manager or of the vote manager may wait for itself: building the
set reads the records, and the callers of it that change a record have locked them; the
quorum is checked while the votes are locked; and a full set is replaced under the guard
that counted it.  `ManagerCall.clash_iff` says for every call and every state when this
happens.
-/
import Pacyte.VoteStore

open Locks

namespace ValidatorManager

/-! ## Building the set -/

/-- Building the set meets no conflict, if no guard is held. -/
theorem guards_updateValidatorSet_free {vm : ValidatorManager} (h : vm.guards = Guards.free) :
    (updateValidatorSet vm).2.guards = Guards.free := by
  rw [updateValidatorSet_run]
  split_ifs
  · show updateGuards vm.guards = _
    rw [h]
    rfl
  · show (vm.guards.touch .validators .read).touch .epoch .read = _
    rw [h]
    rfl

/-- Building the set while the records are locked. -/
theorem clash_updateValidatorSet {vm : ValidatorManager}
    (h : vm.guards.blocks .validators .read = true) :
    (updateValidatorSet vm).2.guards.clash = true := by
  rw [updateValidatorSet_run]
  split_ifs
  · show (updateGuards vm.guards).clash = true
    simp [updateGuards, Guards.touch, h]
  · show ((vm.guards.touch .validators .read).touch .epoch .read).clash = true
    simp [Guards.touch, h]

/-- The records are locked, and nothing else. -/
def Locked (vm : ValidatorManager) : Prop := vm.guards = Guards.free.acquire .validators .write

theorem Locked.blocks {vm : ValidatorManager} (h : vm.Locked) :
    vm.guards.blocks .validators .read = true := by
  rw [h]
  rfl

/-! ## Replacing and registering -/

/-- The weakest record gives way to the new one. -/
def Replaces (vm : ValidatorManager) (stake : U128) : Prop :=
  (∃ weak, vm.weakest = some weak ∧ weak.stake < stake) ∧ vm.nextValidatorId.toNat + 1 < 2 ^ 64

theorem clash_replaceWeakest_iff {vm : ValidatorManager} (h : vm.Locked) (address : Address)
    (publicKey : Bytes) (stake : U128) :
    (replaceWeakest address publicKey stake vm).2.guards.clash = false ↔ ¬ vm.Replaces stake := by
  unfold Replaces
  rw [replaceWeakest_run]
  cases hweak : vm.weakest with
  | none =>
      refine iff_of_true ?_ fun hand => ?_
      · show vm.guards.clash = false
        rw [h]
        rfl
      · obtain ⟨⟨weak, hnone, -⟩, -⟩ := hand
        cases hnone
  | some weak =>
      dsimp only
      split_ifs with hless hfits
      · refine iff_of_false ?_ (not_not_intro ⟨⟨weak, rfl, hless⟩, hfits⟩)
        have hblocks : ((vm.replacedState address publicKey stake weak).withGuards
            (replaceGuards vm.guards)).guards.blocks .validators .read = true := h.blocks
        rw [clash_updateValidatorSet hblocks]
        decide
      · refine iff_of_true ?_ fun hand => hfits hand.2
        show (vm.guards.touch .nextValidatorId .write).clash = false
        rw [h]
        rfl
      · refine iff_of_true ?_ fun hand => ?_
        · show vm.guards.clash = false
          rw [h]
          rfl
        · obtain ⟨⟨weak', hsome, hless'⟩, -⟩ := hand
          cases hsome
          exact hless hless'

/-- A validator that is replaced has the records locked when the set is built. -/
theorem clash_replaceValidator_iff {vm : ValidatorManager} (h : vm.guards = Guards.free)
    (address : Address) (publicKey : Bytes) (stake : U128) :
    (replaceValidator address publicKey stake vm).2.guards.clash = false ↔ ¬ vm.Replaces stake := by
  have hlocked : (vm.withGuards (vm.guards.acquire .validators .write)).Locked := by
    show vm.guards.acquire .validators .write = _
    rw [h]
  exact clash_replaceWeakest_iff hlocked address publicKey stake

/-- A call that has met a conflict has met it in the end. -/
theorem clash_replaceWeakest {vm : ValidatorManager} (h : vm.guards.clash = true)
    (hblocks : vm.guards.blocks .validators .read = true) (address : Address) (publicKey : Bytes)
    (stake : U128) : (replaceWeakest address publicKey stake vm).2.guards.clash = true := by
  rw [replaceWeakest_run]
  cases hweak : vm.weakest with
  | none => exact h
  | some weak =>
      dsimp only
      split_ifs
      · exact clash_updateValidatorSet hblocks
      · show (vm.guards.touch .nextValidatorId .write).clash = true
        simp [Guards.touch, h]
      · exact h

/-- The set is full when the address of a new validator was checked. -/
def RegistersFull (vm : ValidatorManager) (address : Address) (stake : U128) : Prop :=
  vm.hardware.avx512Supported = true ∧ minValidatorStake ≤ stake ∧
    vm.addressToId.lookup address = none ∧ maxValidators ≤ vm.activeRecords

/-- A validator that is registered in a full set is replaced under the guard that counted
the records. -/
theorem clash_registerValidator_iff {vm : ValidatorManager} (h : vm.guards = Guards.free)
    (address : Address) (publicKey : Bytes) (stake : U128) :
    (registerValidator address publicKey stake vm).2.guards.clash = false ↔
      ¬ vm.RegistersFull address stake := by
  unfold RegistersFull
  rw [registerValidator_run, h]
  split_ifs with hhardware hstake hknown hfull
  · refine iff_of_true ?_ fun hand => ?_
    · rw [h]
      rfl
    · rw [hand.1] at hhardware
      cases hhardware
  · refine iff_of_true ?_ fun hand => ?_
    · rw [h]
      rfl
    · exact absurd hstake (BitVec.not_lt.mpr hand.2.1)
  · refine iff_of_true rfl fun hand => ?_
    rw [hand.2.2.1] at hknown
    cases hknown
  · refine iff_of_false ?_ (not_not_intro ⟨?_, BitVec.not_lt.mp hstake, ?_, hfull⟩)
    · rw [guarded_run, replaceValidator, guarded_run]
      show ¬ (replaceWeakest address publicKey stake _).2.guards.clash = false
      rw [clash_replaceWeakest rfl rfl]
      decide
    · simpa using hhardware
    · simpa using hknown
  · refine iff_of_true ?_ fun hand => hfull hand.2.2.2
    rw [addValidator_run]
    split_ifs with hfits
    · show (updateValidatorSet _).2.guards.clash = false
      rw [guards_updateValidatorSet_free rfl]
      rfl
    · rfl

/-! ## Slashing -/

/-- The slash succeeds and leaves the record inactive. -/
def SlashesToInactive (vm : ValidatorManager) (id : UInt64) (amount : U128) : Prop :=
  ∃ v, vm.validators.lookup id = some v ∧ amount ≤ v.stake ∧
    v.slashedAmount.toNat + amount.toNat < 2 ^ 128 ∧ (v.slashedBy amount).status = .inactive

/-- A slash that deactivates the record has it locked when the set is built. -/
theorem clash_slash_iff {vm : ValidatorManager} (h : vm.guards = Guards.free) (id : UInt64)
    (amount : U128) :
    (slash id amount vm).2.guards.clash = false ↔ ¬ vm.SlashesToInactive id amount := by
  have hlocked : (vm.withGuards (vm.guards.acquire .validators .write)).Locked := by
    show vm.guards.acquire .validators .write = _
    rw [h]
  have hclear : (vm.withGuards (vm.guards.acquire .validators .write)).guards.clash = false := by
    rw [hlocked]
    rfl
  set vm' := vm.withGuards (vm.guards.acquire .validators .write)
  have hslash : (slash id amount vm).2.guards.clash = (slashLocked id amount vm').2.guards.clash :=
    rfl
  unfold SlashesToInactive
  rw [hslash, slashLocked_run]
  rw [show vm'.validators = vm.validators from rfl]
  cases hlookup : vm.validators.lookup id with
  | none =>
      refine iff_of_true hclear ?_
      rintro ⟨v, hnone, -⟩
      cases hnone
  | some v =>
      dsimp only
      split_ifs with hless hfits hstatus
      · refine iff_of_true hclear ?_
        rintro ⟨v', hsome, hle, -⟩
        cases hsome
        exact absurd hless (BitVec.not_lt.mpr hle)
      · refine iff_of_false ?_
          (not_not_intro ⟨v, rfl, BitVec.not_lt.mp hless, hfits, hstatus⟩)
        have hblocks : (vm'.withRecord id (v.slashedBy amount)).guards.blocks .validators .read
            = true := hlocked.blocks
        rw [clash_updateValidatorSet hblocks]
        decide
      · refine iff_of_true hclear ?_
        rintro ⟨v', hsome, -, -, hinactive⟩
        cases hsome
        exact hstatus hinactive
      · refine iff_of_true hclear ?_
        rintro ⟨v', hsome, -, hfits', -⟩
        cases hsome
        exact hfits hfits'

/-- The validator is known, and what was taken from it stays a number. -/
def SlashesDouble (vm : ValidatorManager) (id : UInt64) : Prop :=
  ∃ v, vm.validators.lookup id = some v ∧ v.slashedAmount.toNat + (penalty v).toNat < 2 ^ 128

theorem clash_slashDoubleSign_iff {vm : ValidatorManager} (h : vm.guards = Guards.free)
    (id : UInt64) :
    (slashDoubleSign id vm).2.guards.clash = false ↔ ¬ vm.SlashesDouble id := by
  have hlocked : (vm.withGuards (vm.guards.acquire .validators .write)).Locked := by
    show vm.guards.acquire .validators .write = _
    rw [h]
  have hclear : (vm.withGuards (vm.guards.acquire .validators .write)).guards.clash = false := by
    rw [hlocked]
    rfl
  set vm' := vm.withGuards (vm.guards.acquire .validators .write)
  have hslash : (slashDoubleSign id vm).2.guards.clash
      = ((onRecord id punish >>= fun _ => updateValidatorSet) vm').2.guards.clash := rfl
  unfold SlashesDouble
  rw [hslash, slashDoubleSign_run]
  rw [show vm'.validators = vm.validators from rfl]
  cases hlookup : vm.validators.lookup id with
  | none =>
      refine iff_of_true hclear ?_
      rintro ⟨v, hnone, -⟩
      cases hnone
  | some v =>
      dsimp only
      split_ifs with hfits
      · refine iff_of_false ?_ (not_not_intro ⟨v, rfl, hfits⟩)
        have hblocks : (vm'.withRecord id (punished v)).guards.blocks .validators .read = true :=
          hlocked.blocks
        rw [clash_updateValidatorSet hblocks]
        decide
      · refine iff_of_true hclear ?_
        rintro ⟨v', hsome, hfits'⟩
        cases hsome
        exact hfits hfits'

end ValidatorManager

namespace VoteManager

/-! ## Votes -/

/-- No lock is held, neither here nor by the validator manager. -/
structure Unlocked (s : VoteManager) : Prop where
  votes : s.guards = Guards.free
  validators : s.validatorManager.guards = Guards.free

/-- A lock was asked for in conflict with a guard of the caller. -/
def clash (s : VoteManager) : Bool := s.guards.clash || s.validatorManager.guards.clash

theorem Unlocked.clash {s : VoteManager} (h : s.Unlocked) : s.clash = false := by
  rw [VoteManager.clash, h.votes, h.validators]
  rfl

theorem Unlocked.clash_checkQuorum {s : VoteManager} (h : s.Unlocked) (height : BlockHeight)
    (round : UInt64) (blockHash : Hash) (voteType : VoteType) :
    (checkQuorum height round blockHash voteType s).2.clash = false := by
  have hquiet := Quiet.checkQuorum height round blockHash voteType s
  rw [VoteManager.clash, hquiet.free h.validators, guards_checkQuorum, h.votes]
  rfl

/-- The punishment at the end of `add_vote` leaves the votes as they are. -/
theorem punishment_state (voter : UInt64) (t : VoteManager) :
    ((Exec.attempt (onValidators (ValidatorManager.slashDoubleSign voter)) >>=
      fun _ => (Exec.throw (.doubleVoting voter) : Exec PacyteError VoteManager VoteResult)) t).2
      = { t with validatorManager :=
          (ValidatorManager.slashDoubleSign voter t.validatorManager).2 } := by
  rw [Exec.run_bind]
  unfold Exec.attempt onValidators
  rw [Exec.run_onPart]
  cases (ValidatorManager.slashDoubleSign voter t.validatorManager).1 with
  | ok a => rfl
  | err e => rfl
  | panic => rfl

/-- The punishment in a state with free validators. -/
theorem clash_punishment {s t : VoteManager} {vote : Vote}
    (hquiet : Quiet ((s.recorded vote).stored vote) t) (hguards : t.guards.clash = false)
    (hfree : s.validatorManager.guards = Guards.free) :
    ((Exec.attempt (onValidators (ValidatorManager.slashDoubleSign vote.voter)) >>=
      fun _ => (Exec.throw (.doubleVoting vote.voter) :
        Exec PacyteError VoteManager VoteResult)) t).2.clash = false ↔
      ¬ s.validatorManager.SlashesDouble vote.voter := by
  have hvm : t.validatorManager = s.validatorManager.withGuards Guards.free := by
    rw [hquiet.validators, hquiet.free hfree]
    rfl
  rw [punishment_state]
  show (t.guards.clash || (ValidatorManager.slashDoubleSign vote.voter
    t.validatorManager).2.guards.clash) = false ↔ _
  rw [hguards, Bool.false_or, hvm]
  exact ValidatorManager.clash_slashDoubleSign_iff
    (show (s.validatorManager.withGuards Guards.free).guards = Guards.free from rfl) vote.voter

section AddVote

variable [Primitives] [Verifiers]

/-- The vote is accepted, and it is new in the store or it makes the voter be slashed. -/
def StoresLocked (s : VoteManager) (vote : Vote) : Prop :=
  s.Accepts vote ∧ (s.isDuplicate vote = false ∨
    s.isDouble vote = true ∧ s.validatorManager.SlashesDouble vote.voter)

/-- A vote that is stored has the votes locked when the quorum is checked. -/
theorem clash_addVote_iff {s : VoteManager} (h : s.Unlocked) (vote : Vote) :
    (addVote vote s).2.clash = false ↔ ¬ s.StoresLocked vote := by
  unfold StoresLocked
  by_cases hvalid : s.Valid vote
  · by_cases hseen : vote.key ∈ s.seenVotes
    · obtain ⟨hquiet, hguards, -⟩ := addVote_seen hvalid hseen
      refine iff_of_true ?_ fun hand => hand.1.2 hseen
      rw [VoteManager.clash, hquiet.free h.validators, hguards, h.votes]
      rfl
    · obtain ⟨t, hquiet, hguards, hrun⟩ := addVote_fresh hvalid hseen
      rw [show ((s.recorded vote).stored vote).isDouble vote = s.isDouble vote from
        isDouble_stored (s.recorded vote) vote] at hrun
      have haccepts : s.Accepts vote := ⟨hvalid, hseen⟩
      cases hdup : s.isDuplicate vote with
      | false =>
          refine iff_of_false ?_ (not_not_intro ⟨haccepts, Or.inl rfl⟩)
          rw [hdup] at hguards hrun
          simp only [Bool.false_eq_true, if_false] at hguards hrun
          -- the quorum was checked under the guard: whatever follows, the conflict stays
          have hclash : t.guards.clash = true := by
            rw [hguards]
          have hkeep : (addVote vote s).2.guards = t.guards := by
            rw [hrun]
            cases (checkQuorum vote.height vote.round vote.blockHash vote.voteType
              ((s.recorded vote).stored vote)).1 with
            | ok q =>
                dsimp only
                split_ifs
                · rw [punishment_state]
                · rfl
            | err e => rfl
            | panic => rfl
          rw [VoteManager.clash, hkeep, hclash, Bool.true_or]
          decide
      | true =>
          rw [hdup] at hguards hrun
          simp only [if_true] at hguards hrun
          have hclear : t.guards.clash = false := by
            rw [hguards, h.votes]
            rfl
          rw [hrun]
          cases hdouble : s.isDouble vote with
          | true =>
              simp only [if_true]
              rw [clash_punishment hquiet hclear h.validators]
              simp [haccepts]
          | false =>
              refine iff_of_true ?_ ?_
              · show t.clash = false
                rw [VoteManager.clash, hclear, hquiet.free h.validators]
                rfl
              · simp
  · obtain ⟨hquiet, hguards, -⟩ := addVote_invalid hvalid
    refine iff_of_true ?_ fun hand => hvalid hand.1.1
    rw [VoteManager.clash, hquiet.free h.validators, hguards, h.votes]
    rfl

end AddVote

end VoteManager

/-! ## Calls -/

/-- A call on the vote manager or on its validator manager. -/
inductive ManagerCall : Type where
  | registerValidator (address : Address) (publicKey : Bytes) (stake : U128)
  | replaceValidator (address : Address) (publicKey : Bytes) (stake : U128)
  | slash (id : UInt64) (amount : U128)
  | slashDoubleSign (id : UInt64)
  | updateValidatorSet
  | addVote (vote : Vote)
  | hasQuorum (height : BlockHeight) (round : UInt64) (blockHash : Hash) (voteType : VoteType)
  | getVoteCount (height : BlockHeight) (round : UInt64) (blockHash : Hash) (voteType : VoteType)

namespace ManagerCall

variable [Primitives] [Verifiers]

/-- The state after a call, as if the locks were reentrant. -/
def after (call : ManagerCall) (s : VoteManager) : VoteManager :=
  let onValidators (m : ValidatorManager → ValidatorManager) : VoteManager :=
    { s with validatorManager := m s.validatorManager }
  match call with
  | registerValidator address publicKey stake =>
      onValidators fun vm => (vm.registerValidator address publicKey stake).2
  | replaceValidator address publicKey stake =>
      onValidators fun vm => (vm.replaceValidator address publicKey stake).2
  | slash id amount => onValidators fun vm => (ValidatorManager.slash id amount vm).2
  | slashDoubleSign id => onValidators fun vm => (ValidatorManager.slashDoubleSign id vm).2
  | updateValidatorSet => onValidators fun vm => (ValidatorManager.updateValidatorSet vm).2
  | addVote vote => (VoteManager.addVote vote s).2
  | hasQuorum height round blockHash voteType =>
      (VoteManager.hasQuorum height round blockHash voteType s).2
  | getVoteCount height round blockHash voteType =>
      (VoteManager.getVoteCount height round blockHash voteType s).2

/-- The call does not take a path on which it waits for itself. -/
def Safe (call : ManagerCall) (s : VoteManager) : Prop :=
  match call with
  | registerValidator address _ stake => ¬ s.validatorManager.RegistersFull address stake
  | replaceValidator _ _ stake => ¬ s.validatorManager.Replaces stake
  | slash id amount => ¬ s.validatorManager.SlashesToInactive id amount
  | slashDoubleSign id => ¬ s.validatorManager.SlashesDouble id
  | addVote vote => ¬ s.StoresLocked vote
  | updateValidatorSet => True
  | hasQuorum _ _ _ _ => True
  | getVoteCount _ _ _ _ => True

/-- **When a call waits for itself.**  For every state in which no lock is held, and for
every call: the call never asks for a lock in conflict with a guard that it holds if and
only if it does not take one of the five paths on which a lock is asked for twice. -/
theorem clash_iff_safe (s : VoteManager) (h : s.Unlocked) (call : ManagerCall) :
    (call.after s).clash = false ↔ call.Safe s := by
  have hvm : ∀ vm : ValidatorManager,
      VoteManager.clash { s with validatorManager := vm } = vm.guards.clash := by
    intro vm
    show (s.guards.clash || vm.guards.clash) = _
    rw [h.votes]
    rfl
  cases call with
  | registerValidator address publicKey stake =>
      unfold after
      rw [hvm]
      exact ValidatorManager.clash_registerValidator_iff h.validators address publicKey stake
  | replaceValidator address publicKey stake =>
      unfold after
      rw [hvm]
      exact ValidatorManager.clash_replaceValidator_iff h.validators address publicKey stake
  | slash id amount =>
      unfold after
      rw [hvm]
      exact ValidatorManager.clash_slash_iff h.validators id amount
  | slashDoubleSign id =>
      unfold after
      rw [hvm]
      exact ValidatorManager.clash_slashDoubleSign_iff h.validators id
  | updateValidatorSet =>
      unfold after
      rw [hvm, ValidatorManager.guards_updateValidatorSet_free h.validators]
      exact iff_of_true rfl trivial
  | addVote vote => exact VoteManager.clash_addVote_iff h vote
  | hasQuorum height round blockHash voteType =>
      exact iff_of_true (h.clash_checkQuorum height round blockHash voteType) trivial
  | getVoteCount height round blockHash voteType =>
      refine iff_of_true ?_ trivial
      show ((s.guards.acquire .votes .read).clash || s.validatorManager.guards.clash) = false
      rw [h.votes, h.validators]
      rfl

end ManagerCall

section Example

open scoped Sample
open Sample

/-- The first vote of the only validator waits for itself, and so does the slash that takes
all of its stake. -/
theorem first_vote_waits_for_itself :
    let s := voteManager [(1, 1000000000000)]
    s.Unlocked ∧
      ((ManagerCall.addVote (ballot 1 1 0 .prevote zero32)).after s).clash = true ∧
      ((ManagerCall.slash 1 1000000000000).after s).clash = true := by
  intro s
  refine ⟨⟨rfl, ?_⟩, ?_, ?_⟩
  · decide +kernel
  · decide +kernel
  · decide +kernel

/-- A slash that leaves the validator active does not. -/
theorem small_slash_does_not_wait :
    let s := voteManager [(1, 2000000000000)]
    s.Unlocked ∧ ((ManagerCall.slash 1 1).after s).clash = false := by
  intro s
  have hunlocked : s.Unlocked := ⟨rfl, by decide +kernel⟩
  refine ⟨hunlocked, (ManagerCall.clash_iff_safe s hunlocked (.slash 1 1)).mpr ?_⟩
  rintro ⟨v, hlookup, -, -, hinactive⟩
  have hrecord : (s.validatorManager.validators.lookup 1).map
      (fun v => (v.slashedBy 1).status) = some .active := by decide +kernel
  rw [hlookup, Option.map_some, hinactive] at hrecord
  cases hrecord

end Example
