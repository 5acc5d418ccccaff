/-
# Time windows

A transaction, a vote and a handshake are accepted only if their timestamp lies in a window around
the present moment.  The three checks compare 64-bit words and compute the ends of the window, or
the age, by sums and differences that panic where the result does not fit.  The window of integers
is what they compute exactly where these results fit (`windows_iff`):

* the age of a transaction does not exist for a timestamp ahead of the clock, which the window
  allows by up to 30 seconds;
* the early ends of the other two windows do not exist where the clock shows less than their width.
-/
import Pacyte.Handshake
import Pacyte.Votes

/-! ## A window of integers -/

/-- The moments from `back` seconds before `now` to `ahead` seconds after it. -/
structure TimeWindow where
  now : ℕ
  back : ℕ
  ahead : ℕ

namespace TimeWindow

/-- The moment lies in the window. -/
def Contains (w : TimeWindow) (t : ℕ) : Prop :=
  (w.now : ℤ) - w.back ≤ t ∧ (t : ℤ) ≤ w.now + w.ahead

instance (w : TimeWindow) (t : ℕ) : Decidable (w.Contains t) :=
  inferInstanceAs (Decidable (_ ∧ _))

/-- A check that ends in `o` has answered, and with `accepted` where the moment lies in the
window. -/
def DecidedBy {ε α : Type} (w : TimeWindow) (t : ℕ) (accepted : α) (o : Outcome ε α) :
    Prop :=
  o ≠ .panic ∧ (o = .ok accepted ↔ w.Contains t)

variable {ε σ : Type}

/-- A check of both ends, which are computed from the clock.  It decides the window if the late end
is a word, and the early one as well where the moment is not after the late end. -/
theorem decidedBy_bounds (now back ahead t : UInt64) (e : ε) (s : σ) :
    (TimeWindow.mk now.toNat back.toNat ahead.toNat).DecidedBy t.toNat ()
        ((do
          let latest ← Exec.addU64 now ahead
          if latest < t then
            Exec.throw e
          else
            let earliest ← Exec.subU64 now back
            if t < earliest then
              Exec.throw e
            else
              return () : Exec ε σ Unit) s).1 ↔
      now.toNat + ahead.toNat < 2 ^ 64 ∧
        (back.toNat ≤ now.toNat ∨ now.toNat + ahead.toNat < t.toNat) := by
  unfold DecidedBy Contains Exec.addU64 Exec.subU64
  dsimp only
  by_cases hahead : now.toNat + ahead.toNat < 2 ^ 64
  · have hlatest := Exec.toNat_add_of_fits hahead
    rw [if_pos hahead, Exec.pure_bind]
    by_cases hlate : now + ahead < t
    · have hafter : now.toNat + ahead.toNat < t.toNat := by
        rw [← hlatest]
        exact hlate
      rw [if_pos hlate, Exec.run_throw]
      simp only [reduceCtorEq, false_iff, ne_eq, not_false_eq_true, true_and]
      omega
    · have hbefore : t.toNat ≤ now.toNat + ahead.toNat := by
        rw [← hlatest]
        exact Nat.le_of_not_lt hlate
      rw [if_neg hlate]
      by_cases hback : back.toNat ≤ now.toNat
      · have hearliest : (now - back).toNat = now.toNat - back.toNat :=
          UInt64.toNat_sub_of_le _ _ hback
        rw [if_pos hback, Exec.pure_bind]
        by_cases hearly : t < now - back
        · have hbelow : t.toNat < now.toNat - back.toNat := by
            rw [← hearliest]
            exact hearly
          rw [if_pos hearly, Exec.run_throw]
          simp only [reduceCtorEq, false_iff, ne_eq, not_false_eq_true, true_and]
          omega
        · have habove : now.toNat - back.toNat ≤ t.toNat := by
            rw [← hearliest]
            exact Nat.le_of_not_lt hearly
          rw [if_neg hearly, Exec.run_pure]
          simp only [reduceCtorEq, ne_eq, not_false_eq_true, true_and, true_iff]
          omega
      · rw [if_neg hback, Exec.run_bind, Exec.run_abort]
        simp only [ne_eq, not_true_eq_false, false_and, false_iff]
        omega
  · rw [if_neg hahead, Exec.run_bind, Exec.run_abort]
    simp only [ne_eq, not_true_eq_false, false_and, hahead]

/-- A check of the late end and of the age.  It decides the window if the late end is a word, and
the moment is not between the present one and the late end. -/
theorem decidedBy_age (now back ahead t : UInt64) (s : σ) :
    (TimeWindow.mk now.toNat back.toNat ahead.toNat).DecidedBy t.toNat true
        ((do
          let limit ← Exec.addU64 now ahead
          if limit < t then
            return false
          let age ← Exec.subU64 now t
          if back < age then
            return false
          return true : Exec ε σ Bool) s).1 ↔
      now.toNat + ahead.toNat < 2 ^ 64 ∧
        (t.toNat ≤ now.toNat ∨ now.toNat + ahead.toNat < t.toNat) := by
  unfold DecidedBy Contains Exec.addU64 Exec.subU64
  dsimp only
  by_cases hahead : now.toNat + ahead.toNat < 2 ^ 64
  · have hlimit := Exec.toNat_add_of_fits hahead
    rw [if_pos hahead, Exec.pure_bind]
    by_cases hlate : now + ahead < t
    · have hafter : now.toNat + ahead.toNat < t.toNat := by
        rw [← hlimit]
        exact hlate
      rw [if_pos hlate, Exec.run_pure]
      simp only [reduceCtorEq, Outcome.ok.injEq, Bool.false_eq_true, false_iff, ne_eq,
        not_false_eq_true, true_and]
      omega
    · have hbefore : t.toNat ≤ now.toNat + ahead.toNat := by
        rw [← hlimit]
        exact Nat.le_of_not_lt hlate
      rw [if_neg hlate]
      by_cases hpast : t.toNat ≤ now.toNat
      · have hage : (now - t).toNat = now.toNat - t.toNat :=
          UInt64.toNat_sub_of_le _ _ hpast
        rw [if_pos hpast, Exec.pure_bind]
        by_cases hold : back < now - t
        · have hbelow : back.toNat < now.toNat - t.toNat := by
            rw [← hage]
            exact hold
          rw [if_pos hold, Exec.run_pure]
          simp only [reduceCtorEq, Outcome.ok.injEq, Bool.false_eq_true, false_iff, ne_eq,
            not_false_eq_true, true_and]
          omega
        · have habove : now.toNat - t.toNat ≤ back.toNat := by
            rw [← hage]
            exact Nat.le_of_not_lt hold
          rw [if_neg hold, Exec.run_pure]
          simp only [reduceCtorEq, ne_eq, not_false_eq_true, true_and, true_iff]
          omega
      · rw [if_neg hpast, Exec.run_bind, Exec.run_abort]
        simp only [ne_eq, not_true_eq_false, false_and, false_iff]
        omega
  · rw [if_neg hahead, Exec.run_bind, Exec.run_abort]
    simp only [ne_eq, not_true_eq_false, false_and, hahead]

end TimeWindow

/-! ## The three checks -/

namespace Transaction

/-- Everything that `validate_basic` asks for beside the time. -/
structure WellFormed (tx : Transaction) : Prop where
  sender : tx.from ≠ zero32
  recipient : tx.to ≠ zero32
  different : tx.from ≠ tx.to
  positive : tx.amount ≠ 0
  fits : tx.amount.toNat + tx.fee.toNat < 2 ^ 128
  signed : tx.signature ≠ []
  short : tx.signature.length ≤ 5000

/-- The check of a well-formed transaction is the one of its time. -/
theorem WellFormed.validateBasic {tx : Transaction} (h : tx.WellFormed) (maxTxAgeSecs : UInt64)
    (clock : Clock) : (tx.validateBasic maxTxAgeSecs clock).1 =
      ((do
        let limit ← Exec.addU64 (clock 0) 30
        if limit < tx.timestamp then
          return false
        let age ← Exec.subU64 (clock 0) tx.timestamp
        if maxTxAgeSecs < age then
          return false
        return true : Exec PacyteError Clock Bool) fun k => clock (k + 1)).1 := by
  have hsignature : (!tx.signature.isEmpty && decide (tx.signature.length ≤ 5000)) = true := by
    rw [decide_eq_true h.short, Bool.and_true, Bool.not_eq_true', List.isEmpty_eq_false_iff]
    exact h.signed
  unfold Transaction.validateBasic
  rw [if_neg (by simp only [h.sender, h.recipient, h.different, or_self, not_false_eq_true]),
    if_neg (by simp only [h.positive, h.fits, not_true_eq_false, or_self, not_false_eq_true]),
    hsignature]
  rfl

/-- When the window of a transaction is decided: if its late end is a word, and the timestamp is
not between the present moment and the late end. -/
theorem WellFormed.decidedBy_iff {tx : Transaction} (h : tx.WellFormed) (maxTxAgeSecs : UInt64)
    (clock : Clock) :
    (TimeWindow.mk (clock 0).toNat maxTxAgeSecs.toNat 30).DecidedBy tx.timestamp.toNat true
        (tx.validateBasic maxTxAgeSecs clock).1 ↔
      (clock 0).toNat + 30 < 2 ^ 64 ∧
        (tx.timestamp.toNat ≤ (clock 0).toNat ∨
          (clock 0).toNat + 30 < tx.timestamp.toNat) := by
  rw [h.validateBasic]
  exact TimeWindow.decidedBy_age (clock 0) maxTxAgeSecs 30 tx.timestamp _

end Transaction

namespace VoteManager

variable [Primitives] [Verifiers]

/-- The vote of an active validator, with its signature. -/
def Signed (s : VoteManager) (vote : Vote) : Prop :=
  ∃ validator ∈ s.validatorManager.validators.lookup vote.voter,
    validator.isActive = true ∧ verifyVoteSignature vote validator.publicKey = true

instance (s : VoteManager) (vote : Vote) : Decidable (s.Signed vote) :=
  inferInstanceAs (Decidable (∃ validator ∈ s.validatorManager.validators.lookup vote.voter,
    validator.isActive = true ∧ verifyVoteSignature vote validator.publicKey = true))

/-- When the window of a vote is decided. -/
theorem Signed.decidedBy_iff {s : VoteManager} {vote : Vote} (h : s.Signed vote) :
    (TimeWindow.mk (s.clock 0).toNat 60 10).DecidedBy vote.timestamp.toNat ()
        (validateVote vote s).1 ↔
      (s.clock 0).toNat + 10 < 2 ^ 64 ∧
        (60 ≤ (s.clock 0).toNat ∨ (s.clock 0).toNat + 10 < vote.timestamp.toNat) := by
  obtain ⟨validator, hlookup, hactive, hsignature⟩ := h
  have hfound : onValidators (ValidatorManager.getValidator vote.voter) s = (.ok (some validator),
      (onValidators (ValidatorManager.getValidator vote.voter) s).2) := by
    refine Prod.ext ?_ rfl
    show Outcome.ok (s.validatorManager.validators.lookup vote.voter) = _
    rw [hlookup]
  unfold validateVote
  rw [Exec.run_bind_of_ok hfound]
  dsimp only
  rw [if_neg (by rw [hactive]; exact Bool.false_ne_true),
    if_neg (by rw [hsignature]; exact Bool.false_ne_true)]
  exact TimeWindow.decidedBy_bounds (s.clock 0) 60 10 vote.timestamp
    PacyteError.invalidTimestamp _

end VoteManager

namespace HandshakeMessage

/-- When the window of a handshake is decided. -/
theorem decidedBy_iff {message : HandshakeMessage} {ourGenesisHash : Hash}
    (h : message.genesisHash = ourGenesisHash) (maxTimeDiffSecs : UInt64) (clock : Clock) :
    (TimeWindow.mk (clock 0).toNat maxTimeDiffSecs.toNat maxTimeDiffSecs.toNat).DecidedBy
        message.timestamp.toNat () (message.validate ourGenesisHash maxTimeDiffSecs clock).1 ↔
      (clock 0).toNat + maxTimeDiffSecs.toNat < 2 ^ 64 ∧
        (maxTimeDiffSecs.toNat ≤ (clock 0).toNat ∨
          (clock 0).toNat + maxTimeDiffSecs.toNat < message.timestamp.toNat) := by
  unfold validate
  rw [if_neg (not_not_intro h)]
  exact TimeWindow.decidedBy_bounds (clock 0) maxTimeDiffSecs maxTimeDiffSecs message.timestamp
    (PacyteError.handshakeFailed "Timestamp out of range") _

end HandshakeMessage

/-- **When the time windows are decided as windows of integers**, for everything that passes the
other checks. -/
theorem windows_iff [Primitives] [Verifiers] :
    (∀ (tx : Transaction) (maxTxAgeSecs : UInt64) (clock : Clock), tx.WellFormed →
      ((TimeWindow.mk (clock 0).toNat maxTxAgeSecs.toNat 30).DecidedBy tx.timestamp.toNat true
          (tx.validateBasic maxTxAgeSecs clock).1 ↔
        (clock 0).toNat + 30 < 2 ^ 64 ∧ (tx.timestamp.toNat ≤ (clock 0).toNat ∨
          (clock 0).toNat + 30 < tx.timestamp.toNat))) ∧
    (∀ (s : VoteManager) (vote : Vote), s.Signed vote →
      ((TimeWindow.mk (s.clock 0).toNat 60 10).DecidedBy vote.timestamp.toNat ()
          (VoteManager.validateVote vote s).1 ↔
        (s.clock 0).toNat + 10 < 2 ^ 64 ∧
          (60 ≤ (s.clock 0).toNat ∨ (s.clock 0).toNat + 10 < vote.timestamp.toNat))) ∧
    ∀ (message : HandshakeMessage) (ourGenesisHash : Hash) (maxTimeDiffSecs : UInt64)
      (clock : Clock), message.genesisHash = ourGenesisHash →
      ((TimeWindow.mk (clock 0).toNat maxTimeDiffSecs.toNat maxTimeDiffSecs.toNat).DecidedBy
          message.timestamp.toNat () (message.validate ourGenesisHash maxTimeDiffSecs clock).1 ↔
        (clock 0).toNat + maxTimeDiffSecs.toNat < 2 ^ 64 ∧
          (maxTimeDiffSecs.toNat ≤ (clock 0).toNat ∨
            (clock 0).toNat + maxTimeDiffSecs.toNat < message.timestamp.toNat)) :=
  ⟨fun _ maxTxAgeSecs clock h => h.decidedBy_iff maxTxAgeSecs clock,
    fun _ _ h => h.decidedBy_iff,
    fun _ _ maxTimeDiffSecs clock h => HandshakeMessage.decidedBy_iff h maxTimeDiffSecs clock⟩

/-! ## A clock that is a little behind -/

section Example

open scoped Sample

/-- A payment of 10 for a fee of 1, made at the moment. -/
def stampedTransfer (timestamp : UInt64) : Transaction :=
  ⟨Vector.replicate 32 1, Vector.replicate 32 2, 10, 1, 0, [0], timestamp⟩

theorem stampedTransfer_wellFormed (timestamp : UInt64) :
    (stampedTransfer timestamp).WellFormed where
  sender := show Vector.replicate 32 1 ≠ zero32 by decide
  recipient := show Vector.replicate 32 2 ≠ zero32 by decide
  different := show (Vector.replicate 32 1 : Address) ≠ Vector.replicate 32 2 by decide
  positive := show (10 : U128) ≠ 0 by decide
  fits := show (10 : U128).toNat + (1 : U128).toNat < 2 ^ 128 by decide
  signed := show [0] ≠ [] by decide
  short := show [0].length ≤ 5000 by decide

/-- A handshake at the moment. -/
def stampedHandshake (timestamp : UInt64) : HandshakeMessage :=
  ⟨1, 1, 7, 8000, zero32, 0, zero32, [], timestamp, []⟩

/-- The transaction is five seconds ahead of the clock, inside the window, and the check panics. -/
theorem ahead_of_clock :
    (stampedTransfer 1005).WellFormed ∧ (TimeWindow.mk 1000 3600 30).Contains 1005 ∧
      ((stampedTransfer 1005).validateBasic 3600 fun _ => 1000).1 = .panic ∧
      ¬ (TimeWindow.mk 1000 3600 30).DecidedBy 1005 true
        ((stampedTransfer 1005).validateBasic 3600 fun _ => 1000).1 := by
  have hpanic : ((stampedTransfer 1005).validateBasic 3600 fun _ => 1000).1 = .panic := by
    decide
  exact ⟨stampedTransfer_wellFormed 1005, by decide, hpanic, fun h => h.1 hpanic⟩

/-- Clocks that show 1000: a transaction of five seconds ago, a vote of this moment and a
handshake of a minute ahead. -/
theorem windows_decided :
    (TimeWindow.mk 1000 3600 30).DecidedBy 995 true
        ((stampedTransfer 995).validateBasic 3600 fun _ => 1000).1 ∧
      (TimeWindow.mk 1000 60 10).DecidedBy 1000 ()
        (VoteManager.validateVote (Sample.ballot 1 1 0 .prevote zero32)
          (Sample.voteManager [(1, 1000000000000)])).1 ∧
      (TimeWindow.mk 1000 300 300).DecidedBy 1060 ()
        ((stampedHandshake 1060).validate zero32 300 fun _ => 1000).1 :=
  ⟨(windows_iff.1 (stampedTransfer 995) 3600 (fun _ => 1000)
      (stampedTransfer_wellFormed 995)).mpr (by decide),
    (windows_iff.2.1 (Sample.voteManager [(1, 1000000000000)]) (Sample.ballot 1 1 0 .prevote zero32)
      (by decide +kernel)).mpr (by decide),
    (windows_iff.2.2 (stampedHandshake 1060) zero32 300 (fun _ => 1000) rfl).mpr (by decide)⟩

end Example
