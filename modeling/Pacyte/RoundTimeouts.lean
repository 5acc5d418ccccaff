/-
# Timeouts of rounds

What the loop of the round manager reports, whatever the other tasks do between its steps.

* There are no more reports that a round has timed out than calls that set the state to
  precommitted, as a round does not time out in any other state.  Two of them are at least one
  round timeout apart (`Spaced`), unless a call writes a start that it has read before the last
  one (`round_timeouts_paced`).
* If the others only set the state, the height stays and the loop reports the rounds one
  after the other, each once (`rounds_in_order`).
-/
import Pacyte.RoundManager

/-! ## Moments that keep their distance -/

/-- Moments, the last one first: each is at least `gap` after the one before, and the first one
at least `gap` after `start`. -/
def Spaced (gap start : ℕ) : List ℕ → Prop
  | [] => True
  | t :: rest => rest.headD start + gap ≤ t ∧ Spaced gap start rest

/-- There are not many moments that keep their distance. -/
theorem Spaced.length_mul_le {gap start : ℕ} {times : List ℕ} (h : Spaced gap start times) :
    start + times.length * gap ≤ times.headD start := by
  induction times with
  | nil => simp
  | cons t rest ih =>
      have hrest := ih h.2
      have hgap := h.1
      rw [List.length_cons, Nat.add_mul, Nat.one_mul, List.headD_cons]
      omega

namespace RoundLoop

/-! ## The pace -/

/-- One round timeout, in nanoseconds. -/
def gap (w : RoundLoop) : ℕ := (w.manager.roundTimeoutMs.toNat + 1) * 1000000

/-- The last report that a round has timed out, or the start. -/
def lastReport (start : ℕ) (w : RoundLoop) : ℕ :=
  (w.roundReports.map TimeoutReport.time).headD start

/-- The start of the round is not older than the last report. -/
def Current (start : ℕ) (w : RoundLoop) : Prop :=
  ∀ t, w.manager.startTime = some t → w.lastReport start ≤ t

/-- What the loop knows about the time since the last report. -/
def Knows (start : ℕ) (w : RoundLoop) : Prop :=
  match w.stage with
  | .idle => w.Current start
  | .measured elapsed =>
      w.Current start ∧ w.lastReport start + elapsed.toNat * 1000000 ≤ w.now
  | .detected timeoutType | .located timeoutType _ =>
      w.Current start ∧ (timeoutType = .round → w.lastReport start + w.gap ≤ w.now)
  | .advancing (.timed t) => w.lastReport start ≤ t ∧ t ≤ w.now
  | .advancing .returned => w.Current start
  | .reported | .advancing _ | .panicked => True

/-- What holds in every run that begins at `start`. -/
structure Paced (start : ℕ) (w : RoundLoop) : Prop where
  begun : w.lastReport start ≤ w.now
  started : ∀ t, w.manager.startTime = some t → t ≤ w.now
  called : ∀ t, CallStage.timed t ∈ w.calls → t ≤ w.now
  spaced : Spaced w.gap start (w.roundReports.map TimeoutReport.time)
  knows : w.Knows start

/-- What was measured does not exceed the time that has passed. -/
theorem elapsedMs_le {m : RoundManager} {start now : ℕ} (hm : m.startTime = some start)
    (hle : start ≤ now) : start + (m.elapsedMs now).toNat * 1000000 ≤ now := by
  have hcut : (m.elapsedMs now).toNat ≤ (now - start) / 1000000 := by
    unfold RoundManager.elapsedMs
    rw [hm]
    exact Nat.mod_le _ _
  have hmul := Nat.mul_le_mul_right 1000000 hcut
  have hdiv := Nat.div_mul_le_self (now - start) 1000000
  omega

/-- A round times out only when it is precommitted, and only after its timeout. -/
theorem timeoutAfter_round {m : RoundManager} {elapsed : UInt64}
    (h : m.timeoutAfter elapsed = some .round) :
    m.state = .precommitted ∧ m.roundTimeoutMs.toNat < elapsed.toNat := by
  unfold RoundManager.timeoutAfter at h
  cases hstate : m.state <;> rw [hstate] at h <;> dsimp only at h
  case precommitted =>
    split_ifs at h with hlt
    exact ⟨rfl, UInt64.lt_iff_toNat_lt.mp hlt⟩
  all_goals
    first
      | cases h
      | split_ifs at h
        cases h

/-- What an access of a call does to the start of the round. -/
theorem startTime_access (now : ℕ) (m : RoundManager) (call : CallStage) :
    (call.access now m).1.startTime = m.startTime ∨
      ∃ t, call = .timed t ∧ (call.access now m).1.startTime = some t := by
  cases call with
  | timed t => exact Or.inr ⟨t, rfl, rfl⟩
  | _ => exact Or.inl rfl

/-- A call that writes its start next has read it now. -/
theorem timed_of_access {now t : ℕ} {m : RoundManager} {call : CallStage}
    (h : (call.access now m).2 = .timed t) : t = now := by
  cases call with
  | restated =>
      cases h
      rfl
  | reading =>
      unfold CallStage.access at h
      dsimp only at h
      split_ifs at h
  | _ => cases h

theorem roundTimeoutMs_access (now : ℕ) (m : RoundManager) (call : CallStage) :
    (call.access now m).1.roundTimeoutMs = m.roundTimeoutMs := by
  cases call <;> rfl

/-- A call does not set the state to precommitted. -/
theorem state_access {now : ℕ} {m : RoundManager} {call : CallStage}
    (h : (call.access now m).1.state = .precommitted) : m.state = .precommitted := by
  cases call with
  | renumbered => cases h
  | _ => exact h

/-- A new report counts if a round has timed out. -/
theorem roundReports_cons (w : RoundLoop) (report : TimeoutReport) (stage : LoopStage) :
    ({ w with reports := report :: w.reports, stage := stage } : RoundLoop).roundReports =
      if report.timeoutType = .round then report :: w.roundReports else w.roundReports := by
  simp only [roundReports, List.filter_cons, decide_eq_true_eq]

/-- The moments of the reports do not depend on the other fields. -/
theorem Paced.of_reports {start : ℕ} {w w' : RoundLoop} (h : Paced start w)
    (hreports : w'.reports = w.reports)
    (htimeout : w'.manager.roundTimeoutMs = w.manager.roundTimeoutMs) (hnow : w.now ≤ w'.now)
    (hstarted : ∀ t, w'.manager.startTime = some t → t ≤ w'.now)
    (hcalls : w'.calls = w.calls) (hknows : w'.Knows start) : Paced start w' := by
  have hround : w'.roundReports = w.roundReports := by rw [roundReports, hreports, roundReports]
  refine ⟨?_, hstarted, fun t ht => ?_, ?_, hknows⟩
  · rw [lastReport, hround]
    exact h.begun.trans hnow
  · rw [hcalls] at ht
    exact (h.called t ht).trans hnow
  · rw [gap, htimeout, hround]
    exact h.spaced

/-- What is measured now has passed since the last report. -/
theorem Paced.measured {start : ℕ} {w : RoundLoop} (h : Paced start w)
    (hcurrent : w.Current start) :
    w.lastReport start + (w.manager.elapsedMs w.now).toNat * 1000000 ≤ w.now := by
  cases hstart : w.manager.startTime with
  | none =>
      -- nothing is measured before the first start
      have hzero : (w.manager.elapsedMs w.now).toNat = 0 := by
        unfold RoundManager.elapsedMs
        rw [hstart]
        rfl
      rw [hzero, Nat.zero_mul, Nat.add_zero]
      exact h.begun
  | some t =>
      have hlast := hcurrent t hstart
      have hle := elapsedMs_le hstart (h.started t hstart)
      omega

/-- A report that a round has timed out is made one timeout after the last one. -/
theorem Paced.reported {start : ℕ} {w : RoundLoop} (h : Paced start w) {timeoutType : TimeoutType}
    {height : BlockHeight} (hcurrent : w.Current start)
    (hgap : timeoutType = .round → w.lastReport start + w.gap ≤ w.now) :
    Paced start { w with
      reports := ⟨timeoutType, height, w.manager.round, w.now⟩ :: w.reports
      stage := if timeoutType = .round then .reported else .idle } := by
  have hreports := roundReports_cons w ⟨timeoutType, height, w.manager.round, w.now⟩
  by_cases hround : timeoutType = .round
  · subst hround
    rw [if_pos rfl]
    refine ⟨?_, h.started, h.called, ?_, trivial⟩
    · rw [lastReport, hreports, if_pos rfl]
      exact le_rfl
    · rw [hreports, if_pos rfl]
      exact ⟨hgap rfl, h.spaced⟩
  · rw [if_neg hround]
    refine ⟨?_, h.started, h.called, ?_, ?_⟩
    · rw [lastReport, hreports, if_neg hround]
      exact h.begun
    · rw [hreports, if_neg hround]
      exact h.spaced
    · intro t ht
      rw [lastReport, hreports, if_neg hround]
      exact hcurrent t ht

/-- **The loop keeps the pace**, one access at a time. -/
theorem Paced.advance {start : ℕ} {w : RoundLoop} (h : Paced start w) :
    Paced start w.advance := by
  have hknows := h.knows
  unfold Knows at hknows
  unfold RoundLoop.advance
  cases hstage : w.stage <;> rw [hstage] at hknows <;> dsimp only at hknows ⊢
  case idle =>
    exact h.of_reports rfl rfl le_rfl h.started rfl ⟨hknows, h.measured hknows⟩
  case measured elapsed =>
    cases htimeout : w.manager.timeoutAfter elapsed with
    | none => exact h.of_reports rfl rfl le_rfl h.started rfl hknows.1
    | some timeoutType =>
        refine h.of_reports rfl rfl le_rfl h.started rfl ⟨hknows.1, ?_⟩
        rintro rfl
        have hlong := (timeoutAfter_round htimeout).2
        calc w.lastReport start + (w.manager.roundTimeoutMs.toNat + 1) * 1000000
            ≤ w.lastReport start + elapsed.toNat * 1000000 :=
              Nat.add_le_add_left (Nat.mul_le_mul_right _ hlong) _
          _ ≤ w.now := hknows.2
  case detected timeoutType => exact h.of_reports rfl rfl le_rfl h.started rfl hknows
  case located timeoutType height => exact h.reported hknows.1 hknows.2
  case reported =>
    split_ifs
    · exact h.of_reports rfl rfl le_rfl h.started rfl trivial
    · exact h.of_reports rfl rfl le_rfl h.started rfl trivial
  case advancing call =>
    cases call with
    | entered height round => exact h.of_reports rfl rfl le_rfl h.started rfl trivial
    | reading =>
        refine h.of_reports rfl rfl le_rfl h.started rfl ?_
        unfold CallStage.access
        dsimp only
        split_ifs
        · trivial
        · trivial
    | numbered round => exact h.of_reports rfl rfl le_rfl h.started rfl trivial
    | renumbered => exact h.of_reports rfl rfl le_rfl h.started rfl trivial
    -- the new start is read now, after the last report
    | restated => exact h.of_reports rfl rfl le_rfl h.started rfl ⟨h.begun, le_rfl⟩
    | timed t =>
        refine h.of_reports rfl rfl le_rfl ?_ rfl ?_
        · rintro t' ⟨⟩
          exact hknows.2
        · rintro t' ⟨⟩
          exact hknows.1
    | returned => exact h.of_reports rfl rfl le_rfl h.started rfl hknows
    | panicked => exact h.of_reports rfl rfl le_rfl h.started rfl trivial
  case panicked => exact h

/-- Another task keeps the pace if the start that it writes is not older than the last report. -/
theorem Paced.changed {start : ℕ} {w : RoundLoop} (h : Paced start w) {m : RoundManager}
    (htimeout : m.roundTimeoutMs = w.manager.roundTimeoutMs)
    (hstart : m.startTime = w.manager.startTime ∨
      ∃ t, m.startTime = some t ∧ w.lastReport start ≤ t ∧ t ≤ w.now) :
    Paced start { w with manager := m } := by
  have hcurrent : w.Current start → Current start { w with manager := m } := by
    intro hold t ht
    rcases hstart with hsame | ⟨t', hnew, hlast, -⟩
    · exact hold t (hsame.symm.trans ht)
    · obtain rfl := Option.some.inj (hnew.symm.trans ht)
      exact hlast
  have hknows := h.knows
  refine h.of_reports rfl htimeout le_rfl ?_ rfl ?_
  · intro t ht
    rcases hstart with hsame | ⟨t', hnew, -, hle⟩
    · exact h.started t (hsame.symm.trans ht)
    · obtain rfl := Option.some.inj (hnew.symm.trans ht)
      exact hle
  · unfold Knows at hknows ⊢
    cases hstage : w.stage <;> rw [hstage] at hknows <;> dsimp only at hknows ⊢
    case idle => exact hcurrent hknows
    case measured elapsed => exact ⟨hcurrent hknows.1, hknows.2⟩
    case detected timeoutType =>
      refine ⟨hcurrent hknows.1, fun hround => ?_⟩
      rw [gap, htimeout]
      exact hknows.2 hround
    case located timeoutType height =>
      refine ⟨hcurrent hknows.1, fun hround => ?_⟩
      rw [gap, htimeout]
      exact hknows.2 hround
    case advancing call =>
      cases call with
      | timed t => exact hknows
      | returned => exact hcurrent hknows
      | _ => trivial

/-- Only the starts that are written next matter about the calls. -/
theorem Paced.recalled {start : ℕ} {w : RoundLoop} (h : Paced start w) {calls : List CallStage}
    (hcalls : ∀ t, CallStage.timed t ∈ calls → t ≤ w.now) :
    Paced start { w with calls := calls } :=
  ⟨h.begun, h.started, hcalls, h.spaced, h.knows⟩

/-- No other task writes a start that it has read before the last report. -/
def Fresh (start : ℕ) (w : RoundLoop) : RoundEvent → Prop
  | .access i => ∀ t, w.calls[i]? = some (.timed t) → w.lastReport start ≤ t
  | _ => True

/-- A call that has not come to its first access. -/
theorem Paced.enter {start : ℕ} {w : RoundLoop} (h : Paced start w) {call : CallStage}
    (hcall : ∀ t, call ≠ .timed t) : Paced start (w.enter call) := by
  refine h.recalled fun t ht => ?_
  rcases List.mem_append.mp ht with hold | hnew
  · exact h.called t hold
  · exact absurd (List.mem_singleton.mp hnew).symm (hcall t)

/-- An access of another task. -/
theorem Paced.accessCall {start i : ℕ} {w : RoundLoop} (h : Paced start w)
    (hfresh : w.Fresh start (.access i)) :
    Paced start (w.accessCall i) ∧
      (w.accessCall i).manager.roundTimeoutMs = w.manager.roundTimeoutMs := by
  unfold RoundLoop.accessCall
  cases hcall : w.calls[i]? with
  | none => exact ⟨h, rfl⟩
  | some call =>
      have htimeout := roundTimeoutMs_access w.now w.manager call
      have hmem : call ∈ w.calls := List.mem_of_getElem? hcall
      have hchanged : Paced start { w with manager := (call.access w.now w.manager).1 } := by
        refine h.changed htimeout ?_
        rcases startTime_access w.now w.manager call with hsame | ⟨t, rfl, hnew⟩
        · exact Or.inl hsame
        · exact Or.inr ⟨t, hnew, hfresh t hcall, h.called t hmem⟩
      refine ⟨hchanged.recalled fun t ht => ?_, htimeout⟩
      rcases List.mem_or_eq_of_mem_set ht with hold | hnew
      · exact h.called t hold
      · exact (timed_of_access hnew.symm).le

/-- **Every event keeps the pace**, if no old start is written. -/
theorem Paced.step {start : ℕ} {w : RoundLoop} (h : Paced start w) {event : RoundEvent}
    (hfresh : w.Fresh start event) :
    Paced start (RoundLoop.step event w) ∧
      (RoundLoop.step event w).manager.roundTimeoutMs = w.manager.roundTimeoutMs := by
  cases event with
  | pass nanoseconds =>
      have hknows := h.knows
      have hle : w.now ≤ w.now + nanoseconds := Nat.le_add_right _ _
      have hlater : Paced start { w with now := w.now + nanoseconds } := by
        refine ⟨h.begun.trans hle, fun t ht => (h.started t ht).trans hle,
          fun t ht => (h.called t ht).trans hle, h.spaced, ?_⟩
        unfold Knows at hknows ⊢
        cases hstage : w.stage <;> rw [hstage] at hknows <;> dsimp only at hknows ⊢
        case idle => exact hknows
        case measured elapsed => exact ⟨hknows.1, hknows.2.trans hle⟩
        case detected timeoutType => exact ⟨hknows.1, fun hround => (hknows.2 hround).trans hle⟩
        case located timeoutType height =>
          exact ⟨hknows.1, fun hround => (hknows.2 hround).trans hle⟩
        case advancing call =>
          cases call with
          | timed t => exact ⟨hknows.1, hknows.2.trans hle⟩
          | returned => exact hknows
          | _ => trivial
      exact ⟨hlater, rfl⟩
  | loop =>
      refine ⟨h.advance, ?_⟩
      show w.advance.manager.roundTimeoutMs = _
      unfold RoundLoop.advance
      cases hstage : w.stage <;> dsimp only
      -- only the counters make a difference
      case reported => split_ifs <;> rfl
      case advancing call => exact roundTimeoutMs_access w.now w.manager call
  | setState state => exact ⟨h.changed rfl (Or.inl rfl), rfl⟩
  | startNewRound height round => exact ⟨h.enter (by rintro t ⟨⟩), rfl⟩
  | resetForHeight height => exact ⟨h.enter (by rintro t ⟨⟩), rfl⟩
  | advanceRound => exact ⟨h.enter (by rintro t ⟨⟩), rfl⟩
  | access i => exact h.accessCall hfresh

/-! ## The number of timeouts -/

/-- One if the round is precommitted. -/
def ripe (m : RoundManager) : ℕ := if m.state = .precommitted then 1 else 0

theorem ripe_le_one (m : RoundManager) : ripe m ≤ 1 := by
  unfold ripe
  split_ifs
  · exact le_rfl
  · exact Nat.zero_le 1

/-- One if the loop has seen a precommitted round that it has not reported yet, or may still
see one. -/
def owed (w : RoundLoop) : ℕ :=
  match w.stage with
  | .idle | .measured _ => ripe w.manager
  | .detected timeoutType | .located timeoutType _ =>
    if timeoutType = .round then 1 else ripe w.manager
  | .advancing .restated | .advancing (.timed _) | .advancing .returned => ripe w.manager
  -- the state is written before the next look
  | .reported | .advancing _ | .panicked => 0

theorem owed_le_one (w : RoundLoop) : w.owed ≤ 1 := by
  have hripe := ripe_le_one w.manager
  unfold owed
  split
  · exact hripe
  · exact hripe
  · split_ifs
    · exact le_rfl
    · exact hripe
  · split_ifs
    · exact le_rfl
    · exact hripe
  · exact hripe
  · exact hripe
  · exact hripe
  all_goals exact Nat.zero_le 1

/-- Reports and what is owed. -/
def claims (w : RoundLoop) : ℕ := w.roundReports.length + w.owed

/-- **The loop reports what is owed**, and then the round is no longer precommitted. -/
theorem claims_advance (w : RoundLoop) : w.advance.claims ≤ w.claims := by
  unfold claims owed RoundLoop.advance
  cases hstage : w.stage <;> dsimp only
  case measured elapsed =>
    apply Nat.add_le_add_left
    cases htimeout : w.manager.timeoutAfter elapsed with
    | none => exact le_rfl
    | some timeoutType =>
        dsimp only [LoopStage.afterCheck]
        split_ifs with hround
        · -- only a precommitted round times out
          subst hround
          rw [ripe, if_pos (timeoutAfter_round htimeout).1]
        · exact le_rfl
  case located timeoutType height => cases timeoutType <;> exact le_rfl
  case reported => split_ifs <;> exact le_rfl
  case advancing call =>
    cases call with
    | reading =>
        unfold CallStage.access
        dsimp only
        split_ifs <;> exact le_rfl
    | _ => exact le_rfl
  case panicked => rw [hstage]
  all_goals exact le_rfl

/-- A change of the manager by another task, by the state that it leaves. -/
theorem claims_changed (w : RoundLoop) (m : RoundManager)
    (hstate : m.state = .precommitted → w.manager.state = .precommitted) :
    claims { w with manager := m } ≤ w.claims := by
  have hle : ripe m ≤ ripe w.manager := by
    unfold ripe
    by_cases hm : m.state = .precommitted
    · rw [if_pos hm, if_pos (hstate hm)]
    · rw [if_neg hm]
      exact Nat.zero_le _
  show w.roundReports.length + owed { w with manager := m } ≤ w.roundReports.length + w.owed
  apply Nat.add_le_add_left
  unfold owed
  dsimp only
  cases w.stage with
  | idle => exact hle
  | measured elapsed => exact hle
  | detected timeoutType =>
      dsimp only
      split_ifs
      · exact le_rfl
      · exact hle
  | located timeoutType height =>
      dsimp only
      split_ifs
      · exact le_rfl
      · exact hle
  | advancing call =>
      cases call with
      | restated => exact hle
      | timed t => exact hle
      | returned => exact hle
      | _ => exact le_rfl
  | reported => exact le_rfl
  | panicked => exact le_rfl

/-- Only a call that sets the state to precommitted adds to the claims. -/
theorem claims_step (event : RoundEvent) (w : RoundLoop) :
    (RoundLoop.step event w).claims
      ≤ w.claims + if event = .setState .precommitted then 1 else 0 := by
  have hadd : ∀ {n : ℕ}, n ≤ w.claims →
      n ≤ w.claims + if event = .setState .precommitted then 1 else 0 :=
    fun h => h.trans (Nat.le_add_right _ _)
  cases event with
  | pass nanoseconds => exact hadd le_rfl
  | loop => exact hadd (claims_advance w)
  | setState state =>
      by_cases hstate : state = .precommitted
      · -- the call is counted, whatever is owed already
        subst hstate
        rw [if_pos rfl]
        show w.roundReports.length + owed _ ≤ w.roundReports.length + w.owed + 1
        rw [Nat.add_assoc]
        apply Nat.add_le_add_left
        exact (owed_le_one _).trans (Nat.le_add_left _ _)
      · apply hadd
        apply claims_changed
        intro hnew
        exact absurd hnew hstate
  | startNewRound height round => exact hadd le_rfl
  | resetForHeight height => exact hadd le_rfl
  | advanceRound => exact hadd le_rfl
  | access i =>
      apply hadd
      show (w.accessCall i).claims ≤ w.claims
      unfold RoundLoop.accessCall
      cases w.calls[i]? with
      | none => exact le_rfl
      | some call => exact claims_changed w _ state_access

/-- Whole runs. -/
theorem claims_run (w : RoundLoop) (events : List RoundEvent) :
    (Runs.run RoundLoop.step w events).claims
      ≤ w.claims + events.count (.setState .precommitted) := by
  induction events generalizing w with
  | nil => exact le_rfl
  | cons event rest ih =>
      have hstep := claims_step event w
      have hrest := ih (RoundLoop.step event w)
      rw [Runs.run_cons, List.count_cons]
      simp only [beq_iff_eq]
      omega

/-- **Timeouts keep the pace.**  Whatever the other tasks do between the accesses of the loop, and
between those of each other:

* there are no more reports that a round has timed out than calls that set the state to
  precommitted, as a round in any other state does not time out;
* if no call writes a start that it has read before the last report, two reports are more than one
  round timeout apart, so there are at most as many as fit into the time that has passed. -/
theorem round_timeouts_paced
    (proposalTimeoutMs prevoteTimeoutMs precommitTimeoutMs roundTimeoutMs : UInt64)
    (start : ℕ) (events : List RoundEvent) :
    let manager := RoundManager.new proposalTimeoutMs prevoteTimeoutMs precommitTimeoutMs
      roundTimeoutMs
    let w := Runs.run RoundLoop.step (opened manager start) events
    let gap := (roundTimeoutMs.toNat + 1) * 1000000
    w.roundReports.length ≤ events.count (.setState .precommitted) ∧
      (Runs.Along RoundLoop.step (Fresh start) (opened manager start) events →
        Spaced gap start (w.roundReports.map TimeoutReport.time) ∧
          start + w.roundReports.length * gap ≤ w.now) := by
  intro manager w gap
  refine ⟨?_, fun hfresh => ?_⟩
  · have hclaims : w.claims ≤ 0 + events.count (.setState .precommitted) :=
      claims_run (opened manager start) events
    unfold claims at hclaims
    omega
  · have hrun : Paced start w ∧ w.manager.roundTimeoutMs = roundTimeoutMs := by
      refine Runs.Along.invariant (I := fun w : RoundLoop =>
        Paced start w ∧ w.manager.roundTimeoutMs = roundTimeoutMs) ?_ ?_ hfresh
      · intro w event hw hevent
        obtain ⟨hpaced, htimeout⟩ := hw.1.step hevent
        exact ⟨hpaced, htimeout.trans hw.2⟩
      · refine ⟨⟨le_rfl, ?_, ?_, trivial, ?_⟩, rfl⟩
        · rintro t ⟨⟩
        · rintro t ⟨⟩
        · rintro t ⟨⟩
    obtain ⟨hpaced, htimeout⟩ := hrun
    have hspaced : Spaced gap start (w.roundReports.map TimeoutReport.time) := by
      have hgap : w.gap = gap := by rw [RoundLoop.gap, htimeout]
      rw [← hgap]
      exact hpaced.spaced
    refine ⟨hspaced, ?_⟩
    have hlength := hspaced.length_mul_le
    rw [List.length_map] at hlength
    exact hlength.trans hpaced.begun

/-- The accesses of a call that starts a round. -/
def Sample.startedRound : List RoundEvent :=
  [.startNewRound 7 0, .access 0, .access 0, .access 0, .access 0, .access 0]

/-- Several steps of the loop. -/
def Sample.loops (n : ℕ) : List RoundEvent := List.replicate n .loop

/-- Two rounds that are precommitted and last too long. -/
def Sample.twoLateRounds : List RoundEvent :=
  .setState .precommitted :: .pass 61000000 :: (Sample.loops 10 ++
    .setState .precommitted :: .pass 70000000 :: Sample.loops 4)

/-- Both are reported, one round timeout apart. -/
theorem two_rounds_paced :
    let w := Runs.run RoundLoop.step (opened (RoundManager.new 60 60 60 60) 0)
      (Sample.startedRound ++ Sample.twoLateRounds)
    w.roundReports.map TimeoutReport.time = [131000000, 61000000] ∧
      Spaced 61000000 0 [131000000, 61000000] := by
  have htimes : (Runs.run RoundLoop.step (opened (RoundManager.new 60 60 60 60) 0)
      (Sample.startedRound ++ Sample.twoLateRounds)).roundReports.map TimeoutReport.time
        = [131000000, 61000000] := by rfl
  have hstart : Runs.Along RoundLoop.step (Fresh 0) (opened (RoundManager.new 60 60 60 60) 0)
      Sample.startedRound := by
    refine ⟨trivial, ?_, ?_, ?_, ?_, ?_, trivial⟩
    all_goals
      rintro t ht
      cases ht
    exact le_rfl
  have hlate : ∀ w, Runs.Along RoundLoop.step (Fresh 0) w Sample.twoLateRounds := by
    intro w
    refine Runs.along_of_forall fun done event rest heq => ?_
    have hmem : event ∈ Sample.twoLateRounds := by
      rw [heq]
      exact List.mem_append_right _ List.mem_cons_self
    simp only [Sample.twoLateRounds, Sample.loops, List.mem_append, List.mem_cons,
      List.mem_replicate] at hmem
    cases event with
    | access i => simp at hmem
    | _ => trivial
  have hpaced := (round_timeouts_paced 60 60 60 60 0
    (Sample.startedRound ++ Sample.twoLateRounds)).2
    ((Runs.along_append _ _).mpr ⟨hstart, hlate _⟩)
  rw [htimes] at hpaced
  exact ⟨htimes, hpaced.1⟩

/-- Two rounds of at most 60 ms.  Another task starts the second one, and reads the clock before the
first one is reported. -/
def Sample.staleStart : List RoundEvent :=
  Sample.startedRound ++ .resetForHeight 8 :: .access 1 :: .access 1 :: .access 1 ::
    .setState .precommitted :: .pass 85000000 :: .access 1 :: .pass 15000000 :: (Sample.loops 12 ++
      .access 1 :: .setState .precommitted :: .pass 50000000 :: Sample.loops 4)

/-- A start that was read before a report and is written after it brings the next one sooner. -/
example : ((Runs.run RoundLoop.step (opened (RoundManager.new 60 60 60 60) 0)
    Sample.staleStart).roundReports.map TimeoutReport.time) = [150000000, 100000000] := by
  rfl

/-! ## The order of the rounds -/

/-- Every number is one more than the one behind it, down to `first`. -/
def Descends (first : ℕ) : List ℕ → Prop
  | [] => True
  | n :: rest => n = first + rest.length ∧ Descends first rest

theorem Descends.reverse_eq {first : ℕ} {l : List ℕ} (h : Descends first l) :
    l.reverse = List.range' first l.length := by
  induction l with
  | nil => rfl
  | cons n rest ih =>
      rw [List.reverse_cons, ih h.2, h.1, List.length_cons, List.range'_concat, Nat.one_mul]

/-- The event is time, a step of the loop, or a change of the state. -/
def Calm : RoundEvent → Prop
  | .pass _ | .loop | .setState _ => True
  | .startNewRound _ _ | .resetForHeight _ | .advanceRound | .access _ => False

/-- Which round the manager is in, seen from the loop, if `n` rounds have timed out. -/
def Counts (height : BlockHeight) (first : ℕ) (w : RoundLoop) : Prop :=
  match w.stage with
  | .idle | .measured _ | .detected _ =>
      w.manager.round.toNat = first + w.roundReports.length
  | .located _ h => h = height ∧ w.manager.round.toNat = first + w.roundReports.length
  | .reported | .advancing .reading =>
      w.manager.round.toNat + 1 = first + w.roundReports.length
  | .advancing (.numbered next) => next.toNat = first + w.roundReports.length
  -- `advance_round` does not write the height
  | .advancing (.entered _ _) => False
  | .advancing _ => w.manager.round.toNat = first + w.roundReports.length
  | .panicked => True

/-- What holds in every calm run that begins in the round `first` of `height`. -/
structure InTurn (height : BlockHeight) (first : ℕ) (w : RoundLoop) : Prop where
  place : w.manager.height = height
  reported : ∀ r ∈ w.reports, r.height = height
  rounds : Descends first (w.roundReports.map fun r => r.round.toNat)
  counts : w.Counts height first

/-- **The loop follows the rounds**, one access at a time. -/
theorem InTurn.advance {height : BlockHeight} {first : ℕ} {w : RoundLoop}
    (h : InTurn height first w) : InTurn height first w.advance := by
  have hcounts := h.counts
  unfold Counts at hcounts
  unfold RoundLoop.advance
  cases hstage : w.stage <;> rw [hstage] at hcounts <;> dsimp only at hcounts ⊢
  case idle => exact ⟨h.place, h.reported, h.rounds, hcounts⟩
  case measured elapsed =>
    cases w.manager.timeoutAfter elapsed with
    | none => exact ⟨h.place, h.reported, h.rounds, hcounts⟩
    | some timeoutType => exact ⟨h.place, h.reported, h.rounds, hcounts⟩
  case detected timeoutType => exact ⟨h.place, h.reported, h.rounds, h.place, hcounts⟩
  case located timeoutType height' =>
    have hreported : ∀ r ∈ (⟨timeoutType, height', w.manager.round, w.now⟩ : TimeoutReport)
        :: w.reports, r.height = height := by
      rw [List.forall_mem_cons]
      exact ⟨hcounts.1, h.reported⟩
    have hreports := roundReports_cons w ⟨timeoutType, height', w.manager.round, w.now⟩
    by_cases hround : timeoutType = .round
    · subst hround
      rw [if_pos rfl]
      refine ⟨h.place, hreported, ?_, ?_⟩
      · rw [hreports, if_pos rfl]
        refine ⟨?_, h.rounds⟩
        rw [List.length_map]
        exact hcounts.2
      · show w.manager.round.toNat + 1 = first + _
        rw [hreports, if_pos rfl, List.length_cons, hcounts.2, Nat.add_assoc]
    · rw [if_neg hround]
      refine ⟨h.place, hreported, ?_, ?_⟩
      · rw [hreports, if_neg hround]
        exact h.rounds
      · show w.manager.round.toNat = first + _
        rw [hreports, if_neg hround]
        exact hcounts.2
  case reported =>
    split_ifs
    · exact ⟨h.place, h.reported, h.rounds, hcounts⟩
    · exact ⟨h.place, h.reported, h.rounds, trivial⟩
  case advancing call =>
    cases call with
    | entered height round => exact hcounts.elim
    | reading =>
        refine ⟨h.place, h.reported, h.rounds, ?_⟩
        unfold Counts CallStage.access
        dsimp only
        split_ifs with hfits
        · show (w.manager.round + 1).toNat = first + w.roundReports.length
          rw [Exec.toNat_add_of_fits hfits]
          exact hcounts
        · trivial
    | panicked => exact ⟨h.place, h.reported, h.rounds, trivial⟩
    | numbered next => exact ⟨h.place, h.reported, h.rounds, hcounts⟩
    | renumbered => exact ⟨h.place, h.reported, h.rounds, hcounts⟩
    | restated => exact ⟨h.place, h.reported, h.rounds, hcounts⟩
    | timed t => exact ⟨h.place, h.reported, h.rounds, hcounts⟩
    | returned => exact ⟨h.place, h.reported, h.rounds, hcounts⟩
  case panicked => exact h

/-- What the rounds depend on. -/
theorem InTurn.congr {height : BlockHeight} {first : ℕ} {w w' : RoundLoop}
    (h : InTurn height first w) (hheight : w'.manager.height = w.manager.height)
    (hround : w'.manager.round = w.manager.round) (hstage : w'.stage = w.stage)
    (hreports : w'.reports = w.reports) : InTurn height first w' := by
  have hsame : w'.roundReports = w.roundReports := by rw [roundReports, hreports, roundReports]
  refine ⟨hheight.trans h.place, ?_, ?_, ?_⟩
  · rw [hreports]
    exact h.reported
  · rw [hsame]
    exact h.rounds
  · have hcounts := h.counts
    unfold Counts at hcounts ⊢
    rw [hstage, hsame, hround]
    exact hcounts

theorem InTurn.step {height : BlockHeight} {first : ℕ} {w : RoundLoop} {event : RoundEvent}
    (h : InTurn height first w) (hcalm : Calm event) :
    InTurn height first (RoundLoop.step event w) := by
  cases event with
  | pass nanoseconds => exact h.congr rfl rfl rfl rfl
  | loop => exact h.advance
  | setState state => exact h.congr rfl rfl rfl rfl
  | startNewRound height round => exact hcalm.elim
  | resetForHeight height => exact hcalm.elim
  | advanceRound => exact hcalm.elim
  | access i => exact hcalm.elim

/-- **The rounds time out in order.**  If the other tasks only set the state, however their
calls fall between the steps of the loop: all reports are about the height of the start, the
rounds that time out are the one of the start and those after it, each once, and between two
looks of the loop the manager is in the next one. -/
theorem rounds_in_order (manager : RoundManager) (start : ℕ) (events : List RoundEvent)
    (hevents : ∀ event ∈ events, Calm event) :
    let w := Runs.run RoundLoop.step (opened manager start) events
    (∀ r ∈ w.reports, r.height = manager.height) ∧
      (w.roundReports.map fun r => r.round.toNat).reverse
        = List.range' manager.round.toNat w.roundReports.length ∧
      (w.stage = .idle →
        w.manager.round.toNat = manager.round.toNat + w.roundReports.length) := by
  intro w
  have hrun : InTurn manager.height manager.round.toNat w := by
    refine Runs.Along.invariant (P := fun _ event => Calm event)
      (fun w event hw hcalm => hw.step hcalm) ?_ (Runs.along_of_mem hevents)
    exact ⟨rfl, fun r hr => (List.not_mem_nil hr).elim, trivial, rfl⟩
  refine ⟨hrun.reported, ?_, fun hidle => ?_⟩
  · have hreverse := hrun.rounds.reverse_eq
    rwa [List.length_map] at hreverse
  · have hcounts := hrun.counts
    unfold Counts at hcounts
    rw [hidle] at hcounts
    exact hcounts

end RoundLoop

section Example

open RoundLoop Sample

/-- A manager in round 0 of height 7, where everything times out after 10 ms. -/
def Sample.quickRounds : RoundManager :=
  { RoundManager.new 10 10 10 10 with height := 7, startTime := some 0 }

/-- Each round is precommitted and lasts too long; while the loop reports the first one, another
task changes the state. -/
def Sample.lateRounds : List RoundEvent :=
  .setState .precommitted :: .pass 11000000 :: .loop :: .loop :: .setState .prevoted ::
    (Sample.loops 10 ++ .setState .precommitted :: .pass 12000000 :: Sample.loops 10)

/-- Two rounds time out. -/
theorem two_rounds_in_order :
    let w := Runs.run RoundLoop.step (opened quickRounds 0) lateRounds
    w.roundReports.length = 2 ∧
      (w.roundReports.map fun r => r.round.toNat).reverse = List.range' 0 2 := by
  have hlength : (Runs.run RoundLoop.step (opened quickRounds 0) lateRounds).roundReports.length
      = 2 := by rfl
  have hcalm : ∀ event ∈ lateRounds, Calm event := by
    simp [lateRounds, Sample.loops, Calm]
  have horder := (rounds_in_order quickRounds 0 lateRounds hcalm).2.1
  rw [hlength] at horder
  exact ⟨hlength, horder⟩

end Example
