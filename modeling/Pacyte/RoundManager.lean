/-
# Rounds and their timeouts

`RoundManager` of `src/consensus/round.rs`, and the loop `run_timeout_loop`, which looks every
50 ms whether the round has timed out and, after a timeout of the whole round, goes on to the
next one.

The loop runs beside the tasks that start rounds and change the state.  All of them take the
locks of the manager one at a time and give them back in between, so anything can happen between
two of their accesses: `LoopStage` says before which access the loop stands, and `CallStage`
before which one a call that starts a round.  `set_state` takes one lock, so it is one step.

* The clock is read before the lock of the start is taken, so this is a step as well.
* An instant is a number of nanoseconds, and time does not go back.
* `on_timeout` belongs to the caller.  Its calls are recorded with the moment at which the loop
  has read the round for them.
-/
import Pacyte.Consensus
import Pacyte.Runs

/-- `RoundState`. -/
inductive RoundState : Type where
  | newRound
  | proposalSent
  | proposalReceived
  | prevoted
  | precommitted
  | committed
  | timedOut
  deriving DecidableEq, Repr

/-- `TimeoutType`. -/
inductive TimeoutType : Type where
  | proposal
  | prevote
  | precommit
  | round
  deriving DecidableEq, Repr

/-! ## The manager -/

/-- `RoundManager`. -/
structure RoundManager where
  height : BlockHeight
  round : UInt64
  state : RoundState
  startTime : Option ℕ
  proposalTimeoutMs : UInt64
  prevoteTimeoutMs : UInt64
  precommitTimeoutMs : UInt64
  roundTimeoutMs : UInt64
  deriving DecidableEq, Repr

namespace RoundManager

/-- `RoundManager::new`. -/
def new (proposalTimeoutMs prevoteTimeoutMs precommitTimeoutMs roundTimeoutMs : UInt64) :
    RoundManager where
  height := 0
  round := 0
  state := .newRound
  startTime := none
  proposalTimeoutMs := proposalTimeoutMs
  prevoteTimeoutMs := prevoteTimeoutMs
  precommitTimeoutMs := precommitTimeoutMs
  roundTimeoutMs := roundTimeoutMs

/-- `set_state`. -/
def setState (state : RoundState) (m : RoundManager) : RoundManager := { m with state := state }

/-- `elapsed_ms`: the milliseconds are cut to 64 bits. -/
def elapsedMs (now : ℕ) (m : RoundManager) : UInt64 :=
  match m.startTime with
  | some start => UInt64.ofNat ((now - start) / 1000000)
  | none => 0

/-- What `check_timeout` answers for a time that it has measured. -/
def timeoutAfter (elapsed : UInt64) (m : RoundManager) : Option TimeoutType :=
  match m.state with
  | .newRound => if m.proposalTimeoutMs < elapsed then some .proposal else none
  | .proposalReceived | .proposalSent =>
    if m.prevoteTimeoutMs < elapsed then some .prevote else none
  | .prevoted => if m.precommitTimeoutMs < elapsed then some .precommit else none
  | .precommitted => if m.roundTimeoutMs < elapsed then some .round else none
  | .committed | .timedOut => none

end RoundManager

/-! ## Calls that start a round -/

/-- Where a call that starts a round stands. -/
inductive CallStage : Type where
  /-- The height is written next. -/
  | entered (height : BlockHeight) (round : UInt64)
  /-- The present round is read next. -/
  | reading
  /-- The new round is written next. -/
  | numbered (round : UInt64)
  /-- The state is written next. -/
  | renumbered
  /-- The clock is read next. -/
  | restated
  /-- The start is written next. -/
  | timed (start : ℕ)
  | returned
  /-- The number of the next round did not fit. -/
  | panicked
  deriving DecidableEq, Repr

namespace CallStage

/-- `start_new_round` before its first access. -/
def startNewRound (height : BlockHeight) (round : UInt64) : CallStage := .entered height round

/-- `reset_for_height` before its first access. -/
def resetForHeight (height : BlockHeight) : CallStage := .entered height 0

/-- `advance_round` before it reads the round; the height that it has read is only returned. -/
def advanceRound : CallStage := .reading

/-- The next access of a call. -/
def access (now : ℕ) (m : RoundManager) : CallStage → RoundManager × CallStage
  | .entered height round => ({ m with height := height }, .numbered round)
  | .reading => (m, if m.round.toNat + 1 < 2 ^ 64 then .numbered (m.round + 1) else .panicked)
  -- a round that was started in between is overwritten
  | .numbered round => ({ m with round := round }, .renumbered)
  | .renumbered => ({ m with state := .newRound }, .restated)
  | .restated => (m, .timed now)
  | .timed start => ({ m with startTime := some start }, .returned)
  | .returned => (m, .returned)
  | .panicked => (m, .panicked)

end CallStage

/-! ## The loop -/

/-- A call of `on_timeout`, and when its round was read. -/
structure TimeoutReport where
  timeoutType : TimeoutType
  height : BlockHeight
  round : UInt64
  time : ℕ
  deriving DecidableEq, Repr

/-- Where the loop stands. -/
inductive LoopStage : Type where
  /-- Before `check_timeout`. -/
  | idle
  /-- `check_timeout` has measured the time, and reads the state next. -/
  | measured (elapsed : UInt64)
  /-- There is a timeout; the height is read next. -/
  | detected (timeoutType : TimeoutType)
  /-- The round is read next, and `on_timeout` is called. -/
  | located (timeoutType : TimeoutType) (height : BlockHeight)
  /-- The round has timed out and this was reported; `advance_round` is called next. -/
  | reported
  /-- In `advance_round`. -/
  | advancing (call : CallStage)
  /-- A counter did not fit, and the task is gone. -/
  | panicked
  deriving DecidableEq, Repr

/-- The loop reports a timeout, or sleeps. -/
def LoopStage.afterCheck : Option TimeoutType → LoopStage
  | some timeoutType => .detected timeoutType
  | none => .idle

/-- The loop after an access of its `advance_round`. -/
def LoopStage.afterAccess : CallStage → LoopStage
  | .returned => .idle
  | .panicked => .panicked
  | call => .advancing call

/-- The manager, the clock, the calls of the other tasks and the loop beside them. -/
structure RoundLoop where
  manager : RoundManager
  now : ℕ
  /-- The calls that start a round, in the order in which they were made. -/
  calls : List CallStage
  stage : LoopStage
  consecutiveTimeouts : ℕ
  /-- The calls of `on_timeout`, the last one first. -/
  reports : List TimeoutReport
  deriving DecidableEq, Repr

namespace RoundLoop

/-- The loop of a manager at its start. -/
def opened (manager : RoundManager) (now : ℕ) : RoundLoop :=
  ⟨manager, now, [], .idle, 0, []⟩

/-- The next access of the loop.  `consecutive_timeouts` has 32 bits and a sign. -/
def advance (w : RoundLoop) : RoundLoop :=
  match w.stage with
  | .idle => { w with stage := .measured (w.manager.elapsedMs w.now) }
  -- the state may be a newer one than the time was measured for
  | .measured elapsed => { w with stage := .afterCheck (w.manager.timeoutAfter elapsed) }
  | .detected timeoutType => { w with stage := .located timeoutType w.manager.height }
  | .located timeoutType height =>
    { w with
      reports := ⟨timeoutType, height, w.manager.round, w.now⟩ :: w.reports
      stage := if timeoutType = .round then .reported else .idle }
  | .reported =>
    if w.consecutiveTimeouts + 1 < 2 ^ 31 then
      { w with
        consecutiveTimeouts := w.consecutiveTimeouts + 1
        stage := .advancing .advanceRound }
    else
      { w with stage := .panicked }
  | .advancing call =>
    { w with
      manager := (call.access w.now w.manager).1
      stage := .afterAccess (call.access w.now w.manager).2 }
  | .panicked => w

end RoundLoop

/-- What happens beside the loop, or in it. -/
inductive RoundEvent : Type where
  /-- Time passes. -/
  | pass (nanoseconds : ℕ)
  /-- The loop takes its next step. -/
  | loop
  | setState (state : RoundState)
  /-- Another task makes a call. -/
  | startNewRound (height : BlockHeight) (round : UInt64)
  | resetForHeight (height : BlockHeight)
  | advanceRound
  /-- The `i`-th of these calls makes its next access. -/
  | access (i : ℕ)
  deriving DecidableEq, Repr

namespace RoundLoop

/-- Another task makes a call. -/
def enter (call : CallStage) (w : RoundLoop) : RoundLoop := { w with calls := w.calls ++ [call] }

/-- The next access of one of the calls. -/
def accessCall (i : ℕ) (w : RoundLoop) : RoundLoop :=
  match w.calls[i]? with
  | some call =>
    { w with
      manager := (call.access w.now w.manager).1
      calls := w.calls.set i (call.access w.now w.manager).2 }
  | none => w

/-- The state after an event. -/
def step (event : RoundEvent) (w : RoundLoop) : RoundLoop :=
  match event with
  | .pass nanoseconds => { w with now := w.now + nanoseconds }
  | .loop => w.advance
  | .setState state => { w with manager := w.manager.setState state }
  | .startNewRound height round => w.enter (.startNewRound height round)
  | .resetForHeight height => w.enter (.resetForHeight height)
  | .advanceRound => w.enter .advanceRound
  | .access i => w.accessCall i

/-- The reports that a round has timed out, the last one first. -/
def roundReports (w : RoundLoop) : List TimeoutReport :=
  w.reports.filter fun r => r.timeoutType = .round

end RoundLoop
