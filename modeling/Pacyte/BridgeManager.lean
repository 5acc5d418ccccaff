/-
# The bridge manager

`src/vault/bridge.rs`: transfers between shards (`BridgeTransaction`), the manager that moves
them from status to status, and its counters and per-shard lists.

Every method looks the bridge up first and returns an error without having written anything;
after that it writes the new status and then the counters and lists.  The counters are
overflow-checked, so a call may panic after it has written the status.

`revert_bridge` only refuses finalized bridges, and `mark_reverted` refuses none.
-/
import Pacyte.MapEntries

/-- The identifier of a shard. -/
abbrev ShardId := UInt64

/-- `BRIDGE_TIMEOUT_SECS`. -/
def bridgeTimeoutSecs : UInt64 := 60

/-- `MAX_BRIDGE_AMOUNT`: ten million PAC. -/
def maxBridgeAmount : U128 := 10000000000000

/-! ## Bridge transactions -/

inductive BridgeStatus : Type where
  | pending
  | locked
  | relayed
  | finalized
  | reverting
  | reverted
  | expired
  deriving DecidableEq, Repr

/-- `to_string`: the name of the variant. -/
def BridgeStatus.toText : BridgeStatus → String
  | pending => "Pending"
  | locked => "Locked"
  | relayed => "Relayed"
  | finalized => "Finalized"
  | reverting => "Reverting"
  | reverted => "Reverted"
  | expired => "Expired"

structure BridgeTransaction where
  id : UInt64
  sender : Address
  recipient : Address
  amount : U128
  sourceShard : ShardId
  targetShard : ShardId
  status : BridgeStatus
  createdAt : Timestamp
  expiresAt : Timestamp
  hash : Hash
  deriving DecidableEq, Repr

namespace BridgeTransaction

/-- `BridgeTransaction::new` at the clock reading `now`. -/
def new {ε σ : Type} (id : UInt64) (sender recipient : Address) (amount : U128)
    (sourceShard targetShard : ShardId) (now : Timestamp) : Exec ε σ BridgeTransaction := do
  let expiresAt ← Exec.addU64 now bridgeTimeoutSecs
  return {
    id := id
    sender := sender
    recipient := recipient
    amount := amount
    sourceShard := sourceShard
    targetShard := targetShard
    status := .pending
    createdAt := now
    expiresAt := expiresAt
    hash := zero32 }

/-- `is_expired`. -/
def isExpired (tx : BridgeTransaction) (currentTime : Timestamp) : Bool :=
  decide (tx.expiresAt < currentTime)

end BridgeTransaction

/-! ## The manager -/

structure BridgeManager where
  bridges : Map UInt64 BridgeTransaction
  pendingByShard : Map ShardId (List UInt64)
  processed : Map Hash BridgeStatus
  nextBridgeId : UInt64
  totalBridged : U128
  totalFailed : UInt64

namespace BridgeManager

/-- `BridgeManager::new`. -/
def new : BridgeManager where
  bridges := ∅
  pendingByShard := ∅
  processed := ∅
  nextBridgeId := 1
  totalBridged := 0
  totalFailed := 0

/-- The list of a shard. -/
def listing (m : BridgeManager) (shard : ShardId) : List UInt64 :=
  (m.pendingByShard.lookup shard).getD []

/-- Write a bridge with a new status. -/
def withStatus (m : BridgeManager) (id : UInt64) (tx : BridgeTransaction)
    (status : BridgeStatus) : BridgeManager :=
  { m with bridges := m.bridges.insert id { tx with status := status } }

/-- `entry(shard).or_insert_with(Vec::new).push(id)`. -/
def pushPending (m : BridgeManager) (shard : ShardId) (id : UInt64) : BridgeManager :=
  { m with pendingByShard := m.pendingByShard.insert shard (m.listing shard ++ [id]) }

/-- `retain` on the list of a shard, if there is one. -/
def dropPending (m : BridgeManager) (shard : ShardId) (id : UInt64) : BridgeManager :=
  match m.pendingByShard.lookup shard with
  | none => m
  | some list =>
    { m with pendingByShard := m.pendingByShard.insert shard (list.filter (· ≠ id)) }

/-- `retain` on every list. -/
def dropEverywhere (m : BridgeManager) (id : UInt64) : BridgeManager :=
  { m with pendingByShard := Map.mapValues (fun list => list.filter (· ≠ id)) m.pendingByShard }

/-- `bridges.get_mut(&bridge_id).ok_or_else(..)`. -/
def found (id : UInt64) : Exec PacyteError BridgeManager BridgeTransaction := do
  let m ← Exec.get
  match m.bridges.lookup id with
  | none => Exec.throw (.bridgeNotFound id)
  | some tx => return tx

/-- A bridge, which must have the status `expected`. -/
def foundIn (id : UInt64) (expected : BridgeStatus) :
    Exec PacyteError BridgeManager BridgeTransaction := do
  let tx ← found id
  if tx.status ≠ expected then
    Exec.throw (.invalidBridgeStatus expected.toText tx.status.toText)
  else
    return tx

/-- `initiate_bridge` at the clock reading `now`. -/
def initiateBridge (sender recipient : Address) (amount : U128)
    (sourceShard targetShard : ShardId) (now : Timestamp) :
    Exec PacyteError BridgeManager BridgeTransaction := do
  if maxBridgeAmount < amount then
    Exec.throw (.bridgeAmountTooLarge amount maxBridgeAmount)
  else if sourceShard = targetShard then
    Exec.throw .sameShardTransfer
  else
    let m ← Exec.get
    let next ← Exec.addU64 m.nextBridgeId 1
    Exec.modify fun m => { m with nextBridgeId := next }
    let tx ← BridgeTransaction.new m.nextBridgeId sender recipient amount sourceShard targetShard now
    Exec.modify fun m => { m with bridges := m.bridges.insert tx.id tx }
    Exec.modify fun m => m.pushPending sourceShard tx.id
    return tx

/-- `lock_bridge`. -/
def lockBridge (id : UInt64) : Exec PacyteError BridgeManager Unit := do
  let tx ← foundIn id .pending
  Exec.modify fun m => m.withStatus id tx .locked

/-- `relay_bridge`. -/
def relayBridge (id : UInt64) : Exec PacyteError BridgeManager Unit := do
  let tx ← foundIn id .locked
  Exec.modify fun m => m.withStatus id tx .relayed
  Exec.modify fun m => (m.dropPending tx.sourceShard id).pushPending tx.targetShard id

/-- `finalize_bridge`. -/
def finalizeBridge (id : UInt64) : Exec PacyteError BridgeManager Unit := do
  let tx ← foundIn id .relayed
  Exec.modify fun m => m.withStatus id tx .finalized
  let m ← Exec.get
  let total ← Exec.addU128 m.totalBridged tx.amount
  Exec.modify fun m => { m with totalBridged := total }
  Exec.modify fun m => { m with processed := m.processed.insert tx.hash .finalized }
  Exec.modify fun m => m.dropPending tx.targetShard id

/-- `revert_bridge`. -/
def revertBridge (id : UInt64) : Exec PacyteError BridgeManager Unit := do
  let tx ← found id
  if tx.status = .finalized then
    Exec.throw .bridgeAlreadyFinalized
  else
    Exec.modify fun m => m.withStatus id tx .reverting

/-- `mark_reverted`. -/
def markReverted (id : UInt64) : Exec PacyteError BridgeManager Unit := do
  let tx ← found id
  Exec.modify fun m => m.withStatus id tx .reverted
  let m ← Exec.get
  let total ← Exec.addU64 m.totalFailed 1
  Exec.modify fun m => { m with totalFailed := total }
  Exec.modify fun m => m.dropEverywhere id

/-- `find_expired_bridges`. -/
def findExpiredBridges (m : BridgeManager) (currentTime : Timestamp) : List UInt64 :=
  (m.bridges.toPairs.filter fun e =>
    decide (e.2.status ≠ .finalized ∧ e.2.status ≠ .reverted) && e.2.isExpired currentTime).map
      Prod.fst

/-- `get_pending_for_shard`. -/
def getPendingForShard (m : BridgeManager) (shard : ShardId) : List BridgeTransaction :=
  (m.listing shard).filterMap m.bridges.lookup

/-- `get_all_pending`. -/
def getAllPending (m : BridgeManager) : List BridgeTransaction :=
  (m.bridges.toPairs.map Prod.snd).filter fun tx =>
    decide (tx.status = .pending ∨ tx.status = .locked ∨ tx.status = .relayed)

end BridgeManager

/-! ## Calls -/

/-- A call of the manager that may write. -/
inductive BridgeCall : Type where
  | initiate (sender recipient : Address) (amount : U128) (source target : ShardId)
      (now : Timestamp)
  | lock (id : UInt64)
  | relay (id : UInt64)
  | finalize (id : UInt64)
  | revert (id : UInt64)
  | markReverted (id : UInt64)

/-- The program of a call. -/
def BridgeCall.run : BridgeCall → Exec PacyteError BridgeManager Unit
  | initiate sender recipient amount source target now => do
    let _ ← BridgeManager.initiateBridge sender recipient amount source target now
    return ()
  | lock id => BridgeManager.lockBridge id
  | relay id => BridgeManager.relayBridge id
  | finalize id => BridgeManager.finalizeBridge id
  | revert id => BridgeManager.revertBridge id
  | markReverted id => BridgeManager.markReverted id

namespace BridgeManager

open Exec

/-- A bridge that has just been initiated. -/
def fresh (id : UInt64) (sender recipient : Address) (amount : U128) (source target : ShardId)
    (now : Timestamp) : BridgeTransaction :=
  ⟨id, sender, recipient, amount, source, target, .pending, now, now + bridgeTimeoutSecs, zero32⟩

/-- When the two calls of the reaper fail. -/
def Refuses (m : BridgeManager) : BridgeCall → Prop
  | .revert id => ∀ tx, m.bridges.lookup id = some tx → tx.status = .finalized
  | .markReverted id => m.bridges.lookup id = none
  | _ => True

/-- How a call on `m` ends, and what it leaves behind. -/
inductive CallEnd (m : BridgeManager) :
    BridgeCall → Outcome PacyteError Unit → BridgeManager → Prop where
  /-- An error comes before anything is written. -/
  | failed (c : BridgeCall) (e : PacyteError) (hrefuses : m.Refuses c) : CallEnd m c (.err e) m
  /-- No identifier is left. -/
  | exhausted {sender recipient amount source target now} :
      CallEnd m (.initiate sender recipient amount source target now) .panic m
  /-- The identifier is taken, but the time of expiry does not fit. -/
  | endless {sender recipient amount source target now}
      (hfits : m.nextBridgeId.toNat + 1 < 2 ^ 64) :
      CallEnd m (.initiate sender recipient amount source target now) .panic
        { m with nextBridgeId := m.nextBridgeId + 1 }
  | initiated {sender recipient amount source target now}
      (hamount : amount ≤ maxBridgeAmount) (hshards : source ≠ target)
      (hfits : m.nextBridgeId.toNat + 1 < 2 ^ 64) :
      CallEnd m (.initiate sender recipient amount source target now) (.ok ())
        (pushPending
          { m with
            nextBridgeId := m.nextBridgeId + 1
            bridges := m.bridges.insert m.nextBridgeId
              (fresh m.nextBridgeId sender recipient amount source target now) }
          source m.nextBridgeId)
  | locked {id : UInt64} {tx : BridgeTransaction} (hfound : m.bridges.lookup id = some tx)
      (hstatus : tx.status = .pending) :
      CallEnd m (.lock id) (.ok ()) (m.withStatus id tx .locked)
  | relayed {id : UInt64} {tx : BridgeTransaction} (hfound : m.bridges.lookup id = some tx)
      (hstatus : tx.status = .locked) :
      CallEnd m (.relay id) (.ok ())
        (((m.withStatus id tx .relayed).dropPending tx.sourceShard id).pushPending
          tx.targetShard id)
  | finalized {id : UInt64} {tx : BridgeTransaction} (hfound : m.bridges.lookup id = some tx)
      (hstatus : tx.status = .relayed)
      (hfits : m.totalBridged.toNat + tx.amount.toNat < 2 ^ 128) :
      CallEnd m (.finalize id) (.ok ())
        (dropPending
          { m.withStatus id tx .finalized with
            totalBridged := m.totalBridged + tx.amount
            processed := m.processed.insert tx.hash .finalized }
          tx.targetShard id)
  /-- The total of the amounts does not fit. -/
  | unpaid {id : UInt64} {tx : BridgeTransaction} (hfound : m.bridges.lookup id = some tx)
      (hstatus : tx.status = .relayed)
      (hfits : ¬ m.totalBridged.toNat + tx.amount.toNat < 2 ^ 128) :
      CallEnd m (.finalize id) .panic (m.withStatus id tx .finalized)
  | reverting {id : UInt64} {tx : BridgeTransaction} (hfound : m.bridges.lookup id = some tx)
      (hstatus : tx.status ≠ .finalized) :
      CallEnd m (.revert id) (.ok ()) (m.withStatus id tx .reverting)
  | reverted {id : UInt64} {tx : BridgeTransaction} (hfound : m.bridges.lookup id = some tx)
      (hfits : m.totalFailed.toNat + 1 < 2 ^ 64) :
      CallEnd m (.markReverted id) (.ok ())
        (dropEverywhere
          { m.withStatus id tx .reverted with totalFailed := m.totalFailed + 1 } id)
  /-- The count of the failed bridges does not fit. -/
  | uncounted {id : UInt64} {tx : BridgeTransaction} (hfound : m.bridges.lookup id = some tx)
      (hfits : ¬ m.totalFailed.toNat + 1 < 2 ^ 64) :
      CallEnd m (.markReverted id) .panic (m.withStatus id tx .reverted)

/-- Looking a bridge up. -/
theorem found_run (id : UInt64) (m : BridgeManager) :
    (m.bridges.lookup id = none ∧ found id m = (.err (.bridgeNotFound id), m)) ∨
      ∃ tx, m.bridges.lookup id = some tx ∧ found id m = (.ok tx, m) := by
  unfold found
  rw [run_bind, run_get]
  dsimp only
  cases hlookup : m.bridges.lookup id with
  | none => exact Or.inl ⟨rfl, rfl⟩
  | some tx => exact Or.inr ⟨tx, rfl, rfl⟩

/-- Looking a bridge up that must have a status. -/
theorem foundIn_run (id : UInt64) (expected : BridgeStatus) (m : BridgeManager) :
    (∃ e, foundIn id expected m = (.err e, m)) ∨
      ∃ tx, m.bridges.lookup id = some tx ∧ tx.status = expected ∧
        foundIn id expected m = (.ok tx, m) := by
  unfold foundIn
  rcases found_run id m with ⟨-, hrun⟩ | ⟨tx, hlookup, hrun⟩
  · exact Or.inl ⟨_, run_bind_of_err hrun⟩
  · rw [run_bind_of_ok hrun]
    by_cases hstatus : tx.status = expected
    · exact Or.inr ⟨tx, hlookup, hstatus, congrFun (if_neg (not_not.mpr hstatus)) m⟩
    · exact Or.inl ⟨_, congrFun (if_pos hstatus) m⟩

theorem initiateBridge_ends (m : BridgeManager) (sender recipient : Address) (amount : U128)
    (source target : ShardId) (now : Timestamp) :
    CallEnd m (.initiate sender recipient amount source target now)
      ((BridgeCall.initiate sender recipient amount source target now).run m).1
      ((BridgeCall.initiate sender recipient amount source target now).run m).2 := by
  change Post (initiateBridge sender recipient amount source target now >>= fun _ => pure ()) m
    (CallEnd m (.initiate sender recipient amount source target now))
  rw [post_bind, initiateBridge, post_ite]
  refine ⟨fun _ => .failed _ _ trivial, fun hamount => ?_⟩
  rw [post_ite]
  refine ⟨fun _ => .failed _ _ trivial, fun hshards => ?_⟩
  rw [post_bind, post_get]
  dsimp only
  rw [post_bind, post_addU64]
  refine ⟨fun hfits => ?_, fun _ => .exhausted⟩
  dsimp only
  rw [post_bind, post_modify]
  dsimp only
  rw [post_bind, BridgeTransaction.new, post_bind, post_addU64]
  refine ⟨fun _ => ?_, fun _ => .endless hfits⟩
  exact .initiated (BitVec.not_lt.mp hamount) hshards hfits

theorem finalizeBridge_ends (m : BridgeManager) (id : UInt64) :
    CallEnd m (.finalize id) (finalizeBridge id m).1 (finalizeBridge id m).2 := by
  rcases foundIn_run id .relayed m with ⟨e, hrun⟩ | ⟨tx, hfound, hstatus, hrun⟩
  · rw [finalizeBridge, run_bind_of_err hrun]
    exact .failed _ _ trivial
  · rw [finalizeBridge, run_bind_of_ok hrun]
    change Post (_ >>= fun _ => _) m (CallEnd m (.finalize id))
    rw [post_bind, post_modify]
    dsimp only
    rw [post_bind, post_get]
    dsimp only
    rw [post_bind, post_addU128]
    exact ⟨fun hfits => .finalized hfound hstatus hfits, fun hfits => .unpaid hfound hstatus hfits⟩

theorem markReverted_ends (m : BridgeManager) (id : UInt64) :
    CallEnd m (.markReverted id) (markReverted id m).1 (markReverted id m).2 := by
  rcases found_run id m with ⟨hnone, hrun⟩ | ⟨tx, hfound, hrun⟩
  · rw [markReverted, run_bind_of_err hrun]
    exact .failed _ _ hnone
  · rw [markReverted, run_bind_of_ok hrun]
    change Post (_ >>= fun _ => _) m (CallEnd m (.markReverted id))
    rw [post_bind, post_modify]
    dsimp only
    rw [post_bind, post_get]
    dsimp only
    rw [post_bind, post_addU64]
    exact ⟨fun hfits => .reverted hfound hfits, fun hfits => .uncounted hfound hfits⟩

/-- **Every call ends in one of the listed ways.** -/
theorem call_ends (m : BridgeManager) (c : BridgeCall) : CallEnd m c (c.run m).1 (c.run m).2 := by
  cases c with
  | initiate sender recipient amount source target now =>
      exact initiateBridge_ends m sender recipient amount source target now
  | lock id =>
      change CallEnd m (.lock id) (lockBridge id m).1 (lockBridge id m).2
      rcases foundIn_run id .pending m with ⟨e, hrun⟩ | ⟨tx, hfound, hstatus, hrun⟩
      · rw [lockBridge, run_bind_of_err hrun]
        exact .failed _ _ trivial
      · rw [lockBridge, run_bind_of_ok hrun]
        exact .locked hfound hstatus
  | relay id =>
      change CallEnd m (.relay id) (relayBridge id m).1 (relayBridge id m).2
      rcases foundIn_run id .locked m with ⟨e, hrun⟩ | ⟨tx, hfound, hstatus, hrun⟩
      · rw [relayBridge, run_bind_of_err hrun]
        exact .failed _ _ trivial
      · rw [relayBridge, run_bind_of_ok hrun]
        exact .relayed hfound hstatus
  | finalize id => exact finalizeBridge_ends m id
  | revert id =>
      change CallEnd m (.revert id) (revertBridge id m).1 (revertBridge id m).2
      rcases found_run id m with ⟨hnone, hrun⟩ | ⟨tx, hfound, hrun⟩
      · rw [revertBridge, run_bind_of_err hrun]
        refine .failed _ _ fun tx hlookup => ?_
        rw [hnone] at hlookup
        cases hlookup
      · rw [revertBridge, run_bind_of_ok hrun]
        by_cases hstatus : tx.status = .finalized
        · rw [if_pos hstatus]
          refine .failed _ _ fun tx' hlookup => ?_
          rw [hfound] at hlookup
          rw [← Option.some.inj hlookup]
          exact hstatus
        · rw [if_neg hstatus]
          exact .reverting hfound hstatus
  | markReverted id => exact markReverted_ends m id

end BridgeManager
