/-
# The bridge vault contract

`contracts/BridgeVault.sol`, with the token as `PNXToken`: what its calls change, and when they
succeed.

A request is stored under the hash of its sender, its recipient, its amount and the timestamp of
its block (`BridgeVault.requestId`), with whatever was there before overwritten.  Up to the expiry
anybody may have it paid to the recipient, later anybody may have it paid back.  Events are left
out.
-/
import Pacyte.ContractWorld
import Pacyte.VirtualMachine

/-- `BridgeVault.BridgeRequest`. -/
structure BridgeVault.BridgeRequest where
  sender : EthAddress
  recipient : EthAddress
  amount : U256
  sourceShard : U256
  targetShard : U256
  timestamp : U256
  expiry : U256
  completed : Bool
  reverted : Bool
  deriving DecidableEq

/-- `BridgeVault`, with `address(this)` and `block.chainid` as fields. -/
structure BridgeVault where
  self : EthAddress
  chainId : U256
  pnxToken : EthAddress
  requests : Hash → BridgeVault.BridgeRequest

namespace BridgeVault

open Contract ContractWorld

/-! ## The code -/

/-- `TIMEOUT`. -/
def timeout : U256 := 60

/-- The value of an unset entry of `requests`. -/
def BridgeRequest.unset : BridgeRequest := ⟨0, 0, 0, 0, 0, 0, 0, false, false⟩

/-- The constructor. -/
def deploy (self : EthAddress) (chainId : U256) (pnxToken : EthAddress) : BridgeVault :=
  ⟨self, chainId, pnxToken, fun _ => BridgeRequest.unset⟩

/-- `abi.encodePacked(msg.sender, recipient, amount, block.timestamp)`. -/
def encodePacked (msgSender recipient : EthAddress) (amount blockTimestamp : U256) : Bytes :=
  beBytes 20 msgSender.toNat ++ beBytes 20 recipient.toNat ++ beBytes 32 amount.toNat ++
    beBytes 32 blockTimestamp.toNat

/-- The id of a request. -/
def requestId [Keccak256] (msgSender recipient : EthAddress) (amount blockTimestamp : U256) :
    Hash := Keccak256.digest (encodePacked msgSender recipient amount blockTimestamp)

/-- `requests[requestId] = request`. -/
def setRequest (requestId : Hash) (request : BridgeRequest) (c : BridgeVault) : BridgeVault :=
  { c with requests := Function.update c.requests requestId request }

/-- The world of the vault. -/
abbrev World : Type := ContractWorld BridgeVault PNXToken

/-- `initiateBridge`. -/
def initiateBridge [Keccak256] (msgSender : EthAddress) (blockTimestamp : U256)
    (recipient : EthAddress) (amount targetShard : U256) : Contract World Hash := do
  require (fun _ => 0 < amount) "Amount must be > 0"
  let contract ← read ContractWorld.contract
  let paid ← onToken (PNXToken.transferFrom contract.self msgSender contract.self amount)
  require (fun _ => paid = true) "Transfer failed"
  let expiry ← checked (checkedAdd blockTimestamp timeout)
  onContract (write (setRequest (requestId msgSender recipient amount blockTimestamp)
    { sender := msgSender
      recipient := recipient
      amount := amount
      sourceShard := contract.chainId
      targetShard := targetShard
      timestamp := blockTimestamp
      expiry := expiry
      completed := false
      reverted := false }))
  return requestId msgSender recipient amount blockTimestamp

/-- `completeBridge`. -/
def completeBridge (blockTimestamp : U256) (requestId : Hash) : Contract World Unit := do
  require (fun w => (w.contract.requests requestId).completed = false) "Already completed"
  require (fun w => (w.contract.requests requestId).reverted = false) "Already reverted"
  require (fun w => blockTimestamp ≤ (w.contract.requests requestId).expiry) "Expired"
  let contract ← read ContractWorld.contract
  let req ← read fun w => w.contract.requests requestId
  onContract (write (setRequest requestId { req with completed := true }))
  let paid ← onToken (PNXToken.transfer contract.self req.recipient req.amount)
  require (fun _ => paid = true) "Transfer failed"

/-- `revertBridge`. -/
def revertBridge (blockTimestamp : U256) (requestId : Hash) : Contract World Unit := do
  require (fun w => (w.contract.requests requestId).completed = false) "Already completed"
  require (fun w => (w.contract.requests requestId).reverted = false) "Already reverted"
  require (fun w => (w.contract.requests requestId).expiry < blockTimestamp) "Not expired yet"
  let contract ← read ContractWorld.contract
  let req ← read fun w => w.contract.requests requestId
  onContract (write (setRequest requestId { req with reverted := true }))
  let paid ← onToken (PNXToken.transfer contract.self req.sender req.amount)
  require (fun _ => paid = true) "Refund failed"

/-- The calls that change the vault. -/
inductive Call where
  | initiateBridge (recipient : EthAddress) (amount targetShard : U256)
  | completeBridge (requestId : Hash)
  | revertBridge (requestId : Hash)
  deriving DecidableEq

/-- Run a call. -/
def Call.exec [Keccak256] (msgSender : EthAddress) (blockTimestamp : U256) :
    Call → Contract World Unit
  | .initiateBridge recipient amount targetShard =>
      (BridgeVault.initiateBridge msgSender blockTimestamp recipient amount targetShard).forget
  | .completeBridge requestId => BridgeVault.completeBridge blockTimestamp requestId
  | .revertBridge requestId => BridgeVault.revertBridge blockTimestamp requestId

/-! ## When a call succeeds -/

@[simp] theorem setRequest_self (id : Hash) (request : BridgeRequest) (c : BridgeVault) :
    (setRequest id request c).requests id = request := Function.update_self _ _ _

theorem setRequest_of_ne {id id' : Hash} (h : id' ≠ id) (request : BridgeRequest)
    (c : BridgeVault) : (setRequest id request c).requests id' = c.requests id' :=
  Function.update_of_ne h _ _

/-- A new request. -/
def opened (c : BridgeVault) (msgSender recipient : EthAddress)
    (amount targetShard blockTimestamp : U256) : BridgeRequest where
  sender := msgSender
  recipient := recipient
  amount := amount
  sourceShard := c.chainId
  targetShard := targetShard
  timestamp := blockTimestamp
  expiry := blockTimestamp + timeout
  completed := false
  reverted := false

/-- The token after a deposit. -/
def deposited (w : World) (account : EthAddress) (amount : U256) : PNXToken :=
  (w.token.paid account w.contract.self amount).allowed account w.contract.self
    (w.token.allowance account w.contract.self - amount)

theorem initiateBridge_ok [Keccak256] {msgSender recipient : EthAddress}
    {t amount targetShard : U256} {id : Hash} {w w' : World} :
    initiateBridge msgSender t recipient amount targetShard w = .ok (id, w') ↔
      0 < amount ∧ amount ≤ w.token.allowance msgSender w.contract.self ∧
        w.token.Payable msgSender w.contract.self amount ∧ t.toNat + timeout.toNat < 2 ^ 256 ∧
        id = requestId msgSender recipient amount t ∧
        w' = ⟨setRequest (requestId msgSender recipient amount t)
            (w.contract.opened msgSender recipient amount targetShard t) w.contract,
          deposited w msgSender amount, w.now⟩ := by
  rw [initiateBridge, require_bind_ok, read_bind, onToken_bind_ok]
  refine and_congr_right fun _ => ?_
  constructor
  · rintro ⟨paid, token, htransfer, h⟩
    obtain ⟨hallowed, hpay, -, rfl⟩ := PNXToken.transferFrom_ok.mp htransfer
    rw [require_bind_ok, checked_bind_ok] at h
    obtain ⟨-, expiry, hadd, h⟩ := h
    obtain ⟨hfits, rfl⟩ := checkedAdd_eq_some.mp hadd
    rw [onContract_bind_ok] at h
    obtain ⟨_, c, hwrite, h⟩ := h
    obtain rfl := write_ok.mp hwrite
    obtain ⟨rfl, rfl⟩ := pure_ok.mp h
    exact ⟨hallowed, hpay, hfits, rfl, rfl⟩
  · rintro ⟨hallowed, hpay, hfits, rfl, rfl⟩
    refine ⟨true, _, PNXToken.transferFrom_ok.mpr ⟨hallowed, hpay, rfl, rfl⟩, ?_⟩
    rw [require_bind_ok, checked_bind_ok]
    refine ⟨rfl, _, checkedAdd_eq_some.mpr ⟨hfits, rfl⟩, ?_⟩
    rw [onContract_bind_ok]
    exact ⟨(), _, write_ok.mpr rfl, pure_ok.mpr ⟨rfl, rfl⟩⟩

/-- A completed request. -/
def BridgeRequest.complete (r : BridgeRequest) : BridgeRequest := { r with completed := true }

/-- A reverted request. -/
def BridgeRequest.revert (r : BridgeRequest) : BridgeRequest := { r with reverted := true }

theorem completeBridge_ok {t : U256} {id : Hash} {u : Unit} {w w' : World} :
    completeBridge t id w = .ok (u, w') ↔
      (w.contract.requests id).completed = false ∧ (w.contract.requests id).reverted = false ∧
        t ≤ (w.contract.requests id).expiry ∧ (w.contract.requests id).recipient ≠ 0 ∧
        w.token.Payable w.contract.self (w.contract.requests id).recipient
          (w.contract.requests id).amount ∧
        w' = ⟨setRequest id (w.contract.requests id).complete w.contract,
          w.token.paid w.contract.self (w.contract.requests id).recipient
            (w.contract.requests id).amount, w.now⟩ := by
  rw [completeBridge, require_bind_ok, require_bind_ok, require_bind_ok, read_bind, read_bind,
    onContract_bind_ok]
  refine and_congr_right fun _ => and_congr_right fun _ => and_congr_right fun _ => ?_
  constructor
  · rintro ⟨_, c, hwrite, h⟩
    obtain rfl := write_ok.mp hwrite
    rw [onToken_bind_ok] at h
    obtain ⟨paid, token, htransfer, h⟩ := h
    obtain ⟨hto, hpay, -, rfl⟩ := PNXToken.transfer_ok.mp htransfer
    exact ⟨hto, hpay, (require_ok.mp h).2⟩
  · rintro ⟨hto, hpay, rfl⟩
    refine ⟨(), _, write_ok.mpr rfl, ?_⟩
    rw [onToken_bind_ok]
    exact ⟨true, _, PNXToken.transfer_ok.mpr ⟨hto, hpay, rfl, rfl⟩, require_ok.mpr ⟨rfl, rfl⟩⟩

theorem revertBridge_ok {t : U256} {id : Hash} {u : Unit} {w w' : World} :
    revertBridge t id w = .ok (u, w') ↔
      (w.contract.requests id).completed = false ∧ (w.contract.requests id).reverted = false ∧
        (w.contract.requests id).expiry < t ∧ (w.contract.requests id).sender ≠ 0 ∧
        w.token.Payable w.contract.self (w.contract.requests id).sender
          (w.contract.requests id).amount ∧
        w' = ⟨setRequest id (w.contract.requests id).revert w.contract,
          w.token.paid w.contract.self (w.contract.requests id).sender
            (w.contract.requests id).amount, w.now⟩ := by
  rw [revertBridge, require_bind_ok, require_bind_ok, require_bind_ok, read_bind, read_bind,
    onContract_bind_ok]
  refine and_congr_right fun _ => and_congr_right fun _ => and_congr_right fun _ => ?_
  constructor
  · rintro ⟨_, c, hwrite, h⟩
    obtain rfl := write_ok.mp hwrite
    rw [onToken_bind_ok] at h
    obtain ⟨paid, token, htransfer, h⟩ := h
    obtain ⟨hto, hpay, -, rfl⟩ := PNXToken.transfer_ok.mp htransfer
    exact ⟨hto, hpay, (require_ok.mp h).2⟩
  · rintro ⟨hto, hpay, rfl⟩
    refine ⟨(), _, write_ok.mpr rfl, ?_⟩
    rw [onToken_bind_ok]
    exact ⟨true, _, PNXToken.transfer_ok.mpr ⟨hto, hpay, rfl, rfl⟩, require_ok.mpr ⟨rfl, rfl⟩⟩

end BridgeVault
