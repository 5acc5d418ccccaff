/-
# Queues of messages to peers

`send_to` and `broadcast` of `src/network/p2p.rs`, with the channels that `handle_connection` makes
for a peer and the copies of a peer that `get_peer` returns.

A connection has two channels: `handle_connection` keeps the receiver of the first, which it drains,
and the manager gets the sender of the first with the receiver of the second.  `get_peer` does not
return that sender but the one of a channel made for the copy.  So whatever `send_to` sends goes to
a channel that nobody drains (`sendTo_queues`), and it returns `Ok` because the copy itself holds the
receiver.

Channels have numbers.  A queue holds everything that was ever sent to its channel.
-/
import Pacyte.Peers

/-- The peers, the channels, and the channel that the task of each peer drains. -/
structure PeerQueues (α : Type) [DecidableEq α] where
  manager : PeerManager α
  queues : ChannelId → List WireMessage
  /-- The receiver has been dropped. -/
  closed : ChannelId → Bool
  drains : UInt64 → Option ChannelId
  nextChannel : ChannelId
  drains_lt : ∀ id c, drains id = some c → c < nextChannel
  fresh : ∀ c, nextChannel ≤ c → closed c = false

namespace PeerQueues

open PeerManager

variable {α : Type} [DecidableEq α]

/-- Before any connection. -/
def start (maxPeers : ℕ) : PeerQueues α where
  manager := PeerManager.new maxPeers
  queues _ := []
  closed _ := false
  drains _ := none
  nextChannel := 0
  drains_lt _ _ h := nomatch h
  fresh _ _ := rfl

/-! ## The calls -/

/-- `UnboundedSender::send`, which fails if the receiver has been dropped. -/
def send (channel : ChannelId) (m : WireMessage) (s : PeerQueues α) : Option (PeerQueues α) :=
  if s.closed channel then none
  else some { s with queues := Function.update s.queues channel (s.queues channel ++ [m]) }

/-- The start of `handle_connection`: two channels are made.  The receiver of the first stays with
the task, and the manager gets its sender, with the receiver of the second. -/
def setUp [SocketAddress α] (now : Instant) (connectedSince lastSeen : Timestamp) (address : α)
    (s : PeerQueues α) : PeerQueues α :=
  match addPeer now connectedSince lastSeen address ⟨s.nextChannel, s.nextChannel + 1⟩
      s.manager with
  | (.ok id, manager) => { s with
      manager := manager
      drains := Function.update s.drains id (some s.nextChannel)
      nextChannel := s.nextChannel + 2
      drains_lt := by
        intro id' c h
        by_cases hid : id' = id
        · rw [hid, Function.update_self] at h
          rw [← Option.some.inj h]
          exact Nat.lt_add_of_pos_right (Nat.succ_pos 1)
        · rw [Function.update_of_ne hid] at h
          exact (s.drains_lt id' c h).trans (Nat.lt_add_of_pos_right (Nat.succ_pos 1))
      fresh := fun c h => s.fresh c (Nat.le_of_add_right_le h) }
  | (_, manager) => { s with
      manager := manager
      nextChannel := s.nextChannel + 2
      drains_lt := fun id c h => (s.drains_lt id c h).trans (Nat.lt_add_of_pos_right (Nat.succ_pos 1))
      fresh := fun c h => s.fresh c (Nat.le_of_add_right_le h) }

/-- The end of `handle_connection`: the peer is taken out, and the receiver is dropped. -/
def finish (id : UInt64) (s : PeerQueues α) : PeerQueues α :=
  match h : s.drains id with
  | none => s
  | some channel => { s with
      manager := (removePeer id s.manager).2
      closed := Function.update s.closed channel true
      drains := Function.update s.drains id none
      drains_lt := by
        intro id' c h'
        by_cases hid : id' = id
        · rw [hid, Function.update_self] at h'
          cases h'
        · rw [Function.update_of_ne hid] at h'
          exact s.drains_lt id' c h'
      fresh := by
        intro c hc
        have hne : c ≠ channel := (Nat.lt_of_lt_of_le (s.drains_lt id channel h) hc).ne'
        rw [Function.update_of_ne hne]
        exact s.fresh c hc }

/-- `get_peer`: a copy of the peer with a channel of its own. -/
def getPeer (id : UInt64) (s : PeerQueues α) : Option (Peer α) × PeerQueues α :=
  match s.manager.peers.lookup id with
  | none => (none, s)
  | some peer =>
      (some { peer with connection := ⟨s.nextChannel, s.nextChannel⟩, connectedAt := none },
        { s with
          nextChannel := s.nextChannel + 1
          drains_lt := fun id c h => (s.drains_lt id c h).trans (Nat.lt_succ_self _)
          fresh := fun c h => s.fresh c (Nat.le_of_add_right_le h) })

/-- `send_to`. -/
def sendTo (id : UInt64) (m : WireMessage) (s : PeerQueues α) :
    Except PacyteError Unit × PeerQueues α :=
  match s.getPeer id with
  | (none, s) => (.error (.peerNotFound (toString id)), s)
  | (some peer, s) =>
      match s.send peer.connection.sender m with
      | none => (.error (.peerNotFound (toString id)), s)
      | some s => (.ok (), s)

/-- `get_connected_peers`. -/
def connectedPeers (pm : PeerManager α) : List PeerInfo :=
  (pm.peers.toPairs.filter fun p => p.2.state = .connected).map fun p => p.2.info

/-- The loop of `broadcast`, over the connected peers in any order. -/
def broadcast (infos : List PeerInfo) (m : WireMessage) (s : PeerQueues α) : PeerQueues α :=
  infos.foldl (fun s info => (s.sendTo info.id m).2) s

/-! ## Where a message goes -/

/-- The message has reached the queue that the task of the peer drains. -/
def Reaches (id : UInt64) (m : WireMessage) (before after : PeerQueues α) : Prop :=
  ∃ c, before.drains id = some c ∧ after.queues c = before.queues c ++ [m]

/-- **A message goes to a channel that is made for it**, and `send_to` succeeds for every peer. -/
theorem sendTo_cases (id : UInt64) (m : WireMessage) (s : PeerQueues α) :
    (s.manager.peers.lookup id = none ∧ s.sendTo id m = (.error (.peerNotFound (toString id)), s)) ∨
      (∃ peer, s.manager.peers.lookup id = some peer) ∧ (s.sendTo id m).1 = .ok () ∧
        (s.sendTo id m).2.queues
          = Function.update s.queues s.nextChannel (s.queues s.nextChannel ++ [m]) ∧
        s.nextChannel ≤ (s.sendTo id m).2.nextChannel := by
  unfold sendTo getPeer
  cases hpeer : s.manager.peers.lookup id with
  | none => exact Or.inl ⟨rfl, rfl⟩
  | some peer =>
      refine Or.inr ⟨⟨peer, rfl⟩, ?_⟩
      dsimp only [send]
      rw [s.fresh s.nextChannel (Nat.le_refl _)]
      exact ⟨rfl, rfl, Nat.le_succ _⟩

/-- The queues that were there before are as they were. -/
theorem sendTo_queues (id : UInt64) (m : WireMessage) (s : PeerQueues α) {c : ChannelId}
    (hc : c < s.nextChannel) : (s.sendTo id m).2.queues c = s.queues c ∧
      c < (s.sendTo id m).2.nextChannel := by
  obtain ⟨-, hsame⟩ | ⟨-, -, hqueues, hnext⟩ := sendTo_cases id m s
  · rw [hsame]
    exact ⟨rfl, hc⟩
  · rw [hqueues, Function.update_of_ne hc.ne]
    exact ⟨rfl, hc.trans_le hnext⟩

theorem broadcast_queues (infos : List PeerInfo) (m : WireMessage) (s : PeerQueues α)
    {c : ChannelId} (hc : c < s.nextChannel) : (s.broadcast infos m).queues c = s.queues c := by
  induction infos generalizing s with
  | nil => rfl
  | cons info infos ih =>
      obtain ⟨hsame, hlt⟩ := sendTo_queues info.id m s hc
      exact (ih (s.sendTo info.id m).2 hlt).trans hsame

theorem not_reaches {id : UInt64} {m : WireMessage} {s s' : PeerQueues α}
    (h : ∀ c, c < s.nextChannel → s'.queues c = s.queues c) : ¬ Reaches id m s s' := by
  rintro ⟨c, hdrains, hqueue⟩
  rw [h c (s.drains_lt id c hdrains)] at hqueue
  have hlen := congrArg List.length hqueue
  rw [List.length_append, List.length_singleton] at hlen
  omega

/-- **When messages are delivered**: `send_to` does what its `Ok` says exactly if the peer is not
there, so that it returns an error, and `broadcast` reaches all connected peers exactly if there are
none. -/
theorem delivered_iff (m : WireMessage) (s : PeerQueues α) :
    (∀ id, ((s.sendTo id m).1 = .ok () → Reaches id m s (s.sendTo id m).2) ↔
        s.manager.peers.lookup id = none) ∧
      ∀ infos, infos.Perm (connectedPeers s.manager) →
        ((∀ id peer, s.manager.peers.lookup id = some peer → peer.state = .connected →
            Reaches id m s (s.broadcast infos m)) ↔
          ∀ id peer, s.manager.peers.lookup id = some peer → peer.state ≠ .connected) := by
  refine ⟨fun id => ?_, fun infos _ => ?_⟩
  · have hnot : ¬ Reaches id m s (s.sendTo id m).2 :=
      not_reaches fun c hc => (sendTo_queues id m s hc).1
    obtain ⟨hnone, hfails⟩ | ⟨⟨peer, hpeer⟩, hok, -⟩ := sendTo_cases id m s
    · rw [hfails]
      exact iff_of_true (fun h => nomatch h) hnone
    · refine iff_of_false (fun h => hnot (h hok)) ?_
      rw [hpeer]
      exact nofun
  · have hnot : ∀ id, ¬ Reaches id m s (s.broadcast infos m) := fun id =>
      not_reaches fun c hc => broadcast_queues infos m s hc
    constructor
    · intro h id peer hpeer hconnected
      exact hnot id (h id peer hpeer hconnected)
    · intro h id peer hpeer hconnected
      exact absurd hconnected (h id peer hpeer)

/-! ## One peer -/

section Example

open scoped Sample

/-- A connection of one address. -/
def connected : PeerQueues UInt16 := setUp 1 5 5 9333 (start 2)

/-- **`send_to` returns `Ok`, and the queue that is drained stays empty.** -/
theorem sent_and_lost :
    (connected.sendTo 1 .getPeers).1 = .ok () ∧ connected.drains 1 = some 0 ∧
      (connected.sendTo 1 .getPeers).2.queues 0 = [] :=
  ⟨rfl, rfl, rfl⟩

end Example

end PeerQueues
