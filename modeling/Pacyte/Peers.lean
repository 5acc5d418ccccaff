/-
# Connected peers

`PeerManager` of `src/network/peer.rs`: the peers by their ids, the ids by the addresses, the next
id, and the addresses that are banned for a time.

The two maps stay inverse to each other in every run, no id is given out twice, and an address that
is banned has no peer (`peer_tables_consistent`).

* An address is anything with a text, an IP text and a port (`SocketAddress`).
* An `Instant` is a number of nanoseconds, and every call gets the one it reads; adding a duration
  panics past the last instant there is.
* The `stats` of a peer but `connected_at` are not changed here, and are left out.
-/
import Pacyte.Grouping
import Pacyte.Runs
import Pacyte.WireMessages

open Exec

/-- What the peers take from `SocketAddr`. -/
class SocketAddress (α : Type) where
  ip : α → String
  port : α → UInt16
  text : α → String

/-- `Instant`, in nanoseconds. -/
abbrev Instant := ℕ

/-- The last `Instant`: 64 bits with a sign for the seconds. -/
def Instant.last : Instant := 2 ^ 63 * 10 ^ 9 - 1

/-- The number of an unbounded channel. -/
abbrev ChannelId := ℕ

/-- `PeerConnection`: the channels of the two ends that it holds. -/
structure PeerConnection where
  sender : ChannelId
  receiver : ChannelId
  deriving DecidableEq, Repr

/-- `PeerState`. -/
inductive PeerState : Type where
  | connecting
  | handshaking
  | connected
  | disconnected
  | banned
  deriving DecidableEq, Repr

/-- `Peer`. -/
structure Peer (α : Type) where
  id : UInt64
  address : α
  info : PeerInfo
  connection : PeerConnection
  state : PeerState
  connectedAt : Option Instant
  deriving DecidableEq, Repr

/-- `Peer::new`, with the two readings of the clock. -/
def Peer.new {α : Type} [SocketAddress α] (id : UInt64) (address : α) (connection : PeerConnection)
    (connectedSince lastSeen : Timestamp) : Peer α where
  id := id
  address := address
  info := ⟨id, SocketAddress.ip address, SocketAddress.port address, 0, zero32, [], connectedSince,
    lastSeen, 0⟩
  connection := connection
  state := .connecting
  connectedAt := none

/-- `PeerManager`. -/
structure PeerManager (α : Type) [DecidableEq α] where
  peers : Map UInt64 (Peer α)
  addressToId : Map α UInt64
  nextPeerId : UInt64
  maxPeers : ℕ
  bannedPeers : Map α Instant

namespace PeerManager

variable {α : Type} [DecidableEq α]

/-! ## The calls -/

/-- `PeerManager::new`. -/
def new (maxPeers : ℕ) : PeerManager α := ⟨∅, ∅, 1, maxPeers, ∅⟩

/-- `is_banned`. -/
def isBanned (pm : PeerManager α) (now : Instant) (address : α) : Bool :=
  match pm.bannedPeers.lookup address with
  | some «until» => decide (now < «until»)
  | none => false

/-- `peer_count`. -/
def peerCount (pm : PeerManager α) : ℕ := pm.peers.entries.length

/-- `add_peer`. -/
def addPeer [SocketAddress α] (now : Instant) (connectedSince lastSeen : Timestamp) (address : α)
    (connection : PeerConnection) : Exec PacyteError (PeerManager α) UInt64 := do
  let pm ← Exec.get
  if pm.isBanned now address then
    Exec.throw (.peerBanned (SocketAddress.text address))
  else if (pm.addressToId.lookup address).isSome then
    Exec.throw (.peerAlreadyConnected (SocketAddress.text address))
  else if pm.maxPeers ≤ pm.peerCount then
    Exec.throw (.maxPeersReached pm.maxPeers)
  else do
    let next ← Exec.addU64 pm.nextPeerId 1
    Exec.modify fun pm => { pm with nextPeerId := next }
    Exec.modify fun s => { s with
      peers := s.peers.insert pm.nextPeerId
        (Peer.new pm.nextPeerId address connection connectedSince lastSeen) }
    Exec.modify fun s => { s with addressToId := s.addressToId.insert address pm.nextPeerId }
    return pm.nextPeerId

/-- `remove_peer`. -/
def removePeer (id : UInt64) (pm : PeerManager α) : Option (Peer α) × PeerManager α :=
  match pm.peers.lookup id with
  | none => (none, pm)
  | some peer => (some peer, { pm with
      peers := pm.peers.erase id
      addressToId := pm.addressToId.erase peer.address })

/-- `update_peer_state`. -/
def updatePeerState (now : Instant) (id : UInt64) (state : PeerState) :
    Exec PacyteError (PeerManager α) Unit := do
  let pm ← Exec.get
  match pm.peers.lookup id with
  | none => Exec.throw (.peerNotFound (toString id))
  | some peer =>
    Exec.modify fun s => { s with
      peers := s.peers.insert id { peer with
        state := state
        connectedAt := if state = .connected then some now else peer.connectedAt } }

/-- `ban_peer`. -/
def banPeer (now : Instant) (address : α) (duration : ℕ) : Exec PacyteError (PeerManager α) Unit :=
  if Instant.last < now + duration then Exec.abort
  else do
    Exec.modify fun pm => { pm with
      bannedPeers := pm.bannedPeers.insert address (now + duration) }
    Exec.modify fun pm =>
      match pm.addressToId.lookup address with
      | some id => (removePeer id pm).2
      | none => pm

/-- `cleanup_banned`. -/
def cleanupBanned (now : Instant) (pm : PeerManager α) : PeerManager α :=
  { pm with bannedPeers := Map.retain (fun _ «until» => decide (now < «until»)) pm.bannedPeers }

/-- A call, with the readings of the clocks. -/
inductive Call (α : Type) : Type where
  | add (now : Instant) (connectedSince lastSeen : Timestamp) (address : α)
      (connection : PeerConnection)
  | remove (now : Instant) (id : UInt64)
  | update (now : Instant) (id : UInt64) (state : PeerState)
  | ban (now : Instant) (address : α) (duration : ℕ)
  | cleanup (now : Instant)

/-- When the call is made. -/
def Call.time : Call α → Instant
  | add now _ _ _ _ => now
  | remove now _ => now
  | update now _ _ => now
  | ban now _ _ => now
  | cleanup now => now

variable [SocketAddress α]

/-- The manager after a call. -/
def Call.after (c : Call α) (pm : PeerManager α) : PeerManager α :=
  match c with
  | add now connectedSince lastSeen address connection =>
    (addPeer now connectedSince lastSeen address connection pm).2
  | remove _ id => (removePeer id pm).2
  | update now id state => (updatePeerState now id state pm).2
  | ban now address duration => (banPeer now address duration pm).2
  | cleanup now => cleanupBanned now pm

/-- The id that a call gives out. -/
def Call.issued (c : Call α) (pm : PeerManager α) : Option UInt64 :=
  match c with
  | add now connectedSince lastSeen address connection =>
    match (addPeer now connectedSince lastSeen address connection pm).1 with
    | .ok id => some id
    | _ => none
  | _ => none

/-- The ids that are given out in a run. -/
def issuedIn : PeerManager α → List (Call α) → List UInt64
  | _, [] => []
  | pm, c :: rest => (c.issued pm).toList ++ issuedIn (c.after pm) rest

/-! ## The tables -/

/-- The tables at an instant. -/
structure Consistent (pm : PeerManager α) (now : Instant) : Prop where
  idOf : ∀ id peer, pm.peers.lookup id = some peer →
    peer.id = id ∧ pm.addressToId.lookup peer.address = some id
  peerOf : ∀ address id, pm.addressToId.lookup address = some id →
    ∃ peer, pm.peers.lookup id = some peer ∧ peer.address = address
  bounded : pm.peerCount ≤ pm.maxPeers
  fresh : ∀ id ∈ pm.peers, id < pm.nextPeerId
  unbanned : ∀ address, pm.isBanned now address = true → pm.addressToId.lookup address = none

omit [SocketAddress α] in
theorem isBanned_iff {pm : PeerManager α} {now : Instant} {address : α} :
    pm.isBanned now address = true ↔
      ∃ «until», pm.bannedPeers.lookup address = some «until» ∧ now < «until» := by
  unfold isBanned
  cases pm.bannedPeers.lookup address with
  | none => exact iff_of_false Bool.false_ne_true fun ⟨_, h, _⟩ => nomatch h
  | some «until» =>
      rw [decide_eq_true_eq]
      exact ⟨fun h => ⟨_, rfl, h⟩, fun ⟨_, heq, h⟩ => Option.some.inj heq ▸ h⟩

omit [SocketAddress α] in
theorem consistent_new (maxPeers : ℕ) (now : Instant) :
    Consistent (new maxPeers : PeerManager α) now where
  idOf _ _ h := by cases h
  peerOf _ _ h := by cases h
  bounded := Nat.zero_le _
  fresh _ h := absurd h (AList.notMem_empty _)
  unbanned _ _ := rfl

omit [SocketAddress α] in
/-- Bans only run out. -/
theorem Consistent.later {pm : PeerManager α} {now now' : Instant} (h : Consistent pm now)
    (hle : now ≤ now') : Consistent pm now' := by
  refine ⟨h.idOf, h.peerOf, h.bounded, h.fresh, fun address hbanned => h.unbanned address ?_⟩
  obtain ⟨«until», hlookup, hlt⟩ := isBanned_iff.mp hbanned
  exact isBanned_iff.mpr ⟨_, hlookup, hle.trans_lt hlt⟩

/-! ## Single calls -/

/-- **What `add_peer` does**: it refuses and leaves the manager as it is, or it enters a new peer
under the next id. -/
theorem addPeer_cases (now : Instant) (connectedSince lastSeen : Timestamp) (address : α)
    (connection : PeerConnection) (pm : PeerManager α) :
    ((∀ id, (addPeer now connectedSince lastSeen address connection pm).1 ≠ .ok id) ∧
        (addPeer now connectedSince lastSeen address connection pm).2 = pm) ∨
      (pm.isBanned now address = false ∧ pm.addressToId.lookup address = none ∧
        pm.peerCount < pm.maxPeers ∧ (pm.nextPeerId + 1).toNat = pm.nextPeerId.toNat + 1 ∧
        addPeer now connectedSince lastSeen address connection pm = (.ok pm.nextPeerId, { pm with
          nextPeerId := pm.nextPeerId + 1
          peers := pm.peers.insert pm.nextPeerId
            (Peer.new pm.nextPeerId address connection connectedSince lastSeen)
          addressToId := pm.addressToId.insert address pm.nextPeerId })) := by
  unfold addPeer
  rw [run_bind, run_get]
  dsimp only
  cases hbanned : pm.isBanned now address with
  | true => exact Or.inl ⟨fun id h => (nomatch h), rfl⟩
  | false =>
      rw [if_neg Bool.false_ne_true]
      cases hknown : pm.addressToId.lookup address with
      | some id => exact Or.inl ⟨fun id h => (nomatch h), rfl⟩
      | none =>
          rw [Option.isSome_none, if_neg Bool.false_ne_true]
          by_cases hfull : pm.maxPeers ≤ pm.peerCount
          · rw [if_pos hfull]
            exact Or.inl ⟨fun id h => (nomatch h), rfl⟩
          rw [if_neg hfull, run_bind]
          by_cases hfits : pm.nextPeerId.toNat + (1 : UInt64).toNat < 2 ^ 64
          · have hadd : (addU64 pm.nextPeerId 1 : Exec PacyteError (PeerManager α) UInt64) pm =
                (.ok (pm.nextPeerId + 1), pm) := congrFun (if_pos hfits) pm
            rw [hadd]
            exact Or.inr ⟨rfl, rfl, Nat.not_le.mp hfull, toNat_add_of_fits hfits, rfl⟩
          · have hadd : (addU64 pm.nextPeerId 1 : Exec PacyteError (PeerManager α) UInt64) pm =
                (.panic, pm) := congrFun (if_neg hfits) pm
            rw [hadd]
            exact Or.inl ⟨fun id h => (nomatch h), rfl⟩

omit [SocketAddress α] in
theorem length_entries_erase {ν κ : Type} [DecidableEq κ] (m : Map κ ν) {k : κ} {v : ν}
    (h : m.lookup k = some v) : m.entries.length = (m.erase k).entries.length + 1 := by
  rw [← Map.length_toPairs, (Map.toPairs_erase m h).length_eq, List.length_cons,
    Map.length_toPairs]

omit [SocketAddress α] in
theorem length_entries_insert {ν κ : Type} [DecidableEq κ] (m : Map κ ν) (k : κ) (v : ν) :
    (m.insert k v).entries.length = (m.erase k).entries.length + 1 := by
  rw [AList.entries_insert]
  rfl

/-- A new peer keeps the tables. -/
theorem Consistent.add {pm : PeerManager α} {now : Instant} (h : Consistent pm now)
    (connectedSince lastSeen : Timestamp) (address : α) (connection : PeerConnection) :
    Consistent (addPeer now connectedSince lastSeen address connection pm).2 now := by
  rcases addPeer_cases now connectedSince lastSeen address connection pm with ⟨-, hsame⟩ |
    ⟨hbanned, hunknown, hroom, hnext, hrun⟩
  · rw [hsame]
    exact h
  rw [hrun]
  have hfresh : pm.peers.lookup pm.nextPeerId = none := by
    rw [AList.lookup_eq_none]
    intro hmem
    exact UInt64.lt_irrefl _ (h.fresh _ hmem)
  refine ⟨fun id peer hlookup => ?_, fun a id hlookup => ?_, ?_, fun id hmem => ?_,
    fun a hban => ?_⟩
  · rcases (Map.lookup_insert_some _).mp hlookup with ⟨rfl, rfl⟩ | ⟨hne, hold⟩
    · exact ⟨rfl, AList.lookup_insert _⟩
    · obtain ⟨hid, haddress⟩ := h.idOf id peer hold
      refine ⟨hid, ?_⟩
      have hother : peer.address ≠ address := by
        rintro heq
        rw [heq, hunknown] at haddress
        cases haddress
      exact (AList.lookup_insert_ne hother).trans haddress
  · rcases (Map.lookup_insert_some _).mp hlookup with ⟨rfl, rfl⟩ | ⟨hne, hold⟩
    · exact ⟨_, AList.lookup_insert _, rfl⟩
    · obtain ⟨peer, hpeer, haddress⟩ := h.peerOf a id hold
      refine ⟨peer, (AList.lookup_insert_ne ?_).trans hpeer, haddress⟩
      rintro rfl
      rw [hfresh] at hpeer
      cases hpeer
  · have hlength : (pm.peers.insert pm.nextPeerId (Peer.new pm.nextPeerId address connection
        connectedSince lastSeen)).entries.length = pm.peers.entries.length + 1 := by
      rw [← Map.length_toPairs, Map.toPairs_insert _ _ hfresh, List.length_cons,
        Map.length_toPairs]
    show (pm.peers.insert pm.nextPeerId _).entries.length ≤ pm.maxPeers
    rw [hlength]
    exact hroom
  · show id < pm.nextPeerId + 1
    rw [UInt64.lt_iff_toNat_lt, hnext]
    rcases AList.mem_insert _ |>.mp hmem with rfl | hold
    · exact Nat.lt_succ_self _
    · exact (UInt64.lt_iff_toNat_lt.mp (h.fresh id hold)).trans (Nat.lt_succ_self _)
  · have hne : a ≠ address := by
      rintro rfl
      rw [show pm.isBanned now a = true from hban] at hbanned
      cases hbanned
    exact (AList.lookup_insert_ne hne).trans (h.unbanned a hban)

omit [SocketAddress α] in
/-- A peer that goes leaves the tables of the others. -/
theorem Consistent.remove {pm : PeerManager α} {now : Instant} (h : Consistent pm now)
    (id : UInt64) : Consistent (removePeer id pm).2 now := by
  unfold removePeer
  cases hpeer : pm.peers.lookup id with
  | none => exact h
  | some peer =>
      obtain ⟨-, haddress⟩ := h.idOf id peer hpeer
      refine ⟨fun id' peer' hlookup => ?_, fun a id' hlookup => ?_, ?_, fun id' hmem => ?_,
        fun a hban => ?_⟩
      · obtain ⟨hne, hold⟩ := (Map.lookup_erase_some _).mp hlookup
        obtain ⟨hid, haddress'⟩ := h.idOf id' peer' hold
        refine ⟨hid, (Map.lookup_erase_some _).mpr ⟨fun heq => hne ?_, haddress'⟩⟩
        rw [heq, haddress] at haddress'
        exact (Option.some.inj haddress').symm
      · obtain ⟨hne, hold⟩ := (Map.lookup_erase_some _).mp hlookup
        obtain ⟨peer', hpeer', haddress'⟩ := h.peerOf a id' hold
        refine ⟨peer', (Map.lookup_erase_some _).mpr ⟨?_, hpeer'⟩, haddress'⟩
        rintro rfl
        rw [hpeer] at hpeer'
        exact hne (by rw [← haddress', Option.some.inj hpeer'])
      · have hlength := length_entries_erase pm.peers hpeer
        have hbounded : pm.peers.entries.length ≤ pm.maxPeers := h.bounded
        show (pm.peers.erase id).entries.length ≤ pm.maxPeers
        omega
      · exact h.fresh id' (AList.mem_erase.mp hmem).2
      · have hnone := h.unbanned a hban
        show (pm.addressToId.erase peer.address).lookup a = none
        by_cases heq : a = peer.address
        · rw [heq, AList.lookup_erase]
        · rw [AList.lookup_erase_ne heq, hnone]

omit [SocketAddress α] in
/-- A new state of a peer keeps the tables. -/
theorem Consistent.update {pm : PeerManager α} {now : Instant} (h : Consistent pm now)
    (time : Instant) (id : UInt64) (state : PeerState) :
    Consistent (updatePeerState time id state pm).2 now := by
  unfold updatePeerState
  rw [run_bind, run_get]
  dsimp only
  cases hpeer : pm.peers.lookup id with
  | none => exact h
  | some peer =>
      dsimp only
      rw [run_modify]
      obtain ⟨hid, haddress⟩ := h.idOf id peer hpeer
      refine ⟨fun id' peer' hlookup => ?_, fun a id' hlookup => ?_, ?_, fun id' hmem => ?_,
        h.unbanned⟩
      · rcases (Map.lookup_insert_some _).mp hlookup with ⟨rfl, rfl⟩ | ⟨-, hold⟩
        · exact ⟨hid, haddress⟩
        · exact h.idOf id' peer' hold
      · obtain ⟨peer', hpeer', haddress'⟩ := h.peerOf a id' hlookup
        by_cases heq : id' = id
        · subst heq
          rw [hpeer] at hpeer'
          obtain rfl := Option.some.inj hpeer'
          exact ⟨_, AList.lookup_insert _, haddress'⟩
        · exact ⟨peer', (AList.lookup_insert_ne heq).trans hpeer', haddress'⟩
      · have hbounded : pm.peers.entries.length ≤ pm.maxPeers := h.bounded
        show (pm.peers.insert id _).entries.length ≤ pm.maxPeers
        rw [length_entries_insert, ← length_entries_erase pm.peers hpeer]
        exact hbounded
      · rcases AList.mem_insert _ |>.mp hmem with rfl | hold
        · exact h.fresh id' (AList.lookup_isSome.mp (by rw [hpeer]; rfl))
        · exact h.fresh id' hold

omit [SocketAddress α] in
/-- A ban keeps the tables: the address loses its peer. -/
theorem Consistent.ban {pm : PeerManager α} {now : Instant} (h : Consistent pm now) (time : Instant)
    (address : α) (duration : ℕ) : Consistent (banPeer time address duration pm).2 now := by
  unfold banPeer
  by_cases hlong : Instant.last < time + duration
  · rw [if_pos hlong]
    exact h
  rw [if_neg hlong, run_bind, run_modify]
  dsimp only
  rw [run_modify]
  -- all but the bans is as before, and the one new ban is of the address
  have hbanned : ∀ pm' : PeerManager α, Consistent { pm' with bannedPeers := pm.bannedPeers } now →
      pm'.bannedPeers = pm.bannedPeers.insert address (time + duration) →
      pm'.addressToId.lookup address = none → Consistent pm' now := by
    intro pm' hpm' hbans hnone
    refine ⟨hpm'.idOf, hpm'.peerOf, hpm'.bounded, hpm'.fresh, fun a hban => ?_⟩
    by_cases heq : a = address
    · rw [heq, hnone]
    · refine hpm'.unbanned a ?_
      obtain ⟨«until», hlookup, hlt⟩ := isBanned_iff.mp hban
      rw [hbans, AList.lookup_insert_ne heq] at hlookup
      exact isBanned_iff.mpr ⟨«until», hlookup, hlt⟩
  dsimp only
  cases hid : pm.addressToId.lookup address with
  | none => exact hbanned _ h rfl hid
  | some id =>
      dsimp only
      obtain ⟨peer, hpeer, haddress⟩ := h.peerOf address id hid
      have hremoved := h.remove id
      unfold removePeer at hremoved ⊢
      dsimp only at hremoved ⊢
      rw [hpeer] at hremoved ⊢
      refine hbanned _ hremoved rfl ?_
      rw [← haddress]
      exact AList.lookup_erase _ _

omit [SocketAddress α] in
/-- The bans that are over may go. -/
theorem Consistent.cleanup {pm : PeerManager α} {now : Instant} (h : Consistent pm now)
    (time : Instant) : Consistent (cleanupBanned time pm) now := by
  refine ⟨h.idOf, h.peerOf, h.bounded, h.fresh, fun a hban => h.unbanned a ?_⟩
  obtain ⟨«until», hlookup, hlt⟩ := isBanned_iff.mp hban
  exact isBanned_iff.mpr ⟨«until», ((Map.lookup_retain_some _ _).mp hlookup).1, hlt⟩

/-- Every call keeps the tables. -/
theorem Consistent.call {pm : PeerManager α} (c : Call α) (h : Consistent pm c.time) :
    Consistent (c.after pm) c.time := by
  cases c with
  | add now connectedSince lastSeen address connection =>
      exact h.add connectedSince lastSeen address connection
  | remove now id => exact h.remove id
  | update now id state => exact h.update now id state
  | ban now address duration => exact h.ban now address duration
  | cleanup now => exact h.cleanup now

/-! ## Runs -/

/-- The calls come one after the other. -/
def InOrder (start : Instant) (calls : List (Call α)) : Prop :=
  (∀ c ∈ calls, start ≤ c.time) ∧ calls.Pairwise fun c c' => c.time ≤ c'.time

/-- Every run keeps the tables. -/
theorem Consistent.run {pm : PeerManager α} {start : Instant} (h : Consistent pm start)
    {calls : List (Call α)} (horder : InOrder start calls) {now : Instant} (hstart : start ≤ now)
    (hnow : ∀ c ∈ calls, c.time ≤ now) : Consistent (Runs.run Call.after pm calls) now := by
  induction calls generalizing pm start with
  | nil => exact h.later hstart
  | cons c rest ih =>
      obtain ⟨hafter, hpairwise⟩ := horder
      rw [List.pairwise_cons] at hpairwise
      have hstep := (h.later (hafter c List.mem_cons_self)).call c
      exact ih hstep ⟨hpairwise.1, hpairwise.2⟩ (hnow c List.mem_cons_self) fun c' hc' =>
        hnow c' (List.mem_cons_of_mem _ hc')

/-- A call gives out the next id or none, and the next id does not go back. -/
theorem Call.next_le (c : Call α) (pm : PeerManager α) :
    pm.nextPeerId ≤ (c.after pm).nextPeerId ∧ ∀ id ∈ c.issued pm,
      id = pm.nextPeerId ∧ id < (c.after pm).nextPeerId := by
  have hsame : ∀ pm' : PeerManager α, pm'.nextPeerId = pm.nextPeerId →
      pm.nextPeerId ≤ pm'.nextPeerId := fun pm' h => h ▸ UInt64.le_refl _
  have hremove : ∀ id (pm : PeerManager α), (removePeer id pm).2.nextPeerId = pm.nextPeerId := by
    intro id pm
    unfold removePeer
    cases pm.peers.lookup id <;> rfl
  cases c with
  | add now connectedSince lastSeen address connection =>
      unfold Call.after Call.issued
      dsimp only
      rcases addPeer_cases now connectedSince lastSeen address connection pm with ⟨hno, hpm⟩ |
        ⟨-, -, -, hnext, hrun⟩
      · rw [hpm]
        refine ⟨UInt64.le_refl _, fun id hid => ?_⟩
        cases ho : (addPeer now connectedSince lastSeen address connection pm).1 with
        | ok id' => exact absurd ho (hno id')
        | err e => rw [ho] at hid; cases hid
        | panic => rw [ho] at hid; cases hid
      · rw [hrun]
        have hlt : pm.nextPeerId < pm.nextPeerId + 1 := by
          rw [UInt64.lt_iff_toNat_lt, hnext]
          exact Nat.lt_succ_self _
        refine ⟨UInt64.le_of_lt hlt, fun id hid => ?_⟩
        obtain rfl := Option.some.inj hid
        exact ⟨rfl, hlt⟩
  | remove now id => exact ⟨hsame _ (hremove id pm), fun _ hid => nomatch hid⟩
  | update now id state =>
      refine ⟨hsame _ ?_, fun _ hid => nomatch hid⟩
      unfold Call.after updatePeerState
      dsimp only
      rw [run_bind, run_get]
      dsimp only
      cases pm.peers.lookup id <;> rfl
  | ban now address duration =>
      refine ⟨hsame _ ?_, fun _ hid => nomatch hid⟩
      unfold Call.after banPeer
      dsimp only
      split_ifs
      · rfl
      · rw [run_bind, run_modify]
        dsimp only
        rw [run_modify]
        dsimp only
        cases pm.addressToId.lookup address with
        | none => rfl
        | some id => exact hremove id _
  | cleanup now => exact ⟨UInt64.le_refl _, fun _ hid => nomatch hid⟩

/-- The ids of a run are given out in ascending order. -/
theorem issuedIn_sorted (pm : PeerManager α) (calls : List (Call α)) :
    (∀ id ∈ issuedIn pm calls, pm.nextPeerId ≤ id) ∧ (issuedIn pm calls).Pairwise (· < ·) := by
  induction calls generalizing pm with
  | nil => exact ⟨fun _ hid => (nomatch hid), List.Pairwise.nil⟩
  | cons c rest ih =>
      obtain ⟨hle, hissued⟩ := c.next_le pm
      obtain ⟨hrest, hsorted⟩ := ih (c.after pm)
      rw [issuedIn]
      refine ⟨fun id hid => ?_, ?_⟩
      · rcases List.mem_append.mp hid with hnow | hlater
        · rw [(hissued id (Option.mem_toList.mp hnow)).1]
          exact UInt64.le_refl _
        · exact UInt64.le_trans hle (hrest id hlater)
      · rw [List.pairwise_append]
        refine ⟨?_, hsorted, fun id hid id' hid' => ?_⟩
        · cases c.issued pm with
          | none => exact List.Pairwise.nil
          | some id => exact List.pairwise_singleton _ _
        · exact UInt64.lt_of_lt_of_le (hissued id (Option.mem_toList.mp hid)).2 (hrest id' hid')

/-- **The tables of the peers**: after every run of calls from a new manager they are inverse to
each other, within the bound, and without a banned address; no id is given out twice; and a call of
`add_peer` that returns an error changes nothing. -/
theorem peer_tables_consistent (maxPeers : ℕ) {start : Instant} {calls : List (Call α)}
    (horder : InOrder start calls) :
    (∀ now, start ≤ now → (∀ c ∈ calls, c.time ≤ now) →
      Consistent (Runs.run Call.after (new maxPeers) calls) now) ∧
    (issuedIn (new maxPeers) calls).Pairwise (· < ·) ∧
    ∀ now connectedSince lastSeen address connection e (pm : PeerManager α),
      (addPeer now connectedSince lastSeen address connection pm).1 = .err e →
        (addPeer now connectedSince lastSeen address connection pm).2 = pm := by
  refine ⟨fun now hstart hnow => (consistent_new maxPeers start).run horder hstart hnow,
    (issuedIn_sorted _ calls).2, ?_⟩
  intro now connectedSince lastSeen address connection e pm herr
  rcases addPeer_cases now connectedSince lastSeen address connection pm with ⟨-, hsame⟩ |
    ⟨-, -, -, -, hrun⟩
  · exact hsame
  · rw [hrun] at herr
    cases herr

end PeerManager

/-! ## A banned peer -/

section Example

open PeerManager

namespace Sample

scoped instance portAddress : SocketAddress UInt16 where
  ip _ := "1"
  port p := p
  text p := toString p

/-- An address connects, is banned, is refused, and comes back when the ban is over. -/
def banAndReturn : List (PeerManager.Call UInt16) :=
  [.add 1 5 5 9333 ⟨0, 0⟩, .ban 2 9333 10, .add 3 5 5 9333 ⟨1, 1⟩, .cleanup 20,
    .add 21 6 6 9333 ⟨2, 2⟩]

end Sample

open scoped Sample

theorem banAndReturn_consistent :
    (∀ now, 0 ≤ now → (∀ c ∈ Sample.banAndReturn, c.time ≤ now) →
      Consistent (Runs.run Call.after (new 2) Sample.banAndReturn) now) ∧
    (issuedIn (new 2) Sample.banAndReturn).Pairwise (· < ·) ∧
    ∀ now connectedSince lastSeen (address : UInt16) connection e pm,
      (addPeer now connectedSince lastSeen address connection pm).1 = .err e →
        (addPeer now connectedSince lastSeen address connection pm).2 = pm :=
  peer_tables_consistent 2 (show InOrder 0 Sample.banAndReturn from
    ⟨fun _ _ => Nat.zero_le _, by decide⟩)

end Example
