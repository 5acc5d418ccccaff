/-
# Connections and their peers

`handle_connection` and `perform_handshake` of `src/network/p2p.rs`, as far as they enter peers and
take them out again.  Many connections are handled at once: a step is a connection that is
accepted, the handshake of one, an event of a message loop, or a call of the manager from elsewhere.

A peer is entered before the handshake and is taken out when the message loop ends.  Every way out
of `perform_handshake` but one leaves `handle_connection` without that: the peer stays, its address
is refused from then on, and its slot is not free again (`frees_iff_careful`).  In runs in which
every handshake succeeds, or its peer has been taken out meanwhile, every peer belongs to a
connection that is still handled (`slots_freed_iff`).

The writes of the acknowledgement are left out, since their errors are ignored.
-/
import Pacyte.MessageStream
import Pacyte.Peers

open MessageCodec

/-! ## The handshake -/

/-- How the read of `perform_handshake` ends. -/
inductive HandshakeRead where
  | timeout
  | failed (error : String)
  | bytes (bytes : Bytes)
  deriving DecidableEq

/-- What the stream answers to `perform_handshake`: the errors of `write_all` and `flush`, and the
read. -/
structure HandshakeIo where
  write : Option String
  flush : Option String
  read : HandshakeRead
  deriving DecidableEq

/-- `perform_handshake`, on a node with that genesis hash. -/
def performHandshake [MessageCodec] (genesisHash : Hash) (io : HandshakeIo) :
    Except PacyteError HandshakeData :=
  match io.write, io.flush, io.read with
  | some e, _, _ => .error (.networkError e)
  | none, some e, _ => .error (.networkError e)
  | none, none, .timeout => .error .handshakeTimeout
  | none, none, .failed e => .error (.networkError e)
  | none, none, .bytes bytes =>
      if bytes.isEmpty then .error (.handshakeFailed "Connection closed")
      else
        match fromBytes bytes with
        | none => .error (.handshakeFailed "Invalid message")
        | some (.handshake theirs) =>
            if theirs.genesisHash ≠ genesisHash then .error (.handshakeFailed "Genesis mismatch")
            else .ok theirs
        | some _ => .error (.handshakeFailed "Expected Handshake")

/-- The other side sends a greeting with the same genesis hash, and nothing fails. -/
def Greets [MessageCodec] (genesisHash : Hash) (io : HandshakeIo) : Prop :=
  io.write = none ∧ io.flush = none ∧ ∃ bytes, io.read = .bytes bytes ∧ bytes ≠ [] ∧
    ∃ theirs : HandshakeData, fromBytes bytes = some (.handshake theirs) ∧
      theirs.genesisHash = genesisHash

/-- **The only way through the handshake.** -/
theorem performHandshake_ok_iff [MessageCodec] (genesisHash : Hash) (io : HandshakeIo) :
    (∃ theirs, performHandshake genesisHash io = .ok theirs) ↔ Greets genesisHash io := by
  obtain ⟨write, flush, read⟩ := io
  constructor
  · rintro ⟨theirs, h⟩
    unfold performHandshake at h
    split at h
    · cases h
    · cases h
    · cases h
    · cases h
    · rename_i bytes hwrite hflush hread
      split_ifs at h with hempty
      split at h
      · cases h
      · rename_i theirs' hdecode
        split_ifs at h with hgenesis
        refine ⟨hwrite, hflush, bytes, hread, ?_, theirs', hdecode, not_not.mp hgenesis⟩
        rintro rfl
        exact hempty rfl
      · cases h
  · rintro ⟨hwrite, hflush, bytes, hread, hne, theirs, hdecode, hgenesis⟩
    refine ⟨theirs, ?_⟩
    have hempty : ¬ bytes.isEmpty = true := by rwa [List.isEmpty_iff]
    simp only at hwrite hflush hread
    subst hwrite hflush hread
    simp only [performHandshake, hempty, hdecode, hgenesis]
    simp

/-! ## Connections -/

/-- Where the handling of a connection is. -/
inductive Phase where
  | handshaking
  | running
  deriving DecidableEq

/-- What can happen in the message loop. -/
inductive LoopEvent where
  | read (bytes : Bytes)
  | readError
  | written
  | writeError
  | shutdown
  deriving DecidableEq

/-- The loop ends: at the end of the stream, at an error, and at the shutdown.  `handle_message` has
no error. -/
def LoopEvent.ends : LoopEvent → Bool
  | read bytes => bytes.isEmpty
  | readError => true
  | written => false
  | writeError => true
  | shutdown => true

/-- The peers, and the running calls of `handle_connection` by the ids of the peers that they have
entered. -/
structure Connections (α : Type) [DecidableEq α] where
  manager : PeerManager α
  calls : Map UInt64 Phase

/-- A step of a node. -/
inductive ConnectionStep (α : Type) where
  | accept (now : Instant) (connectedSince lastSeen : Timestamp) (address : α)
      (connection : PeerConnection)
  | handshake (now : Instant) (id : UInt64) (io : HandshakeIo)
  | event (id : UInt64) (event : LoopEvent)
  | disconnect (id : UInt64)
  | ban (now : Instant) (address : α) (duration : ℕ)
  | cleanup (now : Instant)

namespace Connections

open PeerManager

variable {α : Type} [DecidableEq α]

/-- Before any connection. -/
def start (maxPeers : ℕ) : Connections α := ⟨PeerManager.new maxPeers, ∅⟩

section Steps

variable [SocketAddress α] [MessageCodec] (genesisHash : Hash)

/-- The state after a step. -/
def step : ConnectionStep α → Connections α → Connections α
  | .accept now connectedSince lastSeen address connection, s =>
      match addPeer now connectedSince lastSeen address connection s.manager with
      | (.ok id, manager) => ⟨manager, s.calls.insert id .handshaking⟩
      | (_, manager) => ⟨manager, s.calls⟩
  | .handshake now id io, s =>
      if s.calls.lookup id = some .handshaking then
        match performHandshake genesisHash io with
        | .error _ => ⟨s.manager, s.calls.erase id⟩
        | .ok _ =>
            match updatePeerState now id .connected s.manager with
            | (.ok _, manager) => ⟨manager, s.calls.insert id .running⟩
            | (_, manager) => ⟨manager, s.calls.erase id⟩
      else s
  | .event id event, s =>
      if s.calls.lookup id = some .running ∧ event.ends = true then
        ⟨(removePeer id s.manager).2, s.calls.erase id⟩
      else s
  | .disconnect id, s => ⟨(removePeer id s.manager).2, s.calls⟩
  | .ban now address duration, s => ⟨(banPeer now address duration s.manager).2, s.calls⟩
  | .cleanup now, s => ⟨cleanupBanned now s.manager, s.calls⟩

/-- The call that has entered the peer `id` returns in a step. -/
def Exits (s : Connections α) (c : ConnectionStep α) (id : UInt64) : Prop :=
  id ∈ s.calls ∧ id ∉ (step genesisHash c s).calls

/-- The peers of all calls that return are out of the manager. -/
def FreesSlot (s : Connections α) (c : ConnectionStep α) : Prop :=
  ∀ id, Exits genesisHash s c id → (step genesisHash c s).manager.peers.lookup id = none

/-- A handshake succeeds, or somebody else has taken the peer out. -/
def Careful (s : Connections α) : ConnectionStep α → Prop
  | .handshake _ id io => s.calls.lookup id = some .handshaking →
      Greets genesisHash io ∨ s.manager.peers.lookup id = none
  | _ => True

/-! ## Single steps -/

omit [SocketAddress α] [MessageCodec] in
theorem lookup_removePeer (id : UInt64) (pm : PeerManager α) :
    (removePeer id pm).2.peers.lookup id = none := by
  unfold removePeer
  cases h : pm.peers.lookup id with
  | none => exact h
  | some peer => exact AList.lookup_erase _ _

omit [SocketAddress α] [MessageCodec] in
/-- `update_peer_state` finds the peer, or leaves the manager as it is. -/
theorem updatePeerState_cases (now : Instant) (id : UInt64) (state : PeerState)
    (pm : PeerManager α) :
    (pm.peers.lookup id = none ∧ (∀ u, (updatePeerState now id state pm).1 ≠ .ok u) ∧
        (updatePeerState now id state pm).2 = pm) ∨
      ∃ peer, pm.peers.lookup id = some peer ∧
        updatePeerState now id state pm = (.ok (), { pm with
          peers := pm.peers.insert id { peer with
            state := state
            connectedAt := if state = .connected then some now else peer.connectedAt } }) := by
  unfold updatePeerState
  rw [Exec.run_bind, Exec.run_get]
  dsimp only
  cases h : pm.peers.lookup id with
  | none => exact Or.inl ⟨rfl, fun u hu => (nomatch hu), rfl⟩
  | some peer => exact Or.inr ⟨peer, rfl, rfl⟩

/-- What a handshake leaves, by its outcome. -/
theorem step_handshake (now : Instant) (id : UInt64) (io : HandshakeIo) (s : Connections α)
    (hphase : s.calls.lookup id = some .handshaking) :
    (¬ Greets genesisHash io ∧
        step genesisHash (.handshake now id io) s = ⟨s.manager, s.calls.erase id⟩) ∨
      (Greets genesisHash io ∧ s.manager.peers.lookup id = none ∧
        step genesisHash (.handshake now id io) s = ⟨s.manager, s.calls.erase id⟩) ∨
      ∃ peer peer', Greets genesisHash io ∧ s.manager.peers.lookup id = some peer ∧
        step genesisHash (.handshake now id io) s =
          ⟨{ s.manager with peers := s.manager.peers.insert id peer' },
            s.calls.insert id .running⟩ := by
  rw [step, if_pos hphase]
  cases hresult : performHandshake genesisHash io with
  | error e =>
      refine Or.inl ⟨fun hgreets => ?_, rfl⟩
      obtain ⟨theirs, hok⟩ := (performHandshake_ok_iff genesisHash io).mpr hgreets
      rw [hresult] at hok
      cases hok
  | ok theirs =>
      have hgreets := (performHandshake_ok_iff genesisHash io).mp ⟨theirs, hresult⟩
      obtain ⟨hnone, hfails, hsame⟩ | ⟨peer, hpeer, hrun⟩ :=
        updatePeerState_cases now id .connected s.manager
      · refine Or.inr (Or.inl ⟨hgreets, hnone, ?_⟩)
        cases hupdate : updatePeerState now id .connected s.manager with
        | mk outcome manager =>
            rw [hupdate] at hfails hsame
            dsimp only at hsame hfails ⊢
            subst hsame
            cases outcome with
            | ok u => exact absurd rfl (hfails u)
            | err e => rfl
            | panic => rfl
      · refine Or.inr (Or.inr ⟨peer, { peer with
          state := .connected
          connectedAt := if PeerState.connected = .connected then some now else peer.connectedAt },
          hgreets, hpeer, ?_⟩)
        dsimp only
        rw [hrun]

/-- **A step frees the slots of the calls that return in it exactly if it is careful.** -/
theorem frees_iff_careful (s : Connections α) (c : ConnectionStep α) :
    FreesSlot genesisHash s c ↔ Careful genesisHash s c := by
  cases c with
  | accept now connectedSince lastSeen address connection =>
      refine iff_of_true (fun id hexits => absurd hexits.1 fun hmem => hexits.2 ?_) trivial
      rw [step]
      rcases addPeer now connectedSince lastSeen address connection s.manager with
        ⟨id' | e | _, manager⟩
      · exact AList.mem_insert _ |>.mpr (Or.inr hmem)
      · exact hmem
      · exact hmem
  | event id event =>
      refine iff_of_true (fun id' hexits => ?_) trivial
      obtain ⟨hmem, hgone⟩ := hexits
      rw [step] at hgone ⊢
      split_ifs at hgone ⊢ with hends
      · have heq : id' = id := by
          by_contra hne
          exact hgone (AList.mem_erase.mpr ⟨hne, hmem⟩)
        rw [heq]
        exact lookup_removePeer id s.manager
      · exact absurd hmem hgone
  | disconnect id => exact iff_of_true (fun id' hexits => absurd hexits.1 hexits.2) trivial
  | ban now address duration =>
      exact iff_of_true (fun id' hexits => absurd hexits.1 hexits.2) trivial
  | cleanup now => exact iff_of_true (fun id' hexits => absurd hexits.1 hexits.2) trivial
  | handshake now id io =>
      by_cases hphase : s.calls.lookup id = some .handshaking
      · have hmem : id ∈ s.calls := AList.lookup_isSome.mp (by rw [hphase]; rfl)
        have hgone : id ∉ s.calls.erase id := fun h => (AList.mem_erase.mp h).1 rfl
        have hother : ∀ id', id' ∈ s.calls → id' ∉ s.calls.erase id → id' = id := by
          intro id' hmem' hgone'
          by_contra hne
          exact hgone' (AList.mem_erase.mpr ⟨hne, hmem'⟩)
        rcases step_handshake genesisHash now id io s hphase with
          ⟨hfails, hstep⟩ | ⟨hgreets, hnone, hstep⟩ | ⟨peer, peer', hgreets, hpeer, hstep⟩
        · -- the call returns, and nothing has happened to its peer
          constructor
          · intro hfrees _
            refine Or.inr ?_
            have hlookup := hfrees id ⟨hmem, by rw [hstep]; exact hgone⟩
            rwa [hstep] at hlookup
          · intro hcareful id' hexits
            rw [Exits, hstep] at hexits
            rw [hstep, hother id' hexits.1 hexits.2]
            exact (hcareful hphase).resolve_left hfails
        · refine iff_of_true (fun id' hexits => ?_) fun _ => Or.inl hgreets
          rw [Exits, hstep] at hexits
          rw [hstep, hother id' hexits.1 hexits.2]
          exact hnone
        · refine iff_of_true (fun id' hexits => ?_) fun _ => Or.inl hgreets
          rw [Exits, hstep] at hexits
          exact absurd (AList.mem_insert _ |>.mpr (Or.inr hexits.1)) hexits.2
      · refine iff_of_true (fun id' hexits => ?_) fun h => absurd h hphase
        rw [Exits, step, if_neg hphase] at hexits
        exact absurd hexits.1 hexits.2

/-! ## Runs -/

/-- Every peer belongs to a connection that is still handled. -/
def NoLeak (s : Connections α) : Prop := ∀ id ∈ s.manager.peers, id ∈ s.calls

omit [SocketAddress α] [MessageCodec] in
theorem mem_removePeer {id id' : UInt64} {pm : PeerManager α}
    (h : id' ∈ (removePeer id pm).2.peers) : id' ∈ pm.peers ∧ id' ≠ id := by
  have hlookup := lookup_removePeer id pm
  refine ⟨?_, fun heq => ?_⟩
  · unfold removePeer at h
    cases hpeer : pm.peers.lookup id with
    | none =>
        rw [hpeer] at h
        exact h
    | some peer =>
        rw [hpeer] at h
        exact (AList.mem_erase.mp h).2
  · rw [heq] at h
    exact AList.lookup_eq_none.mp hlookup h

theorem NoLeak.step {s : Connections α} {c : ConnectionStep α} (h : NoLeak s)
    (hcareful : Careful genesisHash s c) : NoLeak (step genesisHash c s) := by
  cases c with
  | accept now connectedSince lastSeen address connection =>
      rw [Connections.step]
      rcases addPeer_cases now connectedSince lastSeen address connection s.manager with
        ⟨hfails, hsame⟩ | ⟨-, -, -, -, hrun⟩
      · cases hadd : addPeer now connectedSince lastSeen address connection s.manager with
        | mk outcome manager =>
            rw [hadd] at hfails hsame
            dsimp only at hsame hfails
            subst hsame
            cases outcome with
            | ok id => exact absurd rfl (hfails id)
            | err e => exact h
            | panic => exact h
      · rw [hrun]
        intro id hmem
        rcases AList.mem_insert _ |>.mp hmem with heq | hmem
        · exact AList.mem_insert _ |>.mpr (Or.inl heq)
        · exact AList.mem_insert _ |>.mpr (Or.inr (h id hmem))
  | event id event =>
      rw [Connections.step]
      split_ifs with hends
      · intro id' hmem
        obtain ⟨hmem, hne⟩ := mem_removePeer hmem
        exact AList.mem_erase.mpr ⟨hne, h id' hmem⟩
      · exact h
  | disconnect id =>
      intro id' hmem
      exact h id' (mem_removePeer hmem).1
  | ban now address duration =>
      intro id' hmem
      refine h id' ?_
      change id' ∈ (banPeer now address duration s.manager).2.peers at hmem
      unfold banPeer at hmem
      split_ifs at hmem
      · exact hmem
      · rw [Exec.run_bind] at hmem
        dsimp only [Exec.run_modify] at hmem
        split at hmem
        · exact (mem_removePeer hmem).1
        · exact hmem
  | cleanup now => exact h
  | handshake now id io =>
      by_cases hphase : s.calls.lookup id = some .handshaking
      · have hkeep : s.manager.peers.lookup id = none →
            ∀ id' ∈ s.manager.peers, id' ∈ s.calls.erase id := by
          intro hnone id' hmem
          refine AList.mem_erase.mpr ⟨fun heq => ?_, h id' hmem⟩
          rw [heq] at hmem
          exact AList.lookup_eq_none.mp hnone hmem
        rcases step_handshake genesisHash now id io s hphase with
          ⟨hfails, hstep⟩ | ⟨hgreets, hnone, hstep⟩ | ⟨peer, peer', hgreets, hpeer, hstep⟩
        · rw [hstep]
          exact hkeep ((hcareful hphase).resolve_left hfails)
        · rw [hstep]
          exact hkeep hnone
        · rw [hstep]
          intro id' hmem
          rcases AList.mem_insert _ |>.mp hmem with heq | hmem
          · exact AList.mem_insert _ |>.mpr (Or.inl heq)
          · exact AList.mem_insert _ |>.mpr (Or.inr (h id' hmem))
      · rw [Connections.step, if_neg hphase]
        exact h

omit [SocketAddress α] [MessageCodec] in
/-- There are not more peers than connections. -/
theorem NoLeak.peerCount_le {s : Connections α} (h : NoLeak s) :
    s.manager.peerCount ≤ s.calls.entries.length := by
  have hkeys : s.manager.peers.keys ⊆ s.calls.keys := fun id hmem => h id hmem
  have hle := (List.subperm_of_subset s.manager.peers.nodupKeys hkeys).length_le
  simpa only [AList.keys, List.keys, List.length_map, PeerManager.peerCount] using hle

/-- **When no slot leaks**: along a run, every call that returns has its peer taken out if and only
if every handshake succeeds or has lost its peer before; and then at the end every peer belongs to
a connection that is still handled, so that there are at most as many peers as those. -/
theorem slots_freed_iff (maxPeers : ℕ) (steps : List (ConnectionStep α)) :
    (Runs.Along (step genesisHash) (FreesSlot genesisHash) (start maxPeers) steps ↔
        Runs.Along (step genesisHash) (Careful genesisHash) (start maxPeers) steps) ∧
      (Runs.Along (step genesisHash) (Careful genesisHash) (start maxPeers) steps →
        NoLeak (Runs.run (step genesisHash) (start maxPeers) steps) ∧
        (Runs.run (step genesisHash) (start maxPeers) steps).manager.peerCount
          ≤ (Runs.run (step genesisHash) (start maxPeers) steps).calls.entries.length) := by
  constructor
  · generalize (start maxPeers : Connections α) = s
    induction steps generalizing s with
    | nil => exact Iff.rfl
    | cons c steps ih =>
        rw [Runs.along_cons, Runs.along_cons, frees_iff_careful, ih]
  · intro hcareful
    have hstart : NoLeak (start maxPeers : Connections α) :=
      fun id hmem => absurd hmem (AList.notMem_empty id)
    have hend := hcareful.invariant (fun _ _ h hstep => NoLeak.step genesisHash h hstep) hstart
    exact ⟨hend, hend.peerCount_le⟩

end Steps

/-! ## A silent connection -/

section Example

open scoped MessageStream Sample

/-- An address connects and says nothing. -/
def silent : List (ConnectionStep UInt16) :=
  [.accept 1 5 5 9333 ⟨0, 1⟩, .handshake 2 1 ⟨none, none, .timeout⟩]

/-- **A handshake that times out keeps the slot**: the call returns, its peer stays, and the next
address finds no room. -/
theorem silent_keeps_slot :
    ¬ Runs.Along (step zero32) (FreesSlot zero32) (start 1) silent ∧
      (Runs.run (step zero32) (start 1) silent).calls.entries = [] ∧
      (addPeer 3 5 5 (9334 : UInt16) ⟨2, 3⟩ (Runs.run (step zero32) (start 1) silent).manager).1
        = .err (.maxPeersReached 1) := by
  refine ⟨?_, rfl, rfl⟩
  rintro ⟨-, hfrees, -⟩
  have hcareful := (frees_iff_careful zero32 _ _).mp hfrees rfl
  rcases hcareful with ⟨-, -, bytes, hread, -⟩ | hnone
  · cases hread
  · exact absurd hnone (by decide)

/-- The greeting of a node without a chain. -/
def hello : HandshakeData := ⟨"", 1, 7, 9333, zero32, 0, zero32, [], 5⟩

/-- A connection that greets and is closed. -/
def greeted : List (ConnectionStep UInt16) :=
  [.accept 1 5 5 9333 ⟨0, 1⟩,
    .handshake 2 1 ⟨none, none, .bytes (WireMessage.encode (.handshake hello))⟩,
    .event 1 (.read [])]

theorem closed_leaves_no_peer : NoLeak (Runs.run (step zero32) (start 1) greeted) := by
  have hgreets : Greets zero32
      ⟨none, none, .bytes (WireMessage.encode (.handshake hello))⟩ := by
    refine ⟨rfl, rfl, _, rfl, WireMessage.encode_ne_nil _, hello, ?_, rfl⟩
    exact (LawfulMessageCodec.fromBytes_iff _ _ (by decide)).mpr List.prefix_rfl
  have hcareful : Runs.Along (step zero32) (Careful zero32) (start 1) greeted :=
    ⟨trivial, fun _ => Or.inl hgreets, trivial, trivial⟩
  exact ((slots_freed_iff zero32 1 greeted).2 hcareful).1

end Example

end Connections
