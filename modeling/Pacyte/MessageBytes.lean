/-
# The bytes of a message

What `bincode` writes for a `NetworkMessage`: the number of the variant in four bytes, then its
fields, with the layout of numbers, arrays, byte strings, lists and optional values as in the records
of the log.  A text is written as its bytes; no other bytes are read back as a text.

The encoding is self-delimiting (`prefixCode_message`): a message can be read back from the front
of any longer string, and what follows it is not looked at.
-/
import Pacyte.Bincode
import Pacyte.WireMessages

/-! ## Lists and optional values -/

/-- `bincode` of a list. -/
def encodeList {α : Type} (encode : α → Bytes) (l : List α) : Bytes :=
  leBytes 8 l.length ++ l.flatMap encode

/-- `bincode` of an optional value. -/
def encodeOption {α : Type} (encode : α → Bytes) (o : Option α) : Bytes :=
  o.elim [0] fun a => 1 :: encode a

theorem prefixCode_u16 : PrefixCode fun n : UInt16 => leBytes 2 n.toNat :=
  PrefixCode.word (fun n => n.toNat_lt) fun _ _ h => UInt16.toNat_inj.mp h

/-- An encoding that ends with a word of eight bytes is not empty. -/
theorem append_leBytes_ne_nil (bs : Bytes) (n : ℕ) : bs ++ leBytes 8 n ≠ [] := by
  intro h
  have hlen := congrArg List.length h
  rw [List.length_append, length_leBytes, List.length_nil] at hlen
  omega

theorem encodeBytes_ne_nil (bs : Bytes) : encodeBytes bs ≠ [] := by
  intro h
  have hlen := congrArg List.length h
  rw [encodeBytes, List.length_append, length_leBytes, List.length_nil] at hlen
  omega

/-! ## Texts -/

/-- `bincode` of a text. -/
def encodeText (text : String) : Bytes := encodeBytes text.toByteArray.data.toList

theorem prefixCode_text : PrefixCode encodeText := by
  refine (PrefixCode.bytes.part fun text : String => text.toByteArray.data.toList).prefixCode ?_
  intro a b h
  exact String.toByteArray_inj.mp (ByteArray.ext (Array.toList_inj.mp h))

theorem encodeText_ne_nil (text : String) : encodeText text ≠ [] := encodeBytes_ne_nil _

theorem prefixCode_texts : PrefixCode (encodeList encodeText) :=
  prefixCode_text.list encodeText_ne_nil

/-! ## The parts of messages -/

/-- `bincode` of `HandshakeData`. -/
def encodeHandshake (d : HandshakeData) : Bytes :=
  encodeText d.version ++ leBytes 4 d.protocolVersion.toNat ++ leBytes 8 d.nodeId.toNat ++
    leBytes 2 d.port.toNat ++ d.genesisHash.toList ++ leBytes 8 d.bestHeight.toNat ++
    d.bestHash.toList ++ encodeList encodeText d.capabilities ++ leBytes 8 d.timestamp.toNat

theorem prefixCode_handshake : PrefixCode encodeHandshake := by
  refine Reads.prefixCode
    (((((((((prefixCode_text.part HandshakeData.version).append
      (prefixCode_u32.part HandshakeData.protocolVersion)).append
      (prefixCode_u64.part HandshakeData.nodeId)).append
      (prefixCode_u16.part HandshakeData.port)).append
      ((PrefixCode.vector 32).part HandshakeData.genesisHash)).append
      (prefixCode_u64.part HandshakeData.bestHeight)).append
      ((PrefixCode.vector 32).part HandshakeData.bestHash)).append
      (prefixCode_texts.part HandshakeData.capabilities)).append
      (prefixCode_u64.part HandshakeData.timestamp)) ?_
  rintro ⟨⟩ ⟨⟩ h
  simp only [Prod.mk.injEq] at h
  simp [h]

/-- `bincode` of `HandshakeAck`. -/
def encodeAck (ack : HandshakeAck) : Bytes :=
  leBytes 1 ack.accepted.toNat ++ encodeOption encodeText ack.reason ++
    encodeOption (fun id : UInt64 => leBytes 8 id.toNat) ack.peerId

theorem prefixCode_ack : PrefixCode encodeAck := by
  refine Reads.prefixCode
    (((prefixCode_bool.part HandshakeAck.accepted).append
      ((PrefixCode.option prefixCode_text).part HandshakeAck.reason)).append
      ((PrefixCode.option prefixCode_u64).part HandshakeAck.peerId)) ?_
  rintro ⟨⟩ ⟨⟩ h
  simp only [Prod.mk.injEq] at h
  simp [h]

/-- `bincode` of `PeerInfo`. -/
def encodePeerInfo (info : PeerInfo) : Bytes :=
  leBytes 8 info.id.toNat ++ encodeText info.address ++ leBytes 2 info.port.toNat ++
    leBytes 8 info.bestHeight.toNat ++ info.bestHash.toList ++
    encodeList encodeText info.capabilities ++ leBytes 8 info.connectedSince.toNat ++
    leBytes 8 info.lastSeen.toNat ++ leBytes 8 info.latencyMs.toNat

theorem prefixCode_peerInfo : PrefixCode encodePeerInfo := by
  refine Reads.prefixCode
    (((((((((prefixCode_u64.part PeerInfo.id).append
      (prefixCode_text.part PeerInfo.address)).append
      (prefixCode_u16.part PeerInfo.port)).append
      (prefixCode_u64.part PeerInfo.bestHeight)).append
      ((PrefixCode.vector 32).part PeerInfo.bestHash)).append
      (prefixCode_texts.part PeerInfo.capabilities)).append
      (prefixCode_u64.part PeerInfo.connectedSince)).append
      (prefixCode_u64.part PeerInfo.lastSeen)).append
      (prefixCode_u64.part PeerInfo.latencyMs)) ?_
  rintro ⟨⟩ ⟨⟩ h
  simp only [Prod.mk.injEq] at h
  simp [h]

/-- `bincode` of `BlockHeaderData`. -/
def encodeHeaderData (d : BlockHeaderData) : Bytes :=
  leBytes 8 d.height.toNat ++ d.hash.toList ++ d.previousHash.toList ++
    leBytes 8 d.timestamp.toNat ++ leBytes 4 d.transactionCount.toNat

theorem prefixCode_headerData : PrefixCode encodeHeaderData := by
  refine Reads.prefixCode
    (((((prefixCode_u64.part BlockHeaderData.height).append
      ((PrefixCode.vector 32).part BlockHeaderData.hash)).append
      ((PrefixCode.vector 32).part BlockHeaderData.previousHash)).append
      (prefixCode_u64.part BlockHeaderData.timestamp)).append
      (prefixCode_u32.part BlockHeaderData.transactionCount)) ?_
  rintro ⟨⟩ ⟨⟩ h
  simp only [Prod.mk.injEq] at h
  simp [h]

/-- `bincode` of `ConsensusProposal`. -/
def encodeProposal (p : ConsensusProposal) : Bytes :=
  leBytes 8 p.height.toNat ++ leBytes 8 p.round.toNat ++ encodeBlock p.block ++
    leBytes 8 p.proposer.toNat ++ encodeBytes p.signature

theorem prefixCode_proposal : PrefixCode encodeProposal := by
  refine Reads.prefixCode
    (((((prefixCode_u64.part ConsensusProposal.height).append
      (prefixCode_u64.part ConsensusProposal.round)).append
      (prefixCode_block.part ConsensusProposal.block)).append
      (prefixCode_u64.part ConsensusProposal.proposer)).append
      (PrefixCode.bytes.part ConsensusProposal.signature)) ?_
  rintro ⟨⟩ ⟨⟩ h
  simp only [Prod.mk.injEq] at h
  simp [h]

/-- The number of a variant of the network's `VoteType`. -/
def VoteType.index : VoteType → ℕ
  | prevote => 0
  | precommit => 1

theorem prefixCode_voteType : PrefixCode fun t : VoteType => leBytes 4 t.index := by
  refine PrefixCode.word (fun t => ?_) fun a b h => ?_
  · cases t <;> simp [VoteType.index]
  · revert h
    cases a <;> cases b <;> simp [VoteType.index]

/-- `bincode` of `ConsensusVote`. -/
def encodeVote (v : ConsensusVote) : Bytes :=
  leBytes 8 v.height.toNat ++ leBytes 8 v.round.toNat ++ v.blockHash.toList ++
    leBytes 8 v.voter.toNat ++ leBytes 4 v.voteType.index ++ encodeBytes v.signature

theorem prefixCode_vote : PrefixCode encodeVote := by
  refine Reads.prefixCode
    ((((((prefixCode_u64.part ConsensusVote.height).append
      (prefixCode_u64.part ConsensusVote.round)).append
      ((PrefixCode.vector 32).part ConsensusVote.blockHash)).append
      (prefixCode_u64.part ConsensusVote.voter)).append
      (prefixCode_voteType.part ConsensusVote.voteType)).append
      (PrefixCode.bytes.part ConsensusVote.signature)) ?_
  rintro ⟨⟩ ⟨⟩ h
  simp only [Prod.mk.injEq] at h
  simp [h]

/-! ## Messages -/

namespace WireMessage

/-- The number of a variant. -/
def index : WireMessage → ℕ
  | handshake _ => 0
  | handshakeAck _ => 1
  | ping _ => 2
  | pong _ => 3
  | getPeers => 4
  | peers _ => 5
  | peerConnected _ => 6
  | peerDisconnected _ => 7
  | getBlocks _ _ => 8
  | blocks _ => 9
  | newBlock _ => 10
  | getBlockHeaders _ _ => 11
  | blockHeaders _ => 12
  | newTransaction _ => 13
  | getTransactions _ => 14
  | transactions _ => 15
  | proposal _ => 16
  | vote _ => 17
  | newView _ _ => 18
  | timeout _ _ => 19
  | getStateChunk _ _ => 20
  | stateChunk _ _ _ => 21
  | error _ _ => 22

/-- The fields of a variant. -/
def fields : WireMessage → Bytes
  | handshake data => encodeHandshake data
  | handshakeAck ack => encodeAck ack
  | ping nonce => leBytes 8 nonce.toNat
  | pong nonce => leBytes 8 nonce.toNat
  | getPeers => []
  | peers infos => encodeList encodePeerInfo infos
  | peerConnected info => encodePeerInfo info
  | peerDisconnected id => leBytes 8 id.toNat
  | getBlocks «from» «to» => leBytes 8 «from».toNat ++ leBytes 8 «to».toNat
  | blocks bs => encodeList encodeBlock bs
  | newBlock block => encodeBlock block
  | getBlockHeaders «from» limit => leBytes 8 «from».toNat ++ leBytes 4 limit.toNat
  | blockHeaders headers => encodeList encodeHeaderData headers
  | newTransaction tx => encodeTransaction tx
  | getTransactions hashes => encodeList (fun hash : Hash => hash.toList) hashes
  | transactions txs => encodeList encodeTransaction txs
  | proposal p => encodeProposal p
  | vote v => encodeVote v
  | newView height round => leBytes 8 height.toNat ++ leBytes 8 round.toNat
  | timeout height round => leBytes 8 height.toNat ++ leBytes 8 round.toNat
  | getStateChunk root chunkIndex => root.toList ++ leBytes 4 chunkIndex.toNat
  | stateChunk root chunkIndex data =>
      root.toList ++ leBytes 4 chunkIndex.toNat ++ encodeBytes data
  | error code text => leBytes 4 code.toNat ++ encodeText text

/-- `bincode` of a message. -/
def encode (m : WireMessage) : Bytes := leBytes 4 m.index ++ m.fields

theorem index_lt (m : WireMessage) : m.index < 256 ^ 4 := by
  cases m <;> simp [index]

theorem encode_ne_nil (m : WireMessage) : m.encode ≠ [] := by
  intro h
  have hlen := congrArg List.length h
  rw [encode, List.length_append, length_leBytes, List.length_nil] at hlen
  omega

/-! ## Reading a message back -/

theorem encodePeerInfo_ne_nil (info : PeerInfo) : encodePeerInfo info ≠ [] :=
  append_leBytes_ne_nil _ _

theorem encodeTransaction_ne_nil (tx : Transaction) : encodeTransaction tx ≠ [] :=
  append_leBytes_ne_nil _ _

theorem encodeHeaderData_ne_nil (d : BlockHeaderData) : encodeHeaderData d ≠ [] := by
  intro h
  have hlen := congrArg List.length h
  simp only [encodeHeaderData, List.length_append, length_leBytes, List.length_nil] at hlen
  omega

theorem encodeBlock_ne_nil (block : Block) : encodeBlock block ≠ [] := by
  intro h
  have hlen := congrArg List.length h
  simp only [encodeBlock, encodeHeader, List.length_append, length_leBytes, List.length_nil] at hlen
  omega

theorem hash_toList_ne_nil (hash : Hash) : hash.toList ≠ [] := by
  intro h
  have hlen := congrArg List.length h
  simp at hlen

/-- The fields of messages of one variant, by cases over the variants. -/
theorem fields_inj (a b : WireMessage) (s t : Bytes) (hindex : a.index = b.index)
    (hlen : (a.fields ++ s).length < 2 ^ 64) (heq : a.fields ++ s = b.fields ++ t) :
    a = b ∧ s = t := by
  cases a with
  | handshake data =>
      cases b <;> cases hindex
      obtain ⟨rfl, hst⟩ := prefixCode_handshake data _ s t hlen heq
      exact ⟨rfl, hst⟩
  | handshakeAck ack =>
      cases b <;> cases hindex
      obtain ⟨rfl, hst⟩ := prefixCode_ack ack _ s t hlen heq
      exact ⟨rfl, hst⟩
  | ping nonce =>
      cases b <;> cases hindex
      obtain ⟨rfl, hst⟩ := prefixCode_u64 nonce _ s t hlen heq
      exact ⟨rfl, hst⟩
  | pong nonce =>
      cases b <;> cases hindex
      obtain ⟨rfl, hst⟩ := prefixCode_u64 nonce _ s t hlen heq
      exact ⟨rfl, hst⟩
  | getPeers =>
      cases b <;> cases hindex
      exact ⟨rfl, heq⟩
  | peers infos =>
      cases b <;> cases hindex
      obtain ⟨rfl, hst⟩ := prefixCode_peerInfo.list encodePeerInfo_ne_nil infos _ s t hlen heq
      exact ⟨rfl, hst⟩
  | peerConnected info =>
      cases b <;> cases hindex
      obtain ⟨rfl, hst⟩ := prefixCode_peerInfo info _ s t hlen heq
      exact ⟨rfl, hst⟩
  | peerDisconnected id =>
      cases b <;> cases hindex
      obtain ⟨rfl, hst⟩ := prefixCode_u64 id _ s t hlen heq
      exact ⟨rfl, hst⟩
  | getBlocks «from» «to» =>
      cases b <;> cases hindex
      obtain ⟨hpair, hst⟩ :=
        prefixCode_u64.pair prefixCode_u64 («from», «to») (_, _) s t hlen heq
      obtain ⟨rfl, rfl⟩ := Prod.mk.inj hpair
      exact ⟨rfl, hst⟩
  | blocks blocks =>
      cases b <;> cases hindex
      obtain ⟨rfl, hst⟩ := prefixCode_block.list encodeBlock_ne_nil blocks _ s t hlen heq
      exact ⟨rfl, hst⟩
  | newBlock block =>
      cases b <;> cases hindex
      obtain ⟨rfl, hst⟩ := prefixCode_block block _ s t hlen heq
      exact ⟨rfl, hst⟩
  | getBlockHeaders «from» limit =>
      cases b <;> cases hindex
      obtain ⟨hpair, hst⟩ :=
        prefixCode_u64.pair prefixCode_u32 («from», limit) (_, _) s t hlen heq
      obtain ⟨rfl, rfl⟩ := Prod.mk.inj hpair
      exact ⟨rfl, hst⟩
  | blockHeaders headers =>
      cases b <;> cases hindex
      obtain ⟨rfl, hst⟩ :=
        prefixCode_headerData.list encodeHeaderData_ne_nil headers _ s t hlen heq
      exact ⟨rfl, hst⟩
  | newTransaction tx =>
      cases b <;> cases hindex
      obtain ⟨rfl, hst⟩ := prefixCode_transaction tx _ s t hlen heq
      exact ⟨rfl, hst⟩
  | getTransactions hashes =>
      cases b <;> cases hindex
      obtain ⟨rfl, hst⟩ := (PrefixCode.vector 32).list hash_toList_ne_nil hashes _ s t hlen heq
      exact ⟨rfl, hst⟩
  | transactions txs =>
      cases b <;> cases hindex
      obtain ⟨rfl, hst⟩ := prefixCode_transaction.list encodeTransaction_ne_nil txs _ s t hlen heq
      exact ⟨rfl, hst⟩
  | proposal p =>
      cases b <;> cases hindex
      obtain ⟨rfl, hst⟩ := prefixCode_proposal p _ s t hlen heq
      exact ⟨rfl, hst⟩
  | vote v =>
      cases b <;> cases hindex
      obtain ⟨rfl, hst⟩ := prefixCode_vote v _ s t hlen heq
      exact ⟨rfl, hst⟩
  | newView height round =>
      cases b <;> cases hindex
      obtain ⟨hpair, hst⟩ :=
        prefixCode_u64.pair prefixCode_u64 (height, round) (_, _) s t hlen heq
      obtain ⟨rfl, rfl⟩ := Prod.mk.inj hpair
      exact ⟨rfl, hst⟩
  | timeout height round =>
      cases b <;> cases hindex
      obtain ⟨hpair, hst⟩ :=
        prefixCode_u64.pair prefixCode_u64 (height, round) (_, _) s t hlen heq
      obtain ⟨rfl, rfl⟩ := Prod.mk.inj hpair
      exact ⟨rfl, hst⟩
  | getStateChunk root chunkIndex =>
      cases b <;> cases hindex
      obtain ⟨hpair, hst⟩ :=
        (PrefixCode.vector 32).pair prefixCode_u32 (root, chunkIndex) (_, _) s t hlen heq
      obtain ⟨rfl, rfl⟩ := Prod.mk.inj hpair
      exact ⟨rfl, hst⟩
  | stateChunk root chunkIndex data =>
      cases b <;> cases hindex
      obtain ⟨htriple, hst⟩ := ((PrefixCode.vector 32).pair prefixCode_u32).pair PrefixCode.bytes
        ((root, chunkIndex), data) ((_, _), _) s t hlen heq
      obtain ⟨hpair, rfl⟩ := Prod.mk.inj htriple
      obtain ⟨rfl, rfl⟩ := Prod.mk.inj hpair
      exact ⟨rfl, hst⟩
  | error code message =>
      cases b <;> cases hindex
      obtain ⟨hpair, hst⟩ :=
        prefixCode_u32.pair prefixCode_text (code, message) (_, _) s t hlen heq
      obtain ⟨rfl, rfl⟩ := Prod.mk.inj hpair
      exact ⟨rfl, hst⟩

/-- **A message can be read back from the front of what was written**, whatever follows. -/
theorem prefixCode_message : PrefixCode encode := by
  intro a b s t hlen heq
  rw [encode, encode, List.append_assoc, List.append_assoc] at heq
  rw [encode, List.append_assoc] at hlen
  obtain ⟨hindex, hrest⟩ := leBytes_append_inj a.index_lt b.index_lt heq
  exact fields_inj a b s t hindex (length_lt_of_append_lt hlen) hrest

/-- Of the messages that a string can start with there is at most one. -/
theorem eq_of_prefix {a b : WireMessage} {bytes : Bytes} (hlen : bytes.length < 2 ^ 64)
    (ha : a.encode <+: bytes) (hb : b.encode <+: bytes) : a = b := by
  obtain ⟨s, rfl⟩ := ha
  obtain ⟨t, ht⟩ := hb
  exact (prefixCode_message a b s t hlen ht.symm).1

open Classical in
/-- The message that a string starts with. -/
noncomputable def decode (bytes : Bytes) : Option WireMessage :=
  if h : ∃ m : WireMessage, m.encode <+: bytes then some h.choose else none

/-- **What is read is the message at the front**, and nothing else. -/
theorem decode_eq_some {bytes : Bytes} (hlen : bytes.length < 2 ^ 64) {m : WireMessage} :
    decode bytes = some m ↔ m.encode <+: bytes := by
  unfold decode
  split_ifs with h
  · rw [Option.some_inj]
    constructor
    · rintro rfl
      exact h.choose_spec
    · exact fun hm => eq_of_prefix hlen h.choose_spec hm
  · exact iff_of_false nofun fun hm => h ⟨m, hm⟩

end WireMessage
