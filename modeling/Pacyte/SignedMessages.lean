/-
# What a signature is for

Transactions, block headers, proposals and votes are signed by the hash of some of their fields,
one after the other, without a tag in front and without separators.  All these fields have fixed
widths, so the bytes determine them, and the four widths differ, so the bytes of one kind are not
those of another (`preimages_determine`).

The message of a handshake ends with the capabilities, which have any number and any length: the
bytes determine what they are in a row, and not where one ends and the next begins
(`handshake_fixed_iff`).
-/
import Pacyte.BlockIntegrity
import Pacyte.Handshake
import Pacyte.WireForm

/-! ## The fields of a message -/

section Fields

/-- The signed bytes of a header determine all but its signature. -/
theorem BlockHeader.message_determines {header header' : BlockHeader}
    (h : header.message = header'.message) :
    { header with signature := header'.signature } = header' := by
  simp only [BlockHeader.message, List.append_assoc] at h
  obtain ⟨hheight, h⟩ := leBytes_append_inj header.height.toNat_lt header'.height.toNat_lt h
  obtain ⟨hprevious, h⟩ := Vector.toList_append_inj h
  obtain ⟨htransactions, h⟩ := Vector.toList_append_inj h
  obtain ⟨hstate, h⟩ := Vector.toList_append_inj h
  obtain ⟨htime, h⟩ := leBytes_append_inj header.timestamp.toNat_lt header'.timestamp.toNat_lt h
  obtain ⟨hproposer, h⟩ := Vector.toList_append_inj h
  obtain ⟨hcount, h⟩ :=
    leBytes_append_inj header.transactionCount.toNat_lt header'.transactionCount.toNat_lt h
  have hsize := leBytes_injective 4 _ _ header.blockSize.toNat_lt header'.blockSize.toNat_lt h
  cases header
  cases header'
  simp only [BlockHeader.mk.injEq]
  exact ⟨UInt64.toNat_inj.mp hheight, hprevious, htransactions, hstate, UInt64.toNat_inj.mp htime,
    hproposer, UInt32.toNat_inj.mp hcount, UInt32.toNat_inj.mp hsize, trivial⟩

theorem VoteType.toNat_injective : Function.Injective VoteType.toNat := by
  intro a b h
  cases a <;> cases b
  · rfl
  · exact absurd h (by decide)
  · exact absurd h (by decide)
  · rfl

/-- The signed bytes of a vote determine all but its signature. -/
theorem Vote.signingMessage_determines {vote vote' : Vote}
    (h : vote.signingMessage = vote'.signingMessage) :
    { vote with signature := vote'.signature } = vote' := by
  have htype : ∀ t : VoteType, t.toNat < 256 ^ 1 := fun t => by cases t <;> decide
  simp only [Vote.signingMessage, List.append_assoc] at h
  obtain ⟨hheight, h⟩ := leBytes_append_inj vote.height.toNat_lt vote'.height.toNat_lt h
  obtain ⟨hround, h⟩ := leBytes_append_inj vote.round.toNat_lt vote'.round.toNat_lt h
  obtain ⟨hblock, h⟩ := Vector.toList_append_inj h
  obtain ⟨hvoter, h⟩ := leBytes_append_inj vote.voter.toNat_lt vote'.voter.toNat_lt h
  obtain ⟨hkind, h⟩ := leBytes_append_inj (htype _) (htype _) h
  have htime := leBytes_injective 8 _ _ vote.timestamp.toNat_lt vote'.timestamp.toNat_lt h
  cases vote
  cases vote'
  simp only [Vote.mk.injEq]
  exact ⟨UInt64.toNat_inj.mp hheight, UInt64.toNat_inj.mp hround, hblock, UInt64.toNat_inj.mp hvoter,
    VoteType.toNat_injective hkind, trivial, UInt64.toNat_inj.mp htime⟩

variable [Primitives]

/-- The signed bytes of a proposal determine its numbers and the hash of its block. -/
theorem Proposal.signingMessage_determines {p p' : Proposal}
    (h : p.signingMessage = p'.signingMessage) :
    p.height = p'.height ∧ p.round = p'.round ∧ p.block.hash = p'.block.hash ∧
      p.proposer = p'.proposer ∧ p.timestamp = p'.timestamp := by
  simp only [Proposal.signingMessage, List.append_assoc] at h
  obtain ⟨hheight, h⟩ := leBytes_append_inj p.height.toNat_lt p'.height.toNat_lt h
  obtain ⟨hround, h⟩ := leBytes_append_inj p.round.toNat_lt p'.round.toNat_lt h
  obtain ⟨hblock, h⟩ := Vector.toList_append_inj h
  obtain ⟨hproposer, h⟩ := leBytes_append_inj p.proposer.toNat_lt p'.proposer.toNat_lt h
  have htime := leBytes_injective 8 _ _ p.timestamp.toNat_lt p'.timestamp.toNat_lt h
  exact ⟨UInt64.toNat_inj.mp hheight, UInt64.toNat_inj.mp hround, hblock,
    UInt64.toNat_inj.mp hproposer, UInt64.toNat_inj.mp htime⟩

/-- The bytes that are hashed for a transaction end with its signature. -/
theorem Transaction.message_determines {tx tx' : Transaction} (h : tx.message = tx'.message) :
    tx.sighash = tx'.sighash ∧ tx.signature = tx'.signature := Vector.toList_append_inj h

end Fields

/-! ## The four kinds -/

/-- What is signed. -/
inductive Signed : Type where
  | transaction
  | header
  | proposal
  | vote
  deriving DecidableEq

namespace Signed

/-- The number of bytes that are hashed. -/
def width : Signed → ℕ
  | transaction => 112
  | header => 152
  | proposal => 64
  | vote => 65

theorem width_injective : Function.Injective width := by
  intro a b h
  cases a <;> cases b <;> first | rfl | exact absurd h (by decide)

/-- The bytes are hashed for the signature of a thing of the kind. -/
def Preimage [Primitives] (kind : Signed) (bytes : Bytes) : Prop :=
  match kind with
  | transaction => ∃ tx : Transaction, tx.sigMessage = bytes
  | header => ∃ header : BlockHeader, header.message = bytes
  | proposal => ∃ proposal : Proposal, proposal.signingMessage = bytes
  | vote => ∃ vote : Vote, vote.signingMessage = bytes

theorem Preimage.length_eq [Primitives] {kind : Signed} {bytes : Bytes}
    (h : Preimage kind bytes) : bytes.length = kind.width := by
  cases kind <;> obtain ⟨_, rfl⟩ := h
  · simp [Transaction.sigMessage, width]
  · simp [BlockHeader.message, width]
  · simp [Proposal.signingMessage, width]
  · simp [Vote.signingMessage, width]

end Signed

/-- **The signed bytes determine the fields that they cover and the kind of what is signed.** -/
theorem preimages_determine [Primitives] :
    (∀ tx tx' : Transaction, tx.sigMessage = tx'.sigMessage →
      tx.from = tx'.from ∧ tx.to = tx'.to ∧ tx.amount = tx'.amount ∧ tx.fee = tx'.fee ∧
        tx.nonce = tx'.nonce ∧ tx.timestamp = tx'.timestamp) ∧
    (∀ header header' : BlockHeader, header.message = header'.message →
      { header with signature := header'.signature } = header') ∧
    (∀ p p' : Proposal, p.signingMessage = p'.signingMessage →
      p.height = p'.height ∧ p.round = p'.round ∧ p.block.hash = p'.block.hash ∧
        p.proposer = p'.proposer ∧ p.timestamp = p'.timestamp) ∧
    (∀ vote vote' : Vote, vote.signingMessage = vote'.signingMessage →
      { vote with signature := vote'.signature } = vote') ∧
    (∀ kind kind' bytes, Signed.Preimage kind bytes → Signed.Preimage kind' bytes → kind = kind') ∧
    ∀ tx tx' : Transaction, tx.message = tx'.message →
      tx.sighash = tx'.sighash ∧ tx.signature = tx'.signature :=
  ⟨fun _ _ => Transaction.sigMessage_inj, fun _ _ => BlockHeader.message_determines,
    fun _ _ => Proposal.signingMessage_determines, fun _ _ => Vote.signingMessage_determines,
    fun _ _ _ h h' => Signed.width_injective (h.length_eq.symm.trans h'.length_eq),
    fun _ _ => Transaction.message_determines⟩

/-! ## The handshake -/

namespace HandshakeMessage

/-- The two messages have the same fields of a fixed width. -/
structure SameFields (m m' : HandshakeMessage) : Prop where
  protocolVersion : m.protocolVersion = m'.protocolVersion
  networkId : m.networkId = m'.networkId
  nodeId : m.nodeId = m'.nodeId
  port : m.port = m'.port
  genesisHash : m.genesisHash = m'.genesisHash
  bestHeight : m.bestHeight = m'.bestHeight
  bestHash : m.bestHash = m'.bestHash
  timestamp : m.timestamp = m'.timestamp

/-- The messages are the same but for the signature. -/
def AgreeUnsigned (m m' : HandshakeMessage) : Prop := { m with signature := m'.signature } = m'

theorem agreeUnsigned_iff {m m' : HandshakeMessage} :
    AgreeUnsigned m m' ↔ SameFields m m' ∧ m.capabilities = m'.capabilities := by
  unfold AgreeUnsigned
  constructor
  · intro h
    rw [← h]
    exact ⟨⟨rfl, rfl, rfl, rfl, rfl, rfl, rfl, rfl⟩, rfl⟩
  · rintro ⟨⟨h₁, h₂, h₃, h₄, h₅, h₆, h₇, h₈⟩, hcapabilities⟩
    cases m
    cases m'
    simp only [mk.injEq]
    exact ⟨h₁, h₂, h₃, h₄, h₅, h₆, h₇, hcapabilities, h₈, trivial⟩

/-- The signed bytes are the fields of a fixed width and the capabilities in a row. -/
theorem signingMessage_eq_iff {m m' : HandshakeMessage} :
    m.signingMessage = m'.signingMessage ↔
      SameFields m m' ∧ m.capabilities.flatten = m'.capabilities.flatten := by
  constructor
  · intro h
    simp only [signingMessage, List.append_assoc] at h
    obtain ⟨hversion, h⟩ :=
      leBytes_append_inj m.protocolVersion.toNat_lt m'.protocolVersion.toNat_lt h
    obtain ⟨hnetwork, h⟩ := leBytes_append_inj m.networkId.toNat_lt m'.networkId.toNat_lt h
    obtain ⟨hnode, h⟩ := leBytes_append_inj m.nodeId.toNat_lt m'.nodeId.toNat_lt h
    obtain ⟨hport, h⟩ := leBytes_append_inj m.port.toNat_lt m'.port.toNat_lt h
    obtain ⟨hgenesis, h⟩ := Vector.toList_append_inj h
    obtain ⟨hheight, h⟩ := leBytes_append_inj m.bestHeight.toNat_lt m'.bestHeight.toNat_lt h
    obtain ⟨hbest, h⟩ := Vector.toList_append_inj h
    obtain ⟨htime, h⟩ := leBytes_append_inj m.timestamp.toNat_lt m'.timestamp.toNat_lt h
    exact ⟨⟨UInt32.toNat_inj.mp hversion, UInt32.toNat_inj.mp hnetwork, UInt64.toNat_inj.mp hnode,
      UInt16.toNat_inj.mp hport, hgenesis, UInt64.toNat_inj.mp hheight, hbest,
      UInt64.toNat_inj.mp htime⟩, h⟩
  · rintro ⟨⟨h₁, h₂, h₃, h₄, h₅, h₆, h₇, h₈⟩, hcapabilities⟩
    simp only [signingMessage, h₁, h₂, h₃, h₄, h₅, h₆, h₇, h₈, hcapabilities]

/-- The lists of capabilities are different, but the same in a row. -/
def Resplit (m m' : HandshakeMessage) : Prop :=
  m.capabilities ≠ m'.capabilities ∧ m.capabilities.flatten = m'.capabilities.flatten

instance (m m' : HandshakeMessage) : Decidable (Resplit m m') :=
  inferInstanceAs (Decidable (_ ∧ _))

end HandshakeMessage

open HandshakeMessage in
/-- **When the signed hash fixes the handshake**: two messages with one hash agree in all but the
signature unless the one splits the capabilities of the other in another way. -/
theorem handshake_fixed_iff [Primitives] {m m' : HandshakeMessage}
    (hfree : CollisionFree [m.signingMessage] [m'.signingMessage]) :
    (m.signingHash = m'.signingHash → AgreeUnsigned m m') ↔ ¬ (SameFields m m' ∧ Resplit m m') := by
  have hhash : m.signingHash = m'.signingHash ↔ m.signingMessage = m'.signingMessage :=
    ⟨hfree _ List.mem_cons_self _ List.mem_cons_self, congrArg Primitives.sha3_256⟩
  rw [hhash, signingMessage_eq_iff, agreeUnsigned_iff]
  constructor
  · rintro hagree ⟨hfields, hdiffer, hflat⟩
    exact hdiffer (hagree ⟨hfields, hflat⟩).2
  · rintro hnot ⟨hfields, hflat⟩
    refine ⟨hfields, ?_⟩
    by_contra hdiffer
    exact hnot ⟨hfields, hdiffer, hflat⟩

section Example

open scoped Sample
open HandshakeMessage

/-- A handshake with some capabilities. -/
def greeting (capabilities : List Bytes) : HandshakeMessage :=
  ⟨1, 1, 7, 9333, zero32, 0, zero32, capabilities, 5, []⟩

/-- Two messages that differ in more than the split are told apart. -/
theorem greetings_told_apart :
    (greeting [[97], [98]]).signingHash ≠ (greeting [[97], [99]]).signingHash := by
  intro hhash
  have hagree : AgreeUnsigned (greeting [[97], [98]]) (greeting [[97], [99]]) :=
    (handshake_fixed_iff (by decide +kernel)).mpr (fun h => absurd h.2.2 (by decide)) hhash
  exact absurd (agreeUnsigned_iff.mp hagree).2 (by decide)

/-- `["ab"]` and `["a", "b"]` have one hash. -/
theorem greetings_resplit :
    (greeting [[97, 98]]).signingHash = (greeting [[97], [98]]).signingHash ∧
      ¬ AgreeUnsigned (greeting [[97, 98]]) (greeting [[97], [98]]) := by
  refine ⟨rfl, fun h => ?_⟩
  exact absurd (agreeUnsigned_iff.mp h).2 (by decide)

end Example
