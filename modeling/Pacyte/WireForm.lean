/-
# What a receiver can check

A proposal and a vote are signed with their timestamp, and sent without it.  Two votes (two
proposals) of one wire form carry the same signed message exactly if they were made at the
same time (`wire_keeps_signed_iff`), so a receiver cannot compute from what arrives the hash
that the sender has signed.
-/
import Pacyte.BlockIntegrity

section Messages

variable [Primitives]

/-- The bytes that `Proposal::signing_hash` hashes. -/
def Proposal.signingMessage (proposal : Proposal) : Bytes :=
  leBytes 8 proposal.height.toNat ++ leBytes 8 proposal.round.toNat ++
    proposal.block.hash.toList ++ leBytes 8 proposal.proposer.toNat ++
    leBytes 8 proposal.timestamp.toNat

/-- The bytes that `Vote::signing_hash` hashes. -/
def Vote.signingMessage (vote : Vote) : Bytes :=
  leBytes 8 vote.height.toNat ++ leBytes 8 vote.round.toNat ++ vote.blockHash.toList ++
    leBytes 8 vote.voter.toNat ++ leBytes 1 vote.voteType.toNat ++ leBytes 8 vote.timestamp.toNat

theorem Proposal.signingHash_eq (proposal : Proposal) :
    proposal.signingHash = Primitives.sha3_256 proposal.signingMessage := rfl

theorem Vote.signingHash_eq (vote : Vote) :
    vote.signingHash = Primitives.sha3_256 vote.signingMessage := rfl

/-- The signed bytes of a proposal end with its timestamp. -/
theorem Proposal.timestamp_eq_of_signingMessage {p p' : Proposal}
    (h : p.signingMessage = p'.signingMessage) : p.timestamp = p'.timestamp := by
  have hlast := (List.append_inj' h (by rw [length_leBytes, length_leBytes])).2
  exact UInt64.toNat_inj.mp
    (leBytes_injective 8 _ _ p.timestamp.toNat_lt p'.timestamp.toNat_lt hlast)

omit [Primitives] in
/-- The signed bytes of a vote end with its timestamp. -/
theorem Vote.timestamp_eq_of_signingMessage {v v' : Vote}
    (h : v.signingMessage = v'.signingMessage) : v.timestamp = v'.timestamp := by
  have hlast := (List.append_inj' h (by rw [length_leBytes, length_leBytes])).2
  exact UInt64.toNat_inj.mp
    (leBytes_injective 8 _ _ v.timestamp.toNat_lt v'.timestamp.toNat_lt hlast)

omit [Primitives] in
/-- A proposal is its wire form and its timestamp. -/
theorem Proposal.eq_of_wire {p p' : Proposal} (h : p.wire = p'.wire)
    (htime : p.timestamp = p'.timestamp) : p = p' := by
  cases p
  cases p'
  simp only [Proposal.wire, ConsensusProposal.mk.injEq] at h
  obtain ⟨rfl, rfl, rfl, rfl, rfl⟩ := h
  obtain rfl := htime
  rfl

omit [Primitives] in
/-- A vote is its wire form and its timestamp. -/
theorem Vote.eq_of_wire {v v' : Vote} (h : v.wire = v'.wire)
    (htime : v.timestamp = v'.timestamp) : v = v' := by
  cases v
  cases v'
  simp only [Vote.wire, ConsensusVote.mk.injEq] at h
  obtain ⟨rfl, rfl, rfl, rfl, rfl, rfl⟩ := h
  obtain rfl := htime
  rfl

/-- **The wire form keeps what was signed exactly for equal timestamps.**  Two votes of one
wire form, and two proposals of one wire form, have the same signing hash if they have the
same timestamp, and, as long as SHA3-256 has no collision on the two messages, only then. -/
theorem wire_keeps_signed_iff :
    (∀ v v' : Vote, v.wire = v'.wire →
      (v.timestamp = v'.timestamp → v.signingHash = v'.signingHash) ∧
      (CollisionFree [v.signingMessage] [v'.signingMessage] →
        v.signingHash = v'.signingHash → v.timestamp = v'.timestamp)) ∧
    ∀ p p' : Proposal, p.wire = p'.wire →
      (p.timestamp = p'.timestamp → p.signingHash = p'.signingHash) ∧
      (CollisionFree [p.signingMessage] [p'.signingMessage] →
        p.signingHash = p'.signingHash → p.timestamp = p'.timestamp) := by
  constructor
  · intro v v' hwire
    constructor
    · intro htime
      rw [Vote.eq_of_wire hwire htime]
    · intro hfree hhash
      rw [Vote.signingHash_eq, Vote.signingHash_eq] at hhash
      exact Vote.timestamp_eq_of_signingMessage
        (hfree _ (List.mem_singleton_self _) _ (List.mem_singleton_self _) hhash)
  · intro p p' hwire
    constructor
    · intro htime
      rw [Proposal.eq_of_wire hwire htime]
    · intro hfree hhash
      rw [Proposal.signingHash_eq, Proposal.signingHash_eq] at hhash
      exact Proposal.timestamp_eq_of_signingMessage
        (hfree _ (List.mem_singleton_self _) _ (List.mem_singleton_self _) hhash)

end Messages

section Example

open scoped Sample
open Sample

/-- A prevote of validator 3 for the genesis block. -/
def castAt (time : Timestamp) : Vote := ⟨0, 0, blockZero.hash, 3, .prevote, [1], time⟩

/-- Votes made one second apart look alike on the wire and were signed differently. -/
theorem same_wire_other_hash :
    (castAt 7).wire = (castAt 8).wire ∧ (castAt 7).signingHash ≠ (castAt 8).signingHash := by
  decide +kernel

end Example
