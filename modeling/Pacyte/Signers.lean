/-
# Signing and checking

`Ed25519Signer`, `Dilithium5Signer` and `HybridSigner` of `src/crypto`, and what the two places
that check signatures make of them.

A signer's address is the hash of its public key.  The mempool hands the address over *as* the
public key, so a transaction that is properly signed is refused (`checked_right_iff`).  A validator
signs with the `bincode` of an enumeration, and the vote manager tells the scheme by the length of
the bytes, so no vote that a node signs is accepted (`signed_vote_refused`).  The check that does
fit the signer is `HybridSignature::verify` (`hybrid_verify_iff`).

The signature schemes are ideal: a signature that verifies under a public key was made with a key
pair that has it, and no two key pairs with different public keys make the same signature.
-/
import Pacyte.MempoolValidator
import Pacyte.PrefixCode
import Pacyte.Votes

/-! ## Signature schemes -/

/-- The key pairs of a signature scheme with this verification, ideally. -/
structure KeyPairs (verify : Hash → Signature → Bytes → Bool)
    (publicKeyLength signatureLength : ℕ) where
  Key : Type
  publicKey : Key → Bytes
  sign : Key → Hash → Signature
  length_publicKey : ∀ k, (publicKey k).length = publicKeyLength
  length_sign : ∀ k message, (sign k message).length = signatureLength
  verify_iff : ∀ message sig pk,
    verify message sig pk = true ↔ ∃ k, publicKey k = pk ∧ sign k message = sig
  publicKey_eq : ∀ k k' message, sign k message = sign k' message → publicKey k = publicKey k'

/-- A key pair's signature verifies under its public key and under no other. -/
theorem KeyPairs.verify_sign_iff {verify : Hash → Signature → Bytes → Bool} {n m : ℕ}
    (keys : KeyPairs verify n m) (k : keys.Key) (message : Hash) (pk : Bytes) :
    verify message (keys.sign k message) pk = true ↔ pk = keys.publicKey k := by
  rw [keys.verify_iff]
  constructor
  · rintro ⟨k', rfl, hsign⟩
    exact keys.publicKey_eq k' k message hsign
  · rintro rfl
    exact ⟨k, rfl, rfl⟩

/-- Ed25519 and Dilithium5. -/
class SignatureSchemes extends Verifiers where
  ed25519Keys : KeyPairs ed25519 32 64
  dilithium5Keys : KeyPairs dilithium5 2592 4595

/-! ## Hybrid signatures -/

/-- The three forms of `HybridSignature`, and of `HybridPublicKey`. -/
inductive Hybrid : Type where
  | ed25519 (bytes : Bytes)
  | dilithium5 (bytes : Bytes)
  | both (edBytes dilBytes : Bytes)
  deriving DecidableEq, Repr

namespace Hybrid

/-- `to_bytes`, by `bincode`: the number of the form in four bytes, then the byte vectors. -/
def toBytes : Hybrid → Bytes
  | ed25519 bytes => leBytes 4 0 ++ encodeBytes bytes
  | dilithium5 bytes => leBytes 4 1 ++ encodeBytes bytes
  | both edBytes dilBytes => leBytes 4 2 ++ (encodeBytes edBytes ++ encodeBytes dilBytes)

theorem length_encodeBytes (bytes : Bytes) : (encodeBytes bytes).length = 8 + bytes.length := by
  rw [encodeBytes, List.length_append, length_leBytes]

/-- The number of the form, and what comes after it. -/
theorem tag_inj {i j : ℕ} {s t : Bytes} (hi : i < 3) (hj : j < 3)
    (h : leBytes 4 i ++ s = leBytes 4 j ++ t) : i = j ∧ s = t :=
  leBytes_append_inj (by omega) (by omega) h

/-- **The bytes determine the form and what it holds**, and where they end. -/
theorem prefixCode_toBytes : PrefixCode toBytes := by
  have hone : PrefixCode encodeBytes := PrefixCode.bytes
  have htwo := hone.pair hone
  intro a b s t hlen h
  cases a with
  | ed25519 x =>
      rw [toBytes, List.append_assoc] at h
      rw [toBytes, List.append_assoc, List.length_append] at hlen
      cases b with
      | ed25519 y =>
          rw [toBytes, List.append_assoc] at h
          obtain ⟨-, hrest⟩ := tag_inj (by omega) (by omega) h
          obtain ⟨hxy, hst⟩ := hone x y s t (by omega) hrest
          exact ⟨congrArg ed25519 hxy, hst⟩
      | dilithium5 y =>
          rw [toBytes, List.append_assoc] at h
          exact absurd (tag_inj (by omega) (by omega) h).1 (by decide)
      | both y y' =>
          rw [toBytes, List.append_assoc] at h
          exact absurd (tag_inj (by omega) (by omega) h).1 (by decide)
  | dilithium5 x =>
      rw [toBytes, List.append_assoc] at h
      rw [toBytes, List.append_assoc, List.length_append] at hlen
      cases b with
      | ed25519 y =>
          rw [toBytes, List.append_assoc] at h
          exact absurd (tag_inj (by omega) (by omega) h).1 (by decide)
      | dilithium5 y =>
          rw [toBytes, List.append_assoc] at h
          obtain ⟨-, hrest⟩ := tag_inj (by omega) (by omega) h
          obtain ⟨hxy, hst⟩ := hone x y s t (by omega) hrest
          exact ⟨congrArg dilithium5 hxy, hst⟩
      | both y y' =>
          rw [toBytes, List.append_assoc] at h
          exact absurd (tag_inj (by omega) (by omega) h).1 (by decide)
  | both x x' =>
      rw [toBytes, List.append_assoc] at h
      rw [toBytes, List.append_assoc, List.length_append] at hlen
      cases b with
      | ed25519 y =>
          rw [toBytes, List.append_assoc] at h
          exact absurd (tag_inj (by omega) (by omega) h).1 (by decide)
      | dilithium5 y =>
          rw [toBytes, List.append_assoc] at h
          exact absurd (tag_inj (by omega) (by omega) h).1 (by decide)
      | both y y' =>
          have h' : leBytes 4 2 ++ (encodeBytes x ++ encodeBytes x' ++ s) =
              leBytes 4 2 ++ (encodeBytes y ++ encodeBytes y' ++ t) := by
            simpa only [toBytes, List.append_assoc] using h
          obtain ⟨-, hrest⟩ := tag_inj (by omega) (by omega) h'
          obtain ⟨hxy, hst⟩ := htwo (x, x') (y, y') s t (by dsimp only; omega) hrest
          exact ⟨congrArg (fun p : Bytes × Bytes => both p.1 p.2) hxy, hst⟩

end Hybrid

/-! ## Signers -/

section Signers

open SignatureSchemes

variable [SignatureSchemes]

/-- An `Ed25519Signer` or a `Dilithium5Signer`. -/
inductive Signer : Type _ where
  | ed25519 (key : ed25519Keys.Key)
  | dilithium5 (key : dilithium5Keys.Key)

namespace Signer

/-- `Signer::public_key_bytes`. -/
def publicKeyBytes : Signer → Bytes
  | ed25519 key => ed25519Keys.publicKey key
  | dilithium5 key => dilithium5Keys.publicKey key

/-- `Signer::sign`. -/
def sign : Signer → Hash → Signature
  | ed25519 key => ed25519Keys.sign key
  | dilithium5 key => dilithium5Keys.sign key

/-- `Signer::address`: the hash of the public key. -/
def address [Primitives] (s : Signer) : Address := Primitives.sha3_256 s.publicKeyBytes

/-- One signature is made under one public key. -/
theorem publicKeyBytes_eq {s s' : Signer} {message : Hash}
    (h : s.sign message = s'.sign message) : s.publicKeyBytes = s'.publicKeyBytes := by
  have hlength := congrArg List.length h
  cases s with
  | ed25519 k =>
      cases s' with
      | ed25519 k' => exact ed25519Keys.publicKey_eq k k' message h
      | dilithium5 k' =>
          rw [sign, sign, ed25519Keys.length_sign, dilithium5Keys.length_sign] at hlength
          omega
  | dilithium5 k =>
      cases s' with
      | ed25519 k' =>
          rw [sign, sign, ed25519Keys.length_sign, dilithium5Keys.length_sign] at hlength
          omega
      | dilithium5 k' => exact dilithium5Keys.publicKey_eq k k' message h

end Signer

/-! ## Transactions -/

section Transactions

variable [Primitives]

/-- The transaction carries the signer's signature. -/
def Transaction.SignedBy (tx : Transaction) (s : Signer) : Prop := s.sign tx.sighash = tx.signature

/-- `verify_signature` takes the signature of a signer whose public key is the sender's address. -/
theorem verifySignature_iff (tx : Transaction) :
    MempoolValidator.verifySignature tx = true ↔
      ∃ s, tx.SignedBy s ∧ s.publicKeyBytes = tx.from.toList := by
  unfold MempoolValidator.verifySignature
  constructor
  · intro h
    split_ifs at h with hempty hed hdil
    · obtain ⟨k, hk, hsign⟩ := (ed25519Keys.verify_iff _ _ _).mp h
      exact ⟨.ed25519 k, hsign, hk⟩
    · obtain ⟨k, hk, hsign⟩ := (dilithium5Keys.verify_iff _ _ _).mp h
      exact ⟨.dilithium5 k, hsign, hk⟩
  · rintro ⟨s, hsign, hk⟩
    cases s with
    | dilithium5 k =>
        -- an address is too short for a public key of Dilithium5
        have hlength := congrArg List.length hk
        rw [Signer.publicKeyBytes, dilithium5Keys.length_publicKey, Vector.length_toList] at hlength
        omega
    | ed25519 k =>
        have hlength : tx.signature.length = 64 := by
          rw [← hsign]
          exact ed25519Keys.length_sign k _
        have hempty : ¬ tx.signature.isEmpty = true := by
          rw [List.isEmpty_iff]
          intro h
          rw [h] at hlength
          cases hlength
        rw [if_neg hempty, if_pos hlength]
        exact (ed25519Keys.verify_iff _ _ _).mpr ⟨k, hk, hsign⟩

/-- The check accepts the signature of the sender, and no other. -/
structure CheckedRight (tx : Transaction) : Prop where
  complete : ∀ s : Signer, s.address = tx.from → tx.SignedBy s →
    MempoolValidator.verifySignature tx = true
  sound : MempoolValidator.verifySignature tx = true →
    ∃ s : Signer, s.address = tx.from ∧ tx.SignedBy s

/-- **When the check of a signature is right**: a signer with the sender's address, or with that
address for its public key, has an address that is its public key; with a hash that has no such
fixed point, there is no such signer. -/
theorem checked_right_iff (tx : Transaction) :
    CheckedRight tx ↔ ∀ s : Signer, tx.SignedBy s →
      (s.address = tx.from ∨ s.publicKeyBytes = tx.from.toList) →
        s.publicKeyBytes = s.address.toList := by
  constructor
  · rintro hright s hsigned (haddress | hkey)
    · obtain ⟨s', hsigned', hkey⟩ :=
        (verifySignature_iff tx).mp (hright.complete s haddress hsigned)
      rw [haddress, Signer.publicKeyBytes_eq (hsigned.trans hsigned'.symm), hkey]
    · obtain ⟨s', haddress, hsigned'⟩ :=
        hright.sound ((verifySignature_iff tx).mpr ⟨s, hsigned, hkey⟩)
      rw [hkey, ← haddress, Signer.address, Signer.address,
        Signer.publicKeyBytes_eq (hsigned.trans hsigned'.symm)]
  · intro hfixed
    refine ⟨fun s haddress hsigned => ?_, fun h => ?_⟩
    · refine (verifySignature_iff tx).mpr ⟨s, hsigned, ?_⟩
      rw [hfixed s hsigned (Or.inl haddress), haddress]
    · obtain ⟨s, hsigned, hkey⟩ := (verifySignature_iff tx).mp h
      refine ⟨s, Vector.toList_inj.mp ?_, hsigned⟩
      rw [← hfixed s hsigned (Or.inr hkey), hkey]

end Transactions

/-! ## Hybrid signers -/

/-- `HybridSigner`. -/
inductive HybridSigner : Type _ where
  | ed25519 (key : ed25519Keys.Key)
  | dilithium5 (key : dilithium5Keys.Key)
  | both (edKey : ed25519Keys.Key) (dilKey : dilithium5Keys.Key)

namespace HybridSigner

/-- `HybridSigner::sign`. -/
def sign (s : HybridSigner) (message : Hash) : Hybrid :=
  match s with
  | ed25519 key => .ed25519 (ed25519Keys.sign key message)
  | dilithium5 key => .dilithium5 (dilithium5Keys.sign key message)
  | both edKey dilKey => .both (ed25519Keys.sign edKey message) (dilithium5Keys.sign dilKey message)

/-- `HybridSigner::public_keys`. -/
def publicKeys : HybridSigner → Hybrid
  | ed25519 key => .ed25519 (ed25519Keys.publicKey key)
  | dilithium5 key => .dilithium5 (dilithium5Keys.publicKey key)
  | both edKey dilKey => .both (ed25519Keys.publicKey edKey) (dilithium5Keys.publicKey dilKey)

/-- The bytes of a signature are 76, 4607 or 4679 bytes long. -/
theorem length_toBytes_sign (s : HybridSigner) (message : Hash) :
    (s.sign message).toBytes.length = 76 ∨ (s.sign message).toBytes.length = 4607 ∨
      (s.sign message).toBytes.length = 4679 := by
  cases s <;> simp only [sign, Hybrid.toBytes, List.length_append, length_leBytes,
    Hybrid.length_encodeBytes, ed25519Keys.length_sign, dilithium5Keys.length_sign]
  · left
    trivial
  · right
    left
    trivial
  · right
    right
    trivial

end HybridSigner

/-- `HybridSignature::verify`. -/
def Hybrid.verify (sig : Hybrid) (message : Hash) (publicKey : Hybrid) : Bool :=
  match sig, publicKey with
  | .ed25519 sig, .ed25519 pk => Verifiers.ed25519 message sig pk
  | .dilithium5 sig, .dilithium5 pk => Verifiers.dilithium5 message sig pk
  | .both sig sig', .both pk pk' =>
    Verifiers.ed25519 message sig pk && Verifiers.dilithium5 message sig' pk'
  | _, _ => false

/-- **A hybrid signature verifies under the public keys of its signer and under no others.** -/
theorem hybrid_verify_iff (s : HybridSigner) (message : Hash) (publicKey : Hybrid) :
    (s.sign message).verify message publicKey = true ↔ publicKey = s.publicKeys := by
  cases s with
  | ed25519 key =>
      cases publicKey with
      | ed25519 pk =>
          rw [HybridSigner.publicKeys, Hybrid.ed25519.injEq]
          exact ed25519Keys.verify_sign_iff key message pk
      | dilithium5 _ => exact iff_of_false Bool.false_ne_true nofun
      | both _ _ => exact iff_of_false Bool.false_ne_true nofun
  | dilithium5 key =>
      cases publicKey with
      | ed25519 _ => exact iff_of_false Bool.false_ne_true nofun
      | dilithium5 pk =>
          rw [HybridSigner.publicKeys, Hybrid.dilithium5.injEq]
          exact dilithium5Keys.verify_sign_iff key message pk
      | both _ _ => exact iff_of_false Bool.false_ne_true nofun
  | both edKey dilKey =>
      cases publicKey with
      | ed25519 _ => exact iff_of_false Bool.false_ne_true nofun
      | dilithium5 _ => exact iff_of_false Bool.false_ne_true nofun
      | both pk pk' =>
          rw [HybridSigner.publicKeys, Hybrid.both.injEq, HybridSigner.sign, Hybrid.verify,
            Bool.and_eq_true]
          exact and_congr (ed25519Keys.verify_sign_iff edKey message pk)
            (dilithium5Keys.verify_sign_iff dilKey message pk')

/-! ## Votes -/

section Votes

variable [Primitives]

/-- The vote as `HotStuffEngine` signs it. -/
def Vote.signedBy (vote : Vote) (s : HybridSigner) : Vote :=
  vote.signed (some fun message => (s.sign message).toBytes)

/-- **No signed vote passes the vote manager**, whatever the validator's public key. -/
theorem signed_vote_refused (s : HybridSigner) (vote : Vote) :
    VoteManager.verifyVoteSignature (vote.signedBy s) s.publicKeys.toBytes = false ∧
      ∀ publicKey, VoteManager.verifyVoteSignature (vote.signedBy s) publicKey = false := by
  have hall : ∀ publicKey,
      VoteManager.verifyVoteSignature (vote.signedBy s) publicKey = false := by
    intro publicKey
    have hlength := s.length_toBytes_sign vote.signingHash
    have hed : ¬ (vote.signedBy s).signature.length = 64 := by
      show ¬ (s.sign vote.signingHash).toBytes.length = 64
      omega
    have hdil : ¬ (vote.signedBy s).signature.length = 4595 := by
      show ¬ (s.sign vote.signingHash).toBytes.length = 4595
      omega
    unfold VoteManager.verifyVoteSignature
    rw [if_neg hed, if_neg hdil]
  exact ⟨hall _, hall⟩

end Votes

end Signers

/-! ## Small schemes -/

section Example

namespace Toy

/-- A scheme that signs with the public key, the message and some zeros. -/
def keyPairs (n m : ℕ) (hm : n + 32 ≤ m) :
    KeyPairs (fun message sig pk => decide (pk.length = n ∧
      sig = pk ++ (message.toList ++ List.replicate (m - (n + 32)) 0))) n m where
  Key := { pk : Bytes // pk.length = n }
  publicKey k := k.1
  sign k message := k.1 ++ (message.toList ++ List.replicate (m - (n + 32)) 0)
  length_publicKey k := k.2
  length_sign k message := by
    rw [List.length_append, List.length_append, k.2, Vector.length_toList, List.length_replicate]
    omega
  verify_iff message sig pk := by
    rw [decide_eq_true_eq]
    constructor
    · rintro ⟨hpk, rfl⟩
      exact ⟨⟨pk, hpk⟩, rfl, rfl⟩
    · rintro ⟨k, rfl, rfl⟩
      exact ⟨k.2, rfl⟩
  publicKey_eq k k' message h := (List.append_inj h (k.2.trans k'.2.symm)).1

scoped instance primitives : Primitives := Sample.small

scoped instance schemes : SignatureSchemes where
  ed25519 message sig pk := decide (pk.length = 32 ∧
    sig = pk ++ (message.toList ++ List.replicate (64 - (32 + 32)) 0))
  dilithium5 message sig pk := decide (pk.length = 2592 ∧
    sig = pk ++ (message.toList ++ List.replicate (4595 - (2592 + 32)) 0))
  ed25519Keys := keyPairs 32 64 (by decide)
  dilithium5Keys := keyPairs 2592 4595 (by decide)

/-- A signer of Ed25519. -/
def alice : Signer := .ed25519 (⟨List.replicate 32 1, rfl⟩ : { pk : Bytes // pk.length = 32 })

/-- A transfer from her address, with her signature. -/
def transfer : Transaction :=
  let unsigned : Transaction := ⟨alice.address, Vector.replicate 32 2, 1000, 10, 0, [], 5⟩
  { unsigned with signature := alice.sign unsigned.sighash }

end Toy

open scoped Toy
open Toy

/-- A properly signed transfer is refused. -/
theorem signed_transfer_refused :
    alice.address = transfer.from ∧ transfer.SignedBy alice ∧
      MempoolValidator.verifySignature transfer = false ∧ ¬ CheckedRight transfer := by
  have hsigned : transfer.SignedBy alice := rfl
  have hrefused : MempoolValidator.verifySignature transfer = false := by decide +kernel
  refine ⟨rfl, hsigned, hrefused, fun h => ?_⟩
  rw [h.complete alice rfl hsigned] at hrefused
  cases hrefused

/-- A prevote signed with a key of Ed25519 is refused. -/
theorem signed_prevote_refused :
    VoteManager.verifyVoteSignature ((Vote.new 1 0 zero32 3 .prevote 5).signedBy
      (.ed25519 (⟨List.replicate 32 1, rfl⟩ : { pk : Bytes // pk.length = 32 })))
        (Hybrid.ed25519 (List.replicate 32 1)).toBytes = false := by
  decide +kernel

end Example
