/-
# Multi-signatures

`MultiSigEd25519` of `src/crypto/ed25519.rs`, over the keys and signatures of the `ed25519-dalek`
crate (`Ed25519`).

The loop marks positions of the key list as used, not keys.  A key that stands in the list several
times therefore signs several times: what counts is, for every key, the smaller of the number of
its signatures and of its positions (`verify_iff`).
-/
import Pacyte.Types

/-- What `MultiSigEd25519` takes from the `ed25519-dalek` crate: keys and signatures from bytes, and
the verification. -/
class Ed25519 (κ : Type) (σ : outParam Type) where
  publicKeyFromBytes : Bytes → Except String κ
  signatureFromBytes : Bytes → Option σ
  verifies : κ → Bytes → σ → Bool

open Ed25519

/-- `MultiSigEd25519`. -/
structure MultiSig (κ : Type) where
  threshold : ℕ
  publicKeys : List κ

namespace MultiSig

variable {κ σ : Type} [Ed25519 κ σ]

/-! ## The loops -/

/-- `MultiSigEd25519::new`. -/
def new (threshold : ℕ) (publicKeys : List Bytes) : Except PacyteError (MultiSig κ) :=
  if threshold = 0 ∨ publicKeys.length < threshold then
    .error (.cryptoError
      ("Invalid threshold: " ++ toString threshold ++ "/" ++ toString publicKeys.length))
  else
    match publicKeys.mapM publicKeyFromBytes with
    | .error e => .error (.cryptoError e)
    | .ok pks => .ok ⟨threshold, pks⟩

/-- The inner loop of `verify`: the first position that is not used and whose key verifies the
signature. -/
def findUnused (used : List ℕ) (message : Bytes) (sig : σ) : List (κ × ℕ) → Option ℕ
  | [] => none
  | (pk, idx) :: rest =>
    if idx ∈ used then findUnused used message sig rest
    else if verifies pk message sig then some idx
    else findUnused used message sig rest

/-- The outer loop of `verify`. -/
def verifyLoop (threshold : ℕ) (entries : List (κ × ℕ)) (message : Bytes) :
    List Bytes → ℕ → List ℕ → Bool
  | [], _, _ => false
  | sigBytes :: rest, validCount, used =>
    match signatureFromBytes κ sigBytes with
    | none => verifyLoop threshold entries message rest validCount used
    | some sig =>
      match findUnused used message sig entries with
      | some idx =>
        if threshold ≤ validCount + 1 then true
        else verifyLoop threshold entries message rest (validCount + 1) (idx :: used)
      | none =>
        if threshold ≤ validCount then true
        else verifyLoop threshold entries message rest validCount used

/-- `verify`. -/
def verify (ms : MultiSig κ) (message : Bytes) (signatures : List Bytes) : Bool :=
  if signatures.length < ms.threshold then false
  else verifyLoop ms.threshold ms.publicKeys.zipIdx message signatures 0 []

/-! ## Keys and their signatures -/

/-- The bytes are a signature of the message under the key. -/
def validFor (message : Bytes) (k : κ) (sigBytes : Bytes) : Bool :=
  match signatureFromBytes κ sigBytes with
  | none => false
  | some sig => verifies k message sig

variable (κ) in
/-- Ideal signatures: a signature of a message verifies under one key only. -/
def OneKey : Prop :=
  ∀ (k k' : κ) (message : Bytes) (sig : σ),
    verifies k message sig = true → verifies k' message sig = true → k = k'

variable [DecidableEq κ]

/-- The keys of the list that signed the message. -/
def signers (ms : MultiSig κ) (message : Bytes) (signatures : List Bytes) : Finset κ :=
  ms.publicKeys.toFinset.filter fun k => ∃ b ∈ signatures, validFor message k b = true

/-- How many signatures count if every key may be used as often as it stands in the list. -/
def counted (ms : MultiSig κ) (message : Bytes) (signatures : List Bytes) : ℕ :=
  ∑ k ∈ ms.publicKeys.toFinset,
    min (signatures.countP (validFor message k)) (ms.publicKeys.count k)

/-- The key of the list under which a signature verifies. -/
def signerOf (keys : List κ) (message sigBytes : Bytes) : Option κ :=
  keys.find? fun k => validFor message k sigBytes

/-- The keys at the positions that are not used. -/
def unused (used : List ℕ) (entries : List (κ × ℕ)) : Multiset κ :=
  ((entries.filter fun e => e.2 ∉ used).map Prod.fst : List κ)

/-! ## The positions that are left -/

omit [DecidableEq κ] in
theorem findUnused_some {used : List ℕ} {message : Bytes} {sig : σ} {entries : List (κ × ℕ)}
    {idx : ℕ} (h : findUnused used message sig entries = some idx) :
    ∃ pk, (pk, idx) ∈ entries ∧ idx ∉ used ∧ verifies pk message sig = true := by
  induction entries with
  | nil => cases h
  | cons e rest ih =>
      obtain ⟨pk, i⟩ := e
      rw [findUnused] at h
      split_ifs at h with hused hverifies
      · obtain ⟨pk', hmem, hrest⟩ := ih h
        exact ⟨pk', List.mem_cons_of_mem _ hmem, hrest⟩
      · obtain rfl : i = idx := Option.some.inj h
        exact ⟨pk, List.mem_cons_self, hused, hverifies⟩
      · obtain ⟨pk', hmem, hrest⟩ := ih h
        exact ⟨pk', List.mem_cons_of_mem _ hmem, hrest⟩

omit [DecidableEq κ] in
theorem findUnused_none {used : List ℕ} {message : Bytes} {sig : σ} {entries : List (κ × ℕ)}
    (h : findUnused used message sig entries = none) :
    ∀ e ∈ entries, e.2 ∉ used → verifies e.1 message sig = false := by
  induction entries with
  | nil => exact fun e he => absurd he List.not_mem_nil
  | cons e rest ih =>
      obtain ⟨pk, i⟩ := e
      rw [findUnused] at h
      intro e he hfree
      split_ifs at h with hused hverifies
      · rcases List.mem_cons.mp he with rfl | hrest
        · exact absurd hused hfree
        · exact ih h e hrest hfree
      · rcases List.mem_cons.mp he with rfl | hrest
        · exact Bool.eq_false_iff.mpr hverifies
        · exact ih h e hrest hfree

omit [DecidableEq κ] [Ed25519 κ σ] in
/-- A position that becomes used takes its key away. -/
theorem unused_cons {used : List ℕ} {entries : List (κ × ℕ)} {pk : κ} {idx : ℕ}
    (hnodup : (entries.map Prod.snd).Nodup) (hmem : (pk, idx) ∈ entries) (hfree : idx ∉ used) :
    unused used entries = pk ::ₘ unused (idx :: used) entries := by
  have hperm : (entries.filter fun e => e.2 ∉ used).Perm
      ((pk, idx) :: entries.filter fun e => e.2 ∉ idx :: used) := by
    have hentries := List.Nodup.of_map _ hnodup
    rw [List.perm_ext_iff_of_nodup (hentries.filter _)]
    · intro e
      rw [List.mem_filter, List.mem_cons, List.mem_filter, decide_eq_true_eq, decide_eq_true_eq,
        List.mem_cons, not_or]
      constructor
      · rintro ⟨he, hused⟩
        by_cases hidx : e.2 = idx
        · exact Or.inl (List.inj_on_of_nodup_map hnodup he hmem hidx)
        · exact Or.inr ⟨he, hidx, hused⟩
      · rintro (rfl | ⟨he, -, hused⟩)
        · exact ⟨hmem, hfree⟩
        · exact ⟨he, hused⟩
    · rw [List.nodup_cons, List.mem_filter, decide_eq_true_eq]
      exact ⟨fun h => h.2 List.mem_cons_self, hentries.filter _⟩
  unfold unused
  rw [Multiset.cons_coe, Multiset.coe_eq_coe]
  exact hperm.map Prod.fst

omit [DecidableEq κ] [Ed25519 κ σ] in
theorem mem_unused {used : List ℕ} {entries : List (κ × ℕ)} {pk : κ} :
    pk ∈ unused used entries ↔ ∃ idx, (pk, idx) ∈ entries ∧ idx ∉ used := by
  unfold unused
  rw [Multiset.mem_coe, List.mem_map]
  constructor
  · rintro ⟨⟨pk', idx⟩, he, rfl⟩
    rw [List.mem_filter, decide_eq_true_eq] at he
    exact ⟨idx, he⟩
  · rintro ⟨idx, hmem, hfree⟩
    exact ⟨(pk, idx), List.mem_filter.mpr ⟨hmem, decide_eq_true hfree⟩, rfl⟩

/-! ## What counts -/

omit [DecidableEq κ] in
theorem validFor_of_signerOf {keys : List κ} {message sigBytes : Bytes} {k : κ}
    (h : signerOf keys message sigBytes = some k) : validFor message k sigBytes = true :=
  List.find?_some (p := fun k => validFor message k sigBytes) h

omit [DecidableEq κ] in
/-- The only key under which a signature verifies is the one that is found. -/
theorem signerOf_eq_some (hone : OneKey κ) {keys : List κ} {message sigBytes : Bytes} {k : κ}
    (hk : k ∈ keys) : signerOf keys message sigBytes = some k ↔ validFor message k sigBytes = true := by
  constructor
  · exact validFor_of_signerOf
  · intro hvalid
    cases hfind : signerOf keys message sigBytes with
    | none => exact absurd hvalid (List.find?_eq_none.mp hfind k hk)
    | some k' =>
        have hvalid' : validFor message k' sigBytes = true := validFor_of_signerOf hfind
        unfold validFor at hvalid hvalid'
        cases hparse : signatureFromBytes κ sigBytes with
        | none =>
            rw [hparse] at hvalid
            cases hvalid
        | some sig =>
            rw [hparse] at hvalid hvalid'
            rw [hone k' k message sig hvalid' hvalid]

omit [DecidableEq κ] in
theorem validFor_of_parse {message sigBytes : Bytes} {sig : σ} {k : κ}
    (hparse : signatureFromBytes κ sigBytes = some sig) :
    validFor message k sigBytes = verifies k message sig := by
  unfold validFor
  rw [hparse]

/-- The loop counts the signatures whose keys are left, each at one position. -/
theorem verifyLoop_iff (hone : OneKey κ) {threshold : ℕ} {keys : List κ} {entries : List (κ × ℕ)}
    (hnodup : (entries.map Prod.snd).Nodup) (hkeys : ∀ e ∈ entries, e.1 ∈ keys) (message : Bytes)
    (signatures : List Bytes) {validCount : ℕ} (hcount : validCount < threshold) (used : List ℕ) :
    verifyLoop threshold entries message signatures validCount used = true ↔
      threshold ≤ validCount +
        ((signatures.filterMap (signerOf keys message) : Multiset κ) ∩
          unused used entries).card := by
  induction signatures generalizing validCount used with
  | nil =>
      rw [verifyLoop, List.filterMap_nil, Multiset.coe_nil, Multiset.zero_inter,
        Multiset.card_zero]
      exact iff_of_false Bool.false_ne_true (by omega)
  | cons sigBytes rest ih =>
      rw [verifyLoop]
      cases hparse : signatureFromBytes κ sigBytes with
      | none =>
          have hnone : signerOf keys message sigBytes = none := by
            refine List.find?_eq_none.mpr fun k _ => ?_
            unfold validFor
            rw [hparse]
            exact Bool.false_ne_true
          rw [List.filterMap_cons_none hnone]
          exact ih hcount used
      | some sig =>
          dsimp only
          cases hfound : findUnused used message sig entries with
          | some idx =>
              obtain ⟨pk, hmem, hfree, hverifies⟩ := findUnused_some hfound
              have hsigner : signerOf keys message sigBytes = some pk :=
                (signerOf_eq_some hone (hkeys _ hmem)).mpr
                  ((validFor_of_parse hparse).trans hverifies)
              rw [List.filterMap_cons_some hsigner, ← Multiset.cons_coe,
                unused_cons hnodup hmem hfree, Multiset.cons_inter_of_pos _ (Multiset.mem_cons_self _ _),
                Multiset.erase_cons_head, Multiset.card_cons]
              dsimp only
              split_ifs with henough
              · exact iff_of_true rfl (by omega)
              · rw [ih (by omega) (idx :: used)]
                omega
          | none =>
              have hskip : (signatures : List Bytes) → ((sigBytes :: signatures).filterMap
                  (signerOf keys message) : Multiset κ) ∩ unused used entries =
                  (signatures.filterMap (signerOf keys message) : Multiset κ) ∩
                    unused used entries := by
                intro signatures
                cases hsigner : signerOf keys message sigBytes with
                | none => rw [List.filterMap_cons_none hsigner]
                | some pk =>
                    rw [List.filterMap_cons_some hsigner, ← Multiset.cons_coe]
                    refine Multiset.cons_inter_of_neg _ fun hleft => ?_
                    obtain ⟨idx, hmem, hfree⟩ := mem_unused.mp hleft
                    have hvalid := validFor_of_signerOf hsigner
                    rw [validFor_of_parse hparse, findUnused_none hfound _ hmem hfree] at hvalid
                    cases hvalid
              rw [hskip rest, if_neg (by omega)]
              exact ih hcount used

/-- The signatures that count, key by key. -/
theorem card_inter_signers (hone : OneKey κ) (ms : MultiSig κ) (message : Bytes)
    (signatures : List Bytes) :
    ((signatures.filterMap (signerOf ms.publicKeys message) : Multiset κ) ∩
      (ms.publicKeys : Multiset κ)).card = ms.counted message signatures := by
  rw [← Multiset.sum_count_eq_card (s := ms.publicKeys.toFinset)]
  · refine Finset.sum_congr rfl fun k hk => ?_
    rw [List.mem_toFinset] at hk
    rw [Multiset.count_inter, Multiset.coe_count, Multiset.coe_count, List.count_filterMap]
    congr 1
    refine List.countP_congr fun b _ => ?_
    rw [beq_iff_eq]
    exact signerOf_eq_some hone hk
  · intro k hk
    exact List.mem_toFinset.mpr (Multiset.mem_coe.mp (Multiset.mem_inter.mp hk).2)

omit [DecidableEq κ] [Ed25519 κ σ] in
theorem unused_nil (keys : List κ) : unused [] keys.zipIdx = (keys : Multiset κ) := by
  unfold unused
  rw [List.filter_eq_self.mpr fun e _ => decide_eq_true List.not_mem_nil, List.zipIdx_map_fst]

/-- The verification accepts where enough signatures count. -/
theorem verify_iff (hone : OneKey κ) (ms : MultiSig κ) (hpos : 0 < ms.threshold) (message : Bytes)
    (signatures : List Bytes) :
    ms.verify message signatures = true ↔ ms.threshold ≤ ms.counted message signatures := by
  have hnodup : (ms.publicKeys.zipIdx.map Prod.snd).Nodup := by
    rw [List.zipIdx_map_snd]
    exact List.nodup_range'
  have hkeys : ∀ e ∈ ms.publicKeys.zipIdx, e.1 ∈ ms.publicKeys := fun e he =>
    List.fst_mem_of_mem_zipIdx he
  have hcard := card_inter_signers hone ms message signatures
  have hloop := verifyLoop_iff hone hnodup hkeys message signatures hpos []
  rw [unused_nil, hcard, Nat.zero_add] at hloop
  unfold verify
  by_cases hfew : signatures.length < ms.threshold
  · rw [if_pos hfew]
    refine iff_of_false Bool.false_ne_true ?_
    have hle := Multiset.card_le_card (Multiset.inter_le_left
      (s := (signatures.filterMap (signerOf ms.publicKeys message) : Multiset κ))
      (t := (ms.publicKeys : Multiset κ)))
    have hlength := List.length_filterMap_le (signerOf ms.publicKeys message) signatures
    rw [hcard, Multiset.coe_card] at hle
    omega
  · rw [if_neg hfew]
    exact hloop

/-- Every key that signed counts. -/
theorem card_signers_le (ms : MultiSig κ) (message : Bytes) (signatures : List Bytes) :
    (ms.signers message signatures).card ≤ ms.counted message signatures := by
  unfold signers counted
  rw [Finset.card_eq_sum_ones]
  refine le_trans (Finset.sum_le_sum fun k hk => ?_)
    (Finset.sum_le_sum_of_subset (Finset.filter_subset _ _))
  obtain ⟨hmem, b, hb, hvalid⟩ := Finset.mem_filter.mp hk
  have hsigned := List.countP_pos_iff.mpr ⟨b, hb, hvalid⟩
  have hlisted := List.count_pos_iff.mpr (List.mem_toFinset.mp hmem)
  exact le_min hsigned hlisted

omit [DecidableEq κ] in
theorem new_ok {threshold : ℕ} {publicKeys : List Bytes} {ms : MultiSig κ}
    (h : new threshold publicKeys = .ok ms) : 0 < ms.threshold ∧ ms.threshold = threshold := by
  unfold new at h
  split_ifs at h with hbad
  cases hparse : publicKeys.mapM (publicKeyFromBytes (κ := κ)) with
  | error e =>
      rw [hparse] at h
      cases h
  | ok pks =>
      rw [hparse] at h
      obtain rfl : (⟨threshold, pks⟩ : MultiSig κ) = ms := Except.ok.inj h
      refine ⟨?_, rfl⟩
      show 0 < threshold
      omega

/-- **When a multi-signature needs distinct signers**: the verification accepts exactly where as
many keys as the threshold signed, if and only if that many keys signed or fewer signatures count
even when a repeated key counts as often as it is repeated. -/
theorem distinct_signers_iff (hone : OneKey κ) {threshold : ℕ} {publicKeys : List Bytes}
    {ms : MultiSig κ} (hnew : new threshold publicKeys = .ok ms) (message : Bytes)
    (signatures : List Bytes) :
    ((ms.verify message signatures = true → threshold ≤ (ms.signers message signatures).card) ∧
        (threshold ≤ (ms.signers message signatures).card →
          ms.verify message signatures = true)) ↔
      ms.counted message signatures < threshold ∨
        threshold ≤ (ms.signers message signatures).card := by
  obtain ⟨hpos, hthreshold⟩ := new_ok hnew
  have hverify := verify_iff hone ms hpos message signatures
  have hle := card_signers_le ms message signatures
  rw [hthreshold] at hverify
  rw [hverify]
  omega

end MultiSig

/-! ## A key that stands in the list twice -/

namespace Sample

/-- Keys are bytes, and a signature is the key followed by the message. -/
scoped instance appended : Ed25519 Bytes Bytes where
  publicKeyFromBytes bs := .ok bs
  signatureFromBytes bs := some bs
  verifies k message sig := sig == k ++ message

end Sample

section Example

open MultiSig
open scoped Sample

theorem oneKey_appended : OneKey Bytes := by
  intro k k' message sig h h'
  have heq : sig = k ++ message := eq_of_beq h
  have heq' : sig = k' ++ message := eq_of_beq h'
  exact List.append_cancel_right (heq.symm.trans heq')

/-- One signer passes a threshold of two. -/
theorem repeated_key_signs_twice :
    new 2 [[1], [1]] = .ok (⟨2, [[1], [1]]⟩ : MultiSig Bytes) ∧
      (⟨2, [[1], [1]]⟩ : MultiSig Bytes).verify [7] [[1, 7], [1, 7]] = true ∧
      ¬ 2 ≤ (signers (⟨2, [[1], [1]]⟩ : MultiSig Bytes) [7] [[1, 7], [1, 7]]).card := by
  refine ⟨rfl, by decide, by decide⟩

/-- With two keys the threshold is met by two signers. -/
theorem distinct_signers_two :
    (((⟨2, [[1], [2]]⟩ : MultiSig Bytes).verify [7] [[1, 7], [2, 7]] = true →
        2 ≤ (signers (⟨2, [[1], [2]]⟩ : MultiSig Bytes) [7] [[1, 7], [2, 7]]).card) ∧
      (2 ≤ (signers (⟨2, [[1], [2]]⟩ : MultiSig Bytes) [7] [[1, 7], [2, 7]]).card →
        (⟨2, [[1], [2]]⟩ : MultiSig Bytes).verify [7] [[1, 7], [2, 7]] = true)) :=
  (distinct_signers_iff oneKey_appended
    (show MultiSig.new 2 [[1], [2]] = .ok (⟨2, [[1], [2]]⟩ : MultiSig Bytes) from rfl) [7] _).mpr
    (Or.inr (by decide))

end Example
