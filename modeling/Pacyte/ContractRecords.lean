/-
# Contracts that are deployed

What the two storages and the coding of a record promise is a class each.  Under these a record
is what its contract was deployed with, in every state that a run leads to
(`contracts_stay_as_deployed`): nothing makes a contract upgradeable, so no upgrade succeeds,
and a contract is not deployed a second time.

* The cache holds what the storage holds (`Recorded.cached`), so a new manager on the same
  storages answers the same.
* Where there is a record there is code (`Recorded.coded`), which keeps `deploy` away.
-/
import Pacyte.ContractManager
import Pacyte.Bincode
import Pacyte.Runs

/-- A storage returns what was written last. -/
class LawfulContractStorage (τ : Type) [ContractStorage τ] : Prop where
  get_set_self (a : Address) (k v : Bytes) (s : τ) :
    ContractStorage.get a k (ContractStorage.set a k v s) = some v
  get_set_ne (a a' : Address) (k k' v : Bytes) (s : τ) : a ≠ a' →
    ContractStorage.get a k (ContractStorage.set a' k' v s) = ContractStorage.get a k s

/-- Code stays, and `code_exists` tells whether there is some. -/
class LawfulCodeStorage (κ : Type) [CodeStorage κ] : Prop where
  codeExists_self (a : Address) (code : Bytes) (s : κ) :
    CodeStorage.codeExists a (CodeStorage.setCode a code s) = true
  codeExists_of (a a' : Address) (code : Bytes) (s : κ) : CodeStorage.codeExists a s = true →
    CodeStorage.codeExists a (CodeStorage.setCode a' code s) = true

/-- What is written can be read back. -/
class LawfulMetadataCodec [MetadataCodec] : Prop where
  roundTrip (r : ContractMetadata) (data : Bytes) :
    MetadataCodec.serialize r = .ok data → MetadataCodec.deserialize data = .ok r

namespace ContractManager

open Exec

/-- The record as `deploy` writes it. -/
structure Deployed (address : Address) (r : ContractMetadata) : Prop where
  address : r.address = address
  isUpgradeable : r.isUpgradeable = false
  implementation : r.implementation = none
  version : r.version = 1

section Records

variable {τ κ : Type} [ContractStorage τ] [MetadataCodec] [CodeStorage κ]

/-- The record in the storage. -/
def Stored (address : Address) (r : ContractMetadata) (m : ContractManager τ κ) : Prop :=
  ∃ data, ContractStorage.get address (metadataKey address) m.storage = some data ∧
    MetadataCodec.deserialize data = .ok r

omit [CodeStorage κ] in
theorem Stored.unique {address : Address} {r r' : ContractMetadata} {m : ContractManager τ κ}
    (h : Stored address r m) (h' : Stored address r' m) : r = r' := by
  obtain ⟨data, hget, hdata⟩ := h
  obtain ⟨data', hget', hdata'⟩ := h'
  rw [hget] at hget'
  rw [Option.some.inj hget', hdata'] at hdata
  exact (Except.ok.inj hdata).symm

/-- What holds in every state. -/
structure Recorded (m : ContractManager τ κ) : Prop where
  stored : ∀ a data, ContractStorage.get a (metadataKey a) m.storage = some data →
    ∃ r, MetadataCodec.deserialize data = .ok r ∧ Deployed a r
  cached : ∀ a r, m.metadataCache.lookup a = some r → Stored a r m
  coded : ∀ a r, Stored a r m → CodeStorage.codeExists a m.codeStorage = true

/-- A record that is stored stays. -/
def Keeping (m m' : ContractManager τ κ) : Prop := ∀ a r, Stored a r m → Stored a r m'

omit [CodeStorage κ] in
/-- A record does not depend on the cache. -/
theorem Keeping.of_storage {m m' : ContractManager τ κ} (h : m'.storage = m.storage) :
    Keeping m m' := by
  intro a r hstored
  unfold Stored
  rw [h]
  exact hstored

theorem recorded_new {storage : τ} (codeStorage : κ)
    (hempty : ∀ a, ContractStorage.get a (metadataKey a) storage = none) :
    Recorded (new storage codeStorage) := by
  refine ⟨fun a data hget => ?_, fun a r hlookup => ?_, fun a r hstored => ?_⟩
  · cases (hempty a).symm.trans hget
  · cases hlookup
  · obtain ⟨data, hget, -⟩ := hstored
    cases (hempty a).symm.trans hget

/-- A record of the storage is a deployed one. -/
theorem Recorded.deployed {m : ContractManager τ κ} (hm : Recorded m) {a : Address}
    {r : ContractMetadata} (h : Stored a r m) : Deployed a r := by
  obtain ⟨data, hget, hdata⟩ := h
  obtain ⟨r', hdata', hdeployed⟩ := hm.stored a data hget
  rw [hdata] at hdata'
  rwa [Except.ok.inj hdata']

/-- The cache may hold what the storage holds. -/
theorem Recorded.insert {m : ContractManager τ κ} (hm : Recorded m) {a : Address}
    {r : ContractMetadata} (h : Stored a r m) :
    Recorded { m with metadataCache := m.metadataCache.insert a r } := by
  refine ⟨hm.stored, fun a' r' hlookup => ?_, hm.coded⟩
  by_cases ha : a' = a
  · subst ha
    have hr : r = r' := Option.some.inj ((AList.lookup_insert _).symm.trans hlookup)
    rw [← hr]
    exact h
  · exact hm.cached a' r' ((AList.lookup_insert_ne ha).symm.trans hlookup)

/-! ## Reading -/

/-- **`get_metadata` answers what the storage holds**, and changes the cache only. -/
theorem getMetadata_cases {m : ContractManager τ κ} (hm : Recorded m) (a : Address) :
    (∃ r m', Stored a r m ∧ getMetadata a m = (.ok (some r), m') ∧ Recorded m' ∧
        m'.storage = m.storage ∧ m'.codeStorage = m.codeStorage) ∨
      ((∀ r, ¬ Stored a r m) ∧ getMetadata a m = (.ok none, m)) := by
  unfold getMetadata
  rw [run_bind, run_get]
  dsimp only
  cases hcache : m.metadataCache.lookup a with
  | some r => exact Or.inl ⟨r, m, hm.cached a r hcache, rfl, hm, rfl, rfl⟩
  | none =>
      dsimp only
      cases hget : ContractStorage.get a (metadataKey a) m.storage with
      | none =>
          refine Or.inr ⟨fun r hstored => ?_, rfl⟩
          obtain ⟨data, hdata, -⟩ := hstored
          cases hget.symm.trans hdata
      | some data =>
          -- only `deploy` writes here, so the bytes can be read
          obtain ⟨r, hdata, -⟩ := hm.stored a data hget
          have hstored : Stored a r m := ⟨data, hget, hdata⟩
          dsimp only
          rw [hdata]
          exact Or.inl ⟨r, _, hstored, rfl, hm.insert hstored, rfl, rfl⟩

/-- `get_metadata` finds a record exactly if it is stored. -/
theorem getMetadata_eq_some {m : ContractManager τ κ} (hm : Recorded m) (a : Address)
    (r : ContractMetadata) : (getMetadata a m).1 = .ok (some r) ↔ Stored a r m := by
  rcases getMetadata_cases hm a with ⟨r', m', hstored, hrun, -⟩ | ⟨hnone, hrun⟩
  · rw [hrun]
    constructor
    · rintro ⟨⟩
      exact hstored
    · intro h
      rw [h.unique hstored]
  · rw [hrun]
    constructor
    · rintro ⟨⟩
    · intro h
      exact absurd h (hnone r)

/-! ## Upgrades -/

/-- **No upgrade succeeds**: it is refused, or the contract is not found. -/
theorem upgrade_refused {m : ContractManager τ κ} (hm : Recorded m)
    (proxyAddress newImplementation owner : Address) :
    (∃ e, (upgrade proxyAddress newImplementation owner m).1 = .err e) ∧
      Recorded (upgrade proxyAddress newImplementation owner m).2 ∧
      Keeping m (upgrade proxyAddress newImplementation owner m).2 := by
  unfold upgrade
  rcases getMetadata_cases hm proxyAddress with
    ⟨r, m', hstored, hrun, hm', hstorage, -⟩ | ⟨-, hrun⟩
  · rw [run_bind_of_ok hrun]
    dsimp only
    have hkeep : Keeping m m' := Keeping.of_storage hstorage
    -- the record is one that `deploy` has written
    have hnot : (!r.isUpgradeable) = true := by
      rw [(hm.deployed hstored).isUpgradeable]
      rfl
    by_cases howner : r.owner ≠ owner
    · rw [if_pos howner]
      exact ⟨⟨_, rfl⟩, hm', hkeep⟩
    · rw [if_neg howner, if_pos hnot]
      exact ⟨⟨_, rfl⟩, hm', hkeep⟩
  · rw [run_bind_of_ok hrun]
    exact ⟨⟨_, rfl⟩, hm, fun _ _ h => h⟩

/-! ## Deployments -/

variable [LawfulContractStorage τ] [LawfulCodeStorage κ] [LawfulMetadataCodec] [Keccak256]

omit [LawfulContractStorage τ] [LawfulMetadataCodec] [Keccak256] in
/-- New code at one address. -/
theorem Recorded.setCode {m : ContractManager τ κ} (hm : Recorded m) (a : Address) (code : Bytes) :
    Recorded { m with codeStorage := CodeStorage.setCode a code m.codeStorage } :=
  ⟨hm.stored, hm.cached, fun a' r h =>
    LawfulCodeStorage.codeExists_of a' a code m.codeStorage (hm.coded a' r h)⟩

omit [LawfulCodeStorage κ] [Keccak256] in
/-- A record is written where there was none. -/
theorem Recorded.save {m : ContractManager τ κ} (hm : Recorded m) {a : Address}
    {r : ContractMetadata} {data : Bytes} (hdata : MetadataCodec.serialize r = .ok data)
    (hr : Deployed a r) (hcode : CodeStorage.codeExists a m.codeStorage = true)
    (hnone : ∀ r', ¬ Stored a r' m) :
    let m' := { m with storage := ContractStorage.set a (metadataKey a) data m.storage }
    Recorded m' ∧ Keeping m m' ∧ Stored a r m' := by
  intro m'
  have hself : ContractStorage.get a (metadataKey a) m'.storage = some data :=
    LawfulContractStorage.get_set_self a (metadataKey a) data m.storage
  have hother : ∀ {a'}, a' ≠ a → ContractStorage.get a' (metadataKey a') m'.storage
      = ContractStorage.get a' (metadataKey a') m.storage := fun ha =>
    LawfulContractStorage.get_set_ne _ a _ _ data m.storage ha
  have hread : MetadataCodec.deserialize data = .ok r :=
    LawfulMetadataCodec.roundTrip r data hdata
  have hkeep : Keeping m m' := by
    rintro a' r' ⟨data', hget, hdata'⟩
    by_cases ha : a' = a
    · subst ha
      exact absurd ⟨data', hget, hdata'⟩ (hnone r')
    · exact ⟨data', (hother ha).trans hget, hdata'⟩
  refine ⟨⟨fun a' data' hget => ?_, fun a' r' hlookup => ?_, fun a' r' hstored => ?_⟩, hkeep,
    ⟨data, hself, hread⟩⟩
  · by_cases ha : a' = a
    · subst ha
      rw [hself] at hget
      rw [← Option.some.inj hget]
      exact ⟨r, hread, hr⟩
    · exact hm.stored a' data' ((hother ha).symm.trans hget)
  · exact hkeep a' r' (hm.cached a' r' hlookup)
  · by_cases ha : a' = a
    · subst ha
      exact hcode
    · obtain ⟨data', hget, hdata'⟩ := hstored
      exact hm.coded a' r' ⟨data', (hother ha).symm.trans hget, hdata'⟩

/-- **Deploying** writes a record where there was none, also if it cannot be coded. -/
theorem deploy_spec {m : ContractManager τ κ} (hm : Recorded m) (a owner : Address) (code : Bytes)
    (height : BlockHeight) (now : Timestamp) :
    Recorded (deploy a owner code height now m).2 ∧
      Keeping m (deploy a owner code height now m).2 ∧
      ∀ r, (deploy a owner code height now m).1 = .ok r →
        Stored a r (deploy a owner code height now m).2 := by
  unfold deploy
  rw [run_bind, run_get]
  dsimp only
  by_cases hexists : CodeStorage.codeExists a m.codeStorage = true
  · rw [if_pos hexists]
    refine ⟨hm, fun _ _ h => h, ?_⟩
    rintro r ⟨⟩
  · rw [if_neg hexists, run_bind, run_modify]
    dsimp only
    set m₁ : ContractManager τ κ :=
      { m with codeStorage := CodeStorage.setCode a code m.codeStorage }
    set r := ContractMetadata.new a owner (hashCode code) (UInt64.ofNat code.length) height now
    have hm₁ : Recorded m₁ := hm.setCode a code
    rw [run_bind]
    unfold saveMetadata
    cases hdata : MetadataCodec.serialize r with
    | error message =>
        -- the code is there, but no record
        refine ⟨hm₁, fun _ _ h => h, ?_⟩
        rintro r' ⟨⟩
    | ok data =>
        -- a record would have kept `deploy` away by its code
        have hnone : ∀ r', ¬ Stored a r' m₁ := fun r' h => hexists (hm.coded a r' h)
        obtain ⟨hm₂, hkeep, hstored⟩ := hm₁.save hdata ⟨rfl, rfl, rfl, rfl⟩
          (LawfulCodeStorage.codeExists_self a code m.codeStorage) hnone
        refine ⟨hm₂.insert hstored, hkeep, ?_⟩
        rintro r' ⟨⟩
        exact hstored

/-! ## Runs -/

/-- **Every call keeps the records.** -/
theorem after_recorded {m : ContractManager τ κ} (hm : Recorded m) (call : ContractCall) :
    Recorded (call.after m) ∧ Keeping m (call.after m) := by
  cases call with
  | deploy address owner code height now =>
      obtain ⟨hrecorded, hkeep, -⟩ := deploy_spec hm address owner code height now
      exact ⟨hrecorded, hkeep⟩
  | upgrade proxyAddress newImplementation owner =>
      exact (upgrade_refused hm proxyAddress newImplementation owner).2
  | getMetadata address =>
      show Recorded (getMetadata address m).2 ∧ Keeping m (getMetadata address m).2
      rcases getMetadata_cases hm address with ⟨r, m', -, hrun, hm', hstorage, -⟩ | ⟨-, hrun⟩
      · rw [hrun]
        exact ⟨hm', Keeping.of_storage hstorage⟩
      · rw [hrun]
        exact ⟨hm, fun _ _ h => h⟩
  | setCode address code => exact ⟨hm.setCode address code, fun _ _ h => h⟩
  | restart =>
      refine ⟨⟨hm.stored, fun a r hlookup => ?_, hm.coded⟩, fun _ _ h => h⟩
      cases hlookup

theorem run_recorded {m : ContractManager τ κ} (hm : Recorded m) (calls : List ContractCall) :
    Recorded (Runs.run ContractCall.after m calls) ∧
      Keeping m (Runs.run ContractCall.after m calls) := by
  induction calls generalizing m with
  | nil => exact ⟨hm, fun _ _ h => h⟩
  | cons call rest ih =>
      obtain ⟨hstep, hkeep⟩ := after_recorded hm call
      obtain ⟨hrest, hkeep'⟩ := ih hstep
      exact ⟨hrest, fun a r h => hkeep' a r (hkeep a r h)⟩

end Records

/-- **A contract stays as it was deployed.**  On storages without records, after any calls of
the manager, restarts and contracts that transactions create: an upgrade is refused, a record
that `get_metadata` answers is the one of a deployment, and after any further calls the answer
is still the same; what `deploy` returns is what is read from then on. -/
theorem contracts_stay_as_deployed {τ κ : Type} [ContractStorage τ] [LawfulContractStorage τ]
    [CodeStorage κ] [LawfulCodeStorage κ] [MetadataCodec] [LawfulMetadataCodec] [Keccak256]
    (storage : τ) (codeStorage : κ)
    (hempty : ∀ a, ContractStorage.get a (metadataKey a) storage = none)
    (calls more : List ContractCall) :
    let m := Runs.run ContractCall.after (new storage codeStorage) calls
    let m' := Runs.run ContractCall.after m more
    (∀ proxyAddress newImplementation owner,
        ∃ e, (upgrade proxyAddress newImplementation owner m).1 = .err e) ∧
      (∀ a r, (getMetadata a m).1 = .ok (some r) →
        Deployed a r ∧ (getMetadata a m').1 = .ok (some r)) ∧
      ∀ a owner code height now r, (deploy a owner code height now m).1 = .ok r →
        (getMetadata a (Runs.run ContractCall.after
          (deploy a owner code height now m).2 more)).1 = .ok (some r) := by
  intro m m'
  have hm : Recorded m := (run_recorded (recorded_new codeStorage hempty) calls).1
  obtain ⟨hm', hkeep⟩ := run_recorded hm more
  refine ⟨fun proxyAddress newImplementation owner => (upgrade_refused hm _ _ _).1, ?_, ?_⟩
  · intro a r hanswer
    have hstored := (getMetadata_eq_some hm a r).mp hanswer
    exact ⟨hm.deployed hstored, (getMetadata_eq_some hm' a r).mpr (hkeep a r hstored)⟩
  · intro a owner code height now r hdeploy
    obtain ⟨hrecorded, -, hstored⟩ := deploy_spec hm a owner code height now
    obtain ⟨hlater, hkept⟩ := run_recorded hrecorded more
    exact (getMetadata_eq_some hlater a r).mpr (hkept a r (hstored r hdeploy))

end ContractManager

/-! ## An instance -/

namespace ContractSample

/-- The fields of a record, one after the other. -/
def encodeMetadata (r : ContractMetadata) : Bytes :=
  r.address.toList ++ r.owner.toList ++ leBytes 8 r.createdAt.toNat ++
    leBytes 8 r.createdHeight.toNat ++ r.codeHash.toList ++ leBytes 8 r.codeSize.toNat ++
    leBytes 1 r.isUpgradeable.toNat ++ (r.implementation.elim [0] fun a => 1 :: a.toList) ++
    leBytes 4 r.version.toNat

theorem prefixCode_metadata : PrefixCode encodeMetadata := by
  refine Reads.prefixCode
    ((((((((((PrefixCode.vector 32).part ContractMetadata.address).append
      ((PrefixCode.vector 32).part ContractMetadata.owner)).append
      (prefixCode_u64.part ContractMetadata.createdAt)).append
      (prefixCode_u64.part ContractMetadata.createdHeight)).append
      ((PrefixCode.vector 32).part ContractMetadata.codeHash)).append
      (prefixCode_u64.part ContractMetadata.codeSize)).append
      (prefixCode_bool.part ContractMetadata.isUpgradeable)).append
      ((PrefixCode.vector 32).option.part ContractMetadata.implementation)).append
      (prefixCode_u32.part ContractMetadata.version)) ?_
  rintro ⟨⟩ ⟨⟩ h
  simp only [Prod.mk.injEq] at h
  simp [h]

theorem length_encodeMetadata_lt (r : ContractMetadata) :
    (encodeMetadata r).length < 2 ^ 64 := by
  unfold encodeMetadata
  cases r.implementation <;> simp [length_leBytes]

theorem encodeMetadata_injective : Function.Injective encodeMetadata := by
  intro a b h
  have hread := prefixCode_metadata a b [] []
  rw [List.append_nil, List.append_nil] at hread
  exact (hread (length_encodeMetadata_lt a) h).1

open Classical in
/-- The record that a byte string is the encoding of. -/
noncomputable def decodeMetadata (data : Bytes) : Except String ContractMetadata :=
  if h : ∃ r, encodeMetadata r = data then .ok h.choose else .error "invalid record"

theorem decodeMetadata_encodeMetadata (r : ContractMetadata) :
    decodeMetadata (encodeMetadata r) = .ok r := by
  have hex : ∃ r', encodeMetadata r' = encodeMetadata r := ⟨r, rfl⟩
  have hchoose : r = hex.choose := encodeMetadata_injective hex.choose_spec.symm
  rw [decodeMetadata, dif_pos hex, ← hchoose]

noncomputable scoped instance layout : MetadataCodec where
  serialize r := .ok (encodeMetadata r)
  deserialize := decodeMetadata

scoped instance lawfulLayout : LawfulMetadataCodec where
  roundTrip r data h := by
    obtain rfl := Except.ok.inj h
    exact decodeMetadata_encodeMetadata r

/-- A storage that is one map. -/
scoped instance slots : ContractStorage (Map (Address × Bytes) Bytes) where
  get a k s := s.lookup (a, k)
  set a k v s := s.insert (a, k) v

scoped instance lawfulSlots : LawfulContractStorage (Map (Address × Bytes) Bytes) where
  get_set_self _ _ _ s := AList.lookup_insert s
  get_set_ne _ _ _ _ _ _ h := AList.lookup_insert_ne fun heq => h (congrArg Prod.fst heq)

scoped instance codes : CodeStorage (Map Address Bytes) where
  getCode address codes := codes.lookup address
  setCode address code codes := codes.insert address code
  codeExists address codes := (codes.lookup address).isSome

scoped instance lawfulCodes : LawfulCodeStorage (Map Address Bytes) where
  codeExists_self a code s := by
    show (AList.lookup a (AList.insert a code s)).isSome = true
    rw [AList.lookup_insert]
    rfl
  codeExists_of a a' code s h := by
    show (AList.lookup a (AList.insert a' code s)).isSome = true
    by_cases ha : a = a'
    · rw [ha, AList.lookup_insert]
      rfl
    · rw [AList.lookup_insert_ne ha]
      exact h

/-- The first bytes of the code. -/
scoped instance digest : Keccak256 := ⟨fun code => Vector.ofFn fun i => code.getD i 0⟩

/-- No contracts. -/
def noContracts : ContractManager (Map (Address × Bytes) Bytes) (Map Address Bytes) :=
  ContractManager.new ∅ ∅

/-- An address that is made of one byte. -/
def account (byte : UInt8) : Address := Vector.replicate 32 byte

end ContractSample

section Example

open ContractManager ContractSample

/-- A contract of one byte after an upgrade by its owner and a restart. -/
theorem deployed_contract_stays :
    (getMetadata (account 1) (Runs.run ContractCall.after
      (deploy (account 1) (account 2) [96] 5 6 noContracts).2
      [.upgrade (account 1) (account 1) (account 2), .restart])).1
        = .ok (some (ContractMetadata.new (account 1) (account 2) (hashCode [96]) 1 5 6)) := by
  refine (contracts_stay_as_deployed (∅ : Map (Address × Bytes) Bytes) (∅ : Map Address Bytes)
    (fun a => rfl) [] [.upgrade (account 1) (account 1) (account 2), .restart]).2.2
    (account 1) (account 2) [96] 5 6 _ ?_
  rfl

end Example
