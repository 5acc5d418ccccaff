/-
# The layout of log records

The bytes that `bincode` writes for a `WalRecord`: fixed-width little-endian
numbers, arrays as they are, lists and byte vectors after their length in eight
bytes, and the number of the constructor in four bytes before its fields.

The encoding is self-delimiting (`prefixCode_record`), so what it writes can be
read back: `bincodeLayout` is a lawful codec.
-/
import Pacyte.WalLog
import Pacyte.PrefixCode

/-! ## Words -/

theorem prefixCode_bool : PrefixCode fun b : Bool => leBytes 1 b.toNat := by
  refine PrefixCode.word (fun b => ?_) fun a b h => ?_
  · cases b
    · decide
    · decide
  · revert h
    cases a <;> cases b <;> simp

theorem prefixCode_u32 : PrefixCode fun n : UInt32 => leBytes 4 n.toNat :=
  PrefixCode.word (fun n => n.toNat_lt) fun _ _ h => UInt32.toNat_inj.mp h

theorem prefixCode_u64 : PrefixCode fun n : UInt64 => leBytes 8 n.toNat :=
  PrefixCode.word (fun n => n.toNat_lt) fun _ _ h => UInt64.toNat_inj.mp h

theorem prefixCode_u128 : PrefixCode fun n : U128 => leBytes 16 n.toNat :=
  PrefixCode.word (fun n => n.isLt) fun _ _ h => BitVec.eq_of_toNat_eq h

/-! ## Transactions, blocks and accounts -/

theorem prefixCode_transaction : PrefixCode encodeTransaction := by
  refine Reads.prefixCode
    (((((((PrefixCode.vector 32).part Transaction.from).append
      ((PrefixCode.vector 32).part Transaction.to)).append
      (prefixCode_u128.part Transaction.amount)).append
      (prefixCode_u128.part Transaction.fee)).append
      (prefixCode_u64.part Transaction.nonce)).append
      (PrefixCode.bytes.part Transaction.signature) |>.append
      (prefixCode_u64.part Transaction.timestamp)) ?_
  rintro ⟨⟩ ⟨⟩ h
  simp only [Prod.mk.injEq] at h
  simp [h]

/-- `bincode` of a block header. -/
def encodeHeader (header : BlockHeader) : Bytes :=
  leBytes 8 header.height.toNat ++ header.previousHash.toList ++
    header.transactionsRoot.toList ++ header.stateRoot.toList ++
    leBytes 8 header.timestamp.toNat ++ header.proposer.toList ++
    leBytes 4 header.transactionCount.toNat ++ leBytes 4 header.blockSize.toNat ++
    encodeBytes header.signature

theorem prefixCode_header : PrefixCode encodeHeader := by
  refine Reads.prefixCode
    (((((((((prefixCode_u64.part BlockHeader.height).append
      ((PrefixCode.vector 32).part BlockHeader.previousHash)).append
      ((PrefixCode.vector 32).part BlockHeader.transactionsRoot)).append
      ((PrefixCode.vector 32).part BlockHeader.stateRoot)).append
      (prefixCode_u64.part BlockHeader.timestamp)).append
      ((PrefixCode.vector 32).part BlockHeader.proposer)).append
      (prefixCode_u32.part BlockHeader.transactionCount)).append
      (prefixCode_u32.part BlockHeader.blockSize)).append
      (PrefixCode.bytes.part BlockHeader.signature)) ?_
  rintro ⟨⟩ ⟨⟩ h
  simp only [Prod.mk.injEq] at h
  simp [h]

theorem prefixCode_body : PrefixCode encodeBody := by
  have hpos : ∀ tx, encodeTransaction tx ≠ [] := by
    intro tx h
    have hlen := congrArg List.length h
    simp [encodeTransaction] at hlen
  refine Reads.prefixCode ((prefixCode_transaction.list hpos).part BlockBody.transactions) ?_
  rintro ⟨⟩ ⟨⟩ h
  exact congrArg BlockBody.mk h

/-- `bincode` of a block. -/
def encodeBlock (block : Block) : Bytes := encodeHeader block.header ++ encodeBody block.body

theorem prefixCode_block : PrefixCode encodeBlock := by
  refine Reads.prefixCode
    ((prefixCode_header.part Block.header).append (prefixCode_body.part Block.body)) ?_
  rintro ⟨⟩ ⟨⟩ h
  simp only [Prod.mk.injEq] at h
  simp [h]

/-- The number of an account type. -/
def AccountType.index : AccountType → ℕ
  | user => 0
  | sovereign => 1
  | system => 2
  | bridge => 3

/-- The optional key of an account. -/
def encodeKey : Option Bytes → Bytes
  | none => [0]
  | some key => 1 :: encodeBytes key

/-- An account, field by field. -/
theorem encodeAccount_eq (account : Account) :
    encodeAccount account =
      account.address.toList ++ leBytes 16 account.balance.toNat ++
        leBytes 8 account.nonce.toNat ++ leBytes 16 account.staked.toNat ++
        leBytes 8 account.createdAt.toNat ++ leBytes 8 account.lastActivity.toNat ++
        leBytes 1 account.isDormant.toNat ++ leBytes 1 account.isValidator.toNat ++
        encodeKey account.validatorKey ++ leBytes 4 account.accountType.index := by
  unfold encodeAccount encodeKey
  cases account.validatorKey <;> cases account.accountType <;> rfl

theorem prefixCode_accountType : PrefixCode fun t : AccountType => leBytes 4 t.index := by
  refine PrefixCode.word (fun t => ?_) fun a b h => ?_
  · cases t <;> simp [AccountType.index]
  · revert h
    cases a <;> cases b <;> simp [AccountType.index]

theorem prefixCode_key : PrefixCode encodeKey := by
  have hkey : encodeKey = fun o : Option Bytes => o.elim [0] fun key => 1 :: encodeBytes key := by
    funext o
    cases o <;> rfl
  rw [hkey]
  exact PrefixCode.option PrefixCode.bytes

theorem prefixCode_account : PrefixCode encodeAccount := by
  rw [funext encodeAccount_eq]
  refine Reads.prefixCode
    (((((((((((PrefixCode.vector 32).part Account.address).append
      (prefixCode_u128.part Account.balance)).append
      (prefixCode_u64.part Account.nonce)).append
      (prefixCode_u128.part Account.staked)).append
      (prefixCode_u64.part Account.createdAt)).append
      (prefixCode_u64.part Account.lastActivity)).append
      (prefixCode_bool.part Account.isDormant)).append
      (prefixCode_bool.part Account.isValidator)).append
      (prefixCode_key.part Account.validatorKey)).append
      (prefixCode_accountType.part Account.accountType)) ?_
  rintro ⟨⟩ ⟨⟩ h
  simp only [Prod.mk.injEq] at h
  simp [h]

/-! ## Entries and records -/

/-- The number of the constructor of an entry. -/
def WalEntry.index : WalEntry → ℕ
  | saveBlock _ _ => 0
  | saveTransaction _ _ => 1
  | saveAccount _ _ => 2
  | deleteAccount _ => 3
  | saveStateRoot _ _ => 4
  | batch _ => 5
  | checkpoint _ _ => 6

mutual

/-- The fields of an entry. -/
def encodeFields : WalEntry → Bytes
  | .saveBlock height block => leBytes 8 height.toNat ++ encodeBlock block
  | .saveTransaction hash tx => hash.toList ++ encodeTransaction tx
  | .saveAccount address account => address.toList ++ encodeAccount account
  | .deleteAccount address => address.toList
  | .saveStateRoot height root => leBytes 8 height.toNat ++ root.toList
  | .batch entries => leBytes 8 entries.length ++ encodeEntries entries
  | .checkpoint lsn timestamp => leBytes 8 lsn.toNat ++ leBytes 8 timestamp.toNat

/-- The entries of a batch. -/
def encodeEntries : List WalEntry → Bytes
  | [] => []
  | entry :: rest => leBytes 4 entry.index ++ encodeFields entry ++ encodeEntries rest

end

/-- `bincode` of an entry. -/
def encodeEntry (entry : WalEntry) : Bytes := leBytes 4 entry.index ++ encodeFields entry

theorem length_le_length_encodeEntries (entries : List WalEntry) :
    entries.length ≤ (encodeEntries entries).length := by
  induction entries with
  | nil => exact Nat.zero_le _
  | cons entry rest ih =>
      rw [encodeEntries, List.length_append, List.length_append, length_leBytes, List.length_cons]
      omega

/-- What is left to read is not longer than what there was. -/
theorem length_lt_of_append_lt {x y : Bytes} {n : ℕ} (h : (x ++ y).length < n) : y.length < n := by
  rw [List.length_append] at h
  omega

/-- Two encodings that start with the number of the constructor. -/
theorem index_eq_of_append_eq {a b : WalEntry} {s t : Bytes}
    (h : leBytes 4 a.index ++ s = leBytes 4 b.index ++ t) : a.index = b.index ∧ s = t := by
  have hlt : ∀ e : WalEntry, e.index < 256 ^ 4 := by
    intro e
    cases e <;> simp [WalEntry.index]
  exact leBytes_append_inj (hlt a) (hlt b) h

mutual

/-- The fields of entries of one constructor, by recursion over the entry. -/
theorem encodeFields_inj : ∀ (a b : WalEntry) (s t : Bytes), a.index = b.index →
    (encodeFields a ++ s).length < 2 ^ 64 → encodeFields a ++ s = encodeFields b ++ t →
    a = b ∧ s = t
  | .saveBlock height block, b, s, t, hindex, hlen, heq => by
      cases b <;> cases hindex
      obtain ⟨hpair, hst⟩ := prefixCode_u64.pair prefixCode_block (height, block) (_, _) s t hlen heq
      obtain ⟨rfl, rfl⟩ := Prod.mk.inj hpair
      exact ⟨rfl, hst⟩
  | .saveTransaction hash tx, b, s, t, hindex, hlen, heq => by
      cases b <;> cases hindex
      obtain ⟨hpair, hst⟩ := (PrefixCode.vector 32).pair prefixCode_transaction (hash, tx) (_, _) s t hlen heq
      obtain ⟨rfl, rfl⟩ := Prod.mk.inj hpair
      exact ⟨rfl, hst⟩
  | .saveAccount address account, b, s, t, hindex, hlen, heq => by
      cases b <;> cases hindex
      obtain ⟨hpair, hst⟩ := (PrefixCode.vector 32).pair prefixCode_account (address, account) (_, _) s t hlen heq
      obtain ⟨rfl, rfl⟩ := Prod.mk.inj hpair
      exact ⟨rfl, hst⟩
  | .deleteAccount address, b, s, t, hindex, hlen, heq => by
      cases b <;> cases hindex
      obtain ⟨haddress, hst⟩ := PrefixCode.vector 32 address _ s t hlen heq
      exact ⟨congrArg WalEntry.deleteAccount haddress, hst⟩
  | .saveStateRoot height root, b, s, t, hindex, hlen, heq => by
      cases b <;> cases hindex
      obtain ⟨hpair, hst⟩ := prefixCode_u64.pair (PrefixCode.vector 32) (height, root) (_, _) s t hlen heq
      obtain ⟨rfl, rfl⟩ := Prod.mk.inj hpair
      exact ⟨rfl, hst⟩
  | .batch entries, b, s, t, hindex, hlen, heq => by
      cases b with
      | batch entries' =>
          simp only [encodeFields, List.append_assoc] at hlen heq
          have hlen' := congrArg List.length heq
          have hle := length_le_length_encodeEntries entries
          have hle' := length_le_length_encodeEntries entries'
          simp only [List.length_append, length_leBytes] at hlen hlen'
          -- the lengths are read first, and the entries after them
          obtain ⟨hl, hrest⟩ := leBytes_append_inj (by omega) (by omega) heq
          obtain ⟨rfl, hst⟩ := encodeEntries_inj entries entries' s t hl
            (by rw [List.length_append]; omega) hrest
          exact ⟨rfl, hst⟩
      | _ => cases hindex
  | .checkpoint lsn timestamp, b, s, t, hindex, hlen, heq => by
      cases b <;> cases hindex
      obtain ⟨hpair, hst⟩ := prefixCode_u64.pair prefixCode_u64 (lsn, timestamp) (_, _) s t hlen heq
      obtain ⟨rfl, rfl⟩ := Prod.mk.inj hpair
      exact ⟨rfl, hst⟩

/-- The entries of batches of one length. -/
theorem encodeEntries_inj : ∀ (l l' : List WalEntry) (s t : Bytes), l.length = l'.length →
    (encodeEntries l ++ s).length < 2 ^ 64 → encodeEntries l ++ s = encodeEntries l' ++ t →
    l = l' ∧ s = t
  | [], l', s, t, hl, hlen, heq => by
      obtain rfl : l' = [] := List.length_eq_zero_iff.mp hl.symm
      exact ⟨rfl, heq⟩
  | a :: l, [], s, t, hl, hlen, heq => by cases hl
  | a :: l, b :: l', s, t, hl, hlen, heq => by
      simp only [encodeEntries, List.append_assoc] at hlen heq
      obtain ⟨hindex, hrest⟩ := index_eq_of_append_eq heq
      have hlen' := length_lt_of_append_lt hlen
      obtain ⟨hab, hrest'⟩ := encodeFields_inj a b _ _ hindex hlen' hrest
      obtain ⟨hll, hst⟩ := encodeEntries_inj l l' s t (Nat.succ_inj.mp hl)
        (length_lt_of_append_lt hlen') hrest'
      exact ⟨List.cons_eq_cons.mpr ⟨hab, hll⟩, hst⟩

end

theorem prefixCode_entry : PrefixCode encodeEntry := by
  intro a b s t hlen heq
  simp only [encodeEntry, List.append_assoc] at hlen heq
  obtain ⟨hindex, hrest⟩ := index_eq_of_append_eq heq
  exact encodeFields_inj a b s t hindex (length_lt_of_append_lt hlen) hrest

/-- `bincode` of a record. -/
def encodeRecord (record : WalRecord) : Bytes :=
  leBytes 4 record.magic.toNat ++ leBytes 4 record.version.toNat ++ leBytes 8 record.lsn.toNat ++
    leBytes 8 record.timestamp.toNat ++ encodeEntry record.entry ++
    leBytes 4 record.checksum.toNat

/-- **A record can be read back from the front of what was written.** -/
theorem prefixCode_record : PrefixCode encodeRecord := by
  refine Reads.prefixCode
    ((((((prefixCode_u32.part WalRecord.magic).append
      (prefixCode_u32.part WalRecord.version)).append
      (prefixCode_u64.part WalRecord.lsn)).append
      (prefixCode_u64.part WalRecord.timestamp)).append
      (prefixCode_entry.part WalRecord.entry)).append
      (prefixCode_u32.part WalRecord.checksum)) ?_
  rintro ⟨⟩ ⟨⟩ h
  simp only [Prod.mk.injEq] at h
  simp [h]

theorem encodeRecord_inj {a b : WalRecord} (hlen : (encodeRecord a).length < 2 ^ 64)
    (h : encodeRecord a = encodeRecord b) : a = b := by
  have hread := prefixCode_record a b [] []
  rw [List.append_nil, List.append_nil] at hread
  exact (hread hlen h).1

open Classical in
/-- The record that a byte string is the encoding of. -/
noncomputable def decodeRecord (bytes : Bytes) : Except String WalRecord :=
  if h : ∃ record, encodeRecord record = bytes then .ok h.choose else .error "invalid record"

theorem decodeRecord_encodeRecord {record : WalRecord}
    (hlen : (encodeRecord record).length < 2 ^ 64) :
    decodeRecord (encodeRecord record) = .ok record := by
  have hex : ∃ record', encodeRecord record' = encodeRecord record := ⟨record, rfl⟩
  have hchoose : record = hex.choose := encodeRecord_inj hlen hex.choose_spec.symm
  rw [decodeRecord, dif_pos hex, ← hchoose]

/-- No record is encoded as the front of another one. -/
theorem decodeRecord_take {record : WalRecord} {n : ℕ}
    (hlen : (encodeRecord record).length < 2 ^ 64) (hn : n < (encodeRecord record).length) :
    decodeRecord ((encodeRecord record).take n) = .error "invalid record" := by
  have hnone : ¬ ∃ record', encodeRecord record' = (encodeRecord record).take n := by
    rintro ⟨record', h⟩
    have hsplit : encodeRecord record ++ [] = encodeRecord record' ++ (encodeRecord record).drop n := by
      rw [h, List.take_append_drop, List.append_nil]
    -- the rest after the shorter encoding would have to be empty
    have hrest := (prefixCode_record record record' [] _ (by rwa [List.append_nil]) hsplit).2
    have hdrop := congrArg List.length hrest
    rw [List.length_nil, List.length_drop] at hdrop
    omega
  rw [decodeRecord, dif_neg hnone]

namespace Sample

/-- The layout of `bincode`, with the sum of the four numbers for the hasher. -/
noncomputable scoped instance bincodeLayout : LawfulWalCodec where
  serialize record := .ok (encodeRecord record)
  deserialize := decodeRecord
  hash magic version lsn timestamp :=
    UInt32.ofNat (magic.toNat + version.toNat + lsn.toNat + timestamp.toNat)
  serializes record := ⟨encodeRecord record, rfl⟩
  roundTrip record bytes h hlen := by
    obtain rfl := Except.ok.inj h
    exact decodeRecord_encodeRecord hlen
  truncated record bytes n h hlen hn := by
    obtain rfl := Except.ok.inj h
    exact ⟨_, decodeRecord_take hlen hn⟩

/-- A log in an empty directory, with a clock that stands still. -/
def emptyWal (maxFileSize : UInt64) (maxPendingEntries : ℕ) : WalManager :=
  WalManager.new ∅ ⟨true, maxFileSize, maxPendingEntries⟩ fun _ => 0

end Sample
