/-
# The checksum of a log record

`WalRecord::compute_checksum` of `src/storage/wal.rs` hashes the magic number, the version, the
number and the time of a record, and leaves its entry out.  A record that passes `verify` therefore
passes it with any other entry as well, whatever the hasher is (`verify_withEntry`), and the log is
recovered with the changed entry (`recoverLoop_withEntry`).
-/
import Pacyte.WalRecovery

namespace WalRecord

/-- The record with another entry. -/
def withEntry (record : WalRecord) (entry : WalEntry) : WalRecord := { record with entry := entry }

variable [WalCodec]

/-- A record is verified with any entry or with none. -/
theorem verify_withEntry (record : WalRecord) (entry : WalEntry) :
    (record.withEntry entry).verify = record.verify := rfl

/-- Two records with the same header and checksum. -/
structure SameSeal (record other : WalRecord) : Prop where
  magic : other.magic = record.magic
  version : other.version = record.version
  lsn : other.lsn = record.lsn
  timestamp : other.timestamp = record.timestamp
  checksum : other.checksum = record.checksum

/-- The checksum protects the entry: no other entry passes with the same header and checksum. -/
def EntryProtected (record : WalRecord) : Prop :=
  ∀ other : WalRecord, SameSeal record other → other.verify = true → other.entry = record.entry

omit [WalCodec] in
/-- For every entry there is another one. -/
theorem exists_other_entry (entry : WalEntry) : ∃ other : WalEntry, other ≠ entry := by
  by_cases h : entry = .batch []
  · exact ⟨.checkpoint 0 0, fun heq => nomatch heq.trans h⟩
  · exact ⟨.batch [], fun heq => h heq.symm⟩

/-- **The checksum protects no entry** of a record that passes the verification. -/
theorem not_entryProtected {record : WalRecord} (h : record.verify = true) :
    ¬ EntryProtected record := by
  intro hprotected
  obtain ⟨entry, hne⟩ := exists_other_entry record.entry
  exact hne (hprotected (record.withEntry entry) ⟨rfl, rfl, rfl, rfl, rfl⟩ h)

end WalRecord

open WalManager in
/-- The recovery goes on with a changed entry as with the one that was written. -/
theorem WalRecord.recoverLoop_withEntry [Primitives] [LawfulWalCodec] {record : WalRecord}
    (h : record.verify = true) (entry : WalEntry) (hshort : Short (record.withEntry entry))
    (fuel : ℕ) (rest : Bytes) (r : Recovery) :
    recoverLoop (fuel + 1) (frame (encode (record.withEntry entry)) ++ rest) r =
      recoverLoop fuel rest (r.process entry) :=
  recoverLoop_frame hshort h fuel rest r

/-! ## Two entries with one checksum -/

section Example

open scoped Sample

/-- A record of a deleted account, as the log seals it. -/
noncomputable def deletion (b : UInt8) : WalRecord :=
  .sealed 1 (.deleteAccount (Vector.replicate 32 b)) 1000

/-- Another account is deleted, and the record passes the verification. -/
theorem other_account_deleted :
    (deletion 1).SameSeal (deletion 2) ∧ (deletion 1).verify = true ∧
      (deletion 2).verify = true ∧ (deletion 2).entry ≠ (deletion 1).entry := by
  refine ⟨⟨rfl, rfl, rfl, rfl, rfl⟩, rfl, rfl, fun h => ?_⟩
  have haddress : (Vector.replicate 32 2 : Address) = Vector.replicate 32 1 :=
    WalEntry.deleteAccount.inj h
  exact absurd haddress (by decide)

theorem deletion_not_entryProtected : ¬ (deletion 1).EntryProtected :=
  WalRecord.not_entryProtected (show (deletion 1).verify = true from rfl)

end Example
