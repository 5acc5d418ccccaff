/-
# Reading a log file that was cut off

A log file is a list of frames, and it may end anywhere: `complete` are the records
that lie before the cut, and `torn` is the number of bytes after them.

The loop of `recover_from_file` takes the cut for the end of the file only if it
falls into a length field.  A cut inside a record makes it return an error, and the
records before the cut are lost with it.
-/
import Pacyte.Bincode

namespace WalManager

variable [LawfulWalCodec]

/-! ## Records that flush has written -/

omit [LawfulWalCodec] in
/-- The checksum of a written record is the one that is looked for. -/
theorem verify_sealed [WalCodec] (lsn : UInt64) (entry : WalEntry) (now : Timestamp) :
    (WalRecord.sealed lsn entry now).verify = true := by
  unfold WalRecord.verify
  simp only [Bool.and_eq_true, decide_eq_true_eq]
  exact ⟨⟨rfl, rfl⟩, rfl⟩

theorem verify_of_mem_sealAll {lsn : UInt64} {entries : List WalEntry} {clock : Clock}
    {record : WalRecord} (h : record ∈ sealAll lsn entries clock) : record.verify = true := by
  induction entries generalizing clock with
  | nil => cases h
  | cons entry rest ih =>
      rcases List.mem_cons.mp h with rfl | hrest
      · exact verify_sealed lsn entry _
      · exact ih hrest

theorem verify_of_mem_flushedRecords {wal : WalManager} {e : String × WalRecord}
    (h : e ∈ wal.flushedRecords) : e.2.verify = true := by
  unfold flushedRecords at h
  split_ifs at h
  · split at h
    · cases h
    · obtain ⟨record, hrecord, rfl⟩ := List.mem_map.mp h
      exact verify_of_mem_sealAll hrecord
  · cases h

theorem verify_of_mem_appendedRecords {entry : WalEntry} {wal : WalManager}
    {e : String × WalRecord} (h : e ∈ appendedRecords entry wal) : e.2.verify = true := by
  unfold appendedRecords at h
  split_ifs at h
  · exact verify_of_mem_flushedRecords h
  · cases h

/-! ## The loop, one record at a time -/

omit [LawfulWalCodec] in
/-- The four bytes of the length are read back. -/
theorem readLength_leBytes (n : ℕ) (rest : Bytes) :
    readLength (leBytes 4 (UInt32.ofNat n).toNat ++ rest) = n % 2 ^ 32 := by
  unfold readLength
  rw [List.take_left' (length_leBytes 4 _), foldr_leBytes]
  have hword : (UInt32.ofNat n).toNat = n % 2 ^ 32 := UInt32.toNat_ofNat'
  rw [hword]
  exact Nat.mod_mod _ _

omit [LawfulWalCodec] in
theorem length_frame (bytes : Bytes) : (frame bytes).length = 4 + bytes.length := by
  rw [frame, List.length_append, length_leBytes]

section Loop

variable [Primitives]

omit [LawfulWalCodec] in
/-- Fewer than four bytes are taken for the end of the file. -/
theorem recoverLoop_end [WalCodec] {fuel : ℕ} {bytes : Bytes} (r : Recovery)
    (h : bytes.length < 4) : recoverLoop fuel bytes r = .ok r := by
  cases fuel with
  | zero => rfl
  | succ fuel => rw [recoverLoop, if_pos h]

/-- A whole record is processed, and the loop goes on after it. -/
theorem recoverLoop_frame {record : WalRecord} (hshort : Short record)
    (hverify : record.verify = true) (fuel : ℕ) (rest : Bytes) (r : Recovery) :
    recoverLoop (fuel + 1) (frame (encode record) ++ rest) r
      = recoverLoop fuel rest (r.process record.entry) := by
  have hlength : readLength (frame (encode record) ++ rest) = (encode record).length := by
    rw [frame, List.append_assoc, readLength_leBytes]
    exact Nat.mod_eq_of_lt hshort
  have hdrop : (frame (encode record) ++ rest).drop 4 = encode record ++ rest := by
    rw [frame, List.append_assoc, List.drop_left' (length_leBytes 4 _)]
  have hlong : ¬ (frame (encode record) ++ rest).length < 4 := by
    rw [List.length_append, length_frame]
    omega
  have hfull : ¬ (encode record ++ rest).length < (encode record).length := by
    rw [List.length_append]
    omega
  rw [recoverLoop, if_neg hlong, hlength, hdrop, if_neg hfull, List.take_left' rfl,
    deserialize_encode hshort, List.drop_left' rfl]
  dsimp only
  rw [if_pos hverify]

/-- The front of a frame that is cut off in the record is an error, and so is a frame
with a length that does not fit. -/
theorem recoverLoop_torn {record : WalRecord} (hfits : (encode record).length < 2 ^ 64)
    {rest : Bytes} {n : ℕ} (hn : 4 ≤ n)
    (h : n < 4 + (encode record).length ∨ ¬ Short record) (fuel : ℕ) (r : Recovery) :
    ∃ e, recoverLoop (fuel + 1) ((frame (encode record) ++ rest).take n) r = .error e := by
  obtain ⟨m, rfl⟩ := Nat.exists_eq_add_of_le hn
  have hcut : (frame (encode record) ++ rest).take (4 + m)
      = leBytes 4 (UInt32.ofNat (encode record).length).toNat ++ (encode record ++ rest).take m := by
    rw [frame, List.append_assoc, List.take_append, length_leBytes, Nat.add_sub_cancel_left,
      List.take_of_length_le]
    rw [length_leBytes]
    omega
  have hlong : ¬ ((frame (encode record) ++ rest).take (4 + m)).length < 4 := by
    rw [hcut, List.length_append, length_leBytes]
    omega
  have hdrop : ((frame (encode record) ++ rest).take (4 + m)).drop 4
      = (encode record ++ rest).take m := by
    rw [hcut, List.drop_left' (length_leBytes 4 _)]
  have hlength : readLength ((frame (encode record) ++ rest).take (4 + m))
      = (encode record).length % 2 ^ 32 := by
    rw [hcut, readLength_leBytes]
  rw [recoverLoop, if_neg hlong, hdrop, hlength]
  split_ifs with hfew
  · exact ⟨_, rfl⟩
  · -- a proper front of the record is deserialised
    have hle : (encode record).length % 2 ^ 32 ≤ m := by
      rw [List.length_take] at hfew
      omega
    have hlt : (encode record).length % 2 ^ 32 < (encode record).length := by
      unfold Short at h
      rcases h with hm | hbig
      · by_contra hge
        have hself : (encode record).length % 2 ^ 32 ≤ (encode record).length := Nat.mod_le _ _
        omega
      · have hmod : (encode record).length % 2 ^ 32 < 2 ^ 32 := Nat.mod_lt _ (by norm_num)
        omega
    obtain ⟨e, he⟩ := LawfulWalCodec.truncated record _ _ (serialize_eq record) hfits hlt
    have htake : ((encode record ++ rest).take m).take ((encode record).length % 2 ^ 32)
        = (encode record).take ((encode record).length % 2 ^ 32) := by
      rw [List.take_take, min_eq_left hle, List.take_append_of_le_length hlt.le]
    rw [htake, he]
    exact ⟨_, rfl⟩

/-! ## A file that ends anywhere -/

/-- The records that lie completely in the first `n` bytes. -/
def complete : List WalRecord → ℕ → List WalRecord
  | [], _ => []
  | record :: rest, n =>
      if (frame (encode record)).length ≤ n then
        record :: complete rest (n - (frame (encode record)).length)
      else []

/-- The number of bytes after them, up to `n`. -/
def torn : List WalRecord → ℕ → ℕ
  | [], _ => 0
  | record :: rest, n =>
      if (frame (encode record)).length ≤ n then torn rest (n - (frame (encode record)).length)
      else n

/-- What the loop makes of some records. -/
def processAll (records : List WalRecord) (r : Recovery) : Recovery :=
  records.foldl (fun r record => r.process record.entry) r

/-- The batches that are recovered from some records. -/
def contents (records : List WalRecord) : List WriteBatch :=
  (processAll records Recovery.start).finish

/-- The cut falls into a length field, or between two records, and the records before
it are short. -/
def Readable (records : List WalRecord) (n : ℕ) : Prop :=
  torn records n < 4 ∧ ∀ record ∈ complete records n, Short record

omit [Primitives] in
/-- The first record is complete: the rest decides. -/
theorem readable_cons_of_le {record : WalRecord} {rest : List WalRecord} {n : ℕ}
    (h : (frame (encode record)).length ≤ n) :
    Readable (record :: rest) n ↔
      Short record ∧ Readable rest (n - (frame (encode record)).length) := by
  unfold Readable
  rw [torn, complete, if_pos h, if_pos h, List.forall_mem_cons]
  tauto

omit [Primitives] in
/-- The first record is not complete. -/
theorem readable_cons_of_lt {record : WalRecord} {rest : List WalRecord} {n : ℕ}
    (h : ¬ (frame (encode record)).length ≤ n) : Readable (record :: rest) n ↔ n < 4 := by
  unfold Readable
  rw [torn, complete, if_neg h, if_neg h]
  simp

/-- The loop over the first bytes of some frames. -/
theorem recoverLoop_take (records : List WalRecord) (n fuel : ℕ) (r : Recovery)
    (hfuel : n < fuel) (hfits : ∀ record ∈ records, (encode record).length < 2 ^ 64)
    (hverify : ∀ record ∈ records, record.verify = true) :
    (Readable records n →
      recoverLoop fuel ((frames records).take n) r = .ok (processAll (complete records n) r)) ∧
    (¬ Readable records n → ∃ e, recoverLoop fuel ((frames records).take n) r = .error e) := by
  induction records generalizing n fuel r with
  | nil =>
      have hempty : (frames []).take n = [] := List.take_nil
      rw [hempty, recoverLoop_end r (by decide)]
      refine ⟨fun _ => rfl, fun h => absurd ?_ h⟩
      exact ⟨by rw [torn]; decide, fun record h => nomatch h⟩
  | cons record rest ih =>
      obtain ⟨fuel, rfl⟩ : ∃ k, fuel = k + 1 := ⟨fuel - 1, by omega⟩
      have hframes : frames (record :: rest) = frame (encode record) ++ frames rest := rfl
      have hlength := length_frame (encode record)
      have hfits₀ := hfits record List.mem_cons_self
      rw [hframes]
      by_cases hwhole : (frame (encode record)).length ≤ n
      · rw [readable_cons_of_le hwhole, complete, if_pos hwhole]
        by_cases hshort : Short record
        · -- the record is read, and the rest is shorter
          have hrest := ih (n - (frame (encode record)).length) fuel (r.process record.entry)
            (by omega) (fun x hx => hfits x (List.mem_cons_of_mem _ hx))
            (fun x hx => hverify x (List.mem_cons_of_mem _ hx))
          have htake : (frame (encode record) ++ frames rest).take n
              = frame (encode record) ++
                (frames rest).take (n - (frame (encode record)).length) := by
            rw [List.take_append, List.take_of_length_le hwhole]
          rw [htake, recoverLoop_frame hshort (hverify record List.mem_cons_self)]
          exact ⟨fun h => hrest.1 h.2, fun h => hrest.2 fun h' => h ⟨hshort, h'⟩⟩
        · refine ⟨fun h => absurd h.1 hshort, fun _ => ?_⟩
          exact recoverLoop_torn hfits₀ (by omega) (Or.inr hshort) fuel r
      · rw [readable_cons_of_lt hwhole, complete, if_neg hwhole]
        constructor
        · intro hn
          refine recoverLoop_end r ?_
          rw [List.length_take]
          omega
        · intro hn
          exact recoverLoop_torn hfits₀ (by omega) (Or.inl (by omega)) fuel r

/-- A list of frames that was cut off gives the records before the cut exactly if the
cut leaves at most three bytes of the next one. -/
theorem recoverFromFile_take_iff (records : List WalRecord) (n : ℕ)
    (hn : n ≤ (frames records).length)
    (hfits : ∀ record ∈ records, (encode record).length < 2 ^ 64)
    (hverify : ∀ record ∈ records, record.verify = true) :
    recoverFromFile ((frames records).take n) = .ok (contents (complete records n)) ↔
      Readable records n := by
  have hlength : ((frames records).take n).length = n := by
    rw [List.length_take]
    exact min_eq_left hn
  obtain ⟨hread, herror⟩ :=
    recoverLoop_take records n (n + 1) Recovery.start (Nat.lt_succ_self n) hfits hverify
  unfold recoverFromFile
  rw [hlength]
  constructor
  · intro hok
    by_contra hnot
    obtain ⟨e, he⟩ := herror hnot
    rw [he] at hok
    cases hok
  · intro hreadable
    rw [hread hreadable]
    rfl

omit [Primitives] in
/-- Without a cut all records are complete. -/
theorem complete_length (records : List WalRecord) :
    complete records (frames records).length = records := by
  induction records with
  | nil => rfl
  | cons record rest ih =>
      have hlen : (frames (record :: rest)).length
          = (frame (encode record)).length + (frames rest).length := List.length_append
      rw [complete, if_pos (by omega), hlen, Nat.add_sub_cancel_left, ih]

omit [Primitives] in
theorem torn_length (records : List WalRecord) : torn records (frames records).length = 0 := by
  induction records with
  | nil => rfl
  | cons record rest ih =>
      have hlen : (frames (record :: rest)).length
          = (frame (encode record)).length + (frames rest).length := List.length_append
      rw [torn, if_pos (by omega), hlen, Nat.add_sub_cancel_left, ih]

/-- A whole file gives all its records. -/
theorem recoverFromFile_frames {records : List WalRecord}
    (hshort : ∀ record ∈ records, Short record)
    (hverify : ∀ record ∈ records, record.verify = true) :
    recoverFromFile (frames records) = .ok (contents records) := by
  have hiff := recoverFromFile_take_iff records (frames records).length le_rfl
    (fun record h => lt_trans (hshort record h) (by norm_num)) hverify
  rw [List.take_length, complete_length] at hiff
  refine hiff.mpr ⟨?_, ?_⟩
  · rw [torn_length]
    decide
  · rwa [complete_length]

end Loop

end WalManager

/-! ## The files of a run -/

namespace WalOp

open WalManager

variable [LawfulWalCodec]

theorem verify_of_mem_writes {op : WalOp} {wal : WalManager} {e : String × WalRecord}
    (h : e ∈ op.writes wal) : e.2.verify = true := by
  cases op with
  | append entry => exact verify_of_mem_appendedRecords h
  | flush => exact verify_of_mem_flushedRecords h
  | checkpoint =>
      rcases List.mem_append.mp h with happend | hflush
      · exact verify_of_mem_appendedRecords happend
      · split at hflush
        · exact verify_of_mem_flushedRecords hflush
        · cases hflush
  | close => exact verify_of_mem_flushedRecords h
  | reopen => cases h

theorem verify_of_mem_writesAll {ops : List WalOp} {wal : WalManager} {e : String × WalRecord}
    (h : e ∈ writesAll ops wal) : e.2.verify = true := by
  induction ops generalizing wal with
  | nil => cases h
  | cons op rest ih =>
      rcases List.mem_append.mp h with hop | hrest
      · exact verify_of_mem_writes hop
      · exact ih hrest

theorem verify_of_mem_recordsOf {ops : List WalOp} {wal : WalManager} {name : String}
    {record : WalRecord} (h : record ∈ recordsOf (writesAll ops wal) name) :
    record.verify = true := by
  obtain ⟨e, he, rfl⟩ := List.mem_map.mp h
  exact verify_of_mem_writesAll (List.mem_filter.mp he).1

/-- **A log file that was cut off.**  Whatever was done to the log since its directory
was empty, reading a file of it that ends after `n` bytes returns the contents of the
records before the cut if and only if the cut leaves at most three bytes of the next
record and the length of each record before it fits into its length field. -/
theorem recoverFromFile_cut_iff [Primitives] (config : WalConfig) (clock : Clock)
    (ops : List WalOp) (name : String) (bytes : Bytes)
    (hfile : (runAll ops (WalManager.new ∅ config clock)).directory.lookup name = some bytes)
    (hfits : ∀ record ∈ recordsOf (writesAll ops (WalManager.new ∅ config clock)) name,
      (encode record).length < 2 ^ 64)
    (n : ℕ) (hn : n ≤ bytes.length) :
    recoverFromFile (bytes.take n) =
        .ok (contents (complete (recordsOf (writesAll ops (WalManager.new ∅ config clock)) name) n))
      ↔ torn (recordsOf (writesAll ops (WalManager.new ∅ config clock)) name) n < 4 ∧
        ∀ record ∈ complete (recordsOf (writesAll ops (WalManager.new ∅ config clock)) name) n,
          Short record := by
  obtain rfl := (logs_of_run config clock ops).filed.content name bytes hfile
  exact recoverFromFile_take_iff _ n hn hfits fun record h => verify_of_mem_recordsOf h

end WalOp

section Example

open WalManager WalOp
open scoped Sample

/-- Two accounts are deleted and the log is flushed. -/
def twoDeletions : List WalOp :=
  [.append (.deleteAccount (Vector.replicate 32 1)), .append (.deleteAccount (Vector.replicate 32 2)),
    .flush]

/-- Both records have 68 bytes with their length.  A cut after ten bytes of the second
one makes the first one unreadable, too. -/
theorem second_torn_loses_first :
    let wal := Sample.emptyWal 1000000 10
    let records := recordsOf (writesAll twoDeletions wal) (walFileName 0)
    let bytes := frames records
    (runAll twoDeletions wal).directory.lookup (walFileName 0) = some bytes ∧
      bytes.length = 136 ∧ (complete records 78).length = 1 ∧
      recoverFromFile (bytes.take 78) ≠ .ok (contents (complete records 78)) := by
  intro wal records bytes
  have hlength : bytes.length = 136 := by decide +kernel
  have hfits : ∀ record ∈ records, (encode record).length < 2 ^ 64 := by decide +kernel
  refine ⟨by decide +kernel, hlength, by decide +kernel, ?_⟩
  intro hok
  have hreadable := (recoverFromFile_take_iff records 78 (by rw [hlength]; decide) hfits
    fun record h => verify_of_mem_recordsOf h).mp hok
  have htorn : ¬ torn records 78 < 4 := by decide +kernel
  exact htorn hreadable.1

/-- A cut that leaves three bytes of the second record gives the first one. -/
theorem cut_in_length_field :
    let wal := Sample.emptyWal 1000000 10
    let records := recordsOf (writesAll twoDeletions wal) (walFileName 0)
    (complete records 71).length = 1 ∧
      recoverFromFile ((frames records).take 71) = .ok (contents (complete records 71)) := by
  intro wal records
  refine ⟨by decide +kernel, ?_⟩
  have hfile : (runAll twoDeletions wal).directory.lookup (walFileName 0) = some (frames records) := by
    decide +kernel
  refine (recoverFromFile_cut_iff _ _ twoDeletions _ _ hfile ?_ 71 ?_).mpr ⟨?_, ?_⟩
  · decide +kernel
  · decide +kernel
  · decide +kernel
  · unfold Short
    decide +kernel

end Example
