/-
# Log sequence numbers

A number is given to an entry when it is appended, but it is written when the log is
flushed, and after a restart it is taken from the names of the files.

* All records of one flush carry the number of the last entry, so the numbers are
  right if the log is flushed after every append.
* The name of a file has its number in hexadecimal digits, and `find_latest_lsn` reads
  them as decimal ones.  This is right for the numbers up to nine only
  (`findLatestLsn_iff`).

`Ordered` is the invariant of the runs in which neither matters.
-/
import Pacyte.WalReplay

/-! ## Hexadecimal digits that are read as decimal ones -/

/-- The value of the lowest `k` hexadecimal digits of a number in base ten. -/
def decimalOfHex : ℕ → ℕ → ℕ
  | 0, _ => 0
  | k + 1, n => n % 16 + 10 * decimalOfHex k (n / 16)

theorem decimalOfHex_le (k n : ℕ) : decimalOfHex k n ≤ n := by
  induction k generalizing n with
  | zero => exact Nat.zero_le n
  | succ k ih =>
      have hrest := ih (n / 16)
      rw [decimalOfHex]
      omega

/-- A number of two digits or more is read as a smaller one. -/
theorem decimalOfHex_lt (k n : ℕ) (h : 16 ≤ n) : decimalOfHex (k + 1) n < n := by
  have hrest := decimalOfHex_le k (n / 16)
  rw [decimalOfHex]
  omega

/-- The digits in a file name. -/
def hexDigits (k n : ℕ) : List Char := (List.range k).reverse.map fun i => hexDigit (n / 16 ^ i % 16)

theorem hexDigits_succ (k n : ℕ) :
    hexDigits (k + 1) n = hexDigits k (n / 16) ++ [hexDigit (n % 16)] := by
  unfold hexDigits
  rw [List.range_succ_eq_map, List.reverse_cons, List.map_append, ← List.map_reverse, List.map_map]
  congr 1
  · apply List.map_congr_left
    intro i _
    simp only [Function.comp_apply, pow_succ', Nat.div_div_eq_div_mul]
  · simp

/-- The digits are none of the letters around them. -/
theorem hexDigit_cases {x : ℕ} (h : x < 16) :
    hexDigit x ≠ 'w' ∧ hexDigit x ≠ 'g' ∧ hexDigit x ≠ '+' ∧
      ((hexDigit x).isDigit = true → x < 10 ∧ (hexDigit x).toNat - 48 = x) := by
  revert x
  decide

theorem mem_hexDigits {k n : ℕ} {c : Char} (h : c ∈ hexDigits k n) : ∃ x < 16, c = hexDigit x := by
  obtain ⟨i, -, rfl⟩ := List.mem_map.mp h
  exact ⟨_, Nat.mod_lt _ (by decide), rfl⟩

/-- What `parse` makes of the digits. -/
theorem foldl_hexDigits (k n : ℕ) (h : (hexDigits k n).all Char.isDigit = true) :
    (hexDigits k n).foldl (fun m c => 10 * m + (c.toNat - 48)) 0 = decimalOfHex k n := by
  induction k generalizing n with
  | zero => rfl
  | succ k ih =>
      rw [hexDigits_succ] at h ⊢
      rw [List.all_append, Bool.and_eq_true, List.all_cons, Bool.and_eq_true] at h
      have hlast := ((hexDigit_cases (Nat.mod_lt n (by decide : 0 < 16))).2.2.2 h.2.1).2
      rw [List.foldl_append, ih _ h.1, List.foldl_cons, List.foldl_nil, hlast, decimalOfHex]
      omega

/-! ## File names -/

theorem toList_walFileName (lsn : UInt64) :
    (walFileName lsn).toList = "wal_".toList ++ hexDigits 16 lsn.toNat ++ ".log".toList := by
  unfold walFileName
  simp only [String.toList_append, String.toList_ofList]
  rfl

/-- A pattern that does not start the text is not removed. -/
theorem trimStartMatches_of_not_isPrefixOf {pattern text : List Char}
    (h : pattern.isPrefixOf text = false) (fuel : ℕ) : trimStartMatches pattern fuel text = text := by
  cases fuel with
  | zero => rfl
  | succ fuel =>
      rw [trimStartMatches, h]
      rfl

/-- A pattern in front is removed once, if it does not stand there twice. -/
theorem trimStartMatches_append {pattern text : List Char} (h : pattern.isPrefixOf text = false)
    (fuel : ℕ) : trimStartMatches pattern (fuel + 1) (pattern ++ text) = text := by
  rw [trimStartMatches, List.isPrefixOf_iff_prefix.mpr (List.prefix_append _ _), if_pos rfl,
    List.drop_left' rfl, trimStartMatches_of_not_isPrefixOf h]

/-- The prefix and the extension are taken off, and nothing else. -/
theorem lsnOfFileName_walFileName (lsn : UInt64) :
    lsnOfFileName (walFileName lsn) = parseU64 (hexDigits 16 lsn.toNat) := by
  have hne : hexDigits 16 lsn.toNat ≠ [] := by
    intro h
    have hlength := congrArg List.length h
    simp [hexDigits] at hlength
  -- the digits neither start with a `w` nor end with a `g`
  obtain ⟨c, rest, hhead⟩ := List.exists_cons_of_ne_nil hne
  obtain ⟨d, rest', hlast⟩ := List.exists_cons_of_ne_nil
    (fun h => hne (List.reverse_eq_nil_iff.mp h) : (hexDigits 16 lsn.toNat).reverse ≠ [])
  obtain ⟨x, hx, hcx⟩ : ∃ x < 16, c = hexDigit x :=
    mem_hexDigits (hhead ▸ List.mem_cons_self : c ∈ hexDigits 16 lsn.toNat)
  obtain ⟨y, hy, hdy⟩ : ∃ x < 16, d = hexDigit x :=
    mem_hexDigits (List.mem_reverse.mp (hlast ▸ List.mem_cons_self))
  have hstart : ∀ text, "wal_".toList.isPrefixOf (hexDigits 16 lsn.toNat ++ text) = false := by
    intro text
    rw [hhead, hcx]
    have hw : ('w' == hexDigit x) = false := beq_false_of_ne (hexDigit_cases hx).1.symm
    show (('w' == hexDigit x) && _) = false
    rw [hw, Bool.false_and]
  have hend : ".log".toList.reverse.isPrefixOf (hexDigits 16 lsn.toNat).reverse = false := by
    rw [hlast, hdy]
    have hg : ('g' == hexDigit y) = false := beq_false_of_ne (hexDigit_cases hy).2.1.symm
    show (('g' == hexDigit y) && _) = false
    rw [hg, Bool.false_and]
  have hlength : (walFileName lsn).toList.length = 23 + 1 := by
    rw [toList_walFileName]
    simp [hexDigits]
  unfold lsnOfFileName
  dsimp only
  rw [hlength, toList_walFileName]
  have hboth : ("wal_".toList.isPrefixOf ("wal_".toList ++ hexDigits 16 lsn.toNat ++ ".log".toList)
      && ".log".toList.isSuffixOf ("wal_".toList ++ hexDigits 16 lsn.toNat ++ ".log".toList))
        = true := by
    rw [Bool.and_eq_true, List.isPrefixOf_iff_prefix, List.isSuffixOf_iff_suffix, List.append_assoc]
    exact ⟨List.prefix_append _ _, by rw [← List.append_assoc]; exact List.suffix_append _ _⟩
  rw [if_pos hboth, List.append_assoc, trimStartMatches_append (hstart _), trimEndMatches,
    List.reverse_append, trimStartMatches_append hend, List.reverse_reverse]

/-- The number of a file is read back if it has one decimal digit; a larger number is
read as a smaller one, or not at all. -/
theorem lsnOfFileName_walFileName_cases (lsn : UInt64) :
    (lsn ≤ 9 → lsnOfFileName (walFileName lsn) = some lsn) ∧
      (¬ lsn ≤ 9 → ∀ n, lsnOfFileName (walFileName lsn) = some n → n < lsn) := by
  rw [lsnOfFileName_walFileName]
  constructor
  · intro hle
    have hsmall : ∀ k ≤ 9, parseU64 (hexDigits 16 k) = some (UInt64.ofNat k) := by decide
    rw [hsmall lsn.toNat (UInt64.le_iff_toNat_le.mp hle), UInt64.ofNat_toNat]
  · intro hgt n hn
    have hnat : 9 < lsn.toNat := not_le.mp fun h => hgt (UInt64.le_iff_toNat_le.mpr h)
    have hhead : (hexDigits 16 lsn.toNat).head? ≠ some '+' := by
      intro h
      obtain ⟨x, hx, hplus⟩ := mem_hexDigits (List.mem_of_mem_head? h)
      exact (hexDigit_cases hx).2.2.1 hplus.symm
    unfold parseU64 at hn
    simp only [if_neg hhead] at hn
    split_ifs at hn with hbad
    simp only [Bool.or_eq_true, not_or, Bool.not_eq_true, Bool.not_eq_false', decide_eq_true_eq]
      at hbad
    obtain ⟨⟨-, hdigits⟩, hfits⟩ := hbad
    rw [foldl_hexDigits 16 lsn.toNat hdigits] at hn hfits
    -- the last digit is a decimal one, so there is another digit before it
    have hlast : lsn.toNat % 16 < 10 := by
      rw [hexDigits_succ, List.all_append, Bool.and_eq_true, List.all_cons, Bool.and_eq_true]
        at hdigits
      exact ((hexDigit_cases (Nat.mod_lt _ (by decide))).2.2.2 hdigits.2.1).1
    have hlt := decimalOfHex_lt 15 lsn.toNat (by omega)
    obtain rfl := Option.some.inj hn
    rw [UInt64.lt_iff_toNat_lt, UInt64.toNat_ofNat_of_lt' (not_le.mp hfits)]
    exact hlt

/-! ## The latest number of a directory -/

theorem foldl_max_spec (names : List String) (start : UInt64) :
    let best := names.foldl (fun maxLsn name =>
      match lsnOfFileName name with
      | some lsn => max maxLsn lsn
      | none => maxLsn) start
    start ≤ best ∧ ∀ name ∈ names, ∀ lsn, lsnOfFileName name = some lsn → lsn ≤ best := by
  have hleft : ∀ a b : UInt64, a ≤ max a b := by
    intro a b
    rw [UInt64.le_iff_toNat_le, UInt64.toNat_max]
    exact le_max_left _ _
  have hright : ∀ a b : UInt64, b ≤ max a b := by
    intro a b
    rw [UInt64.le_iff_toNat_le, UInt64.toNat_max]
    exact le_max_right _ _
  induction names generalizing start with
  | nil => exact ⟨UInt64.le_refl start, fun name h => nomatch h⟩
  | cons name rest ih =>
      obtain ⟨hstart, hrest⟩ := ih (match lsnOfFileName name with
        | some lsn => max start lsn
        | none => start)
      refine ⟨UInt64.le_trans ?_ hstart, ?_⟩
      · cases lsnOfFileName name with
        | none => exact UInt64.le_refl start
        | some lsn => exact hleft start lsn
      · intro x hx lsn hlsn
        rcases List.mem_cons.mp hx with rfl | hmem
        · rw [hlsn] at hstart
          refine UInt64.le_trans (hright start lsn) ?_
          rw [List.foldl_cons, hlsn]
          exact hstart
        · exact hrest x hmem lsn hlsn

/-- Every number in a file name is at most the latest one. -/
theorem le_findLatestLsn {directory : Map String Bytes} {name : String} {lsn : UInt64}
    (hname : name ∈ directory) (hlsn : lsnOfFileName name = some lsn) :
    lsn ≤ findLatestLsn directory :=
  (foldl_max_spec directory.keys 0).2 name hname lsn hlsn

/-- **Which numbers are found again.**  The number of a file is covered by the latest
number of every directory with this file if and only if it is at most nine. -/
theorem findLatestLsn_iff (lsn : UInt64) :
    (∀ directory : Map String Bytes, walFileName lsn ∈ directory → lsn ≤ findLatestLsn directory) ↔
      lsn ≤ 9 := by
  constructor
  · intro h
    by_contra hgt
    -- the directory with nothing but this file
    have hle := h ((∅ : Map String Bytes).insert (walFileName lsn) [])
      (AList.mem_insert _ |>.mpr (Or.inl rfl))
    have hfind : findLatestLsn ((∅ : Map String Bytes).insert (walFileName lsn) [])
        = match lsnOfFileName (walFileName lsn) with
          | some n => max 0 n
          | none => 0 := rfl
    rw [hfind] at hle
    cases hn : lsnOfFileName (walFileName lsn) with
    | none =>
        rw [hn] at hle
        exact hgt (UInt64.le_trans hle (by decide))
    | some n =>
        rw [hn] at hle
        have hlt := (lsnOfFileName_walFileName_cases lsn).2 hgt n hn
        dsimp only at hle
        rw [UInt64.le_iff_toNat_le, UInt64.toNat_max] at hle
        rw [UInt64.lt_iff_toNat_lt] at hlt
        exact absurd (lt_of_lt_of_le hlt hle) (by simp)
  · intro hle directory hmem
    exact le_findLatestLsn hmem ((lsnOfFileName_walFileName_cases lsn).1 hle)

/-! ## Runs -/

namespace WalOp

open WalManager Locks

variable [LawfulWalCodec]

/-- The number and the entry of a record. -/
def numberOf (e : String × WalRecord) : UInt64 × WalEntry := (e.2.lsn, e.2.entry)

/-- The number that an append returns, with its entry. -/
def answerOf (entry : WalEntry) (wal : WalManager) : List (UInt64 × WalEntry) :=
  match (WalManager.append entry wal).1 with
  | .ok lsn => [(lsn, entry)]
  | _ => []

/-- The numbers that the appends of an operation return, with their entries. -/
def returned (op : WalOp) (wal : WalManager) : List (UInt64 × WalEntry) :=
  match op with
  | append entry => answerOf entry wal
  | flush => []
  | checkpoint => answerOf (checkpointEntry wal) (checkpointing wal)
  | close => []
  | reopen => []

/-- The numbers that the appends of a run return. -/
def returnedAll : List WalOp → WalManager → List (UInt64 × WalEntry)
  | [], _ => []
  | op :: rest, wal => op.returned wal ++ returnedAll rest (op.run wal).2

/-- An append finds nothing pending, and a restart finds a file with a name that is read
as the current number or a later one. -/
def Careful (op : WalOp) (wal : WalManager) : Prop :=
  match op with
  | append _ => wal.pendingEntries = []
  | checkpoint => wal.pendingEntries = []
  | reopen => ∃ name ∈ wal.directory, ∃ lsn, lsnOfFileName name = some lsn ∧ wal.currentLsn ≤ lsn
  | _ => True

/-- Every operation of a run is careful. -/
def CarefulAll : List WalOp → WalManager → Prop
  | [], _ => True
  | op :: rest, wal => op.Careful wal ∧ CarefulAll rest (op.run wal).2

/-- The numbers are given in increasing order, and the records of the log and the entries
that are pending have the numbers that were returned for them. -/
structure Ordered (wal : WalManager) (log : List (String × WalRecord))
    (answers : List (UInt64 × WalEntry)) : Prop where
  enabled : wal.config.enabled = true
  increasing : answers.Pairwise fun a b => a.1 < b.1
  bounded : ∀ a ∈ answers, a.1 ≤ wal.currentLsn
  matching : (log.map numberOf ++ wal.pendingEntries.map fun entry => (wal.currentLsn, entry)).Sublist
    answers

theorem numberOf_sealAll (lsn : UInt64) (entries : List WalEntry) (clock : Clock) (name : String) :
    ((sealAll lsn entries clock).map fun r => (name, r)).map numberOf
      = entries.map fun entry => (lsn, entry) := by
  induction entries generalizing clock with
  | nil => rfl
  | cons entry rest ih =>
      rw [sealAll, List.map_cons, List.map_cons, ih]
      rfl

/-- The records of a flush have the current number. -/
theorem numberOf_flushedRecords (wal : WalManager) :
    (wal.flushedRecords.map numberOf).Sublist
      (wal.pendingEntries.map fun entry => (wal.currentLsn, entry)) := by
  unfold flushedRecords
  split_ifs
  · cases wal.currentFile with
    | none => exact List.nil_sublist _
    | some file =>
        dsimp only
        rw [numberOf_sealAll]
  · exact List.nil_sublist _

/-- A flush keeps the order. -/
theorem Ordered.flush {wal : WalManager} {log : List (String × WalRecord)}
    {answers : List (UInt64 × WalEntry)} (h : Ordered wal log answers) :
    Ordered (WalManager.flush wal).2 (log ++ wal.flushedRecords) answers := by
  obtain ⟨hpending, hlsn, hconfig, -⟩ := flush_state h.enabled
  refine ⟨?_, h.increasing, ?_, ?_⟩
  · rw [hconfig]
    exact h.enabled
  · rw [hlsn]
    exact h.bounded
  · rw [hpending, List.map_nil, List.append_nil, List.map_append]
    exact ((List.Sublist.refl _).append (numberOf_flushedRecords wal)).trans h.matching

omit [LawfulWalCodec] in
/-- The order does not depend on files, clock and guards. -/
theorem Ordered.congr {wal wal' : WalManager} {log : List (String × WalRecord)}
    {answers : List (UInt64 × WalEntry)} (h : Ordered wal log answers)
    (hconfig : wal'.config = wal.config) (hlsn : wal'.currentLsn = wal.currentLsn)
    (hpending : wal'.pendingEntries = wal.pendingEntries) : Ordered wal' log answers := by
  refine ⟨?_, h.increasing, ?_, ?_⟩
  · rw [hconfig]
    exact h.enabled
  · rw [hlsn]
    exact h.bounded
  · rw [hlsn, hpending]
    exact h.matching

omit [LawfulWalCodec] in
/-- A new number with its entry, while nothing else is pending. -/
theorem Ordered.numbered {wal : WalManager} {log : List (String × WalRecord)}
    {answers : List (UInt64 × WalEntry)} (h : Ordered wal log answers)
    (hpending : wal.pendingEntries = []) (hfits : ¬ 2 ^ 64 ≤ wal.currentLsn.toNat + 1)
    (entry : WalEntry) :
    Ordered (wal.numbered entry) log (answers ++ [(wal.currentLsn + 1, entry)]) := by
  have hsucc : (wal.currentLsn + 1).toNat = wal.currentLsn.toNat + 1 :=
    Exec.toNat_add_of_fits (not_le.mp hfits)
  have hlt : ∀ a ∈ answers, a.1 < wal.currentLsn + 1 := by
    intro a ha
    have hle := UInt64.le_iff_toNat_le.mp (h.bounded a ha)
    rw [UInt64.lt_iff_toNat_lt, hsucc]
    omega
  refine ⟨h.enabled, ?_, ?_, ?_⟩
  · rw [List.pairwise_append]
    refine ⟨h.increasing, List.pairwise_singleton _ _, ?_⟩
    intro a ha b hb
    obtain rfl := List.mem_singleton.mp hb
    exact hlt a ha
  · intro a ha
    rcases List.mem_append.mp ha with hold | hnew
    · exact UInt64.le_of_lt (hlt a hold)
    · obtain rfl := List.mem_singleton.mp hnew
      exact UInt64.le_refl _
  · have hmatching := h.matching
    rw [hpending, List.map_nil, List.append_nil] at hmatching
    show (log.map numberOf ++ (wal.pendingEntries ++ [entry]).map
      fun entry => (wal.currentLsn + 1, entry)).Sublist _
    rw [hpending]
    exact hmatching.append (List.Sublist.refl _)

/-- An append keeps the order, if nothing is pending before it. -/
theorem Ordered.append {wal : WalManager} {log : List (String × WalRecord)}
    {answers : List (UInt64 × WalEntry)} (h : Ordered wal log answers)
    (hpending : wal.pendingEntries = []) (entry : WalEntry) :
    Ordered (WalManager.append entry wal).2 (log ++ appendedRecords entry wal)
      (answers ++ answerOf entry wal) := by
  rw [answerOf, append_run, appendedRecords]
  simp only [h.enabled, Bool.not_true, Bool.false_eq_true, if_false, true_and]
  by_cases hover : 2 ^ 64 ≤ wal.currentLsn.toNat + 1
  · rw [if_pos hover, if_neg fun hand => hand.1 hover, List.append_nil, List.append_nil]
    exact h.congr rfl rfl rfl
  · rw [if_neg hover]
    have hnumbered := h.numbered hpending hover entry
    by_cases hfull : wal.config.maxPendingEntries ≤ wal.pendingEntries.length + 1
    · rw [if_pos hfull, if_pos ⟨hover, hfull⟩]
      have hflush := hnumbered.flush
      obtain ⟨hnone, -, -, hfail⟩ := flush_state hnumbered.enabled
      -- a flush that fails loses the entry, and no number is returned for it
      have hlost : (WalManager.flush (wal.numbered entry)).1 ≠ .ok () →
          Ordered (WalManager.flush (wal.numbered entry)).2
            (log ++ (wal.numbered entry).flushedRecords) answers := by
        intro herr
        have hmatching := h.matching
        rw [hpending, List.map_nil, List.append_nil] at hmatching
        refine ⟨hflush.enabled, h.increasing, ?_, ?_⟩
        · exact fun a ha => hflush.bounded a (List.mem_append_left _ ha)
        · rw [hnone, hfail herr, List.append_nil, List.map_nil, List.append_nil]
          exact hmatching
      rcases hrun : WalManager.flush (wal.numbered entry) with ⟨_ | _ | _, wal'⟩
      · rw [hrun] at hflush
        exact hflush.congr rfl rfl rfl
      · rw [hrun] at hlost
        show Ordered _ _ (answers ++ [])
        rw [List.append_nil]
        exact (hlost (by rintro ⟨⟩)).congr rfl rfl rfl
      · rw [hrun] at hlost
        show Ordered _ _ (answers ++ [])
        rw [List.append_nil]
        exact (hlost (by rintro ⟨⟩)).congr rfl rfl rfl
    · rw [if_neg hfull, if_neg fun hand => hfull hand.2, List.append_nil]
      exact hnumbered.congr rfl rfl rfl

/-- **Every careful operation keeps the order.** -/
theorem Ordered.run {op : WalOp} {wal : WalManager} {log : List (String × WalRecord)}
    {answers : List (UInt64 × WalEntry)} (h : Ordered wal log answers) (hcareful : op.Careful wal) :
    Ordered (op.run wal).2 (log ++ op.writes wal) (answers ++ op.returned wal) := by
  cases op with
  | append entry => exact h.append hcareful entry
  | flush =>
      rw [returned, List.append_nil]
      exact h.flush
  | checkpoint =>
      have hstart : Ordered (checkpointing wal) log answers := h.congr rfl rfl rfl
      have happend := hstart.append hcareful (checkpointEntry wal)
      show Ordered (WalManager.checkpoint wal).2 _ _
      rw [checkpoint_run, writes, returned, ← List.append_assoc]
      rcases hrun : WalManager.append (checkpointEntry wal) (checkpointing wal)
        with ⟨n | _ | _, wal'⟩
      · rw [hrun] at happend
        have hreleased : Ordered (release wal.guards.held wal') _ _ := happend.congr rfl rfl rfl
        exact hreleased.flush
      · rw [hrun] at happend
        rw [List.append_nil]
        exact happend.congr rfl rfl rfl
      · rw [hrun] at happend
        rw [List.append_nil]
        exact happend.congr rfl rfl rfl
  | close =>
      have hflush := h.flush
      rw [returned, List.append_nil]
      show Ordered (WalManager.close wal).2 (log ++ wal.flushedRecords) answers
      unfold WalManager.close
      rw [Exec.run_bind]
      rcases hrun : WalManager.flush wal with ⟨_ | _ | _, wal'⟩
      · rw [hrun] at hflush
        exact hflush.congr rfl rfl rfl
      · rw [hrun] at hflush
        exact hflush
      · rw [hrun] at hflush
        exact hflush
  | reopen =>
      obtain ⟨name, hname, lsn, hlsn, hle⟩ := hcareful
      rw [writes, returned, List.append_nil, List.append_nil]
      refine ⟨h.enabled, h.increasing, ?_, ?_⟩
      · intro a ha
        exact UInt64.le_trans (h.bounded a ha) (UInt64.le_trans hle (le_findLatestLsn hname hlsn))
      · -- what was pending is lost
        show (log.map numberOf ++ []).Sublist answers
        rw [List.append_nil]
        exact (List.sublist_append_left _ _).trans h.matching

theorem Ordered.runAll {ops : List WalOp} {wal : WalManager} {log : List (String × WalRecord)}
    {answers : List (UInt64 × WalEntry)} (h : Ordered wal log answers)
    (hcareful : CarefulAll ops wal) :
    Ordered (runAll ops wal) (log ++ writesAll ops wal) (answers ++ returnedAll ops wal) := by
  induction ops generalizing wal log answers with
  | nil =>
      rw [writesAll, returnedAll, List.append_nil, List.append_nil]
      exact h
  | cons op rest ih =>
      rw [writesAll, returnedAll, ← List.append_assoc, ← List.append_assoc]
      exact ih (h.run hcareful.1) hcareful.2

/-- **Numbers in careful runs.**  If nothing is pending whenever an entry is appended, and
every restart finds a file with a name that is read as the current number or a later one,
then the numbers that are returned are strictly increasing over all restarts, and every
record carries the number that was returned for its entry.  Of the names that the log gives
its files, exactly those of the numbers up to nine are read in this way. -/
theorem lsn_discipline (config : WalConfig) (henabled : config.enabled = true) (clock : Clock)
    (ops : List WalOp) (hcareful : CarefulAll ops (WalManager.new ∅ config clock)) :
    ((returnedAll ops (WalManager.new ∅ config clock)).Pairwise fun a b => a.1 < b.1) ∧
      ((writesAll ops (WalManager.new ∅ config clock)).map numberOf).Sublist
        (returnedAll ops (WalManager.new ∅ config clock)) ∧
      ∀ lsn, (∀ directory : Map String Bytes, walFileName lsn ∈ directory →
        lsn ≤ findLatestLsn directory) ↔ lsn ≤ 9 := by
  have hstart : Ordered (WalManager.new ∅ config clock) [] [] :=
    ⟨henabled, List.Pairwise.nil, fun a ha => (nomatch ha), List.Sublist.refl _⟩
  have hend := hstart.runAll hcareful
  rw [List.nil_append, List.nil_append] at hend
  exact ⟨hend.increasing, (List.sublist_append_left _ _).trans hend.matching, findLatestLsn_iff⟩

end WalOp

section Example

open WalManager WalOp
open scoped Sample

/-- Two entries are appended before the log is flushed. -/
def twoPending : List WalOp :=
  [.append (.deleteAccount (Vector.replicate 32 1)), .append (.deleteAccount (Vector.replicate 32 2)),
    .flush]

/-- Both records carry the second number; and the file of number ten is not found again,
so that a restart would give out numbers for a second time. -/
theorem first_number_not_written :
    let wal := Sample.emptyWal 1000000 10
    (returnedAll twoPending wal).map Prod.fst = [1, 2] ∧
      (writesAll twoPending wal).map (fun e => e.2.lsn) = [2, 2] ∧
      findLatestLsn ((∅ : Map String Bytes).insert (walFileName 10) []) < 10 := by
  intro wal
  refine ⟨?_, ?_, ?_⟩
  · decide
  · decide
  · decide

/-- Two entries, each flushed before the next one, a rotation, and a restart. -/
def flushedOneByOne : List WalOp :=
  [.append (.deleteAccount (Vector.replicate 32 1)), .flush,
    .append (.deleteAccount (Vector.replicate 32 2)), .flush, .reopen,
    .append (.deleteAccount (Vector.replicate 32 3)), .flush]

/-- The numbers are in order and are those of the records. -/
theorem one_by_one_numbers :
    let wal := Sample.emptyWal 1 10
    CarefulAll flushedOneByOne wal ∧ (returnedAll flushedOneByOne wal).length = 3 ∧
      ((returnedAll flushedOneByOne wal).Pairwise fun a b => a.1 < b.1) ∧
      ((writesAll flushedOneByOne wal).map numberOf).Sublist (returnedAll flushedOneByOne wal) := by
  intro wal
  have hcareful : CarefulAll flushedOneByOne wal := by
    refine ⟨rfl, trivial, List.isEmpty_iff.mp (by decide), trivial,
      ⟨walFileName 2, by decide, 2, by decide, by decide⟩,
      List.isEmpty_iff.mp (by decide), trivial, trivial⟩
  obtain ⟨hincreasing, hnumbers, -⟩ := lsn_discipline _ rfl _ flushedOneByOne hcareful
  exact ⟨hcareful, by decide, hincreasing, hnumbers⟩

end Example
