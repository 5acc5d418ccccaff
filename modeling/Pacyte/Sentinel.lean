/-
# The sentinel

`SentinelNode` of `src/consensus/sentinel.rs`: it watches proposals and votes and records
evidence against validators that seem to have proposed or voted twice.

The hashes that were proposed are kept for each height and round, whoever proposed them, and
the hashes that were voted for are kept for each height, round and voter, whatever the votes
are for.  So a second proposer is accused of what the first one sent, and a voter that
precommits another block than it prevoted is accused of a double vote
(`evidence_sound`).

`LruCache` is not a part of the repository.  What is used of it is that an insertion may
evict entries, but alters none: the model takes the keys that survive each insertion as
given.
-/
import Pacyte.SafetyRules

/-! ## Caches -/

/-- A cache, and the keys that its next insertions keep. -/
structure LruCache (κ ν : Type) where
  peek : κ → Option ν
  keeps : ℕ → κ → Bool

namespace LruCache

variable {κ ν : Type} [DecidableEq κ]

/-- `LruCache::new`. -/
def new (keeps : ℕ → κ → Bool) : LruCache κ ν := ⟨fun _ => none, keeps⟩

/-- `LruCache::put`. -/
def put (c : LruCache κ ν) (key : κ) (value : ν) : LruCache κ ν where
  peek := fun k => if c.keeps 0 k then (if k = key then some value else c.peek k) else none
  keeps := fun i => c.keeps (i + 1)

/-- A value that `get_mut` has found is changed. -/
def update (c : LruCache κ ν) (key : κ) (value : ν) : LruCache κ ν :=
  { c with peek := fun k => if k = key then some value else c.peek k }

/-- Whatever an insertion evicts, what is found afterwards was put or found before. -/
theorem peek_of_put {c : LruCache κ ν} {key k : κ} {value v : ν}
    (h : (c.put key value).peek k = some v) : (k = key ∧ v = value) ∨ c.peek k = some v := by
  change (if c.keeps 0 k then (if k = key then some value else c.peek k) else none) = some v at h
  split_ifs at h with hkeep hkey
  · exact Or.inl ⟨hkey, (Option.some.inj h).symm⟩
  · exact Or.inr h

theorem peek_of_update {c : LruCache κ ν} {key k : κ} {value v : ν}
    (h : (c.update key value).peek k = some v) : (k = key ∧ v = value) ∨ c.peek k = some v := by
  change (if k = key then some value else c.peek k) = some v at h
  split_ifs at h with hkey
  · exact Or.inl ⟨hkey, (Option.some.inj h).symm⟩
  · exact Or.inr h

end LruCache

/-! ## Reports -/

/-- `SentinelConfig`. -/
structure SentinelConfig where
  quorumThreshold : ℕ
  maxHeightHistory : ℕ
  maxMissedBlocksBeforeAlarm : UInt64
  maxTimestampDriftSecs : UInt64

/-- `AnomalyType`. -/
inductive AnomalyType : Type where
  | doubleProposal (validatorId : UInt64) (hash₁ hash₂ : Hash)
  | doubleVote (validatorId : UInt64) (hash₁ hash₂ : Hash)
  | missedBlock (validatorId : UInt64) (height : BlockHeight)
  | genesisViolation (round : UInt64)
  deriving DecidableEq

/-- `SlashingEvidence`. -/
inductive SlashingEvidence : Type where
  | doubleProposal (validatorId : UInt64) (height : BlockHeight) (round : UInt64)
      (blockHash₁ blockHash₂ : Hash) (reportedAt : Timestamp)
  | doubleVote (validatorId : UInt64) (height : BlockHeight) (round : UInt64)
      (blockHash₁ blockHash₂ : Hash) (reportedAt : Timestamp)
  deriving DecidableEq

/-- `SentinelReport`. -/
structure SentinelReport where
  height : BlockHeight
  round : UInt64
  blockHash : Option Hash
  validatorCount : ℕ
  quorumReached : Bool
  anomalies : List String
  anomalyTypes : List AnomalyType
  warnings : List String
  timestamp : Timestamp

namespace SentinelReport

/-- `SentinelReport::new` at the clock reading `now`. -/
def new (height : BlockHeight) (now : Timestamp) : SentinelReport where
  height := height
  round := 0
  blockHash := none
  validatorCount := 0
  quorumReached := false
  anomalies := []
  anomalyTypes := []
  warnings := []
  timestamp := now

/-- `SentinelReport::add_anomaly`. -/
def addAnomaly (report : SentinelReport) (description : String) (anomalyType : AnomalyType) :
    SentinelReport :=
  { report with anomalies := report.anomalies ++ [description]
                anomalyTypes := report.anomalyTypes ++ [anomalyType] }

/-- `SentinelReport::add_warning`. -/
def addWarning (report : SentinelReport) (description : String) : SentinelReport :=
  { report with warnings := report.warnings ++ [description] }

/-- `SentinelReport::has_anomalies`. -/
def hasAnomalies (report : SentinelReport) : Bool := !report.anomalies.isEmpty

/-- The evidence that an anomaly of the report makes. -/
def evidenceOf (report : SentinelReport) : AnomalyType → Option SlashingEvidence
  | .doubleProposal validatorId hash₁ hash₂ => some (.doubleProposal validatorId report.height
      report.round hash₁ hash₂ report.timestamp)
  | .doubleVote validatorId hash₁ hash₂ => some (.doubleVote validatorId report.height
      report.round hash₁ hash₂ report.timestamp)
  | .missedBlock _ _ => none
  | .genesisViolation _ => none

/-- `SentinelReport::to_slashing_evidence`. -/
def toSlashingEvidence (report : SentinelReport) : List SlashingEvidence :=
  report.anomalyTypes.filterMap report.evidenceOf

end SentinelReport

/-! ## The node -/

/-- `SentinelNode`, with the clock. -/
structure SentinelNode where
  config : SentinelConfig
  height : BlockHeight
  latestReport : Option SentinelReport
  reportHistory : List SentinelReport
  slashingEvidence : List SlashingEvidence
  seenProposals : LruCache (BlockHeight × UInt64) (List Hash)
  seenVotes : LruCache (BlockHeight × UInt64 × UInt64) (List Hash)
  blockTimestamps : LruCache BlockHeight Timestamp
  missedBlocks : Map UInt64 UInt64
  totalBlocks : UInt64
  totalVotes : UInt64
  totalAnomalies : UInt64
  clock : Clock

namespace SentinelNode

/-- `SentinelNode::new`, with the evictions that will happen. -/
def new (config : SentinelConfig) (clock : Clock) (proposals : ℕ → BlockHeight × UInt64 → Bool)
    (votes : ℕ → BlockHeight × UInt64 × UInt64 → Bool) (times : ℕ → BlockHeight → Bool) :
    SentinelNode where
  config := config
  height := 0
  latestReport := none
  reportHistory := []
  slashingEvidence := []
  seenProposals := LruCache.new proposals
  seenVotes := LruCache.new votes
  blockTimestamps := LruCache.new times
  missedBlocks := ∅
  totalBlocks := 0
  totalVotes := 0
  totalAnomalies := 0
  clock := clock

/-- A program that returns no error. -/
abbrev Watch (α : Type) := Exec Empty SentinelNode α

/-- A reading of the clock. -/
def now : Watch Timestamp := Exec.onPart (·.clock) (fun c s => { s with clock := c }) currentTimestamp

/-- `SentinelNode::get_proposer_for_height`. -/
def getProposerForHeight (height : BlockHeight) : UInt64 := height % 21 + 1

/-- `SentinelNode::get_active_validator_count`. -/
def getActiveValidatorCount (_height : BlockHeight) : ℕ := 21

/-- The height is followed and the block is counted; returns the height before. -/
def trackHeight (proposal : ConsensusProposal) : Watch BlockHeight := do
  let s ← Exec.get
  Exec.modify fun s => { s with
    height := if s.height < proposal.height then proposal.height else s.height }
  let total ← Exec.addU64 s.totalBlocks 1
  Exec.modify fun s => { s with
    totalBlocks := total
    blockTimestamps := s.blockTimestamps.put proposal.height proposal.block.header.timestamp }
  return s.height

/-- A proposer other than the expected one: the expected one has missed a block. -/
def checkMissed (proposal : ConsensusProposal) (prevHeight : BlockHeight)
    (report : SentinelReport) : Watch SentinelReport := do
  if 0 < proposal.height ∧ prevHeight < proposal.height ∧
      proposal.proposer ≠ getProposerForHeight proposal.height then
    let expected := getProposerForHeight proposal.height
    let s ← Exec.get
    let count ← Exec.addU64 ((s.missedBlocks.lookup expected).getD 0) 1
    Exec.modify fun s => { s with missedBlocks := s.missedBlocks.insert expected count }
    if s.config.maxMissedBlocksBeforeAlarm ≤ count then
      return report.addAnomaly ("Validator " ++ toString expected.toNat ++ " missed " ++
        toString count.toNat ++ " blocks") (.missedBlock expected proposal.height)
    else
      return report
  else
    return report

/-- A height that does not follow the one before. -/
def checkSequence (proposal : ConsensusProposal) (prevHeight : BlockHeight)
    (report : SentinelReport) : Watch SentinelReport := do
  if 0 < proposal.height then
    let next ← Exec.addU64 prevHeight 1
    if proposal.height ≠ next ∧ 0 < prevHeight then
      return report.addWarning ("Non-sequential height: expected " ++ toString next.toNat ++
        ", got " ++ toString proposal.height.toNat)
    else
      return report
  else
    return report

/-- A genesis block in a later round. -/
def checkGenesis (proposal : ConsensusProposal) (report : SentinelReport) : SentinelReport :=
  if proposal.height = 0 ∧ 0 < proposal.round then
    report.addAnomaly ("Genesis block at non-zero round: " ++ toString proposal.round.toNat)
      (.genesisViolation proposal.round)
  else
    report

section Hashes

/-- Hashes are compared by value. -/
local instance lawfulBEq_hash : LawfulBEq Hash := inferInstance

variable [Primitives]

/-- The hash of the proposal is compared with the one that was seen for its height and
round. -/
def checkDoubleProposal (proposal : ConsensusProposal) (report : SentinelReport) :
    Watch SentinelReport := do
  let key := (proposal.height, proposal.round)
  let blockHash := proposal.block.hash
  let s ← Exec.get
  match s.seenProposals.peek key with
  | none =>
    Exec.modify fun s => { s with seenProposals := s.seenProposals.put key [blockHash] }
    return report
  | some hashes =>
    if blockHash ∈ hashes then
      return report
    else
      Exec.modify fun s => { s with
        seenProposals := s.seenProposals.update key (hashes ++ [blockHash]) }
      match hashes with
      | [first] =>
        return report.addAnomaly ("DOUBLE PROPOSAL: v=" ++ toString proposal.proposer.toNat ++
          " at h=" ++ toString proposal.height.toNat ++ ", r=" ++ toString proposal.round.toNat)
          (.doubleProposal proposal.proposer first blockHash)
      | _ => return report

/-- The time of the block is compared with the block before and with the clock. -/
def checkTimestamp (proposal : ConsensusProposal) (report : SentinelReport) :
    Watch SentinelReport := do
  let timestamp := proposal.block.header.timestamp
  let s ← Exec.get
  let before := if proposal.height = 0 then 0 else proposal.height - 1
  let report := match s.blockTimestamps.peek before with
    | none => report
    | some prev =>
      if timestamp < prev then
        report.addWarning ("Timestamp drift: " ++ toString timestamp.toNat ++ " < " ++
          toString prev.toNat)
      else
        report
  let time ← now
  let limit ← Exec.addU64 time s.config.maxTimestampDriftSecs
  if limit < timestamp then
    return report.addWarning ("Future timestamp: " ++ toString timestamp.toNat ++ " (now: " ++
      toString time.toNat ++ ")")
  else
    return report

/-- The number of validators is compared with the threshold. -/
def checkQuorum (config : SentinelConfig) (proposal : ConsensusProposal)
    (report : SentinelReport) : SentinelReport :=
  let count := getActiveValidatorCount proposal.height
  let report := { report with validatorCount := count
                              quorumReached := decide (config.quorumThreshold ≤ count) }
  if report.quorumReached = false ∧ 0 < count then
    report.addWarning ("Low quorum: " ++ toString count ++ "/" ++ toString config.quorumThreshold)
  else
    report

/-- The anomalies of a report are counted, and its evidence is kept. -/
def recordAnomalies (report : SentinelReport) : Watch Unit := do
  if report.hasAnomalies then
    let s ← Exec.get
    let total ← Exec.addU64 s.totalAnomalies (UInt64.ofNat report.anomalyTypes.length)
    Exec.modify fun s => { s with
      totalAnomalies := total
      slashingEvidence := s.slashingEvidence ++ report.toSlashingEvidence }
  else
    return ()

/-- The report is kept. -/
def recordReport (report : SentinelReport) : Watch Unit := do
  recordAnomalies report
  Exec.modify fun s => { s with
    latestReport := some report
    reportHistory :=
      if s.config.maxHeightHistory < (s.reportHistory ++ [report]).length then
        (s.reportHistory ++ [report]).tail
      else
        s.reportHistory ++ [report] }

/-- The rest of `handle_proposal`, after the comparison of the hashes. -/
def finishProposal (proposal : ConsensusProposal) (report : SentinelReport) : Watch Unit := do
  let report ← checkTimestamp proposal report
  let s ← Exec.get
  recordReport (checkQuorum s.config proposal report)

/-- `SentinelNode::handle_proposal`. -/
def handleProposal (proposal : ConsensusProposal) : Watch Unit := do
  let prevHeight ← trackHeight proposal
  let time ← now
  let report := { SentinelReport.new proposal.height time with
    round := proposal.round, blockHash := some proposal.block.hash }
  let report ← checkMissed proposal prevHeight report
  let report ← checkSequence proposal prevHeight report
  let report ← checkDoubleProposal proposal (checkGenesis proposal report)
  finishProposal proposal report

/-- If the voter has voted for exactly one other hash, it is accused of a double vote. -/
def accuseVoter (vote : ConsensusVote) (hashes : List Hash) : Watch Unit := do
  match hashes with
  | [first] =>
    let time ← now
    Exec.modify fun s => { s with slashingEvidence := s.slashingEvidence ++
      [.doubleVote vote.voter vote.height vote.round first vote.blockHash time] }
    let s ← Exec.get
    let total ← Exec.addU64 s.totalAnomalies 1
    Exec.modify fun s => { s with totalAnomalies := total }
  | _ => return ()

/-- `SentinelNode::handle_vote`. -/
def handleVote (vote : ConsensusVote) : Watch Unit := do
  let s ← Exec.get
  let total ← Exec.addU64 s.totalVotes 1
  Exec.modify fun s => { s with totalVotes := total }
  let key := (vote.height, vote.round, vote.voter)
  match s.seenVotes.peek key with
  | none =>
    Exec.modify fun s => { s with seenVotes := s.seenVotes.put key [vote.blockHash] }
  | some hashes =>
    if vote.blockHash ∈ hashes then
      return ()
    else do
      accuseVoter vote hashes
      Exec.modify fun s => { s with
        seenVotes := s.seenVotes.update key (hashes ++ [vote.blockHash]) }

end Hashes

end SentinelNode

/-- A message that the sentinel is given. -/
inductive SentinelOp : Type where
  | proposal (data : ConsensusProposal)
  | vote (data : ConsensusVote)

/-- The state after a message. -/
def SentinelOp.after [Primitives] (op : SentinelOp) (s : SentinelNode) : SentinelNode :=
  match op with
  | proposal data => (SentinelNode.handleProposal data s).2
  | vote data => (SentinelNode.handleVote data s).2

/-! ## What a report accuses of -/

namespace SentinelReport

/-- Another report about the same height and round makes the same evidence. -/
structure SameEvidence (r r' : SentinelReport) : Prop where
  height : r'.height = r.height
  round : r'.round = r.round
  evidence : r'.toSlashingEvidence = r.toSlashingEvidence

theorem SameEvidence.rfl {r : SentinelReport} : SameEvidence r r := ⟨Eq.refl _, Eq.refl _, Eq.refl _⟩

theorem SameEvidence.trans {r r' r'' : SentinelReport} (h : SameEvidence r r')
    (h' : SameEvidence r' r'') : SameEvidence r r'' :=
  ⟨h'.height.trans h.height, h'.round.trans h.round, h'.evidence.trans h.evidence⟩

theorem toSlashingEvidence_addAnomaly (r : SentinelReport) (description : String)
    (a : AnomalyType) :
    (r.addAnomaly description a).toSlashingEvidence
      = r.toSlashingEvidence ++ (r.evidenceOf a).toList := by
  have hsame : (r.addAnomaly description a).evidenceOf = r.evidenceOf := by
    funext a'
    cases a' with
    | doubleProposal v x y => rfl
    | doubleVote v x y => rfl
    | missedBlock v h => rfl
    | genesisViolation n => rfl
  unfold toSlashingEvidence
  rw [hsame, show (r.addAnomaly description a).anomalyTypes = r.anomalyTypes ++ [a] from rfl,
    List.filterMap_append]
  congr 1

theorem SameEvidence.addWarning (r : SentinelReport) (description : String) :
    SameEvidence r (r.addWarning description) := by
  refine ⟨Eq.refl _, Eq.refl _, ?_⟩
  unfold toSlashingEvidence
  congr 1

/-- An anomaly that makes no evidence. -/
theorem SameEvidence.addAnomaly {r : SentinelReport} {a : AnomalyType}
    (h : r.evidenceOf a = none) (description : String) :
    SameEvidence r (r.addAnomaly description a) := by
  refine ⟨Eq.refl _, Eq.refl _, ?_⟩
  rw [toSlashingEvidence_addAnomaly, h, Option.toList_none, List.append_nil]

end SentinelReport

namespace SentinelNode

open SentinelReport

/-- Neither the hashes that were seen nor the evidence differ. -/
structure Quiet (s s' : SentinelNode) : Prop where
  proposals : s'.seenProposals = s.seenProposals
  votes : s'.seenVotes = s.seenVotes
  evidence : s'.slashingEvidence = s.slashingEvidence

instance : Std.Refl Quiet := ⟨fun _ => ⟨rfl, rfl, rfl⟩⟩

instance : IsTrans SentinelNode Quiet :=
  ⟨fun _ _ _ h h' => ⟨h'.proposals.trans h.proposals, h'.votes.trans h.votes,
    h'.evidence.trans h.evidence⟩⟩

theorem post_now (s : SentinelNode) (Q : Outcome Empty Timestamp → SentinelNode → Prop) :
    Exec.Post now s Q ↔ Q (.ok (s.clock 0)) { s with clock := fun k => s.clock (k + 1) } := Iff.rfl

theorem now_quiet : Exec.Within Quiet now := Exec.Within.onPart (fun _ _ => ⟨rfl, rfl, rfl⟩) _

theorem trackHeight_quiet (proposal : ConsensusProposal) :
    Exec.Within Quiet (trackHeight proposal) := by
  refine Exec.Within.get.bind fun s => ?_
  refine Exec.Within.bind (R := Quiet) (fun s => ⟨rfl, rfl, rfl⟩) fun _ => ?_
  refine (Exec.Within.addU64 _ _).bind fun total => ?_
  exact Exec.Within.bind (R := Quiet) (fun s => ⟨rfl, rfl, rfl⟩) fun _ => Exec.Within.pure _

/-- A check that looks at something else: it leaves what was seen as it is, and its report
makes the same evidence. -/
structure Neutral (check : SentinelReport → Watch SentinelReport) : Prop where
  quiet : ∀ r, Exec.Within Quiet (check r)
  same : ∀ r, Exec.Returns (SameEvidence r) (check r)

theorem checkMissed_neutral (proposal : ConsensusProposal) (prevHeight : BlockHeight) :
    Neutral (checkMissed proposal prevHeight) := by
  constructor
  · intro r
    refine Exec.Within.ite (Exec.Within.get.bind fun s => ?_) (Exec.Within.pure r)
    refine (Exec.Within.addU64 _ _).bind fun count => ?_
    refine Exec.Within.bind (R := Quiet) (fun s => ⟨rfl, rfl, rfl⟩) fun _ => ?_
    exact Exec.Within.ite (Exec.Within.pure _) (Exec.Within.pure _)
  · intro r
    unfold checkMissed
    split_ifs
    · refine Exec.Returns.bind _ fun s => Exec.Returns.bind _ fun count =>
        Exec.Returns.bind _ fun _ => ?_
      split_ifs
      · exact Exec.Returns.pure (SameEvidence.addAnomaly rfl _)
      · exact Exec.Returns.pure SameEvidence.rfl
    · exact Exec.Returns.pure SameEvidence.rfl

theorem checkSequence_neutral (proposal : ConsensusProposal) (prevHeight : BlockHeight) :
    Neutral (checkSequence proposal prevHeight) := by
  constructor
  · intro r
    refine Exec.Within.ite ((Exec.Within.addU64 _ _).bind fun next => ?_) (Exec.Within.pure r)
    exact Exec.Within.ite (Exec.Within.pure _) (Exec.Within.pure _)
  · intro r
    unfold checkSequence
    split_ifs
    · refine Exec.Returns.bind _ fun next => ?_
      split_ifs
      · exact Exec.Returns.pure (SameEvidence.addWarning r _)
      · exact Exec.Returns.pure SameEvidence.rfl
    · exact Exec.Returns.pure SameEvidence.rfl

theorem checkGenesis_same (proposal : ConsensusProposal) (r : SentinelReport) :
    SameEvidence r (checkGenesis proposal r) := by
  unfold checkGenesis
  split_ifs
  · exact SameEvidence.addAnomaly rfl _
  · exact SameEvidence.rfl

theorem checkTimestamp_neutral (proposal : ConsensusProposal) :
    Neutral (checkTimestamp proposal) := by
  constructor
  · intro r
    refine Exec.Within.get.bind fun s => now_quiet.bind fun time => ?_
    refine (Exec.Within.addU64 _ _).bind fun limit => ?_
    exact Exec.Within.ite (Exec.Within.pure _) (Exec.Within.pure _)
  · intro r
    refine Exec.Returns.bind _ fun s => Exec.Returns.bind _ fun time =>
      Exec.Returns.bind _ fun limit => ?_
    set r₁ := match s.blockTimestamps.peek
        (if proposal.height = 0 then 0 else proposal.height - 1) with
      | none => r
      | some prev =>
        if proposal.block.header.timestamp < prev then
          r.addWarning ("Timestamp drift: " ++
            toString proposal.block.header.timestamp.toNat ++ " < " ++ toString prev.toNat)
        else
          r with hr₁
    have hfirst : SameEvidence r r₁ := by
      rw [hr₁]
      split
      · exact SameEvidence.rfl
      · split_ifs
        · exact SameEvidence.addWarning r _
        · exact SameEvidence.rfl
    split_ifs
    · exact Exec.Returns.pure (hfirst.trans (SameEvidence.addWarning r₁ _))
    · exact Exec.Returns.pure hfirst

theorem checkQuorum_same (config : SentinelConfig) (proposal : ConsensusProposal)
    (r : SentinelReport) : SameEvidence r (checkQuorum config proposal r) := by
  unfold checkQuorum
  dsimp only
  split_ifs
  · have hfirst : SameEvidence r { r with
        validatorCount := getActiveValidatorCount proposal.height
        quorumReached := decide (config.quorumThreshold ≤ getActiveValidatorCount proposal.height) } :=
      ⟨rfl, rfl, rfl⟩
    exact hfirst.trans (SameEvidence.addWarning _ _)
  · exact ⟨rfl, rfl, rfl⟩

/-- The report is kept: its evidence is added, or none is. -/
theorem recordReport_spec (r : SentinelReport) (s : SentinelNode) :
    Exec.Post (recordReport r) s fun _ s' =>
      s'.seenProposals = s.seenProposals ∧ s'.seenVotes = s.seenVotes ∧
        ∀ e ∈ s'.slashingEvidence, e ∈ s.slashingEvidence ∨ e ∈ r.toSlashingEvidence := by
  unfold recordReport recordAnomalies
  rw [Exec.post_bind, Exec.post_ite]
  constructor
  · intro _
    rw [Exec.post_bind, Exec.post_get]
    dsimp only
    rw [Exec.post_bind, Exec.post_addU64]
    constructor
    · exact fun _ => ⟨rfl, rfl, fun e he => List.mem_append.mp he⟩
    · exact fun _ => ⟨rfl, rfl, fun e he => Or.inl he⟩
  · exact fun _ => ⟨rfl, rfl, fun e he => Or.inl he⟩

/-! ## One message -/

section Steps

variable [Primitives]

/-- What a proposal can change: its hash is seen, and its proposer is accused if one other
hash was seen for the height and round. -/
structure Judged (p : ConsensusProposal) (s s' : SentinelNode) : Prop where
  votes : s'.seenVotes = s.seenVotes
  seen : ∀ key hashes, s'.seenProposals.peek key = some hashes → ∀ x ∈ hashes,
    (∃ old, s.seenProposals.peek key = some old ∧ x ∈ old) ∨
      (key = (p.height, p.round) ∧ x = p.block.hash)
  evidence : ∀ e ∈ s'.slashingEvidence, e ∈ s.slashingEvidence ∨
    ∃ first time, s.seenProposals.peek (p.height, p.round) = some [first] ∧
      p.block.hash ≠ first ∧
      e = .doubleProposal p.proposer p.height p.round first p.block.hash time

/-- The same for a vote. -/
structure Counted (v : ConsensusVote) (s s' : SentinelNode) : Prop where
  proposals : s'.seenProposals = s.seenProposals
  seen : ∀ key hashes, s'.seenVotes.peek key = some hashes → ∀ x ∈ hashes,
    (∃ old, s.seenVotes.peek key = some old ∧ x ∈ old) ∨
      (key = (v.height, v.round, v.voter) ∧ x = v.blockHash)
  evidence : ∀ e ∈ s'.slashingEvidence, e ∈ s.slashingEvidence ∨
    ∃ first time, s.seenVotes.peek (v.height, v.round, v.voter) = some [first] ∧
      v.blockHash ≠ first ∧
      e = .doubleVote v.voter v.height v.round first v.blockHash time

theorem Judged.of_quiet {p : ConsensusProposal} {s s' : SentinelNode} (h : Quiet s s') :
    Judged p s s' where
  votes := h.votes
  seen := fun key hashes hkey x hx => Or.inl ⟨hashes, by rwa [← h.proposals], hx⟩
  evidence := fun e he => Or.inl (by rwa [← h.evidence])

theorem Judged.after_quiet {p : ConsensusProposal} {s s' s'' : SentinelNode} (h : Quiet s s')
    (h' : Judged p s' s'') : Judged p s s'' where
  votes := h'.votes.trans h.votes
  seen := by
    rw [← h.proposals]
    exact h'.seen
  evidence := by
    rw [← h.proposals, ← h.evidence]
    exact h'.evidence

/-- A quiet part before the rest. -/
theorem Judged.seq {α : Type} {p : ConsensusProposal} {m : Watch α} {f : α → Watch Unit}
    {P : α → Prop} {s : SentinelNode} (hquiet : Exec.Within Quiet m) (hreturns : Exec.Returns P m)
    (hrest : ∀ a s', P a → Exec.Post (f a) s' fun _ s'' => Judged p s' s'') :
    Exec.Post (m >>= f) s fun _ s' => Judged p s s' := by
  refine Exec.Post.seq (R := fun o s' => Quiet s s' ∧ ∀ a, o = .ok a → P a)
    ⟨hquiet s, hreturns s⟩ ?_ ?_ ?_
  · rintro a s' ⟨hs, hP⟩
    exact (hrest a s' (hP a rfl)).mono fun _ _ h => h.after_quiet hs
  · exact fun e => e.elim
  · exact fun s' h => Judged.of_quiet h.1

omit [Primitives] in
/-- What follows the comparison of the hashes: the evidence of the report is kept, or
none. -/
theorem finishProposal_spec (p : ConsensusProposal) (r : SentinelReport) (s : SentinelNode) :
    Exec.Post (finishProposal p r) s fun _ s' =>
      s'.seenProposals = s.seenProposals ∧ s'.seenVotes = s.seenVotes ∧
        ∀ e ∈ s'.slashingEvidence, e ∈ s.slashingEvidence ∨ e ∈ r.toSlashingEvidence := by
  refine Exec.Post.seq (R := fun o s' => Quiet s s' ∧ ∀ r', o = .ok r' → SameEvidence r r')
    ⟨(checkTimestamp_neutral p).quiet r s, (checkTimestamp_neutral p).same r s⟩ ?_ ?_ ?_
  · rintro r' s' ⟨hquiet, hsame⟩
    rw [Exec.post_bind, Exec.post_get]
    dsimp only
    have hreport : SameEvidence r (checkQuorum s'.config p r') :=
      (hsame r' rfl).trans (checkQuorum_same _ p r')
    refine (recordReport_spec _ s').mono fun _ s'' h => ?_
    rw [hquiet.proposals, hquiet.votes, hquiet.evidence, hreport.evidence] at h
    exact h
  · exact fun e => e.elim
  · rintro s' ⟨hquiet, -⟩
    refine ⟨hquiet.proposals, hquiet.votes, fun e he => Or.inl ?_⟩
    rwa [← hquiet.evidence]

/-- **The comparison of the hashes, with what follows.** -/
theorem judged_of_tail {p : ConsensusProposal} {r : SentinelReport}
    (hheight : r.height = p.height) (hround : r.round = p.round)
    (hclean : r.toSlashingEvidence = []) (s : SentinelNode) :
    Exec.Post (checkDoubleProposal p r >>= finishProposal p) s fun _ s' => Judged p s s' := by
  unfold checkDoubleProposal
  rw [Exec.post_bind, Exec.post_bind, Exec.post_get]
  dsimp only
  cases hpeek : s.seenProposals.peek (p.height, p.round) with
  | none =>
      -- the hash is the first one for its height and round
      change Exec.Post (finishProposal p r) { s with
        seenProposals := s.seenProposals.put (p.height, p.round) [p.block.hash] }
        fun _ s' => Judged p s s'
      refine (finishProposal_spec p r _).mono fun _ s' h => ?_
      refine ⟨h.2.1, fun key hashes hkey x hx => ?_, fun e he => Or.inl ?_⟩
      · rw [h.1] at hkey
        rcases LruCache.peek_of_put hkey with ⟨rfl, rfl⟩ | hold
        · exact Or.inr ⟨rfl, List.mem_singleton.mp hx⟩
        · exact Or.inl ⟨hashes, hold, hx⟩
      · have hmem := h.2.2 e he
        rw [hclean] at hmem
        exact hmem.resolve_right (List.not_mem_nil)
  | some hashes =>
      dsimp only
      by_cases hknown : p.block.hash ∈ hashes
      · rw [if_pos hknown]
        change Exec.Post (finishProposal p r) s fun _ s' => Judged p s s'
        refine (finishProposal_spec p r s).mono fun _ s' h => ?_
        refine ⟨h.2.1, fun key hashes hkey x hx => Or.inl ⟨hashes, by rwa [← h.1], hx⟩,
          fun e he => Or.inl ?_⟩
        have hmem := h.2.2 e he
        rw [hclean] at hmem
        exact hmem.resolve_right (List.not_mem_nil)
      · rw [if_neg hknown, Exec.post_bind, Exec.post_modify]
        dsimp only
        set s₁ : SentinelNode := { s with
          seenProposals := s.seenProposals.update (p.height, p.round) (hashes ++ [p.block.hash]) }
        have hseen : ∀ key hashes', s₁.seenProposals.peek key = some hashes' → ∀ x ∈ hashes',
            (∃ old, s.seenProposals.peek key = some old ∧ x ∈ old) ∨
              (key = (p.height, p.round) ∧ x = p.block.hash) := by
          intro key hashes' hkey x hx
          rcases LruCache.peek_of_update hkey with ⟨rfl, rfl⟩ | hold
          · rcases List.mem_append.mp hx with hx | hx
            · exact Or.inl ⟨hashes, hpeek, hx⟩
            · exact Or.inr ⟨rfl, List.mem_singleton.mp hx⟩
          · exact Or.inl ⟨hashes', hold, hx⟩
        have hquiet : ∀ r' : SentinelReport, (∀ e ∈ r'.toSlashingEvidence,
            ∃ first time, hashes = [first] ∧ p.block.hash ≠ first ∧
              e = .doubleProposal p.proposer p.height p.round first p.block.hash time) →
            Exec.Post (finishProposal p r') s₁ fun _ s' => Judged p s s' := by
          intro r' hevidence
          refine (finishProposal_spec p r' s₁).mono fun _ s' h => ⟨h.2.1, ?_, fun e he => ?_⟩
          · rw [h.1]
            exact hseen
          · refine (h.2.2 e he).imp_right fun hmem => ?_
            obtain ⟨first, time, hfirst, hne, heq⟩ := hevidence e hmem
            exact ⟨first, time, hpeek.trans (congrArg some hfirst), hne, heq⟩
        have hnone : ∀ e ∈ r.toSlashingEvidence, ∃ first time, hashes = [first] ∧
            p.block.hash ≠ first ∧
              e = .doubleProposal p.proposer p.height p.round first p.block.hash time := by
          rw [hclean]
          exact fun e he => absurd he List.not_mem_nil
        match hashes, hknown, hquiet, hnone with
        | [], _, hquiet, hnone => exact hquiet r hnone
        | [first], hknown, hquiet, _ =>
            refine hquiet _ fun e he => ?_
            rw [toSlashingEvidence_addAnomaly, hclean, List.nil_append] at he
            cases List.mem_singleton.mp he
            refine ⟨first, r.timestamp, rfl, fun heq => ?_, ?_⟩
            · exact hknown (List.mem_singleton.mpr heq)
            · rw [hheight, hround]
        | _ :: _ :: _, _, hquiet, hnone => exact hquiet r hnone

/-- **What `handle_proposal` can do.** -/
theorem handleProposal_judged (p : ConsensusProposal) (s : SentinelNode) :
    Judged p s (handleProposal p s).2 := by
  refine Judged.seq (P := fun _ => True) (trackHeight_quiet p) (fun _ _ _ => trivial)
    fun prevHeight s₁ _ => ?_
  refine Judged.seq (P := fun _ => True) now_quiet (fun _ _ _ => trivial) fun time s₂ _ => ?_
  dsimp only
  set r₀ : SentinelReport := { SentinelReport.new p.height time with
    round := p.round, blockHash := some p.block.hash }
  refine Judged.seq ((checkMissed_neutral p prevHeight).quiet r₀)
    ((checkMissed_neutral p prevHeight).same r₀) fun r₁ s₃ h₁ => ?_
  refine Judged.seq ((checkSequence_neutral p prevHeight).quiet r₁)
    ((checkSequence_neutral p prevHeight).same r₁) fun r₂ s₄ h₂ => ?_
  have hsame : SameEvidence r₀ (checkGenesis p r₂) :=
    (h₁.trans h₂).trans (checkGenesis_same p r₂)
  exact judged_of_tail hsame.height hsame.round hsame.evidence s₄

omit [Primitives] in
/-- The accusation of a voter leaves what was seen as it is. -/
theorem accuseVoter_spec (v : ConsensusVote) (hashes : List Hash) (s : SentinelNode) :
    Exec.Post (accuseVoter v hashes) s fun _ s' =>
      s'.seenProposals = s.seenProposals ∧ s'.seenVotes = s.seenVotes ∧
        ∀ e ∈ s'.slashingEvidence, e ∈ s.slashingEvidence ∨
          ∃ first time, hashes = [first] ∧
            e = .doubleVote v.voter v.height v.round first v.blockHash time := by
  match hashes with
  | [] => exact ⟨rfl, rfl, fun e he => Or.inl he⟩
  | [first] =>
      unfold accuseVoter
      have hadded : ∀ e ∈ s.slashingEvidence ++
          [SlashingEvidence.doubleVote v.voter v.height v.round first v.blockHash (s.clock 0)],
          e ∈ s.slashingEvidence ∨ ∃ first' time, [first] = [first'] ∧
            e = .doubleVote v.voter v.height v.round first' v.blockHash time := by
        intro e he
        refine (List.mem_append.mp he).imp_right fun hlast => ?_
        exact ⟨first, s.clock 0, rfl, List.mem_singleton.mp hlast⟩
      dsimp only
      rw [Exec.post_bind, post_now]
      dsimp only
      rw [Exec.post_bind, Exec.post_modify]
      dsimp only
      rw [Exec.post_bind, Exec.post_get]
      dsimp only
      rw [Exec.post_bind, Exec.post_addU64]
      exact ⟨fun _ => ⟨rfl, rfl, hadded⟩, fun _ => ⟨rfl, rfl, hadded⟩⟩
  | _ :: _ :: _ => exact ⟨rfl, rfl, fun e he => Or.inl he⟩

omit [Primitives] in
/-- **What `handle_vote` can do.** -/
theorem handleVote_counted (v : ConsensusVote) (s : SentinelNode) :
    Counted v s (handleVote v s).2 := by
  change Exec.Post (handleVote v) s fun _ s' => Counted v s s'
  have hsame : Counted v s s :=
    ⟨rfl, fun key hashes hkey x hx => Or.inl ⟨hashes, hkey, hx⟩, fun e he => Or.inl he⟩
  unfold handleVote
  rw [Exec.post_bind, Exec.post_get]
  dsimp only
  rw [Exec.post_bind, Exec.post_addU64]
  refine ⟨fun _ => ?_, fun _ => hsame⟩
  dsimp only
  rw [Exec.post_bind, Exec.post_modify]
  dsimp only
  cases hpeek : s.seenVotes.peek (v.height, v.round, v.voter) with
  | none =>
      refine ⟨rfl, fun key hashes hkey x hx => ?_, fun e he => Or.inl he⟩
      rcases LruCache.peek_of_put hkey with ⟨rfl, rfl⟩ | hold
      · exact Or.inr ⟨rfl, List.mem_singleton.mp hx⟩
      · exact Or.inl ⟨hashes, hold, hx⟩
  | some hashes =>
      dsimp only
      by_cases hknown : v.blockHash ∈ hashes
      · rw [if_pos hknown]
        exact ⟨hsame.proposals, hsame.seen, hsame.evidence⟩
      · rw [if_neg hknown]
        have haccused : ∀ e, (∃ first time, hashes = [first] ∧
            e = SlashingEvidence.doubleVote v.voter v.height v.round first v.blockHash time) →
            ∃ first time, s.seenVotes.peek (v.height, v.round, v.voter) = some [first] ∧
              v.blockHash ≠ first ∧
              e = SlashingEvidence.doubleVote v.voter v.height v.round first v.blockHash time := by
          rintro e ⟨first, time, rfl, rfl⟩
          exact ⟨first, time, hpeek, fun heq => hknown (List.mem_singleton.mpr heq), rfl⟩
        refine Exec.Post.seq (accuseVoter_spec v hashes _) ?_ (fun e => e.elim) ?_
        · rintro - s' ⟨hproposals, hvotes, hevidence⟩
          refine ⟨hproposals, fun key hashes' hkey x hx => ?_, fun e he => ?_⟩
          · rcases LruCache.peek_of_update hkey with ⟨rfl, rfl⟩ | hold
            · rcases List.mem_append.mp hx with hx | hx
              · exact Or.inl ⟨hashes, hpeek, hx⟩
              · exact Or.inr ⟨rfl, List.mem_singleton.mp hx⟩
            · rw [hvotes] at hold
              exact Or.inl ⟨hashes', hold, hx⟩
          · exact (hevidence e he).imp_right (haccused e)
        · rintro s' ⟨hproposals, hvotes, hevidence⟩
          refine ⟨hproposals, fun key hashes' hkey x hx => ?_, fun e he => ?_⟩
          · rw [hvotes] at hkey
            exact Or.inl ⟨hashes', hkey, hx⟩
          · exact (hevidence e he).imp_right (haccused e)

/-! ## Runs -/

/-- Every hash that is kept was sent for its height and round, and for its voter. -/
structure Recorded (ops : List SentinelOp) (s : SentinelNode) : Prop where
  proposals : ∀ key hashes, s.seenProposals.peek key = some hashes → ∀ x ∈ hashes,
    ∃ p, .proposal p ∈ ops ∧ (p.height, p.round) = key ∧ p.block.hash = x
  votes : ∀ key hashes, s.seenVotes.peek key = some hashes → ∀ x ∈ hashes,
    ∃ v, .vote v ∈ ops ∧ (v.height, v.round, v.voter) = key ∧ v.blockHash = x

/-- **One message** keeps the record. -/
theorem Recorded.after {ops : List SentinelOp} {s : SentinelNode} (h : Recorded ops s)
    (op : SentinelOp) : Recorded (ops ++ [op]) (op.after s) := by
  cases op with
  | proposal p =>
      have hjudged := handleProposal_judged p s
      refine ⟨fun key hashes hkey x hx => ?_, fun key hashes hkey x hx => ?_⟩
      · rcases hjudged.seen key hashes hkey x hx with ⟨old, hold, hx'⟩ | ⟨rfl, rfl⟩
        · obtain ⟨q, hq, hqkey, hqx⟩ := h.proposals key old hold x hx'
          exact ⟨q, List.mem_append_left _ hq, hqkey, hqx⟩
        · exact ⟨p, List.mem_append_right _ (List.mem_singleton_self _), rfl, rfl⟩
      · obtain ⟨w, hw, hwkey, hwx⟩ := h.votes key hashes (hjudged.votes ▸ hkey) x hx
        exact ⟨w, List.mem_append_left _ hw, hwkey, hwx⟩
  | vote v =>
      have hcounted := handleVote_counted v s
      refine ⟨fun key hashes hkey x hx => ?_, fun key hashes hkey x hx => ?_⟩
      · obtain ⟨q, hq, hqkey, hqx⟩ := h.proposals key hashes (hcounted.proposals ▸ hkey) x hx
        exact ⟨q, List.mem_append_left _ hq, hqkey, hqx⟩
      · rcases hcounted.seen key hashes hkey x hx with ⟨old, hold, hx'⟩ | ⟨rfl, rfl⟩
        · obtain ⟨w, hw, hwkey, hwx⟩ := h.votes key old hold x hx'
          exact ⟨w, List.mem_append_left _ hw, hwkey, hwx⟩
        · exact ⟨v, List.mem_append_right _ (List.mem_singleton_self _), rfl, rfl⟩

/-- **Every run** keeps the record. -/
theorem recorded_run (config : SentinelConfig) (clock : Clock)
    (proposals : ℕ → BlockHeight × UInt64 → Bool)
    (votes : ℕ → BlockHeight × UInt64 × UInt64 → Bool) (times : ℕ → BlockHeight → Bool)
    (ops : List SentinelOp) :
    Recorded ops (Runs.run SentinelOp.after (new config clock proposals votes times) ops) := by
  induction ops using List.reverseRecOn with
  | nil => exact ⟨fun key hashes hkey => (nomatch hkey), fun key hashes hkey => (nomatch hkey)⟩
  | append_singleton ops op ih =>
      rw [Runs.run_append]
      exact ih.after op

/-- The evidence holds what the messages show: the accused validator has sent both. -/
def Proves (ops : List SentinelOp) : SlashingEvidence → Prop
  | .doubleProposal id height r x y _ =>
      ∃ p p', .proposal p ∈ ops ∧ .proposal p' ∈ ops ∧
        p.proposer = id ∧ p.height = height ∧ p.round = r ∧ p.block.hash = x ∧
        p'.proposer = id ∧ p'.height = height ∧ p'.round = r ∧ p'.block.hash = y
  | .doubleVote id height r x y _ =>
      ∃ v v' : Vote, .vote v.wire ∈ ops ∧ .vote v'.wire ∈ ops ∧
        SafetyRules.checkDoubleVote v v' = true ∧ v.voter = id ∧ v.height = height ∧
        v.round = r ∧ v.blockHash = x ∧ v'.blockHash = y

/-- Messages that the keys of the two caches tell apart: whoever proposes another block for a
height and round than an earlier proposal has also proposed that earlier block, and whoever
votes for another block than in an earlier vote of its height and round has also cast a vote
of the same type for that earlier block. -/
structure ToldApart (ops : List SentinelOp) : Prop where
  proposals : ∀ before p p' rest, ops = before ++ .proposal p' :: rest → .proposal p ∈ before →
    p.height = p'.height → p.round = p'.round → p.block.hash ≠ p'.block.hash →
    ∃ q, .proposal q ∈ before ∧ q.proposer = p'.proposer ∧ q.height = p'.height ∧
      q.round = p'.round ∧ q.block.hash = p.block.hash
  votes : ∀ before v v' rest, ops = before ++ .vote v' :: rest → .vote v ∈ before →
    v.height = v'.height → v.round = v'.round → v.voter = v'.voter → v.blockHash ≠ v'.blockHash →
    ∃ w, .vote w ∈ before ∧ w.voter = v'.voter ∧ w.height = v'.height ∧ w.round = v'.round ∧
      w.voteType = v'.voteType ∧ w.blockHash = v.blockHash

theorem Proves.append {ops : List SentinelOp} {e : SlashingEvidence} (h : Proves ops e)
    (ops' : List SentinelOp) : Proves (ops ++ ops') e := by
  cases e with
  | doubleProposal id height r x y t =>
      obtain ⟨p, p', hp, hp', hrest⟩ := h
      exact ⟨p, p', List.mem_append_left _ hp, List.mem_append_left _ hp', hrest⟩
  | doubleVote id height r x y t =>
      obtain ⟨v, v', hv, hv', hrest⟩ := h
      exact ⟨v, v', List.mem_append_left _ hv, List.mem_append_left _ hv', hrest⟩

theorem ToldApart.of_append {ops ops' : List SentinelOp} (h : ToldApart (ops ++ ops')) :
    ToldApart ops := by
  constructor
  · intro before p p' rest hops
    refine h.proposals before p p' (rest ++ ops') ?_
    rw [hops, List.append_assoc, List.cons_append]
  · intro before v v' rest hops
    refine h.votes before v v' (rest ++ ops') ?_
    rw [hops, List.append_assoc, List.cons_append]

/-- A vote on the wire, as a vote. -/
def received (v : ConsensusVote) : Vote :=
  ⟨v.height, v.round, v.blockHash, v.voter, v.voteType, v.signature, 0⟩

/-- **Evidence is sound where the keys tell the messages apart.**  Whatever the caches evict,
in every run of proposals and votes in which no proposer and no voter is mixed up with
another message of its height and round, each piece of evidence names a validator that has
sent both messages. -/
theorem evidence_sound (config : SentinelConfig) (clock : Clock)
    (proposals : ℕ → BlockHeight × UInt64 → Bool)
    (votes : ℕ → BlockHeight × UInt64 × UInt64 → Bool) (times : ℕ → BlockHeight → Bool)
    (ops : List SentinelOp) (hapart : ToldApart ops) :
    ∀ e ∈ (Runs.run SentinelOp.after (new config clock proposals votes times)
      ops).slashingEvidence, Proves ops e := by
  induction ops using List.reverseRecOn with
  | nil => exact fun e he => absurd he List.not_mem_nil
  | append_singleton ops op ih =>
      have hrecorded := recorded_run config clock proposals votes times ops
      have hold := ih hapart.of_append
      rw [Runs.run_append]
      set s := Runs.run SentinelOp.after (new config clock proposals votes times) ops
      intro e he
      change e ∈ (op.after s).slashingEvidence at he
      have hlast : op ∈ ops ++ [op] := List.mem_append_right _ (List.mem_singleton_self _)
      cases op with
      | proposal p =>
          rcases (handleProposal_judged p s).evidence e he with hmem | ⟨x, t, hpeek, hne, rfl⟩
          · exact (hold e hmem).append _
          · -- the other hash was seen in an earlier proposal
            obtain ⟨p₀, hp₀, hkey, hx⟩ := hrecorded.proposals _ _ hpeek x List.mem_cons_self
            obtain ⟨hheight, hround⟩ := Prod.mk.inj hkey
            obtain ⟨q, hq, hqp, hqh, hqr, hqx⟩ := hapart.proposals ops p₀ p [] rfl hp₀ hheight
              hround fun heq => hne (heq.symm.trans hx)
            exact ⟨q, p, List.mem_append_left _ hq, hlast, hqp, hqh, hqr, hqx.trans hx,
              rfl, rfl, rfl, rfl⟩
      | vote v =>
          rcases (handleVote_counted v s).evidence e he with hmem | ⟨x, t, hpeek, hne, rfl⟩
          · exact (hold e hmem).append _
          · obtain ⟨v₀, hv₀, hkey, hx⟩ := hrecorded.votes _ _ hpeek x List.mem_cons_self
            obtain ⟨hheight, hkey'⟩ := Prod.mk.inj hkey
            obtain ⟨hround, hvoter⟩ := Prod.mk.inj hkey'
            obtain ⟨w, hw, hwv, hwh, hwr, hwt, hwx⟩ := hapart.votes ops v₀ v [] rfl hv₀ hheight
              hround hvoter fun heq => hne (heq.symm.trans hx)
            refine ⟨received w, received v, List.mem_append_left _ hw, hlast, ?_, hwv, hwh, hwr,
              hwx.trans hx, rfl⟩
            refine decide_eq_true ⟨hwh, hwr, hwv, hwt, fun heq => hne ?_⟩
            exact heq.symm.trans (hwx.trans hx)

end Steps

end SentinelNode

section Example

open scoped Sample
open Sample SentinelNode

/-- A sentinel whose caches evict nothing. -/
def sentinel : SentinelNode :=
  SentinelNode.new ⟨15, 1000, 50, 30⟩ (fun _ => 7) (fun _ _ => true) (fun _ _ => true)
    fun _ _ => true

/-- Validators 1 and 2 propose one block each, and validator 3 prevotes the first block and
precommits the second.  Nobody has sent anything twice, and the validators 2 and 3 are
accused. -/
theorem innocents_accused :
    let ops := [SentinelOp.proposal ⟨0, 0, blockZero, 1, []⟩, .proposal ⟨0, 0, rival, 2, []⟩,
      .vote ⟨0, 0, blockZero.hash, 3, .prevote, []⟩, .vote ⟨0, 0, rival.hash, 3, .precommit, []⟩]
    (Runs.run SentinelOp.after sentinel ops).slashingEvidence
        = [.doubleProposal 2 0 0 blockZero.hash rival.hash 7,
          .doubleVote 3 0 0 blockZero.hash rival.hash 7] ∧
      ¬ Proves ops (.doubleProposal 2 0 0 blockZero.hash rival.hash 7) ∧
      ¬ Proves ops (.doubleVote 3 0 0 blockZero.hash rival.hash 7) := by
  intro ops
  have hne : blockZero.hash ≠ rival.hash := by decide +kernel
  refine ⟨by decide +kernel, ?_, ?_⟩
  · rintro ⟨p, p', hp, -, hproposer, -, -, hx, -⟩
    have hsent : p.proposer = 1 ∨ p.block = rival := by
      simp only [ops, List.mem_cons, SentinelOp.proposal.injEq, reduceCtorEq, List.not_mem_nil,
        or_false] at hp
      rcases hp with rfl | rfl
      · exact Or.inl rfl
      · exact Or.inr rfl
    rcases hsent with hfirst | hsecond
    · rw [hproposer] at hfirst
      exact absurd hfirst (by decide)
    · rw [hsecond] at hx
      exact hne hx.symm
  · rintro ⟨v, v', hv, hv', hdouble, -, -, -, hx, hx'⟩
    have hsent : ∀ w : Vote, .vote w.wire ∈ ops →
        (w.voteType = .prevote ∧ w.blockHash = blockZero.hash) ∨
          (w.voteType = .precommit ∧ w.blockHash = rival.hash) := by
      intro w hw
      simp only [ops, List.mem_cons, SentinelOp.vote.injEq, reduceCtorEq, List.not_mem_nil,
        or_false, false_or, Vote.wire, ConsensusVote.mk.injEq] at hw
      rcases hw with ⟨-, -, hhash, -, htype, -⟩ | ⟨-, -, hhash, -, htype, -⟩
      · exact Or.inl ⟨htype, hhash⟩
      · exact Or.inr ⟨htype, hhash⟩
    have htype : v.voteType = v'.voteType := (of_decide_eq_true hdouble).2.2.2.1
    rcases hsent v hv with ⟨ht, -⟩ | ⟨-, hhash⟩
    · rcases hsent v' hv' with ⟨-, hhash'⟩ | ⟨ht', -⟩
      · exact hne (hhash'.symm.trans hx')
      · rw [ht, ht'] at htype
        cases htype
    · exact hne (hx.symm.trans hhash)

/-- A validator that does propose two blocks is accused of it. -/
theorem double_proposer_accused :
    let ops := [SentinelOp.proposal ⟨0, 0, blockZero, 1, []⟩, .proposal ⟨0, 0, rival, 1, []⟩]
    .doubleProposal 1 0 0 blockZero.hash rival.hash 7
        ∈ (Runs.run SentinelOp.after sentinel ops).slashingEvidence ∧
      Proves ops (.doubleProposal 1 0 0 blockZero.hash rival.hash 7) := by
  intro ops
  have hmem : SlashingEvidence.doubleProposal 1 0 0 blockZero.hash rival.hash 7
      ∈ (Runs.run SentinelOp.after sentinel ops).slashingEvidence := by decide +kernel
  have hone : ∀ p, SentinelOp.proposal p ∈ ops → p.proposer = 1 := by
    intro p hp
    simp only [ops, List.mem_cons, SentinelOp.proposal.injEq, List.not_mem_nil, or_false] at hp
    rcases hp with rfl | rfl
    · rfl
    · rfl
  have hnone : ∀ v, SentinelOp.vote v ∉ ops := by
    intro v hv
    simp [ops] at hv
  refine ⟨hmem, evidence_sound _ _ _ _ _ ops ⟨?_, ?_⟩ _ hmem⟩
  · intro before p p' rest hops hp hheight hround _
    have hp₁ := hone p (hops ▸ List.mem_append_left _ hp)
    have hp₂ := hone p' (hops ▸ List.mem_append_right _ List.mem_cons_self)
    exact ⟨p, hp, hp₁.trans hp₂.symm, hheight, hround, rfl⟩
  · intro before v v' rest hops hv
    exact absurd (hops ▸ List.mem_append_left _ hv) (hnone v)

end Example
