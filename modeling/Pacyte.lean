import Pacyte.AccountView
import Pacyte.ActiveSet
import Pacyte.Agreement
import Pacyte.ApplyAtomicity
import Pacyte.Balances
import Pacyte.Ballot
import Pacyte.BatchMerge
import Pacyte.BatchReplay
import Pacyte.Bincode
import Pacyte.BlockCache
import Pacyte.BlockIntegrity
import Pacyte.Book
import Pacyte.BridgeDeposits
import Pacyte.BridgeLifecycle
import Pacyte.BridgeManager
import Pacyte.BridgePending
import Pacyte.BridgeTotals
import Pacyte.BridgeVault
import Pacyte.BurnManager
import Pacyte.ChainLinks
import Pacyte.ClockDependence
import Pacyte.Coherence
import Pacyte.CommitAtomicity
import Pacyte.CommitCertificate
import Pacyte.CommittedLookup
import Pacyte.Consensus
import Pacyte.Conservation
import Pacyte.Contract
import Pacyte.ContractManager
import Pacyte.ContractRecords
import Pacyte.ContractWorld
import Pacyte.Crypto
import Pacyte.Delegations
import Pacyte.Dormancy
import Pacyte.DoubleVotes
import Pacyte.Engine
import Pacyte.Equivocation
import Pacyte.Evm
import Pacyte.EvmRefinement
import Pacyte.Exec
import Pacyte.Executor
import Pacyte.ExecutorFailures
import Pacyte.ExecutorGas
import Pacyte.ExecutorNonces
import Pacyte.ExecutorPaths
import Pacyte.ExecutorTransfers
import Pacyte.ExecutorView
import Pacyte.FounderVesting
import Pacyte.Frame
import Pacyte.GapPick
import Pacyte.GasLimits
import Pacyte.GasMetering
import Pacyte.Gossip
import Pacyte.Grouping
import Pacyte.Handshake
import Pacyte.HashPath
import Pacyte.HashTree
import Pacyte.HeightSync
import Pacyte.JumpDestinations
import Pacyte.LastWrite
import Pacyte.Limbs
import Pacyte.Locks
import Pacyte.ManagerLocks
import Pacyte.MapEntries
import Pacyte.MemoryCache
import Pacyte.MemoryGrowth
import Pacyte.MemoryMap
import Pacyte.MemoryStorage
import Pacyte.Mempool
import Pacyte.MempoolAdmission
import Pacyte.MempoolIndex
import Pacyte.MempoolSelection
import Pacyte.MempoolValidator
import Pacyte.MerkleTree
import Pacyte.MessageBytes
import Pacyte.MessageStream
import Pacyte.MultiSig
import Pacyte.NodeSupply
import Pacyte.PNXToken
import Pacyte.PeerQueues
import Pacyte.PeerSlots
import Pacyte.Peers
import Pacyte.PoolCleanup
import Pacyte.PoolValidation
import Pacyte.PrefixCode
import Pacyte.ProposerAgreement
import Pacyte.ProposerRotation
import Pacyte.Pruning
import Pacyte.QuorumOverlap
import Pacyte.RateLimiter
import Pacyte.ReadDependence
import Pacyte.Replacement
import Pacyte.Replay
import Pacyte.Revert
import Pacyte.RocksDBStorage
import Pacyte.RootOrder
import Pacyte.RoundManager
import Pacyte.RoundTimeouts
import Pacyte.Runs
import Pacyte.SafetyRules
import Pacyte.SelectionLimits
import Pacyte.Sentinel
import Pacyte.SignedMessages
import Pacyte.Signers
import Pacyte.Snapshot
import Pacyte.SnapshotBlocks
import Pacyte.SnapshotRestore
import Pacyte.SparseMerkle
import Pacyte.SparseTree
import Pacyte.StakingRuns
import Pacyte.StateFrame
import Pacyte.StateManager
import Pacyte.StateRoot
import Pacyte.Steady
import Pacyte.Storage
import Pacyte.StorageBackends
import Pacyte.StorageCaches
import Pacyte.SupplyPhase
import Pacyte.TimeWindows
import Pacyte.TitanStaking
import Pacyte.TokenLedger
import Pacyte.TokenReserve
import Pacyte.TransactionOrdering
import Pacyte.TransactionsRoot
import Pacyte.Types
import Pacyte.Upheld
import Pacyte.ValidatorRegistry
import Pacyte.ValidatorRuns
import Pacyte.ValidatorSteps
import Pacyte.Validators
import Pacyte.VaultManager
import Pacyte.VaultPayments
import Pacyte.VaultRuns
import Pacyte.VaultTransfers
import Pacyte.VirtualMachine
import Pacyte.VmPanics
import Pacyte.VmSteps
import Pacyte.VoteAggregator
import Pacyte.VoteQuorum
import Pacyte.VoteRecords
import Pacyte.VoteRetention
import Pacyte.VoteRuns
import Pacyte.VoteStore
import Pacyte.Votes
import Pacyte.Wal
import Pacyte.WalChecksum
import Pacyte.WalLocks
import Pacyte.WalLog
import Pacyte.WalNumbers
import Pacyte.WalRecovery
import Pacyte.WalReplay
import Pacyte.WeightedQuorum
import Pacyte.WireForm
import Pacyte.WireMessages
import Pacyte.WordArithmetic
import Pacyte.WordValues
import Pacyte.XorSum
