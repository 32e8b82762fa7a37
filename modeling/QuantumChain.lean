import QuantumChain.StateSupply
import QuantumChain.StateAdapterRuns
import QuantumChain.MempoolSnapshot
import QuantumChain.MempoolFamily
import QuantumChain.MempoolProposals
import QuantumChain.MempoolReplacement
import QuantumChain.FinalitySlashing
import QuantumChain.FinalityProofs
import QuantumChain.FinalityThresholds
import QuantumChain.ReversionShield
import QuantumChain.ConsensusConcurrent
import QuantumChain.ForkChoiceAgreement
import QuantumChain.StateCommitment
import QuantumChain.StateVerifier
import QuantumChain.StorageBounds
import QuantumChain.IndexingHandler
import QuantumChain.StorageMountain
import QuantumChain.StorageCoherence
import QuantumChain.CrossChain
import QuantumChain.OrderingSerial
import QuantumChain.OrderingInvariants
import QuantumChain.EvmMemory
import QuantumChain.EvmHistory
import QuantumChain.EvmArithmetic
import QuantumChain.EvmControlFlow
import QuantumChain.Difficulty
import QuantumChain.TransactionHash
import QuantumChain.IpcReplay
import QuantumChain.IpcForgery
import QuantumChain.BlockSelection
import QuantumChain.NonceReplayCache
import QuantumChain.RoutingLookup
import QuantumChain.SyncCheckpoints
import QuantumChain.SpvIndexing
import QuantumChain.ShardAssignment
import QuantumChain.PropagationConcurrent
import QuantumChain.GcsFilter
import QuantumChain.TypedTransactions
import QuantumChain.TransactionMalleability
