import CatalystNode.RewardSplit
import CatalystNode.StatementSeparation
import CatalystNode.ContentServing
import CatalystNode.AdmissionFunding
import CatalystNode.CertificateAssembly
import CatalystNode.RangeAnswers
import CatalystNode.SnapshotFailures
import CatalystNode.FaultyApply
import CatalystNode.ForkChoiceOrder
import CatalystNode.EarlyPhases
import CatalystNode.ProducerSelection
import CatalystNode.Mempool
import CatalystNode.MempoolRaces
import CatalystNode.CachedRoot
import CatalystNode.CircuitBreaker
import CatalystNode.CreditAccrual
import CatalystNode.PayloadVersions
import CatalystNode.SyncDispatch
import CatalystNode.ReceiptTruth
import CatalystNode.FetchRaces
import CatalystNode.StaleHead
import CatalystNode.EvmReadBack
import CatalystNode.ForgedBalances
import CatalystNode.ExplicitPeers
import CatalystNode.EventHistory
import CatalystNode.PendingEnvelopes
import CatalystNode.DenseMerkle
import CatalystNode.RelayCache
import CatalystNode.AggregatedSignatures
import CatalystNode.CommitHash
import CatalystNode.SnapshotIds
import CatalystNode.SnapshotDirectory
import CatalystNode.Migrations
import CatalystNode.ContentProviders
import CatalystNode.AccountNonces
import CatalystNode.SelectionLedger
