import Subown.RunRules
import Subown.BigEndian
import Subown.StrictBest
import Subown.CoreResolver
import Subown.ResolverJoin
import Subown.CoreClaim
import Subown.WireCodec
import Subown.WireTransparency
import Subown.WireExactness
import Subown.ClaimOverWire
import Subown.FaultDuplicates
import Subown.CStrings
import Subown.SimArgs
import Subown.ZmqSockets
import Subown.SimLoop
import Subown.CyclicIndex
import Subown.RingBuffer
import Subown.LinearProbing
import Subown.FirstDistinct
import Subown.AdapterCalls
import Subown.RecordMap
import Subown.AdapterEffects
import Subown.AdapterStep
import Subown.TableProbing
import Subown.EventRing
import Subown.AdapterSpec
import Subown.MetricsLedger
import Subown.OwnerState
import Subown.RecordShape
import Subown.FailureAtomicity
import Subown.MigrationThreshold
import Subown.RemoteRejection
import Subown.OutboundQueue
import Subown.AdapterRefinement
import Subown.AdapterHistory
import Subown.MapRefinement
import Subown.Admission
import Subown.ReplicaAgreement
import Subown.StampHistory
import Subown.Announcement
import Subown.ModeShadow
import Subown.ReplayImmunity
import Subown.TwoBoxConvergence
import Subown.Cluster
import Subown.ClusterInvariant
import Subown.ClusterSafety
import Subown.ClusterProgress
import Subown.TwoSimulators
import Subown.RestartFencing
import Subown.BenchPipeline
import Subown.BenchBooks
import Subown.BenchShutdown
