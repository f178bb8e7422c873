import Hledac.Utils.BloomPersistence
import Hledac.Utils.BoundedParallelMap
import Hledac.Utils.DomainRate
import Hledac.Utils.JsonlWriterRuns
import Hledac.Utils.ParallelPolicy
import Hledac.Utils.RaceFirst
import Hledac.Utils.ResilienceBreaker
import Hledac.Utils.RobotsStandard
import Hledac.Utils.TtlCache
import Hledac.Core.Admission
import Hledac.Core.DeadLetters
import Hledac.Core.UnifiedCompact
import Hledac.Core.UnifiedRuns
import Hledac.Transport.BreakerRecovery
import Hledac.Transport.ConditionalRuns
import Hledac.Transport.DnsDarknet
import Hledac.Transport.RateLimiter
import Hledac.Transport.RustCalls
import Hledac.Transport.TransportBreaker
import Hledac.Runtime.SprintPhases
import Hledac.Runtime.SprintWindup
import Hledac.Dht.BencodeErrors
import Hledac.Dht.Overlay
import Hledac.Dht.MetadataFetch
import Hledac.Security.FailClosed
import Hledac.Knowledge.ArrowScrubbing
import Hledac.Knowledge.BatchRecord
import Hledac.Knowledge.ConsistencyOrders
import Hledac.Knowledge.DedupWindow
import Hledac.Knowledge.DeltaIndex
import Hledac.Knowledge.EvidenceChain
import Hledac.Knowledge.HotEdgeMerges
import Hledac.Knowledge.IngestCounts
import Hledac.Knowledge.IngestLoss
import Hledac.Knowledge.KnownGoodRuns
import Hledac.Knowledge.PersistentDedupRuns
import Hledac.Knowledge.QualityAssessorAsync
import Hledac.Knowledge.QualityAssessorBatch
import Hledac.Knowledge.Recovery
import Hledac.Knowledge.ReplayRuns
import Hledac.Knowledge.SourceReliabilityRuns
import Hledac.Knowledge.SprintDiff
import Hledac.Knowledge.TargetProfile
import Hledac.Knowledge.WriteCoordinatorRuns
import Hledac.Evidence.BatchRuns
import Hledac.Evidence.EncryptionRuns
import Hledac.Evidence.FastPaths
import Hledac.Evidence.ForensicBounds
import Hledac.Evidence.LedgerTail
import Hledac.Evidence.Persist
import Hledac.Evidence.Query
import Hledac.Evidence.Sequence
import Hledac.Evidence.SplitHash
import Hledac.Evidence.SplitVerify
import Hledac.Evidence.VerifyRuns
import Hledac.Evidence.WarcRuns
import Hledac.Knowledge.OsintUrl
import Hledac.Knowledge.TextNormalization
import Hledac.Knowledge.WalEviction
import Hledac.Tools.LmdbKv
import Hledac.Tools.UrlListDedup
import Hledac.Utils.CachePersistence
import Hledac.Knowledge.BoundedLruCache
import Hledac.Knowledge.MarkerSelection
import Hledac.Federated.QTableDict
import Hledac.Runtime.PrivacyBudget
import Hledac.Transport.Decompression
import Hledac.Transport.Gopher
import Hledac.Utils.DedupEngine
import Hledac.Utils.FrequencySketch
import Hledac.Utils.SimHashIndex
import Hledac.Planning.Search
