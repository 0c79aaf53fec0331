import Polycentric.Library.Ancestry
import Polycentric.Library.Anchoring
import Polycentric.Library.AuditWalk
import Polycentric.Library.Batches
import Polycentric.Library.CacheAside
import Polycentric.Library.Cascade
import Polycentric.Library.Clocks
import Polycentric.Library.FlooredCounter
import Polycentric.Library.HeadPaging
import Polycentric.Library.KeyedMerge
import Polycentric.Library.Keyset
import Polycentric.Library.Memo
import Polycentric.Library.OptimisticAppend
import Polycentric.Library.OrderedRange
import Polycentric.Library.Result
import Polycentric.Library.Runs
import Polycentric.Library.Selection
import Polycentric.Library.SkipScan
import Polycentric.Library.SortedEntries
import Polycentric.Common.ChainAgreement
import Polycentric.Common.ChainRecovery
import Polycentric.Common.ChainSafety
import Polycentric.Common.ChainStability
import Polycentric.Common.ContentId
import Polycentric.Common.Identity
import Polycentric.Common.IdentityChain
import Polycentric.Common.Jwt
import Polycentric.Common.Primitives
import Polycentric.Common.Protos
import Polycentric.Merkle.CausalOrder
import Polycentric.Merkle.Inclusion
import Polycentric.Merkle.Leaves
import Polycentric.Merkle.Tree
import Polycentric.Query.Answers
import Polycentric.Query.AuthTokens
import Polycentric.Query.Barrier
import Polycentric.Query.FanOut
import Polycentric.Query.Notifications
import Polycentric.Query.OwnAnswers
import Polycentric.Query.QueryState
import Polycentric.Client.AppendOnly
import Polycentric.Client.Authenticity
import Polycentric.Client.Blocks
import Polycentric.Client.BundleMerging
import Polycentric.Client.CacheCoherence
import Polycentric.Client.Censorship
import Polycentric.Client.Convergence
import Polycentric.Client.Copying
import Polycentric.Client.CursorMerging
import Polycentric.Client.Feed
import Polycentric.Client.FeedAnchoring
import Polycentric.Client.Labels
import Polycentric.Client.Merge
import Polycentric.Client.PageOrder
import Polycentric.Client.Pairing
import Polycentric.Client.Pollution
import Polycentric.Client.Pulling
import Polycentric.Client.RangeQueries
import Polycentric.Client.Reactions
import Polycentric.Client.SelfBuilt
import Polycentric.Client.Stores
import Polycentric.Client.ThreadBlocks
import Polycentric.Client.ValidEvents
import Polycentric.Client.Validation
import Polycentric.Client.Writing
import Polycentric.Server.Acknowledgement
import Polycentric.Server.ArrivalOrder
import Polycentric.Server.Authorization
import Polycentric.Server.Bans
import Polycentric.Server.BlobSparing
import Polycentric.Server.BlobUploads
import Polycentric.Server.Blobs
import Polycentric.Server.CacheRaces
import Polycentric.Server.Cursors
import Polycentric.Server.Database
import Polycentric.Server.DeleteCompleteness
import Polycentric.Server.Erasure
import Polycentric.Server.EventKeys
import Polycentric.Server.Events
import Polycentric.Server.FeedFilter
import Polycentric.Server.GraphCaches
import Polycentric.Server.InertDeletes
import Polycentric.Server.Ingestion
import Polycentric.Server.Isolation
import Polycentric.Server.KeyedTables
import Polycentric.Server.LabelOmission
import Polycentric.Server.LedgerRefinement
import Polycentric.Server.Listing
import Polycentric.Server.NotificationPages
import Polycentric.Server.NotificationWorker
import Polycentric.Server.Pages
import Polycentric.Server.PairingSessions
import Polycentric.Server.Provenance
import Polycentric.Server.PutEvents
import Polycentric.Server.RevokedSigners
import Polycentric.Server.StatsWorker
import Polycentric.Server.Tallies
import Polycentric.Server.Threads
import Polycentric.Server.Tombstones
import Polycentric.Server.UpdateFrame
import Polycentric.Server.VerifiedClaims
import Polycentric.Sync.KeyRemoval
import Polycentric.Sync.PartialPull
import Polycentric.Sync.PartialPush
import Polycentric.Sync.PullRounds
import Polycentric.Sync.ThreadAgreement
import Polycentric.Sync.TombstoneAgreement
import Polycentric.Workers.Consumer
import Polycentric.Push.Delivery
import Polycentric.Moderation.Calls
import Polycentric.Moderation.CreatedEvents
import Polycentric.Moderation.Labels
import Polycentric.Moderation.Screening
