import ChainSdk.SyncerCoverage
import ChainSdk.CatchUpEquivalence
import ChainSdk.BasedTimestamps
import ChainSdk.SingleTimestamps
import ChainSdk.SequencerErrors
import ChainSdk.FollowerCoverage
import ChainSdk.ReplayedStates
import ChainSdk.DaReconstruction
import ChainSdk.CachedStore
import ChainSdk.InclusionCrashes
import ChainSdk.InitialHeights
import ChainSdk.ResumeTurns
import ChainSdk.StoreRollback
import ChainSdk.CacheFrames
import ChainSdk.LeaderElection
import ChainSdk.Reaper
import ChainSdk.SyncerBookkeeping
import ChainSdk.ExecutorCrashes
import ChainSdk.CacheSnapshot
import ChainSdk.HeaderHashes
import ChainSdk.BlobAssembly
import ChainSdk.LastBlockCache
import ChainSdk.DaHints
import ChainSdk.ExecutorFaults
import ChainSdk.PrefetchedBlocks
import ChainSdk.SubmissionWindow
import ChainSdk.CosmosProgress
import ChainSdk.BlobCompression
import ChainSdk.HeaderTimes
import ChainSdk.ReaperDedup
import ChainSdk.EpochTiling
