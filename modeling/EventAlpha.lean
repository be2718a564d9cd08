import EventAlpha.InsertionDict
import EventAlpha.KeyedOrder
import EventAlpha.VersionLog
import EventAlpha.RunLog
import EventAlpha.BoundedGaps
import EventAlpha.Streaks
import EventAlpha.SplitRuns
import EventAlpha.JoinedTexts
import EventAlpha.SetDistance
import EventAlpha.DigitTexts
import EventAlpha.FloatRounding
import EventAlpha.Contracts
import EventAlpha.TitleFingerprint
import EventAlpha.EventService
import EventAlpha.EventHistory
import EventAlpha.EventIndexes
import EventAlpha.EventStoreInvariant
import EventAlpha.EventRepository
import EventAlpha.EventTransaction
import EventAlpha.StoredHistory
import EventAlpha.PersistentRuns
import EventAlpha.RestartEquivalence
import EventAlpha.IngestionGuarantees
import EventAlpha.Categories
import EventAlpha.IdentityIndexes
import EventAlpha.Clusters
import EventAlpha.MemoryRefinement
import EventAlpha.WorkerRecovery
import EventAlpha.ClusterDiameter
import EventAlpha.TornReads
import EventAlpha.WorkerLease
import EventAlpha.LeaseSerialization
import EventAlpha.ApiReads
import EventAlpha.ObservationLog
import EventAlpha.Decimals
import EventAlpha.DelimitedTexts
import EventAlpha.Configuration
import EventAlpha.DecimalTexts
import EventAlpha.CivilTime
import EventAlpha.InstantTexts
import EventAlpha.MarketContracts
import EventAlpha.MarketRepository
import EventAlpha.MarketReads
import EventAlpha.PointInTimeReads
import EventAlpha.Fingerprints
import EventAlpha.ReadReference
import EventAlpha.Corrections
import EventAlpha.ReplayMarket
import EventAlpha.ReadBack
import EventAlpha.ProviderHistory
import EventAlpha.MarketDataService
import EventAlpha.PersistBeforePublish
import EventAlpha.ReconnectBudget
import EventAlpha.BarOperations
import EventAlpha.StorageFailures
import EventAlpha.BarRefresh
import EventAlpha.MarketWorker
import EventAlpha.MarketHealth
import EventAlpha.CacheAgreement
import EventAlpha.HttpRetry
import EventAlpha.SecSubmissions
import EventAlpha.PayloadRejection
import EventAlpha.RssFeeds
import EventAlpha.PersistableEnvelopes
import EventAlpha.FredObservations
import EventAlpha.Signals
import EventAlpha.RiskGate
import EventAlpha.FusionSymmetry
import EventAlpha.VolumeConfirmation
import EventAlpha.Migrations
import EventAlpha.MigrationHistories
import EventAlpha.ExclusiveTransactions
import EventAlpha.MigrationLock
import EventAlpha.MarketEndpoints
import EventAlpha.EventEndpoints
import EventAlpha.SqlScripts
import EventAlpha.ChartGeometry
import EventAlpha.LiveMarketPage
