import GenericMlCache.CallAutomaton
import GenericMlCache.ExecutionModel
import GenericMlCache.ExecutionRepository
import GenericMlCache.ExecutionQueries
import GenericMlCache.RepositoryCalls
import GenericMlCache.Currency
import GenericMlCache.ServicePorts
import GenericMlCache.StorePurge
import GenericMlCache.StoreRepair
import GenericMlCache.CachedExecution
import GenericMlCache.ExecuteCalls
import GenericMlCache.UndisturbedRuns
import GenericMlCache.AnsweredRuns
import GenericMlCache.JournalAccounting
import GenericMlCache.PaidAnswers
import GenericMlCache.ServiceAutomaton
import GenericMlCache.ServiceConformance
import GenericMlCache.ServiceOperations
import GenericMlCache.StoreSoundness
import GenericMlCache.LockOrder
import GenericMlCache.NestedLocks
import GenericMlCache.RecordGate
import GenericMlCache.StripedLocks
import GenericMlCache.BareRows
import GenericMlCache.EntryResolution
import GenericMlCache.BlobOwners
import GenericMlCache.FaithfulReplay
import GenericMlCache.CallIdentityKeys
import GenericMlCache.KeySoundness
import GenericMlCache.JsonText
import GenericMlCache.JsonGrammar
import GenericMlCache.MlExecutionCommands
import GenericMlCache.ForwardedRequests
import GenericMlCache.CallProbe
import GenericMlCache.DetachedJobs
import GenericMlCache.JobLiveness
import GenericMlCache.GroupedCounts
import GenericMlCache.SessionReports
import GenericMlCache.PurgedReports
import GenericMlCache.SpentUsage
import GenericMlCache.StoreEncryptor
import GenericMlCache.MigrationRecovery
import GenericMlCache.RecordOnce
import GenericMlCache.CallParties
import GenericMlCache.WiredStore
import GenericMlCache.RemovedBlobs
import GenericMlCache.ShreddedStore
import GenericMlCache.ReturnedRuns
import GenericMlCache.OwnedDocuments
import GenericMlCache.JobResults
import GenericMlCache.AdditiveReports
import GenericMlCache.FinalizedRuns
import GenericMlCache.PersistedStatuses
import GenericMlCache.ErasedKeys
import GenericMlCache.EvictedQuota
import GenericMlCache.FreedBlobs
import GenericMlCache.QuotaRuns
import GenericMlCache.JobObservation
import GenericMlCache.UndisturbedRecordings
import GenericMlCache.GatewayRelay
import GenericMlCache.GatewayTransparency
import GenericMlCache.JsonRoundTrip
import GenericMlCache.IdentityCodec
import GenericMlCache.UsageTexts
import GenericMlCache.OutputParsing
import GenericMlCache.JsonQuotes
import GenericMlCache.UsageReading
import GenericMlCache.UsageAnswers
import GenericMlCache.StreamedResults
import GenericMlCache.StreamParity
import GenericMlCache.RequestRetries
import GenericMlCache.EncryptionRoundTrip
import GenericMlCache.TextReading
import GenericMlCache.ProcessStreams
import GenericMlCache.KeyLocks
import GenericMlCache.RepairedRuns
import GenericMlCache.TaggedRuns
import GenericMlCache.ArgumentFingerprints
import GenericMlCache.FramedMaps
import GenericMlCache.ConfigValidation
import GenericMlCache.EventWatch
import GenericMlCache.SchemaMigration
import GenericMlCache.MigrationSteps
import GenericMlCache.MigrationRaces
import GenericMlCache.ReportedHits
import GenericMlCache.TextPatterns
import GenericMlCache.LogScrubbing
import GenericMlCache.TokenLeaks
import GenericMlCache.KeptHistory
import GenericMlCache.RefreshRuns
import GenericMlCache.OrderedDict
import GenericMlCache.ReferenceStore
import GenericMlCache.StoreSimulation
import GenericMlCache.ReferenceAnswers
import GenericMlCache.LabelledRuns
import GenericMlCache.BlobFiles
import GenericMlCache.BlobAtomicity
import GenericMlCache.DaemonJobs
import GenericMlCache.DaemonJobRuns
import GenericMlCache.DaemonJobAnswers
import GenericMlCache.CrashedRecordings
import GenericMlCache.CrashRepair
