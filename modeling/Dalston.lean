import Dalston.Orchestrator.TerminalStatus
import Dalston.Orchestrator.ClosedJobs
import Dalston.Orchestrator.OptionalTasks
import Dalston.Orchestrator.Bindings
import Dalston.Orchestrator.Dependents
import Dalston.Registry.Heartbeats
import Dalston.Sessions.Capacity
import Dalston.Sessions.Decrements
import Dalston.Gateway.Admissions
import Dalston.Events.Delivery
import Dalston.Reconciler.Requeues
import Dalston.Orchestrator.Timestamps
import Dalston.Gateway.RateWindow
import Dalston.Realtime.Sdk
import Dalston.Realtime.LagBudget
import Dalston.Realtime.SegmentTimes
import Dalston.Gateway.SessionUpdates
import Dalston.Gateway.ItemCorrelation
import Dalston.Realtime.TerminalOnce
import Dalston.Realtime.ChunkQueue
import Dalston.Realtime.StreamingFinals
import Dalston.Gateway.ModelRemoval
import Dalston.Gateway.ModelStorage
import Dalston.Orchestrator.LiteIsolation
import Dalston.Gateway.SettingsLock
import Dalston.Engines.VllmSharing
import Dalston.Engines.NemoSetup
import Dalston.Sessions.LeastLoaded
import Dalston.Gateway.TenantIsolation
import Dalston.Orchestrator.Leadership
import Dalston.Engines.TaskDeadline
import Dalston.Foundation.Session
import Dalston.Orchestrator.Writers
import Dalston.Orchestrator.StatusChanges
import Dalston.Orchestrator.StuckJobs
import Dalston.Orchestrator.Webhooks
import Dalston.Orchestrator.EngineSelector
import Dalston.Orchestrator.EngineChoices
import Dalston.Engines.ModelCache
import Dalston.Engines.CacheCompleteness
import Dalston.Orchestrator.WaitTimeouts
import Dalston.Gateway.SessionTokens
import Dalston.Gateway.SingleUse
import Dalston.Orchestrator.Cleanup
import Dalston.Orchestrator.PurgeExclusion
import Dalston.Orchestrator.Retention
import Dalston.Gateway.AudioUrl
import Dalston.Gateway.FetchSafety
import Dalston.Realtime.EngineShutdown
import Dalston.Realtime.SdkDelivery
import Dalston.Realtime.SdkDispatch
import Dalston.Infra.AutoscalePolicy
import Dalston.Infra.Autoscaler
import Dalston.Infra.AutoscaleBounds
import Dalston.Infra.WorkersInUse
import Dalston.Foundation.Spans
import Dalston.Transcripts.SpeakerWindows
import Dalston.Transcripts.TurnSmoothing
import Dalston.Foundation.Tokens
import Dalston.Transcripts.SegmentSplits
import Dalston.Transcripts.Conservation
import Dalston.Transcripts.MissedSpeech
import Dalston.Engines.OverlapStats
import Dalston.Engines.DiarizeMerge
import Dalston.Engines.DiarizeChunks
import Dalston.Engines.TranscriptMerge
import Dalston.Engines.VadChunks
import Dalston.Engines.ChunkBackoff
import Dalston.Orchestrator.Submissions
import Dalston.Orchestrator.CancelledStarts
import Dalston.Engines.AdmissionControl
import Dalston.Engines.SpeechTimestamps
import Dalston.Foundation.Precedence
import Dalston.Gateway.TaskOrder
import Dalston.Gateway.IntervalUnion
import Dalston.Foundation.Keyset
import Dalston.Gateway.Cursors
import Dalston.Gateway.Listings
import Dalston.Foundation.FileTree
import Dalston.Gateway.ArtifactStores
import Dalston.Model.TextWrap
import Dalston.Gateway.TxtExport
import Dalston.Model.CueFiles
import Dalston.Gateway.SubtitleExport
import Dalston.Gateway.WebhookSignatures
import Dalston.Engines.StreamingWords
import Dalston.Engines.PiiDetection
import Dalston.Realtime.ForcedEndpoints
import Dalston.Engines.CtcAlignment
import Dalston.Engines.ForcedAlignment
import Dalston.Engines.AlignmentBounds
import Dalston.Engines.HypothesisParser
import Dalston.Engines.TokenGrouping
import Dalston.Foundation.Blocks
import Dalston.Realtime.AudioBuffer
import Dalston.Engines.WordTimes
import Dalston.Engines.AudioRedactor
import Dalston.Engines.ModelManager
import Dalston.Engines.VramBudget
import Dalston.Engines.DiskCache
import Dalston.Engines.SpeakerLinking
import Dalston.Engines.CompositeRun
import Dalston.Engines.CompositeRelay
import Dalston.Engines.HfTranscripts
import Dalston.Foundation.Base64
