import Sediment.Base.Ordering
import Sediment.Base.Dict
import Sediment.Base.Results
import Sediment.Base.Queries
import Sediment.Core.Models
import Sediment.Core.Store
import Sediment.Derive.RepositoryIdentity
import Sediment.Derive.RepositoryContext
import Sediment.Proofs.RepositoryScan
import Sediment.Proofs.RepositoryContext
import Sediment.Proofs.RepositoryOrder
import Sediment.Proofs.RepositoryIdentity
import Sediment.Proofs.RepositoryWitnesses
import Sediment.Proofs.StoreReads
import Sediment.Proofs.WitnessContext
import Sediment.Core.CiOutcome
import Sediment.Derive.CiResolution
import Sediment.Proofs.CiRuns
import Sediment.Proofs.CiAttachment
import Sediment.Proofs.CiLedger
import Sediment.Proofs.CiResolution
import Sediment.Base.Json
import Sediment.Core.Evidence
import Sediment.Derive.Similarity
import Sediment.Derive.ContextRetrieval
import Sediment.Base.Groups
import Sediment.Proofs.ContextCandidates
import Sediment.Proofs.ContextRetrieval
import Sediment.Proofs.ContextDiscovery
import Sediment.Base.JsonScan
import Sediment.Base.JsonLocality
import Sediment.Base.JsonStream
import Sediment.Base.JsonKeys
import Sediment.Base.JsonDumps
import Sediment.Base.FirstWins
import Sediment.Base.Consensus
import Sediment.Derive.Notes
import Sediment.Cli.Notes
import Sediment.Cli.Markers
import Sediment.Core.Sessions
import Sediment.Core.Decisions
import Sediment.Proofs.Notes
import Sediment.Proofs.NoteMerge
import Sediment.Proofs.SessionFold
import Sediment.Proofs.DecisionBatch
import Sediment.Core.Inference
import Sediment.Core.CallStore
import Sediment.Derive.Attachment
import Sediment.Proofs.CallAttachment
import Sediment.Derive.Rollout
import Sediment.Proofs.Rollout
import Sediment.Base.PercentCoding
import Sediment.Derive.Mirror
import Sediment.Proofs.MirrorPaths
import Sediment.Proofs.MirrorEnumeration
import Sediment.Base.Difflib
import Sediment.Base.Tails
import Sediment.Cli.Transcript
import Sediment.Derive.Survival
import Sediment.Proofs.TranscriptWindows
import Sediment.Proofs.ExternalLines
import Sediment.Base.Transitions
import Sediment.Export.Rlvr
import Sediment.Proofs.RlvrExport
import Sediment.Export.RecordStorage
import Sediment.Proofs.StageSteps
import Sediment.Proofs.StageSweep
import Sediment.Base.JsonLoads
import Sediment.Core.Captured
import Sediment.Capture.Payload
import Sediment.Capture.Gateway
import Sediment.Proofs.GatewayTotal
import Sediment.Base.Batches
import Sediment.Core.Datetime
import Sediment.Core.CapturedEvents
import Sediment.Capture.Otlp
import Sediment.Proofs.OtlpBatch
import Sediment.Base.Shapes
import Sediment.Capture.SessionIdentity
import Sediment.Proofs.SessionIdentities
import Sediment.Export.AttributedCompletions
import Sediment.Export.LabelConfidence
import Sediment.Proofs.LabelConfidence
import Sediment.Base.Best
import Sediment.Export.Trainer
import Sediment.Export.Sft
import Sediment.Proofs.TimeSpelling
import Sediment.Proofs.SftSelection
import Sediment.Base.Base64
import Sediment.Base.JsonRender
import Sediment.Base.JsonCompact
import Sediment.Base.Keyset
import Sediment.Base.Calendar
import Sediment.Core.IsoFormat
import Sediment.Api.CiFailures
import Sediment.Proofs.CiPagination
import Sediment.Export.FileRecords
import Sediment.Proofs.RecordAppends
import Sediment.Base.JsonIterencode
import Sediment.Export.Jsonl
import Sediment.Proofs.JsonlWrites
import Sediment.Base.Lines
import Sediment.Base.Decimals
import Sediment.Derive.Diff
import Sediment.Cli.CodexPatch
import Sediment.Proofs.CodexPatch
import Sediment.Base.GitPatch
import Sediment.Proofs.DiffPaths
import Sediment.Proofs.DiffHunks
import Sediment.Proofs.DiffHeaders
import Sediment.Proofs.DiffSections
import Sediment.Base.Spans
import Sediment.Derive.Recovery
import Sediment.Proofs.RecoveryPairs
import Sediment.Proofs.RecoveryDiffSize
import Sediment.Base.StepUp
import Sediment.Export.Significance
import Sediment.Proofs.Significance
import Sediment.Export.DiffSft
import Sediment.Proofs.DiffSft
import Sediment.Proofs.TrainerMapping
import Sediment.Proofs.DecisionAttachment
import Sediment.Base.Intervals
import Sediment.Derive.ComputeTiming
import Sediment.Proofs.ComputeTiming
import Sediment.Core.EvidenceJson
import Sediment.Proofs.EvidenceJson
import Sediment.Base.Packing
import Sediment.Derive.ContextPacking
import Sediment.Proofs.ContextPacking
import Sediment.Cli.TranscriptRequests
import Sediment.Proofs.TranscriptRequests
import Sediment.Base.Argmax
import Sediment.Base.Claims
import Sediment.Derive.FactReads
import Sediment.Derive.SessionCommit
import Sediment.Derive.Attribution
import Sediment.Derive.AttributionShare
import Sediment.Proofs.AttributionMatch
import Sediment.Proofs.AttributionWalk
import Sediment.Proofs.ContextReads
import Sediment.Proofs.AttributionShare
import Sediment.Proofs.ShareRuns
import Sediment.Proofs.ShareOrder
import Sediment.Base.Averages
import Sediment.Base.Blocks
import Sediment.Base.Ranks
import Sediment.Base.TextFiles
import Sediment.Base.Trend
import Sediment.Cli.AgentConfig
import Sediment.Cli.HookBlock
import Sediment.Cli.RemoteAllowlist
import Sediment.Cli.ServerUrls
import Sediment.Cli.ShellProfile
import Sediment.Core.Scalars
import Sediment.Core.TextMethods
import Sediment.Core.Urls
import Sediment.Derive.MirrorGc
import Sediment.Export.Calibration
import Sediment.Export.OutcomeRates
import Sediment.Export.TrendTest
import Sediment.Proofs.AgentConfig
import Sediment.Proofs.Calibration
import Sediment.Proofs.HookBlock
import Sediment.Proofs.MirrorGc
import Sediment.Proofs.OutcomeRates
import Sediment.Proofs.RemoteAllowlist
import Sediment.Proofs.Scalars
import Sediment.Proofs.ServerUrls
import Sediment.Proofs.ShellProfile
import Sediment.Proofs.TrendTest
import Sediment.Base.DecimalNumbers
import Sediment.Base.HalfOpen
import Sediment.Base.JsonSorted
import Sediment.Base.Quantiles
import Sediment.Base.Validation
import Sediment.Export.DecisionLatency
import Sediment.Export.PriceManifest
import Sediment.Proofs.DecisionLatency
import Sediment.Proofs.PriceEntries
import Sediment.Proofs.PriceManifest
import Sediment.Base.JsonFlat
import Sediment.Cli.DeliveryEntry
import Sediment.Cli.DeliveryRequest
import Sediment.Proofs.DeliveryDestination
import Sediment.Proofs.DeliveryEntry
import Sediment.Proofs.DeliveryIdentity
import Sediment.Proofs.DeliveryRoundTrip
import Sediment.Base.Journal
import Sediment.Cli.DeliveryQueue
import Sediment.Cli.DeliveryRecords
import Sediment.Proofs.DeliveryRecords
import Sediment.Proofs.AgentInstall
import Sediment.Proofs.DeliveryEffects
import Sediment.Proofs.DeliveryMaintenance
import Sediment.Proofs.DeliveryRuns
import Sediment.Proofs.DeliverySections
import Sediment.Proofs.EvidenceValues
import Sediment.Proofs.ModelScalars
