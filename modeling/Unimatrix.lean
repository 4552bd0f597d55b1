import Unimatrix.Lib.Decimal
import Unimatrix.Lib.Digraph
import Unimatrix.Lib.Encode
import Unimatrix.Lib.HashMap
import Unimatrix.Lib.Intervals
import Unimatrix.Lib.Json
import Unimatrix.Lib.CappedSearch
import Unimatrix.Lib.Layers
import Unimatrix.Lib.ShortestPath
import Unimatrix.Lib.Rotation
import Unimatrix.Lib.Lines
import Unimatrix.Lib.Machine
import Unimatrix.Lib.Rows
import Unimatrix.Lib.Runs
import Unimatrix.Lib.Tally
import Unimatrix.Lib.Transaction
import Unimatrix.Lib.Utf8
import Unimatrix.Lib.Words
import Unimatrix.Lib.WriteLog
import Unimatrix.Transcript.Buffer
import Unimatrix.Transcript.Invariant
import Unimatrix.Transcript.Content
import Unimatrix.Transcript.Accounting
import Unimatrix.Transcript.Convergence
import Unimatrix.Hold.Store
import Unimatrix.Hold.Accounting
import Unimatrix.Session.Registry
import Unimatrix.Session.Precedence
import Unimatrix.Session.Readoption
import Unimatrix.Session.Signals
import Unimatrix.Store.Schema
import Unimatrix.Store.Hash
import Unimatrix.Store.Write
import Unimatrix.Store.Changes
import Unimatrix.Store.ChainVerify
import Unimatrix.Store.Chain
import Unimatrix.Store.Correction
import Unimatrix.Store.Counted
import Unimatrix.Store.Lifecycle
import Unimatrix.Store.LifecycleRun
import Unimatrix.Store.QuarantineRace
import Unimatrix.Store.AutoQuarantine
import Unimatrix.Store.Supersession
import Unimatrix.Usage.Recording
import Unimatrix.Usage.VoteTally
import Unimatrix.Store.Lineage
import Unimatrix.Store.TagReplace
import Unimatrix.Graph.Terminal
import Unimatrix.Graph.Neighbors
import Unimatrix.Graph.Ranked
import Unimatrix.Graph.Build
import Unimatrix.Graph.PenaltyBounds
import Unimatrix.Graph.ExpandLayers
import Unimatrix.Graph.PagerankFlow
import Unimatrix.Graph.Path
import Unimatrix.Graph.Subgraph
import Unimatrix.Graph.EdgeWrite
import Unimatrix.Graph.EdgeCompaction
import Unimatrix.Backup.Format
import Unimatrix.Backup.Atomicity
import Unimatrix.Backup.Filtered
import Unimatrix.Backup.Counters
import Unimatrix.Hook.TopicSignal
import Unimatrix.Hook.Queue
import Unimatrix.Hook.EventQueue
import Unimatrix.Hook.Delta
import Unimatrix.Transcript.Delivery
import Unimatrix.Transcript.Parity
import Unimatrix.Bridge.Sse
import Unimatrix.Bridge.Session
import Unimatrix.Bridge.Healing
import Unimatrix.Hook.CycleValidation
import Unimatrix.Wire.Framing
import Unimatrix.Services.RateLimit
import Unimatrix.Services.CoRetrieval
import Unimatrix.Retention.Progress
import Unimatrix.Retention.Safety
import Unimatrix.Vector.Identity
import Unimatrix.Vector.Compaction
import Unimatrix.Search.Discipline
import Unimatrix.Search.Alignment
import Unimatrix.Search.Filter
import Unimatrix.Install.CodexEmit
import Unimatrix.Install.HookMerge
import Unimatrix.Distill.Honesty
import Unimatrix.Lib.Lossy
import Unimatrix.Lib.Budget
import Unimatrix.Lib.Carry
import Unimatrix.Lib.Distinct
import Unimatrix.Lib.Streak
import Unimatrix.Lib.Watermark
import Unimatrix.Hook.DeltaBytes
import Unimatrix.Transcript.Budget
import Unimatrix.Transcript.Windows
import Unimatrix.Observe.Attribution
import Unimatrix.Observe.Phases
import Unimatrix.Distill.RingTail
import Unimatrix.Services.CoaccessPairs
import Unimatrix.Search.Briefing
import Unimatrix.Background.QuarantineStreak
import Unimatrix.Background.Extraction
import Unimatrix.Background.TickLoop
import Unimatrix.Bridge.StdioFrame
import Unimatrix.Distill.Iso8601
import Unimatrix.Contradiction.Polarity
import Unimatrix.Contradiction.Scan
import Unimatrix.Config.Overlay
import Unimatrix.Lib.KeyedWrites
import Unimatrix.Store.Analytics
import Unimatrix.Store.AnalyticsReplay
import Unimatrix.Store.DrainTask
import Unimatrix.Infra.ModelHandle
import Unimatrix.Lib.JsonWrite
import Unimatrix.Wire.Requests
import Unimatrix.Lib.Base64
import Unimatrix.Lib.SplitOnce
import Unimatrix.Http.Seam
import Unimatrix.Http.PublicUrl
import Unimatrix.Http.Token
import Unimatrix.Http.Bundle
import Unimatrix.Http.Router
import Unimatrix.Lib.Interleave
import Unimatrix.Infra.Agents
import Unimatrix.Infra.OutcomeTags
import Unimatrix.Projects.ConfigWrite
import Unimatrix.Projects.Registry
import Unimatrix.Lib.SlidingWindow
import Unimatrix.Observe.Evaluator
import Unimatrix.Services.PendingAnalysis
import Unimatrix.Services.SignalConsumers
