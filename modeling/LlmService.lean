import LlmService.Basic
import LlmService.Config.Settings
import LlmService.Consumers.AtLeastOnce
import LlmService.Consumers.CommitOrder
import LlmService.Consumers.IdempotencyWindow
import LlmService.Consumers.KafkaConsumer
import LlmService.Consumers.ProcessSingle
import LlmService.Context.CollectedDocuments
import LlmService.Context.Collector
import LlmService.Context.MergedChunks
import LlmService.Context.Merger
import LlmService.Context.PreviousChunks
import LlmService.Context.PreviousTurns
import LlmService.Context.RetrievalQuery
import LlmService.Context.RewriteModels
import LlmService.ContextWindow.BudgetCeilings
import LlmService.ContextWindow.BudgetPolicy
import LlmService.ContextWindow.Compaction
import LlmService.ContextWindow.CompactionContract
import LlmService.ContextWindow.CondensedTurns
import LlmService.ContextWindow.Fit
import LlmService.ContextWindow.FitVerdicts
import LlmService.ContextWindow.HistoryText
import LlmService.ContextWindow.Manager
import LlmService.ContextWindow.Models
import LlmService.ContextWindow.OmissionMarker
import LlmService.ContextWindow.Refit
import LlmService.ContextWindow.SectionFloors
import LlmService.ContextWindow.ShrinkMaximal
import LlmService.ContextWindow.TokenCounter
import LlmService.ContextWindow.TrimObjects
import LlmService.ContextWindow.TrimRaises
import LlmService.ContextWindow.TrimTurns
import LlmService.ContextWindow.TrimmedSection
import LlmService.ContextWindow.Trimmer
import LlmService.ContextWindow.TruncateBound
import LlmService.Lib.Brackets
import LlmService.Lib.Cascade
import LlmService.Lib.Conversation
import LlmService.Lib.Cut
import LlmService.Lib.Doubles
import LlmService.Lib.GraphSearch
import LlmService.Lib.Infix
import LlmService.Lib.Json
import LlmService.Lib.JsonKeys
import LlmService.Lib.JsonText
import LlmService.Lib.LatestWrites
import LlmService.Lib.Limiters
import LlmService.Lib.Lockstep
import LlmService.Lib.LongestFit
import LlmService.Lib.LruMap
import LlmService.Lib.NotedScript
import LlmService.Lib.ProgramLogic
import LlmService.Lib.Provenance
import LlmService.Lib.PyText
import LlmService.Lib.Regex
import LlmService.Lib.Replace
import LlmService.Lib.Runs
import LlmService.Lib.Script
import LlmService.Lib.ScriptAlone
import LlmService.Lib.ScriptInterpret
import LlmService.Lib.ScriptTrace
import LlmService.Lib.Sieve
import LlmService.Lib.SortedJson
import LlmService.Lib.Spending
import LlmService.Lib.StableSort
import LlmService.Lib.StateGraph
import LlmService.Lib.SwapSort
import LlmService.Lib.Unwinding
import LlmService.Lib.Url
import LlmService.Lib.UrlQuery
import LlmService.Lib.Utf8Cut
import LlmService.Lib.Windows
import LlmService.Lib.Within
import LlmService.Lib.Woven
import LlmService.Models.AcceptedEvent
import LlmService.Models.Events
import LlmService.Models.GenerationPreferences
import LlmService.Models.PipelineContext
import LlmService.Pipeline.AttachedDocuments
import LlmService.Pipeline.MergeHistories
import LlmService.Pipeline.NeverRaises
import LlmService.Pipeline.ProviderFit
import LlmService.Pipeline.RequestPipeline
import LlmService.Pipeline.SelectedTools
import LlmService.Pipeline.SkippedProviders
import LlmService.Pipeline.StartupChecks
import LlmService.Pipeline.TerminalAnswer
import LlmService.Pipeline.WindowFit
import LlmService.Producers.KafkaPublisher
import LlmService.Prompts.Compose
import LlmService.Prompts.Documents
import LlmService.Prompts.Roles
import LlmService.Providers.Chain
import LlmService.Providers.ChainAnswers
import LlmService.Providers.ChainBreakers
import LlmService.Providers.ChainTurn
import LlmService.Providers.Groq
import LlmService.Providers.GroqStream
import LlmService.Providers.Router
import LlmService.Providers.RouterChain
import LlmService.RequestAnalyzer.Analyzer
import LlmService.RequestAnalyzer.Outage
import LlmService.RequestAnalyzer.Plan
import LlmService.RequestAnalyzer.PlannedRun
import LlmService.Security.Pii
import LlmService.Security.Sanitizer
import LlmService.Services.Chunks
import LlmService.Services.StreamingEngine
import LlmService.Tools.Attempts
import LlmService.Tools.CanonicalUrl
import LlmService.Tools.Deduplicate
import LlmService.Tools.DefaultTools
import LlmService.Tools.Dispatcher
import LlmService.Tools.QueryRewrite
import LlmService.Tools.Registry
import LlmService.Tools.Selection
import LlmService.Tools.SharedSearches
import LlmService.Tools.WebSearch
import LlmService.Utils.BreakerCalls
import LlmService.Utils.BreakerInterface
import LlmService.Utils.CircuitBreaker
import LlmService.Utils.ErrorHandler
import LlmService.Utils.LruCache
import LlmService.Utils.RecentKeys
import LlmService.Utils.Retry
import LlmService.Utils.RetryManager
import LlmService.Utils.TTLCache
import LlmService.Utils.Uuid
import LlmService.Visualization.ActiveCap
import LlmService.Visualization.AnimatedAlgorithms
import LlmService.Visualization.AttemptBudget
import LlmService.Visualization.BlockFences
import LlmService.Visualization.BlockPartition
import LlmService.Visualization.BlockPieces
import LlmService.Visualization.BlockStream
import LlmService.Visualization.Blocks
import LlmService.Visualization.CreateJob
import LlmService.Visualization.Endpoints
import LlmService.Visualization.HourlyBudget
import LlmService.Visualization.Incarnations
import LlmService.Visualization.Isolation
import LlmService.Visualization.JobStates
import LlmService.Visualization.Jobs
import LlmService.Visualization.ManimBuilders
import LlmService.Visualization.ManimLabel
import LlmService.Visualization.ManimScenes
import LlmService.Visualization.ManimTemplates
import LlmService.Visualization.Mermaid
import LlmService.Visualization.Policy
import LlmService.Visualization.RedisEndpoints
import LlmService.Visualization.Repair
import LlmService.Visualization.Runner
import LlmService.Visualization.SortedParams
import LlmService.Visualization.SpecRoundTrip
import LlmService.Visualization.StoreAnswers
import LlmService.Visualization.Stranded
import LlmService.Visualization.TwoStores
import LlmService.Visualization.TypographicReferences
import LlmService.Workflow.Corroboration
import LlmService.Workflow.DeepResearch
import LlmService.Workflow.Dispatches
import LlmService.Workflow.Evidence
import LlmService.Workflow.Executions
import LlmService.Workflow.LoopBounds
import LlmService.Workflow.Modes
import LlmService.Workflow.Smart
