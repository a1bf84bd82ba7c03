import YapInference.Lib.Text
import YapInference.Lib.Lts
import YapInference.Lib.Value
import YapInference.Lib.Split
import YapInference.Lib.Search
import YapInference.Lib.Regex
import YapInference.Lib.RegexLaws
import YapInference.Lib.RegexEnds
import YapInference.Lib.RegexWords
import YapInference.Lib.Html
import YapInference.Lib.Emission
import YapInference.Lib.Window
import YapInference.State
import YapInference.Config
import YapInference.Tokens
import YapInference.History.Turns
import YapInference.History.Ops
import YapInference.Execution.Template
import YapInference.Execution.PromptBudget
import YapInference.History.Controller
import YapInference.Session.Config
import YapInference.Session.Requests
import YapInference.Session.Manager
import YapInference.Proof.ChatStore
import YapInference.WebSocket.Stream
import YapInference.Proof.StreamRun
import YapInference.Execution.Controller
import YapInference.WebSocket.Disconnects
import YapInference.WebSocket.Supervision
import YapInference.Text.Verbalize
import YapInference.Text.Suffix
import YapInference.Text.Stream
import YapInference.Proof.ChainStep
import YapInference.Proof.Cancellation
import YapInference.Messages.Sampling
import YapInference.Execution.Runner
import YapInference.Messages.Message
import YapInference.Execution.Executor
import YapInference.Proof.ShownReply
import YapInference.Session.Parsing
import YapInference.Text.Filters
import YapInference.Text.Prompt
import YapInference.Messages.Validators
import YapInference.Messages.Start
import YapInference.WebSocket.Lifecycle
import YapInference.WebSocket.Limits
import YapInference.WebSocket.Connection
import YapInference.Proof.SessionFrame
import YapInference.Proof.RequestFrame
import YapInference.Proof.ConnStep
import YapInference.Proof.StartedFlag
import YapInference.Proof.Tracking
import YapInference.Proof.Cleanup
import YapInference.Proof.SamplingPrecedence
import YapInference.Proof.TaskSteps
import YapInference.Proof.Conversation
import YapInference.Proof.ConversationWindow
import YapInference.Proof.BargeIn
import YapInference.Proof.ChunkStability
import YapInference.Proof.CleanOutput
import YapInference.Proof.SuffixGuards
import YapInference.Proof.Untouched
import YapInference.Proof.SpokenWords
import YapInference.Proof.LastWord
import YapInference.Proof.SpokenText
import YapInference.Proof.RateLimit
import YapInference.WebSocket.Auth
import YapInference.Proof.AuthThrottle
import YapInference.Proof.RequestOps
import YapInference.Proof.ToolStore
import YapInference.Proof.PromptFit
import YapInference.Tool.Adapter
import YapInference.Proof.ToolInput
import YapInference.Lib.Runs
import YapInference.Proof.Transcript
import YapInference.WebSocket.ConnectionHandler
import YapInference.Proof.Admission
import YapInference.Tool.Batch
import YapInference.Proof.Batching
import YapInference.Proof.OldestFirst
import YapInference.Proof.ScreenPrefix
import YapInference.Proof.HistoryImport
import YapInference.Proof.ToolHistory
import YapInference.Lib.Halving
import YapInference.Proof.ToolTrim
import YapInference.Proof.UserFit
import YapInference.Lib.Lines
import YapInference.Proof.TranscriptText
import YapInference.Execution.ChatStream
import YapInference.Proof.DeltaStream
import YapInference.Engines.Cache
import YapInference.Proof.CacheDaemon
import YapInference.Proof.SamplingChecks
import YapInference.Proof.AuthAccount
import YapInference.Scripts.Filters
import YapInference.Proof.NoiseFilter
import YapInference.Quantization.Detection
import YapInference.Proof.ConfigStrip
import YapInference.Lib.Components
import YapInference.Linting.ImportCycles
import YapInference.Proof.ImportComponents
import YapInference.Proof.ImportCheck
import YapInference.Proof.ImportNames
import YapInference.Lib.Outputs
import YapInference.WebSocket.Wire
import YapInference.Proof.TurnFrames
import YapInference.Proof.WireOrder
import YapInference.WebSocket.Server
import YapInference.Proof.ServerSlots
import YapInference.Proof.IdleWatchdog
import YapInference.Proof.FinalText
import YapInference.WebSocket.Gate
import YapInference.Lib.Serving
import YapInference.WebSocket.Traffic
import YapInference.Proof.Answered
import YapInference.Proof.GateKeeping
import YapInference.Engines.Trt
import YapInference.WebSocket.Generations
import YapInference.Proof.Heeding
import YapInference.Proof.EngineCalls
import YapInference.Proof.Aborts
import YapInference.Engines.Resets
import YapInference.Proof.ResetLock
import YapInference.Proof.DaemonTask
import YapInference.WebSocket.Screens
import YapInference.Proof.ScreenFollowup
import YapInference.Proof.ToolWrites
import YapInference.Proof.ToolLedger
