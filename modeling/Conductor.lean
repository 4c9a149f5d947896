import Conductor.Lib.Runs
import Conductor.Lib.Regex
import Conductor.Js.LowerCase
import Conductor.Js.JsonText
import Conductor.Js.Utf8
import Conductor.Discovery.Providers
import Conductor.Sessions.Lock
import Conductor.Sessions.RefinedStatus
import Conductor.Tmux.TmuxMap
import Conductor.Lib.Framing
import Conductor.Lib.Latest
import Conductor.Lib.Merge
import Conductor.Tmux.Audit
import Conductor.Cli.InjectCmd
import Conductor.Jsonl.Parser
import Conductor.Sessions.CutSummary
import Conductor.Sessions.HighConfidence
import Conductor.Mcp.Protocol
import Conductor.Mcp.Registry
import Conductor.Mcp.Server
import Conductor.Lib.Queue
import Conductor.Mcp.LineErrors
import Conductor.Mcp.EndOfInput
import Conductor.Http.Server
import Conductor.Sessions.ReadOrder
import Conductor.Js.JsonNesting
import Conductor.Js.JsonCut
import Conductor.Js.JsonRoundTrip
import Conductor.Js.Doubles
import Conductor.Js.Numerals
import Conductor.Js.JsonAccepts
import Conductor.Jsonl.TailLines
import Conductor.Sessions.Provenance
import Conductor.Timeseries.Store
import Conductor.Timeseries.Prometheus
import Conductor.Http.SessionsPoller
import Conductor.Reminders.Mirror
import Conductor.Reminders.Overlap
import Conductor.Http.SharedCache
import Conductor.Timeseries.LiveGauge
import Conductor.Http.StoppedPollers
import Conductor.Cli.ConflictAgreement
import Conductor.Sessions.MergedProviders
import Conductor.Mcp.SchemaChecks
import Conductor.Cli.InjectAgreement
import Conductor.Http.Upgrade
import Conductor.Lib.Once
import Conductor.Lib.UnlockedCell
import Conductor.Http.Shutdown
import Conductor.Tmux.AuditOrder
import Conductor.Http.SubscribedClient
import Conductor.Http.ActivePollers
import Conductor.Timeseries.Conservation
import Conductor.Sessions.Transcript
import Conductor.Reminders.FallbackFile
import Conductor.Reminders.LostUpdates
import Conductor.Reminders.MetaLine
import Conductor.Reminders.TodoStore
import Conductor.Lib.Paths
import Conductor.Lib.Walk
import Conductor.Sessions.NestedDirs
import Conductor.Cli.UnknownCwd
import Conductor.Http.PollingOwners
import Conductor.Sessions.CrashReports
import Conductor.Jsonl.PendingTools
import Conductor.Js.ToNumber
import Conductor.Js.NaturalText
import Conductor.Tmux.ListPanes
import Conductor.Tmux.SendKeys
import Conductor.Cli.Args
import Conductor.Cli.RepeatedFlags
import Conductor.Mcp.TranscriptLines
import Conductor.Cli.AuditReaders
import Conductor.Http.DrainWindow
import Conductor.Reminders.CanonicalLine
import Conductor.Tmux.PaneWalk
import Conductor.Sessions.CachedPanes
import Conductor.Tmux.AuditRoundTrip
import Conductor.Lib.Oldest
import Conductor.Timeseries.PruneLoop
import Conductor.Timeseries.LatestTies
import Conductor.Timeseries.TextFormat
import Conductor.Timeseries.MetricsRoundTrip
import Conductor.Sessions.ApprovalPrompts
import Conductor.Lib.Statements
import Conductor.Js.Operators
import Conductor.Jsonl.Usage
import Conductor.Jsonl.Rejections
import Conductor.Discovery.TranscriptFolders
import Conductor.Discovery.PsOutput
import Conductor.Discovery.ClaudeRows
import Conductor.Cli.FlagRoundTrip
import Conductor.Jsonl.RecentTurns
import Conductor.Http.PickPort
import Conductor.Lib.Broadcast
import Conductor.Http.LateJoiner
import Conductor.Lib.Oracle
import Conductor.Mcp.Serial
import Conductor.Mcp.ClientView
import Conductor.Cli.Commands
import Conductor.Cli.Run
import Conductor.Cli.SnapshotAgreement
import Conductor.Mcp.SessionEffects
import Conductor.Http.ClientBody
import Conductor.Timeseries.Scrape
import Conductor.Cli.ShownEntries
import Conductor.Reminders.RemindctlStore
import Conductor.Cli.TodoWays
import Conductor.Http.WsDrain
import Conductor.Timeseries.SampleTable
import Conductor.Cli.Tables
import Conductor.Cli.ToldInjects
import Conductor.Cli.ServeSignals
import Conductor.Providers.BuiltIns
import Conductor.Lib.Keyed
import Conductor.Providers.Registrations
