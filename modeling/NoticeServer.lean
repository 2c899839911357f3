import NoticeServer.Main
import NoticeServer.Orchestrator.System
import NoticeServer.Proofs.Path.Join
import NoticeServer.Proofs.DiagnosticSet.Spelling
import NoticeServer.Proofs.Publication.Store
import NoticeServer.Proofs.Publication.Editor
import NoticeServer.Proofs.Orchestrator.History
import NoticeServer.Proofs.Orchestrator.View
import NoticeServer.Proofs.Orchestrator.Isolation
import NoticeServer.Proofs.Orchestrator.Ledger
import NoticeServer.Proofs.Json.Number
import NoticeServer.Proofs.Text.Utf8
import NoticeServer.Proofs.Json.Exact
import NoticeServer.Proofs.Json.Lexing
import NoticeServer.Proofs.Json.Building
import NoticeServer.Proofs.Json.RoundTrip
import NoticeServer.Proofs.Frame.Line
import NoticeServer.Proofs.Frame.RoundTrip
import NoticeServer.Proofs.Orchestrator.Roots
import NoticeServer.Proofs.Server.Demand
import NoticeServer.Proofs.Server.Run
import NoticeServer.Proofs.Frame.Streaming
import NoticeServer.Proofs.Session.Run
import NoticeServer.Proofs.Session.Scans
import NoticeServer.Proofs.Session.Cuts
import NoticeServer.Proofs.Json.Grammar
import NoticeServer.Proofs.Text.Decoding
import NoticeServer.Proofs.Json.NumberText
import NoticeServer.Proofs.Json.Spelling
import NoticeServer.Proofs.Json.Reading
import NoticeServer.Proofs.Frame.Accepting
import NoticeServer.Proofs.Notice.Expansion
import NoticeServer.Proofs.Notice.Line
import NoticeServer.Proofs.Notice.FieldRun
import NoticeServer.Proofs.Text.Line
import NoticeServer.Proofs.Notice.Output
import NoticeServer.Proofs.Text.Lossy
import NoticeServer.Proofs.Analyzer.Output
import NoticeServer.Proofs.Collection
import NoticeServer.Proofs.Orchestrator.Late
import NoticeServer.Proofs.Protocol.Message
import NoticeServer.Proofs.Server.Answers
import NoticeServer.Proofs.Server.Ineffective
import NoticeServer.Proofs.Session.Answers
import NoticeServer.Proofs.Path.Absolute
import NoticeServer.Proofs.Text.Percent
import NoticeServer.Proofs.Uri.Paths
import NoticeServer.Proofs.Orchestrator.Absolute
import NoticeServer.Proofs.Protocol.Publication
import NoticeServer.Proofs.Server.Operations
import NoticeServer.Proofs.Session.Publications
import NoticeServer.Proofs.Server.Documents
import NoticeServer.Proofs.Session.Saves
import NoticeServer.Proofs.Server.Folders
import NoticeServer.Proofs.Session.Roots
import NoticeServer.Proofs.Server.Activity
import NoticeServer.Proofs.Session.Activity
import NoticeServer.Proofs.DiagnosticSet.Rebase
import NoticeServer.Proofs.DiagnosticSet.Indexed
import NoticeServer.Proofs.Notice.Ranges
import NoticeServer.Proofs.Orchestrator.Replacement
import NoticeServer.Proofs.Path.Order
import NoticeServer.Proofs.Publication.Snapshot
import NoticeServer.Proofs.Orchestrator.Snapshot
import NoticeServer.Proofs.Publication.Clearing
import NoticeServer.Proofs.Orchestrator.Deactivation
import NoticeServer.Proofs.Notice.Strictness
import NoticeServer.Proofs.Uri.RoundTrip
import NoticeServer.Proofs.Session.FolderUris
import NoticeServer.Proofs.Config.Environment
import NoticeServer.Proofs.Frame.Progress
import NoticeServer.Proofs.Notice.Display
import NoticeServer.Proofs.Toml.Keys
import NoticeServer.Proofs.Config.Settings
import NoticeServer.Proofs.Text.Excerpt
import NoticeServer.Proofs.Analyzer.ErrorOutput
