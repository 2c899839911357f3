import NoticeServer.Notice.Expansion
import NoticeServer.Notice.Line
import NoticeServer.DiagnosticSet

/-!
# `NoticeServer.Collection` — from an analyzer's output to diagnostics

Spans that are too long are dropped in every mode; in strict mode every span with an issue is. What is left
(`Notice.kept`) is expanded line by line and grouped by file (`collect`).
-/

namespace NoticeServer

/-- Whether a notice is shown. -/
def Notice.kept (strict : Bool) (n : Notice) : Bool :=
  match n.issue? with
  | none => true
  | some (.tooLong _) => false
  | some _ => !strict

/-- The diagnostics of notices, each notice behind the one before. -/
def collectNotices (notices : List Notice) : DiagnosticSet :=
  notices.foldl (fun s n => s.append (.ofString n.path) n.expand) .empty

/-- The diagnostics of an analyzer's output. -/
def collect (output : List Char) (strict : Bool) : DiagnosticSet :=
  collectNotices ((Notice.parseOutput output).filter (·.kept strict))

end NoticeServer
