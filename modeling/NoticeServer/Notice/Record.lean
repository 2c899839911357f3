/-!
# `NoticeServer.Notice.Record` — notices as the analyzer reports them

Lines and columns count from one and are not checked; `Notice.issue?` tells the first reason for which a span
cannot be shown faithfully.
-/

namespace NoticeServer

/-- The greatest number of lines of a span that is shown. -/
def maxSpanLines : Nat := 10000

/-- One notice of an analyzer's output. -/
structure Notice where
  path : String
  startLine : UInt32
  startColumn : UInt32
  endLine : UInt32
  endColumn : UInt32
  message : String
  deriving DecidableEq, Repr

/-- Why a span cannot be shown faithfully. -/
inductive SpanIssue where
  | zeroLine
  | zeroColumn
  | reversed (startLine endLine : UInt32)
  | tooLong (lines : Nat)
  deriving DecidableEq, Repr

/-- The wording of an issue. -/
def SpanIssue.message : SpanIssue → String
  | .zeroLine => "line numbers are 1-indexed, got 0"
  | .zeroColumn => "column numbers are 1-indexed, got 0"
  | .reversed startLine endLine =>
    s!"span ends on line {endLine.toNat} before it starts on line {startLine.toNat}"
  | .tooLong lines => s!"span covers {lines} lines, more than {maxSpanLines}"

namespace Notice

/-- The greatest line count that is told. -/
def maxLineCount : Nat := Nat.pow 2 32 - 1

/-- How many lines the span covers, at most the greatest count; a reversed span covers none. -/
def lineCount (n : Notice) : Nat :=
  if n.endLine < n.startLine then 0
  else min (n.endLine.toNat - n.startLine.toNat + 1) maxLineCount

/-- The first problem with the span. Its length comes before everything else. -/
def issue? (n : Notice) : Option SpanIssue :=
  if maxSpanLines < n.lineCount then some (.tooLong n.lineCount)
  else if n.startLine = 0 ∨ n.endLine = 0 then some .zeroLine
  else if n.startColumn = 0 ∨ n.endColumn = 0 then some .zeroColumn
  else if n.endLine < n.startLine then some (.reversed n.startLine n.endLine)
  else none

end Notice
end NoticeServer
