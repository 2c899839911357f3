import NoticeServer.Notice.Record
import NoticeServer.Diagnostic

/-!
# `NoticeServer.Notice.Expansion` — one diagnostic per line

Each line of a span gets a diagnostic from the reported column up to the start of the next line, which
marks the rest of the line whatever its length. Zero lines and columns count as one.
-/

namespace NoticeServer

/-- The number before `n`, and zero for zero. -/
def zeroBased (n : UInt32) : UInt32 := if n = 0 then 0 else n - 1

namespace Notice

/-- The number of lines from the first to the last. -/
def spanLength (n : Notice) : Nat := n.endLine.toNat + 1 - n.startLine.toNat

/-- The diagnostic of one line of the span. -/
def lineDiagnostic (n : Notice) (line : UInt32) : Diagnostic where
  path := .ofString n.path
  range := ⟨⟨zeroBased line, zeroBased n.startColumn⟩, ⟨line, 0⟩⟩
  message := n.message

/-- The diagnostics of the lines of the span in order, as many as are shown. -/
def expand (n : Notice) : List Diagnostic :=
  (List.range (min n.spanLength maxSpanLines)).map fun i =>
    n.lineDiagnostic (n.startLine + UInt32.ofNat i)

end Notice
end NoticeServer
