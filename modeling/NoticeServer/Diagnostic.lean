import NoticeServer.Path
import NoticeServer.Span
import NoticeServer.Text.Digit

/-!
# `NoticeServer.Diagnostic` — diagnostics

Every diagnostic is informational and comes from one source. Its display is one line of text, in which lines
and columns count from one again.
-/

namespace NoticeServer

open Text

/-- A message about a range of a file. The path is kept as the analyzer reported it. -/
structure Diagnostic where
  path : Path
  range : Range
  message : String
  deriving DecidableEq, Repr

namespace Diagnostic

/-- The number of the severity in the editor protocol. -/
def severityLevel : Nat := 3

/-- The name of the severity. -/
def severityLabel : String := "info"

/-- The tag of the source. -/
def source : String := "nudge"

/-- The diagnostic as a line of text under the path `path`; lines and columns count from one. -/
def display (d : Diagnostic) (path : Path) : List Char :=
  path.display ++ ':' :: decimal (d.range.start.line.toNat + 1) ++
    ':' :: decimal (d.range.start.character.toNat + 1) ++
    ": ".toList ++ severityLabel.toList ++ ": [".toList ++ source.toList ++ "] ".toList ++ d.message.toList

/-- Equality up to the spelling of the path. -/
def Same (d e : Diagnostic) : Prop :=
  d.path ≈ e.path ∧ d.range = e.range ∧ d.message = e.message

instance (d e : Diagnostic) : Decidable (d.Same e) :=
  inferInstanceAs (Decidable (_ ∧ _ ∧ _))

end Diagnostic
end NoticeServer
