/-!
# `NoticeServer.Config` — settings

How the analyzer is called, when scans run and what they keep. Every setting has a default, so a table that
tells nothing stands for the settings `{}`.
-/

namespace NoticeServer

/-- How the analyzer is called. References to environment variables in the command are not expanded
here. -/
structure AnalyzerConfig where
  command : String := "nudge"
  format : String := "github"
  arguments : List String := []
  timeoutSeconds : Nat := 60
  deriving DecidableEq, Repr

/-- The greatest time limit, in seconds. -/
def maxTimeoutSeconds : Nat := Nat.pow 2 64 - 1

/-- When scans run and what they keep. -/
structure ScanConfig where
  languages : List String := ["go", "rust", "c"]
  startActive : Bool := false
  strictSpans : Bool := false
  deriving DecidableEq, Repr

namespace ScanConfig

/-- Whether saving a document of this language starts scans. -/
def watches (c : ScanConfig) (language : String) : Bool := c.languages.contains language

end ScanConfig

/-- All settings. -/
structure Config where
  analyzer : AnalyzerConfig := {}
  scan : ScanConfig := {}
  deriving DecidableEq, Repr

end NoticeServer
