import NoticeServer.Config.Basic
import NoticeServer.Config.Environment
import NoticeServer.Text.Blank
import NoticeServer.Text.Excerpt
import NoticeServer.Text.Utf8

/-!
# `NoticeServer.Analyzer` — calls of the external analyzer

A call succeeds with the text of its output or fails with one of four errors, each with a message of its
own. Output and error output are decoded lossily; of the error output an excerpt is kept. How a call went is
given from outside (`Execution`); what comes of it is `AnalyzerCall.outcome`.
-/

namespace NoticeServer

open Text

/-! ## Errors -/

/-- Why a call has no output. -/
inductive AnalyzerError where
  /-- The command is not an executable file. -/
  | notFound (command : String)
  /-- The process could not be started. -/
  | notStarted (command : String)
  /-- The process ended badly, with an exit code or by a signal. -/
  | failed (code? : Option Int) (stderr : String)
  /-- The process took too long. -/
  | timedOut (seconds : Nat)
  deriving DecidableEq, Repr

/-- The wording of an error. -/
def AnalyzerError.message : AnalyzerError → String
  | .notFound command => s!"{command} not found in PATH"
  | .notStarted command => s!"spawning {command}"
  | .failed (some code) stderr => s!"analyzer exited with status {code}: {stderr}"
  | .failed none stderr => s!"analyzer terminated by signal: {stderr}"
  | .timedOut seconds => s!"analyzer timed out after {seconds}s"

/-! ## Calls -/

/-- What is called for a root. The root is the first argument, the flags follow. -/
structure AnalyzerCall where
  command : String
  flags : List String
  timeoutSeconds : Nat
  deriving DecidableEq, Repr

/-- The call that the settings ask for. -/
def AnalyzerConfig.call (c : AnalyzerConfig) (env : Environment) : AnalyzerCall where
  command := expandReferences env c.command
  flags := ("--format=" ++ c.format) :: c.arguments
  timeoutSeconds := c.timeoutSeconds

/-- How a process ended. -/
inductive ProcessEnd where
  | exited (code : Int)
  | killed
  deriving DecidableEq, Repr

/-- How a call went. -/
inductive Execution where
  /-- No executable file of that name was found. -/
  | notFound
  /-- The process could not be started in the root. -/
  | notStarted
  /-- The time limit passed first. -/
  | timedOut
  /-- The process ended with this output. -/
  | ended (how : ProcessEnd) (stdout stderr : List UInt8)
  deriving DecidableEq, Repr

/-- What a call comes to: the text of its output, or an error. -/
abbrev Outcome := Except AnalyzerError (List Char)

/-- How many bytes of the error output are kept. -/
def stderrLimit : Nat := 512

/-- The text that is kept of an error output. -/
def stderrText (stderr : List UInt8) : String :=
  String.ofList (excerpt (trim (Utf8.decodeLossy stderr)) stderrLimit)

/-- The outcome of a call. -/
def AnalyzerCall.outcome (call : AnalyzerCall) : Execution → Outcome
  | .notFound => .error (.notFound call.command)
  | .notStarted => .error (.notStarted call.command)
  | .timedOut => .error (.timedOut call.timeoutSeconds)
  | .ended (.exited code) stdout stderr =>
    if code = 0 then .ok (Utf8.decodeLossy stdout) else .error (.failed (some code) (stderrText stderr))
  | .ended .killed _ stderr => .error (.failed none (stderrText stderr))

end NoticeServer
