import NoticeServer.Log.Filter
import NoticeServer.Session

/-!
# `NoticeServer.CommandLine` — the program from its arguments to its end

The program either tells its version or serves one session over its standard input and output. Since
the output carries the session, the log goes to the first of two files that can be written (`LogChoice`). All
that is known when the session begins is a `Launch`; from then on `serveAll` runs the session over a whole
input and `Session.records` says what the log holds of each event.
-/

namespace NoticeServer

/-! ## Arguments -/

/-- Whether the arguments ask for the version; all other arguments are ignored. -/
def asksVersion (arguments : List String) : Bool :=
  arguments.any fun argument => argument == "--version" || argument == "-V"

/-- The answer to the question for the version. -/
def versionLine : String := "nudge-ls 0.1.0\n"

/-! ## The log file -/

/-- The folder of logs and the log's name, inside a folder of settings. -/
def logName : Path := .ofString "logs/nudge-ls.log"

/-- Where the log may go: beside the settings, else in the current folder. -/
def logCandidates (config : Path) : List Path :=
  (config.parent?.map fun folder => folder.join logName).toList ++ [settingsFolder.join logName]

/-- The file that was chosen for the log, and those before it that cannot be written. -/
structure LogChoice where
  chosen? : Option Path
  refused : List Path
  deriving DecidableEq, Repr

/-- The first file that can be written. -/
def LogChoice.among (writable : Path → Bool) (candidates : List Path) : LogChoice where
  chosen? := candidates.find? writable
  refused := candidates.takeWhile fun path => !writable path

/-- The first records of a log. -/
def LogChoice.records (c : LogChoice) : List LogRecord :=
  match c.chosen? with
  | none => []
  | some path =>
    let place (p : Path) : String := String.ofList p.display
    ⟨.info, LogRecord.programTarget, ["path"], s!"Logging initialized path={place path}"⟩ ::
      c.refused.map fun refused =>
        ⟨.warn, LogRecord.programTarget, [], s!"Cannot write log file {place refused}"⟩

/-! ## The start -/

/-- What is known when the session begins: where the log goes, what it holds so far, and the settings. -/
structure Launch where
  log? : Option Path
  records : List LogRecord
  config : Config
  deriving DecidableEq, Repr

/-- The record that tells of the start. -/
def startRecord (config : Config) : LogRecord :=
  let languages := String.intercalate "," config.scan.languages
  ⟨.info, LogRecord.programTarget, ["command", "languages"],
    s!"Starting nudge-ls command={config.analyzer.command} languages={languages}"⟩

/-- The start, for a file of settings and a test that tells which files can be written. -/
def launch (configFile : Path) (state : FileState) (writable : Path → Bool) : Launch :=
  let choice := LogChoice.among writable (logCandidates configFile)
  let config := Config.load configFile state
  { log? := choice.chosen?
    records := choice.records ++ LogRecord.ofConfig configFile state ++ [startRecord config]
    config }

/-! ## The session -/

namespace Session

/-- What a result of the reader tells. -/
def resultRecords (s : Session) (result : FrameRead) : List LogRecord :=
  if s.ended?.isSome then []
  else
    match result with
    | .frame v => s.server.frameRecords v
    | .error e => [⟨.warn, LogRecord.serverTarget, [], s!"Client read error: {e.message}"⟩]
    | .finished => [⟨.info, LogRecord.serverTarget, [], "Client closed input"⟩]

/-- What results of the reader tell, one after the other. -/
def resultsRecords (s : Session) : List FrameRead → List LogRecord
  | [] => []
  | result :: results => s.resultRecords result ++ (s.receive result).1.resultsRecords results

/-- What an event tells. -/
def records (s : Session) : SessionEvent → List LogRecord
  | .deliver bytes => s.resultsRecords (s.reader.run bytes).2
  | .close => s.resultRecords s.reader.finish
  | .breakOutput => []
  | .finish number outcome =>
    match s.invocations.finish? number with
    | some (root, _) => s.server.orchestrator.completionRecords ⟨root, outcome⟩
    | none => []

end Session

/-- What a session over a whole input writes, and what the log holds of it. -/
structure Transcript where
  frames : List Json
  records : List LogRecord

/-- A session over a whole input. -/
def serveAll (config : ScanConfig) (input : List UInt8) : Transcript :=
  let fresh := Session.fresh config
  let (served, output) := fresh.step (.deliver input)
  { frames := output.frames ++ (served.step .close).2.frames
    records := fresh.records (.deliver input) ++ served.records .close }

end NoticeServer
