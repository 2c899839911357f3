import NoticeServer.CommandLine
import NoticeServer.Frame.Writer

/-!
# `NoticeServer.Main` — the program

Everything that touches the outside is here: arguments, environment, files and the two streams. What is
done with them is decided elsewhere. Analyzers cannot be started from here, so every scan that a session
starts fails at once.
-/

namespace NoticeServer
namespace Console

/-- The name of a path for the file functions. -/
def nameOf (path : Path) : String := String.ofList path.display

/-- What stands at a path. A file that cannot be read counts as a folder. -/
def stateOf (path : Path) : IO FileState := do
  try
    let content ← IO.FS.readBinFile (nameOf path)
    return .file content.toList
  catch
    | .noFileOrDirectory .. => return .missing
    | _ => return .folder

/-- Makes sure that a file can be written at its end; tells whether it can. -/
def prepare (path : Path) : IO Bool := do
  try
    match path.parent? with
    | some folder => IO.FS.createDirAll (nameOf folder)
    | none => pure ()
    let _ ← IO.FS.Handle.mk (nameOf path) .append
    return true
  catch _ => return false

/-- The first file that can be written at its end. -/
def firstWritable : List Path → IO (Option Path)
  | [] => return none
  | path :: paths => do if ← prepare path then return some path else firstWritable paths

/-- Puts the records that a filter lets pass at the end of the log. -/
def append (filter : LogFilter) (log? : Option Path) (records : List LogRecord) : IO Unit := do
  match log? with
  | none => return
  | some path =>
    let handle ← IO.FS.Handle.mk (nameOf path) .append
    for record in records do
      if filter.passes record then handle.putStr (record.line ++ "\n")

/-- Where records go. -/
structure Journal where
  filter : LogFilter
  log? : Option Path

/-- Puts down records. -/
def Journal.write (j : Journal) (records : List LogRecord) : IO Unit := append j.filter j.log? records

/-- Writes frames; tells whether that was possible. -/
def writeFrames (frames : List Json) : IO Bool := do
  try
    let stdout ← IO.getStdout
    stdout.write (ByteArray.mk (Frame.writeAll frames).toArray)
    stdout.flush
    return true
  catch _ => return false

/-- Takes in an event: puts down its records and writes its frames. -/
def handle (j : Journal) (s : Session) (event : SessionEvent) : IO Session := do
  let (next, output) := s.step event
  j.write (s.records event)
  if ← writeFrames output.frames then return next
  else return { next with ended? := some .writeFailed }

/-- Fails the scans that are running, from a number on. -/
def failScans (j : Journal) (call : AnalyzerCall) (s : Session) (number : Nat) : (count : Nat) → IO Session
  | 0 => return s
  | count + 1 => do
    let s ← handle j s (.finish number (call.outcome .notStarted))
    failScans j call s (number + 1) count

/-- The greatest number of bytes that are read at once. -/
def maxChunk : Nat := 65536

/-- Serves until the session has ended. `failed` scans have been failed so far. -/
partial def serve (j : Journal) (call : AnalyzerCall) (s : Session) (failed : Nat) : IO UInt32 := do
  match s.ended? with
  | some .done => return 0
  | some .writeFailed =>
    j.write [⟨.error, LogRecord.programTarget, [], s!"Server stopped: {SessionEnd.writeMessage}"⟩]
    return 1
  | none =>
    let chunk ← (← IO.getStdin).read (USize.ofNat (min s.reader.wanted maxChunk))
    let s ← handle j s (if chunk.isEmpty then .close else .deliver chunk.toList)
    let started := s.invocations.calls.length
    let s ← failScans j call s failed (started - failed)
    serve j call s started

/-- The environment as the variables of one call need it. -/
def environmentFor (names : List String) : IO Environment := do
  let values ← names.mapM fun name => return (name, ← IO.getEnv name)
  return fun name => (values.lookup name).join

/-- Serves one session. -/
def start : IO UInt32 := do
  let home := Path.ofString ((← IO.getEnv "HOME").getD "")
  let explicit? := (← IO.getEnv configVariable).map fun value => Utf8.encode value.toList
  let configFile := configPath home explicit?
  let state ← stateOf configFile
  let log? ← firstWritable (logCandidates configFile)
  let begun := launch configFile state fun path => log? = some path
  let filter := LogFilter.ofSetting (← IO.getEnv LogFilter.variableName)
  let j : Journal := { filter, log? }
  j.write begun.records
  let env ← environmentFor (referenceNames begun.config.analyzer.command)
  serve j (begun.config.analyzer.call env) (Session.fresh begun.config.scan) 0

end Console
end NoticeServer

open NoticeServer in
/-- The program: the version, or a session. -/
def main (arguments : List String) : IO UInt32 := do
  if asksVersion arguments then
    (← IO.getStdout).putStr versionLine
    return 0
  else Console.start
