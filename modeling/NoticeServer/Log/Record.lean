import NoticeServer.Config.Location
import NoticeServer.Server

/-!
# `NoticeServer.Log.Record` — what is worth a line in the log

A record has a level, the name of the part of the program that made it, the names of its fields and a
text. Most records of the server follow from how a step changed the state of scanning, so they are computed
from the states before and after it and the server itself writes none.
-/

namespace NoticeServer

/-- How important a record is. -/
inductive LogLevel where
  | error
  | warn
  | info
  | debug
  | trace
  deriving DecidableEq, Repr

/-- How talkative a log has to be to hold records of this level. -/
def LogLevel.rank : LogLevel → Nat
  | error => 1
  | warn => 2
  | info => 3
  | debug => 4
  | trace => 5

/-- The word for a level. -/
def LogLevel.word : LogLevel → String
  | error => "ERROR"
  | warn => "WARN"
  | info => "INFO"
  | debug => "DEBUG"
  | trace => "TRACE"

/-- A line of the log. `fields` are the names of what it tells beside its text. -/
structure LogRecord where
  level : LogLevel
  target : String
  fields : List String := []
  text : String
  deriving DecidableEq, Repr

namespace LogRecord

/-- The line of a record. -/
def line (r : LogRecord) : String := s!"{r.level.word} {r.target}: {r.text}"

/-- The name of the field that holds the text. -/
def textField : String := "message"

/-- Whether a record has a field of this name. -/
def hasField (r : LogRecord) (name : String) : Bool := name == textField || r.fields.contains name

/-! ## Parts of the program -/

/-- The part that starts the program. -/
def programTarget : String := "nudge_ls"

/-- The part that reads the settings. -/
def configTarget : String := "nudge_config"

/-- The part that answers the client. -/
def serverTarget : String := "nudge_lsp::server"

/-- The part that keeps the state of scanning. -/
def scanTarget : String := "nudge_lsp::orchestrator"

/-! ## Settings -/

/-- How the settings were found. Nothing is told of a file that is not there. -/
def ofConfig (path : Path) (state : FileState) : List LogRecord :=
  let place := String.ofList path.display
  match Config.loadFrom path state with
  | .ok (some _) => [⟨.info, configTarget, ["path"], s!"Loaded config path={place}"⟩]
  | .ok none => []
  | .error e => [⟨.warn, configTarget, [], s!"Ignoring config at {place}: {e.message}"⟩]

end LogRecord

open LogRecord

/-! ## Scanning -/

/-- A record about a root. -/
def LogRecord.ofRoot (level : LogLevel) (text : String) (root : Path) : LogRecord :=
  ⟨level, scanTarget, ["root"], s!"{text} root={String.ofList root.display}"⟩

namespace Orchestrator

/-- What happened between two states, and the scans that were started then. -/
def changeRecords (before after : Orchestrator) (scans : List Path) : List LogRecord :=
  let lost := before.roots.filter fun root => !after.monitors root
  let gained := after.roots.filter fun root => !before.monitors root
  let switched : List LogRecord :=
    if before.active = after.active then []
    else if after.active then
      [⟨.info, scanTarget, ["roots"], s!"Scanning activated roots={after.roots.length}"⟩]
    else [⟨.info, scanTarget, [], "Scanning deactivated"⟩]
  lost.map (ofRoot .info "No longer monitoring root") ++
    gained.map (ofRoot .info "Monitoring root") ++ switched ++
    scans.map (ofRoot .debug "Scan started")

/-- What the end of a scan tells. -/
def completionRecords (o : Orchestrator) (c : Completion) : List LogRecord :=
  match c.outcome with
  | .error e =>
    [ofRoot .warn s!"Scan failed, keeping previous diagnostics: {e.message}" c.root]
  | .ok output =>
    if !o.active then [ofRoot .debug "Discarding scan finished after deactivation" c.root]
    else if !o.monitors c.root then [ofRoot .debug "Discarding scan of unmonitored root" c.root]
    else
      let set := o.scanned c.root output
      { ofRoot .info "Scan complete" c.root with fields := ["root", "files", "diagnostics"] } ::
        set.files.flatMap fun file => file.2.map fun d =>
          ⟨.trace, scanTarget, [], String.ofList (d.display file.1)⟩

end Orchestrator

/-! ## Messages -/

namespace Server

/-- What a request tells, beside the change of state. -/
def requestRecords (s : Server) (method : String) : List LogRecord :=
  if s.shutdownRequested ∨ method ∈ ["initialize", "shutdown", "workspace/executeCommand"] then []
  else [⟨.debug, serverTarget, [], s!"Unhandled request: {method}"⟩]

/-- What a save of a document tells. -/
def savedRecords (s : Server) (uri : String) : List LogRecord :=
  match s.language? uri with
  | none => [⟨.trace, serverTarget, ["uri"], "Save of document with unknown language"⟩]
  | some language =>
    if s.orchestrator.active && !s.orchestrator.config.watches language then
      [⟨.trace, scanTarget, ["language_id"], "Ignoring save for unwatched language"⟩]
    else []

/-- The methods of the notifications that the server knows. -/
def knownNotifications : List String :=
  ["exit", "initialized", "textDocument/didOpen", "textDocument/didClose", "textDocument/didSave",
    "workspace/didChangeWorkspaceFolders"]

/-- What a notification tells, beside the change of state. -/
def notificationRecords (s : Server) (method : String) (params : Json) : List LogRecord :=
  if method = "exit" then
    if s.shutdownRequested then [] else [⟨.warn, serverTarget, [], "Client sent exit without shutdown"⟩]
  else if method = "textDocument/didSave" then
    match readDocumentUri? params with
    | some uri => s.savedRecords uri
    | none => []
  else if method ∈ knownNotifications then []
  else [⟨.trace, serverTarget, [], s!"Ignoring notification: {method}"⟩]

/-- Whether a frame is a response to a request. -/
def isResponse (frame : Json) : Bool := (frame.member? "id").isSome

/-- What a message tells, beside the change of state. -/
def messageRecords (s : Server) (frame : Json) : List LogRecord :=
  match Incoming.ofFrame frame with
  | .request _ method _ => s.requestRecords method
  | .notification method params => s.notificationRecords method params
  | .other =>
    if isResponse frame then [] else [⟨.trace, serverTarget, [], "Ignoring malformed JSON-RPC frame"⟩]

/-- The change of folders in a frame, if it is one. -/
def folderChange? (frame : Json) : Option FolderChange :=
  match Incoming.ofFrame frame with
  | .notification method params =>
    if method = "workspace/didChangeWorkspaceFolders" then FolderChange.read? params else none
  | _ => none

/-- What a frame tells. A folder that is removed and added again is told twice. -/
def frameRecords (s : Server) (frame : Json) : List LogRecord :=
  let (after, reply) := s.handle frame
  s.messageRecords frame ++
    match folderChange? frame with
    | some change =>
      let between := (s.orchestrator.removeRoots change.removedRoots).1
      s.orchestrator.changeRecords between [] ++
        between.changeRecords after.orchestrator reply.scans
    | none => s.orchestrator.changeRecords after.orchestrator reply.scans

end Server
end NoticeServer
