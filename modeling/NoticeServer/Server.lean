import NoticeServer.Orchestrator.Basic
import NoticeServer.Protocol.Message
import NoticeServer.Protocol.Params

/-!
# `NoticeServer.Server` — the answers to messages

The server keeps the orchestrator, the languages of open documents and whether shutdown was asked for.
Each frame changes this state and yields a `Reply`: the frames to write and the roots to scan.
-/

namespace NoticeServer

/-- The state of the server. -/
structure Server where
  orchestrator : Orchestrator
  /-- The languages of open documents by their URIs, each URI once. -/
  openDocuments : List (String × String) := []
  shutdownRequested : Bool := false

/-- What comes of a frame: frames to write, roots to scan, and whether the session is over. -/
structure Reply where
  frames : List Json := []
  scans : List Path := []
  ends : Bool := false

/-- The reply that sends the publications of a reaction. -/
def Reply.ofReaction (r : Reaction) : Reply :=
  { frames := publicationFrames r.publications, scans := r.scans }

namespace Server

/-- The state before the first frame. -/
def fresh (config : ScanConfig) : Server := { orchestrator := .fresh config }

/-! ## Documents -/

/-- Notes the language of a document that was opened. -/
def openDocument (s : Server) (doc : OpenedDocument) : Server :=
  { s with openDocuments := (doc.uri, doc.language) :: s.openDocuments.filter (·.1 ≠ doc.uri) }

/-- Forgets a document that was closed. -/
def closeDocument (s : Server) (uri : String) : Server :=
  { s with openDocuments := s.openDocuments.filter (·.1 ≠ uri) }

/-- The language of a document: the one it was opened with, else the one that its URI implies. -/
def language? (s : Server) (uri : String) : Option String :=
  (s.openDocuments.lookup uri).or (languageOfUri? uri)

/-! ## Messages -/

/-- Takes over an operation of the orchestrator. -/
def perform (s : Server) (operation : Orchestrator × Reaction) : Server × Reply :=
  ({ s with orchestrator := operation.1 }, .ofReaction operation.2)

/-- The state unchanged, with a refusal of the request. -/
def refuse (s : Server) (id : Json) (e : RequestError) : Server × Reply :=
  (s, { frames := [errorResponse id e] })

/-- Starts to monitor the roots that the client names; parameters that cannot be read name none. -/
def start (s : Server) (id params : Json) : Server × Reply :=
  let roots := ((InitializeParams.read? params).getD {}).roots
  let (orchestrator, reaction) := s.orchestrator.addRoots roots
  ({ s with orchestrator }, { frames := [response id initializeResult], scans := reaction.scans })

/-- Runs the command that a request names. -/
def command (s : Server) (id params : Json) : Server × Reply :=
  match readCommand? params with
  | none => s.refuse id .missingCommand
  | some name =>
    if name ≠ checkCommand then s.refuse id (.unknownCommand name)
    else
      let (s, reply) := s.perform s.orchestrator.toggle
      (s, { reply with frames := response id .null :: reply.frames })

/-- Answers a request. -/
def request (s : Server) (id : Json) (method : String) (params : Json) : Server × Reply :=
  if s.shutdownRequested then s.refuse id .shuttingDown
  else if method = "initialize" then s.start id params
  else if method = "shutdown" then
    ({ s with shutdownRequested := true }, { frames := [response id .null] })
  else if method = "workspace/executeCommand" then s.command id params
  else s.refuse id (.unknownMethod method)

/-- The client is ready: scanning is turned on if it is to start active. -/
def ready (s : Server) : Server × Reply :=
  if s.orchestrator.config.startActive && !s.orchestrator.active then s.perform s.orchestrator.toggle
  else (s, {})

/-- A document was saved. -/
def saved (s : Server) (uri : String) : Server × Reply :=
  match s.language? uri with
  | some language => s.perform (s.orchestrator.documentSaved language)
  | none => (s, {})

/-- The folders of the workspace changed: first some are removed, then some are added. -/
def changeFolders (s : Server) (change : FolderChange) : Server × Reply :=
  let (o, removal) := s.orchestrator.removeRoots change.removedRoots
  let (o, addition) := o.addRoots change.addedRoots
  s.perform (o, removal ++ addition)

/-- Takes in a notification. One whose parameters cannot be read has no effect. -/
def notification (s : Server) (method : String) (params : Json) : Server × Reply :=
  if method = "exit" then (s, { ends := true })
  else if method = "initialized" then s.ready
  else if method = "textDocument/didOpen" then
    match OpenedDocument.read? params with
    | some doc => (s.openDocument doc, {})
    | none => (s, {})
  else if method = "textDocument/didClose" then
    match readDocumentUri? params with
    | some uri => (s.closeDocument uri, {})
    | none => (s, {})
  else if method = "textDocument/didSave" then
    match readDocumentUri? params with
    | some uri => s.saved uri
    | none => (s, {})
  else if method = "workspace/didChangeWorkspaceFolders" then
    match FolderChange.read? params with
    | some change => s.changeFolders change
    | none => (s, {})
  else (s, {})

/-! ## Frames and completions -/

/-- Takes in a frame. -/
def handle (s : Server) (frame : Json) : Server × Reply :=
  match Incoming.ofFrame frame with
  | .request id method params => s.request id method params
  | .notification method params => s.notification method params
  | .other => (s, {})

/-- Takes in a finished scan. -/
def complete (s : Server) (c : Completion) : Server × Reply :=
  s.perform (s.orchestrator.apply c)

end Server
end NoticeServer
