import NoticeServer.Json.Basic
import NoticeServer.Publication
import NoticeServer.Uri

/-!
# `NoticeServer.Protocol.Message` — messages in and out

A frame from the client is a request if it has a `method` and an `id`, a notification if it has a `method`
only, and else no message (`Incoming`). The server writes responses and error responses to requests, and a
notification for each publication, which it can only write if the file is at an absolute path.
-/

namespace NoticeServer

/-! ## Incoming messages -/

/-- What a frame from the client is. Missing parameters count as null. -/
inductive Incoming where
  | request (id : Json) (method : String) (params : Json)
  | notification (method : String) (params : Json)
  /-- A response, or no message at all. -/
  | other
  deriving Repr, BEq

/-- The message of a frame. An `id` of any kind makes a request. -/
def Incoming.ofFrame (frame : Json) : Incoming :=
  match (frame.member? "method").bind Json.string? with
  | none => .other
  | some method =>
    let params := (frame.member? "params").getD .null
    match frame.member? "id" with
    | some id => .request id method params
    | none => .notification method params

/-! ## Answers -/

/-- The command that turns scanning on and off. -/
def checkCommand : String := "nudge.checkWorkspace"

/-- Why a request is refused. -/
inductive RequestError where
  | shuttingDown
  | missingCommand
  | unknownCommand (command : String)
  | unknownMethod (method : String)
  deriving DecidableEq, Repr

namespace RequestError

/-- The number of an error. -/
def code : RequestError → Int
  | shuttingDown => -32600
  | missingCommand => -32602
  | unknownCommand _ => -32602
  | unknownMethod _ => -32601

/-- The wording of an error. -/
def message : RequestError → String
  | shuttingDown => "server is shutting down"
  | missingCommand => "missing command"
  | unknownCommand command => s!"unknown command: {command}"
  | unknownMethod method => s!"Method not found: {method}"

end RequestError

/-- The version that every message carries. -/
def versionMember : String × Json := ("jsonrpc", .string "2.0")

/-- The answer to a request. -/
def response (id result : Json) : Json :=
  .ofMembers [versionMember, ("id", id), ("result", result)]

/-- The refusal of a request. -/
def errorResponse (id : Json) (e : RequestError) : Json :=
  .ofMembers [versionMember, ("id", id),
    ("error", .ofMembers [("code", .int e.code), ("message", .string e.message)])]

/-- The name of the server. -/
def serverName : String := "nudge-ls"

/-- The version of the server. -/
def serverVersion : String := "0.1.0"

/-- What the server can do, told when the client starts. -/
def initializeResult : Json :=
  .ofMembers [
    ("capabilities", .ofMembers [
      ("textDocumentSync", .ofMembers [
        ("openClose", .bool true),
        ("change", .int 0),
        ("save", .ofMembers [("includeText", .bool false)])]),
      ("executeCommandProvider", .ofMembers [("commands", .array [.string checkCommand])]),
      ("workspace", .ofMembers [
        ("workspaceFolders", .ofMembers [
          ("supported", .bool true),
          ("changeNotifications", .bool true)])])]),
    ("serverInfo", .ofMembers [("name", .string serverName), ("version", .string serverVersion)])]

/-! ## Publications -/

/-- A position as the protocol writes it. -/
def Position.toJson (p : Position) : Json :=
  .ofMembers [("line", .nat p.line.toNat), ("character", .nat p.character.toNat)]

/-- A range as the protocol writes it. -/
def Range.toJson (r : Range) : Json :=
  .ofMembers [("start", r.start.toJson), ("end", r.stop.toJson)]

/-- A diagnostic as the protocol writes it. -/
def Diagnostic.toJson (d : Diagnostic) : Json :=
  .ofMembers [
    ("range", d.range.toJson),
    ("severity", .nat Diagnostic.severityLevel),
    ("code", .string Diagnostic.source),
    ("source", .string Diagnostic.source),
    ("message", .string d.message)]

/-- The method of the notification of a publication. -/
def publishMethod : String := "textDocument/publishDiagnostics"

/-- The notification of a publication; none if its path is not absolute. -/
def publicationFrame? (p : Publication) : Option Json :=
  (Uri.ofPath? p.path).map fun uri =>
    .ofMembers [versionMember, ("method", .string publishMethod),
      ("params", .ofMembers [
        ("uri", .string uri),
        ("diagnostics", .array (p.items.map Diagnostic.toJson))])]

/-- The notifications of publications. -/
def publicationFrames (ps : List Publication) : List Json := ps.filterMap publicationFrame?

end NoticeServer
