import NoticeServer.Json.Basic
import NoticeServer.Uri

/-!
# `NoticeServer.Protocol.Params` — parameters of incoming messages

A record of parameters is given as an object, whose unknown keys do not count, or as an array of its
fields in their order; fields at the end of the array may be missing, further elements are an error. A record
is read as a whole or not at all.
-/

namespace NoticeServer

/-! ## Records -/

namespace Record

/-- The raw fields of a record in the order of `names`. -/
def fields? (names : List String) : Json → Option (List (Option Json))
  | .object members => some (names.map fun name => members.lookup name)
  | .array items =>
    if items.length ≤ names.length then
      some (items.map some ++ List.replicate (names.length - items.length) none)
    else none
  | _ => none

/-- A field that has to be there. -/
def required? {α : Type} (read? : Json → Option α) (field : Option Json) : Option α :=
  field.bind read?

/-- A field that may be missing or null. -/
def optional? {α : Type} (read? : Json → Option α) : Option Json → Option (Option α)
  | none => some none
  | some .null => some none
  | some v => (read? v).map some

/-- A list, all of whose items can be read. -/
def list? {α : Type} (read? : Json → Option α) : Json → Option (List α)
  | .array items => items.mapM read?
  | _ => none

/-- A list field that may be missing. -/
def listOrEmpty? {α : Type} (read? : Json → Option α) : Option Json → Option (List α)
  | none => some []
  | some v => list? read? v

/-- A record with one field that has to be there. -/
def single? {α : Type} (name : String) (read? : Json → Option α) (v : Json) : Option α :=
  match fields? [name] v with
  | some [field] => required? read? field
  | _ => none

end Record

open Record

/-! ## Workspace folders -/

/-- A folder of the workspace, by its URI. -/
def readFolder? : Json → Option String := single? "uri" Json.string?

/-- What a client says about its workspace when it starts. -/
structure InitializeParams where
  folders : Option (List String) := none
  rootUri : Option String := none
  rootPath : Option String := none
  deriving DecidableEq, Repr

namespace InitializeParams

/-- The parameters of a message. -/
def read? (v : Json) : Option InitializeParams :=
  match fields? ["workspaceFolders", "rootUri", "rootPath"] v with
  | some [folders, rootUri, rootPath] =>
    (optional? (list? readFolder?) folders).bind fun folders =>
    (optional? Json.string? rootUri).bind fun rootUri =>
    (optional? Json.string? rootPath).map fun rootPath => { folders, rootUri, rootPath }
  | _ => none

/-- An absolute path given as such. -/
def absolute? (path : String) : Option Path :=
  let p := Path.ofString path
  if p.isAbsolute then some p else none

/-- The roots to monitor: the folders if there are any, else the root's URI, else its path. -/
def roots (p : InitializeParams) : List Path :=
  match p.folders with
  | some (uri :: uris) => (uri :: uris).filterMap Uri.toPath?
  | _ => ((p.rootUri.bind Uri.toPath?).or (p.rootPath.bind absolute?)).toList

end InitializeParams

/-- A change of the workspace's folders, by their URIs. -/
structure FolderChange where
  added : List String
  removed : List String
  deriving DecidableEq, Repr

namespace FolderChange

/-- The change itself. -/
def readEvent? (v : Json) : Option FolderChange :=
  match fields? ["added", "removed"] v with
  | some [added, removed] =>
    (listOrEmpty? readFolder? added).bind fun added =>
    (listOrEmpty? readFolder? removed).map fun removed => { added, removed }
  | _ => none

/-- The parameters of a message. -/
def read? : Json → Option FolderChange := single? "event" readEvent?

/-- The roots of the added folders. -/
def addedRoots (c : FolderChange) : List Path := c.added.filterMap Uri.toPath?

/-- The roots of the removed folders. -/
def removedRoots (c : FolderChange) : List Path := c.removed.filterMap Uri.toPath?

end FolderChange

/-! ## Documents and commands -/

/-- A document that was opened. -/
structure OpenedDocument where
  uri : String
  language : String
  deriving DecidableEq, Repr

namespace OpenedDocument

/-- The document itself. -/
def readItem? (v : Json) : Option OpenedDocument :=
  match fields? ["uri", "languageId"] v with
  | some [uri, language] =>
    (required? Json.string? uri).bind fun uri =>
    (required? Json.string? language).map fun language => { uri, language }
  | _ => none

/-- The parameters of a message. -/
def read? : Json → Option OpenedDocument := single? "textDocument" readItem?

end OpenedDocument

/-- The URI of the document that a message is about. -/
def readDocumentUri? : Json → Option String :=
  single? "textDocument" (single? "uri" Json.string?)

/-- The name of the command that a message asks for. -/
def readCommand? : Json → Option String := single? "command" Json.string?

/-! ## Languages -/

/-- The language of a file by its extension. -/
def languageOfExtension? (extension : List UInt8) : Option String :=
  if extension = Utf8.encode ['g', 'o'] then some "go"
  else if extension = Utf8.encode ['r', 's'] then some "rust"
  else if extension = Utf8.encode ['c'] ∨ extension = Utf8.encode ['h'] then some "c"
  else none

/-- The language that the URI of a document implies. -/
def languageOfUri? (uri : String) : Option String :=
  ((Uri.toPath? uri).bind Path.extension?).bind languageOfExtension?

end NoticeServer
