import NoticeServer.Path
import NoticeServer.Uri.Host

/-!
# `NoticeServer.Uri` — URIs and the paths that they denote

A URI denotes a path (`Uri.toPath?`) if it has a hierarchical path and its host is empty or `localhost`; a
`file` URI may have another host in front of a drive letter. Reading follows the URL standard: blanks around
the URI and line breaks inside it do not count, a backslash is a separator in the schemes that the standard
lists, and the segments `.` and `..`, however spelled, are resolved. A segment that is a drive letter is never
removed. The way back (`Uri.ofPath?`) writes a `file` URI without a host.
-/

namespace NoticeServer

open Text

/-- How the rest of a URI is read: as a file, as in one of the schemes of the web, or in general. -/
inductive SchemeKind where
  | file
  | web
  | general
  deriving DecidableEq, Repr

namespace Uri

/-! ## Schemes -/

/-- Whether a character is an ASCII letter. -/
def isLetter (c : Char) : Bool := ('a' ≤ c && c ≤ 'z') || ('A' ≤ c && c ≤ 'Z')

/-- Whether a character may stand in a scheme behind its first letter. -/
def isSchemeCharacter (c : Char) : Bool :=
  isLetter c || ('0' ≤ c && c ≤ '9') || c = '+' || c = '-' || c = '.'

/-- The schemes of the web. -/
def webSchemes : List String := ["http", "https", "ws", "wss", "ftp"]

/-- The kind of a scheme in lower case. -/
def SchemeKind.ofName (name : String) : SchemeKind :=
  if name = "file" then .file else if webSchemes.contains name then .web else .general

/-- A URI without the blanks around it, and without tabs and line breaks. -/
def clean (uri : List Char) : List Char :=
  let outer (c : Char) : Bool := c.toNat ≤ 0x20
  let inner := ((uri.dropWhile outer).reverse.dropWhile outer).reverse
  inner.filter fun c => c ≠ '\t' ∧ c ≠ '\n' ∧ c ≠ '\r'

/-- The scheme of a clean URI, and what follows its colon. -/
def scheme? (uri : List Char) : Option (SchemeKind × List Char) :=
  let name := uri.takeWhile isSchemeCharacter
  match uri.dropWhile isSchemeCharacter with
  | ':' :: rest =>
    if (name.head?.map isLetter).getD false then
      some (SchemeKind.ofName (String.ofList (name.map Char.toLower)), rest)
    else none
  | _ => none

/-! ## Hosts -/

/-- Whether a character separates segments. -/
def isSeparator (kind : SchemeKind) (c : Char) : Bool := c = '/' || (kind ≠ .general && c = '\\')

/-- Whether a character ends the path. -/
def endsPath (c : Char) : Bool := c = '?' || c = '#'

/-- Whether a character ends the authority. -/
def endsAuthority (kind : SchemeKind) (c : Char) : Bool := isSeparator kind c || endsPath c

/-- Whether two characters are a drive letter, as in `C:` or `C|`. -/
def isDrive (segment : List Char) : Bool :=
  match segment with
  | [letter, mark] => isLetter letter && (mark = ':' || mark = '|')
  | _ => false

/-- Whether a port can be used: nothing, or a number of 16 bits. -/
def isPort (port : List Char) : Bool :=
  port.isEmpty || (readBounded? 65535 port).isSome

/-- The characters of an authority behind its last `@`. -/
def afterUser (authority : List Char) : List Char :=
  (authority.reverse.takeWhile (· ≠ '@')).reverse

/-- Whether an authority names the local host or no host, with a usable port. -/
def isLocalAuthority (kind : SchemeKind) (authority : List Char) : Bool :=
  let place := afterUser authority
  let host := place.takeWhile (· ≠ ':')
  let port := (place.dropWhile (· ≠ ':')).tail
  if host.isEmpty then kind = .general && authority.isEmpty
  else isPort port && (if kind = .general then host = localHost else isLocalHost host)

/-! ## Paths -/

/-- Whether a segment stands for the current folder. -/
def isHere (segment : List Char) : Bool :=
  [".", "%2e"].contains (String.ofList (segment.map Char.toLower))

/-- Whether a segment stands for the parent folder. -/
def isUp (segment : List Char) : Bool :=
  ["..", ".%2e", "%2e.", "%2e%2e"].contains (String.ofList (segment.map Char.toLower))

/-- One folder up: the last of the segments (in reverse) goes, unless it is a drive letter. -/
def leave : List (List Char) → List (List Char)
  | [] => []
  | segment :: above => if isDrive segment then segment :: above else above

/-- A segment below others as it is kept: right below the root of a `file` URI, a drive letter is written
with a colon. -/
def kept (kind : SchemeKind) (above : List (List Char)) (segment : List Char) : List Char :=
  if kind = .file && above.isEmpty && isDrive segment then segment.take 1 ++ [':'] else segment

/-- Resolves `.` and `..`. The segments so far are in reverse; where the last segment stands for a
folder, an empty one is put. -/
def resolve (kind : SchemeKind) (above : List (List Char)) : List (List Char) → List (List Char)
  | [] => above.reverse
  | [last] =>
    if isUp last then ([] :: leave above).reverse
    else if isHere last then ([] :: above).reverse
    else (kept kind above last :: above).reverse
  | segment :: next :: segments =>
    if isUp segment then resolve kind (leave above) (next :: segments)
    else if isHere segment then resolve kind above (next :: segments)
    else resolve kind (kept kind above segment :: above) (next :: segments)

/-- The segments of a file's path without the empty ones that lead it. -/
def dropLeadingEmpty (segments : List (List Char)) : List (List Char) :=
  match segments.dropWhile List.isEmpty with
  | [] => [[]]
  | rest => rest

/-- The resolved segments of a path, given the text behind its first separator. -/
def resolvedSegments (kind : SchemeKind) (text : List Char) : List (List Char) :=
  resolve kind [] (splitFrom (isSeparator kind) [] (text.takeWhile fun c => !endsPath c))

/-- The segments that make the path. -/
def segments (kind : SchemeKind) (text : List Char) : List (List Char) :=
  let resolved := resolvedSegments kind text
  if kind = .file then dropLeadingEmpty resolved else resolved

/-- Whether a path has a drive letter right below its root. -/
def startsWithDrive (text : List Char) : Bool :=
  ((resolvedSegments .file text).head?.map isDrive).getD false

/-- Whether the bytes end in a letter and the mark of a drive. -/
def endsInDrive (bytes : List UInt8) : Bool :=
  match bytes.reverse with
  | mark :: letter :: _ :: _ => (mark = 0x3A || mark = 0x7C) && isLetter (Char.ofNat letter.toNat)
  | _ => false

/-- The path of resolved segments. A drive letter at the end is a folder. -/
def pathOfSegments (segments : List (List Char)) : Path :=
  let bytes := segments.flatMap fun s => Path.separator :: Percent.decode (Utf8.encode s)
  ⟨if endsInDrive bytes then bytes ++ [Path.separator] else bytes⟩

/-! ## The text behind the scheme -/

/-- A text without one separator at its start. -/
def skipSeparator (kind : SchemeKind) : List Char → List Char
  | c :: text => if isSeparator kind c then text else c :: text
  | [] => []

/-- The path of a `file` URI, as the text behind its first separator. Behind no host or the local one it keeps
this separator, too, which counts as one more empty segment. Another host does not count if the path starts
with a drive letter; else there is no path. -/
def filePath? (text : List Char) : Option (List Char) :=
  match text with
  | a :: b :: rest =>
    if isSeparator .file a && isSeparator .file b then
      let host := rest.takeWhile fun c => !endsAuthority .file c
      let path := rest.dropWhile fun c => !endsAuthority .file c
      if isDrive host then some rest
      else if host.isEmpty || isLocalHost host then some path
      else if isHost host && startsWithDrive (skipSeparator .file path) then
        some (skipSeparator .file path)
      else none
    else some (skipSeparator .file text)
  | _ => some (skipSeparator .file text)

/-- The path behind a local authority, as the text behind its first separator. Outside the web it has to
start with a separator. -/
def authorityPath? (kind : SchemeKind) (text : List Char) : Option (List Char) :=
  let authority := text.takeWhile fun c => !endsAuthority kind c
  let rest := text.dropWhile fun c => !endsAuthority kind c
  if !isLocalAuthority kind authority then none
  else if kind = .general && ((rest.head?.map endsPath).getD true) then none
  else some (skipSeparator kind rest)

/-- The path of a URI behind its scheme, as the text behind its first separator. -/
def hierarchicalPath? (kind : SchemeKind) (text : List Char) : Option (List Char) :=
  match kind with
  | .file => filePath? text
  | .web => authorityPath? .web (text.dropWhile (isSeparator .web))
  | .general =>
    match text with
    | '/' :: '/' :: rest => authorityPath? .general rest
    | '/' :: rest => some rest
    | _ => none

/-! ## From URI to path and back -/

/-- The path that a URI denotes. -/
def toPath? (uri : String) : Option Path :=
  (scheme? (clean uri.toList)).bind fun (kind, text) =>
    (hierarchicalPath? kind text).map fun path => pathOfSegments (segments kind path)

/-- Whether a byte of a path stands for itself in a URI: the printable ASCII characters other than
space and `"`, `#`, `%`, `/`, `<`, `>`, `?`, `\`, the grave accent and braces. -/
def isPlain (b : UInt8) : Bool :=
  0x20 < b && b < 0x7F &&
    !([0x22, 0x23, 0x25, 0x2F, 0x3C, 0x3E, 0x3F, 0x5C, 0x60, 0x7B, 0x7D] : List UInt8).contains b

/-- The text of one component in a URI. -/
def componentText : Component → List Char
  | .root => []
  | c => '/' :: Percent.encode isPlain c.bytes

/-- The `file` URI of an absolute path. -/
def ofPath? (p : Path) : Option String :=
  if p.isAbsolute then
    let path := p.components.flatMap componentText
    some (String.ofList ("file://".toList ++ if path.isEmpty then ['/'] else path))
  else none

end Uri
end NoticeServer
