import NoticeServer.Toml.Quoted

/-!
# `NoticeServer.Toml.Statement` — the lines of a document

A document is a list of statements: headers of tables, headers of tables in arrays, and assignments to
dotted keys. Nested values are read with a bound on their nesting that the length of the text gives. The value
of an inline table is at first a list of assignments (`RawValue`).
-/

namespace NoticeServer
namespace Toml

/-- A value whose inline tables are still lists of assignments. -/
inductive RawValue where
  | scalar (value : Toml)
  | array (items : List RawValue)
  | inlineTable (entries : List (List String × RawValue))
  deriving Repr, Inhabited

/-- A statement of a document. -/
inductive Statement where
  | table (path : List String)
  | arrayTable (path : List String)
  | assign (path : List String) (value : RawValue)
  deriving Repr

/-! ## Characters -/

/-- Whether all characters may stand in a document: control characters may not, and a carriage return
only before a line feed. -/
def isCleanText : List Char → Bool
  | [] => true
  | '\r' :: '\n' :: text => isCleanText text
  | c :: text => (c = '\t' || c = '\n' || (0x20 ≤ c.toNat && c ≠ '\x7F')) && isCleanText text

/-- The text behind blanks. -/
def skipBlanks (text : List Char) : List Char := text.dropWhile isBlank

/-- The text behind blanks, line breaks and comments; `comment` tells that a comment is open. -/
def skipSpace (comment : Bool) : List Char → List Char
  | [] => []
  | c :: text =>
    if c = '\n' then skipSpace false text
    else if comment then skipSpace true text
    else if isBlank c ∨ c = '\r' then skipSpace false text
    else if c = '#' then skipSpace true text
    else c :: text

/-- The text behind the end of a line, with a comment before it or without; none if something else
stands there. -/
def endLine? (text : List Char) : Option (List Char) :=
  let text := skipBlanks text
  let text := if text.head? = some '#' then text.dropWhile (· ≠ '\n') else text
  match text with
  | [] => some []
  | '\n' :: rest => some rest
  | '\r' :: '\n' :: rest => some rest
  | _ => none

/-! ## Keys -/

/-- Whether a character may stand in a key without quotation marks. -/
def isBareKey (c : Char) : Bool :=
  ('a' ≤ c && c ≤ 'z') || ('A' ≤ c && c ≤ 'Z') || ('0' ≤ c && c ≤ '9') || c = '_' || c = '-'

/-- One part of a dotted key. -/
def readKeyPart? (text : List Char) : Option (String × List Char) :=
  if text.head? = some '"' ∨ text.head? = some '\'' then readLineQuoted? text
  else
    let name := text.takeWhile isBareKey
    if name.isEmpty then none else some (String.ofList name, text.dropWhile isBareKey)

/-- A dotted key, with the blanks before and behind it. -/
def readKey? : (fuel : Nat) → List Char → Option (List String × List Char)
  | 0, _ => none
  | fuel + 1, text =>
    (readKeyPart? (skipBlanks text)).bind fun (part, rest) =>
      match skipBlanks rest with
      | '.' :: rest => (readKey? fuel rest).map fun (parts, rest) => (part :: parts, rest)
      | rest => some ([part], rest)

/-! ## Values -/

/-- Whether a character ends a value without delimiters. -/
def endsScalar (c : Char) : Bool :=
  isBlank c || isBreak c || c = ',' || c = ']' || c = '}' || c = '#' || c = '=' ||
    c = '"' || c = '\'' || c = '[' || c = '{'

/-- A value without delimiters. A date and the time behind it may be one blank apart. -/
def readScalar? (text : List Char) : Option (Toml × List Char) :=
  let word := text.takeWhile fun c => !endsScalar c
  let rest := text.dropWhile fun c => !endsScalar c
  match afterDate? word, rest with
  | some [], ' ' :: behind =>
    let time := behind.takeWhile fun c => !endsScalar c
    if (time.head?.bind (digitValue? 10)).isSome then
      (ofScalar? (word ++ ' ' :: time)).map fun v => (v, behind.dropWhile fun c => !endsScalar c)
    else (ofScalar? word).map fun v => (v, rest)
  | _, _ => (ofScalar? word).map fun v => (v, rest)

mutual

/-- A value and the text behind it. -/
def readValue? : (fuel : Nat) → List Char → Option (RawValue × List Char)
  | 0, _ => none
  | _ + 1, [] => none
  | fuel + 1, c :: text =>
    if c = '[' then (readItems? fuel text).map fun (items, rest) => (.array items, rest)
    else if c = '{' then
      (readEntries? fuel text).map fun (entries, rest) => (.inlineTable entries, rest)
    else if c = '"' ∨ c = '\'' then
      (readQuoted? (c :: text)).map fun (s, rest) => (.scalar (.string s), rest)
    else (readScalar? (c :: text)).map fun (v, rest) => (.scalar v, rest)

/-- The items of an array up to its end. -/
def readItems? : (fuel : Nat) → List Char → Option (List RawValue × List Char)
  | 0, _ => none
  | fuel + 1, text =>
    match skipSpace false text with
    | ']' :: rest => some ([], rest)
    | text =>
      (readValue? fuel text).bind fun (v, rest) =>
        match skipSpace false rest with
        | ',' :: rest => (readItems? fuel rest).map fun (items, rest) => (v :: items, rest)
        | ']' :: rest => some ([v], rest)
        | _ => none

/-- The entries of an inline table up to its end. -/
def readEntries? : (fuel : Nat) → List Char → Option (List (List String × RawValue) × List Char)
  | 0, _ => none
  | fuel + 1, text =>
    match skipSpace false text with
    | '}' :: rest => some ([], rest)
    | text =>
      (readKey? fuel text).bind fun (path, rest) =>
        match rest with
        | '=' :: rest =>
          (readValue? fuel (skipBlanks rest)).bind fun (v, rest) =>
            match skipSpace false rest with
            | ',' :: rest =>
              (readEntries? fuel rest).map fun (entries, rest) => ((path, v) :: entries, rest)
            | '}' :: rest => some ([(path, v)], rest)
            | _ => none
        | _ => none

end

/-! ## Documents -/

/-- One statement up to the end of its line. -/
def readStatement? (fuel : Nat) (text : List Char) : Option (Statement × List Char) :=
  match text with
  | '[' :: '[' :: text =>
    (readKey? fuel text).bind fun (path, rest) =>
      match rest with
      | ']' :: ']' :: rest => (endLine? rest).map fun rest => (.arrayTable path, rest)
      | _ => none
  | '[' :: text =>
    (readKey? fuel text).bind fun (path, rest) =>
      match rest with
      | ']' :: rest => (endLine? rest).map fun rest => (.table path, rest)
      | _ => none
  | text =>
    (readKey? fuel text).bind fun (path, rest) =>
      match rest with
      | '=' :: rest =>
        (readValue? fuel (skipBlanks rest)).bind fun (v, rest) =>
          (endLine? rest).map fun rest => (.assign path v, rest)
      | _ => none

/-- The statements of a text, each beginning on a line of its own. -/
def readStatements? (bound : Nat) : (fuel : Nat) → List Char → Option (List Statement)
  | 0, _ => none
  | fuel + 1, text =>
    match skipSpace false text with
    | [] => some []
    | text =>
      (readStatement? bound text).bind fun (s, rest) =>
        (readStatements? bound fuel rest).map (s :: ·)

/-- The text without a byte order mark. -/
def skipMark : List Char → List Char
  | '\uFEFF' :: text => text
  | text => text

/-- The statements of a document. -/
def statements? (document : List Char) : Option (List Statement) :=
  let text := skipMark document
  if isCleanText text then readStatements? (2 * text.length + 2) (text.length + 1) text else none

end Toml
end NoticeServer
