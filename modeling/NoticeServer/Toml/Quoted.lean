import NoticeServer.Toml.Scalar

/-!
# `NoticeServer.Toml.Quoted` — strings between quotation marks

A string stands between single marks on one line, or between triple marks over several. Between `'`
nothing is escaped; between `"` a backslash begins an escape, and in a string over several lines one at
the end of a line removes the break and the blanks that follow.
-/

namespace NoticeServer
namespace Toml

/-- How a string is quoted. -/
structure QuoteStyle where
  mark : Char
  multiline : Bool
  deriving DecidableEq, Repr

/-- Whether a backslash begins an escape. -/
def QuoteStyle.escapes (q : QuoteStyle) : Bool := q.mark = '"'

/-- Where in a string the reader stands. -/
inductive Quoting where
  | plain
  /-- Behind some marks in a row. -/
  | marks (count : Nat)
  /-- Behind a backslash. -/
  | escape
  /-- In a character code. -/
  | code (missing value : Nat)
  /-- Behind a backslash at the end of a line; `broken` tells that the break has come. -/
  | trimming (broken : Bool)
  deriving DecidableEq, Repr

/-- The character of a short escape. -/
def unescape? (c : Char) : Option Char :=
  match c with
  | 'b' => some '\x08'
  | 't' => some '\t'
  | 'n' => some '\n'
  | 'f' => some '\x0C'
  | 'r' => some '\r'
  | 'e' => some '\x1B'
  | '"' => some '"'
  | '\\' => some '\\'
  | _ => none

/-- The character of a code; surrogates and codes above U+10FFFF have none. -/
def ofCode? (value : Nat) : Option Char :=
  if value < 0xD800 ∨ (0xDFFF < value ∧ value < 0x110000) then some (Char.ofNat value) else none

/-- The number of digits of a code. -/
def codeLength? (c : Char) : Option Nat :=
  if c = 'x' then some 2 else if c = 'u' then some 4 else if c = 'U' then some 8 else none

/-- Whether a character breaks a line; what follows a carriage return has been checked before. -/
def isBreak (c : Char) : Bool := c = '\n' || c = '\r'

/-- Whether a character is a blank inside a line. -/
def isBlank (c : Char) : Bool := c = ' ' || c = '\t'

/-- A character of the content: the next state and the content, in reverse. -/
def content? (q : QuoteStyle) (content : List Char) (c : Char) : Option (Quoting × List Char) :=
  if c = q.mark then some (.marks 1, content)
  else if c = '\\' ∧ q.escapes then some (.escape, content)
  else if isBreak c ∧ ¬ q.multiline then none
  else some (.plain, c :: content)

/-- A character behind a backslash. -/
def escaped? (q : QuoteStyle) (content : List Char) (c : Char) : Option (Quoting × List Char) :=
  match codeLength? c with
  | some length => some (.code length 0, content)
  | none =>
    if q.multiline ∧ isBlank c then some (.trimming false, content)
    else if q.multiline ∧ isBreak c then some (.trimming true, content)
    else (unescape? c).map fun d => (.plain, d :: content)

/-- A character of a code. -/
def coded? (content : List Char) (missing value : Nat) (c : Char) : Option (Quoting × List Char) :=
  (digitValue? 16 c).bind fun d =>
    let value := 16 * value + d
    if missing ≤ 1 then (ofCode? value).map fun e => (.plain, e :: content)
    else some (.code (missing - 1) value, content)

/-- A character behind a backslash that ends its line. -/
def trimmed? (q : QuoteStyle) (content : List Char) (broken : Bool) (c : Char) :
    Option (Quoting × List Char) :=
  if isBlank c then some (.trimming broken, content)
  else if isBreak c then some (.trimming true, content)
  else if broken then content? q content c
  else none

/-- Marks that turned out to be content. -/
def pushMarks (q : QuoteStyle) (count : Nat) (content : List Char) : List Char :=
  List.replicate count q.mark ++ content

/-- How many marks in a row end a string at once: one on a single line, else two of the content and the
three at its end. -/
def QuoteStyle.most (q : QuoteStyle) : Nat := if q.multiline then 5 else 1

/-- How many marks end a string. -/
def QuoteStyle.least (q : QuoteStyle) : Nat := if q.multiline then 3 else 1

/-- Reads on in a string, with the content so far in reverse: the content and the text behind. -/
def quotedFrom? (q : QuoteStyle) (state : Quoting) (content : List Char) :
    List Char → Option (List Char × List Char)
  | [] =>
    match state with
    | .marks count =>
      if q.least ≤ count then some ((pushMarks q (count - q.least) content).reverse, []) else none
    | _ => none
  | c :: text =>
    match state with
    | .plain =>
      (content? q content c).bind fun (next, content) => quotedFrom? q next content text
    | .escape =>
      (escaped? q content c).bind fun (next, content) => quotedFrom? q next content text
    | .code missing value =>
      (coded? content missing value c).bind fun (next, content) => quotedFrom? q next content text
    | .trimming broken =>
      (trimmed? q content broken c).bind fun (next, content) => quotedFrom? q next content text
    | .marks count =>
      if c = q.mark ∧ count < q.most then quotedFrom? q (.marks (count + 1)) content text
      else if q.least ≤ count then
        some ((pushMarks q (count - q.least) content).reverse, c :: text)
      else
        (content? q (pushMarks q count content) c).bind fun (next, content) =>
          quotedFrom? q next content text

/-- A text without one line break at its start. -/
def skipBreak : List Char → List Char
  | '\r' :: '\n' :: text => text
  | '\n' :: text => text
  | text => text

/-- A string on one line: its content and the text behind it. -/
def readLineQuoted? (text : List Char) : Option (String × List Char) :=
  match text with
  | [] => none
  | mark :: text =>
    if mark = '"' ∨ mark = '\'' then
      (quotedFrom? ⟨mark, false⟩ .plain [] text).map fun (s, rest) => (String.ofList s, rest)
    else none

/-- A string: its content and the text behind it. -/
def readQuoted? (text : List Char) : Option (String × List Char) :=
  match text with
  | a :: b :: c :: rest =>
    if (a = '"' ∨ a = '\'') ∧ b = a ∧ c = a then
      (quotedFrom? ⟨a, true⟩ .plain [] (skipBreak rest)).map fun (s, rest) => (String.ofList s, rest)
    else readLineQuoted? text
  | _ => readLineQuoted? text

end Toml
end NoticeServer
