import NoticeServer.Json.Number

/-!
# `NoticeServer.Json.Token` — the tokens of a JSON text

A machine that takes one character at a time and yields tokens. Words and numbers end where a character
stands that cannot belong to them; that character is then read on its own. So the state (`Lexing`) holds all
that one character has to know of those before it.
-/

namespace NoticeServer
namespace Json

open Text

/-- A token of a JSON text. -/
inductive Token where
  | openArray
  | closeArray
  | openObject
  | closeObject
  | colon
  | comma
  | string (value : String)
  | scalar (value : Json)
  deriving Repr, BEq

/-- The hexadecimal value of a character. -/
def hexValue? (c : Char) : Option Nat :=
  if '0' ≤ c ∧ c ≤ '9' then some (c.toNat - '0'.toNat)
  else if 'a' ≤ c ∧ c ≤ 'f' then some (c.toNat - 'a'.toNat + 10)
  else if 'A' ≤ c ∧ c ≤ 'F' then some (c.toNat - 'A'.toNat + 10)
  else none

/-- Where in a text the machine stands. Collected characters are in reverse; `high` is the first half of
a surrogate pair that waits for its second. -/
inductive Lexing where
  | between
  | word (letters : List Char)
  | number (characters : List Char)
  | string (characters : List Char)
  | escape (characters : List Char)
  | code (characters : List Char) (high : Option Nat) (missing : Nat) (value : Nat)
  | second (characters : List Char) (high : Nat)
  | secondCode (characters : List Char) (high : Nat)
  deriving Repr, DecidableEq

/-- The token of a word. -/
def Token.ofWord? (word : List Char) : Option Token :=
  if word = ['n', 'u', 'l', 'l'] then some (.scalar .null)
  else if word = ['t', 'r', 'u', 'e'] then some (.scalar (.bool true))
  else if word = ['f', 'a', 'l', 's', 'e'] then some (.scalar (.bool false))
  else none

/-- The character that a short escape stands for. -/
def unescape? (c : Char) : Option Char :=
  match c with
  | '"' => some '"'
  | '\\' => some '\\'
  | '/' => some '/'
  | 'b' => some '\x08'
  | 'f' => some '\x0C'
  | 'n' => some '\n'
  | 'r' => some '\r'
  | 't' => some '\t'
  | _ => none

/-- Whether a character belongs to a word. -/
def isLetter (c : Char) : Bool := 'a' ≤ c && c ≤ 'z'

/-- Whether a character belongs to a number. -/
def isNumeric (c : Char) : Bool :=
  isAsciiDigit c || c = '-' || c = '+' || c = '.' || c = 'e' || c = 'E'

/-- Whether a character may stand between tokens without meaning. -/
def isSpace (c : Char) : Bool :=
  c = ' ' || c = '\n' || c = '\r' || c = '\t'

namespace Lexing

/-- The end of four hexadecimal digits: a character, the first half of a pair, or a misplaced half. -/
def endCode? (characters : List Char) (high : Option Nat) (value : Nat) : Option Lexing :=
  match high with
  | none =>
    if 0xD800 ≤ value ∧ value ≤ 0xDBFF then some (.second characters value)
    else if 0xDC00 ≤ value ∧ value ≤ 0xDFFF then none
    else some (.string (Char.ofNat value :: characters))
  | some first =>
    if 0xDC00 ≤ value ∧ value ≤ 0xDFFF then
      some (.string (Char.ofNat (0x10000 + (first - 0xD800) * 0x400 + (value - 0xDC00)) :: characters))
    else none

/-- A character between tokens. -/
def start? (c : Char) : Option (Lexing × List Token) :=
  if isSpace c then some (.between, [])
  else if c = '"' then some (.string [], [])
  else if isLetter c then some (.word [c], [])
  else if isNumeric c then some (.number [c], [])
  else if c = '[' then some (.between, [.openArray])
  else if c = ']' then some (.between, [.closeArray])
  else if c = '{' then some (.between, [.openObject])
  else if c = '}' then some (.between, [.closeObject])
  else if c = ':' then some (.between, [.colon])
  else if c = ',' then some (.between, [.comma])
  else none

/-- The token that is complete if no further character belongs to it. -/
def finish? : Lexing → Option (List Token)
  | .between => some []
  | .word letters => (Token.ofWord? letters.reverse).map ([·])
  | .number characters => (readNumber? characters.reverse).map fun v => [.scalar v]
  | _ => none

/-- Ends a word or number and reads `c` afresh. -/
def restart? (state : Lexing) (c : Char) : Option (Lexing × List Token) :=
  state.finish?.bind fun ended => (start? c).map fun (next, found) => (next, ended ++ found)

/-- One character: the next state and the tokens it completes. -/
def step? (state : Lexing) (c : Char) : Option (Lexing × List Token) :=
  match state with
  | .between => start? c
  | .word letters => if isLetter c then some (.word (c :: letters), []) else restart? state c
  | .number characters =>
    if isNumeric c then some (.number (c :: characters), []) else restart? state c
  | .string characters =>
    if c = '"' then some (.between, [.string (String.ofList characters.reverse)])
    else if c = '\\' then some (.escape characters, [])
    else if c.toNat < 0x20 then none
    else some (.string (c :: characters), [])
  | .escape characters =>
    if c = 'u' then some (.code characters none 4 0, [])
    else (unescape? c).map fun d => (.string (d :: characters), [])
  | .code characters high missing value =>
    (hexValue? c).bind fun d =>
      let value := 16 * value + d
      if missing = 1 then (endCode? characters high value).map fun next => (next, [])
      else some (.code characters high (missing - 1) value, [])
  | .second characters high => if c = '\\' then some (.secondCode characters high, []) else none
  | .secondCode characters high =>
    if c = 'u' then some (.code characters (some high) 4 0, []) else none

/-- One character, with the tokens found so far in reverse. -/
def feed? (state : Lexing × List Token) (c : Char) : Option (Lexing × List Token) :=
  (state.1.step? c).map fun (next, found) => (next, found.reverse ++ state.2)

end Lexing

/-- The tokens of a text. -/
def tokens? (text : List Char) : Option (List Token) :=
  (text.foldlM Lexing.feed? (.between, [])).bind fun (state, found) =>
    state.finish?.map fun ended => found.reverse ++ ended

end Json
end NoticeServer
