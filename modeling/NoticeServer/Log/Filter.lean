import NoticeServer.Log.Record
import NoticeServer.Text.Blank
import NoticeServer.Text.Digit

/-!
# `NoticeServer.Log.Filter` — which records a log holds

A filter is a list of directives, each with a rank up to which it lets records pass. A directive may be
limited to the parts of the program whose names begin with its target, and to records with a field. Of
the directives that apply to a record the most specific decides; without one the record is dropped.
-/

namespace NoticeServer

open Text

/-! ## Directives -/

/-- A part of a filter. -/
structure LogDirective where
  target? : Option String := none
  field? : Option String := none
  rank : Nat
  deriving DecidableEq, Repr

namespace LogDirective

/-- Whether a directive has a say about a record. -/
def applies (d : LogDirective) (r : LogRecord) : Bool :=
  (d.target?.all fun target => target.toList.isPrefixOf r.target.toList) && d.field?.all r.hasField

/-- The length of the target, counted so that no target comes before every target. -/
def targetWeight (d : LogDirective) : Nat :=
  match d.target? with
  | none => 0
  | some target => target.toList.length + 1

/-- Whether `e` is at least as specific as `d`: its target is longer, or as long and it names a field,
that of later name counting more. -/
def precedes (d e : LogDirective) : Bool :=
  d.targetWeight < e.targetWeight ||
    (d.targetWeight == e.targetWeight &&
      match d.field?, e.field? with
      | none, _ => true
      | some _, none => false
      | some f, some g => f ≤ g)

end LogDirective

/-! ## Filters -/

/-- The directives of a filter. -/
structure LogFilter where
  directives : List LogDirective
  deriving DecidableEq, Repr

namespace LogFilter

/-- The more specific of two directives, the later of equally specific ones. -/
def prefer (best? : Option LogDirective) (d : LogDirective) : Option LogDirective :=
  match best? with
  | some best => if best.precedes d then some d else some best
  | none => some d

/-- The directive that decides about a record. -/
def deciding? (f : LogFilter) (r : LogRecord) : Option LogDirective :=
  (f.directives.filter (·.applies r)).foldl prefer none

/-- Whether a log holds a record. -/
def passes (f : LogFilter) (r : LogRecord) : Bool :=
  (f.deciding? r).any fun d => r.level.rank ≤ d.rank

/-! ## Reading -/

/-- The rank that lets everything pass. -/
def greatestRank : Nat := 5

/-- The words for ranks, from none on. -/
def rankWords : List String := ["off", "error", "warn", "info", "debug", "trace"]

/-- A rank as a word in upper or lower case, or as a numeral with an optional plus sign. -/
def readRank? (text : List Char) : Option Nat :=
  (readBounded? greatestRank (if text.head? = some '+' then text.tail else text)).or
    (rankWords.findIdx? fun word => word.toList == text.map Char.toLower)

/-- A rank behind an equals sign; nothing there lets everything pass. -/
def readLimit? (text : List Char) : Option Nat :=
  if text.isEmpty then some greatestRank else readRank? text

/-- What stands behind the bracket that closes a span. -/
def readSpanEnd? : List Char → Option Nat
  | [] => some greatestRank
  | '=' :: text => readLimit? text
  | _ => none

/-- Whether a directive may begin with a character. All characters beyond ASCII are taken to be
letters. -/
def begins (c : Char) : Bool := c.isAlphanum || c = '-' || c = ':' || c = '_' || 0x80 ≤ c.toNat

/-- What stands behind the bracket that opens a span. A span, and a field with a value, restrict a
directive to records inside spans, of which there are none, so such a directive is left out. -/
def readSpan? (target? : Option String) (text : List Char) : Option (List LogDirective) :=
  match text.dropWhile fun c => c ≠ ']' ∧ c ≠ '\x7b' with
  | ']' :: rest => (readSpanEnd? rest).map fun _ => []
  | '\x7b' :: inner =>
    let span := text.takeWhile fun c => c ≠ '\x7b'
    let field := inner.takeWhile (· ≠ '\x7d')
    match inner.dropWhile (· ≠ '\x7d') with
    | '\x7d' :: ']' :: rest =>
      if field.isEmpty then none
      else
        (readSpanEnd? rest).map fun rank =>
          if span.isEmpty ∧ '=' ∉ field then
            [{ target?, field? := some (String.ofList field), rank }]
          else []
    | _ => none
  | _ => none

/-- One directive: a rank, a target, or a target with a span, a rank, or both. Blanks at the ends make a
target that no part of the program has. -/
def readDirective? (text : List Char) : Option (List LogDirective) :=
  let core := trim text
  if !core.head?.any fun c => begins c || c = '[' then none
  else
    let target := core.takeWhile fun c => c ≠ '=' ∧ c ≠ '['
    let target? := if target.isEmpty then none else some (String.ofList target)
    match core.dropWhile fun c => c ≠ '=' ∧ c ≠ '[' with
    | '[' :: rest => readSpan? target? rest
    | '=' :: rest =>
      if core ≠ text then none else (readLimit? rest).map fun rank => [{ target?, rank }]
    | _ =>
      match readRank? text with
      | some rank => some [{ rank := rank }]
      | none => some [{ target? := some (String.ofList text), rank := greatestRank }]

/-- The pieces of a text between commas, given the start of a piece in reverse. -/
def piecesFrom (piece : List Char) : List Char → List (List Char)
  | [] => [piece.reverse]
  | c :: text => if c = ',' then piece.reverse :: piecesFrom [] text else piecesFrom (c :: piece) text

/-- The filter of a list of directives between commas; empty pieces do not count. -/
def parse? (text : List Char) : Option LogFilter :=
  (((piecesFrom [] text).filter (!·.isEmpty)).mapM readDirective?).map fun found => ⟨found.flatten⟩

/-- The variable that holds the filter. -/
def variableName : String := "RUST_LOG"

/-- The filter where none is set. -/
def standard : LogFilter := ⟨[{ rank := LogLevel.info.rank }]⟩

/-- The filter of a setting, which is the standard one if it cannot be read. -/
def ofSetting (setting? : Option String) : LogFilter :=
  (setting?.bind fun text => parse? text.toList).getD standard

end LogFilter
end NoticeServer
