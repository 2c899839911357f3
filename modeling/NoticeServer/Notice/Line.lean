import NoticeServer.Notice.Record
import NoticeServer.Text.Digit
import NoticeServer.Text.Line

/-!
# `NoticeServer.Notice.Line` — the lines that carry notices

A notice stands on one line: `::notice file=`, a path, the four labelled numbers and `::` with the
message up to the end of the line. A path may itself look like labelled numbers, so a line can be split
in several ways (`Split`); the one with the longest path counts, whether or not its numbers can be used.
-/

namespace NoticeServer

open Text

/-! ## Parts of a line -/

/-- The parts of a line behind its path: four digit texts and the message. -/
structure Fields where
  startLine : List Char
  startColumn : List Char
  endLine : List Char
  endColumn : List Char
  message : List Char
  deriving DecidableEq, Repr

/-- The parts of a line. -/
structure Split where
  path : List Char
  fields : Fields
  deriving DecidableEq, Repr

/-- What every notice begins with. -/
def opening : List Char := "::notice file=".toList

/-- The label of the first line. -/
def startLineLabel : List Char := ",line=".toList

/-- The label of the first column. -/
def startColumnLabel : List Char := ",col=".toList

/-- The label of the last line. -/
def endLineLabel : List Char := ",endLine=".toList

/-- The label of the last column. -/
def endColumnLabel : List Char := ",endColumn=".toList

/-- What stands before the message. -/
def messageMark : List Char := "::".toList

/-- The end of a line that the fields make. -/
def Fields.text (f : Fields) : List Char :=
  startLineLabel ++ f.startLine ++ startColumnLabel ++ f.startColumn ++
    endLineLabel ++ f.endLine ++ endColumnLabel ++ f.endColumn ++ messageMark ++ f.message

/-- The line that the parts make. -/
def Split.text (s : Split) : List Char := opening ++ s.path ++ s.fields.text

/-! ## Finding the longest path -/

/-- The digits behind a label, and what follows them. -/
def labelled? (label text : List Char) : Option (List Char × List Char) :=
  (label.isPrefixOf? text).bind fun rest =>
    let digits := rest.takeWhile isDigit
    if digits.isEmpty then none else some (digits, rest.dropWhile isDigit)

/-- The fields that a text consists of. -/
def Fields.read? (text : List Char) : Option Fields :=
  (labelled? startLineLabel text).bind fun (startLine, text) =>
  (labelled? startColumnLabel text).bind fun (startColumn, text) =>
  (labelled? endLineLabel text).bind fun (endLine, text) =>
  (labelled? endColumnLabel text).bind fun (endColumn, text) =>
  (messageMark.isPrefixOf? text).map fun message =>
    { startLine, startColumn, endLine, endColumn, message }

/-- The split of `path.reverse ++ text` whose path is longest, among those that end in `text`; `best`
if there is none. -/
def longestFrom (best : Option Split) (path : List Char) : List Char → Option Split
  | [] => best
  | c :: text =>
    let here :=
      if path.isEmpty then none
      else (Fields.read? (c :: text)).map fun fields => { path := path.reverse, fields : Split }
    longestFrom (here.or best) (c :: path) text

/-- The split of a text behind the opening whose path is longest. -/
def longestSplit? (text : List Char) : Option Split := longestFrom none [] text

/-! ## Lines -/

/-- The greatest line or column. -/
def maxOrdinal : Nat := Nat.pow 2 32 - 1

/-- A line or column from its digits. -/
def readOrdinal? (digits : List Char) : Option UInt32 :=
  (readBounded? maxOrdinal digits).map UInt32.ofNat

/-- The notice of a split, if its four numbers are in range. -/
def Split.notice? (s : Split) : Option Notice :=
  (readOrdinal? s.fields.startLine).bind fun startLine =>
  (readOrdinal? s.fields.startColumn).bind fun startColumn =>
  (readOrdinal? s.fields.endLine).bind fun endLine =>
  (readOrdinal? s.fields.endColumn).map fun endColumn =>
    { path := String.ofList s.path, startLine, startColumn, endLine, endColumn,
      message := String.ofList s.fields.message }

namespace Notice

/-- The notice on a line. -/
def parse? (line : List Char) : Option Notice :=
  (opening.isPrefixOf? line).bind fun rest =>
    if rest.contains '\n' then none else (longestSplit? rest).bind Split.notice?

/-- The notices of an analyzer's output, line after line. -/
def parseOutput (output : List Char) : List Notice := (lines output).filterMap parse?

/-- The parts of the line that carries a notice. -/
def split (n : Notice) : Split where
  path := n.path.toList
  fields :=
    { startLine := decimal n.startLine.toNat
      startColumn := decimal n.startColumn.toNat
      endLine := decimal n.endLine.toNat
      endColumn := decimal n.endColumn.toNat
      message := n.message.toList }

/-- The line that carries a notice. -/
def text (n : Notice) : List Char := n.split.text

end Notice
end NoticeServer
