/-!
# `NoticeServer.Text.Line` — lines of a text

A line ends at a line feed; one carriage return right before that line feed belongs to the line end. A
last line without a line feed keeps its carriage return, and an empty one does not count.
-/

namespace NoticeServer
namespace Text

/-- A reversed line without the carriage return that stands before its line feed. -/
def dropReturn : List Char → List Char
  | '\r' :: line => line
  | line => line

/-- The lines of `text`, after the lines in `found` (latest first) and the start of a line in `line`
(latest character first). -/
def linesFrom (found : List (List Char)) (line : List Char) : List Char → List (List Char)
  | [] => (if line.isEmpty then found else line.reverse :: found).reverse
  | c :: text =>
    if c = '\n' then linesFrom ((dropReturn line).reverse :: found) [] text
    else linesFrom found (c :: line) text

/-- The lines of a text. -/
def lines (text : List Char) : List (List Char) :=
  linesFrom [] [] text

end Text
end NoticeServer
