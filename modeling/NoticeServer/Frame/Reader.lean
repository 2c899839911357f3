import NoticeServer.Json.Reader
import NoticeServer.Text.Blank

/-!
# `NoticeServer.Frame.Reader` — framed JSON messages, read

A frame is a run of header lines, a blank line, and a body of as many bytes as the last
`Content-Length` line says. The reader takes one byte at a time, so it does not matter how the bytes
arrive.

## Contents

* `FrameError`: what can be wrong with a frame.
* `FrameReader`, `FrameReader.step`, `FrameReader.finish`: one byte, and the end of the input.
* `FrameReader.wanted`: how many bytes a caller may wait for.
* `FrameReader.run`: the results that bytes complete, wherever they stand in an input.
* `FrameReader.read`: one frame of a byte string, with the bytes behind it.
-/

namespace NoticeServer

open Text

/-- The greatest length of a body, in bytes. -/
def maxFrameBytes : Nat := 4 * 1024 * 1024

/-! ## Errors -/

/-- What can be wrong with a frame. -/
inductive FrameError where
  /-- A header line is not UTF-8. -/
  | headerText
  /-- The input ends in the headers. -/
  | endInHeaders
  /-- The blank line comes without a length. -/
  | missingLength
  /-- A length is no number. -/
  | invalidLength
  /-- The length is above the greatest. -/
  | oversized (length : Nat)
  /-- The input ends in the body. -/
  | endInBody
  /-- The body is no JSON text. -/
  | invalidJson
  deriving DecidableEq, Repr

/-- The wording of an error. -/
def FrameError.message : FrameError → String
  | .headerText => "reading header line"
  | .endInHeaders => "unexpected EOF while reading headers"
  | .missingLength => "missing Content-Length header"
  | .invalidLength => "invalid Content-Length value"
  | .oversized length => s!"Content-Length {length} exceeds maximum {maxFrameBytes}"
  | .endInBody => "reading frame body"
  | .invalidJson => "parsing JSON-RPC frame"

/-! ## Header lines -/

/-- The name of the header that tells the length, in lower case. -/
def lengthHeader : List Char := "content-length".toList

/-- The value of a header line that tells the length; upper and lower case are one. -/
def lengthValue? (line : List Char) : Option (List Char) :=
  match line.dropWhile (· ≠ ':') with
  | _ :: value =>
    if (trim (line.takeWhile (· ≠ ':'))).map Char.toLower = lengthHeader then some (trim value) else none
  | [] => none

/-- The greatest length that a header can tell. -/
def maxLength : Nat := Nat.pow 2 64 - 1

/-- A length: digits, with an optional plus sign. -/
def readLength? (value : List Char) : Option Nat :=
  readBounded? maxLength (if value.head? = some '+' then value.tail else value)

/-- What a header line says. -/
inductive HeaderLine where
  | blank
  | length (n : Nat)
  | other
  deriving DecidableEq, Repr

/-- A header line without its line feed. -/
def HeaderLine.ofBytes (bytes : List UInt8) : Except FrameError HeaderLine :=
  match Utf8.decode? bytes with
  | none => .error .headerText
  | some text =>
    let line := trim text
    if line.isEmpty then .ok .blank
    else
      match lengthValue? line with
      | none => .ok .other
      | some value =>
        match readLength? value with
        | none => .error .invalidLength
        | some n => .ok (.length n)

/-! ## The reader -/

/-- Where in a frame the reader stands. Collected bytes are in reverse. -/
inductive FrameReader where
  /-- In the headers: the last length told, whether a line has ended, and the bytes of this line. -/
  | header (length? : Option Nat) (begun : Bool) (line : List UInt8)
  /-- In the body: how many bytes are missing, and those read. -/
  | body (missing : Nat) (bytes : List UInt8)
  deriving DecidableEq, Repr

/-- One call's result: a frame, an error, or the end of the input between frames. -/
inductive FrameRead where
  | frame (value : Json)
  | error (e : FrameError)
  | finished
  deriving Repr, BEq

namespace FrameReader

/-- Between two frames. -/
def start : FrameReader := .header none false []

/-- The frame in a body. -/
def parseBody (bytes : List UInt8) : FrameRead :=
  match Json.readBytes? bytes with
  | some v => .frame v
  | none => .error .invalidJson

/-- The blank line: the body begins, if its length is known and allowed. An empty body is at its end. -/
def beginBody (length? : Option Nat) : FrameReader × Option FrameRead :=
  match length? with
  | none => (start, some (.error .missingLength))
  | some n =>
    if maxFrameBytes < n then (start, some (.error (.oversized n)))
    else if n = 0 then (start, some (parseBody []))
    else (.body n [], none)

/-- The end of a header line. -/
def endLine (length? : Option Nat) (line : List UInt8) : FrameReader × Option FrameRead :=
  match HeaderLine.ofBytes line.reverse with
  | .error e => (start, some (.error e))
  | .ok .blank => beginBody length?
  | .ok (.length n) => (.header (some n) true [], none)
  | .ok .other => (.header length? true [], none)

/-- The line feed. -/
def lineFeed : UInt8 := 0x0A

/-- One byte: the next state, and the result that it completes. -/
def step (reader : FrameReader) (b : UInt8) : FrameReader × Option FrameRead :=
  match reader with
  | .header length? begun line =>
    if b = lineFeed then endLine length? line else (.header length? begun (b :: line), none)
  | .body missing bytes =>
    if missing ≤ 1 then (start, some (parseBody (b :: bytes).reverse))
    else (.body (missing - 1) (b :: bytes), none)

/-- The end of the input. A last header line without line feed still counts. -/
def finish : FrameReader → FrameRead
  | .header _ false [] => .finished
  | .header _ true [] => .error .endInHeaders
  | .header length? _ line =>
    match endLine length? line with
    | (_, some result) => result
    | (.header .., none) => .error .endInHeaders
    | (.body .., none) => .error .endInBody
  | .body .. => .error .endInBody

/-- How many bytes are missing at least before the next result. -/
def wanted : FrameReader → Nat
  | .header .. => 1
  | .body missing _ => max missing 1

/-! ## Byte strings in the middle of an input -/

/-- One byte, with the results found so far in reverse. -/
def feed (state : FrameReader × List FrameRead) (b : UInt8) : FrameReader × List FrameRead :=
  match state.1.step b with
  | (next, some result) => (next, result :: state.2)
  | (next, none) => (next, state.2)

/-- The state behind some bytes, and the results that they complete. -/
def run (reader : FrameReader) (bytes : List UInt8) : FrameReader × List FrameRead :=
  let (next, found) := bytes.foldl feed (reader, [])
  (next, found.reverse)

/-! ## Whole inputs -/

/-- The first result from a state on, and the bytes behind it. -/
def readFrom (reader : FrameReader) : List UInt8 → FrameRead × List UInt8
  | [] => (reader.finish, [])
  | b :: input =>
    match reader.step b with
    | (_, some result) => (result, input)
    | (next, none) => readFrom next input

/-- The first result of an input, and the bytes behind it. -/
def read (input : List UInt8) : FrameRead × List UInt8 := readFrom start input

/-- A number of results in a row, errors and ends included. -/
def readTimes (input : List UInt8) : (count : Nat) → List FrameRead
  | 0 => []
  | count + 1 =>
    let (result, rest) := read input
    result :: readTimes rest count

/-- The results up to the first that is no frame. An input of `n` bytes has at most `n` frames. -/
def readUntil (input : List UInt8) : (fuel : Nat) → List FrameRead
  | 0 => []
  | fuel + 1 =>
    match read input with
    | (.frame v, rest) => .frame v :: readUntil rest fuel
    | (result, _) => [result]

/-- The frames of an input, then the error or the end behind them. -/
def readAll (input : List UInt8) : List FrameRead := readUntil input (input.length + 1)

end FrameReader
end NoticeServer
