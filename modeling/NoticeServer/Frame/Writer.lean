import NoticeServer.Json.Printer
import NoticeServer.Text.Utf8

/-!
# `NoticeServer.Frame.Writer` — framed JSON messages, written

The header of a frame that is written has one line, with the length of the body in bytes, and the body is
compact JSON in UTF-8. Whether a reader gives the value back is a matter of the value: see
`FrameReader.readTimes_writeAll`.
-/

namespace NoticeServer
namespace Frame

open Text

/-- The header of a body of `length` bytes. -/
def header (length : Nat) : List Char :=
  "Content-Length: ".toList ++ decimal length ++ ['\r', '\n', '\r', '\n']

/-- A body with its header. -/
def withHeader (body : List UInt8) : List UInt8 :=
  Utf8.encode (header body.length) ++ body

/-- The bytes of a frame. -/
def write (v : Json) : List UInt8 := withHeader (Utf8.encode v.text)

/-- The bytes of frames one after the other. -/
def writeAll (frames : List Json) : List UInt8 := frames.flatMap write

end Frame
end NoticeServer
