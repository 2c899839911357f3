import NoticeServer.Text.Utf8

/-!
# `NoticeServer.Text.Excerpt` — the start of a text within a number of bytes

A text that is too long is cut in front of the byte at the limit. If this byte is in the middle of a
character, the search for a place to cut (`boundaryUpTo?`) goes back byte by byte. Search and cut may fail as
far as their types go; that they never do is `isSome_excerpt?`.
-/

namespace NoticeServer
namespace Text

/-! ## Boundaries -/

/-- Whether an offset into the bytes of a text lies in no character: it is the start or the end of the
bytes, or the byte behind it begins a character. -/
def isBoundary (bytes : List UInt8) (offset : Nat) : Bool :=
  offset == 0 || offset == bytes.length || bytes[offset]?.any fun b => b.IsUTF8FirstByte

/-- The first boundary on the way back from an offset. There is none if a step back from the start would
be needed. -/
def boundaryUpTo? (bytes : List UInt8) (offset : Nat) : Option Nat :=
  if isBoundary bytes offset then some offset
  else
    match offset with
    | 0 => none
    | offset + 1 => boundaryUpTo? bytes offset

/-- The text in front of a boundary; no text ends in the middle of a character. -/
def before? (bytes : List UInt8) (offset : Nat) : Option (List Char) :=
  if isBoundary bytes offset then some (Utf8.decodeLossy (bytes.take offset)) else none

/-! ## Excerpts -/

/-- A text of at most `limit` bytes, or its start up to the last boundary within the limit, with an
ellipsis. -/
def excerpt? (text : List Char) (limit : Nat) : Option (List Char) :=
  let bytes := Utf8.encode text
  if bytes.length ≤ limit then some text
  else
    (boundaryUpTo? bytes limit).bind fun stop => (before? bytes stop).map fun kept => kept ++ ['…']

theorem isBoundary_zero (bytes : List UInt8) : isBoundary bytes 0 = true := rfl

/-- The search ends at a boundary, at the latest at the start. -/
theorem exists_boundaryUpTo? (bytes : List UInt8) (offset : Nat) :
    ∃ stop, boundaryUpTo? bytes offset = some stop ∧ isBoundary bytes stop = true := by
  induction offset with
  | zero => exact ⟨0, rfl, isBoundary_zero bytes⟩
  | succ offset ih =>
    rw [boundaryUpTo?]
    split
    · next h => exact ⟨offset + 1, rfl, h⟩
    · exact ih

theorem isSome_excerpt? (text : List Char) (limit : Nat) : (excerpt? text limit).isSome = true := by
  obtain ⟨stop, hstop, hboundary⟩ := exists_boundaryUpTo? (Utf8.encode text) limit
  rw [excerpt?]
  split
  · rfl
  · rw [hstop, Option.bind_some, before?, if_pos hboundary]
    rfl

/-- The excerpt of a text, which there always is. -/
def excerpt (text : List Char) (limit : Nat) : List Char :=
  (excerpt? text limit).get (isSome_excerpt? text limit)

theorem excerpt?_eq (text : List Char) (limit : Nat) : excerpt? text limit = some (excerpt text limit) :=
  (Option.some_get (isSome_excerpt? text limit)).symm

end Text
end NoticeServer
