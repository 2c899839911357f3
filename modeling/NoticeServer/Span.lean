/-!
# `NoticeServer.Span` — positions and ranges

Lines and characters count from zero. Positions are ordered by line and then character, and the end of a
range is not part of it.
-/

namespace NoticeServer

/-- A place in a document. -/
structure Position where
  line : UInt32
  character : UInt32
  deriving DecidableEq, Repr

namespace Position

/-- The order of positions: the line first, then the character. -/
def compare (p q : Position) : Ordering :=
  (Ord.compare p.line q.line).then (Ord.compare p.character q.character)

end Position

/-- The part of a document from `start` up to, but without, `stop`. -/
structure Range where
  start : Position
  stop : Position
  deriving DecidableEq, Repr

namespace Range

/-- Whether the range does not end behind its start. -/
def isEmpty (r : Range) : Bool := (r.stop.compare r.start).isLE

end Range
end NoticeServer
