/-!
# `NoticeServer.Text.Utf8` — UTF-8, strict and lossy

A decoder that takes one byte at a time. Its result is a list of *pieces*: characters, and marks where
a maximal run of bytes that begins no character was found. The strict reading accepts a byte string
without such marks; the lossy reading puts U+FFFD where a mark stands.
-/

namespace NoticeServer
namespace Utf8

/-! ## Writing -/

/-- The bytes of a text, character after character. -/
def encode (text : List Char) : List UInt8 :=
  text.flatMap String.utf8EncodeChar

@[simp] theorem encode_nil : encode [] = [] := rfl

@[simp] theorem encode_cons (c : Char) (text : List Char) :
    encode (c :: text) = String.utf8EncodeChar c ++ encode text := rfl

@[simp] theorem encode_append (s t : List Char) : encode (s ++ t) = encode s ++ encode t := by
  simp [encode]

/-! ## Reading, one byte at a time -/

/-- What a byte string is made of: characters and malformed runs. -/
inductive Piece where
  | char (c : Char)
  | malformed
  deriving DecidableEq, Repr

/-- An unfinished character: the bits read so far, how many bytes are missing, and the bounds that the
next byte has to keep. -/
structure Pending where
  value : Nat
  missing : Nat
  low : UInt8
  high : UInt8
  deriving DecidableEq, Repr

/-- A byte that starts something new. The bounds on the second byte rule out overlong forms,
surrogates and values above U+10FFFF. -/
def lead (b : UInt8) : Option Pending × List Piece :=
  if b < 0x80 then (none, [.char (Char.ofNat b.toNat)])
  else if b < 0xC2 then (none, [.malformed])
  else if b < 0xE0 then (some ⟨b.toNat - 0xC0, 1, 0x80, 0xBF⟩, [])
  else if b < 0xF0 then
    (some ⟨b.toNat - 0xE0, 2, if b = 0xE0 then 0xA0 else 0x80, if b = 0xED then 0x9F else 0xBF⟩, [])
  else if b < 0xF5 then
    (some ⟨b.toNat - 0xF0, 3, if b = 0xF0 then 0x90 else 0x80, if b = 0xF4 then 0x8F else 0xBF⟩, [])
  else (none, [.malformed])

/-- A byte that cannot continue the unfinished character ends it as malformed and is read afresh. -/
def step (state : Option Pending) (b : UInt8) : Option Pending × List Piece :=
  match state with
  | none => lead b
  | some p =>
    if p.low ≤ b ∧ b ≤ p.high then
      let value := p.value * 64 + (b.toNat - 0x80)
      if p.missing = 1 then (none, [.char (Char.ofNat value)])
      else (some ⟨value, p.missing - 1, 0x80, 0xBF⟩, [])
    else ((lead b).1, .malformed :: (lead b).2)

/-- An unfinished character at the end is malformed. -/
def flush : Option Pending → List Piece
  | none => []
  | some _ => [.malformed]

/-- One step of the decoder, with the pieces found so far in reverse. -/
def feed (state : Option Pending × List Piece) (b : UInt8) : Option Pending × List Piece :=
  ((step state.1 b).1, (step state.1 b).2.reverse ++ state.2)

/-! ## Whole byte strings -/

/-- The pieces of a byte string, in order. -/
def pieces (bytes : List UInt8) : List Piece :=
  let (state, found) := bytes.foldl feed (none, [])
  found.reverse ++ flush state

/-- The character of a piece, if it is one. -/
def Piece.char? : Piece → Option Char
  | .char c => some c
  | .malformed => none

/-- The character that stands for a piece. -/
def Piece.lossy : Piece → Char
  | .char c => c
  | .malformed => '\uFFFD'

/-- The text of a byte string that is UTF-8 throughout. -/
def decode? (bytes : List UInt8) : Option (List Char) :=
  (pieces bytes).mapM Piece.char?

/-- The text of any byte string: each maximal malformed run becomes one U+FFFD. -/
def decodeLossy (bytes : List UInt8) : List Char :=
  (pieces bytes).map Piece.lossy

end Utf8
end NoticeServer
