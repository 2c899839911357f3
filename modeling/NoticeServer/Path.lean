import NoticeServer.Text.Utf8

/-!
# `NoticeServer.Path` — file paths

A path is a byte string. What it names is the list of its *components*: repeated separators, a trailing
separator and `.` inside a path add nothing. Two paths are equivalent, written `p ≈ q`, when their
components are equal, and they are ordered by their components; the bytes are what is printed.
-/

namespace NoticeServer

/-- A file path, as its bytes. -/
structure Path where
  bytes : List UInt8
  deriving DecidableEq, Repr

/-- One step of a path: the root, the current folder (leading only), the parent folder or a name. -/
inductive Component where
  | root
  | here
  | up
  | name (bytes : List UInt8)
  deriving DecidableEq, Repr

namespace Component

/-- A component as a list of numbers whose lexicographic order is the order of components: the root,
then `.`, then `..`, then names by their bytes. -/
def sortKey : Component → List Nat
  | root => [0]
  | here => [1]
  | up => [2]
  | name bytes => 3 :: bytes.map UInt8.toNat

/-- The bytes of a component inside a path. -/
def bytes : Component → List UInt8
  | root => []
  | here => [0x2E]
  | up => [0x2E, 0x2E]
  | name bytes => bytes

end Component

namespace Path

/-- The separator `/`. -/
def separator : UInt8 := 0x2F

/-- The path of a text. -/
def ofText (text : List Char) : Path := ⟨Utf8.encode text⟩

/-- The path of a string. -/
def ofString (text : String) : Path := ofText text.toList

/-! ## Components -/

/-- The pieces between separators, given the start of a piece in reverse. -/
def segmentsFrom (piece : List UInt8) : List UInt8 → List (List UInt8)
  | [] => [piece.reverse]
  | b :: bytes =>
    if b = separator then piece.reverse :: segmentsFrom [] bytes else segmentsFrom (b :: piece) bytes

/-- The pieces of a byte string between separators. -/
def segments (bytes : List UInt8) : List (List UInt8) := segmentsFrom [] bytes

/-- The component of a piece; an empty piece and `.` are none. -/
def component? (piece : List UInt8) : Option Component :=
  if piece = [] ∨ piece = [0x2E] then none
  else if piece = [0x2E, 0x2E] then some .up
  else some (.name piece)

/-- Whether the path starts at the root. -/
def isAbsolute (p : Path) : Bool :=
  p.bytes.head? = some separator

/-- What the start of a path adds: the root, or a leading `.`. -/
def leading (p : Path) : List Component :=
  if p.isAbsolute then [.root]
  else if (segments p.bytes).head? = some [0x2E] then [.here]
  else []

/-- The components of a path. -/
def components (p : Path) : List Component :=
  p.leading ++ (segments p.bytes).filterMap component?

/-- Paths with equal components name the same file. -/
instance : Setoid Path where
  r p q := p.components = q.components
  iseqv := ⟨fun _ => rfl, Eq.symm, Eq.trans⟩

instance (p q : Path) : Decidable (p ≈ q) :=
  inferInstanceAs (Decidable (p.components = q.components))

theorem equiv_iff {p q : Path} : p ≈ q ↔ p.components = q.components := Iff.rfl

/-! ## Order -/

/-- The components as lists of numbers, for ordering. -/
def sortKey (p : Path) : List (List Nat) :=
  p.components.map Component.sortKey

/-- Whether `q` is not before `p` in the order of paths, by components. -/
def precedes (p q : Path) : Bool :=
  !List.lex q.sortKey p.sortKey fun a b => List.lex a b fun m n => m < n

/-! ## Operations -/

/-- The path `q` seen from `p`: an absolute `q` replaces `p`, any other is put behind a separator. -/
def join (p q : Path) : Path :=
  if q.isAbsolute then q
  else if p.bytes = [] ∨ p.bytes.getLast? = some separator then ⟨p.bytes ++ q.bytes⟩
  else ⟨p.bytes ++ separator :: q.bytes⟩

/-- The path of components. -/
def ofComponents : List Component → Path
  | .root :: steps => ⟨separator :: ((steps.map Component.bytes).intersperse [separator]).flatten⟩
  | steps => ⟨((steps.map Component.bytes).intersperse [separator]).flatten⟩

/-- The path without its last component; the root and the empty path have no parent. -/
def parent? (p : Path) : Option Path :=
  match p.components.getLast? with
  | none | some .root => none
  | some _ => some (ofComponents p.components.dropLast)

/-- The last component if it is a name. -/
def fileName? (p : Path) : Option (List UInt8) :=
  match p.components.getLast? with
  | some (.name bytes) => some bytes
  | _ => none

/-- The part of the file name behind its last dot, if something stands before that dot. -/
def extension? (p : Path) : Option (List UInt8) :=
  p.fileName?.bind fun name =>
    let backwards := name.reverse
    match backwards.dropWhile (· ≠ 0x2E) with
    | _ :: before => if before = [] then none else some (backwards.takeWhile (· ≠ 0x2E)).reverse
    | [] => none

/-- The text of a path; bytes that are not UTF-8 show as U+FFFD. -/
def display (p : Path) : List Char :=
  Utf8.decodeLossy p.bytes

end Path
end NoticeServer
