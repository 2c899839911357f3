import NoticeServer.Json.Token
import NoticeServer.Text.Utf8

/-!
# `NoticeServer.Json.Reader` — reading a JSON text

A machine over tokens with a stack of the arrays and objects that are open (`Builder`). A text is read when
all its tokens together make up exactly one value. The number of arrays and objects open at once is limited.
-/

namespace NoticeServer
namespace Json

/-- An array or object whose end has not been read. Items are in reverse; `key` is the key of the member
that is being read. -/
inductive Open where
  | array (items : List Json)
  | object (members : List (String × Json)) (key : String)
  deriving Repr, BEq

/-- What may come next. -/
inductive Builder where
  /-- A value, or the end of an array that has no item yet. -/
  | firstItem (stack : List Open)
  /-- A value. -/
  | value (stack : List Open)
  /-- A key, or the end of an object that has no member yet. -/
  | firstKey (stack : List Open)
  /-- A key of the object with these members. -/
  | key (members : List (String × Json)) (stack : List Open)
  /-- The colon behind a key. -/
  | colon (stack : List Open)
  /-- A comma, or the end of the innermost array or object. -/
  | more (stack : List Open)
  /-- Nothing: the value is complete. -/
  | done (value : Json)
  deriving Repr, BEq

namespace Builder

/-- A complete value goes into the innermost array or object. -/
def complete (stack : List Open) (v : Json) : Builder :=
  match stack with
  | [] => .done v
  | .array items :: stack => .more (.array (v :: items) :: stack)
  | .object members current :: stack => .more (.object (insertMember current v members) current :: stack)

/-- A token that begins a value. -/
def begin? (limit : Nat) (stack : List Open) : Token → Option Builder
  | .scalar v => some (complete stack v)
  | .string s => some (complete stack (.string s))
  | .openArray => if stack.length < limit then some (.firstItem (.array [] :: stack)) else none
  | .openObject => if stack.length < limit then some (.firstKey stack) else none
  | _ => none

/-- One token. -/
def step? (limit : Nat) (state : Builder) (t : Token) : Option Builder :=
  match state, t with
  | .firstItem (.array _ :: stack), .closeArray => some (complete stack (.array []))
  | .firstItem stack, t => begin? limit stack t
  | .value stack, t => begin? limit stack t
  | .firstKey stack, .closeObject => some (complete stack (.object []))
  | .firstKey stack, .string name => some (.colon (.object [] name :: stack))
  | .key members stack, .string name => some (.colon (.object members name :: stack))
  | .colon stack, .colon => some (.value stack)
  | .more (.array items :: stack), .comma => some (.value (.array items :: stack))
  | .more (.array items :: stack), .closeArray => some (complete stack (.array items.reverse))
  | .more (.object members _ :: stack), .comma => some (.key members stack)
  | .more (.object members _ :: stack), .closeObject => some (complete stack (.object members))
  | _, _ => none

/-- The value, if it is complete. -/
def result? : Builder → Option Json
  | .done v => some v
  | _ => none

end Builder

/-! ## Whole texts -/

/-- The value of a text with at most `limit` arrays and objects open at once. -/
def readLimited? (limit : Nat) (text : List Char) : Option Json :=
  (tokens? text).bind fun ts => (ts.foldlM (Builder.step? limit) (.value [])).bind Builder.result?

/-- How many arrays and objects may be open at once. -/
def maxDepth : Nat := 127

/-- The value of a text. -/
def read? (text : List Char) : Option Json := readLimited? maxDepth text

/-- The value of a byte string, which has to be UTF-8. -/
def readBytes? (bytes : List UInt8) : Option Json := (Utf8.decode? bytes).bind read?

end Json
end NoticeServer
