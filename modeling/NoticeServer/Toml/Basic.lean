/-!
# `NoticeServer.Toml` — TOML values

Of floating-point numbers and dates only their kind is kept, and whether the number is in range: no
setting uses them. A value that no setting uses is passed over if it is `legible`.
-/

namespace NoticeServer

/-- A TOML value. -/
inductive Toml where
  | string (value : String)
  | integer (value : Int)
  | float (inRange : Bool)
  | date
  | bool (value : Bool)
  | array (items : List Toml)
  | table (entries : List (String × Toml))
  deriving Repr, BEq, Inhabited

namespace Toml

/-- The integers that can be passed over: those of 128 bits, signed or unsigned. -/
def isLegibleInteger (n : Int) : Bool := -(Nat.pow 2 127 : Int) ≤ n && n < (Nat.pow 2 128 : Int)

mutual

/-- Whether a value can be passed over: all its numbers are in range. -/
def legible : Toml → Bool
  | .integer n => isLegibleInteger n
  | .float inRange => inRange
  | .array items => allLegible items
  | .table entries => allEntriesLegible entries
  | _ => true

/-- Whether all values can be passed over. -/
def allLegible : List Toml → Bool
  | [] => true
  | v :: items => legible v && allLegible items

/-- Whether the values of all entries can be passed over. -/
def allEntriesLegible : List (String × Toml) → Bool
  | [] => true
  | (_, v) :: entries => legible v && allEntriesLegible entries

end

end Toml
end NoticeServer
