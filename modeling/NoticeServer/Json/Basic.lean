import NoticeServer.Double.Basic

/-!
# `NoticeServer.Json` — JSON values

Integers and floating-point numbers are different values. An object is a list of members with distinct
keys in ascending order; `insertMember` keeps it so, and a repeated key takes the last value.
-/

namespace NoticeServer

/-- A JSON value. -/
inductive Json where
  | null
  | bool (value : Bool)
  | int (value : Int)
  | double (value : Double)
  | string (value : String)
  | array (items : List Json)
  | object (members : List (String × Json))
  deriving Repr, BEq, Inhabited

namespace Json

/-! ## Objects -/

/-- Puts a member into its place, replacing one of the same key. -/
def insertMember (key : String) (value : Json) : List (String × Json) → List (String × Json)
  | [] => [(key, value)]
  | m :: members =>
    if key = m.1 then (key, value) :: members
    else if key < m.1 then (key, value) :: m :: members
    else m :: insertMember key value members

/-- The object with the given members; of two with one key the later stays. -/
def ofMembers (members : List (String × Json)) : Json :=
  .object (members.foldl (fun sorted m => insertMember m.1 m.2 sorted) [])

/-- The value of a key in an object. -/
def member? (key : String) : Json → Option Json
  | .object members => members.lookup key
  | _ => none

/-- The text of a string. -/
def string? : Json → Option String
  | .string s => some s
  | _ => none

/-- The number as an integer. -/
def nat (n : Nat) : Json := .int n

/-- The range of integers that a text can denote; others become floating-point numbers. -/
def IntRange (n : Int) : Prop := -(Nat.pow 2 63 : Int) ≤ n ∧ n < (Nat.pow 2 64 : Int)

instance (n : Int) : Decidable (IntRange n) := inferInstanceAs (Decidable (_ ∧ _))

end Json
end NoticeServer
