import NoticeServer.Json.Basic
import NoticeServer.Double.Shortest
import NoticeServer.Text.Digit

/-!
# `NoticeServer.Json.Printer` — the compact text of a JSON value

No blanks; members in the order of the object. Of the characters of a string only the quotation mark, the
backslash and the control characters are escaped. A double has the fewest digits that read back, always
with a fraction: positionally from `10 ^ -5` up to `10 ^ 16`, else with an exponent.
-/

namespace NoticeServer

open Text

/-! ## Numbers -/

namespace Double

/-- How doubles are written: the least and the greatest exponent of the first digit for positional
notation. -/
structure Layout where
  leastPositional : Int
  greatestPositional : Int

/-- Numbers from `10 ^ -5` on and below `10 ^ 16` are written positionally. -/
def layout : Layout := ⟨-5, 15⟩

/-- A digit text without trailing zeros. -/
def stripZeros (digits : List Char) : List Char :=
  (digits.reverse.dropWhile (· = '0')).reverse

/-- The digits `digits` with the first at the place `10 ^ place`, written positionally. -/
def positional (digits : List Char) (place : Int) : List Char :=
  if place < 0 then '0' :: '.' :: (List.replicate (-place - 1).toNat '0' ++ digits)
  else
    let count := place.toNat + 1
    let whole := digits.take count ++ List.replicate (count - digits.length) '0'
    let fraction := digits.drop count
    whole ++ '.' :: (if fraction.isEmpty then ['0'] else fraction)

/-- The digits `digits` with the first at the place `10 ^ place`, written with an exponent. -/
def scientific (digits : List Char) (place : Int) : List Char :=
  let fraction := digits.tail
  digits.take 1 ++ (if fraction.isEmpty then [] else '.' :: fraction) ++
    'e' :: (if place < 0 then '-' else '+') :: decimal place.natAbs

/-- The text of a magnitude. -/
def magnitudeText (x : Double) : List Char :=
  if x.significand = 0 then ['0', '.', '0']
  else
    let (m, place) := x.shortest
    let all := decimal m
    let first : Int := place + all.length - 1
    let digits := stripZeros all
    if layout.leastPositional ≤ first ∧ first ≤ layout.greatestPositional then positional digits first
    else scientific digits first

/-- The text of a double. -/
def text (x : Double) : List Char :=
  if x.negative then '-' :: x.magnitudeText else x.magnitudeText

end Double

namespace Json

/-- The text of an integer. -/
def intText (n : Int) : List Char :=
  if n < 0 then '-' :: decimal n.natAbs else decimal n.natAbs

/-! ## Strings -/

/-- A hexadecimal digit, in lower case. -/
def hexDigit (n : Nat) : Char := Nat.digitChar n

/-- The text of one character of a string. -/
def escape (c : Char) : List Char :=
  if c = '"' then ['\\', '"']
  else if c = '\\' then ['\\', '\\']
  else if 0x20 ≤ c.toNat then [c]
  else if c = '\x08' then ['\\', 'b']
  else if c = '\x0C' then ['\\', 'f']
  else if c = '\n' then ['\\', 'n']
  else if c = '\r' then ['\\', 'r']
  else if c = '\t' then ['\\', 't']
  else ['\\', 'u', '0', '0', hexDigit (c.toNat / 16), hexDigit (c.toNat % 16)]

/-- The text of a string. -/
def quote (s : String) : List Char := '"' :: (s.toList.flatMap escape ++ ['"'])

/-! ## Values -/

mutual

/-- The compact text of a value. -/
def text : Json → List Char
  | .null => ['n', 'u', 'l', 'l']
  | .bool true => ['t', 'r', 'u', 'e']
  | .bool false => ['f', 'a', 'l', 's', 'e']
  | .int n => intText n
  | .double x => x.text
  | .string s => quote s
  | .array items => '[' :: (itemsText items ++ [']'])
  | .object members => '{' :: (membersText members ++ ['}'])

/-- The items of an array, separated by commas. -/
def itemsText : List Json → List Char
  | [] => []
  | [v] => text v
  | v :: w :: items => text v ++ ',' :: itemsText (w :: items)

/-- The members of an object, separated by commas. -/
def membersText : List (String × Json) → List Char
  | [] => []
  | [(key, v)] => quote key ++ ':' :: text v
  | (key, v) :: m :: members => quote key ++ ':' :: (text v ++ ',' :: membersText (m :: members))

end

/-- The compact text of a value, as a string. -/
def render (v : Json) : String := String.ofList v.text

end Json
end NoticeServer
