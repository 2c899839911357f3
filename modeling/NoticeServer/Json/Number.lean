import NoticeServer.Json.Basic
import NoticeServer.Text.Digit

/-!
# `NoticeServer.Json.Number` — the numbers of a JSON text

A number without fraction and exponent is an integer if it fits into 64 bits, signed or unsigned, and is
not `-0`. Every other number is a double: its digits are read into a 64-bit significand, further integer
digits only raise the exponent, further fraction digits are dropped.
-/

namespace NoticeServer
namespace Json

open Text

/-- Whether a character is an ASCII digit. -/
def isAsciiDigit (c : Char) : Bool := (digitValue? c).isSome

/-- The greatest significand. -/
def maxSignificand : Nat := Nat.pow 2 64 - 1

/-- Reads digits behind the significand `s` while it stays in range: the significand and how many digits
went into it. -/
def accumulate (s : Nat) : List Char → Nat × Nat
  | [] => (s, 0)
  | c :: digits =>
    let next := 10 * s + (c.toNat - '0'.toNat)
    if next ≤ maxSignificand then
      let (t, used) := accumulate next digits
      (t, used + 1)
    else (s, 0)

/-- The value of a digit text, of any length. -/
def digitsValue (digits : List Char) : Nat :=
  digits.foldl (fun n c => 10 * n + (c.toNat - '0'.toNat)) 0

/-- An integer part: digits without a needless leading zero. -/
def isIntegerPart (digits : List Char) : Bool :=
  !digits.isEmpty && (digits.head? != some '0' || digits.length == 1)

/-- The exponent of a number: none, or a sign and digits up to the end of the text. -/
def readExponent? : List Char → Option (Option Int)
  | [] => some none
  | c :: text =>
    if c = 'e' ∨ c = 'E' then
      let negative := text.head? = some '-'
      let digits := if negative ∨ text.head? = some '+' then text.tail else text
      if digits.isEmpty || !digits.all isAsciiDigit then none
      else
        let n : Int := digitsValue digits
        some (some (if negative then -n else n))
    else none

/-- The fraction digits of a number and what follows them. -/
def readFraction? : List Char → Option (List Char × List Char)
  | '.' :: text =>
    let digits := text.takeWhile isAsciiDigit
    if digits.isEmpty then none else some (digits, text.dropWhile isAsciiDigit)
  | text => some ([], text)

/-- A number without fraction and exponent whose digits fit the significand. -/
def ofInteger? (negative : Bool) (significand : Nat) : Option Json :=
  if !negative then some (.int significand)
  else if significand = 0 ∨ Nat.pow 2 63 < significand then
    (Double.ofRatio? true significand 1).map .double
  else some (.int (-(significand : Int)))

/-- The value of a number's text. -/
def readNumber? (text : List Char) : Option Json :=
  let negative := text.head? = some '-'
  let text := if negative then text.tail else text
  let whole := text.takeWhile isAsciiDigit
  if !isIntegerPart whole then none
  else
    (readFraction? (text.dropWhile isAsciiDigit)).bind fun (fraction, rest) =>
    (readExponent? rest).bind fun exponent? =>
      let (s, used) := accumulate 0 whole
      let dropped := whole.length - used
      if fraction.isEmpty ∧ exponent? = none ∧ dropped = 0 then ofInteger? negative s
      else
        let (s, fractionUsed) := accumulate s fraction
        let exponent : Int := (dropped : Int) - fractionUsed + exponent?.getD 0
        (Double.ofDecimal? negative s exponent).map .double

end Json
end NoticeServer
