import NoticeServer.Double.Basic
import NoticeServer.Toml.Basic

/-!
# `NoticeServer.Toml.Scalar` — values without delimiters

Booleans, integers in four bases, floating-point numbers, dates and times, each told by its text alone.
An underscore may stand between two digits.
-/

namespace NoticeServer
namespace Toml

/-! ## Digits -/

/-- The value of a digit in some base up to 16. -/
def digitValue? (base : Nat) (c : Char) : Option Nat :=
  let n := c.toNat
  let value :=
    if '0' ≤ c ∧ c ≤ '9' then n - '0'.toNat
    else if 'a' ≤ c ∧ c ≤ 'f' then n - 'a'.toNat + 10
    else if 'A' ≤ c ∧ c ≤ 'F' then n - 'A'.toNat + 10
    else base
  if value < base then some value else none

/-- The value of digits behind a digit; `separated` tells that an underscore came last. -/
def digitsFrom (base value : Nat) (separated : Bool) : List Char → Option Nat
  | [] => if separated then none else some value
  | c :: text =>
    if c = '_' then if separated then none else digitsFrom base value true text
    else (digitValue? base c).bind fun d => digitsFrom base (base * value + d) false text

/-- The value of digits, with single underscores between them. -/
def digitsValue? (base : Nat) : List Char → Option Nat
  | [] => none
  | c :: text => (digitValue? base c).bind fun d => digitsFrom base d false text

/-- The text behind a sign, and whether the sign is a minus. -/
def unsigned (text : List Char) : Bool × List Char :=
  match text with
  | '-' :: rest => (true, rest)
  | '+' :: rest => (false, rest)
  | _ => (false, text)

/-- Decimal digits without a needless zero in front. -/
def wholeValue? (digits : List Char) : Option Nat :=
  if digits.head? = some '0' ∧ digits.length ≠ 1 then none else digitsValue? 10 digits

/-! ## Numbers -/

/-- The value of an integer. Only decimal ones have a sign. -/
def readInteger? (text : List Char) : Option Int :=
  match text with
  | '0' :: 'x' :: digits => (digitsValue? 16 digits).map Int.ofNat
  | '0' :: 'o' :: digits => (digitsValue? 8 digits).map Int.ofNat
  | '0' :: 'b' :: digits => (digitsValue? 2 digits).map Int.ofNat
  | _ =>
    let (negative, digits) := unsigned text
    (wholeValue? digits).map fun n => if negative then -(n : Int) else n

/-- How far from zero the place of the first digit may be for a number to be computed. -/
def maxPlace : Int := 400

/-- Whether `significand * 10 ^ exponent` rounds to a finite double. -/
def isFinite (significand : Nat) (exponent : Int) : Bool :=
  let place := exponent + (Nat.toDigits 10 significand).length
  if significand = 0 ∨ place < -maxPlace then true
  else if maxPlace < place then false
  else if 0 ≤ exponent then (Double.ofRatio? false (significand * Nat.pow 10 exponent.toNat) 1).isSome
  else (Double.ofRatio? false significand (Nat.pow 10 (-exponent).toNat)).isSome

/-- The exponent of a number, if the text is one or empty. -/
def readExponent? : List Char → Option Int
  | [] => some 0
  | c :: text =>
    if c = 'e' ∨ c = 'E' then
      let (negative, digits) := unsigned text
      (digitsValue? 10 digits).map fun n => if negative then -(n : Int) else n
    else none

/-- Whether a character may stand in digits. -/
def inDigits (c : Char) : Bool := c = '_' || ('0' ≤ c && c ≤ '9')

/-- Whether a text is a floating-point number, and then whether it is in range. -/
def readFloat? (text : List Char) : Option Bool :=
  let (_, text) := unsigned text
  if text = ['i', 'n', 'f'] ∨ text = ['n', 'a', 'n'] then some true
  else
    (wholeValue? (text.takeWhile inDigits)).bind fun whole =>
      match text.dropWhile inDigits with
      | '.' :: rest =>
        let digits := rest.takeWhile inDigits
        (digitsValue? 10 digits).bind fun _ =>
          (readExponent? (rest.dropWhile inDigits)).map fun e =>
            let places := (digits.filter (· ≠ '_'))
            let value := places.foldl (fun n c => 10 * n + (c.toNat - '0'.toNat)) whole
            isFinite value (e - places.length)
      | [] => none
      | rest => (readExponent? rest).map (isFinite whole)

/-! ## Dates and times -/

/-- The two digits that a text begins with, if their value is within bounds, and the text behind. -/
def twoDigits? (low high : Nat) : List Char → Option (Nat × List Char)
  | a :: b :: rest =>
    (digitValue? 10 a).bind fun x => (digitValue? 10 b).bind fun y =>
      let n := 10 * x + y
      if low ≤ n ∧ n ≤ high then some (n, rest) else none
  | _ => none

/-- The text behind a given character. -/
def after? (c : Char) : List Char → Option (List Char)
  | d :: rest => if c = d then some rest else none
  | [] => none

/-- Whether a year has a 29th of February. -/
def isLeap (year : Nat) : Bool := year % 4 = 0 && (year % 100 ≠ 0 || year % 400 = 0)

/-- The number of days of a month. -/
def daysIn (year month : Nat) : Nat :=
  if month = 2 then if isLeap year then 29 else 28
  else if month = 4 ∨ month = 6 ∨ month = 9 ∨ month = 11 then 30 else 31

/-- The text behind a date. -/
def afterDate? (text : List Char) : Option (List Char) :=
  (twoDigits? 0 99 text).bind fun (century, text) =>
  (twoDigits? 0 99 text).bind fun (year, text) =>
  (after? '-' text).bind fun text =>
  (twoDigits? 1 12 text).bind fun (month, text) =>
  (after? '-' text).bind fun text =>
  (twoDigits? 1 (daysIn (100 * century + year) month) text).map (·.2)

/-- The text behind a fraction of a second, if there is one. -/
def afterFraction? : List Char → Option (List Char)
  | '.' :: text =>
    let isDecimal (c : Char) : Bool := '0' ≤ c && c ≤ '9'
    if (text.takeWhile isDecimal).isEmpty then none else some (text.dropWhile isDecimal)
  | text => some text

/-- The text behind a time; its seconds may be missing. -/
def afterTime? (text : List Char) : Option (List Char) :=
  (twoDigits? 0 23 text).bind fun (_, text) =>
  (after? ':' text).bind fun text =>
  (twoDigits? 0 59 text).bind fun (_, text) =>
    match text with
    | ':' :: text => (twoDigits? 0 60 text).bind fun (_, text) => afterFraction? text
    | _ => some text

/-- Whether a text is an offset from universal time, or empty. -/
def isOffset (text : List Char) : Bool :=
  match text with
  | [] => true
  | ['Z'] => true
  | ['z'] => true
  | c :: text =>
    (c = '+' || c = '-') &&
      ((twoDigits? 0 23 text).bind fun (_, text) =>
        (after? ':' text).bind fun text =>
        (twoDigits? 0 59 text).map fun (_, text) => text.isEmpty).getD false

/-- Whether a text is a date, a time or both. -/
def isDate (text : List Char) : Bool :=
  match afterDate? text with
  | some [] => true
  | some (c :: time) =>
    (c = 'T' || c = 't' || c = ' ') && ((afterTime? time).map isOffset).getD false
  | none => ((afterTime? text).map List.isEmpty).getD false

/-! ## Values -/

/-- The value of a text without delimiters. -/
def ofScalar? (text : List Char) : Option Toml :=
  if text = ['t', 'r', 'u', 'e'] then some (.bool true)
  else if text = ['f', 'a', 'l', 's', 'e'] then some (.bool false)
  else if isDate text then some .date
  else
    match readInteger? text with
    | some n => some (.integer n)
    | none => (readFloat? text).map .float

end Toml
end NoticeServer
