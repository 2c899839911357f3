import NoticeServer.Json.Reader
import NoticeServer.Proofs.Json.Number

/-!
# `NoticeServer.Proofs.Json.Grammar` — what a JSON text is

A JSON text is a sequence of tokens that make up one value, with white space between the tokens. Words and
numbers reach as far as they can. The grammar knows nothing of the machines that read it: the tokens are
told by the text that each of them has (`Spells`), the values by the tokens of their parts (`Denotes`). How
deep arrays and objects may be nested is a parameter of `IsText`.
-/

namespace NoticeServer
namespace Json

/-! ## Numbers -/

/-- One or more ASCII digits. -/
structure Digits (digits : List Char) : Prop where
  ne_nil : digits ≠ []
  all : ∀ c ∈ digits, isAsciiDigit c = true

/-- An integer part: digits, of which the first is a zero only if it is the only one. -/
structure Whole (text : List Char) : Prop where
  digits : Digits text
  zero : text.head? = some '0' → text = ['0']

/-- The text of a fraction, and its digits. -/
inductive FractionText : List Char → List Char → Prop where
  | absent : FractionText [] []
  | present {digits : List Char} (h : Digits digits) : FractionText ('.' :: digits) digits

/-- The sign of an exponent, and whether it is negative. -/
inductive SignText : List Char → Bool → Prop where
  | absent : SignText [] false
  | plus : SignText ['+'] false
  | minus : SignText ['-'] true

/-- The text of an exponent, and its value. -/
inductive ExponentText : List Char → Option Int → Prop where
  | absent : ExponentText [] none
  | present {e : Char} {signText digits : List Char} {negative : Bool} (letter : e = 'e' ∨ e = 'E')
      (sign : SignText signText negative) (h : Digits digits) :
      ExponentText (e :: (signText ++ digits))
        (some (if negative then -(digitsValue digits : Int) else digitsValue digits))

/-- The value of a number's parts: an integer, if it has neither fraction nor exponent and fits, else the
double that is read for it. A number beyond the doubles has none. -/
def numberValue? (negative : Bool) (whole fraction : List Char) (exponent? : Option Int) : Option Json :=
  let (s, used) := accumulate 0 whole
  let dropped := whole.length - used
  if fraction.isEmpty ∧ exponent? = none ∧ dropped = 0 then ofInteger? negative s
  else
    let (s, fractionUsed) := accumulate s fraction
    let exponent : Int := (dropped : Int) - fractionUsed + exponent?.getD 0
    (Double.ofDecimal? negative s exponent).map .double

/-- The text of a number, and its value. -/
inductive NumberText : List Char → Json → Prop where
  | parts {whole fractionText fraction exponentText : List Char} {exponent? : Option Int} {v : Json}
      (negative : Bool) (whole_text : Whole whole) (fraction_text : FractionText fractionText fraction)
      (exponent_text : ExponentText exponentText exponent?)
      (value : numberValue? negative whole fraction exponent? = some v) :
      NumberText (sign negative ++ (whole ++ (fractionText ++ exponentText))) v

/-! ## Strings -/

/-- The value of hexadecimal digits that continue a numeral of value `start`. -/
def hexFrom? (start : Nat) (digits : List Char) : Option Nat :=
  digits.foldlM (fun n c => (hexValue? c).map (16 * n + ·)) start

/-- The first halves of surrogate pairs. -/
def IsHigh (n : Nat) : Prop := 0xD800 ≤ n ∧ n ≤ 0xDBFF

/-- The second halves of surrogate pairs. -/
def IsLow (n : Nat) : Prop := 0xDC00 ≤ n ∧ n ≤ 0xDFFF

instance (n : Nat) : Decidable (IsHigh n) := inferInstanceAs (Decidable (_ ∧ _))

instance (n : Nat) : Decidable (IsLow n) := inferInstanceAs (Decidable (_ ∧ _))

/-- The code point of a surrogate pair. -/
def ofPair (high low : Nat) : Nat := 0x10000 + (high - 0xD800) * 0x400 + (low - 0xDC00)

/-- Four hexadecimal digits and their value. -/
structure CodeText (digits : List Char) (n : Nat) : Prop where
  length : digits.length = 4
  value : hexFrom? 0 digits = some n

/-- What has to follow the code `n`, and the character that they make up: nothing, or behind the first half
of a surrogate pair the second. A half that is alone makes up no character. -/
inductive CodeEnd (n : Nat) : List Char → Char → Prop where
  | single (high : ¬ IsHigh n) (low : ¬ IsLow n) : CodeEnd n [] (Char.ofNat n)
  | pair {digits : List Char} {low : Nat} (high : IsHigh n) (code : CodeText digits low)
      (isLow : IsLow low) : CodeEnd n ('\\' :: 'u' :: digits) (Char.ofNat (ofPair n low))

/-- One character of a string, as it may be written. -/
inductive CharText : List Char → Char → Prop where
  | plain {c : Char} (quote : c ≠ '"') (backslash : c ≠ '\\') (control : 0x20 ≤ c.toNat) : CharText [c] c
  | short {letter c : Char} (h : unescape? letter = some c) : CharText ['\\', letter] c
  | code {digits more : List Char} {n : Nat} {c : Char} (h : CodeText digits n) (ends : CodeEnd n more c) :
      CharText ('\\' :: 'u' :: (digits ++ more)) c

/-- The text between quotation marks, and the characters that it stands for. -/
inductive Spelled : List Char → List Char → Prop where
  | nil : Spelled [] []
  | cons {text more chars : List Char} {c : Char} (first : CharText text c) (rest : Spelled more chars) :
      Spelled (text ++ more) (c :: chars)

/-! ## Tokens -/

/-- The six structural characters. -/
inductive Punctuation : Char → Token → Prop where
  | openArray : Punctuation '[' .openArray
  | closeArray : Punctuation ']' .closeArray
  | openObject : Punctuation '{' .openObject
  | closeObject : Punctuation '}' .closeObject
  | colon : Punctuation ':' .colon
  | comma : Punctuation ',' .comma

/-- The three words. -/
inductive WordText : List Char → Json → Prop where
  | null : WordText ['n', 'u', 'l', 'l'] .null
  | isTrue : WordText ['t', 'r', 'u', 'e'] (.bool true)
  | isFalse : WordText ['f', 'a', 'l', 's', 'e'] (.bool false)

/-- A text that does not begin with such a character. -/
def EndsBefore (belongs : Char → Bool) (rest : List Char) : Prop := ∀ c ∈ rest.head?, belongs c = false

/-- A text and its tokens. -/
inductive Spells : List Char → List Token → Prop where
  | nil : Spells [] []
  | space {c : Char} {rest : List Char} {ts : List Token} (blank : isSpace c = true)
      (h : Spells rest ts) : Spells (c :: rest) ts
  | punctuation {c : Char} {t : Token} {rest : List Char} {ts : List Token} (mark : Punctuation c t)
      (h : Spells rest ts) : Spells (c :: rest) (t :: ts)
  | word {text rest : List Char} {v : Json} {ts : List Token} (word : WordText text v)
      (ends : EndsBefore isLetter rest) (h : Spells rest ts) : Spells (text ++ rest) (.scalar v :: ts)
  | number {text rest : List Char} {v : Json} {ts : List Token} (number : NumberText text v)
      (ends : EndsBefore isNumeric rest) (h : Spells rest ts) : Spells (text ++ rest) (.scalar v :: ts)
  | string {text chars rest : List Char} {ts : List Token} (spelled : Spelled text chars)
      (h : Spells rest ts) :
      Spells ('"' :: (text ++ '"' :: rest)) (.string (String.ofList chars) :: ts)

/-! ## Values -/

/-- The tokens of the parts of an array or object, with commas between them. -/
def separated (parts : List (List Token)) : List Token := [Token.comma].intercalate parts

/-- The tokens of a member. -/
def memberTokens (key : String) (value : List Token) : List Token := .string key :: .colon :: value

/-- Tokens and their value, with at most so many arrays and objects open at once. Of members with one key
the last counts. -/
inductive Denotes : Nat → List Token → Json → Prop where
  | scalar (room : Nat) (v : Json) : Denotes room [.scalar v] v
  | string (room : Nat) (s : String) : Denotes room [.string s] (.string s)
  | array {room : Nat} (items : List (List Token × Json))
      (each : ∀ item ∈ items, Denotes room item.1 item.2) :
      Denotes (room + 1) (.openArray :: (separated (items.map (·.1)) ++ [.closeArray]))
        (.array (items.map (·.2)))
  | object {room : Nat} (members : List (String × List Token × Json))
      (each : ∀ m ∈ members, Denotes room m.2.1 m.2.2) :
      Denotes (room + 1)
        (.openObject :: (separated (members.map fun m => memberTokens m.1 m.2.1) ++ [.closeObject]))
        (.ofMembers (members.map fun m => (m.1, m.2.2)))

/-- The text of a value, nested no deeper than `limit`, as bytes. -/
def IsText (limit : Nat) (bytes : List UInt8) (v : Json) : Prop :=
  ∃ text ts, bytes = Utf8.encode text ∧ Spells text ts ∧ Denotes limit ts v

end Json
end NoticeServer
