import NoticeServer.Text.Digit
import NoticeServer.Text.Percent
import NoticeServer.Text.Utf8

/-!
# `NoticeServer.Uri.Host` — the hosts of URIs

A host is a name or an address. A name may be percent-encoded, and upper case or full-width letters in it
are plain ones (`Uri.hostName?`). A name whose last label is a number has to be an address of four bytes, and
an address in brackets one of eight pieces. A URI with any other host (`Uri.isHost`) denotes nothing at all,
whatever its path is.
-/

namespace NoticeServer
namespace Uri

open Text

/-- The pieces of a text between separators, given the start of a piece in reverse. -/
def splitFrom (separator : Char → Bool) (piece : List Char) : List Char → List (List Char)
  | [] => [piece.reverse]
  | c :: text =>
    if separator c then piece.reverse :: splitFrom separator [] text
    else splitFrom separator (c :: piece) text

/-! ## Names -/

/-- The form of a character in a host name: upper case and full-width letters are plain lower-case
ones. -/
def foldHostCharacter (c : Char) : Char :=
  if 0xFF01 ≤ c.toNat ∧ c.toNat ≤ 0xFF5E then (Char.ofNat (c.toNat - 0xFEE0)).toLower else c.toLower

/-- The name that a host is written for. -/
def hostName? (host : List Char) : Option (List Char) :=
  (Utf8.decode? (Percent.decode (Utf8.encode host))).map (·.map foldHostCharacter)

/-- The name of the local host. -/
def localHost : List Char := "localhost".toList

/-- Whether a host of the web or of a file is the local host. -/
def isLocalHost (host : List Char) : Bool := hostName? host = some localHost

/-- Whether a character may stand in a host name: no blank, no control character, and none that has a
meaning in URIs. -/
def isHostCharacter (c : Char) : Bool :=
  0x20 < c.toNat && c.toNat ≠ 0x7F && !"%#/:<>?@[\\]^|".toList.contains c

/-! ## Addresses -/

/-- The value of digits in a base, of which each is below the base. -/
def valueInBase? (base : Nat) (digits : List Char) : Option Nat :=
  (Utf8.encode digits).foldlM
    (fun value b =>
      (((Percent.hexValue? b).map UInt8.toNat).filter (· < base)).map (base * value + ·)) 0

/-- The value of a number in a host name: hexadecimal behind `0x`, octal behind `0`, else decimal. -/
def labelNumber? : List Char → Option Nat
  | [] => none
  | '0' :: 'x' :: digits => valueInBase? 16 digits
  | '0' :: digits => valueInBase? 8 digits
  | digits => valueInBase? 10 digits

/-- Whether labels are an address of four bytes: at most four numbers, all of them bytes but the last one,
which fills the bytes that are left. -/
def isShortAddress (labels : List (List Char)) : Bool :=
  match labels.reverse.mapM labelNumber? with
  | some (last :: front) =>
    front.length < 4 && last < Nat.pow 256 (4 - front.length) && front.all (· < 256)
  | _ => false

/-- Whether a label looks like a number, be it one or not. -/
def looksNumeric (label : List Char) : Bool :=
  (labelNumber? label).isSome || (readDecimal? label).isSome

/-- Whether a plain name can be the name of a host. A dot at its end does not count. -/
def isHostName (name : List Char) : Bool :=
  let split := splitFrom (· = '.') [] name
  let labels := if split.getLast? = some [] then split.dropLast else split
  name.all isHostCharacter &&
    (isShortAddress labels || !(labels.getLast?.map looksNumeric).getD false)

/-- A text in front of its first `::` and behind it. -/
def cutAtGap : List Char → List Char × Option (List Char)
  | ':' :: ':' :: text => ([], some text)
  | c :: text => (c :: (cutAtGap text).1, (cutAtGap text).2)
  | [] => ([], none)

/-- Whether a word is the decimal numeral of a byte. -/
def isByteNumeral (word : List Char) : Bool :=
  (readBounded? 255 word).any (decimal · = word)

/-- How many pieces of two bytes a word between colons stands for: one if it has up to four hexadecimal
digits, and two if it is written as four bytes, which only a word at the end may be. -/
def pieceCount? (atEnd : Bool) (word : List Char) : Option Nat :=
  let bytes := splitFrom (· = '.') [] word
  if !word.isEmpty && word.length ≤ 4 && (valueInBase? 16 word).isSome then some 1
  else if atEnd && bytes.length = 4 && bytes.all isByteNumeral then some 2
  else none

/-- How many pieces words between colons stand for; `atEnd` tells whether the address ends with them. -/
def pieceSum? (atEnd : Bool) : List (List Char) → Option Nat
  | [] => some 0
  | [word] => pieceCount? atEnd word
  | word :: words => (pieceCount? false word).bind fun n => (pieceSum? atEnd words).map (n + ·)

/-- How many pieces one side of a gap stands for. -/
def sideSum? (atEnd : Bool) (text : List Char) : Option Nat :=
  if text.isEmpty then some 0 else pieceSum? atEnd (splitFrom (· = ':') [] text)

/-- Whether a text is an address of eight pieces; one gap in it stands for at least one of them. -/
def isLongAddress (text : List Char) : Bool :=
  match cutAtGap text with
  | (all, none) => sideSum? true all = some 8
  | (front, some back) =>
    ((sideSum? false front).bind fun m => (sideSum? true back).map (m + ·)).any (· < 8)

/-- Whether a host of the web or of a file can be used. -/
def isHost (host : List Char) : Bool :=
  match host with
  | '[' :: text => text.getLast? = some ']' && isLongAddress text.dropLast
  | _ => (hostName? host).any isHostName

end Uri
end NoticeServer
