import NoticeServer.Frame.Reader
import NoticeServer.Proofs.Json.NumberText
import NoticeServer.Proofs.Text.Decoding

/-!
# `NoticeServer.Proofs.Frame.Grammar` — what a frame is

A frame is told by its texts, without any reader: header lines, a blank line and a body, of which the last
`Content-Length` line tells the length (`FrameText.Valid`, `Framed`). What the reader makes of one line follows
from what kind of line it is: `lengthValue?_eq_some_iff` is about the lines that tell a length, and
`readLength?_eq_some_iff` about the lengths that can be told.
-/

namespace NoticeServer

open Text FrameReader

/-! ## Lines -/

/-- A header line tells a length: its name is `Content-Length`, with white space around it and in upper or
lower case, and `value` is what stands behind the first colon. -/
def TellsLength (text value : List Char) : Prop :=
  ∃ name more, trim text = name ++ ':' :: more ∧ ':' ∉ name ∧
    (trim name).map Char.toLower = lengthHeader ∧ value = trim more

/-- A length as it may be told: ASCII digits, with an optional plus sign, of a value in 64 bits. -/
def IsLength (value : List Char) (n : Nat) : Prop :=
  ∃ digits, (value = digits ∨ value = '+' :: digits) ∧ Json.Digits digits ∧
    Json.digitsValue digits = n ∧ n < Nat.pow 2 64

/-- A line of a header: no line feed inside, and not blank. -/
structure IsHeader (text : List Char) : Prop where
  lineFeed : '\n' ∉ text
  content : trim text ≠ []

/-- A blank line. -/
structure IsBlankLine (text : List Char) : Prop where
  lineFeed : '\n' ∉ text
  blank : trim text = []

/-- The bytes of a line. -/
def lineBytes (text : List Char) : List UInt8 := Utf8.encode text ++ [lineFeed]

/-- The bytes of lines. -/
def linesBytes (texts : List (List Char)) : List UInt8 := texts.flatMap lineBytes

/-! ## Frames -/

/-- The last line that tells a length tells this one. -/
def LastLength (headers : List (List Char)) (n : Nat) : Prop :=
  ∃ before text after value, headers = before ++ text :: after ∧ TellsLength text value ∧
    IsLength value n ∧ ∀ text' ∈ after, ∀ value', ¬ TellsLength text' value'

/-- The parts of a frame. -/
structure FrameText where
  headers : List (List Char)
  blank : List Char
  body : List UInt8

/-- The bytes of a frame. -/
def FrameText.bytes (f : FrameText) : List UInt8 := linesBytes f.headers ++ (lineBytes f.blank ++ f.body)

/-- A frame that keeps the rules: every length that is told can be told, and the last of them, which is
not above the greatest, is that of the body. -/
structure FrameText.Valid (f : FrameText) : Prop where
  headers : ∀ text ∈ f.headers, IsHeader text
  blank : IsBlankLine f.blank
  lengths : ∀ text ∈ f.headers, ∀ value, TellsLength text value → ∃ n, IsLength value n
  last : LastLength f.headers f.body.length
  length_le : f.body.length ≤ maxFrameBytes

/-- The input begins with a frame whose body denotes `v`, and `rest` is what stands behind it. -/
def Framed (denotes : List UInt8 → Json → Prop) (input : List UInt8) (v : Json) (rest : List UInt8) :
    Prop :=
  ∃ f : FrameText, f.Valid ∧ input = f.bytes ++ rest ∧ denotes f.body v

/-! ## Lengths, as the reader finds them -/

theorem dropWhile_colon {name : List Char} (h : ':' ∉ name) (more : List Char) :
    (name ++ ':' :: more).dropWhile (· ≠ ':') = ':' :: more ∧
      (name ++ ':' :: more).takeWhile (· ≠ ':') = name := by
  have hname : ∀ c ∈ name, decide (c ≠ ':') = true := fun c hc =>
    decide_eq_true fun heq => h (heq ▸ hc)
  exact ⟨dropWhile_append_stop hname (by rintro _ ⟨⟩; rfl),
    takeWhile_append_stop hname (by rintro _ ⟨⟩; rfl)⟩

theorem lengthValue?_eq_some_iff {text value : List Char} :
    lengthValue? (trim text) = some value ↔ TellsLength text value := by
  constructor
  · intro h
    unfold lengthValue? at h
    split at h
    · next c more hdrop =>
      split at h
      · next hname =>
        have hsplit := (trim text).takeWhile_append_dropWhile (p := (· ≠ ':'))
        have hcolon := Json.endsBefore_dropWhile (· ≠ ':') (trim text)
        rw [hdrop] at hsplit hcolon
        obtain rfl : c = ':' := by simpa using hcolon c rfl
        refine ⟨_, more, hsplit.symm, fun hmem => ?_, hname, (Option.some.inj h).symm⟩
        simpa using List.all_eq_true.mp List.all_takeWhile _ hmem
      · exact absurd h nofun
    · exact absurd h nofun
  · rintro ⟨name, more, htext, hcolon, hname, rfl⟩
    obtain ⟨hdrop, htake⟩ := dropWhile_colon hcolon more
    unfold lengthValue?
    rw [htext, hdrop, htake]
    exact if_pos hname

/-- A line tells one length at most. -/
theorem TellsLength.unique {text value value' : List Char} (h : TellsLength text value)
    (h' : TellsLength text value') : value = value' :=
  Option.some.inj ((lengthValue?_eq_some_iff.mpr h).symm.trans (lengthValue?_eq_some_iff.mpr h'))

theorem le_maxLength_iff (n : Nat) : n ≤ maxLength ↔ n < Nat.pow 2 64 := by
  unfold maxLength
  simp
  omega

theorem readLength?_eq_some_iff {value : List Char} {n : Nat} :
    readLength? value = some n ↔ IsLength value n := by
  unfold readLength?
  rw [Json.readBounded?_eq_some_iff, le_maxLength_iff]
  constructor
  · intro h
    refine ⟨_, ?_, h⟩
    cases value with
    | nil => exact .inl rfl
    | cons c value =>
      by_cases hc : c = '+'
      · exact .inr (by simp [hc])
      · exact .inl (by simp [hc])
  · rintro ⟨digits, hsign, hdigits, hvalue⟩
    obtain ⟨c, more, rfl, hc⟩ := hdigits.head
    have hplus : c ≠ '+' := Json.ne_of_isAsciiDigit hc (by decide)
    rcases hsign with rfl | rfl
    · rw [if_neg (by simpa using hplus)]
      exact ⟨hdigits, hvalue⟩
    · rw [if_pos (show ('+' :: c :: more).head? = some '+' from rfl)]
      exact ⟨hdigits, hvalue⟩

theorem IsLength.unique {value : List Char} {n n' : Nat} (h : IsLength value n) (h' : IsLength value n') :
    n = n' :=
  Option.some.inj ((readLength?_eq_some_iff.mpr h).symm.trans (readLength?_eq_some_iff.mpr h'))

end NoticeServer
