/-!
# `NoticeServer.Text.Percent` — percent-encoding

A byte that may not stand for itself is written as a percent sign and two hexadecimal digits. Which bytes may
is left to the user. In the other direction a percent sign without two digits behind it stands for itself, so
every byte string can be decoded.
-/

namespace NoticeServer
namespace Percent

/-- An upper-case hexadecimal digit. -/
def hexDigit (n : Nat) : Char := if n < 10 then Char.ofNat (0x30 + n) else Char.ofNat (0x37 + n)

/-- The value of a hexadecimal digit. -/
def hexValue? (b : UInt8) : Option UInt8 :=
  if 0x30 ≤ b ∧ b ≤ 0x39 then some (b - 0x30)
  else if 0x41 ≤ b ∧ b ≤ 0x46 then some (b - 0x37)
  else if 0x61 ≤ b ∧ b ≤ 0x66 then some (b - 0x57)
  else none

/-- The text of one byte; `plain` tells which bytes stand for themselves. -/
def encodeByte (plain : UInt8 → Bool) (b : UInt8) : List Char :=
  if plain b then [Char.ofNat b.toNat] else ['%', hexDigit (b.toNat / 16), hexDigit (b.toNat % 16)]

/-- The text of a byte string. -/
def encode (plain : UInt8 → Bool) (bytes : List UInt8) : List Char :=
  bytes.flatMap (encodeByte plain)

/-- The percent sign. -/
def percentSign : UInt8 := 0x25

/-- The bytes that a byte string stands for. -/
def decode : List UInt8 → List UInt8
  | [] => []
  | b :: bytes =>
    if b = percentSign then
      match bytes with
      | x :: y :: rest =>
        match hexValue? x, hexValue? y with
        | some high, some low => (high * 16 + low) :: decode rest
        | _, _ => b :: decode (x :: y :: rest)
      | short => b :: short
    else b :: decode bytes
termination_by bytes => bytes.length

end Percent
end NoticeServer
