/-!
# `NoticeServer.Double` — finite binary floating-point numbers

A double is a sign, a significand below `2 ^ 53` and a power of two. All arithmetic here is exact on
natural numbers and rounds once, to the nearest double, a half to the even significand (`Double.ofRatio?`).
Reading a decimal takes further roundings, one for each power of ten that is used (`Double.ofDecimal?`).
-/

namespace NoticeServer

/-- A finite double: `± significand * 2 ^ exponent`. -/
structure Double where
  negative : Bool
  significand : Nat
  exponent : Int
  deriving DecidableEq, Repr

namespace Double

/-! ## Rounding -/

/-- The natural number nearest to `num / den`, a half going to the even neighbour. -/
def roundHalfEven (num den : Nat) : Nat :=
  let q := num / den
  let r := num % den
  if 2 * r < den then q
  else if den < 2 * r then q + 1
  else if q % 2 = 0 then q else q + 1

/-- The least exponent of a double. -/
def minExponent : Int := -1074

/-- The greatest exponent of a double. -/
def maxExponent : Int := 971

/-- The quotient `num / den` in units of `2 ^ e`. -/
def inUnits (num den : Nat) (e : Int) : Nat × Nat :=
  if 0 ≤ e then (num, den * Nat.pow 2 e.toNat) else (num * Nat.pow 2 (-e).toNat, den)

/-- The exponent that gives `num / den` a significand of 53 bits, if that is not too small. -/
def unitExponent (num den : Nat) : Int :=
  let guess : Int := (Nat.log2 num : Int) - Nat.log2 den - 52
  let (n, d) := inUnits num den guess
  max minExponent (if Nat.pow 2 52 ≤ n / d then guess else guess - 1)

/-- Zero with a sign. -/
def zero (negative : Bool) : Double := ⟨negative, 0, minExponent⟩

/-- The double nearest to `num / den`; none if that is out of range. -/
def ofRatio? (negative : Bool) (num den : Nat) : Option Double :=
  if num = 0 then some (zero negative)
  else
    let e := unitExponent num den
    let (n, d) := inUnits num den e
    let s := roundHalfEven n d
    let (s, e) := if s = Nat.pow 2 53 then (Nat.pow 2 52, e + 1) else (s, e)
    if maxExponent < e then none else some ⟨negative, s, e⟩

/-- A magnitude as a quotient of natural numbers. -/
def ratio (x : Double) : Nat × Nat :=
  if 0 ≤ x.exponent then (x.significand * Nat.pow 2 x.exponent.toNat, 1)
  else (x.significand, Nat.pow 2 (-x.exponent).toNat)

/-! ## Products and quotients of magnitudes -/

/-- The rounded product of two magnitudes; none on overflow. -/
def mul? (x y : Double) : Option Double :=
  ofRatio? false (x.ratio.1 * y.ratio.1) (x.ratio.2 * y.ratio.2)

/-- The rounded quotient of two magnitudes, for a divisor other than zero. -/
def div? (x y : Double) : Option Double :=
  ofRatio? false (x.ratio.1 * y.ratio.2) (x.ratio.2 * y.ratio.1)

/-- The double nearest to a power of ten. -/
def tenPow? (n : Nat) : Option Double := ofRatio? false (Nat.pow 10 n) 1

/-! ## Reading decimals -/

/-- The greatest power of ten that is a double. -/
def maxTenPow : Nat := 308

/-- The magnitude `x * 10 ^ n`; none on overflow. -/
def timesTenPow? (x : Double) (n : Nat) : Option Double :=
  if n ≤ maxTenPow then (tenPow? n).bind (mul? x) else none

/-- The magnitude `x / 10 ^ n` for an `n` up to the greatest. -/
def overTenPow? (x : Double) (n : Nat) : Option Double :=
  (tenPow? n).bind (div? x)

/-- The magnitude `x` after `steps` quotients by the greatest power of ten. -/
def overTenPows? (x : Double) : (steps : Nat) → Option Double
  | 0 => some x
  | steps + 1 =>
    if x.significand = 0 then some x
    else (overTenPow? x maxTenPow).bind fun y => overTenPows? y steps

/-- The magnitude `x / 10 ^ n`: full steps first, then the rest of the exponent. -/
def downTenPow? (x : Double) (n : Nat) : Option Double :=
  let steps := (n - 1) / maxTenPow
  (overTenPows? x steps).bind fun y => overTenPow? y (n - maxTenPow * steps)

/-- The magnitude `x * 10 ^ e`, by rounded products or quotients with rounded powers of ten. -/
def scaleTen? (x : Double) (e : Int) : Option Double :=
  if x.significand = 0 then some x
  else if 0 ≤ e then timesTenPow? x e.toNat
  else downTenPow? x (-e).toNat

/-- The double read for `significand * 10 ^ exponent`: the significand is rounded, then scaled. -/
def ofDecimal? (negative : Bool) (significand : Nat) (exponent : Int) : Option Double :=
  (ofRatio? false significand 1).bind fun x =>
    (scaleTen? x exponent).map fun y => { y with negative := negative }

end Double
end NoticeServer
