import NoticeServer.Double.Basic

/-!
# `NoticeServer.Double.Shortest` — the fewest digits that read back

The decimals that round to a double form an interval around it; its ends belong to it when the
significand is even. For each number of digits the two neighbours of the double on that decimal grid are
tried, so the first grid with a neighbour inside the interval gives the fewest digits, and of two
neighbours inside the nearer is taken.
-/

namespace NoticeServer
namespace Double

/-- The numbers `low / den` to `high / den` around `value / den`, with or without the ends. -/
structure Interval where
  low : Nat
  value : Nat
  high : Nat
  den : Nat
  closed : Bool
  deriving Repr

/-- The numbers that round to a positive double. Below a power of two the doubles lie twice as dense. -/
def interval (x : Double) : Interval :=
  let s := x.significand
  let below := if s = Nat.pow 2 52 ∧ minExponent < x.exponent then 1 else 2
  let e := x.exponent - 2
  if 0 ≤ e then
    let u := Nat.pow 2 e.toNat
    ⟨(4 * s - below) * u, 4 * s * u, (4 * s + 2) * u, 1, s % 2 = 0⟩
  else ⟨4 * s - below, 4 * s, 4 * s + 2, Nat.pow 2 (-e).toNat, s % 2 = 0⟩

/-- Whether `num / den` lies in the interval. -/
def Interval.contains (i : Interval) (num den : Nat) : Bool :=
  let lo := i.low * den
  let hi := i.high * den
  let n := num * i.den
  if i.closed then lo ≤ n && n ≤ hi else lo < n && n < hi

/-- The least `k` below `fuel` with `den ≤ num * 10 ^ k`. -/
def negativePlaces (num den : Nat) : (fuel : Nat) → Nat
  | 0 => 0
  | fuel + 1 => if den ≤ num then 0 else negativePlaces (num * 10) den fuel + 1

/-- The exponent of the first decimal digit of `num / den`. -/
def firstPlace (num den : Nat) : Int :=
  if den ≤ num then ((Nat.toDigits 10 (num / den)).length : Int) - 1
  else -(negativePlaces num den 400 : Int)

/-- The quotient that `m * 10 ^ place` is. -/
def gridPoint (m : Nat) (place : Int) : Nat × Nat :=
  if 0 ≤ place then (m * Nat.pow 10 place.toNat, 1) else (m, Nat.pow 10 (-place).toNat)

/-- The neighbour on the grid of `10 ^ place` that reads back as the value, if one does. -/
def onGrid? (i : Interval) (place : Int) : Option Nat :=
  let (n, d) := if 0 ≤ place then (i.value, i.den * Nat.pow 10 place.toNat)
    else (i.value * Nat.pow 10 (-place).toNat, i.den)
  let down := n / d
  let inside m := i.contains (gridPoint m place).1 (gridPoint m place).2
  match inside down, inside (down + 1) with
  | true, true =>
    let r := n % d
    if 2 * r < d ∨ (2 * r = d ∧ down % 2 = 0) then some down else some (down + 1)
  | true, false => some down
  | false, true => some (down + 1)
  | false, false => none

/-- The first grid, from `place` on down to finer ones, that has a neighbour which reads back. -/
def search (i : Interval) (place : Int) : (fuel : Nat) → Nat × Int
  | 0 => (i.value / i.den, 0)
  | fuel + 1 =>
    match onGrid? i place with
    | some m => (m, place)
    | none => search i (place - 1) fuel

/-- The shortest decimal `m * 10 ^ place` that reads back as the positive double `x`. -/
def shortest (x : Double) : Nat × Int :=
  let i := x.interval
  search i (firstPlace i.value i.den) 20

end Double
end NoticeServer
