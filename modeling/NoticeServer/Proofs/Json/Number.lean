import Mathlib.Data.List.TakeWhile
import NoticeServer.Json.Printer
import NoticeServer.Json.Number
import NoticeServer.Proofs.Text.Digit

/-!
# `NoticeServer.Proofs.Json.Number` — integers read back

An integer is written as its numeral behind an optional sign. The reader takes all of these digits for
the integer part; since the value fits the significand, none of them is dropped (`accumulate_eq`), and the
number stays an integer (`readNumber?_intText`).
-/

namespace NoticeServer
namespace Json

open Text

/-- Digits whose value fits the significand go into it, all of them. -/
theorem accumulate_eq {start n : Nat} {digits : List Char} (h : decimalValue start digits = some n)
    (hn : n ≤ maxSignificand) : accumulate start digits = (n, digits.length) := by
  induction digits generalizing start with
  | nil =>
    rw [accumulate, Option.some.inj h]
    rfl
  | cons c digits ih =>
    obtain ⟨d, hd, hrest⟩ := Option.bind_eq_some_iff.mp h
    have hc : digitValue? c = some (c.toNat - '0'.toNat) :=
      digitValue?_eq_some (by rw [hd]; rfl)
    have hnext : 10 * start + (c.toNat - '0'.toNat) = 10 * start + d := by
      rw [hc] at hd
      rw [Option.some.inj hd]
    have hle : 10 * start + d ≤ maxSignificand := Nat.le_trans (le_decimalValue hrest) hn
    -- the value so far is at most the value of all digits, so this digit still fits
    rw [accumulate, hnext]
    simp only [if_pos hle, ih hrest, List.length_cons]

theorem isAsciiDigit_of_mem_decimal {n : Nat} {c : Char} (hc : c ∈ decimal n) :
    isAsciiDigit c = true :=
  isSome_digitValue?_of_mem_decimal hc

/-- A numeral is an integer part. -/
theorem isIntegerPart_decimal (n : Nat) : isIntegerPart (decimal n) = true := by
  unfold isIntegerPart
  rcases Nat.eq_zero_or_pos n with rfl | hn
  · rfl
  · simp [decimal_ne_nil, head?_decimal hn]

/-- The sign of a number. -/
def sign (negative : Bool) : List Char := if negative then ['-'] else []

/-- A sign and an integer part, without anything behind them. -/
theorem readNumber?_digits (negative : Bool) {digits : List Char} {s : Nat}
    (hdigits : ∀ c ∈ digits, isAsciiDigit c = true) (hpart : isIntegerPart digits = true)
    (hvalue : accumulate 0 digits = (s, digits.length)) :
    readNumber? (sign negative ++ digits) = ofInteger? negative s := by
  have hhead : digits.head? ≠ some '-' := by
    intro h
    have := hdigits '-' (List.mem_of_mem_head? (by rw [h]; rfl))
    exact absurd this (by decide)
  have htake : digits.takeWhile isAsciiDigit = digits := List.takeWhile_eq_self_iff.mpr hdigits
  have hdrop : digits.dropWhile isAsciiDigit = [] := List.dropWhile_eq_nil_iff.mpr hdigits
  cases negative with
  | false =>
    simp only [readNumber?, sign, Bool.false_eq_true, if_false, List.nil_append, if_neg hhead, htake,
      hdrop, hpart, hvalue, readFraction?, readExponent?]
    simp [hhead]
  | true =>
    simp only [readNumber?, sign, if_true, List.cons_append, List.nil_append, List.head?_cons,
      List.tail_cons, htake, hdrop, hpart, hvalue, readFraction?, readExponent?]
    simp

/-- **An integer in range reads back from its text.** -/
theorem readNumber?_intText {n : Int} (h : IntRange n) : readNumber? (intText n) = some (.int n) := by
  have hmax : n.natAbs ≤ maxSignificand := by
    unfold IntRange at h
    unfold maxSignificand
    simp at h ⊢
    omega
  have hvalue := accumulate_eq (decimalValue_decimal n.natAbs) hmax
  by_cases hn : n < 0
  · have htext : intText n = sign true ++ decimal n.natAbs := by simp [intText, sign, hn]
    -- a negative integer is not `-0`, and its digits are at most those of the least one
    have hrange : ¬(n.natAbs = 0 ∨ Nat.pow 2 63 < n.natAbs) := by
      unfold IntRange at h
      simp at h ⊢
      omega
    rw [htext, readNumber?_digits true (fun _ => isAsciiDigit_of_mem_decimal)
      (isIntegerPart_decimal _) hvalue, ofInteger?]
    rw [if_neg (by decide), if_neg hrange]
    exact congrArg (some ∘ Json.int) (by omega)
  · have htext : intText n = sign false ++ decimal n.natAbs := by simp [intText, sign, hn]
    rw [htext, readNumber?_digits false (fun _ => isAsciiDigit_of_mem_decimal)
      (isIntegerPart_decimal _) hvalue, ofInteger?]
    rw [if_pos (by decide)]
    exact congrArg (some ∘ Json.int) (by omega)

end Json
end NoticeServer
