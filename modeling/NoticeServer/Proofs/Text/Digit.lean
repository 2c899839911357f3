import NoticeServer.Text.Digit

/-!
# `NoticeServer.Proofs.Text.Digit` — numerals read back

The numeral of a number is the numeral of its tenth with one digit behind it (`decimal_of_le`); every fact about
numerals follows by induction along these digits (`decimal_induction`), the last of them that a numeral reads
back.
-/

namespace NoticeServer
namespace Text

/-! ## The digits of a number -/

theorem decimal_of_lt {n : Nat} (h : n < 10) : decimal n = [Nat.digitChar n] :=
  Nat.toDigits_of_lt_base h

theorem decimal_of_le {n : Nat} (h : 10 ≤ n) :
    decimal n = decimal (n / 10) ++ [Nat.digitChar (n % 10)] :=
  Nat.toDigits_of_base_le (by decide) h

/-- Facts about numerals, digit by digit from the front. -/
theorem decimal_induction {motive : Nat → Prop} (single : ∀ n, n < 10 → motive n)
    (more : ∀ n, 10 ≤ n → motive (n / 10) → motive n) (n : Nat) : motive n := by
  induction n using Nat.strongRecOn with
  | ind n ih =>
    by_cases h : n < 10
    · exact single n h
    · exact more n (by omega) (ih (n / 10) (by omega))

theorem decimal_ne_nil (n : Nat) : decimal n ≠ [] := Nat.toDigits_ne_nil

theorem digitValue?_digitChar {d : Nat} (h : d < 10) : digitValue? (Nat.digitChar d) = some d := by
  have all : ∀ d, d < 10 → digitValue? (Nat.digitChar d) = some d := by decide
  exact all d h

theorem digitValue?_eq_some {c : Char} (h : (digitValue? c).isSome) :
    digitValue? c = some (c.toNat - '0'.toNat) := by
  unfold digitValue? at h ⊢
  split
  · rfl
  · rw [if_neg ‹_›] at h
    exact absurd h (by decide)

/-- The ASCII digits are the characters from `0x30` to `0x39`. -/
theorem toNat_of_isSome_digitValue? {c : Char} (h : (digitValue? c).isSome) :
    0x30 ≤ c.toNat ∧ c.toNat ≤ 0x39 := by
  unfold digitValue? at h
  split at h
  · next hrange => exact hrange
  · exact absurd h (by decide)

theorem isSome_digitValue?_of_mem_decimal {n : Nat} {c : Char} (hc : c ∈ decimal n) :
    (digitValue? c).isSome := by
  induction n using decimal_induction with
  | single n h =>
    rw [decimal_of_lt h, List.mem_singleton] at hc
    rw [hc, digitValue?_digitChar h]
    rfl
  | more n h ih =>
    rw [decimal_of_le h, List.mem_append, List.mem_singleton] at hc
    rcases hc with hc | hc
    · exact ih hc
    · rw [hc, digitValue?_digitChar (by omega)]
      rfl

/-- Only the numeral of zero begins with a zero. -/
theorem head?_decimal {n : Nat} (hn : 0 < n) : (decimal n).head? ≠ some '0' := by
  induction n using decimal_induction with
  | single n h =>
    have all : ∀ d, d < 10 → 0 < d → [Nat.digitChar d].head? ≠ some '0' := by decide
    rw [decimal_of_lt h]
    exact all n h hn
  | more n h ih =>
    rw [decimal_of_le h]
    cases hfront : decimal (n / 10) with
    | nil => exact absurd hfront (decimal_ne_nil _)
    | cons c s =>
      rw [hfront] at ih
      exact ih (by omega)

/-! ## The value of a text of digits -/

theorem decimalValue_append (start : Nat) (s t : List Char) :
    decimalValue start (s ++ t) = (decimalValue start s).bind fun m => decimalValue m t := by
  induction s generalizing start with
  | nil => rfl
  | cons c s ih =>
    rw [List.cons_append, decimalValue, decimalValue, Option.bind_assoc]
    exact congrArg _ (funext fun d => ih _)

/-- More digits never make a numeral smaller. -/
theorem le_decimalValue {start n : Nat} {s : List Char} (h : decimalValue start s = some n) :
    start ≤ n := by
  induction s generalizing start with
  | nil => exact Nat.le_of_eq (Option.some.inj h)
  | cons c s ih =>
    obtain ⟨d, _, hrest⟩ := Option.bind_eq_some_iff.mp h
    have := ih hrest
    omega

/-- **A numeral has the value it was written for.** -/
theorem decimalValue_decimal (n : Nat) : decimalValue 0 (decimal n) = some n := by
  induction n using decimal_induction with
  | single n h =>
    rw [decimal_of_lt h, decimalValue, digitValue?_digitChar h]
    simp [decimalValue]
  | more n h ih =>
    have hn : 10 * (n / 10) + n % 10 = n := Nat.div_add_mod n 10
    rw [decimal_of_le h, decimalValue_append, ih, Option.bind_some, decimalValue,
      digitValue?_digitChar (by omega), Option.bind_some, decimalValue, hn]

theorem readDecimal?_decimal (n : Nat) : readDecimal? (decimal n) = some n := by
  unfold readDecimal?
  rw [if_neg (by simp [decimal_ne_nil]), decimalValue_decimal]

theorem readBounded?_decimal {n bound : Nat} (h : n ≤ bound) :
    readBounded? bound (decimal n) = some n := by
  unfold readBounded?
  rw [readDecimal?_decimal]
  simp [h]

end Text
end NoticeServer
