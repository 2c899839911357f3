import NoticeServer.Proofs.Json.Grammar
import NoticeServer.Proofs.Text.Blank

/-!
# `NoticeServer.Proofs.Json.NumberText` — the numbers that are read

The reader takes a number apart from the front: as many digits as there are, then a fraction if a point
follows, then an exponent up to the end of the text. Each part ends where a character stands that cannot
belong to it (`EndsBefore`), so the parts of a number are found again, and the texts that are read are just the
texts of numbers (`readNumber?_eq_some_iff`).
-/

namespace NoticeServer
namespace Json

open Text

/-! ## Where digits end -/

theorem endsBefore_dropWhile (p : Char → Bool) (text : List Char) :
    EndsBefore p (text.dropWhile p) := fun c hc => by
  have := List.head?_dropWhile_not p text
  rw [hc] at this
  simpa using this

theorem Digits.takeWhile {text : List Char} (h : text.takeWhile isAsciiDigit ≠ []) :
    Digits (text.takeWhile isAsciiDigit) where
  ne_nil := h
  all := fun _ hc => List.all_eq_true.mp List.all_takeWhile _ hc

theorem digits_iff {text : List Char} :
    (text.isEmpty || !text.all isAsciiDigit) = false ↔ Digits text := by
  rw [Bool.or_eq_false_iff, List.isEmpty_eq_false_iff, Bool.not_eq_false', List.all_eq_true]
  exact ⟨fun h => ⟨h.1, h.2⟩, fun h => ⟨h.ne_nil, h.all⟩⟩

theorem Digits.head {digits : List Char} (h : Digits digits) :
    ∃ c more, digits = c :: more ∧ isAsciiDigit c = true := by
  cases digits with
  | nil => exact absurd rfl h.ne_nil
  | cons c more => exact ⟨c, more, rfl, h.all c List.mem_cons_self⟩

theorem ne_of_isAsciiDigit {c d : Char} (hc : isAsciiDigit c = true) (hd : isAsciiDigit d = false) :
    c ≠ d := by
  rintro rfl
  rw [hc] at hd
  exact absurd hd (by decide)

/-! ## Numerals -/

theorem decimalValue_eq_some_iff {start n : Nat} {text : List Char} :
    decimalValue start text = some n ↔ (∀ c ∈ text, isAsciiDigit c = true) ∧
      text.foldl (fun n c => 10 * n + (c.toNat - '0'.toNat)) start = n := by
  induction text generalizing start with
  | nil => simp [decimalValue]
  | cons c text ih =>
    rw [decimalValue, List.forall_mem_cons, List.foldl_cons, isAsciiDigit]
    cases hc : digitValue? c with
    | none => simp
    | some d =>
      have hd := digitValue?_eq_some (by rw [hc]; rfl)
      rw [hc] at hd
      rw [Option.bind_some, ih, ← Option.some.inj hd]
      simp

/-- **A numeral is read** if it is made of ASCII digits and its value is within the bound. -/
theorem readBounded?_eq_some_iff {bound n : Nat} {text : List Char} :
    readBounded? bound text = some n ↔ Digits text ∧ digitsValue text = n ∧ n ≤ bound := by
  unfold readBounded? readDecimal?
  rw [Option.filter_eq_some_iff]
  by_cases hempty : text = []
  · simp [hempty, show ¬ Digits [] from fun h => h.ne_nil rfl]
  · rw [if_neg (by simpa using hempty), decimalValue_eq_some_iff, decide_eq_true_eq]
    exact ⟨fun h => ⟨⟨hempty, h.1.1⟩, h.1.2, h.2⟩, fun h => ⟨⟨h.1.all, h.2.1⟩, h.2.2⟩⟩

/-! ## The parts of a number -/

theorem isIntegerPart_iff {text : List Char} (h : ∀ c ∈ text, isAsciiDigit c = true) :
    isIntegerPart text = true ↔ Whole text := by
  constructor
  · intro hpart
    simp only [isIntegerPart, Bool.and_eq_true, Bool.not_eq_true', List.isEmpty_eq_false_iff,
      Bool.or_eq_true, bne_iff_ne, beq_iff_eq] at hpart
    refine ⟨⟨hpart.1, h⟩, fun hzero => ?_⟩
    obtain ⟨c, rfl⟩ := List.length_eq_one_iff.mp (hpart.2.resolve_left (fun hne => hne hzero))
    simpa using hzero
  · intro hwhole
    simp only [isIntegerPart, Bool.and_eq_true, Bool.not_eq_true', List.isEmpty_eq_false_iff,
      Bool.or_eq_true, bne_iff_ne, beq_iff_eq]
    refine ⟨hwhole.digits.ne_nil, ?_⟩
    by_cases hzero : text.head? = some '0'
    · exact .inr (by rw [hwhole.zero hzero]; rfl)
    · exact .inl hzero

/-- An exponent begins with no digit and no point. -/
theorem ExponentText.head {text : List Char} {exponent? : Option Int} (h : ExponentText text exponent?) :
    EndsBefore isAsciiDigit text ∧ text.head? ≠ some '.' := by
  cases h with
  | absent => exact ⟨nofun, nofun⟩
  | present letter _ _ =>
    rcases letter with rfl | rfl
    · exact ⟨by rintro _ ⟨⟩; rfl, by simp⟩
    · exact ⟨by rintro _ ⟨⟩; rfl, by simp⟩

/-- What follows an integer part begins with no digit. -/
theorem endsBefore_fraction {text fraction exponentText : List Char} {exponent? : Option Int}
    (h : FractionText text fraction) (hexponent : ExponentText exponentText exponent?) :
    EndsBefore isAsciiDigit (text ++ exponentText) := by
  cases h with
  | absent => exact hexponent.head.1
  | present _ => rintro _ ⟨⟩; rfl

/-- A fraction is read up to the exponent. -/
theorem readFraction?_append {text fraction exponentText : List Char} {exponent? : Option Int}
    (h : FractionText text fraction) (hexponent : ExponentText exponentText exponent?) :
    readFraction? (text ++ exponentText) = some (fraction, exponentText) := by
  obtain ⟨hends, hpoint⟩ := hexponent.head
  cases h with
  | absent =>
    unfold readFraction?
    split
    · next heq =>
      rw [List.nil_append] at heq
      exact absurd (by rw [heq]; rfl) hpoint
    · rfl
  | present hdigits =>
    have htake : (fraction ++ exponentText).takeWhile isAsciiDigit = fraction :=
      takeWhile_append_stop hdigits.all hends
    have hdrop : (fraction ++ exponentText).dropWhile isAsciiDigit = exponentText :=
      dropWhile_append_stop hdigits.all hends
    simp [readFraction?, htake, hdrop, hdigits.ne_nil]

theorem fractionText_of_readFraction? {text fraction rest : List Char}
    (h : readFraction? text = some (fraction, rest)) :
    ∃ fractionText, text = fractionText ++ rest ∧ FractionText fractionText fraction := by
  unfold readFraction? at h
  split at h
  · next text =>
    by_cases hempty : text.takeWhile isAsciiDigit = []
    · simp [hempty] at h
    · simp only [List.isEmpty_iff, hempty, if_false, Option.some.injEq, Prod.mk.injEq] at h
      obtain ⟨rfl, rfl⟩ := h
      exact ⟨'.' :: text.takeWhile isAsciiDigit, by simp [List.takeWhile_append_dropWhile],
        .present (.takeWhile hempty)⟩
  · simp only [Option.some.injEq, Prod.mk.injEq] at h
    obtain ⟨rfl, rfl⟩ := h
    exact ⟨[], rfl, .absent⟩

theorem readExponent?_append {e : Char} {signText digits : List Char} {negative : Bool}
    (letter : e = 'e' ∨ e = 'E') (sign : SignText signText negative) (h : Digits digits) :
    readExponent? (e :: (signText ++ digits)) =
      some (some (if negative then -(digitsValue digits : Int) else digitsValue digits)) := by
  have hall : digits.all isAsciiDigit = true := List.all_eq_true.mpr h.all
  cases sign with
  | absent =>
    obtain ⟨c, more, rfl, hc⟩ := h.head
    have hminus : c ≠ '-' := ne_of_isAsciiDigit hc (by decide)
    have hplus : c ≠ '+' := ne_of_isAsciiDigit hc (by decide)
    simp [readExponent?, letter, hminus, hplus, hall]
  | plus => simp [readExponent?, letter, h.ne_nil, hall]
  | minus => simp [readExponent?, letter, h.ne_nil, hall]

theorem readExponent?_of_exponentText {text : List Char} {exponent? : Option Int}
    (h : ExponentText text exponent?) : readExponent? text = some exponent? := by
  cases h with
  | absent => rfl
  | present letter sign h => exact readExponent?_append letter sign h

/-- The sign in front of the digits of an exponent. -/
theorem exists_signText (text : List Char) :
    ∃ signText, SignText signText (text.head? = some '-') ∧
      text = signText ++ (if text.head? = some '-' ∨ text.head? = some '+' then text.tail else text) := by
  cases text with
  | nil => exact ⟨[], .absent, rfl⟩
  | cons c text =>
    by_cases hminus : c = '-'
    · exact ⟨['-'], by simpa [hminus] using SignText.minus, by simp [hminus]⟩
    by_cases hplus : c = '+'
    · exact ⟨['+'], by simpa [hplus] using SignText.plus, by simp [hplus]⟩
    · exact ⟨[], by simpa [hminus] using SignText.absent, by simp [hminus, hplus]⟩

theorem exponentText_of_readExponent? {text : List Char} {exponent? : Option Int}
    (h : readExponent? text = some exponent?) : ExponentText text exponent? := by
  cases text with
  | nil =>
    obtain rfl := Option.some.inj h
    exact .absent
  | cons e text =>
    obtain ⟨signText, hsign, htext⟩ := exists_signText text
    simp only [readExponent?] at h
    generalize (if text.head? = some '-' ∨ text.head? = some '+' then text.tail else text) = digits
      at h htext
    by_cases letter : e = 'e' ∨ e = 'E'
    · rw [if_pos letter] at h
      split at h
      · cases h
      · next hdigits =>
        obtain rfl := Option.some.inj h
        have hpresent := ExponentText.present letter hsign (digits_iff.mp (Bool.not_eq_true _ ▸ hdigits))
        rw [← htext] at hpresent
        simpa using hpresent
    · rw [if_neg letter] at h
      cases h

/-! ## Numbers -/

/-- A sign and digits, with what follows them. -/
theorem readNumber?_parts (negative : Bool) {whole rest : List Char} (hwhole : Digits whole)
    (hrest : EndsBefore isAsciiDigit rest) :
    readNumber? (sign negative ++ (whole ++ rest)) =
      if isIntegerPart whole then
        (readFraction? rest).bind fun (fraction, rest) =>
          (readExponent? rest).bind fun exponent? => numberValue? negative whole fraction exponent?
      else none := by
  have htake : (whole ++ rest).takeWhile isAsciiDigit = whole := takeWhile_append_stop hwhole.all hrest
  have hdrop : (whole ++ rest).dropWhile isAsciiDigit = rest := dropWhile_append_stop hwhole.all hrest
  obtain ⟨c, more, hcons, hc⟩ := hwhole.head
  have hminus : c ≠ '-' := ne_of_isAsciiDigit hc (by decide)
  have hhead : (whole ++ rest).head? ≠ some '-' := by simp [hcons, hminus]
  cases negative with
  | false =>
    simp only [readNumber?, sign, Bool.false_eq_true, if_false, List.nil_append, hhead, htake, hdrop,
      Bool.not_eq_true', decide_false]
    split <;> simp_all [numberValue?]
  | true =>
    simp only [readNumber?, sign, if_true, List.cons_append, List.nil_append, List.head?_cons,
      List.tail_cons, htake, hdrop, Bool.not_eq_true', decide_true]
    split <;> simp_all [numberValue?]

theorem readNumber?_of_numberText {text : List Char} {v : Json} (h : NumberText text v) :
    readNumber? text = some v := by
  obtain ⟨negative, hwhole, hfraction, hexponent, hvalue⟩ := h
  have hpart := (isIntegerPart_iff hwhole.digits.all).mpr hwhole
  have hfractionRead := readFraction?_append hfraction hexponent
  have hexponentRead := readExponent?_of_exponentText hexponent
  have hends := endsBefore_fraction hfraction hexponent
  rw [readNumber?_parts negative hwhole.digits hends, if_pos hpart, hfractionRead, Option.bind_some]
  dsimp only
  rw [hexponentRead, Option.bind_some, hvalue]

/-- A text is an optional minus sign, the digits behind it, and what follows them. -/
theorem exists_parts (text : List Char) :
    ∃ negative whole rest, text = sign negative ++ (whole ++ rest) ∧ EndsBefore isAsciiDigit rest ∧
      (∀ c ∈ whole, isAsciiDigit c = true) ∧ (whole = [] → readNumber? text = none) := by
  generalize hbody : (if text.head? = some '-' then text.tail else text) = body
  refine ⟨text.head? = some '-', body.takeWhile isAsciiDigit, body.dropWhile isAsciiDigit, ?_,
    endsBefore_dropWhile _ _, fun _ hc => List.all_eq_true.mp List.all_takeWhile _ hc, fun hempty => ?_⟩
  · rw [List.takeWhile_append_dropWhile, ← hbody]
    cases text with
    | nil => rfl
    | cons c text => by_cases hminus : c = '-' <;> simp [sign, hminus]
  · simp only [readNumber?, hbody, hempty]
    rfl

theorem numberText_of_readNumber? {text : List Char} {v : Json} (h : readNumber? text = some v) :
    NumberText text v := by
  obtain ⟨negative, whole, rest, rfl, hends, hall, hempty⟩ := exists_parts text
  have hdigits : Digits whole := ⟨fun hnil => by rw [hempty hnil] at h; exact absurd h nofun, hall⟩
  rw [readNumber?_parts negative hdigits hends] at h
  split at h
  · next hpart =>
    obtain ⟨⟨fraction, more⟩, hfraction, h⟩ := Option.bind_eq_some_iff.mp h
    obtain ⟨exponent?, hexponent, hvalue⟩ := Option.bind_eq_some_iff.mp h
    obtain ⟨fractionText, rfl, hfractionText⟩ := fractionText_of_readFraction? hfraction
    exact .parts negative ((isIntegerPart_iff hall).mp hpart) hfractionText
      (exponentText_of_readExponent? hexponent) hvalue
  · exact absurd h nofun

/-- **The reader accepts the texts of numbers, and only these.** -/
theorem readNumber?_eq_some_iff {text : List Char} {v : Json} :
    readNumber? text = some v ↔ NumberText text v :=
  ⟨numberText_of_readNumber?, readNumber?_of_numberText⟩

/-- Digits, points, signs and the letters of an exponent. -/
theorem isNumeric_of_mem {text : List Char} {v : Json} (h : NumberText text v) :
    ∀ c ∈ text, isNumeric c = true := by
  obtain ⟨negative, hwhole, hfraction, hexponent, hvalue⟩ := h
  have hdigits : ∀ {digits : List Char}, Digits digits → ∀ c ∈ digits, isNumeric c = true := by
    intro digits h c hc
    simp [isNumeric, h.all c hc]
  intro c hc
  simp only [List.mem_append] at hc
  rcases hc with hc | hc | hc | hc
  · cases negative with
    | false => exact absurd hc List.not_mem_nil
    | true => obtain rfl := List.mem_singleton.mp hc; rfl
  · exact hdigits hwhole.digits c hc
  · cases hfraction with
    | absent => exact absurd hc List.not_mem_nil
    | present h =>
      rcases List.mem_cons.mp hc with rfl | hc
      · rfl
      · exact hdigits h c hc
  · cases hexponent with
    | absent => exact absurd hc List.not_mem_nil
    | present letter sign h =>
      rcases List.mem_cons.mp hc with rfl | hc
      · rcases letter with rfl | rfl <;> rfl
      rcases List.mem_append.mp hc with hc | hc
      · cases sign with
        | absent => exact absurd hc List.not_mem_nil
        | plus => obtain rfl := List.mem_singleton.mp hc; rfl
        | minus => obtain rfl := List.mem_singleton.mp hc; rfl
      · exact hdigits h c hc

/-- A number begins with a minus sign or a digit. -/
theorem NumberText.cons {text : List Char} {v : Json} (h : NumberText text v) :
    ∃ c more, text = c :: more ∧ (c = '-' ∨ isAsciiDigit c = true) ∧ ∀ d ∈ more, isNumeric d = true := by
  have hnumeric := isNumeric_of_mem h
  obtain ⟨negative, hwhole, hfraction, hexponent, hvalue⟩ := h
  cases negative with
  | true => exact ⟨'-', _, rfl, .inl rfl, fun d hd => hnumeric d (List.mem_cons_of_mem _ hd)⟩
  | false =>
    obtain ⟨c, more, rfl, hc⟩ := hwhole.digits.head
    exact ⟨c, _, rfl, .inr hc, fun d hd => hnumeric d (List.mem_cons_of_mem _ hd)⟩

end Json
end NoticeServer
