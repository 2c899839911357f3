import NoticeServer.Proofs.Json.Lexing
import NoticeServer.Proofs.Json.NumberText

/-!
# `NoticeServer.Proofs.Json.Spelling` — the tokens that are read

The machine reads exactly the tokens that the grammar spells. One direction goes along the grammar, token by
token. For the other each state of the machine is given what may follow it in a text; one character keeps
this, whatever the state is.

## Contents

* `tokensFrom?_hex`, `tokensFrom?_charText`: codes and characters of a string.
* `tokensFrom?_of_spells`: a spelled text has its tokens.
* `Continues`: what may follow a state.
* `continues_step`, `continues_of_tokensFrom?`: one character, and a text.
* `tokens?_eq_some_iff`: the machine reads the spelled texts, and only these.
-/

namespace NoticeServer
namespace Json

open Text Lexing

/-! ## Strings -/

theorem hexFrom?_cons (start : Nat) (c : Char) (digits : List Char) :
    hexFrom? start (c :: digits) = (hexValue? c).bind fun d => hexFrom? (16 * start + d) digits := by
  unfold hexFrom?
  rw [List.foldlM_cons]
  cases hexValue? c <;> rfl

/-- The digits of a code, from the first that is missing on. -/
theorem tokensFrom?_hex {digits : List Char} (hne : digits ≠ []) (collected : List Char)
    (high? : Option Nat) (value : Nat) (rest : List Char) :
    tokensFrom? (.code collected high? digits.length value) (digits ++ rest) =
      (hexFrom? value digits).bind fun n => (endCode? collected high? n).bind (tokensFrom? · rest) := by
  induction digits generalizing value with
  | nil => exact absurd rfl hne
  | cons c digits ih =>
    rw [hexFrom?_cons, List.cons_append, tokensFrom?, step?]
    cases hexValue? c with
    | none => rfl
    | some d =>
      by_cases hlast : digits = []
      · subst hlast
        cases hend : endCode? collected high? (16 * value + d) <;> simp [hexFrom?, hend]
      · have hmore : ¬ (c :: digits).length = 1 := by simpa using hlast
        have hrest := ih hlast (16 * value + d)
        rw [Option.bind_some, Option.bind_some, ← hrest]
        simp only [if_neg hmore, Option.bind_some]
        simp

theorem tokensFrom?_codeText {digits : List Char} {n : Nat} (h : CodeText digits n)
    (collected : List Char) (high? : Option Nat) (rest : List Char) :
    tokensFrom? (.code collected high? 4 0) (digits ++ rest) =
      (endCode? collected high? n).bind (tokensFrom? · rest) := by
  have hne : digits ≠ [] := List.ne_nil_of_length_pos (by rw [h.length]; decide)
  have hread := tokensFrom?_hex hne collected high? 0 rest
  rwa [h.length, h.value, Option.bind_some] at hread

theorem endCode?_single {n : Nat} (hhigh : ¬ IsHigh n) (hlow : ¬ IsLow n) (collected : List Char) :
    endCode? collected none n = some (.string (Char.ofNat n :: collected)) := by
  unfold endCode?
  exact (if_neg hhigh).trans (if_neg hlow)

theorem endCode?_high {n : Nat} (h : IsHigh n) (collected : List Char) :
    endCode? collected none n = some (.second collected n) := if_pos h

theorem endCode?_low {n : Nat} (h : IsLow n) (collected : List Char) (high : Nat) :
    endCode? collected (some high) n = some (.string (Char.ofNat (ofPair high n) :: collected)) := if_pos h

/-- A character of a string is read as this character, however it is written. -/
theorem tokensFrom?_charText {text : List Char} {c : Char} (h : CharText text c)
    (collected rest : List Char) :
    tokensFrom? (.string collected) (text ++ rest) = tokensFrom? (.string (c :: collected)) rest := by
  cases h with
  | plain quote backslash control =>
    have hstep : step? (.string collected) c = some (.string (c :: collected), []) := by
      rw [step?, if_neg quote, if_neg backslash, if_neg (by omega)]
    exact tokensFrom?_next hstep rest
  | @short letter _ h =>
    have hu : letter ≠ 'u' := by
      rintro rfl
      simp [unescape?] at h
    have hstep : step? (.escape collected) letter = some (.string (c :: collected), []) := by
      rw [step?, if_neg hu, h]
      rfl
    exact (tokensFrom?_next rfl _).trans (tokensFrom?_next hstep rest)
  | @code digits more n _ h ends =>
    have hdigits := tokensFrom?_codeText h collected none (more ++ rest)
    rw [List.cons_append, List.cons_append, List.append_assoc,
      tokensFrom?_next (show _ = some (.escape collected, []) from rfl),
      tokensFrom?_next (show _ = some (.code collected none 4 0, []) from rfl), hdigits]
    cases ends with
    | single high low =>
      rw [endCode?_single high low]
      rfl
    | @pair digits low high code isLow =>
      rw [endCode?_high high, Option.bind_some, List.cons_append, List.cons_append,
        tokensFrom?_next (show _ = some (.secondCode collected n, []) from rfl),
        tokensFrom?_next (show _ = some (.code collected (some n) 4 0, []) from rfl),
        tokensFrom?_codeText code, endCode?_low isLow]
      rfl

theorem tokensFrom?_spelled {text chars : List Char} (h : Spelled text chars) (collected rest : List Char) :
    tokensFrom? (.string collected) (text ++ rest) =
      tokensFrom? (.string (chars.reverse ++ collected)) rest := by
  induction h generalizing collected with
  | nil => rfl
  | cons first _ ih =>
    rw [List.append_assoc, tokensFrom?_charText first, ih]
    simp

/-! ## Spelled texts are read -/

theorem Punctuation.mark {c : Char} {t : Token} (h : Punctuation c t) : Mark c t := by
  cases h with
  | openArray => exact mark_openArray
  | closeArray => exact mark_closeArray
  | openObject => exact mark_openObject
  | closeObject => exact mark_closeObject
  | colon => exact mark_colon
  | comma => exact mark_comma

theorem WordText.ofWord? {text : List Char} {v : Json} (h : WordText text v) :
    Token.ofWord? text = some (.scalar v) := by
  cases h <;> rfl

theorem WordText.cons {text : List Char} {v : Json} (h : WordText text v) :
    ∃ c letters, text = c :: letters ∧ start? c = some (.word [c], []) ∧
      ∀ d ∈ letters, isLetter d = true := by
  cases h with
  | null => exact ⟨'n', _, rfl, rfl, List.all_eq_true.mp rfl⟩
  | isTrue => exact ⟨'t', _, rfl, rfl, List.all_eq_true.mp rfl⟩
  | isFalse => exact ⟨'f', _, rfl, rfl, List.all_eq_true.mp rfl⟩

/-- **A spelled text has its tokens.** -/
theorem tokensFrom?_of_spells {text : List Char} {ts : List Token} (h : Spells text ts) :
    tokensFrom? .between text = some ts := by
  induction h with
  | nil => rfl
  | @space c rest ts blank _ ih => rw [tokensFrom?_next (show step? .between c = _ from if_pos blank), ih]
  | @punctuation c t rest ts mark _ ih =>
    rw [tokensFrom?_found (show step? .between c = _ from mark.mark.start), ih]
    rfl
  | word word ends _ ih =>
    obtain ⟨c, letters, rfl, hstart, hletters⟩ := word.cons
    rw [List.cons_append, tokensFrom?_word hstart hletters word.ofWord? ends, ih]
    rfl
  | number number ends _ ih =>
    have hread := readNumber?_of_numberText number
    obtain ⟨c, more, rfl, hc, hmore⟩ := number.cons
    have hstart : start? c = some (.number [c], []) := by
      rcases hc with rfl | hc
      · rfl
      · exact start?_digit hc
    rw [List.cons_append, tokensFrom?_number hstart hmore hread ends, ih]
    rfl
  | @string text chars rest ts spelled _ ih =>
    have hclose : step? (.string (chars.reverse ++ [])) '"' =
        some (.between, [.string (String.ofList chars)]) := by
      simp [step?]
    rw [tokensFrom?_next (show step? .between '"' = some (.string [], []) from rfl),
      tokensFrom?_spelled spelled, tokensFrom?_found hclose, ih]
    rfl

/-! ## What may follow a state -/

/-- A word or number, of which the characters `gathered` are read, and the tokens behind it. -/
def Gathered (belongs : Char → Bool) (lexeme : List Char → Json → Prop) (gathered text : List Char)
    (ts : List Token) : Prop :=
  ∃ more rest v us, text = more ++ rest ∧ (∀ c ∈ more, belongs c = true) ∧ EndsBefore belongs rest ∧
    lexeme (gathered.reverse ++ more) v ∧ Spells rest us ∧ ts = .scalar v :: us

/-- A string, of which the characters `collected` are read, and the tokens behind it. -/
def Inside (collected text : List Char) (ts : List Token) : Prop :=
  ∃ body chars rest us, text = body ++ '"' :: rest ∧ Spelled body chars ∧ Spells rest us ∧
    ts = .string (String.ofList (collected.reverse ++ chars)) :: us

/-- The rest of a string behind the code `n`; `high?` is the first half that waits for this code. -/
def BehindCode (collected : List Char) (high? : Option Nat) (n : Nat) (text : List Char)
    (ts : List Token) : Prop :=
  match high? with
  | none => ∃ more c rest, text = more ++ rest ∧ CodeEnd n more c ∧ Inside (c :: collected) rest ts
  | some high => IsLow n ∧ Inside (Char.ofNat (ofPair high n) :: collected) text ts

/-- What may follow a state of the machine, with the tokens that it completes. -/
def Continues (state : Lexing) (text : List Char) (ts : List Token) : Prop :=
  match state with
  | .between => Spells text ts
  | .word letters => Gathered isLetter WordText letters text ts
  | .number characters => Gathered isNumeric NumberText characters text ts
  | .string collected => Inside collected text ts
  | .escape collected =>
    ∃ more c rest, text = more ++ rest ∧ CharText ('\\' :: more) c ∧ Inside (c :: collected) rest ts
  | .code collected high? missing value =>
    missing ≠ 0 ∧ ∃ digits n rest, text = digits ++ rest ∧ digits.length = missing ∧
      hexFrom? value digits = some n ∧ BehindCode collected high? n rest ts
  | .second collected high =>
    ∃ digits n rest, text = '\\' :: 'u' :: (digits ++ rest) ∧ CodeText digits n ∧
      BehindCode collected (some high) n rest ts
  | .secondCode collected high =>
    ∃ digits n rest, text = 'u' :: (digits ++ rest) ∧ CodeText digits n ∧
      BehindCode collected (some high) n rest ts

/-! ## What is read is spelled -/

theorem Inside.cons {text rest collected : List Char} {c : Char} {ts : List Token} (h : CharText text c)
    (hrest : Inside (c :: collected) rest ts) : Inside collected (text ++ rest) ts := by
  obtain ⟨body, chars, rest, us, rfl, hbody, hus, rfl⟩ := hrest
  exact ⟨text ++ body, c :: chars, rest, us, by simp, .cons h hbody, hus, by simp⟩

theorem wordText_of_ofWord? {text : List Char} {t : Token} (h : Token.ofWord? text = some t) :
    ∃ v, t = .scalar v ∧ WordText text v := by
  unfold Token.ofWord? at h
  split at h
  · next heq => exact ⟨.null, (Option.some.inj h).symm, heq ▸ .null⟩
  split at h
  · next heq => exact ⟨.bool true, (Option.some.inj h).symm, heq ▸ .isTrue⟩
  split at h
  · next heq => exact ⟨.bool false, (Option.some.inj h).symm, heq ▸ .isFalse⟩
  · exact absurd h nofun

theorem continues_finish {state : Lexing} {ts : List Token} (h : state.finish? = some ts) :
    Continues state [] ts := by
  cases state with
  | between =>
    obtain rfl := Option.some.inj h
    exact .nil
  | word letters =>
    obtain ⟨t, hword, rfl⟩ := Option.map_eq_some_iff.mp h
    obtain ⟨v, rfl, hv⟩ := wordText_of_ofWord? hword
    exact ⟨[], [], v, [], rfl, nofun, nofun, by simpa using hv, .nil, rfl⟩
  | number characters =>
    obtain ⟨v, hnumber, rfl⟩ := Option.map_eq_some_iff.mp h
    exact ⟨[], [], v, [], rfl, nofun, nofun, by simpa using numberText_of_readNumber? hnumber, .nil, rfl⟩
  | _ => exact absurd h nofun

/-- A character between tokens. -/
theorem spells_of_start? {c : Char} {next : Lexing} {found ts : List Token} {text : List Char}
    (h : start? c = some (next, found)) (hnext : Continues next text ts) :
    Spells (c :: text) (found ++ ts) := by
  have hmark : ∀ {t : Token}, Punctuation c t → some (between, [t]) = some (next, found) →
      Spells (c :: text) (found ++ ts) := by
    intro t ht heq
    obtain ⟨rfl, rfl⟩ := Prod.mk.inj (Option.some.inj heq)
    exact .punctuation ht hnext
  unfold start? at h
  by_cases hspace : isSpace c
  · rw [if_pos hspace] at h
    obtain ⟨rfl, rfl⟩ := Prod.mk.inj (Option.some.inj h)
    exact .space hspace hnext
  rw [if_neg hspace] at h
  by_cases hquote : c = '"'
  · rw [if_pos hquote] at h
    obtain ⟨rfl, rfl⟩ := Prod.mk.inj (Option.some.inj h)
    obtain ⟨body, chars, rest, us, rfl, hbody, hus, rfl⟩ := hnext
    subst hquote
    exact .string hbody hus
  rw [if_neg hquote] at h
  by_cases hletter : isLetter c
  · rw [if_pos hletter] at h
    obtain ⟨rfl, rfl⟩ := Prod.mk.inj (Option.some.inj h)
    obtain ⟨more, rest, v, us, rfl, _, hends, hword, hus, rfl⟩ := hnext
    exact .word hword hends hus
  rw [if_neg hletter] at h
  by_cases hnumeric : isNumeric c
  · rw [if_pos hnumeric] at h
    obtain ⟨rfl, rfl⟩ := Prod.mk.inj (Option.some.inj h)
    obtain ⟨more, rest, v, us, rfl, _, hends, hnumber, hus, rfl⟩ := hnext
    exact .number hnumber hends hus
  rw [if_neg hnumeric] at h
  by_cases hopen : c = '['
  · exact hmark (hopen ▸ .openArray) ((if_pos hopen).symm.trans h)
  rw [if_neg hopen] at h
  by_cases hclose : c = ']'
  · exact hmark (hclose ▸ .closeArray) ((if_pos hclose).symm.trans h)
  rw [if_neg hclose] at h
  by_cases hopen : c = '{'
  · exact hmark (hopen ▸ .openObject) ((if_pos hopen).symm.trans h)
  rw [if_neg hopen] at h
  by_cases hclose : c = '}'
  · exact hmark (hclose ▸ .closeObject) ((if_pos hclose).symm.trans h)
  rw [if_neg hclose] at h
  by_cases hcolon : c = ':'
  · exact hmark (hcolon ▸ .colon) ((if_pos hcolon).symm.trans h)
  rw [if_neg hcolon] at h
  by_cases hcomma : c = ','
  · exact hmark (hcomma ▸ .comma) ((if_pos hcomma).symm.trans h)
  · rw [if_neg hcomma] at h
    cases h

/-- A character that ends a word or number and is read afresh. -/
theorem gathered_restart {belongs : Char → Bool} {lexeme : List Char → Json → Prop} {gathered : List Char}
    {state next : Lexing} {c : Char} {found ts : List Token} {text : List Char}
    (h : restart? state c = some (next, found)) (hnext : Continues next text ts)
    (hc : belongs c = false)
    (hfinish : ∀ ended, state.finish? = some ended → ∃ v, ended = [.scalar v] ∧ lexeme gathered.reverse v) :
    Gathered belongs lexeme gathered (c :: text) (found ++ ts) := by
  obtain ⟨ended, hended, h⟩ := Option.bind_eq_some_iff.mp h
  obtain ⟨⟨next', found'⟩, hstart, heq⟩ := Option.map_eq_some_iff.mp h
  obtain ⟨rfl, rfl⟩ := Prod.mk.inj heq
  obtain ⟨v, rfl, hv⟩ := hfinish ended hended
  exact ⟨[], c :: text, v, found' ++ ts, rfl, nofun, by rintro _ ⟨⟩; exact hc, by simpa using hv,
    spells_of_start? hstart hnext, rfl⟩

/-- A character that belongs to a word or number. -/
theorem Gathered.cons {belongs : Char → Bool} {lexeme : List Char → Json → Prop} {gathered text : List Char}
    {c : Char} {ts : List Token} (hc : belongs c = true)
    (h : Gathered belongs lexeme (c :: gathered) text ts) : Gathered belongs lexeme gathered (c :: text) ts := by
  obtain ⟨more, rest, v, us, rfl, hmore, hends, hlexeme, hus, rfl⟩ := h
  refine ⟨c :: more, rest, v, us, rfl, ?_, hends, by simpa using hlexeme, hus, rfl⟩
  exact List.forall_mem_cons.mpr ⟨hc, hmore⟩

/-- The end of a code. -/
theorem behindCode_of_endCode? {collected : List Char} {high? : Option Nat} {n : Nat} {next : Lexing}
    {text : List Char} {ts : List Token} (h : endCode? collected high? n = some next)
    (hnext : Continues next text ts) : BehindCode collected high? n text ts := by
  cases high? with
  | some high =>
    by_cases hlow : IsLow n
    · rw [endCode?_low hlow] at h
      obtain rfl := Option.some.inj h
      exact ⟨hlow, hnext⟩
    · rw [show endCode? collected (some high) n = none from if_neg hlow] at h
      exact absurd h nofun
  | none =>
    by_cases hhigh : IsHigh n
    · rw [endCode?_high hhigh] at h
      obtain rfl := Option.some.inj h
      obtain ⟨digits, low, rest, rfl, hcode, hlow, hinside⟩ := hnext
      exact ⟨_, _, rest, rfl, .pair hhigh hcode hlow, hinside⟩
    by_cases hlow : IsLow n
    · rw [show endCode? collected none n = none from (if_neg hhigh).trans (if_pos hlow)] at h
      exact absurd h nofun
    · rw [endCode?_single hhigh hlow] at h
      obtain rfl := Option.some.inj h
      exact ⟨[], _, text, rfl, .single hhigh hlow, hnext⟩

/-- A character within a string, outside escapes. -/
theorem inside_step {collected text : List Char} {next : Lexing} {c : Char} {found ts : List Token}
    (h : step? (.string collected) c = some (next, found)) (hnext : Continues next text ts) :
    Inside collected (c :: text) (found ++ ts) := by
  rw [step?] at h
  split at h
  · next hquote =>
    obtain ⟨rfl, rfl⟩ := Prod.mk.inj (Option.some.inj h)
    subst hquote
    exact ⟨[], [], text, ts, rfl, .nil, hnext, by simp⟩
  split at h
  · next hbackslash =>
    obtain ⟨rfl, rfl⟩ := Prod.mk.inj (Option.some.inj h)
    subst hbackslash
    obtain ⟨more, d, rest, rfl, hd, hrest⟩ := hnext
    exact hrest.cons hd
  split at h
  · cases h
  · next hquote hbackslash hcontrol =>
    obtain ⟨rfl, rfl⟩ := Prod.mk.inj (Option.some.inj h)
    exact Inside.cons (.plain hquote hbackslash (by omega)) hnext

/-- A digit of a code. -/
theorem code_step {collected text : List Char} {high? : Option Nat} {missing value : Nat} {next : Lexing}
    {c : Char} {found ts : List Token}
    (h : step? (.code collected high? missing value) c = some (next, found))
    (hnext : Continues next text ts) :
    Continues (.code collected high? missing value) (c :: text) (found ++ ts) := by
  rw [step?] at h
  obtain ⟨d, hd, h⟩ := Option.bind_eq_some_iff.mp h
  by_cases hlast : missing = 1
  · simp only [if_pos hlast] at h
    obtain ⟨next', hend, heq⟩ := Option.map_eq_some_iff.mp h
    obtain ⟨rfl, rfl⟩ := Prod.mk.inj heq
    refine ⟨by omega, [c], 16 * value + d, text, rfl, hlast.symm, ?_, behindCode_of_endCode? hend hnext⟩
    rw [hexFrom?_cons, hd]
    rfl
  · simp only [if_neg hlast] at h
    obtain ⟨rfl, rfl⟩ := Prod.mk.inj (Option.some.inj h)
    obtain ⟨hmissing, digits, n, rest, rfl, hlength, hvalue, hrest⟩ := hnext
    refine ⟨by omega, c :: digits, n, rest, rfl, by simp; omega, ?_, hrest⟩
    rw [hexFrom?_cons, hd]
    exact hvalue

/-- **One character keeps what may follow the state of the machine.** -/
theorem continues_step {state next : Lexing} {c : Char} {found ts : List Token} {text : List Char}
    (h : state.step? c = some (next, found)) (hnext : Continues next text ts) :
    Continues state (c :: text) (found ++ ts) := by
  cases state with
  | between => exact spells_of_start? h hnext
  | word letters =>
    rw [step?] at h
    split at h
    · next hc =>
      obtain ⟨rfl, rfl⟩ := Prod.mk.inj (Option.some.inj h)
      exact Gathered.cons hc hnext
    · next hc =>
      refine gathered_restart h hnext (by simpa using hc) fun ended hended => ?_
      obtain ⟨t, hword, rfl⟩ := Option.map_eq_some_iff.mp hended
      obtain ⟨v, rfl, hv⟩ := wordText_of_ofWord? hword
      exact ⟨v, rfl, hv⟩
  | number characters =>
    rw [step?] at h
    split at h
    · next hc =>
      obtain ⟨rfl, rfl⟩ := Prod.mk.inj (Option.some.inj h)
      exact Gathered.cons hc hnext
    · next hc =>
      refine gathered_restart h hnext (by simpa using hc) fun ended hended => ?_
      obtain ⟨v, hnumber, rfl⟩ := Option.map_eq_some_iff.mp hended
      exact ⟨v, rfl, numberText_of_readNumber? hnumber⟩
  | string collected => exact inside_step h hnext
  | escape collected =>
    rw [step?] at h
    split at h
    · next hu =>
      obtain ⟨rfl, rfl⟩ := Prod.mk.inj (Option.some.inj h)
      obtain ⟨_, digits, n, rest, rfl, hlength, hvalue, more, d, rest', rfl, hends, hinside⟩ := hnext
      subst hu
      exact ⟨'u' :: (digits ++ more), d, rest', by simp, .code ⟨hlength, hvalue⟩ hends, hinside⟩
    · obtain ⟨d, hshort, heq⟩ := Option.map_eq_some_iff.mp h
      obtain ⟨rfl, rfl⟩ := Prod.mk.inj heq
      exact ⟨[c], d, text, rfl, .short hshort, hnext⟩
  | code collected high? missing value => exact code_step h hnext
  | second collected high =>
    rw [step?] at h
    split at h
    · next hbackslash =>
      obtain ⟨rfl, rfl⟩ := Prod.mk.inj (Option.some.inj h)
      obtain ⟨digits, n, rest, rfl, hcode, hrest⟩ := hnext
      exact ⟨digits, n, rest, by rw [hbackslash], hcode, hrest⟩
    · cases h
  | secondCode collected high =>
    rw [step?] at h
    split at h
    · next hu =>
      obtain ⟨rfl, rfl⟩ := Prod.mk.inj (Option.some.inj h)
      obtain ⟨_, digits, n, rest, rfl, hlength, hvalue, hrest⟩ := hnext
      exact ⟨digits, n, rest, by rw [hu], ⟨hlength, hvalue⟩, hrest⟩
    · cases h

/-- The tokens that are read from a state on tell what follows it. -/
theorem continues_of_tokensFrom? {state : Lexing} {text : List Char} {ts : List Token}
    (h : tokensFrom? state text = some ts) : Continues state text ts := by
  induction text generalizing state ts with
  | nil => exact continues_finish h
  | cons c text ih =>
    obtain ⟨⟨next, found⟩, hstep, hrest⟩ := Option.bind_eq_some_iff.mp h
    obtain ⟨us, hus, rfl⟩ := Option.map_eq_some_iff.mp hrest
    exact continues_step hstep (ih hus)

/-- **The machine reads the spelled texts, and only these.** -/
theorem tokens?_eq_some_iff {text : List Char} {ts : List Token} :
    tokens? text = some ts ↔ Spells text ts := by
  rw [tokens?_eq]
  exact ⟨continues_of_tokensFrom?, tokensFrom?_of_spells⟩

end Json
end NoticeServer
