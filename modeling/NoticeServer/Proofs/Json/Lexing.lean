import NoticeServer.Proofs.Json.Exact
import NoticeServer.Proofs.Json.Number

/-!
# `NoticeServer.Proofs.Json.Lexing` — the tokens of a written value

Words and numbers end only where a character stands that does not belong to them. So a text is followed up
to any rest that such a character begins, or that is empty (`Stops`); the brackets, colons and commas of the
format are such characters, and the texts of values are put together with them. `Lexes` carries this from the
parts of a value to the value, up to `tokens?_text`.
-/

namespace NoticeServer
namespace Json

open Text

/-! ## Tokens from a state on -/

/-- The tokens from a state on, without those found before. -/
def Lexing.tokensFrom? (state : Lexing) : List Char → Option (List Token)
  | [] => state.finish?
  | c :: text => (state.step? c).bind fun (next, found) => (next.tokensFrom? text).map (found ++ ·)

open Lexing

theorem foldlM_feed? (state : Lexing) (found : List Token) (text : List Char) :
    ((text.foldlM feed? (state, found)).bind fun (state, found) =>
      state.finish?.map fun ended => found.reverse ++ ended) =
    (state.tokensFrom? text).map (found.reverse ++ ·) := by
  -- the tokens found before stay in front of all that are found later
  induction text generalizing state found with
  | nil => rfl
  | cons c text ih =>
    rw [List.foldlM_cons, tokensFrom?]
    cases hstep : state.step? c with
    | none =>
      have hfeed : feed? (state, found) c = none := by simp [feed?, hstep]
      rw [hfeed]
      rfl
    | some result =>
      obtain ⟨next, now⟩ := result
      have hfeed : feed? (state, found) c = some (next, now.reverse ++ found) := by
        simp [feed?, hstep]
      rw [hfeed]
      refine (ih next (now.reverse ++ found)).trans ?_
      simp [Function.comp_def]

/-- The tokens of a text, read from the front. -/
theorem tokens?_eq (text : List Char) : tokens? text = tokensFrom? .between text := by
  unfold tokens?
  rw [foldlM_feed?]
  simp

theorem tokensFrom?_found {state next : Lexing} {c : Char} {found : List Token}
    (h : state.step? c = some (next, found)) (rest : List Char) :
    state.tokensFrom? (c :: rest) = (next.tokensFrom? rest).map (found ++ ·) := by
  rw [tokensFrom?, h]
  rfl

/-- A character that completes no token only changes the state. -/
theorem tokensFrom?_next {state next : Lexing} {c : Char} (h : state.step? c = some (next, []))
    (rest : List Char) : state.tokensFrom? (c :: rest) = next.tokensFrom? rest := by
  rw [tokensFrom?_found h]
  simp

/-! ## Texts and their tokens -/

/-- A rest whose first character belongs to no word and no number. -/
def Stops (rest : List Char) : Prop := ∀ c ∈ rest.head?, isLetter c = false ∧ isNumeric c = false

theorem stops_nil : Stops [] := fun _ h => nomatch h

/-- A text has these tokens, whatever stopping rest is behind it. -/
def Lexes (text : List Char) (ts : List Token) : Prop :=
  ∀ rest, Stops rest →
    tokensFrom? .between (text ++ rest) = (tokensFrom? .between rest).map (ts ++ ·)

/-- A character that is a token of its own and ends words and numbers. -/
structure Mark (c : Char) (t : Token) : Prop where
  start : start? c = some (.between, [t])
  noLetter : isLetter c = false
  noNumeric : isNumeric c = false

theorem Mark.stops {c : Char} {t : Token} (h : Mark c t) (rest : List Char) : Stops (c :: rest) := by
  rintro _ ⟨⟩
  exact ⟨h.noLetter, h.noNumeric⟩

theorem mark_openArray : Mark '[' .openArray := ⟨rfl, rfl, rfl⟩
theorem mark_closeArray : Mark ']' .closeArray := ⟨rfl, rfl, rfl⟩
theorem mark_openObject : Mark '{' .openObject := ⟨rfl, rfl, rfl⟩
theorem mark_closeObject : Mark '}' .closeObject := ⟨rfl, rfl, rfl⟩
theorem mark_colon : Mark ':' .colon := ⟨rfl, rfl, rfl⟩
theorem mark_comma : Mark ',' .comma := ⟨rfl, rfl, rfl⟩

theorem lexes_nil : Lexes [] [] := by
  intro rest _
  simp

/-- A mark in front of a text. -/
theorem Lexes.mark {c : Char} {t : Token} {text : List Char} {ts : List Token} (hc : Mark c t)
    (h : Lexes text ts) : Lexes (c :: text) (t :: ts) := by
  intro rest hrest
  rw [List.cons_append, tokensFrom?_found (show step? .between c = _ from hc.start), h rest hrest,
    Option.map_map]
  rfl

/-- A text, a mark, and a text behind it. -/
theorem Lexes.append_mark {c : Char} {t : Token} {text more : List Char} {ts us : List Token}
    (h : Lexes text ts) (hc : Mark c t) (hmore : Lexes more us) :
    Lexes (text ++ c :: more) (ts ++ t :: us) := by
  intro rest hrest
  have hfirst := h (c :: more ++ rest) (hc.stops (more ++ rest))
  rw [List.append_assoc, hfirst, hmore.mark hc rest hrest, Option.map_map]
  simp [Function.comp_def]

/-! ## Words and numbers -/

/-- A word or number ends where a character stands that does not belong to it. -/
theorem tokensFrom?_ended {state : Lexing} {t : Token} {rest : List Char}
    (hfinish : state.finish? = some [t]) (hrest : ∀ c ∈ rest.head?, state.step? c = restart? state c) :
    state.tokensFrom? rest = (tokensFrom? .between rest).map (t :: ·) := by
  cases rest with
  | nil => exact hfinish
  | cons c rest =>
    rw [tokensFrom?, hrest c rfl, restart?, hfinish, Option.bind_some, tokensFrom?,
      show step? .between c = start? c from rfl]
    -- the character is read afresh, as it is behind the ended word
    cases start? c with
    | none => rfl
    | some result => simp [Function.comp_def]

section

-- words and numbers are collected alike: `wrap` is the state, `belongs` says which characters stay in it
variable {wrap : List Char → Lexing} {belongs : Char → Bool}

theorem tokensFrom?_collected
    (hcollect : ∀ cs c, belongs c = true → step? (wrap cs) c = some (wrap (c :: cs), []))
    (collected : List Char) {more : List Char} (h : ∀ c ∈ more, belongs c = true) (rest : List Char) :
    tokensFrom? (wrap collected) (more ++ rest) = tokensFrom? (wrap (more.reverse ++ collected)) rest := by
  induction more generalizing collected with
  | nil => rfl
  | cons c more ih =>
    have hstep := hcollect collected c (h c List.mem_cons_self)
    rw [List.cons_append, tokensFrom?_next hstep, ih _ fun d hd => h d (List.mem_cons_of_mem _ hd)]
    simp

/-- A whole word or number. -/
theorem tokensFrom?_gathered {c : Char} {more rest : List Char} {t : Token}
    (hcollect : ∀ cs c, belongs c = true → step? (wrap cs) c = some (wrap (c :: cs), []))
    (hstart : start? c = some (wrap [c], [])) (hmore : ∀ d ∈ more, belongs d = true)
    (hfinish : finish? (wrap (c :: more).reverse) = some [t])
    (hrest : ∀ cs, ∀ d ∈ rest.head?, step? (wrap cs) d = restart? (wrap cs) d) :
    tokensFrom? .between (c :: (more ++ rest)) = (tokensFrom? .between rest).map (t :: ·) := by
  rw [List.reverse_cons] at hfinish
  rw [tokensFrom?_next (show step? .between c = _ from hstart), tokensFrom?_collected hcollect _ hmore]
  exact tokensFrom?_ended hfinish (hrest _)

end

theorem tokensFrom?_word {c : Char} {letters rest : List Char} {t : Token}
    (hstart : start? c = some (.word [c], [])) (hletters : ∀ d ∈ letters, isLetter d = true)
    (hword : Token.ofWord? (c :: letters) = some t) (hrest : ∀ d ∈ rest.head?, isLetter d = false) :
    tokensFrom? .between (c :: (letters ++ rest)) = (tokensFrom? .between rest).map (t :: ·) := by
  have hcollect : ∀ cs d, isLetter d = true → step? (.word cs) d = some (.word (d :: cs), []) :=
    fun _ _ hd => if_pos hd
  have hended : ∀ cs, ∀ d ∈ rest.head?, step? (.word cs) d = restart? (.word cs) d :=
    fun _ d hd => if_neg (by simp [hrest d hd])
  refine tokensFrom?_gathered hcollect hstart hletters ?_ hended
  rw [finish?, List.reverse_reverse, hword]
  rfl

theorem tokensFrom?_number {c : Char} {characters rest : List Char} {v : Json}
    (hstart : start? c = some (.number [c], [])) (hnumeric : ∀ d ∈ characters, isNumeric d = true)
    (hnumber : readNumber? (c :: characters) = some v) (hrest : ∀ d ∈ rest.head?, isNumeric d = false) :
    tokensFrom? .between (c :: (characters ++ rest)) =
      (tokensFrom? .between rest).map (.scalar v :: ·) := by
  have hcollect : ∀ cs d, isNumeric d = true → step? (.number cs) d = some (.number (d :: cs), []) :=
    fun _ _ hd => if_pos hd
  have hended : ∀ cs, ∀ d ∈ rest.head?, step? (.number cs) d = restart? (.number cs) d :=
    fun _ d hd => if_neg (by simp [hrest d hd])
  refine tokensFrom?_gathered hcollect hstart hnumeric ?_ hended
  rw [finish?, List.reverse_reverse, hnumber]
  rfl

theorem lexes_word {c : Char} {letters : List Char} {t : Token}
    (hstart : start? c = some (.word [c], [])) (hletters : letters.all isLetter = true)
    (hword : Token.ofWord? (c :: letters) = some t) : Lexes (c :: letters) [t] := fun _ hrest =>
  tokensFrom?_word hstart (List.all_eq_true.mp hletters) hword fun d hd => (hrest d hd).1

theorem lexes_number {c : Char} {characters : List Char} {v : Json}
    (hstart : start? c = some (.number [c], [])) (hnumeric : ∀ d ∈ characters, isNumeric d = true)
    (hnumber : readNumber? (c :: characters) = some v) : Lexes (c :: characters) [.scalar v] :=
  fun _ hrest => tokensFrom?_number hstart hnumeric hnumber fun d hd => (hrest d hd).2

theorem isNumeric_of_isAsciiDigit {c : Char} (h : isAsciiDigit c = true) : isNumeric c = true := by
  simp [isNumeric, h]

/-- A number begins with a digit or a minus sign. -/
theorem start?_digit {c : Char} (h : isAsciiDigit c = true) :
    start? c = some (.number [c], []) := by
  have hcode : 0x30 ≤ c.toNat ∧ c.toNat ≤ 0x39 := toNat_of_isSome_digitValue? h
  -- no other class of characters that `start?` asks for has a digit
  have hother : ∀ d : Char, (d.toNat < 0x30 ∨ 0x39 < d.toNat) → c ≠ d := by
    rintro d hd rfl
    omega
  have hspace : isSpace c = false := by
    simp [isSpace, hother ' ' (by decide), hother '\n' (by decide), hother '\r' (by decide),
      hother '\t' (by decide)]
  have hletter : isLetter c = false := by
    have : ¬ 'a' ≤ c := fun ha => absurd (show 0x61 ≤ c.toNat from ha) (by omega)
    simp [isLetter, this]
  simp [start?, hspace, hletter, hother '"' (by decide), isNumeric_of_isAsciiDigit h]

theorem lexes_intText {n : Int} (h : IntRange n) : Lexes (intText n) [.scalar (.int n)] := by
  have hread := readNumber?_intText h
  have hdigits : ∀ c ∈ decimal n.natAbs, isNumeric c = true :=
    fun c hc => isNumeric_of_isAsciiDigit (isAsciiDigit_of_mem_decimal hc)
  by_cases hn : n < 0
  · have htext : intText n = '-' :: decimal n.natAbs := if_pos hn
    rw [htext] at hread ⊢
    exact lexes_number rfl hdigits hread
  · have htext : intText n = decimal n.natAbs := if_neg hn
    rw [htext] at hread ⊢
    cases hcs : decimal n.natAbs with
    | nil => exact absurd hcs (decimal_ne_nil _)
    | cons c more =>
      have hc : isAsciiDigit c = true := isAsciiDigit_of_mem_decimal (hcs ▸ List.mem_cons_self)
      rw [hcs] at hread hdigits
      exact lexes_number (start?_digit hc) (fun d hd => hdigits d (List.mem_cons_of_mem _ hd)) hread

/-! ## Strings -/

theorem hexValue?_hexDigit {n : Nat} (h : n < 16) : hexValue? (hexDigit n) = some n := by
  have all : ∀ n, n < 16 → hexValue? (hexDigit n) = some n := by decide
  exact all n h

/-- A control character without a short form is read from its code. -/
theorem tokensFrom?_code {c : Char} (h : c.toNat < 0x20) (collected rest : List Char) :
    tokensFrom? (.string collected)
      ('\\' :: 'u' :: '0' :: '0' :: hexDigit (c.toNat / 16) :: hexDigit (c.toNat % 16) :: rest) =
      tokensFrom? (.string (c :: collected)) rest := by
  have hhigh : hexValue? (hexDigit (c.toNat / 16)) = some (c.toNat / 16) :=
    hexValue?_hexDigit (by omega)
  have hlow : hexValue? (hexDigit (c.toNat % 16)) = some (c.toNat % 16) :=
    hexValue?_hexDigit (by omega)
  have hvalue : 16 * (c.toNat / 16) + c.toNat % 16 = c.toNat := Nat.div_add_mod _ _
  have hend : endCode? collected none c.toNat = some (.string (c :: collected)) := by
    unfold endCode?
    simp only
    rw [if_neg (by omega), if_neg (by omega), Char.ofNat_toNat]
  have h₁ : step? (.code collected none 2 0) (hexDigit (c.toNat / 16)) =
      some (.code collected none 1 (c.toNat / 16), []) := by
    rw [step?, hhigh]
    simp
  have h₂ : step? (.code collected none 1 (c.toNat / 16)) (hexDigit (c.toNat % 16)) =
      some (.string (c :: collected), []) := by
    rw [step?, hlow, Option.bind_some]
    simp only [hvalue, if_true, hend]
    rfl
  rw [tokensFrom?_next (show _ = some (.escape collected, []) from rfl),
    tokensFrom?_next (show _ = some (.code collected none 4 0, []) from rfl),
    tokensFrom?_next (show _ = some (.code collected none 3 0, []) from rfl),
    tokensFrom?_next (show _ = some (.code collected none 2 0, []) from rfl),
    tokensFrom?_next h₁, tokensFrom?_next h₂]

/-- The text of one character of a string is read as this character. -/
theorem tokensFrom?_escape (c : Char) (collected rest : List Char) :
    tokensFrom? (.string collected) (escape c ++ rest) = tokensFrom? (.string (c :: collected)) rest := by
  have hshort : ∀ d, unescape? d = some c → d ≠ 'u' →
      tokensFrom? (.string collected) (['\\', d] ++ rest) = tokensFrom? (.string (c :: collected)) rest := by
    intro d hd hu
    have hstep : step? (.escape collected) d = some (.string (c :: collected), []) := by
      rw [step?, if_neg hu, hd]
      rfl
    exact (tokensFrom?_next rfl _).trans (tokensFrom?_next hstep rest)
  -- one case for each way to write a character: short escapes, the character itself, its code
  unfold escape
  split
  · next h => exact hshort '"' (by rw [h]; rfl) (by decide)
  split
  · next h => exact hshort '\\' (by rw [h]; rfl) (by decide)
  split
  · next hquote hslash h =>
    have hstep : step? (.string collected) c = some (.string (c :: collected), []) := by
      rw [step?, if_neg hquote, if_neg hslash, if_neg (by omega)]
    exact tokensFrom?_next hstep rest
  split
  · next h => exact hshort 'b' (by rw [h]; rfl) (by decide)
  split
  · next h => exact hshort 'f' (by rw [h]; rfl) (by decide)
  split
  · next h => exact hshort 'n' (by rw [h]; rfl) (by decide)
  split
  · next h => exact hshort 'r' (by rw [h]; rfl) (by decide)
  split
  · next h => exact hshort 't' (by rw [h]; rfl) (by decide)
  · exact tokensFrom?_code (by omega) collected rest

theorem tokensFrom?_escapes (s collected rest : List Char) :
    tokensFrom? (.string collected) (s.flatMap escape ++ rest) =
      tokensFrom? (.string (s.reverse ++ collected)) rest := by
  induction s generalizing collected with
  | nil => rfl
  | cons c s ih =>
    rw [List.flatMap_cons, List.append_assoc, tokensFrom?_escape, ih]
    simp

theorem lexes_quote (s : String) : Lexes (quote s) [.string s] := by
  intro rest _
  have hclose : step? (.string s.toList.reverse) '"' = some (.between, [.string s]) := by
    simp [step?]
  rw [quote, List.cons_append, tokensFrom?_next (show step? .between '"' = some (.string [], []) from rfl),
    List.append_assoc, tokensFrom?_escapes, List.append_nil]
  exact tokensFrom?_found hclose rest

/-! ## Values -/

theorem lexes_itemsText {items : List Json} (h : ∀ v ∈ items, Lexes v.text v.tokens) :
    Lexes (itemsText items) (itemsTokens items) := by
  match items with
  | [] => exact lexes_nil
  | [v] => exact h v List.mem_cons_self
  | v :: w :: items =>
    have hrest : Lexes (itemsText (w :: items)) (itemsTokens (w :: items)) :=
      lexes_itemsText fun u hu => h u (List.mem_cons_of_mem _ hu)
    exact (h v List.mem_cons_self).append_mark mark_comma hrest

theorem lexes_membersText {members : List (String × Json)}
    (h : ∀ m ∈ members, Lexes m.2.text m.2.tokens) :
    Lexes (membersText members) (membersTokens members) := by
  match members with
  | [] => exact lexes_nil
  | [(key, v)] => exact (lexes_quote key).append_mark mark_colon (h (key, v) List.mem_cons_self)
  | (key, v) :: m :: members =>
    have hrest : Lexes (membersText (m :: members)) (membersTokens (m :: members)) :=
      lexes_membersText fun m' hm' => h m' (List.mem_cons_of_mem _ hm')
    have hvalue : Lexes v.text v.tokens := h (key, v) List.mem_cons_self
    exact (lexes_quote key).append_mark mark_colon (hvalue.append_mark mark_comma hrest)

/-- The text of an exact value has the tokens of the value. -/
theorem lexes_text {v : Json} (hv : Exact v) : Lexes v.text v.tokens := by
  -- behind an item or a member stands a comma or a closing bracket, which is a mark
  induction hv with
  | null => exact lexes_word rfl rfl rfl
  | bool b => cases b <;> exact lexes_word rfl rfl rfl
  | int n range => exact lexes_intText range
  | string s => exact lexes_quote s
  | array items _ ih =>
    exact ((lexes_itemsText ih).append_mark mark_closeArray lexes_nil).mark mark_openArray
  | object members _ _ ih =>
    exact ((lexes_membersText ih).append_mark mark_closeObject lexes_nil).mark mark_openObject

/-- **A whole written text has the tokens of its value.** -/
theorem tokens?_text {v : Json} (hv : Exact v) : tokens? v.text = some v.tokens := by
  have h := lexes_text hv [] stops_nil
  rw [List.append_nil] at h
  rw [tokens?_eq, h]
  simp [tokensFrom?, finish?]

end Json
end NoticeServer
