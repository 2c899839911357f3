import Mathlib.Data.List.Basic
import NoticeServer.Config.Environment

/-!
# `NoticeServer.Proofs.Config.Environment` — texts as templates

Every text is, in exactly one way, literals and references in turn, where an opening that is never closed
may stand at the end (`Template`, `Template.existsUnique_text`). Replacing references depends on this form
alone: the literals and that end stay, and each reference gives way to its value, which is not looked at
again (`expandReferences_template`).

That a form is unique rests on two facts about where its parts end: a literal goes up to the first opening
(`plain_append_inj`), and a name up to the first brace that closes (`unclosed_append_inj`).
-/

namespace NoticeServer

/-! ## Templates -/

/-- What a reference begins with. -/
def referenceStart : List Char := ['$', '{']

/-- A text in which no reference begins. -/
@[ext]
structure Literal where
  text : List Char
  plain : ¬ referenceStart <:+: text

/-- A text that closes no reference: the name of one, or all behind an opening that is never closed. -/
@[ext]
structure Unclosed where
  text : List Char
  unclosed : '}' ∉ text

/-- Literals and references in turn. -/
inductive Template where
  | plain (literal : Literal)
  | unterminated (literal : Literal) (tail : Unclosed)
  | reference (literal : Literal) (name : Unclosed) (rest : Template)

/-- The value of a variable, and nothing if its name is empty or it is not set. -/
def Environment.valueOf (env : Environment) : (name : List Char) → List Char
  | [] => []
  | c :: name =>
    match env (String.ofList (c :: name)) with
    | none => []
    | some value => value.toList

namespace Template

/-- The text of this form. -/
def text : Template → List Char
  | plain literal => literal.text
  | unterminated literal tail => literal.text ++ (referenceStart ++ tail.text)
  | reference literal name rest => literal.text ++ (referenceStart ++ name.text ++ '}' :: rest.text)

/-- The text with the value of its variable in place of each reference. -/
def expanded (env : Environment) : Template → List Char
  | plain literal => literal.text
  | unterminated literal tail => literal.text ++ (referenceStart ++ tail.text)
  | reference literal name rest => literal.text ++ (env.valueOf name.text ++ rest.expanded env)

end Template

/-! ## Where parts end -/

/-- What may stand behind a literal: nothing, or an opening. -/
def EndsLiteral (rest : List Char) : Prop := rest = [] ∨ referenceStart <+: rest

theorem endsLiteral_opening (rest : List Char) : EndsLiteral (referenceStart ++ rest) :=
  .inr (List.prefix_append referenceStart rest)

theorem plain_nil : ¬ referenceStart <:+: [] := by decide

theorem plain_cons_iff {c : Char} {text : List Char} :
    ¬ referenceStart <:+: c :: text ↔ ¬ referenceStart <+: c :: text ∧ ¬ referenceStart <:+: text := by
  rw [List.infix_cons_iff, not_or]

/-- No opening lies across the end of a literal. -/
theorem not_opening_append {c : Char} {literal rest : List Char} (h : ¬ referenceStart <+: c :: literal)
    (hrest : EndsLiteral rest) : ¬ referenceStart <+: c :: (literal ++ rest) := by
  cases literal with
  | nil =>
    rcases hrest with rfl | ⟨more, rfl⟩
    · exact h
    · simp [referenceStart, List.cons_prefix_cons]
  | cons d literal =>
    simp only [referenceStart, List.cons_append, List.cons_prefix_cons, List.nil_prefix, and_true] at h ⊢
    exact h

/-- **The first literal ends at the first opening**, so a text has only one. -/
theorem plain_append_inj {l m x y : List Char} (hl : ¬ referenceStart <:+: l) (hm : ¬ referenceStart <:+: m)
    (hx : EndsLiteral x) (hy : EndsLiteral y) (h : l ++ x = m ++ y) : l = m ∧ x = y := by
  -- a literal that goes on where the other has ended would have to begin with the opening
  have hends : ∀ {c : Char} {l x y : List Char}, ¬ referenceStart <:+: c :: l → EndsLiteral x → EndsLiteral y →
      y ≠ c :: l ++ x := by
    intro c l x y hplain hx hy hxy
    rcases hy with rfl | hopening
    · cases hxy
    · rw [hxy] at hopening
      exact not_opening_append (plain_cons_iff.mp hplain).1 hx hopening
  induction l generalizing m with
  | nil =>
    cases m with
    | nil => exact ⟨rfl, h⟩
    | cons c m => exact absurd h (hends hm hy hx)
  | cons c l ih =>
    cases m with
    | nil => exact absurd h.symm (hends hl hx hy)
    | cons d m =>
      obtain ⟨rfl, hrest⟩ := List.cons.inj h
      obtain ⟨rfl, hxy⟩ := ih (plain_cons_iff.mp hl).2 (plain_cons_iff.mp hm).2 hrest
      exact ⟨rfl, hxy⟩

/-- Every text begins with a literal. -/
theorem exists_plain (text : List Char) :
    ∃ l x, text = l ++ x ∧ ¬ referenceStart <:+: l ∧ EndsLiteral x := by
  induction text with
  | nil => exact ⟨[], [], rfl, plain_nil, .inl rfl⟩
  | cons c text ih =>
    by_cases hopening : referenceStart <+: c :: text
    · exact ⟨[], c :: text, rfl, plain_nil, .inr hopening⟩
    · obtain ⟨l, x, rfl, hl, hx⟩ := ih
      refine ⟨c :: l, x, rfl, plain_cons_iff.mpr ⟨fun hprefix => hopening ?_, hl⟩, hx⟩
      exact hprefix.trans (List.prefix_append (c :: l) x)

/-- **A name ends at the first brace that closes.** -/
theorem unclosed_append_inj {n m x y : List Char} (hn : '}' ∉ n) (hm : '}' ∉ m)
    (h : n ++ '}' :: x = m ++ '}' :: y) : n = m ∧ x = y := by
  induction n generalizing m with
  | nil =>
    cases m with
    | nil => exact ⟨rfl, (List.cons.inj h).2⟩
    | cons c m => exact absurd ((List.cons.inj h).1 ▸ List.mem_cons_self) hm
  | cons c n ih =>
    cases m with
    | nil => exact absurd ((List.cons.inj h).1 ▸ List.mem_cons_self) hn
    | cons d m =>
      obtain ⟨rfl, hrest⟩ := List.cons.inj h
      rw [List.mem_cons, not_or] at hn hm
      obtain ⟨rfl, hxy⟩ := ih hn.2 hm.2 hrest
      exact ⟨rfl, hxy⟩

/-! ## One form for each text -/

namespace Template

/-- The first literal. -/
def literal : Template → Literal
  | plain literal => literal
  | unterminated literal _ => literal
  | reference literal _ _ => literal

/-- All behind the first literal. -/
def behind : Template → List Char
  | plain _ => []
  | unterminated _ tail => referenceStart ++ tail.text
  | reference _ name rest => referenceStart ++ name.text ++ '}' :: rest.text

theorem text_eq (t : Template) : t.text = t.literal.text ++ t.behind := by
  cases t with
  | plain literal => exact (List.append_nil _).symm
  | unterminated literal tail => rfl
  | reference literal name rest => rfl

theorem endsLiteral_behind (t : Template) : EndsLiteral t.behind := by
  cases t with
  | plain literal => exact .inl rfl
  | unterminated literal tail => exact endsLiteral_opening _
  | reference literal name rest =>
    rw [behind, List.append_assoc]
    exact endsLiteral_opening _

/-- Texts that agree have the same first literal, and the same behind it. -/
theorem parts_of_text {t u : Template} (h : t.text = u.text) :
    t.literal = u.literal ∧ t.behind = u.behind := by
  rw [text_eq, text_eq] at h
  obtain ⟨hliteral, hbehind⟩ :=
    plain_append_inj t.literal.plain u.literal.plain t.endsLiteral_behind u.endsLiteral_behind h
  exact ⟨Literal.ext hliteral, hbehind⟩

/-- An opening that is never closed begins no reference. -/
theorem unterminated_ne_reference {l m : Literal} {tail name : Unclosed} {rest : Template} :
    (unterminated l tail).behind ≠ (reference m name rest).behind := by
  intro h
  rw [behind, behind, List.append_assoc] at h
  have htail : tail.text = name.text ++ '}' :: rest.text := List.append_cancel_left h
  exact tail.unclosed (htail ▸ List.mem_append_right _ List.mem_cons_self)

/-- **A text has at most one form.** -/
theorem text_injective {t u : Template} (h : t.text = u.text) : t = u := by
  induction t generalizing u with
  | plain l =>
    obtain ⟨hliteral, hbehind⟩ := parts_of_text h
    cases u with
    | plain m => exact congrArg plain hliteral
    | unterminated m tail => cases hbehind
    | reference m name rest => cases hbehind
  | unterminated l tail =>
    obtain ⟨hliteral, hbehind⟩ := parts_of_text h
    cases u with
    | plain m => cases hbehind
    | unterminated m tail' =>
      have htail : tail = tail' := Unclosed.ext (List.append_cancel_left hbehind)
      exact congrArg₂ unterminated hliteral htail
    | reference m name rest => exact absurd hbehind unterminated_ne_reference
  | reference l name rest ih =>
    obtain ⟨hliteral, hbehind⟩ := parts_of_text h
    cases u with
    | plain m => cases hbehind
    | unterminated m tail => exact absurd hbehind.symm unterminated_ne_reference
    | reference m name' rest' =>
      rw [behind, behind, List.append_assoc, List.append_assoc] at hbehind
      obtain ⟨hname, hrest⟩ :=
        unclosed_append_inj name.unclosed name'.unclosed (List.append_cancel_left hbehind)
      obtain rfl : l = m := hliteral
      rw [Unclosed.ext hname, ih hrest]

/-- **A text has a form.** -/
theorem exists_text (text : List Char) : ∃ t : Template, t.text = text := by
  -- behind a reference stands a shorter text
  induction hlength : text.length using Nat.strongRecOn generalizing text with
  | ind length ih =>
    obtain ⟨l, x, rfl, hplain, rfl | ⟨more, rfl⟩⟩ := exists_plain text
    · exact ⟨plain ⟨l, hplain⟩, (List.append_nil l).symm⟩
    · by_cases hclosed : '}' ∈ more
      · obtain ⟨name, rest, rfl, hname⟩ := List.eq_append_cons_of_mem hclosed
        have hshorter : rest.length < length := by
          simp only [← hlength, List.length_append, List.length_cons]
          omega
        obtain ⟨t, ht⟩ := ih rest.length hshorter rest rfl
        refine ⟨reference ⟨l, hplain⟩ ⟨name, hname⟩ t, ?_⟩
        rw [text, ht, List.append_assoc]
      · exact ⟨unterminated ⟨l, hplain⟩ ⟨more, hclosed⟩, rfl⟩

/-- **Every text has exactly one form.** -/
theorem existsUnique_text (text : List Char) : ∃! t : Template, t.text = text := by
  obtain ⟨t, ht⟩ := exists_text text
  exact ⟨t, ht, fun u hu => text_injective (hu.trans ht.symm)⟩

end Template

/-! ## Replacing references -/

theorem Environment.reference_eq_valueOf (env : Environment) (name : List Char) :
    env.reference name = env.valueOf name := by
  cases name with
  | nil => rfl
  | cons c name =>
    show ((env (String.ofList (c :: name))).getD "").toList = env.valueOf (c :: name)
    rw [valueOf]
    cases env (String.ofList (c :: name)) <;> rfl

variable {env : Environment}

/-- A character that begins no opening stays. -/
theorem expandFrom_cons {c : Char} {text : List Char} (h : ¬ referenceStart <+: c :: text) :
    expandFrom env none (c :: text) = c :: expandFrom env none text := by
  rw [expandFrom]
  rintro text' rfl rfl
  exact h (List.prefix_append referenceStart text')

/-- A literal stays. -/
theorem expandFrom_plain {l rest : List Char} (hl : ¬ referenceStart <:+: l) (hrest : EndsLiteral rest) :
    expandFrom env none (l ++ rest) = l ++ expandFrom env none rest := by
  induction l with
  | nil => rfl
  | cons c l ih =>
    obtain ⟨hopening, hl⟩ := plain_cons_iff.mp hl
    rw [List.cons_append, expandFrom_cons (not_opening_append hopening hrest), ih hl]
    rfl

/-- A reference gives way to its value; `start` is what has been read of its name. -/
theorem expandFrom_closed {name : List Char} (h : '}' ∉ name) (start rest : List Char) :
    expandFrom env (some start) (name ++ '}' :: rest) =
      env.reference (start.reverse ++ name) ++ expandFrom env none rest := by
  induction name generalizing start with
  | nil => rw [List.nil_append, expandFrom, if_pos rfl, List.append_nil]
  | cons c name ih =>
    rw [List.mem_cons, not_or] at h
    rw [List.cons_append, expandFrom, if_neg (Ne.symm h.1), ih h.2, List.reverse_cons, List.append_assoc]
    rfl

/-- What is never closed stays, with its opening. -/
theorem expandFrom_unclosed {tail : List Char} (h : '}' ∉ tail) (start : List Char) :
    expandFrom env (some start) tail = referenceStart ++ (start.reverse ++ tail) := by
  induction tail generalizing start with
  | nil => rw [expandFrom, List.append_nil]; rfl
  | cons c tail ih =>
    rw [List.mem_cons, not_or] at h
    rw [expandFrom, if_neg (Ne.symm h.1), ih h.2, List.reverse_cons, List.append_assoc]
    rfl

/-- The text of a form is replaced part by part. -/
theorem expandFrom_text (env : Environment) (t : Template) :
    expandFrom env none t.text = t.expanded env := by
  induction t with
  | plain l =>
    have hplain : expandFrom env none (l.text ++ []) = l.text ++ expandFrom env none [] :=
      expandFrom_plain l.plain (.inl rfl)
    rwa [List.append_nil, expandFrom, List.append_nil] at hplain
  | unterminated l tail =>
    rw [Template.text, expandFrom_plain l.plain (endsLiteral_opening _)]
    exact congrArg (l.text ++ ·) (expandFrom_unclosed tail.unclosed [])
  | reference l name rest ih =>
    rw [Template.text, List.append_assoc, expandFrom_plain l.plain (endsLiteral_opening _)]
    refine congrArg (l.text ++ ·) ((expandFrom_closed name.unclosed [] rest.text).trans ?_)
    rw [List.reverse_nil, List.nil_append, env.reference_eq_valueOf, ih]

/-- **References are replaced once, from left to right.** Every text is in exactly one way literals and
references in turn, closed or not at the end; and in every environment the text of such a form becomes the
same literals with the values of the references between them, whatever stands in these values. -/
theorem expandReferences_template (env : Environment) :
    (∀ text : String, ∃! t : Template, String.ofList t.text = text) ∧
    ∀ t : Template, expandReferences env (String.ofList t.text) = String.ofList (t.expanded env) := by
  refine ⟨fun text => ?_, fun t => ?_⟩
  · obtain ⟨t, ht, hunique⟩ := Template.existsUnique_text text.toList
    refine ⟨t, (congrArg String.ofList ht).trans String.ofList_toList, fun u hu => hunique u ?_⟩
    exact String.toList_ofList.symm.trans (congrArg String.toList hu)
  · rw [expandReferences, String.toList_ofList, expandFrom_text]

/-- A name may hold an opening, and a value may look like a reference. -/
example :
    expandReferences (fun name => if name = "X" then some "$\x7bX\x7d" else none)
      "$$\x7bX\x7d\x7d$\x7b\x7dé$\x7ba$\x7bX\x7d$\x7bX" = "$$\x7bX\x7d\x7dé$\x7bX" := by
  decide

end NoticeServer
