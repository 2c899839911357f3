import NoticeServer.Proofs.Notice.Line

/-!
# `NoticeServer.Proofs.Notice.FieldRun` — where the path of a notice ends

A path may hold complete runs of fields, and the message may hold parts of one. A run begins with the label of
the first line, and none of the labels behind it, no digit and no colon lets another run begin before the
message (`clear_run`). So the path ends before the last run of the line: a cut has the longest path just if
its message holds no complete run (`Split.Cuts.longest_iff`).
-/

namespace NoticeServer

open Text

/-! ## Runs of fields -/

/-- The four labelled numbers, with the mark before the message. -/
def Fields.run (f : Fields) : List Char :=
  startLineLabel ++ f.startLine ++ startColumnLabel ++ f.startColumn ++
    endLineLabel ++ f.endLine ++ endColumnLabel ++ f.endColumn ++ messageMark

/-- Somewhere in the text stands a complete run of fields. -/
def HoldsRun (text : List Char) : Prop := ∃ f : Fields, f.Numbered ∧ f.run <:+: text

theorem Fields.text_eq_run (f : Fields) : f.text = f.run ++ f.message := rfl

/-- The message has no part in the numbers. -/
theorem Fields.Numbered.with_message {f : Fields} (h : f.Numbered) (message : List Char) :
    Fields.Numbered { f with message } := ⟨h.startLine, h.startColumn, h.endLine, h.endColumn⟩

theorem Fields.lineFeed_not_mem_run {f : Fields} (h : f.Numbered) : '\n' ∉ f.run := by
  have htext := (Fields.lineFeed_mem_text (h.with_message [])).not.mpr List.not_mem_nil
  rwa [Fields.text_eq_run, List.append_nil] at htext

/-- One more character completes a run only if it is the colon at its end. -/
theorem HoldsRun.of_concat {text : List Char} {c : Char} (h : HoldsRun (text ++ [c])) (hc : c ≠ ':') :
    HoldsRun text := by
  obtain ⟨f, hf, front, more, hrun⟩ := h
  rcases List.eq_nil_or_concat more with rfl | ⟨more, d, rfl⟩
  · -- the run would end with this character
    have hlast : (front ++ f.run ++ []).getLast? = some ':' := by simp [Fields.run, messageMark]
    rw [hrun, List.getLast?_concat] at hlast
    exact absurd (Option.some.inj hlast) hc
  · rw [List.concat_eq_append, ← List.append_assoc] at hrun
    exact ⟨f, hf, front, more, (List.append_inj' hrun rfl).1⟩

/-! ## Texts in which no run begins -/

/-- No run of fields begins within the text, whatever stands behind it. -/
def Clear (text : List Char) : Prop :=
  ∀ more front rest, text ++ more = front ++ (startLineLabel ++ rest) → text <+: front

theorem clear_append {s t : List Char} (hs : Clear s) (ht : Clear t) : Clear (s ++ t) := by
  intro more front rest h
  rw [List.append_assoc] at h
  obtain ⟨behind, rfl⟩ := hs _ _ _ h
  rw [List.append_assoc] at h
  exact (List.prefix_append_right_inj s).mpr (ht _ _ _ (List.append_cancel_left h))

/-- A run begins with a comma. -/
theorem clear_of_comma_not_mem {text : List Char} (h : ',' ∉ text) : Clear text := by
  intro more front rest heq
  rcases List.append_eq_append_iff.mp heq with ⟨behind, hfront, -⟩ | ⟨behind, htext, hrest⟩
  · exact ⟨behind, hfront.symm⟩
  · cases behind with
    | nil => exact ⟨[], by rw [htext, List.append_nil, List.append_nil]⟩
    | cons c behind =>
      obtain rfl : ',' = c := (List.cons.inj hrest).1
      exact absurd (htext ▸ List.mem_append_right front List.mem_cons_self) h

/-- A label that does not go on like that of the first line. -/
theorem clear_label {c : Char} {label : List Char} (hc : c ≠ 'l') (hlabel : ',' ∉ c :: label) :
    Clear (',' :: c :: label) := by
  intro more front rest heq
  cases front with
  | nil => exact absurd (List.cons.inj (List.cons.inj heq).2).1 hc
  | cons d front =>
    obtain ⟨rfl, hbehind⟩ := List.cons.inj heq
    exact List.cons_prefix_cons.mpr ⟨rfl, clear_of_comma_not_mem hlabel _ _ _ hbehind⟩

theorem clear_digits {digits : List Char} (h : DigitRun digits) : Clear digits := by
  refine clear_of_comma_not_mem fun hcomma => ?_
  have hdigit := h.all _ hcomma
  exact absurd hdigit (by decide)

/-- Behind its first character a run is clear. -/
theorem clear_run {f : Fields} (h : f.Numbered) : ∃ behind, f.run = ',' :: behind ∧ Clear behind := by
  have hfirst : Clear "line=".toList := clear_of_comma_not_mem (by decide)
  have hstartColumn : Clear startColumnLabel := clear_label (by decide) (by decide)
  have hendLine : Clear endLineLabel := clear_label (by decide) (by decide)
  have hendColumn : Clear endColumnLabel := clear_label (by decide) (by decide)
  have hmark : Clear messageMark := clear_of_comma_not_mem (by decide)
  have hstart := clear_append (clear_append hfirst (clear_digits h.startLine))
    (clear_append hstartColumn (clear_digits h.startColumn))
  have hend := clear_append (clear_append hendLine (clear_digits h.endLine))
    (clear_append hendColumn (clear_digits h.endColumn))
  refine ⟨_, ?_, clear_append (clear_append hstart hend) hmark⟩
  simp only [Fields.run, startLineLabel, List.append_assoc]
  rfl

/-! ## The longest path -/

/-- A cut of a line whose path goes further than that of another cut ends in the message of the latter. -/
theorem Split.Cuts.holdsRun_of_lt {s t : Split} {line : List Char} (hs : s.Cuts line) (ht : t.Cuts line)
    (hlt : s.path.length < t.path.length) : HoldsRun s.fields.message := by
  have htext : s.path ++ s.fields.text = t.path ++ t.fields.text := by
    have hline := hs.text.trans ht.text.symm
    rw [Split.text, Split.text, List.append_assoc, List.append_assoc] at hline
    exact List.append_cancel_left hline
  rcases List.append_eq_append_iff.mp htext with ⟨behind, hpath, hfields⟩ | ⟨behind, hpath, -⟩
  · -- the path of `t` goes on with `behind`, which is more than the run of `s`
    obtain ⟨clear, hrun, hclear⟩ := clear_run hs.numbers
    have hrest : s.fields.text = ',' :: (clear ++ s.fields.message) := by
      rw [Fields.text_eq_run, hrun, List.cons_append]
    have hlabel : ∃ more, t.fields.text = startLineLabel ++ more := ⟨_, t.fields.text_eq⟩
    obtain ⟨more, hmore⟩ := hlabel
    cases behind with
    | nil =>
      rw [List.append_nil] at hpath
      exact absurd hlt (by rw [hpath]; exact Nat.lt_irrefl _)
    | cons c behind =>
      rw [hrest, List.cons_append] at hfields
      have htail := (List.cons.inj hfields).2
      obtain ⟨front, rfl⟩ := hclear _ _ _ (hmore ▸ htail)
      rw [List.append_assoc] at htail
      refine ⟨t.fields, ht.numbers, front, t.fields.message, ?_⟩
      rw [List.append_cancel_left htail, Fields.text_eq_run, List.append_assoc]
  · rw [hpath, List.length_append] at hlt
    omega

/-- A cut whose message holds a run is not the one with the longest path. -/
theorem Split.Longest.not_holdsRun {s : Split} {line : List Char} (h : s.Longest line) :
    ¬ HoldsRun s.fields.message := by
  rintro ⟨f, hf, front, message, hmessage⟩
  have hcuts : Split.Cuts ⟨s.path ++ (s.fields.run ++ front), { f with message }⟩ line := by
    have hfeed := h.cuts.message
    rw [← hmessage, List.mem_append, List.mem_append, not_or, not_or] at hfeed
    have hrun := Fields.lineFeed_not_mem_run h.cuts.numbers
    refine ⟨?_, by simp [h.cuts.path_ne_nil], ?_, hf.with_message message, hfeed.2⟩
    · rw [← h.cuts.text, Split.text, Split.text, Fields.text_eq_run, Fields.text_eq_run, ← hmessage]
      simp only [Fields.run, List.append_assoc]
    · simp only [List.mem_append, not_or]
      exact ⟨h.cuts.path, hrun, hfeed.1.1⟩
  have hlength := h.length_le _ hcuts
  have hrun : s.fields.run.length ≠ 0 := by
    obtain ⟨behind, hrun, -⟩ := clear_run h.cuts.numbers
    rw [hrun]
    exact nofun
  simp only [List.length_append] at hlength
  omega

/-- **The longest path, told from the message.** A cut of a line has the longest path just if its message
holds no complete run of fields. -/
theorem Split.Cuts.longest_iff {s : Split} {line : List Char} (h : s.Cuts line) :
    s.Longest line ↔ ¬ HoldsRun s.fields.message := by
  constructor
  · exact Split.Longest.not_holdsRun
  · intro hnone
    refine ⟨h, fun t ht => Nat.le_of_not_lt fun hlt => ?_⟩
    exact hnone (h.holdsRun_of_lt ht hlt)

end NoticeServer
