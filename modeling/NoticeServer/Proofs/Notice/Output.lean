import NoticeServer.Proofs.Notice.FieldRun
import NoticeServer.Proofs.Text.Blank
import NoticeServer.Proofs.Text.Line

/-!
# `NoticeServer.Proofs.Notice.Output` — notices between other lines

A notice whose message holds no complete run of fields is read back from the line that carries it
(`Notice.parse?_text`), and every notice that is read is such a one (`Notice.plain_of_parse?`). In an output the
lines with notices may stand between any other lines; each line is read for itself, so the notices are found
in their order (`Notice.notices_between_noise`).
-/

namespace NoticeServer

open Text

/-! ## Numbers -/

/-- A line or column is told by its numeral. -/
theorem isOrdinal_decimal (n : UInt32) : IsOrdinal (decimal n.toNat) n := by
  have hread := readBounded?_decimal (Nat.le_refl n.toNat)
  obtain ⟨hdigits, hvalue, -⟩ := Json.readBounded?_eq_some_iff.mp hread
  exact ⟨hdigits, hvalue⟩

/-- ASCII digits are digits. -/
theorem digitRun_of_digits {digits : List Char} (h : Json.Digits digits) : DigitRun digits where
  ne_nil := h.ne_nil
  all := by
    intro c hc
    obtain ⟨hlow, hhigh⟩ := toNat_of_isSome_digitValue? (h.all c hc)
    exact List.any_eq_true.mpr ⟨0x30, by decide, by simpa using ⟨hlow, hhigh⟩⟩

namespace Notice

/-! ## Lines with notices -/

/-- A line carries the notice that the cut with its longest path tells. -/
theorem parse?_eq_some_iff {line : List Char} {n : Notice} :
    parse? line = some n ↔ ∃ s : Split, s.Longest line ∧ s.Tells n := by
  rcases parse?_cases line with ⟨s, hs, hparse⟩ | ⟨hnone, hparse⟩
  · rw [hparse, Split.notice?_eq_some_iff]
    constructor
    · exact fun htells => ⟨s, hs, htells⟩
    · rintro ⟨t, ht, htells⟩
      rwa [hs.unique ht]
  · rw [hparse]
    exact iff_of_false nofun fun ⟨s, hs, _⟩ => hnone s hs.cuts

/-- A notice that a line can carry: it has a path, neither path nor message has a line feed, and the message
holds no complete run of fields. -/
structure Plain (n : Notice) : Prop where
  path_ne_nil : n.path.toList ≠ []
  path : '\n' ∉ n.path.toList
  message : '\n' ∉ n.message.toList
  run : ¬ HoldsRun n.message.toList

theorem tells_split (n : Notice) : n.split.Tells n where
  path := rfl
  startLine := isOrdinal_decimal n.startLine
  startColumn := isOrdinal_decimal n.startColumn
  endLine := isOrdinal_decimal n.endLine
  endColumn := isOrdinal_decimal n.endColumn
  message := rfl

theorem numbered_split (n : Notice) : n.split.fields.Numbered where
  startLine := digitRun_of_digits (isOrdinal_decimal n.startLine).ascii
  startColumn := digitRun_of_digits (isOrdinal_decimal n.startColumn).ascii
  endLine := digitRun_of_digits (isOrdinal_decimal n.endLine).ascii
  endColumn := digitRun_of_digits (isOrdinal_decimal n.endColumn).ascii

variable {n : Notice}

/-- **A plain notice is read back** from the line that carries it. -/
theorem parse?_text (h : n.Plain) : parse? n.text = some n := by
  have hcuts : n.split.Cuts n.text := ⟨rfl, h.path_ne_nil, h.path, n.numbered_split, h.message⟩
  exact parse?_eq_some_iff.mpr ⟨n.split, hcuts.longest_iff.mpr h.run, n.tells_split⟩

/-- **Every notice that is read is plain.** -/
theorem plain_of_parse? {line : List Char} (h : parse? line = some n) : n.Plain := by
  obtain ⟨s, hs, htells⟩ := parse?_eq_some_iff.mp h
  have hpath := htells.path
  have hmessage := htells.message
  exact ⟨hpath ▸ hs.cuts.path_ne_nil, hpath ▸ hs.cuts.path, hmessage ▸ hs.cuts.message,
    hmessage ▸ hs.not_holdsRun⟩

/-- No line feed stands on the line of a plain notice. -/
theorem lineFeed_not_mem_text (h : n.Plain) : '\n' ∉ n.text := by
  have hopening : '\n' ∉ opening := by decide
  have hfields := (Fields.lineFeed_mem_text n.numbered_split).not.mpr h.message
  show '\n' ∉ opening ++ n.path.toList ++ n.split.fields.text
  simp only [List.mem_append, not_or]
  exact ⟨⟨hopening, h.path⟩, hfields⟩

/-- The line of a notice ends as its message does. -/
theorem getLast?_text_eq (n : Notice) :
    n.text.getLast? = some '\r' ↔ n.message.toList.getLast? = some '\r' := by
  have htext : n.text = (opening ++ n.path.toList ++ n.split.fields.run) ++ n.message.toList := by
    show opening ++ n.path.toList ++ (n.split.fields.run ++ n.message.toList) = _
    simp only [List.append_assoc]
  rw [htext]
  cases hmessage : n.message.toList with
  | nil => simp [Fields.run, messageMark]
  | cons c message => simp [List.getLast?_append]

/-! ## Lines without notices -/

/-- A carriage return behind a line with a notice goes to the message. -/
theorem isSome_parse?_concat {line : List Char} (h : parse? line = some n) :
    (parse? (line ++ ['\r'])).isSome := by
  obtain ⟨s, hs, htells⟩ := parse?_eq_some_iff.mp h
  have hcuts : Split.Cuts { s with fields := { s.fields with message := s.fields.message ++ ['\r'] } }
      (line ++ ['\r']) := by
    refine ⟨?_, hs.cuts.path_ne_nil, hs.cuts.path, hs.cuts.numbers.with_message _, ?_⟩
    · rw [← hs.cuts.text]
      simp only [Split.text, Fields.text, List.append_assoc]
    · rw [List.mem_append, not_or]
      exact ⟨hs.cuts.message, by decide⟩
  have hnone : ¬ HoldsRun (s.fields.message ++ ['\r']) := fun hrun =>
    hs.not_holdsRun (hrun.of_concat (by decide))
  rw [Option.isSome_iff_exists]
  refine ⟨{ n with message := .ofList (s.fields.message ++ ['\r']) }, parse?_eq_some_iff.mpr
    ⟨_, hcuts.longest_iff.mpr hnone, ?_⟩⟩
  exact ⟨htells.path, htells.startLine, htells.startColumn, htells.endLine, htells.endColumn,
    String.toList_ofList⟩

/-- A line without a notice carries none without its carriage return, either. -/
theorem parse?_withoutReturn {line : List Char} (h : parse? line = none) :
    parse? (withoutReturn line) = none := by
  by_cases hreturn : line.getLast? = some '\r'
  · obtain ⟨start, rfl⟩ := List.getLast?_eq_some_iff.mp hreturn
    rw [withoutReturn_concat]
    cases hstart : parse? start with
    | none => rfl
    | some n =>
      have hsome := isSome_parse?_concat hstart
      rw [h] at hsome
      exact absurd hsome nofun
  · rwa [withoutReturn_of_getLast? hreturn]

/-- White space carries no notice. -/
theorem parse?_of_blank {line : List Char} (h : ∀ c ∈ line, isBlank c = true) : parse? line = none := by
  cases hparse : parse? line with
  | none => rfl
  | some n =>
    obtain ⟨s, hs, -⟩ := parse?_eq_some_iff.mp hparse
    have hopening : ':' ∈ opening := by decide
    have hblank : isBlank ':' = true := by
      refine h ':' ?_
      rw [← hs.cuts.text]
      exact List.mem_append_left _ (List.mem_append_left _ hopening)
    exact absurd hblank (by decide)

end Notice

/-! ## Outputs -/

/-- What ends a line. -/
inductive LineEnd where
  | lineFeed
  | returnLineFeed
  deriving DecidableEq, Repr

def LineEnd.text : LineEnd → List Char
  | lineFeed => ['\n']
  | returnLineFeed => ['\r', '\n']

/-- A line of an output, with its end: one that carries a notice, or another one. -/
inductive OutputLine where
  | notice (n : Notice) (ending : LineEnd)
  | noise (line : List Char) (ending : LineEnd)
  deriving DecidableEq, Repr

namespace OutputLine

def text : OutputLine → List Char
  | notice n ending => n.text ++ ending.text
  | noise line ending => line ++ ending.text

def notice? : OutputLine → Option Notice
  | notice n _ => some n
  | noise _ _ => none

/-- The notice is plain, and is told from the end of its line; the noise carries no notice. -/
inductive Valid : OutputLine → Prop where
  | notice {n : Notice} {ending : LineEnd} (plain : n.Plain)
      (hreturn : n.message.toList.getLast? = some '\r' → ending = .returnLineFeed) :
      Valid (notice n ending)
  | noise {line : List Char} {ending : LineEnd} (hfeed : '\n' ∉ line) (hnone : Notice.parse? line = none) :
      Valid (noise line ending)

end OutputLine

/-- A line with either end is read up to that end, or up to a carriage return of its own in front of it. -/
theorem lines_append_ending {line : List Char} (h : '\n' ∉ line) (ending : LineEnd) (rest : List Char) :
    lines (line ++ ending.text ++ rest) =
      (if ending = .returnLineFeed then line else withoutReturn line) :: lines rest := by
  rw [List.append_assoc]
  cases ending with
  | lineFeed => exact lines_append_lineFeed h rest
  | returnLineFeed =>
    have hreturn : '\n' ∉ line ++ ['\r'] := by
      rw [List.mem_append, not_or]
      exact ⟨h, by decide⟩
    have hlines := lines_append_lineFeed hreturn rest
    rw [List.append_assoc, withoutReturn_concat] at hlines
    exact hlines

namespace Notice

/-- **One line** gives its notice, whatever stands behind it. -/
theorem parseOutput_append {l : OutputLine} (h : l.Valid) (rest : List Char) :
    parseOutput (l.text ++ rest) = l.notice?.toList ++ parseOutput rest := by
  unfold parseOutput
  cases h with
  | @notice n ending plain hreturn =>
    have hline : (if ending = .returnLineFeed then n.text else withoutReturn n.text) = n.text := by
      split
      · rfl
      · next hfeed =>
        exact withoutReturn_of_getLast? fun hlast => hfeed (hreturn (n.getLast?_text_eq.mp hlast))
    rw [OutputLine.text, lines_append_ending (lineFeed_not_mem_text plain), hline,
      List.filterMap_cons_some (parse?_text plain)]
    rfl
  | @noise line ending hfeed hnone =>
    have hline : parse? (if ending = .returnLineFeed then line else withoutReturn line) = none := by
      split
      · exact hnone
      · exact parse?_withoutReturn hnone
    rw [OutputLine.text, lines_append_ending hfeed, List.filterMap_cons_none hline]
    rfl

/-- A last line without an end gives nothing if it carries no notice. -/
theorem parseOutput_of_lineFeed_not_mem {rest : List Char} (hfeed : '\n' ∉ rest) (hnone : parse? rest = none) :
    parseOutput rest = [] := by
  unfold parseOutput
  rw [lines_of_lineFeed_not_mem hfeed]
  split
  · rfl
  · rw [List.filterMap_cons_none hnone]
    rfl

/-- **Notices between noise.** Let the lines of an output carry plain notices or none at all, each with either
end, where a message that ends with a carriage return needs the longer one, and let what stands behind the
last line carry none. Then the notices of the output are those of its lines, in order. White space is such
noise. Conversely, a notice that is read from any line is plain, so its message holds no complete run of
fields, and it is read back from the line that carries it. -/
theorem notices_between_noise :
    (∀ (ls : List OutputLine) (rest : List Char), (∀ l ∈ ls, l.Valid) → '\n' ∉ rest → parse? rest = none →
      parseOutput (ls.flatMap OutputLine.text ++ rest) = ls.filterMap OutputLine.notice?) ∧
    (∀ line : List Char, (∀ c ∈ line, isBlank c = true) → parse? line = none) ∧
    ∀ (line : List Char) (n : Notice), parse? line = some n → n.Plain ∧ parse? n.text = some n := by
  refine ⟨?_, fun line => parse?_of_blank, ?_⟩
  · intro ls rest hvalid hfeed hnone
    induction ls with
    | nil => exact parseOutput_of_lineFeed_not_mem hfeed hnone
    | cons l ls ih =>
      obtain ⟨hl, hls⟩ := List.forall_mem_cons.mp hvalid
      rw [List.flatMap_cons, List.append_assoc, parseOutput_append hl, ih hls]
      cases l <;> rfl
  · intro line n hparse
    have hplain := plain_of_parse? hparse
    exact ⟨hplain, parse?_text hplain⟩

/-- A notice with a run of fields in its path, the start of one in its message, and a carriage return at the
end. -/
def crowded : Notice := ⟨"a,line=1,col=1,endLine=1,endColumn=1::b", 2, 3, 2, 9, "see c,line=٤,col=5\r"⟩

/-- The same without anything that is odd. -/
def ordinary : Notice := ⟨"a b.go", 0, 4294967295, 7, 1, ""⟩

/-- Both between an empty line, white space, a line with a number that is missing, and the start of a line. -/
def noisyOutput : List OutputLine :=
  [.noise [] .lineFeed, .notice crowded .returnLineFeed,
    .noise "::notice file=a.go,line=,col=1,endLine=1,endColumn=1::m\r".toList .lineFeed,
    .notice ordinary .lineFeed, .noise [' ', '\t'] .returnLineFeed]

theorem notices_noisyOutput :
    (∀ l ∈ noisyOutput, l.Valid) ∧
      parseOutput (noisyOutput.flatMap OutputLine.text ++ "::notice".toList) = [crowded, ordinary] ∧
      ∃ n, parse? "::notice file=a,line=007,col=1,endLine=1,endColumn=1::x".toList = some n ∧
        n.Plain ∧ parse? n.text = some n := by
  obtain ⟨hnotices, hblank, hread⟩ := notices_between_noise
  have hcrowded : crowded.Plain := (hread _ _ (by decide +kernel : parse? crowded.text = some crowded)).1
  have hordinary : ordinary.Plain := (hread _ _ (by decide +kernel : parse? ordinary.text = some ordinary)).1
  have hvalid : ∀ l ∈ noisyOutput, l.Valid := by
    simp only [noisyOutput, List.forall_mem_cons]
    refine ⟨.noise (by decide) (hblank _ nofun), .notice hcrowded fun _ => rfl, ?_, ?_, ?_, nofun⟩
    · exact .noise (by decide +kernel) (by decide +kernel)
    · exact .notice hordinary (by decide)
    · have hspace : [' ', '\t'].all isBlank = true := by decide
      exact .noise (by decide) (hblank _ (List.all_eq_true.mp hspace))
  refine ⟨hvalid, ?_, ?_⟩
  · exact hnotices noisyOutput _ hvalid (by decide) (by decide +kernel)
  · have hparse : parse? "::notice file=a,line=007,col=1,endLine=1,endColumn=1::x".toList =
        some ⟨"a", 7, 1, 1, 1, "x"⟩ := by decide +kernel
    exact ⟨_, hparse, hread _ _ hparse⟩

end Notice
end NoticeServer
