import Mathlib.Data.List.Basic
import NoticeServer.Notice.Line
import NoticeServer.Proofs.Json.NumberText

/-!
# `NoticeServer.Proofs.Notice.Line` — which lines carry notices

A line is told from its parts alone: a path, four runs of digits and a message between fixed texts
(`Split.Cuts`). Behind a given path there is at most one way to go on, because no label begins with a digit;
so the ways to cut a line differ in their paths, and the reader takes the one with the longest path
(`longestFrom_cases`), whatever comes of its numbers. `Notice.carried_by_longest_cut` says from this which lines
carry notices, and which ones.
-/

namespace NoticeServer

open Text

/-! ## The parts of a line -/

/-- One or more digits of any script. -/
structure DigitRun (digits : List Char) : Prop where
  ne_nil : digits ≠ []
  all : ∀ c ∈ digits, isDigit c = true

/-- Fields with runs of digits where the numbers stand. -/
structure Fields.Numbered (f : Fields) : Prop where
  startLine : DigitRun f.startLine
  startColumn : DigitRun f.startColumn
  endLine : DigitRun f.endLine
  endColumn : DigitRun f.endColumn

/-- A way to cut a line into the parts of a notice. -/
structure Split.Cuts (s : Split) (line : List Char) : Prop where
  text : s.text = line
  path_ne_nil : s.path ≠ []
  path : '\n' ∉ s.path
  numbers : s.fields.Numbered
  message : '\n' ∉ s.fields.message

/-- The way to cut a line that has the longest path. -/
structure Split.Longest (s : Split) (line : List Char) : Prop where
  cuts : s.Cuts line
  length_le : ∀ t : Split, t.Cuts line → t.path.length ≤ s.path.length

/-- A line or column as it may be told: ASCII digits, of a value in 32 bits. -/
structure IsOrdinal (digits : List Char) (n : UInt32) : Prop where
  ascii : Json.Digits digits
  value : Json.digitsValue digits = n.toNat

/-- The digits of the four numbers. -/
def Fields.numbers (f : Fields) : List (List Char) := [f.startLine, f.startColumn, f.endLine, f.endColumn]

/-- The parts of a line tell a notice: its path and its message as they stand, and its four numbers. -/
structure Split.Tells (s : Split) (n : Notice) : Prop where
  path : n.path.toList = s.path
  startLine : IsOrdinal s.fields.startLine n.startLine
  startColumn : IsOrdinal s.fields.startColumn n.startColumn
  endLine : IsOrdinal s.fields.endLine n.endLine
  endColumn : IsOrdinal s.fields.endColumn n.endColumn
  message : n.message.toList = s.fields.message

/-! ## Behind the path -/

/-- A label ends a run of digits in front of it. -/
theorem endsBefore_label {c : Char} {label : List Char} (hlabel : label.head? = some c)
    (hc : isDigit c = false) (rest : List Char) : Json.EndsBefore isDigit (label ++ rest) := by
  intro d hd
  cases label with
  | nil => exact absurd hlabel nofun
  | cons e label =>
    obtain rfl := Option.some.inj hlabel
    obtain rfl := Option.some.inj hd
    exact hc

/-- The digits behind a label are all that stand there. -/
theorem labelled?_eq_some_iff {label text digits rest : List Char} :
    labelled? label text = some (digits, rest) ↔
      text = label ++ (digits ++ rest) ∧ DigitRun digits ∧ Json.EndsBefore isDigit rest := by
  unfold labelled?
  rw [Option.bind_eq_some_iff]
  constructor
  · rintro ⟨behind, hbehind, h⟩
    have htext := List.isPrefixOf?_eq_some_iff_append_eq.mp hbehind
    dsimp only at h
    split at h
    · exact absurd h nofun
    · next hfilled =>
      obtain ⟨rfl, rfl⟩ := Prod.mk.inj (Option.some.inj h)
      rw [List.takeWhile_append_dropWhile]
      refine ⟨htext.symm, ⟨by simpa using hfilled, ?_⟩, Json.endsBefore_dropWhile isDigit behind⟩
      exact fun c hc => List.all_eq_true.mp List.all_takeWhile c hc
  · rintro ⟨rfl, hdigits, hends⟩
    refine ⟨digits ++ rest, List.isPrefixOf?_eq_some_iff_append_eq.mpr rfl, ?_⟩
    have htake : (digits ++ rest).takeWhile isDigit = digits :=
      takeWhile_append_stop hdigits.all hends
    have hdrop : (digits ++ rest).dropWhile isDigit = rest := dropWhile_append_stop hdigits.all hends
    dsimp only
    rw [htake, hdrop, if_neg (by simpa using hdigits.ne_nil)]

theorem Fields.text_eq (f : Fields) :
    f.text = startLineLabel ++ (f.startLine ++ (startColumnLabel ++ (f.startColumn ++
      (endLineLabel ++ (f.endLine ++ (endColumnLabel ++ (f.endColumn ++
        (messageMark ++ f.message)))))))) := by
  simp only [text, List.append_assoc]

/-- **What stands behind a path** is read as the fields that make it up, of which there are no others. -/
theorem Fields.read?_eq_some_iff {text : List Char} {f : Fields} :
    read? text = some f ↔ f.text = text ∧ f.Numbered := by
  constructor
  · intro h
    obtain ⟨⟨startLine, behind₁⟩, h₁, h⟩ := Option.bind_eq_some_iff.mp h
    obtain ⟨⟨startColumn, behind₂⟩, h₂, h⟩ := Option.bind_eq_some_iff.mp h
    obtain ⟨⟨endLine, behind₃⟩, h₃, h⟩ := Option.bind_eq_some_iff.mp h
    obtain ⟨⟨endColumn, behind₄⟩, h₄, h⟩ := Option.bind_eq_some_iff.mp h
    obtain ⟨message, hmark, rfl⟩ := Option.map_eq_some_iff.mp h
    clear h
    obtain ⟨rfl, hstartLine, -⟩ := labelled?_eq_some_iff.mp h₁
    obtain ⟨rfl, hstartColumn, -⟩ := labelled?_eq_some_iff.mp h₂
    obtain ⟨rfl, hendLine, -⟩ := labelled?_eq_some_iff.mp h₃
    obtain ⟨rfl, hendColumn, -⟩ := labelled?_eq_some_iff.mp h₄
    have hbehind := List.isPrefixOf?_eq_some_iff_append_eq.mp hmark
    refine ⟨?_, hstartLine, hstartColumn, hendLine, hendColumn⟩
    rw [text_eq, hbehind]
  · rintro ⟨rfl, hnumbers⟩
    have hcomma : isDigit ',' = false := by decide
    have hcolon : isDigit ':' = false := by decide
    rw [text_eq, read?]
    refine Option.bind_eq_some_iff.mpr ⟨(f.startLine, _), labelled?_eq_some_iff.mpr
      ⟨rfl, hnumbers.startLine, endsBefore_label rfl hcomma _⟩, ?_⟩
    refine Option.bind_eq_some_iff.mpr ⟨(f.startColumn, _), labelled?_eq_some_iff.mpr
      ⟨rfl, hnumbers.startColumn, endsBefore_label rfl hcomma _⟩, ?_⟩
    refine Option.bind_eq_some_iff.mpr ⟨(f.endLine, _), labelled?_eq_some_iff.mpr
      ⟨rfl, hnumbers.endLine, endsBefore_label rfl hcomma _⟩, ?_⟩
    refine Option.bind_eq_some_iff.mpr ⟨(f.endColumn, _), labelled?_eq_some_iff.mpr
      ⟨rfl, hnumbers.endColumn, endsBefore_label rfl hcolon _⟩, ?_⟩
    exact Option.map_eq_some_iff.mpr
      ⟨f.message, List.isPrefixOf?_eq_some_iff_append_eq.mpr rfl, rfl⟩

/-- A line feed in such fields stands in the message. -/
theorem Fields.lineFeed_mem_text {f : Fields} (h : f.Numbered) :
    '\n' ∈ f.text ↔ '\n' ∈ f.message := by
  have hlabels : '\n' ∉ startLineLabel ∧ '\n' ∉ startColumnLabel ∧ '\n' ∉ endLineLabel ∧
      '\n' ∉ endColumnLabel ∧ '\n' ∉ messageMark := by decide
  have hrun : ∀ digits, DigitRun digits → '\n' ∉ digits := fun digits hdigits hmem =>
    absurd (hdigits.all _ hmem) (by decide)
  simp only [text, List.mem_append, hlabels, hrun _ h.startLine, hrun _ h.startColumn, hrun _ h.endLine,
    hrun _ h.endColumn, or_self, false_or]

/-! ## The longest path -/

/-- The parts continue a line of which the start of the path is known, latest character first: the rest of
the path and the fields make up `text`. -/
structure Split.Continues (s : Split) (path text : List Char) : Prop where
  parts : ∃ front, s.path = path.reverse ++ front ∧ text = front ++ s.fields.text
  path_ne_nil : s.path ≠ []
  numbers : s.fields.Numbered

/-- Fields are not empty, so a path does not reach up to the end of the line. -/
theorem Split.not_continues_nil (s : Split) (path : List Char) : ¬ s.Continues path [] := by
  rintro ⟨⟨front, -, htext⟩, -, -⟩
  have hempty := (List.append_eq_nil_iff.mp htext.symm).2
  rw [Fields.text_eq] at hempty
  exact absurd hempty nofun

/-- The path ends here, or it goes on with the next character. -/
theorem Split.continues_cons_iff {s : Split} {path text : List Char} {c : Char} :
    s.Continues path (c :: text) ↔
      (path ≠ [] ∧ s.path = path.reverse ∧ Fields.read? (c :: text) = some s.fields) ∨
      s.Continues (c :: path) text := by
  constructor
  · rintro ⟨⟨front, hpath, htext⟩, hfilled, hnumbers⟩
    cases front with
    | nil =>
      rw [List.append_nil] at hpath
      refine .inl ⟨?_, hpath, Fields.read?_eq_some_iff.mpr ⟨htext.symm, hnumbers⟩⟩
      rintro rfl
      exact hfilled hpath
    | cons d front =>
      obtain ⟨rfl, hrest⟩ := List.cons.inj htext
      exact .inr ⟨⟨front, by simpa using hpath, hrest⟩, hfilled, hnumbers⟩
  · rintro (⟨hfilled, hpath, hread⟩ | ⟨⟨front, hpath, rfl⟩, hfilled, hnumbers⟩)
    · obtain ⟨htext, hnumbers⟩ := Fields.read?_eq_some_iff.mp hread
      refine ⟨⟨[], by simpa using hpath, htext.symm⟩, ?_, hnumbers⟩
      rw [hpath]
      simpa using hfilled
    · exact ⟨⟨c :: front, by simpa using hpath, rfl⟩, hfilled, hnumbers⟩

/-- A path that goes on is longer than what is known of it. -/
theorem Split.Continues.lt_length {s : Split} {path text : List Char} {c : Char}
    (h : s.Continues (c :: path) text) : path.length < s.path.length := by
  obtain ⟨⟨front, hpath, -⟩, -, -⟩ := h
  rw [hpath]
  simp

/-- **The longest path is found**, if there is one. -/
theorem longestFrom_cases (best : Option Split) (path text : List Char) :
    (∃ s, longestFrom best path text = some s ∧ s.Continues path text ∧
      ∀ t : Split, t.Continues path text → t.path.length ≤ s.path.length) ∨
    (longestFrom best path text = best ∧ ∀ t : Split, ¬ t.Continues path text) := by
  induction text generalizing best path with
  | nil => exact .inr ⟨rfl, fun t => t.not_continues_nil path⟩
  | cons c text ih =>
    unfold longestFrom
    dsimp only
    rcases ih _ (c :: path) with ⟨s, hfound, hcontinues, hlongest⟩ | ⟨hfound, hnone⟩
    · -- a path that goes on is longer than one that ends here
      refine .inl ⟨s, hfound, Split.continues_cons_iff.mpr (.inr hcontinues), ?_⟩
      intro t ht
      rcases Split.continues_cons_iff.mp ht with ⟨-, hpath, -⟩ | hmore
      · rw [hpath, List.length_reverse]
        exact Nat.le_of_lt hcontinues.lt_length
      · exact hlongest t hmore
    · rw [hfound]
      by_cases hhere : path ≠ [] ∧ ∃ f, Fields.read? (c :: text) = some f
      · obtain ⟨hfilled, f, hread⟩ := hhere
        rw [if_neg (by simpa using hfilled), hread]
        refine .inl ⟨⟨path.reverse, f⟩, rfl, Split.continues_cons_iff.mpr (.inl ⟨hfilled, rfl, hread⟩), ?_⟩
        intro t ht
        rcases Split.continues_cons_iff.mp ht with ⟨-, hpath, -⟩ | hmore
        · rw [hpath]
        · exact absurd hmore (hnone t)
      · refine .inr ⟨?_, ?_⟩
        · by_cases hempty : path = []
          · simp [hempty]
          · have hread : Fields.read? (c :: text) = none := by
              cases hread : Fields.read? (c :: text) with
              | none => rfl
              | some f => exact absurd ⟨hempty, f, hread⟩ hhere
            simp [hread]
        · intro t ht
          rcases Split.continues_cons_iff.mp ht with ⟨hfilled, -, hread⟩ | hmore
          · exact hhere ⟨hfilled, _, hread⟩
          · exact hnone t hmore

/-! ## Lines -/

/-- A line is cut into parts if it begins with the opening and the parts make up the rest of it, in which
there is no line feed. -/
theorem Split.cuts_iff {s : Split} {line : List Char} :
    s.Cuts line ↔ ∃ rest, line = opening ++ rest ∧ '\n' ∉ rest ∧ s.Continues [] rest := by
  constructor
  · rintro ⟨rfl, hfilled, hpath, hnumbers, hmessage⟩
    refine ⟨s.path ++ s.fields.text, List.append_assoc _ _ _, ?_, ⟨s.path, rfl, rfl⟩, hfilled, hnumbers⟩
    rw [List.mem_append, Fields.lineFeed_mem_text hnumbers]
    exact not_or.mpr ⟨hpath, hmessage⟩
  · rintro ⟨rest, rfl, hfeed, ⟨front, hpath, rfl⟩, hfilled, hnumbers⟩
    obtain rfl : s.path = front := hpath
    rw [List.mem_append, Fields.lineFeed_mem_text hnumbers, not_or] at hfeed
    exact ⟨List.append_assoc _ _ _, hfilled, hfeed.1, hnumbers, hfeed.2⟩

/-- Cuts of one line whose paths are equally long are the same. -/
theorem Split.Cuts.eq_of_length {s t : Split} {line : List Char} (hs : s.Cuts line) (ht : t.Cuts line)
    (hlength : s.path.length = t.path.length) : s = t := by
  have htext : opening ++ (s.path ++ s.fields.text) = opening ++ (t.path ++ t.fields.text) := by
    rw [← List.append_assoc, ← List.append_assoc]
    exact hs.text.trans ht.text.symm
  obtain ⟨hpath, hfields⟩ := List.append_inj (List.append_cancel_left htext) hlength
  -- the fields are those that are read behind the path
  have hread := Fields.read?_eq_some_iff.mpr ⟨hfields, hs.numbers⟩
  rw [Fields.read?_eq_some_iff.mpr ⟨rfl, ht.numbers⟩] at hread
  show Split.mk s.path s.fields = Split.mk t.path t.fields
  rw [hpath, Option.some.inj hread]

theorem Split.Longest.unique {s t : Split} {line : List Char} (hs : s.Longest line) (ht : t.Longest line) :
    s = t :=
  hs.cuts.eq_of_length ht.cuts (Nat.le_antisymm (ht.length_le s hs.cuts) (hs.length_le t ht.cuts))

theorem readOrdinal?_eq_some_iff {digits : List Char} {n : UInt32} :
    readOrdinal? digits = some n ↔ IsOrdinal digits n := by
  unfold readOrdinal?
  rw [Option.map_eq_some_iff]
  constructor
  · rintro ⟨v, hv, rfl⟩
    obtain ⟨hdigits, hvalue, hbound⟩ := Json.readBounded?_eq_some_iff.mp hv
    have hlt : v < 2 ^ 32 := Nat.lt_succ_of_le hbound
    exact ⟨hdigits, by rw [hvalue, UInt32.toNat_ofNat_of_lt' hlt]⟩
  · rintro ⟨hdigits, hvalue⟩
    have hbound : n.toNat ≤ maxOrdinal := Nat.le_of_lt_succ n.toNat_lt
    exact ⟨n.toNat, Json.readBounded?_eq_some_iff.mpr ⟨hdigits, hvalue, hbound⟩, UInt32.ofNat_toNat⟩

theorem Split.notice?_eq_some_iff {s : Split} {n : Notice} : s.notice? = some n ↔ s.Tells n := by
  unfold notice?
  simp only [Option.bind_eq_some_iff, Option.map_eq_some_iff, readOrdinal?_eq_some_iff]
  constructor
  · rintro ⟨startLine, hstartLine, startColumn, hstartColumn, endLine, hendLine, endColumn, hendColumn, rfl⟩
    exact ⟨String.toList_ofList, hstartLine, hstartColumn, hendLine, hendColumn, String.toList_ofList⟩
  · rintro ⟨hpath, hstartLine, hstartColumn, hendLine, hendColumn, hmessage⟩
    refine ⟨_, hstartLine, _, hstartColumn, _, hendLine, _, hendColumn, ?_⟩
    rw [← hpath, ← hmessage, String.ofList_toList, String.ofList_toList]

/-- The parts tell a notice if each of the numbers can be told. -/
theorem Split.exists_tells_iff {s : Split} :
    (∃ n, s.Tells n) ↔ ∀ digits ∈ s.fields.numbers, ∃ v, IsOrdinal digits v := by
  simp only [Fields.numbers, List.forall_mem_cons, List.not_mem_nil, false_implies, implies_true, and_true]
  constructor
  · rintro ⟨n, hn⟩
    exact ⟨⟨_, hn.startLine⟩, ⟨_, hn.startColumn⟩, ⟨_, hn.endLine⟩, ⟨_, hn.endColumn⟩⟩
  · rintro ⟨⟨startLine, hstartLine⟩, ⟨startColumn, hstartColumn⟩, ⟨endLine, hendLine⟩, endColumn, hendColumn⟩
    exact ⟨⟨.ofList s.path, startLine, startColumn, endLine, endColumn, .ofList s.fields.message⟩,
      String.toList_ofList, hstartLine, hstartColumn, hendLine, hendColumn, String.toList_ofList⟩

namespace Notice

/-- What comes of a line is decided by the cut with the longest path alone. -/
theorem parse?_cases (line : List Char) :
    (∃ s : Split, s.Longest line ∧ parse? line = s.notice?) ∨
    ((∀ s : Split, ¬ s.Cuts line) ∧ parse? line = none) := by
  unfold parse?
  cases hopening : opening.isPrefixOf? line with
  | none =>
    refine .inr ⟨?_, rfl⟩
    intro s hs
    obtain ⟨rest, rfl, -, -⟩ := Split.cuts_iff.mp hs
    rw [List.isPrefixOf?_eq_some_iff_append_eq.mpr rfl] at hopening
    exact absurd hopening nofun
  | some rest =>
    obtain rfl := List.isPrefixOf?_eq_some_iff_append_eq.mp hopening
    have hcuts : ∀ s : Split, s.Cuts (opening ++ rest) ↔ '\n' ∉ rest ∧ s.Continues [] rest := by
      intro s
      rw [Split.cuts_iff]
      refine ⟨?_, fun hs => ⟨rest, rfl, hs⟩⟩
      rintro ⟨rest', heq, hs⟩
      rwa [List.append_cancel_left heq]
    rw [Option.bind_some]
    by_cases hfeed : '\n' ∈ rest
    · exact .inr ⟨fun s hs => ((hcuts s).mp hs).1 hfeed, if_pos (by simpa using hfeed)⟩
    · rw [if_neg (by simpa using hfeed), longestSplit?]
      rcases longestFrom_cases none [] rest with ⟨s, hfound, hs, hlongest⟩ | ⟨hfound, hnone⟩
      · rw [hfound]
        refine .inl ⟨s, ⟨(hcuts s).mpr ⟨hfeed, hs⟩, ?_⟩, rfl⟩
        intro t ht
        exact hlongest t ((hcuts t).mp ht).2
      · rw [hfound]
        exact .inr ⟨fun s hs => hnone s ((hcuts s).mp hs).2, rfl⟩

/-- **The lines that carry notices.** A line that cannot be cut into the parts of a notice carries none. If
it can be, just one of the ways has the longest path. If the four numbers of this way are ASCII digits of
values in 32 bits, the line carries the notice with this path, these values and this message; if one of them
is not, the line carries none, whatever the ways with shorter paths are. -/
theorem carried_by_longest_cut (line : List Char) :
    ((∀ s : Split, ¬ s.Cuts line) → parse? line = none) ∧
    ((∃ s : Split, s.Cuts line) → ∃! s : Split, s.Longest line) ∧
    ∀ s : Split, s.Longest line →
      ((∀ digits ∈ s.fields.numbers, ∃ v, IsOrdinal digits v) →
        ∃ n, s.Tells n ∧ parse? line = some n) ∧
      ((∃ digits ∈ s.fields.numbers, ∀ v, ¬ IsOrdinal digits v) → parse? line = none) := by
  rcases parse?_cases line with ⟨s, hs, hparse⟩ | ⟨hnone, hparse⟩
  · refine ⟨fun hno => absurd hs.cuts (hno s), fun _ => ⟨s, hs, fun t ht => ht.unique hs⟩, ?_⟩
    intro t ht
    obtain rfl : s = t := hs.unique ht
    rw [hparse]
    constructor
    · intro hnumbers
      obtain ⟨n, hn⟩ := Split.exists_tells_iff.mpr hnumbers
      exact ⟨n, hn, Split.notice?_eq_some_iff.mpr hn⟩
    · rintro ⟨digits, hdigits, hodd⟩
      cases hread : s.notice? with
      | none => rfl
      | some n =>
        have htold := Split.exists_tells_iff.mp ⟨n, Split.notice?_eq_some_iff.mp hread⟩
        obtain ⟨v, hv⟩ := htold digits hdigits
        exact absurd hv (hodd v)
  · exact ⟨fun _ => hparse, fun ⟨s, hs⟩ => absurd hs (hnone s), fun s hs => absurd hs.cuts (hnone s)⟩

/-- A line that repeats the run of numbers. -/
def repeatedRun : List Char :=
  "::notice file=a,line=1,col=1,endLine=1,endColumn=1::b,line=2,col=3,endLine=02,endColumn=9::m".toList

/-- It is cut at the later run, so the earlier one belongs to the path. -/
theorem carried_repeatedRun :
    ∃ s : Split, s.Longest repeatedRun ∧
      s.path = "a,line=1,col=1,endLine=1,endColumn=1::b".toList ∧
      parse? repeatedRun = some ⟨.ofList s.path, 2, 3, 2, 9, "m"⟩ := by
  obtain ⟨-, hlongest, hcarried⟩ := carried_by_longest_cut repeatedRun
  have hone : DigitRun ['1'] := ⟨nofun, List.forall_mem_singleton.mpr (by decide)⟩
  have hearlier : (Split.mk ['a'] ⟨['1'], ['1'], ['1'], ['1'],
      "b,line=2,col=3,endLine=02,endColumn=9::m".toList⟩).Cuts repeatedRun :=
    ⟨by decide +kernel, by decide, by decide, ⟨hone, hone, hone, hone⟩, by decide +kernel⟩
  have hparse : parse? repeatedRun =
      some ⟨"a,line=1,col=1,endLine=1,endColumn=1::b", 2, 3, 2, 9, "m"⟩ := by decide +kernel
  obtain ⟨s, hs, -⟩ := hlongest ⟨_, hearlier⟩
  obtain ⟨hordinals, hodd⟩ := hcarried s hs
  by_cases hnumbers : ∀ digits ∈ s.fields.numbers, ∃ v, IsOrdinal digits v
  · obtain ⟨n, hn, hread⟩ := hordinals hnumbers
    obtain rfl := Option.some.inj (hread.symm.trans hparse)
    refine ⟨s, hs, hn.path.symm, ?_⟩
    rw [← hn.path, String.ofList_toList]
    exact hparse
  · simp only [not_forall, not_exists] at hnumbers
    obtain ⟨digits, hdigits, hnone⟩ := hnumbers
    exact absurd ((hodd ⟨digits, hdigits, hnone⟩).symm.trans hparse) nofun

/-- If the first number of the later run is no ASCII numeral, the line carries no notice, although the earlier
run would do. -/
example : Notice.parse?
    "::notice file=a,line=1,col=1,endLine=1,endColumn=1::b,line=٣,col=1,endLine=1,endColumn=1::m".toList =
      none := by
  decide +kernel

end Notice
end NoticeServer
