import NoticeServer.Notice.Expansion

/-!
# `NoticeServer.Proofs.Notice.Expansion` — how many diagnostics a notice gives

The length of a span is counted three times: by the line count that is told, by the limit on what is shown,
and by the expansion itself. All three agree on every span that is within the limit
(`Notice.length_expand_eq_lineCount`), and a longer one is cut off there. What each of its diagnostics marks is
`Notice.MarksLine`, and `Notice.expand_marks_lines` is about the expansion as a whole.
-/

namespace NoticeServer
namespace Notice

variable {n : Notice}

/-- Just the reversed spans have no line. -/
theorem spanLength_eq_zero_iff : n.spanLength = 0 ↔ n.endLine < n.startLine := by
  rw [UInt32.lt_iff_toNat_lt, spanLength]
  omega

/-- An expansion has a diagnostic for each line of the span, up to the limit. -/
theorem length_expand (n : Notice) : n.expand.length = min n.spanLength maxSpanLines := by
  rw [expand, List.length_map, List.length_range]

/-- Just the reversed spans are expanded to nothing. -/
theorem expand_eq_nil_iff : n.expand = [] ↔ n.endLine < n.startLine := by
  have hlength := n.length_expand
  rw [← spanLength_eq_zero_iff, ← List.length_eq_zero_iff, hlength]
  simp only [maxSpanLines]
  omega

/-- The line count is the length of the span, as far as it can be told. -/
theorem lineCount_eq (n : Notice) : n.lineCount = min n.spanLength maxLineCount := by
  unfold lineCount
  split
  · next hreversed =>
    rw [spanLength_eq_zero_iff.mpr hreversed]
    exact (Nat.zero_min _).symm
  · next hforward =>
    have hle : n.startLine.toNat ≤ n.endLine.toNat := by
      rw [UInt32.lt_iff_toNat_lt] at hforward
      omega
    rw [spanLength, Nat.sub_add_comm hle]

/-- Up to the limit the line count is not cut off. -/
theorem spanLength_eq_lineCount (h : n.lineCount ≤ maxSpanLines) : n.spanLength = n.lineCount := by
  have hlimit : maxSpanLines < maxLineCount := by decide
  have hcount := n.lineCount_eq
  omega

/-- **A span within the limit** is expanded in full. -/
theorem length_expand_of_le (h : n.lineCount ≤ maxSpanLines) : n.expand.length = n.lineCount := by
  rw [length_expand, spanLength_eq_lineCount h]
  exact Nat.min_eq_left h

/-- The told line count leads to the same number of diagnostics as the span itself. -/
theorem length_expand_eq_lineCount (n : Notice) : n.expand.length = min n.lineCount maxSpanLines := by
  have hlimit : maxSpanLines ≤ maxLineCount := by decide
  rw [length_expand, lineCount_eq, Nat.min_assoc, Nat.min_eq_right hlimit]

/-- Just the spans above the limit are called too long. -/
theorem tooLong_iff : (∃ lines, n.issue? = some (.tooLong lines)) ↔ maxSpanLines < n.lineCount := by
  unfold issue?
  constructor
  · rintro ⟨lines, hissue⟩
    refine Nat.lt_of_not_le fun hshort => ?_
    rw [if_neg (Nat.not_lt.mpr hshort)] at hissue
    split at hissue
    · cases hissue
    split at hissue
    · cases hissue
    split at hissue <;> cases hissue
  · intro hlong
    exact ⟨n.lineCount, if_pos hlong⟩

/-! ## The diagnostic of a line -/

/-- What the diagnostic of a line of the span is. Its range begins at the reported column of this line, both
counted from zero, and ends where the next line begins. -/
structure MarksLine (n : Notice) (line : Nat) (d : Diagnostic) : Prop where
  path : d.path = .ofString n.path
  message : d.message = n.message
  startLine : d.range.start.line.toNat = max line 1 - 1
  startCharacter : d.range.start.character.toNat = max n.startColumn.toNat 1 - 1
  stopLine : d.range.stop.line.toNat = line
  stopCharacter : d.range.stop.character = 0

theorem toNat_zeroBased (m : UInt32) : (zeroBased m).toNat = max m.toNat 1 - 1 := by
  unfold zeroBased
  split
  · next hzero =>
    rw [hzero]
    rfl
  · next hpos =>
    have hm : m.toNat ≠ 0 := fun hzero => hpos (UInt32.toNat_inj.mp hzero)
    have hone : (1 : UInt32) ≤ m := by
      rw [UInt32.le_iff_toNat_le]
      exact Nat.one_le_iff_ne_zero.mpr hm
    rw [UInt32.toNat_sub_of_le m 1 hone, Nat.max_eq_left (Nat.one_le_iff_ne_zero.mpr hm)]
    rfl

theorem marksLine_lineDiagnostic (n : Notice) (line : UInt32) :
    n.MarksLine line.toNat (n.lineDiagnostic line) where
  path := rfl
  message := rfl
  startLine := toNat_zeroBased line
  startCharacter := toNat_zeroBased n.startColumn
  stopLine := rfl
  stopCharacter := rfl

variable {i : Nat}

/-- The lines of a span do not go beyond its last one, so none of them is too great for 32 bits. -/
theorem line_le_endLine (h : i < n.spanLength) : n.startLine.toNat + i ≤ n.endLine.toNat := by
  unfold spanLength at h
  omega

theorem toNat_line (h : i < n.spanLength) :
    (n.startLine + UInt32.ofNat i).toNat = n.startLine.toNat + i := by
  have hline := line_le_endLine h
  have hlast := n.endLine.toNat_lt
  have hi : i < 2 ^ 32 := by omega
  rw [UInt32.toNat_add, UInt32.toNat_ofNat_of_lt' hi]
  exact Nat.mod_eq_of_lt (by omega)

/-- **The diagnostics of an expansion** mark the lines from the first one on. -/
theorem marksLine_of_getElem? {d : Diagnostic} (h : n.expand[i]? = some d) :
    i < n.spanLength ∧ n.MarksLine (n.startLine.toNat + i) d := by
  rw [expand, List.getElem?_map, Option.map_eq_some_iff] at h
  obtain ⟨j, hj, rfl⟩ := h
  obtain ⟨hbound, rfl⟩ := List.getElem?_eq_some_iff.mp hj
  rw [List.getElem_range, List.length_range] at *
  have hi : i < n.spanLength := Nat.lt_of_lt_of_le hbound (Nat.min_le_left _ _)
  have hmarks := n.marksLine_lineDiagnostic (n.startLine + UInt32.ofNat i)
  rw [toNat_line hi] at hmarks
  exact ⟨hi, hmarks⟩

/-- The lines that an expansion marks follow one another. -/
theorem map_stopLine_expand (n : Notice) :
    n.expand.map (fun d => d.range.stop.line.toNat) = List.range' n.startLine.toNat n.expand.length := by
  refine List.ext_getElem (by rw [List.length_map, List.length_range']) ?_
  intro i hi _
  rw [List.length_map] at hi
  obtain ⟨-, hmarks⟩ := marksLine_of_getElem? (List.getElem?_eq_getElem hi)
  rw [List.getElem_map, List.getElem_range', hmarks.stopLine, Nat.one_mul]

/-- **The expansion of every span.** A reversed span has no diagnostics, and any other has one for each of
its lines from the first one on, up to 10000, where no line is too great for 32 bits. The number of
diagnostics is the told line count up to 10000, so a span that is not called too long is expanded in full:
the lines that are marked are just those from its first to its last line. -/
theorem expand_marks_lines (n : Notice) :
    (n.endLine < n.startLine → n.expand = []) ∧
    (n.startLine ≤ n.endLine →
      n.expand.length = min (n.endLine.toNat - n.startLine.toNat + 1) 10000) ∧
    (∀ i d, n.expand[i]? = some d →
      n.startLine.toNat + i ≤ 4294967295 ∧ n.MarksLine (n.startLine.toNat + i) d) ∧
    n.expand.length = min n.lineCount 10000 ∧
    ((∀ lines, n.issue? ≠ some (.tooLong lines)) →
      n.expand.length = n.lineCount ∧
      n.expand.map (fun d => d.range.stop.line.toNat) =
        List.range' n.startLine.toNat (n.endLine.toNat + 1 - n.startLine.toNat)) := by
  refine ⟨expand_eq_nil_iff.mpr, ?_, ?_, n.length_expand_eq_lineCount, ?_⟩
  · intro hforward
    have hle : n.startLine.toNat ≤ n.endLine.toNat := UInt32.le_iff_toNat_le.mp hforward
    rw [length_expand, spanLength, Nat.sub_add_comm hle]
    rfl
  · intro i d hd
    obtain ⟨hi, hmarks⟩ := marksLine_of_getElem? hd
    have hline := line_le_endLine hi
    have hlast := n.endLine.toNat_lt
    exact ⟨by omega, hmarks⟩
  · intro hissue
    have hshort : n.lineCount ≤ maxSpanLines := by
      refine Nat.le_of_not_lt fun hlong => ?_
      obtain ⟨lines, htold⟩ := tooLong_iff.mpr hlong
      exact hissue lines htold
    have hlength : n.expand.length = n.lineCount := length_expand_of_le hshort
    refine ⟨hlength, ?_⟩
    rw [map_stopLine_expand, hlength, ← spanLength_eq_lineCount hshort, spanLength]

/-- The two greatest lines, from column zero. -/
def greatestLines : Notice := ⟨"a.go", 4294967294, 0, 4294967295, 0, "m"⟩

/-- Every line from zero on. -/
def everyLine : Notice := { greatestLines with startLine := 0 }

theorem expand_greatestLines :
    greatestLines.startLine ≤ greatestLines.endLine ∧
      (∀ lines, greatestLines.issue? ≠ some (.tooLong lines)) ∧
      greatestLines.expand.map (fun d => d.range.stop.line.toNat) = [4294967294, 4294967295] ∧
      (∃ d, greatestLines.expand[1]? = some d ∧ greatestLines.MarksLine 4294967295 d) ∧
      everyLine.startLine ≤ everyLine.endLine ∧ everyLine.expand.length = 10000 := by
  obtain ⟨-, -, hmarks, -, hfull⟩ := expand_marks_lines greatestLines
  have hissue : greatestLines.issue? = some .zeroColumn := by decide
  have hshort : ∀ lines, greatestLines.issue? ≠ some (.tooLong lines) := by
    intro lines
    rw [hissue]
    exact nofun
  have hforward : everyLine.startLine ≤ everyLine.endLine := by decide
  refine ⟨by decide, hshort, (hfull hshort).2, ?_, hforward, (expand_marks_lines everyLine).2.1 hforward⟩
  exact ⟨_, rfl, (hmarks 1 _ rfl).2⟩

end Notice
end NoticeServer
