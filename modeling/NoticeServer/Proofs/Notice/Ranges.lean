import NoticeServer.Proofs.Collection
import NoticeServer.Proofs.DiagnosticSet.Rebase

/-!
# `NoticeServer.Proofs.Notice.Ranges` — ranges that end before they start

The diagnostic of a line ends where the next line begins, so its range runs forward. Line zero is the
exception: it is shown as the first line, and its end is the start of that line, so the range runs backward
if it starts behind the first column. Such lines are dropped in strict mode only.

The condition is carried as an equivalence from the range of one line (`Notice.MarksLine.forward_iff`) over a
notice to a whole output (`ranges_forward_but_on_line_zero`); `lineZero_backward` is an output with a range that
runs backward.
-/

namespace NoticeServer

/-! ## The order of positions -/

theorem Position.compare_eq_lt_iff {p q : Position} :
    p.compare q = .lt ↔ p.line < q.line ∨ p.line = q.line ∧ p.character < q.character := by
  rw [compare, Ordering.then_eq_lt, Std.compare_eq_lt, Std.LawfulEqOrd.compare_eq_iff_eq, Std.compare_eq_lt]

/-- The range does not end before it starts. -/
def Range.Forward (r : Range) : Prop := r.stop.compare r.start ≠ .lt

instance (r : Range) : Decidable r.Forward := inferInstanceAs (Decidable (_ ≠ _))

namespace Notice

variable {n : Notice} {line : Nat} {d : Diagnostic}

/-! ## The ranges of a notice -/

/-- A range ends on the line behind the one on which it starts, but for line zero. -/
theorem MarksLine.stop_line (h : n.MarksLine line d) :
    d.range.stop.line.toNat = d.range.start.line.toNat + 1 ∨
      d.range.start.line = 0 ∧ d.range.stop.line = 0 := by
  rw [← UInt32.toNat_inj, ← UInt32.toNat_inj, h.stopLine, h.startLine, UInt32.toNat_zero]
  omega

/-- **The range of a line runs forward** unless it is line zero, behind its first column. -/
theorem MarksLine.forward_iff (h : n.MarksLine line d) :
    d.range.Forward ↔ (line = 0 → n.startColumn ≤ 1) := by
  have hstart := h.startLine
  have hcharacter := h.startCharacter
  have hstop := h.stopLine
  unfold Range.Forward
  rw [Ne, Position.compare_eq_lt_iff, h.stopCharacter, UInt32.lt_iff_toNat_lt, UInt32.lt_iff_toNat_lt,
    ← UInt32.toNat_inj, UInt32.le_iff_toNat_le]
  simp only [UInt32.toNat_zero, UInt32.toNat_one]
  omega

/-- The range of a line tells whether it is line zero, and whether it is behind its first column. -/
theorem MarksLine.forward_iff_range (h : n.MarksLine line d) :
    d.range.Forward ↔ (d.range.stop.line = 0 → d.range.start.character = 0) := by
  have hcharacter := h.startCharacter
  rw [h.forward_iff, ← UInt32.toNat_inj, ← UInt32.toNat_inj, h.stopLine, UInt32.le_iff_toNat_le]
  simp only [UInt32.toNat_zero, UInt32.toNat_one]
  omega

/-- **The ranges of a notice run forward** unless it starts on line zero, behind the first column. -/
theorem forward_expand_iff :
    (∀ d ∈ n.expand, d.range.Forward) ↔ (n.startLine = 0 → n.startColumn ≤ 1) := by
  constructor
  · intro hforward hzero
    -- the diagnostic of line zero is the first one
    have hlength : 0 < n.expand.length := by
      rw [length_expand, spanLength, hzero]
      simp only [maxSpanLines, UInt32.toNat_zero]
      omega
    have hfirst := List.getElem?_eq_getElem hlength
    obtain ⟨-, hmarks⟩ := marksLine_of_getElem? hfirst
    rw [hzero] at hmarks
    exact hmarks.forward_iff.mp (hforward _ (List.getElem_mem hlength)) rfl
  · intro hcolumn d hd
    obtain ⟨i, hi⟩ := List.mem_iff_getElem?.mp hd
    obtain ⟨-, hmarks⟩ := marksLine_of_getElem? hi
    refine hmarks.forward_iff.mpr fun hline => hcolumn ?_
    rw [← UInt32.toNat_inj, UInt32.toNat_zero]
    omega

end Notice

/-! ## The ranges of an output -/

variable {output : List Char} {strict : Bool} {d : Diagnostic}

/-- The diagnostics of an output are those of its notices that are shown. -/
theorem mem_diagnostics_collect :
    d ∈ (collect output strict).diagnostics ↔
      ∃ n ∈ Notice.parseOutput output, n.kept strict = true ∧ d ∈ n.expand := by
  rw [collect, collectNotices_eq_aggregate, (DiagnosticSet.diagnostics_aggregate _).mem_iff,
    List.mem_flatMap]
  simp only [List.mem_filter, and_assoc]

/-- No notice on line zero is shown in strict mode. -/
theorem Notice.startLine_ne_zero_of_kept {n : Notice} (h : n.kept true = true) : n.startLine ≠ 0 := by
  intro hzero
  obtain ⟨hshort, hissue⟩ := Notice.kept_iff.mp h
  have hnone := hissue rfl
  rw [Notice.issue?, if_neg (Nat.not_lt.mpr hshort), if_pos (Or.inl hzero)] at hnone
  exact absurd hnone nofun

/-- **Ranges run forward but on line zero.** Every diagnostic of an output ends where the next line begins,
or at the very beginning if it is for line zero; its range runs forward unless it is for line zero and
starts behind the first column. So all ranges of an output run forward just in strict mode, or where no
notice within the limit starts on line zero behind its first column. -/
theorem ranges_forward_but_on_line_zero (output : List Char) (strict : Bool) :
    (∀ f ∈ (collect output strict).files, ∀ d ∈ f.2,
      d.range.stop.character = 0 ∧
      (d.range.stop.line.toNat = d.range.start.line.toNat + 1 ∨
        d.range.start.line = 0 ∧ d.range.stop.line = 0) ∧
      (d.range.Forward ↔ (d.range.stop.line = 0 → d.range.start.character = 0))) ∧
    ((∀ f ∈ (collect output strict).files, ∀ d ∈ f.2, d.range.Forward) ↔
      strict = true ∨
      ∀ n ∈ Notice.parseOutput output, n.lineCount ≤ 10000 → n.startLine = 0 → n.startColumn ≤ 1) := by
  refine ⟨?_, ?_⟩
  · intro f hf d hd
    obtain ⟨n, -, -, hexpand⟩ := mem_diagnostics_collect.mp (DiagnosticSet.mem_diagnostics.mpr ⟨f, hf, hd⟩)
    obtain ⟨i, hi⟩ := List.mem_iff_getElem?.mp hexpand
    obtain ⟨-, hmarks⟩ := Notice.marksLine_of_getElem? hi
    exact ⟨hmarks.stopCharacter, hmarks.stop_line, hmarks.forward_iff_range⟩
  · -- file by file is notice by notice
    have hall : (∀ f ∈ (collect output strict).files, ∀ d ∈ f.2, d.range.Forward) ↔
        ∀ n ∈ Notice.parseOutput output, n.kept strict = true → n.startLine = 0 → n.startColumn ≤ 1 := by
      simp only [← Notice.forward_expand_iff]
      constructor
      · intro hforward n hn hkept d hd
        have hshown := mem_diagnostics_collect.mpr ⟨n, hn, hkept, hd⟩
        obtain ⟨f, hf, hdf⟩ := DiagnosticSet.mem_diagnostics.mp hshown
        exact hforward f hf d hdf
      · intro hforward f hf d hd
        have hshown := DiagnosticSet.mem_diagnostics.mpr ⟨f, hf, hd⟩
        obtain ⟨n, hn, hkept, hexpand⟩ := mem_diagnostics_collect.mp hshown
        exact hforward n hn hkept d hexpand
    rw [hall]
    cases strict with
    | true =>
      refine iff_of_true (fun n _ hkept hzero => ?_) (.inl rfl)
      exact absurd hzero (Notice.startLine_ne_zero_of_kept hkept)
    | false =>
      have hkept (n : Notice) : n.kept false = true ↔ n.lineCount ≤ 10000 := by
        rw [Notice.kept_iff]
        simp [maxSpanLines]
      simp only [hkept, Bool.false_eq_true, false_or]

/-- A notice on line zero, from its fifth column on. -/
def lineZeroOutput : List Char := "::notice file=a,line=0,col=5,endLine=0,endColumn=5::m".toList

/-- A notice on line zero, from its first column on. -/
def firstColumnOutput : List Char := "::notice file=a,line=0,col=1,endLine=0,endColumn=1::m".toList

/-- From the first column on the range of line zero is empty, and in strict mode none is shown at all. -/
theorem ranges_forward_firstColumnOutput :
    (∀ n ∈ Notice.parseOutput firstColumnOutput,
      n.lineCount ≤ 10000 → n.startLine = 0 → n.startColumn ≤ 1) ∧
    (∃ f ∈ (collect firstColumnOutput false).files, ∃ d ∈ f.2,
      d.range.start.line = 0 ∧ d.range.stop.line = 0 ∧ d.range.Forward) ∧
    (∀ f ∈ (collect lineZeroOutput true).files, ∀ d ∈ f.2, d.range.Forward) := by
  obtain ⟨-, hfirst⟩ := ranges_forward_but_on_line_zero firstColumnOutput false
  obtain ⟨-, hstrict⟩ := ranges_forward_but_on_line_zero lineZeroOutput true
  have hnotices : ∀ n ∈ Notice.parseOutput firstColumnOutput,
      n.lineCount ≤ 10000 → n.startLine = 0 → n.startColumn ≤ 1 := by decide +kernel
  obtain ⟨f, hf, d, hd, hstart, hstop⟩ : ∃ f ∈ (collect firstColumnOutput false).files, ∃ d ∈ f.2,
      d.range.start.line = 0 ∧ d.range.stop.line = 0 := by decide +kernel
  exact ⟨hnotices, ⟨f, hf, d, hd, hstart, hstop, hfirst.mpr (.inr hnotices) f hf d hd⟩,
    hstrict.mpr (.inl rfl)⟩

/-- **A range can run backward.** A line zero that is shown from its fifth column on ends at its first. -/
theorem lineZero_backward :
    ¬ ∀ (output : List Char) (strict : Bool),
      ∀ f ∈ (collect output strict).files, ∀ d ∈ f.2, d.range.Forward := by
  intro hforward
  exact absurd (hforward lineZeroOutput false) (by decide +kernel)

end NoticeServer
