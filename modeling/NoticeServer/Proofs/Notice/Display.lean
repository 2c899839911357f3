import NoticeServer.Proofs.Notice.Ranges

/-!
# `NoticeServer.Proofs.Notice.Display` — positions as they are shown

A diagnostic counts lines and characters from zero, and its text counts them from one again. The number
before was taken as zero for zero, so the number behind is within 32 bits for every diagnostic of a notice
(`Diagnostic.CountsFromOne`), and it is the reported one, or one for zero (`display_tells_reported`).
-/

namespace NoticeServer

open Text

/-- Adding one to the line and to the character of the start leaves both within 32 bits. -/
structure Diagnostic.CountsFromOne (d : Diagnostic) : Prop where
  line_lt : d.range.start.line.toNat + 1 < UInt32.size
  character_lt : d.range.start.character.toNat + 1 < UInt32.size

theorem toNat_add_one {x : UInt32} (h : x.toNat + 1 < UInt32.size) : (x + 1).toNat = x.toNat + 1 := by
  rw [UInt32.toNat_add, UInt32.toNat_one]
  exact Nat.mod_eq_of_lt h

/-! ## The diagnostic of a line -/

namespace Notice

variable {n : Notice} {line : Nat} {d : Diagnostic}

theorem MarksLine.line_add_one (h : n.MarksLine line d) : d.range.start.line.toNat + 1 = max line 1 := by
  rw [h.startLine]
  omega

theorem MarksLine.character_add_one (h : n.MarksLine line d) :
    d.range.start.character.toNat + 1 = max n.startColumn.toNat 1 := by
  rw [h.startCharacter]
  omega

/-- The diagnostic of a line shows this line, and the reported column. -/
theorem MarksLine.display_eq (h : n.MarksLine line d) (path : Path) :
    d.display path = path.display ++ ':' :: decimal (max line 1) ++
      ':' :: decimal (max n.startColumn.toNat 1) ++ ": info: [nudge] ".toList ++ n.message.toList := by
  rw [Diagnostic.display, h.line_add_one, h.character_add_one, h.message]
  simp [Diagnostic.severityLabel, Diagnostic.source]

/-- A line and a column of 32 bits can be counted from one. -/
theorem MarksLine.countsFromOne (h : n.MarksLine line d) : d.CountsFromOne where
  line_lt := by
    have hline := d.range.stop.line.toNat_lt
    rw [h.stopLine] at hline
    rw [h.line_add_one, UInt32.size]
    omega
  character_lt := by
    have hcolumn := n.startColumn.toNat_lt
    rw [h.character_add_one, UInt32.size]
    omega

/-- **Every diagnostic of a notice** can be counted from one. -/
theorem countsFromOne_of_mem_expand (h : d ∈ n.expand) : d.CountsFromOne := by
  obtain ⟨i, hi⟩ := List.mem_iff_getElem?.mp h
  exact (marksLine_of_getElem? hi).2.countsFromOne

end Notice

/-- The diagnostics of an output are those of its notices, wherever its root is. -/
theorem countsFromOne_of_mem_rebase {output : List Char} {strict : Bool} {root : Path} {d : Diagnostic}
    (h : d ∈ ((collect output strict).rebase root).diagnostics) : d.CountsFromOne := by
  have hcollected := (DiagnosticSet.diagnostics_rebase _ root).mem_iff.mp h
  obtain ⟨n, -, -, hexpand⟩ := mem_diagnostics_collect.mp hcollected
  exact Notice.countsFromOne_of_mem_expand hexpand

/-- **Positions are shown as they were reported.** The text of the diagnostic of a line names this line and
the reported column, where one stands for zero, and these are the sums of 32 bits that count from one. Such a
sum is in range for every diagnostic of every notice of an output, and so for all that is shown of an output
under a root. -/
theorem display_tells_reported :
    (∀ (n : Notice) (path : Path) (i : Nat) (d : Diagnostic), n.expand[i]? = some d →
      d.display path = path.display ++ ':' :: decimal (max (n.startLine.toNat + i) 1) ++
        ':' :: decimal (max n.startColumn.toNat 1) ++ ": info: [nudge] ".toList ++ n.message.toList ∧
      (d.range.start.line + 1).toNat = max (n.startLine.toNat + i) 1 ∧
      (d.range.start.character + 1).toNat = max n.startColumn.toNat 1) ∧
    (∀ output, ∀ n ∈ Notice.parseOutput output, ∀ d ∈ n.expand, d.CountsFromOne) ∧
    ∀ output strict root, ∀ f ∈ ((collect output strict).rebase root).files, ∀ d ∈ f.2,
      d.CountsFromOne := by
  refine ⟨?_, fun _ n _ d hd => Notice.countsFromOne_of_mem_expand hd, ?_⟩
  · intro n path i d hd
    obtain ⟨-, hmarks⟩ := Notice.marksLine_of_getElem? hd
    have hcounts := hmarks.countsFromOne
    refine ⟨hmarks.display_eq path, ?_, ?_⟩
    · rw [toNat_add_one hcounts.line_lt, hmarks.line_add_one]
    · rw [toNat_add_one hcounts.character_lt, hmarks.character_add_one]
  · intro output strict root f hf d hd
    exact countsFromOne_of_mem_rebase (DiagnosticSet.mem_diagnostics.mpr ⟨f, hf, hd⟩)

/-- The greatest line and the greatest column. -/
example :
    (⟨"a.go", 4294967295, 4294967295, 4294967295, 0, "m"⟩ : Notice).expand.map
        (·.display (.ofString "/work/a.go")) =
      ["/work/a.go:4294967295:4294967295: info: [nudge] m".toList] := by
  decide +kernel

end NoticeServer
