import Mathlib.Data.List.Flatten
import NoticeServer.Proofs.Collection
import NoticeServer.Proofs.DiagnosticSet.Spelling

/-!
# `NoticeServer.Proofs.Notice.Strictness` — what strict mode takes away

Strict mode drops more notices and changes none. Files lose diagnostics by it, so some files may come to
stand later, or not at all. It makes no difference exactly where all that it drops besides comes to nothing,
as reversed spans do (`Notice.Degenerate`). The set of strict mode is that of the notices it keeps, so both
modes are compared by what additions of fewer notices make of a set (`strict_only_removes`).
-/

namespace NoticeServer

/-! ## Notices that only one mode shows -/

namespace Notice

variable {n : Notice}

/-- A span has no issue if it is within the limit, counts from one and runs forward. -/
theorem issue?_eq_none_iff :
    n.issue? = none ↔ n.lineCount ≤ maxSpanLines ∧ ¬(n.startLine = 0 ∨ n.endLine = 0) ∧
      ¬(n.startColumn = 0 ∨ n.endColumn = 0) ∧ ¬ n.endLine < n.startLine := by
  rw [← Nat.not_lt, issue?]
  -- each issue stands for one of the guards
  split
  · next hlong => exact iff_of_false nofun fun h => h.1 hlong
  · next hshort =>
    split
    · next hline => exact iff_of_false nofun fun h => h.2.1 hline
    · next hline =>
      split
      · next hcolumn => exact iff_of_false nofun fun h => h.2.2.1 hcolumn
      · next hcolumn =>
        split
        · next hreversed => exact iff_of_false nofun fun h => h.2.2.2 hreversed
        · next hforward => exact iff_of_true rfl ⟨hshort, hline, hcolumn, hforward⟩

/-- A notice with lines to show, as many as the limit allows, of which one number counts from zero. -/
structure Degenerate (n : Notice) : Prop where
  zero : (n.startLine = 0 ∨ n.endLine = 0) ∨ n.startColumn = 0 ∨ n.endColumn = 0
  forward : n.startLine ≤ n.endLine
  short : n.lineCount ≤ 10000

/-- **Just the degenerate notices** are shown in lenient mode only. -/
theorem degenerate_iff : n.Degenerate ↔ n.kept false = true ∧ n.kept true = false ∧ n.expand ≠ [] := by
  have hexpand : n.expand ≠ [] ↔ n.startLine ≤ n.endLine := by
    rw [Ne, expand_eq_nil_iff, UInt32.not_lt]
  have hlenient : n.kept false = true ↔ n.lineCount ≤ maxSpanLines := by
    rw [kept_iff]
    simp
  have hstrict : n.kept true = true ↔ n.issue? = none := by
    rw [kept_iff, issue?_eq_none_iff]
    simp
  rw [hexpand, hlenient, ← Bool.not_eq_true, hstrict, issue?_eq_none_iff]
  constructor
  · rintro ⟨hzero, hforward, hshort⟩
    refine ⟨hshort, ?_, hforward⟩
    rintro ⟨-, hline, hcolumn, -⟩
    exact hzero.elim hline hcolumn
  · rintro ⟨hshort, hissue, hforward⟩
    refine ⟨?_, hforward, hshort⟩
    refine Classical.byContradiction fun hzero => ?_
    rw [not_or] at hzero
    exact hissue ⟨hshort, hzero.1, hzero.2, UInt32.not_lt.mpr hforward⟩

/-- What strict mode shows lenient mode shows as well. -/
theorem kept_of_strict (h : n.kept true = true) : n.kept false = true :=
  kept_iff.mpr ⟨(kept_iff.mp h).1, nofun⟩

end Notice

/-! ## Notices that are left out -/

variable {keep : Notice → Bool} {notices : List Notice}

/-- Notices that are left out take their diagnostics with them and leave the others in order. -/
theorem sublist_expand_filter (keep : Notice → Bool) (notices : List Notice) :
    ((notices.filter keep).flatMap Notice.expand).Sublist (notices.flatMap Notice.expand) :=
  List.filter_sublist.flatMap _

/-- So it is for every file. -/
theorem sublist_shownFor_filter (p : Path) (keep : Notice → Bool) (notices : List Notice) :
    (shownFor p (notices.filter keep)).Sublist (shownFor p notices) :=
  (List.filter_sublist.filter _).flatMap _

/-- Notices without diagnostics can be left out. -/
theorem DiagnosticSet.addNotices_filter (s : DiagnosticSet)
    (h : ∀ n ∈ notices, keep n = false → n.expand = []) :
    s.addNotices (notices.filter keep) = s.addNotices notices := by
  induction notices generalizing s with
  | nil => rfl
  | cons n notices ih =>
    obtain ⟨hn, hrest⟩ := List.forall_mem_cons.mp h
    have hadd : s.addNotices (n :: notices) = (s.append (.ofString n.path) n.expand).addNotices notices := rfl
    cases hkeep : keep n with
    | true =>
      rw [List.filter_cons_of_pos hkeep, hadd, ← ih _ hrest]
      rfl
    | false =>
      have hdropped : ¬ keep n = true := by rw [hkeep]; exact nofun
      rw [List.filter_cons_of_neg hdropped, hadd, hn hkeep, append_nil, ih s hrest]

/-- Where no diagnostic is lost, only notices without diagnostics were left out. -/
theorem expand_eq_nil_of_length_filter
    (h : ((notices.filter keep).flatMap Notice.expand).length = (notices.flatMap Notice.expand).length) :
    ∀ n ∈ notices, keep n = false → n.expand = [] := by
  induction notices with
  | nil => exact nofun
  | cons n notices ih =>
    rw [List.flatMap_cons, List.length_append] at h
    cases hkeep : keep n with
    | true =>
      rw [List.filter_cons_of_pos hkeep, List.flatMap_cons, List.length_append] at h
      refine List.forall_mem_cons.mpr ⟨fun hdropped => ?_, ih (Nat.add_left_cancel h)⟩
      exact absurd (hkeep.symm.trans hdropped) nofun
    | false =>
      rw [List.filter_cons_of_neg (by rw [hkeep]; exact nofun)] at h
      -- the notices behind this one have no diagnostics to make up for its own
      have hle := (sublist_expand_filter keep notices).length_le
      have hnil : n.expand = [] := List.eq_nil_of_length_eq_zero (by omega)
      exact List.forall_mem_cons.mpr ⟨fun _ => hnil, ih (by omega)⟩

/-! ## The two modes -/

/-- Strict mode leaves out some of the notices of lenient mode. -/
theorem filter_kept_strict (notices : List Notice) :
    notices.filter (·.kept true) = (notices.filter (·.kept false)).filter (·.kept true) := by
  rw [List.filter_filter]
  refine List.filter_congr fun n _ => ?_
  rw [Bool.eq_iff_iff, Bool.and_eq_true]
  exact ⟨fun h => ⟨h, Notice.kept_of_strict h⟩, fun h => h.1⟩

theorem collect_eq_addNotices (output : List Char) (strict : Bool) :
    collect output strict =
      DiagnosticSet.empty.addNotices ((Notice.parseOutput output).filter (·.kept strict)) := rfl

/-- What an output shows for a file, which is nothing if the file is not there. -/
theorem getD_get?_collect (output : List Char) (strict : Bool) (p : Path) :
    ((collect output strict).get? p).getD [] =
      shownFor p ((Notice.parseOutput output).filter (·.kept strict)) := by
  rw [collect_eq_addNotices, DiagnosticSet.get?_addNotices]
  split
  · next hnone => exact hnone.symm
  · rfl

/-- As many diagnostics as in lenient mode are left in strict mode only where no notice is degenerate. -/
theorem not_degenerate_of_total {output : List Char}
    (h : (collect output true).total = (collect output false).total) :
    ∀ n ∈ Notice.parseOutput output, ¬ n.Degenerate := by
  intro n hn hdegenerate
  obtain ⟨hlenient, hstrict, hexpand⟩ := Notice.degenerate_iff.mp hdegenerate
  have hlength (strict : Bool) : (collect output strict).total =
      (((Notice.parseOutput output).filter (·.kept strict)).flatMap Notice.expand).length := by
    rw [DiagnosticSet.total_eq_length, collect_eq_addNotices,
      (DiagnosticSet.diagnostics_addNotices _ _).length_eq]
    rfl
  rw [hlength, hlength, filter_kept_strict] at h
  exact hexpand (expand_eq_nil_of_length_filter h n (List.mem_filter.mpr ⟨hn, hlenient⟩) hstrict)

/-- Where no notice is degenerate the modes agree. -/
theorem collect_strict_of_not_degenerate {output : List Char}
    (h : ∀ n ∈ Notice.parseOutput output, ¬ n.Degenerate) : collect output true = collect output false := by
  rw [collect_eq_addNotices, collect_eq_addNotices, filter_kept_strict]
  refine DiagnosticSet.addNotices_filter _ fun n hn hstrict => ?_
  obtain ⟨hn, hlenient⟩ := List.mem_filter.mp hn
  refine Classical.byContradiction fun hexpand => ?_
  exact h n hn (Notice.degenerate_iff.mpr ⟨hlenient, hstrict, hexpand⟩)

/-- Notices of two files. The file that comes first has its first notice on column zero. -/
def columnZeroNotices : List Notice :=
  [⟨"a", 1, 0, 1, 1, "m"⟩, ⟨"b", 1, 1, 1, 1, "m"⟩, ⟨"a", 2, 1, 2, 1, "m"⟩]

/-- Their lines. -/
def columnZeroOutput : List Char := columnZeroNotices.flatMap fun n => n.text ++ ['\n']

theorem parseOutput_columnZeroOutput : Notice.parseOutput columnZeroOutput = columnZeroNotices := by
  decide +kernel

/-- **Strict mode only ever removes.** For every file strict mode shows some of the diagnostics of lenient
mode, in the same order. The sets of the two modes are equal, and also equal up to the spelling of paths,
just where no notice has a zero among its lines and columns while it runs forward within the limit. So no
notice makes them differ that has no issue, is too long or is reversed. The files may stand in another
order. -/
theorem strict_only_removes :
    (∀ output : List Char,
      (∀ p, (((collect output true).get? p).getD []).Sublist (((collect output false).get? p).getD [])) ∧
      (collect output true = collect output false ↔
        ∀ n ∈ Notice.parseOutput output,
          ¬(((n.startLine = 0 ∨ n.endLine = 0) ∨ n.startColumn = 0 ∨ n.endColumn = 0) ∧
            n.startLine ≤ n.endLine ∧ n.lineCount ≤ 10000)) ∧
      ((collect output true).same (collect output false) = true ↔
        collect output true = collect output false) ∧
      ((∀ n ∈ Notice.parseOutput output,
          n.issue? = none ∨ 10000 < n.lineCount ∨ n.endLine < n.startLine) →
        collect output true = collect output false)) ∧
    ∃ output p q, (collect output true).paths = [p, q] ∧ (collect output false).paths = [q, p] ∧ ¬ p ≈ q := by
  refine ⟨fun output => ?_, ?_⟩
  · have hequal : collect output true = collect output false ↔
        ∀ n ∈ Notice.parseOutput output, ¬ n.Degenerate :=
      ⟨fun h => not_degenerate_of_total (congrArg DiagnosticSet.total h), collect_strict_of_not_degenerate⟩
    refine ⟨fun p => ?_, ?_, ⟨fun h => ?_, fun h => ?_⟩, fun h => ?_⟩
    · rw [getD_get?_collect, getD_get?_collect, filter_kept_strict]
      exact sublist_shownFor_filter p _ _
    · rw [hequal]
      refine forall₂_congr fun n _ => not_congr ?_
      exact ⟨fun h => ⟨h.zero, h.forward, h.short⟩, fun h => ⟨h.1, h.2.1, h.2.2⟩⟩
    · exact hequal.mpr (not_degenerate_of_total (DiagnosticSet.total_of_same h))
    · rw [h]
      exact DiagnosticSet.same_refl _
    · refine hequal.mpr fun n hn hdegenerate => ?_
      obtain hnone | hlong | hreversed := h n hn
      · obtain ⟨-, hline, hcolumn, -⟩ := Notice.issue?_eq_none_iff.mp hnone
        exact hdegenerate.zero.elim hline hcolumn
      · exact Nat.not_lt.mpr hdegenerate.short hlong
      · exact UInt32.not_lt.mpr hdegenerate.forward hreversed
  · refine ⟨columnZeroOutput, .ofString "b", .ofString "a", ?_, ?_, by decide⟩
    · rw [collect, parseOutput_columnZeroOutput]
      rfl
    · rw [collect, parseOutput_columnZeroOutput]
      rfl

end NoticeServer
