import NoticeServer.Collection
import NoticeServer.Proofs.DiagnosticSet.Append
import NoticeServer.Proofs.Notice.Expansion

/-!
# `NoticeServer.Proofs.Collection` — what an output comes to

The notices of an output go into a set one after the other. From the notices alone it can be told what the
set shows for a file (`shownFor`), in which order its files stand (`shownPaths`), and how many diagnostics it
has. The three views are proved for notices that are added to any set, so that the induction goes through;
`collect_follows_notices` reads them at the empty one.
-/

namespace NoticeServer

/-! ## The notices that are shown -/

/-- A notice is shown if its span is within the limit and, in strict mode, has no issue. -/
theorem Notice.kept_iff {n : Notice} {strict : Bool} :
    n.kept strict = true ↔ n.lineCount ≤ maxSpanLines ∧ (strict = true → n.issue? = none) := by
  unfold Notice.kept
  by_cases hlong : maxSpanLines < n.lineCount
  · have hissue : n.issue? = some (.tooLong n.lineCount) := if_pos hlong
    rw [hissue]
    simp [Nat.not_le.mpr hlong]
  · -- the length is the one issue that counts in every mode
    have hother : ∀ lines, n.issue? ≠ some (.tooLong lines) := by
      intro lines hissue
      exact hlong (Notice.tooLong_iff.mp ⟨lines, hissue⟩)
    have hshort : n.lineCount ≤ maxSpanLines := Nat.not_lt.mp hlong
    cases hissue : n.issue? with
    | none => simp [hshort]
    | some issue =>
      cases issue with
      | tooLong lines => exact absurd hissue (hother lines)
      | zeroLine => simp [hshort]
      | zeroColumn => simp [hshort]
      | reversed startLine endLine => simp [hshort]

/-! ## Notices one after the other -/

/-- The diagnostics of the notices of a file, in the order of the notices. -/
def shownFor (p : Path) (notices : List Notice) : List Diagnostic :=
  (notices.filter fun n => Path.ofString n.path ≈ p).flatMap Notice.expand

/-- The paths of the notices that are shown at all, in the order of the notices. -/
def shownPaths (notices : List Notice) : List Path :=
  (notices.filter fun n => n.startLine ≤ n.endLine).map fun n => Path.ofString n.path

/-- What a notice adds to a set: its diagnostics, for the file it names. -/
def Notice.entry (n : Notice) : Path × List Diagnostic := (.ofString n.path, n.expand)

theorem itemsFor_entries (p : Path) (notices : List Notice) :
    DiagnosticSet.itemsFor p (notices.map Notice.entry) = shownFor p notices := by
  unfold DiagnosticSet.itemsFor shownFor
  rw [List.filter_map, List.flatMap_map]
  rfl

/-- Just the notices that are not reversed add something. -/
theorem filledPaths_entries (notices : List Notice) :
    DiagnosticSet.filledPaths (notices.map Notice.entry) = shownPaths notices := by
  unfold DiagnosticSet.filledPaths shownPaths
  rw [List.filter_map, List.map_map]
  have hfilled : ∀ n ∈ notices, (!n.expand.isEmpty) = decide (n.startLine ≤ n.endLine) := by
    intro n _
    rw [Bool.eq_iff_iff, decide_eq_true_iff, ← UInt32.not_lt, ← Notice.expand_eq_nil_iff]
    simp
  exact congrArg _ (List.filter_congr hfilled)

/-- Notices added to a set. -/
def DiagnosticSet.addNotices (s : DiagnosticSet) (notices : List Notice) : DiagnosticSet :=
  notices.foldl (fun s n => s.append (.ofString n.path) n.expand) s

namespace DiagnosticSet

theorem addNotices_eq_addAll (s : DiagnosticSet) (notices : List Notice) :
    s.addNotices notices = s.addAll (notices.map Notice.entry) := by
  rw [addAll, List.foldl_map]
  rfl

/-- **What is shown for a file** behind notices: what was shown before, and what they show. -/
theorem get?_addNotices (s : DiagnosticSet) (notices : List Notice) (p : Path) :
    (s.addNotices notices).get? p =
      if shownFor p notices = [] then s.get? p
      else some ((s.get? p).getD [] ++ shownFor p notices) := by
  rw [addNotices_eq_addAll, get?_addAll, itemsFor_entries]

/-- **The order of the files** behind notices: the files from before, then the new paths that are shown,
each where it comes first. -/
theorem paths_addNotices (s : DiagnosticSet) (notices : List Notice) :
    (s.addNotices notices).paths = s.paths ++ Path.additions s.paths (shownPaths notices) := by
  rw [addNotices_eq_addAll, paths_addAll, filledPaths_entries]

/-- **The diagnostics** behind notices: those from before, and those of each notice. -/
theorem diagnostics_addNotices (s : DiagnosticSet) (notices : List Notice) :
    (s.addNotices notices).diagnostics.Perm (s.diagnostics ++ notices.flatMap Notice.expand) := by
  have h := s.diagnostics_addAll (notices.map Notice.entry)
  rw [List.flatMap_map] at h
  rw [addNotices_eq_addAll]
  exact h

/-- **The number of diagnostics** behind notices within the limit: one more for each of their lines. -/
theorem total_addNotices (s : DiagnosticSet) {notices : List Notice}
    (h : ∀ n ∈ notices, n.lineCount ≤ maxSpanLines) :
    (s.addNotices notices).total = s.total + notices.foldr (fun n total => n.lineCount + total) 0 := by
  have hlines : (notices.flatMap Notice.expand).length =
      notices.foldr (fun n total => n.lineCount + total) 0 := by
    induction notices with
    | nil => rfl
    | cons n notices ih =>
      obtain ⟨hn, hrest⟩ := List.forall_mem_cons.mp h
      rw [List.flatMap_cons, List.length_append, Notice.length_expand_of_le hn, ih hrest, List.foldr_cons]
  rw [total_eq_length, total_eq_length, (s.diagnostics_addNotices notices).length_eq, List.length_append,
    hlines]

end DiagnosticSet

/-! ## Whole outputs -/

/-- **The diagnostics of notices, grouped by path**, are what the notices come to. -/
theorem collectNotices_eq_aggregate (notices : List Notice) :
    collectNotices notices = .aggregate (notices.flatMap Notice.expand) := by
  -- all diagnostics of one notice carry its path, so to push them one by one is to add them at once
  have hpath (n : Notice) : ∀ d ∈ n.expand, d.path = .ofString n.path := by
    intro d hd
    obtain ⟨i, hi⟩ := List.mem_iff_getElem?.mp hd
    exact (Notice.marksLine_of_getElem? hi).2.path
  have hpush (s : DiagnosticSet) (path : Path) (items : List Diagnostic)
      (h : ∀ d ∈ items, d.path = path) :
      items.foldl (fun s d => s.push d.path d) s = s.append path items := by
    induction items generalizing s with
    | nil => rfl
    | cons d items ih =>
      obtain ⟨hd, hitems⟩ := List.forall_mem_cons.mp h
      rw [List.foldl_cons, ih _ hitems, hd, DiagnosticSet.push_eq_append, DiagnosticSet.append_append,
        List.singleton_append]
  unfold collectNotices DiagnosticSet.aggregate
  rw [List.foldl_flatMap]
  congr 1
  funext s n
  exact (hpush s (.ofString n.path) n.expand (hpath n)).symm

/-- **The set of an output, told from its notices.** Let the notices of an output be kept whose line count
is within the limit and which, in strict mode, have no issue. A file shows the diagnostics of its kept
notices, in their order, and is not there if these are none. The files stand in the order of their first
kept notices that are not reversed. There are as many diagnostics as the kept notices have lines. -/
theorem collect_follows_notices (output : List Char) (strict : Bool) :
    let kept := (Notice.parseOutput output).filter fun n =>
      n.lineCount ≤ 10000 ∧ (strict = true → n.issue? = none)
    (∀ p, (collect output strict).get? p =
      if shownFor p kept = [] then none else some (shownFor p kept)) ∧
    (collect output strict).paths = ((shownPaths kept).eraseDupsBy fun (p earlier : Path) => earlier ≈ p) ∧
    (collect output strict).total = kept.foldr (fun n total => n.lineCount + total) 0 := by
  intro kept
  have hkept : (Notice.parseOutput output).filter (·.kept strict) = kept := by
    refine List.filter_congr fun n _ => ?_
    rw [Bool.eq_iff_iff, decide_eq_true_iff]
    exact Notice.kept_iff
  have hcollect : collect output strict = DiagnosticSet.empty.addNotices kept := by
    rw [← hkept]
    rfl
  rw [hcollect]
  refine ⟨?_, ?_, ?_⟩
  · intro p
    rw [DiagnosticSet.get?_addNotices]
    rfl
  · rw [DiagnosticSet.paths_addNotices]
    exact Path.additions_to_nil (shownPaths kept)
  · have hlimit : ∀ n ∈ kept, n.lineCount ≤ maxSpanLines := by
      intro n hn
      have hguard := of_decide_eq_true (List.mem_filter.mp hn).2
      exact hguard.1
    rw [DiagnosticSet.total_addNotices _ hlimit]
    exact Nat.zero_add _

end NoticeServer
