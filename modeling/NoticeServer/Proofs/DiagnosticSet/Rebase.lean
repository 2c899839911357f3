import NoticeServer.Proofs.DiagnosticSet.Append
import NoticeServer.Proofs.Path.Absolute

/-!
# `NoticeServer.Proofs.DiagnosticSet.Rebase` — diagnostics by file, under a root

Diagnostics are grouped by the path they carry, and the groups are then seen from a root, where several of
them can become one file. Both are additions to the empty set (`aggregate_eq_addAll`, `rebase_eq_addAll`), so
what the result shows for a file, in which order its files stand and which diagnostics it has can be told from
the diagnostics alone. `DiagnosticSet.rebase_regroups` says it for grouped diagnostics under any root.
-/

namespace NoticeServer
namespace DiagnosticSet

variable {s : DiagnosticSet}

/-- The files of a well-formed set are what it shows for its paths. -/
theorem WellFormed.files_eq (hs : s.WellFormed) :
    s.files = s.paths.map fun p => (p, (s.get? p).getD []) := by
  rw [paths, List.map_map]
  refine (List.map_id s.files).symm.trans (List.map_congr_left fun f hf => ?_)
  have hfound : s.get? f.1 = some f.2 := hs.get?_eq_some_iff.mpr ⟨f, hf, Setoid.refl f.1, rfl⟩
  rw [Function.comp_apply, hfound]
  rfl

/-! ## Grouping by path -/

/-- The different paths that diagnostics carry, each where it comes first. -/
def reportedPaths (ds : List Diagnostic) : List Path :=
  (ds.map (·.path)).eraseDupsBy fun (p earlier : Path) => earlier ≈ p

/-- The diagnostics that carry a path, in order. -/
def reportedFor (p : Path) (ds : List Diagnostic) : List Diagnostic := ds.filter fun d => d.path ≈ p

/-- A diagnostic as an entry: added alone, for the path it carries. -/
def entryOf (d : Diagnostic) : Path × List Diagnostic := (d.path, [d])

theorem aggregate_eq_addAll (ds : List Diagnostic) : aggregate ds = empty.addAll (ds.map entryOf) := by
  rw [addAll, List.foldl_map]
  rfl

theorem itemsFor_entryOf (p : Path) (ds : List Diagnostic) :
    itemsFor p (ds.map entryOf) = reportedFor p ds := by
  unfold itemsFor reportedFor
  rw [List.filter_map, List.flatMap_map]
  exact List.flatMap_singleton' _

theorem filledPaths_entryOf (ds : List Diagnostic) : filledPaths (ds.map entryOf) = ds.map (·.path) := by
  have hfilled : ∀ e ∈ ds.map entryOf, e.2 ≠ [] := List.forall_mem_map.mpr fun d _ => List.cons_ne_nil d []
  rw [filledPaths_of_filled hfilled, List.map_map]
  rfl

theorem wellFormed_aggregate (ds : List Diagnostic) : (aggregate ds).WellFormed := by
  rw [aggregate_eq_addAll]
  exact wellFormed_addAll wellFormed_empty _

theorem paths_aggregate (ds : List Diagnostic) : (aggregate ds).paths = reportedPaths ds := by
  rw [aggregate_eq_addAll, paths_addAll, filledPaths_entryOf]
  exact Path.additions_to_nil _

theorem get?_aggregate (ds : List Diagnostic) (p : Path) :
    (aggregate ds).get? p = if reportedFor p ds = [] then none else some (reportedFor p ds) := by
  rw [aggregate_eq_addAll, get?_addAll, itemsFor_entryOf]
  rfl

/-- **Diagnostics grouped by path**: a file for each path they carry, with those that carry it. -/
theorem files_aggregate (ds : List Diagnostic) :
    (aggregate ds).files = (reportedPaths ds).map fun p => (p, reportedFor p ds) := by
  rw [(wellFormed_aggregate ds).files_eq, paths_aggregate]
  refine List.map_congr_left fun p _ => ?_
  rw [get?_aggregate]
  split
  · next hnone => rw [hnone, Option.getD_none]
  · rfl

theorem diagnostics_aggregate (ds : List Diagnostic) : (aggregate ds).diagnostics.Perm ds := by
  have h := empty.diagnostics_addAll (ds.map entryOf)
  rw [← aggregate_eq_addAll, List.flatMap_map] at h
  exact h.trans (.of_eq (List.flatMap_singleton' ds))

/-! ## Under a root -/

/-- A file as seen from a root. -/
def seenFrom (root : Path) (f : Path × List Diagnostic) : Path × List Diagnostic := (root.join f.1, f.2)

theorem rebase_eq_addAll (s : DiagnosticSet) (root : Path) :
    s.rebase root = empty.addAll (s.files.map (seenFrom root)) := by
  rw [addAll, List.foldl_map]
  rfl

theorem itemsFor_seenFrom (root q : Path) (files : List (Path × List Diagnostic)) :
    itemsFor q (files.map (seenFrom root)) =
      (files.filter fun f => root.join f.1 ≈ q).flatMap (·.2) := by
  unfold itemsFor
  rw [List.filter_map, List.flatMap_map]
  rfl

theorem filled_seenFrom (hs : s.WellFormed) (root : Path) :
    ∀ e ∈ s.files.map (seenFrom root), e.2 ≠ [] :=
  List.forall_mem_map.mpr fun f hf => hs.filled f hf

/-- **What a set shows under a root**: the diagnostics of all its files that are the file there. -/
theorem get?_rebase (s : DiagnosticSet) (root q : Path) :
    (s.rebase root).get? q =
      let items := (s.files.filter fun f => root.join f.1 ≈ q).flatMap (·.2)
      if items = [] then none else some items := by
  rw [rebase_eq_addAll, get?_addAll, itemsFor_seenFrom]
  rfl

/-- **The order of the files under a root**: each file there stands where the first of its files stood. -/
theorem paths_rebase (hs : s.WellFormed) (root : Path) :
    (s.rebase root).paths = Path.additions [] (s.paths.map root.join) := by
  have hpaths : (s.files.map (seenFrom root)).map (·.1) = s.paths.map root.join := by
    rw [paths, List.map_map, List.map_map]
    rfl
  rw [rebase_eq_addAll, paths_addAll, filledPaths_of_filled (filled_seenFrom hs root), hpaths]
  rfl

/-- **No diagnostic is lost or doubled** under a root. -/
theorem diagnostics_rebase (s : DiagnosticSet) (root : Path) :
    (s.rebase root).diagnostics.Perm s.diagnostics := by
  have h := empty.diagnostics_addAll (s.files.map (seenFrom root))
  rw [← rebase_eq_addAll, List.flatMap_map] at h
  exact h

theorem total_rebase (s : DiagnosticSet) (root : Path) : (s.rebase root).total = s.total := by
  rw [total_eq_length, total_eq_length, (s.diagnostics_rebase root).length_eq]

/-- Where different files stay different, the files under a root are those of the set. -/
theorem files_rebase_of_injective (hs : s.WellFormed) {root : Path}
    (h : ∀ p ∈ s.paths, ∀ q ∈ s.paths, root.join p ≈ root.join q → p ≈ q) :
    (s.rebase root).files = s.files.map (seenFrom root) := by
  rw [rebase_eq_addAll]
  refine files_addAll_of_distinct ?_ (filled_seenFrom hs root)
  show ((s.files.map (seenFrom root)).Pairwise fun e f => ¬ e.1 ≈ f.1)
  rw [List.pairwise_map]
  refine hs.distinct.imp_of_mem fun {e f} he hf hne hjoined => hne ?_
  exact h e.1 (List.mem_map_of_mem he) f.1 (List.mem_map_of_mem hf) hjoined

/-! ## Grouped diagnostics under a root -/

theorem paths_rebase_aggregate (ds : List Diagnostic) (root : Path) :
    ((aggregate ds).rebase root).paths =
      (ds.map fun d => root.join d.path).eraseDupsBy fun (p earlier : Path) => earlier ≈ p := by
  have hcongr : ∀ p q : Path, p ≈ q → root.join p ≈ root.join q := fun _ _ => Path.join_congr_right root
  rw [paths_rebase (wellFormed_aggregate ds), paths_aggregate, reportedPaths, ← Path.additions_to_nil,
    Path.additions_map_additions hcongr (List.forall_mem_nil _), List.map_map, Path.additions_to_nil]
  rfl

theorem get?_rebase_aggregate (ds : List Diagnostic) (root q : Path) :
    ((aggregate ds).rebase root).get? q =
      let items := ((reportedPaths ds).filter fun p => root.join p ≈ q).flatMap fun p => reportedFor p ds
      if items = [] then none else some items := by
  rw [get?_rebase, files_aggregate, List.filter_map, List.flatMap_map]
  rfl

/-- A diagnostic is with the file that its own path is under the root. -/
theorem join_path_of_mem {ds : List Diagnostic} {root : Path} {f : Path × List Diagnostic}
    (hf : f ∈ ((aggregate ds).rebase root).files) {d : Diagnostic} (hd : d ∈ f.2) :
    root.join d.path ≈ f.1 := by
  have hget : ((aggregate ds).rebase root).get? f.1 = some f.2 :=
    (wellFormed_rebase _ root).get?_eq_some_iff.mpr ⟨f, hf, Setoid.refl f.1, rfl⟩
  rw [get?_rebase_aggregate] at hget
  dsimp only at hget
  split at hget
  · exact absurd hget nofun
  · rw [← Option.some.inj hget, List.mem_flatMap] at hd
    obtain ⟨p, hp, hd⟩ := hd
    have hjoin : root.join p ≈ f.1 := of_decide_eq_true (List.mem_filter.mp hp).2
    have hcarries : d.path ≈ p := of_decide_eq_true (List.mem_filter.mp hd).2
    exact Setoid.trans (Path.join_congr_right root hcarries) hjoin

theorem mem_reportedPaths {ds : List Diagnostic} {p : Path} (h : p ∈ reportedPaths ds) :
    ∃ d ∈ ds, d.path = p := by
  rw [reportedPaths, ← Path.additions_to_nil] at h
  exact List.mem_map.mp (Path.mem_of_mem_additions h)

/-- **Grouped diagnostics under a root.** The files are what the carried paths are under the root, each
where it comes first. A file shows, for each of the different paths that are this file under the root, in
the order in which these come first, the diagnostics that carry the path, in their order. Every diagnostic
is there just once, as it was, with the file that its path is under the root. Where different paths stay
different, the set has the same files in the same order as without the root. -/
theorem rebase_regroups (ds : List Diagnostic) (root : Path) :
    let set := (aggregate ds).rebase root
    set.paths = ((ds.map fun d => root.join d.path).eraseDupsBy fun (p earlier : Path) => earlier ≈ p) ∧
    (∀ q, set.get? q =
      let items := ((reportedPaths ds).filter fun p => root.join p ≈ q).flatMap fun p => reportedFor p ds
      if items = [] then none else some items) ∧
    set.total = ds.length ∧
    (set.files.flatMap (·.2)).Perm ds ∧
    (∀ f ∈ set.files, ∀ d ∈ f.2, root.join d.path ≈ f.1) ∧
    ((∀ d ∈ ds, ∀ e ∈ ds, root.join d.path ≈ root.join e.path → d.path ≈ e.path) →
      set.files = (aggregate ds).files.map fun f => (root.join f.1, f.2)) := by
  intro set
  have hperm : set.diagnostics.Perm ds :=
    (diagnostics_rebase _ root).trans (diagnostics_aggregate ds)
  refine ⟨paths_rebase_aggregate ds root, get?_rebase_aggregate ds root, ?_, hperm,
    fun f hf d hd => join_path_of_mem hf hd, ?_⟩
  · rw [total_eq_length, hperm.length_eq]
  · intro hinjective
    refine files_rebase_of_injective (wellFormed_aggregate ds) ?_
    rw [paths_aggregate]
    intro p hp q hq
    obtain ⟨d, hd, rfl⟩ := mem_reportedPaths hp
    obtain ⟨e, he, rfl⟩ := mem_reportedPaths hq
    exact hinjective d hd e he

/-- A diagnostic of a line of a file. -/
def report (path : String) (line : UInt32) : Diagnostic := ⟨.ofString path, ⟨⟨line, 0⟩, ⟨line + 1, 0⟩⟩, "m"⟩

/-- Reports of two files; one of them is reported under three paths. -/
def aliasedReports : List Diagnostic :=
  [report "./a.go" 1, report "b.go" 2, report "a.go" 3, report "/repo/a.go" 4, report "./a.go" 5]

/-- Reports of two files, each under a path of its own. -/
def plainReports : List Diagnostic := [report "b.go" 1, report "a.go" 2, report "b.go" 3]

/-- The three paths of the one file come together in the order of their first reports; where every file has
a path of its own, only the paths change. -/
theorem rebase_reports :
    let root := Path.ofString "/repo"
    let aliased := (aggregate aliasedReports).rebase root
    let plain := (aggregate plainReports).rebase root
    aliased.paths = [.ofString "/repo/./a.go", .ofString "/repo/b.go"] ∧
    aliased.get? (.ofString "/repo/a.go") =
      some [report "./a.go" 1, report "./a.go" 5, report "a.go" 3, report "/repo/a.go" 4] ∧
    aliased.total = 5 ∧
    (∃ f ∈ aliased.files, report "a.go" 3 ∈ f.2 ∧ root.join (.ofString "a.go") ≈ f.1) ∧
    (∀ d ∈ plainReports, ∀ e ∈ plainReports, root.join d.path ≈ root.join e.path → d.path ≈ e.path) ∧
    plain.files =
      [(.ofString "/repo/b.go", [report "b.go" 1, report "b.go" 3]),
        (.ofString "/repo/a.go", [report "a.go" 2])] := by
  intro root aliased plain
  obtain ⟨hpaths, hget, htotal, -, hfiled, -⟩ := rebase_regroups aliasedReports root
  obtain ⟨-, -, -, -, -, hkept⟩ := rebase_regroups plainReports root
  have hplain : ∀ d ∈ plainReports, ∀ e ∈ plainReports,
      root.join d.path ≈ root.join e.path → d.path ≈ e.path := by decide +kernel
  obtain ⟨f, hf, hd⟩ : ∃ f ∈ aliased.files, report "a.go" 3 ∈ f.2 := by decide +kernel
  refine ⟨?_, ?_, htotal, ⟨f, hf, hd, hfiled f hf _ hd⟩, hplain, ?_⟩
  · rw [hpaths]
    decide +kernel
  · rw [hget]
    decide +kernel
  · rw [hkept hplain]
    decide +kernel

end DiagnosticSet
end NoticeServer
