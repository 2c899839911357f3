import NoticeServer.Proofs.DiagnosticSet.WellFormed
import NoticeServer.Proofs.Path.Additions

/-!
# `NoticeServer.Proofs.DiagnosticSet.Append` — a set that grows file by file

What a set shows, in which order its files stand and which diagnostics it has: each is told of the set
behind an addition from the set before it (`DiagnosticSet.get?_append`, `DiagnosticSet.paths_append`,
`DiagnosticSet.diagnostics_append`), and then of the set behind any number of additions
(`DiagnosticSet.addAll`). Everything that is later said about sets that are collected, grouped or seen from a
root is an instance of the latter.
-/

namespace NoticeServer
namespace DiagnosticSet

open NoticeServer.Path (lookup keyed)

/-- All diagnostics of a set, file by file. -/
def diagnostics (s : DiagnosticSet) : List Diagnostic := s.files.flatMap (·.2)

theorem total_eq_length (s : DiagnosticSet) : s.total = s.diagnostics.length := by
  unfold total diagnostics
  induction s.files with
  | nil => rfl
  | cons f files ih => rw [List.foldr_cons, ih, List.flatMap_cons, List.length_append]

theorem mem_diagnostics {s : DiagnosticSet} {d : Diagnostic} :
    d ∈ s.diagnostics ↔ ∃ f ∈ s.files, d ∈ f.2 := List.mem_flatMap

/-! ## One addition -/

/-- Only the file added to shows more, and it shows it at its end. -/
theorem get?_append (s : DiagnosticSet) (path : Path) (items : List Diagnostic) (k : Path) :
    (s.append path items).get? k =
      if path ≈ k ∧ items ≠ [] then some ((s.get? k).getD [] ++ items) else s.get? k := by
  unfold append
  cases items with
  | nil => simp
  | cons d items =>
    have hlookup := lookup_appendTo path (d :: items) s.files k
    show lookup (appendTo path (d :: items) s.files) k = _
    rw [hlookup, ← get?_eq_lookup]
    simp

/-- A file is there if its path is among the paths. -/
theorem any_paths (s : DiagnosticSet) (k : Path) : s.paths.any (· ≈ k) = s.contains k := by
  unfold paths contains
  rw [List.any_map]
  rfl

/-- Files keep their order; one that is not there yet comes last. -/
theorem paths_append (s : DiagnosticSet) (path : Path) {items : List Diagnostic} (h : items ≠ []) :
    (s.append path items).paths = if s.contains path = true then s.paths else s.paths ++ [path] := by
  have hkeys := keys_appendTo path items s.files
  have hfilled : ¬ items.isEmpty = true := by simpa using h
  unfold append
  rw [if_neg hfilled]
  exact hkeys

theorem perm_appendTo (path : Path) (items : List Diagnostic) (files : List (Path × List Diagnostic)) :
    ((appendTo path items files).flatMap (·.2)).Perm (files.flatMap (·.2) ++ items) := by
  induction files with
  | nil => simp [appendTo]
  | cons f files ih =>
    rw [appendTo]
    split
    · -- the items go between those of this file and those of the others
      simp only [List.flatMap_cons, List.append_assoc]
      exact (List.perm_append_comm).append_left f.2
    · simp only [List.flatMap_cons, List.append_assoc]
      exact ih.append_left f.2

/-- **No diagnostic is lost or doubled** by an addition. -/
theorem diagnostics_append (s : DiagnosticSet) (path : Path) (items : List Diagnostic) :
    (s.append path items).diagnostics.Perm (s.diagnostics ++ items) := by
  unfold append
  split
  · next hempty =>
    rw [List.isEmpty_iff.mp hempty, List.append_nil]
  · exact perm_appendTo path items s.files

theorem appendTo_appendTo (path : Path) (items more : List Diagnostic)
    (files : List (Path × List Diagnostic)) :
    appendTo path more (appendTo path items files) = appendTo path (items ++ more) files := by
  induction files with
  | nil => rw [appendTo, appendTo, appendTo, if_pos (Setoid.refl path)]
  | cons f files ih =>
    rw [appendTo, appendTo]
    split
    · next hf => rw [appendTo, if_pos hf, List.append_assoc]
    · next hf => rw [appendTo, if_neg hf, ih]

/-- Diagnostics of one file may be added in two goes. -/
theorem append_append (s : DiagnosticSet) (path : Path) (items more : List Diagnostic) :
    (s.append path items).append path more = s.append path (items ++ more) := by
  cases items with
  | nil => rfl
  | cons d items =>
    cases more with
    | nil => rw [append_nil, List.append_nil]
    | cons e more =>
      have h := appendTo_appendTo path (d :: items) (e :: more) s.files
      exact congrArg DiagnosticSet.mk h

/-- A file that is not there yet is put behind the others. -/
theorem appendTo_of_not_keyed {files : List (Path × List Diagnostic)} {path : Path}
    (h : keyed files path = false) (items : List Diagnostic) :
    appendTo path items files = files ++ [(path, items)] := by
  induction files with
  | nil => rfl
  | cons f files ih =>
    rw [Path.keyed_cons, Bool.or_eq_false_iff] at h
    rw [appendTo, if_neg (of_decide_eq_false h.1), ih h.2, List.cons_append]

/-- A file that is there stays in its place and grows at its end. -/
theorem appendTo_split {before : List (Path × List Diagnostic)} {path : Path}
    (hbefore : ∀ f ∈ before, ¬ f.1 ≈ path) {f : Path × List Diagnostic} (hf : f.1 ≈ path)
    (after : List (Path × List Diagnostic)) (items : List Diagnostic) :
    appendTo path items (before ++ f :: after) = before ++ (f.1, f.2 ++ items) :: after := by
  induction before with
  | nil => rw [List.nil_append, appendTo, if_pos hf, List.nil_append]
  | cons g before ih =>
    obtain ⟨hg, hbefore⟩ := List.forall_mem_cons.mp hbefore
    rw [List.cons_append, appendTo, if_neg hg, ih hbefore, List.cons_append]

/-- **All that a push can do**: a file that is there grows at its end, or a new one comes last. -/
theorem push_cases (s : DiagnosticSet) (path : Path) (d : Diagnostic) :
    (∃ before file after, s.files = before ++ file :: after ∧ file.1 ≈ path ∧
      (∀ f ∈ before, ¬ f.1 ≈ path) ∧
      (s.push path d).files = before ++ (file.1, file.2 ++ [d]) :: after) ∨
    (s.contains path = false ∧ (s.push path d).files = s.files ++ [(path, [d])]) := by
  cases hs : s.contains path with
  | false => exact .inr ⟨rfl, appendTo_of_not_keyed hs [d]⟩
  | true =>
    obtain ⟨before, file, after, hfiles, hfile, hbefore⟩ := Path.exists_split_of_keyed hs
    refine .inl ⟨before, file, after, hfiles, hfile, hbefore, ?_⟩
    show appendTo path [d] s.files = _
    rw [hfiles]
    exact appendTo_split hbefore hfile after [d]

/-! ## Many additions -/

/-- Diagnostics added for one path after the other. -/
def addAll (s : DiagnosticSet) (entries : List (Path × List Diagnostic)) : DiagnosticSet :=
  entries.foldl (fun s e => s.append e.1 e.2) s

/-- What is added for a file, in the order of the entries. -/
def itemsFor (k : Path) (entries : List (Path × List Diagnostic)) : List Diagnostic :=
  (entries.filter fun e => e.1 ≈ k).flatMap (·.2)

/-- The paths for which something is added, in the order of the entries. -/
def filledPaths (entries : List (Path × List Diagnostic)) : List Path :=
  (entries.filter fun e => !e.2.isEmpty).map (·.1)

@[simp] theorem addAll_nil (s : DiagnosticSet) : s.addAll [] = s := rfl

@[simp] theorem addAll_cons (s : DiagnosticSet) (e : Path × List Diagnostic)
    (entries : List (Path × List Diagnostic)) :
    s.addAll (e :: entries) = (s.append e.1 e.2).addAll entries := rfl

theorem itemsFor_cons (k : Path) (e : Path × List Diagnostic) (entries : List (Path × List Diagnostic)) :
    itemsFor k (e :: entries) = (if e.1 ≈ k then e.2 else []) ++ itemsFor k entries := by
  unfold itemsFor
  by_cases h : e.1 ≈ k
  · rw [List.filter_cons, if_pos (decide_eq_true h), if_pos h, List.flatMap_cons]
  · rw [List.filter_cons, if_neg (by simpa using h), if_neg h, List.nil_append]

theorem filledPaths_cons (e : Path × List Diagnostic) (entries : List (Path × List Diagnostic)) :
    filledPaths (e :: entries) = if e.2 = [] then filledPaths entries else e.1 :: filledPaths entries := by
  unfold filledPaths
  by_cases h : e.2 = []
  · rw [List.filter_cons, if_neg (by simp [h]), if_pos h]
  · rw [List.filter_cons, if_pos (by simpa using h), if_neg h, List.map_cons]

theorem filledPaths_of_filled {entries : List (Path × List Diagnostic)} (h : ∀ e ∈ entries, e.2 ≠ []) :
    filledPaths entries = entries.map (·.1) := by
  have hall : entries.filter (fun e => !e.2.isEmpty) = entries := by
    rw [List.filter_eq_self]
    intro e he
    simpa using h e he
  rw [filledPaths, hall]

/-- **What is shown for a file** behind additions: what was shown before, and what was added for it. -/
theorem get?_addAll (s : DiagnosticSet) (entries : List (Path × List Diagnostic)) (k : Path) :
    (s.addAll entries).get? k =
      if itemsFor k entries = [] then s.get? k
      else some ((s.get? k).getD [] ++ itemsFor k entries) := by
  induction entries generalizing s with
  | nil => rfl
  | cons e entries ih =>
    rw [addAll_cons, ih, get?_append, itemsFor_cons]
    by_cases hshown : e.1 ≈ k ∧ e.2 ≠ []
    · have hfilled : e.2 ++ itemsFor k entries ≠ [] := by simp [hshown.2]
      rw [if_pos hshown, if_pos hshown.1, if_neg hfilled]
      by_cases hrest : itemsFor k entries = []
      · rw [if_pos hrest, hrest, List.append_nil]
      · rw [if_neg hrest, Option.getD_some, List.append_assoc]
    · -- the entry is of another file, or adds nothing
      have hnothing : (if e.1 ≈ k then e.2 else []) = [] := by
        split
        · next hpath => exact Classical.not_not.mp fun hfilled => hshown ⟨hpath, hfilled⟩
        · rfl
      rw [if_neg hshown, hnothing, List.nil_append]

/-- **The order of the files** behind additions: the files from before, then the new paths for which
something was added, each where it comes first. -/
theorem paths_addAll (s : DiagnosticSet) (entries : List (Path × List Diagnostic)) :
    (s.addAll entries).paths = s.paths ++ Path.additions s.paths (filledPaths entries) := by
  induction entries generalizing s with
  | nil => simp [filledPaths]
  | cons e entries ih =>
    rw [addAll_cons, ih, filledPaths_cons]
    by_cases hempty : e.2 = []
    · rw [if_pos hempty, hempty, append_nil]
    · rw [if_neg hempty, paths_append s _ hempty]
      cases hthere : s.contains e.1 with
      | true =>
        have hknown := (s.any_paths _).trans hthere
        rw [if_pos rfl, Path.additions_of_known hknown]
      | false =>
        have hunknown := (s.any_paths _).trans hthere
        rw [if_neg nofun, Path.additions_of_unknown hunknown, List.append_assoc, List.singleton_append]

/-- **No diagnostic is lost or doubled** by additions. -/
theorem diagnostics_addAll (s : DiagnosticSet) (entries : List (Path × List Diagnostic)) :
    (s.addAll entries).diagnostics.Perm (s.diagnostics ++ entries.flatMap (·.2)) := by
  induction entries generalizing s with
  | nil => simp
  | cons e entries ih =>
    rw [addAll_cons, List.flatMap_cons, ← List.append_assoc]
    exact (ih _).trans ((s.diagnostics_append e.1 e.2).append_right _)

theorem wellFormed_addAll {s : DiagnosticSet} (h : s.WellFormed)
    (entries : List (Path × List Diagnostic)) : (s.addAll entries).WellFormed :=
  List.foldlRecOn (motive := WellFormed) entries _ h fun _ h _ _ => wellFormed_append h _ _

/-- Additions for different paths that are not there yet are put behind the files as they are. -/
theorem files_addAll_of_distinct {s : DiagnosticSet} {entries : List (Path × List Diagnostic)}
    (h : Path.Distinct (s.files ++ entries)) (hfilled : ∀ e ∈ entries, e.2 ≠ []) :
    (s.addAll entries).files = s.files ++ entries := by
  induction entries generalizing s with
  | nil => simp
  | cons e entries ih =>
    obtain ⟨he, hentries⟩ := List.forall_mem_cons.mp hfilled
    have hnew : keyed s.files e.1 = false := by
      rw [Bool.eq_false_iff]
      intro hkeyed
      obtain ⟨f, hf, hfe⟩ := Path.keyed_iff.mp hkeyed
      exact (List.pairwise_append.mp h).2.2 f hf e List.mem_cons_self hfe
    have hfiles : (s.append e.1 e.2).files = s.files ++ [e] := by
      rw [append, if_neg (by simpa using he)]
      exact appendTo_of_not_keyed hnew e.2
    rw [List.append_cons] at h
    rw [addAll_cons, ih (by rwa [hfiles]) hentries, hfiles, List.append_assoc, List.singleton_append]

end DiagnosticSet
end NoticeServer
