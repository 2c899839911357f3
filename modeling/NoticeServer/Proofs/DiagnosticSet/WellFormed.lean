import NoticeServer.Collection
import NoticeServer.Proofs.Path.Lookup

/-!
# `NoticeServer.Proofs.DiagnosticSet.WellFormed` — what every set keeps

Files of a set are pairwise different as paths, and none is empty. The sets that outputs come to are such
sets, under every root: an addition changes one file and leaves the others (`DiagnosticSet.lookup_appendTo`),
and a set under a root is made of additions.
-/

namespace NoticeServer
namespace DiagnosticSet

open NoticeServer.Path (lookup keyed)

variable {s : DiagnosticSet} {path k : Path} {items : List Diagnostic}

theorem get?_eq_lookup (s : DiagnosticSet) (k : Path) : s.get? k = lookup s.files k := rfl

@[simp] theorem get?_empty (k : Path) : empty.get? k = none := rfl

@[simp] theorem contains_empty (k : Path) : empty.contains k = false := rfl

/-- A file has diagnostics exactly if it is in the set. -/
theorem isSome_get? (s : DiagnosticSet) (k : Path) : (s.get? k).isSome = s.contains k :=
  Path.isSome_lookup s.files k

theorem contains_of_get? (h : s.get? k = some items) : s.contains k = true := by
  rw [← isSome_get?, h, Option.isSome_some]

theorem contains_iff : s.contains k = true ↔ ∃ f ∈ s.files, f.1 ≈ k := Path.keyed_iff

theorem isEmpty_iff : s.isEmpty = true ↔ s = empty := by
  obtain ⟨files⟩ := s
  simp [isEmpty, empty]

/-! ## Adding to one file -/

/-- Only the file added to changes, and it changes at its end. -/
theorem lookup_appendTo (path : Path) (items : List Diagnostic) (files : List (Path × List Diagnostic))
    (k : Path) :
    lookup (appendTo path items files) k =
      if path ≈ k then some ((lookup files k).getD [] ++ items) else lookup files k := by
  induction files with
  | nil => rw [appendTo, Path.lookup_cons, Path.lookup_nil, Option.getD_none, List.nil_append]
  | cons f files ih =>
    rw [appendTo]
    -- whether this file is the one added to, and whether either is the one asked for
    by_cases hf : f.1 ≈ path
    · rw [if_pos hf, Path.lookup_cons, Path.lookup_cons]
      by_cases hk : path ≈ k
      · have hfk : f.1 ≈ k := Setoid.trans hf hk
        rw [if_pos hfk, if_pos hk, if_pos hfk, Option.getD_some]
      · have hfk : ¬ f.1 ≈ k := fun h => hk (Setoid.trans (Setoid.symm hf) h)
        rw [if_neg hfk, if_neg hk, if_neg hfk]
    · rw [if_neg hf, Path.lookup_cons, Path.lookup_cons, ih]
      by_cases hfk : f.1 ≈ k
      · have hk : ¬ path ≈ k := fun h => hf (Setoid.trans hfk (Setoid.symm h))
        rw [if_pos hfk, if_neg hk, if_pos hfk]
      · rw [if_neg hfk, if_neg hfk]

/-- The paths stay as they are written; a new one comes last. -/
theorem keys_appendTo (path : Path) (items : List Diagnostic) (files : List (Path × List Diagnostic)) :
    (appendTo path items files).map (·.1) =
      if keyed files path then files.map (·.1) else files.map (·.1) ++ [path] := by
  induction files with
  | nil => rfl
  | cons f files ih =>
    rw [appendTo]
    rw [Path.keyed_cons]
    by_cases hf : f.1 ≈ path
    · rw [if_pos hf, decide_eq_true hf, Bool.true_or, if_pos rfl, List.map_cons, List.map_cons]
    · rw [if_neg hf, decide_eq_false hf, Bool.false_or, List.map_cons, ih]
      by_cases hk : keyed files path = true
      · rw [if_pos hk, if_pos hk, List.map_cons]
      · rw [if_neg hk, if_neg hk, List.map_cons, List.cons_append]

/-! ## The invariant -/

/-- No file is there twice, and every file has a diagnostic. -/
structure WellFormed (s : DiagnosticSet) : Prop where
  distinct : Path.Distinct s.files
  filled : ∀ f ∈ s.files, f.2 ≠ []

theorem wellFormed_empty : empty.WellFormed := ⟨List.Pairwise.nil, by simp [empty]⟩

/-- What a file of a well-formed set shows is not empty. -/
theorem WellFormed.get?_ne_nil (hs : s.WellFormed) (h : s.get? k = some items) : items ≠ [] := by
  obtain ⟨f, hf, _, rfl⟩ := Path.mem_of_lookup h
  exact hs.filled f hf

/-- A file of a well-formed set is found with its own diagnostics. -/
theorem WellFormed.get?_eq_some_iff (hs : s.WellFormed) :
    s.get? k = some items ↔ ∃ f ∈ s.files, f.1 ≈ k ∧ f.2 = items :=
  Path.lookup_eq_some_iff hs.distinct

theorem distinct_appendTo {files : List (Path × List Diagnostic)} (h : Path.Distinct files)
    (path : Path) (items : List Diagnostic) : Path.Distinct (appendTo path items files) := by
  rw [Path.distinct_iff_keys] at h ⊢
  rw [keys_appendTo]
  split
  · exact h
  · next hk =>
    -- the new path comes last, and it was no key before
    refine List.pairwise_append.mpr ⟨h, List.pairwise_singleton _ _, ?_⟩
    intro p hp q hq
    obtain ⟨f, hf, rfl⟩ := List.mem_map.mp hp
    rw [List.mem_singleton] at hq
    subst hq
    exact fun hfq => hk (Path.keyed_iff.mpr ⟨f, hf, hfq⟩)

theorem filled_appendTo {files : List (Path × List Diagnostic)} (h : ∀ f ∈ files, f.2 ≠ [])
    (path : Path) (hitems : items ≠ []) : ∀ f ∈ appendTo path items files, f.2 ≠ [] := by
  induction files with
  | nil => simpa [appendTo] using hitems
  | cons f files ih =>
    obtain ⟨hf, hfiles⟩ := List.forall_mem_cons.mp h
    rw [appendTo]
    split
    · exact List.forall_mem_cons.mpr ⟨by simp [hf], hfiles⟩
    · exact List.forall_mem_cons.mpr ⟨hf, ih hfiles⟩

theorem wellFormed_append (hs : s.WellFormed) (path : Path) (items : List Diagnostic) :
    (s.append path items).WellFormed := by
  unfold append
  split
  · exact hs
  · next hitems =>
    exact ⟨distinct_appendTo hs.distinct path items,
      filled_appendTo hs.filled path (by simpa using hitems)⟩

/-- **A set under a root is well-formed**, whatever the set was. -/
theorem wellFormed_rebase (s : DiagnosticSet) (root : Path) : (s.rebase root).WellFormed :=
  List.foldlRecOn (motive := WellFormed) s.files _ wellFormed_empty
    fun _ h _ _ => wellFormed_append h _ _

end DiagnosticSet
end NoticeServer
