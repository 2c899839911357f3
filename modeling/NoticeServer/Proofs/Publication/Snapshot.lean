import NoticeServer.Proofs.Path.Order
import NoticeServer.Proofs.Publication.Store

/-!
# `NoticeServer.Proofs.Publication.Snapshot` — all published files at a glance

A store gives out its roots in some order that has no meaning. Whatever this order is, the snapshot has the
files of all published sets, each as often as it is published, in the order of their paths
(`PublishedStore.perm_snapshot`, `PublishedStore.ascending_snapshot`); what it counts and finds is what the sets
count and find.
-/

namespace NoticeServer

namespace PublishedStore

variable {s t : PublishedStore} {root p : Path} {set : DiagnosticSet}

/-! ## Entries in any order -/

/-- What is published for a root is the set of its entry. -/
theorem get?_eq_some_iff (h : s.WellFormed) :
    s.get? root = some set ↔ ∃ e ∈ s.roots, e.1 ≈ root ∧ e.2 = set :=
  Path.lookup_eq_some_iff h.distinct

theorem get?_of_mem (h : s.WellFormed) {e : Path × DiagnosticSet} (he : e ∈ s.roots) :
    s.get? e.1 = some e.2 := (get?_eq_some_iff h).mpr ⟨e, he, Setoid.refl e.1, rfl⟩

/-- Nothing is published just if there are no entries. -/
theorem forall_get?_eq_none_iff : (∀ root, s.get? root = none) ↔ s.roots = [] := by
  constructor
  · intro h
    refine List.eq_nil_iff_forall_not_mem.mpr fun e he => ?_
    have hkeyed := Path.lookup_eq_none_iff.mp (h e.1)
    exact Bool.eq_false_iff.mp hkeyed (Path.keyed_iff.mpr ⟨e, he, Setoid.refl e.1⟩)
  · intro h root
    rw [get?_eq_lookup, h, Path.lookup_nil]

theorem wellFormed_of_perm (hperm : t.roots.Perm s.roots) (h : s.WellFormed) : t.WellFormed where
  distinct := h.distinct.perm hperm.symm fun hef hfe => hef (Setoid.symm hfe)
  sets e he := h.sets e (hperm.mem_iff.mp he)
  filled e he := h.filled e (hperm.mem_iff.mp he)

/-- The order of the entries does not count. -/
theorem get?_of_perm (hperm : t.roots.Perm s.roots) (h : s.WellFormed) (root : Path) :
    t.get? root = s.get? root := by
  refine Option.ext fun set => ?_
  rw [get?_eq_some_iff h, get?_eq_some_iff (wellFormed_of_perm hperm h)]
  simp only [hperm.mem_iff]

/-! ## The files of a snapshot -/

/-- **A snapshot has the files of all published sets**, each as often as it is published. -/
theorem perm_snapshot (hperm : t.roots.Perm s.roots) :
    t.snapshot.files.Perm (s.roots.flatMap fun e => e.2.files) :=
  (List.mergeSort_perm _ _).trans (hperm.flatMap_right _)

/-- **The files of a snapshot ascend.** -/
theorem ascending_snapshot (s : PublishedStore) :
    s.snapshot.files.Pairwise fun f g => f.1 < g.1 ∨ f.1 ≈ g.1 :=
  Path.ascending_mergeSort _ _

theorem mem_snapshot {f : Path × List Diagnostic} :
    f ∈ s.snapshot.files ↔ ∃ e ∈ s.roots, f ∈ e.2.files := by
  rw [(perm_snapshot (.refl s.roots)).mem_iff, List.mem_flatMap]

/-- A snapshot is empty just if nothing is published, as no empty set is kept. -/
theorem isEmpty_snapshot_iff (h : s.WellFormed) :
    s.snapshot.isEmpty = true ↔ ∀ root, s.get? root = none := by
  rw [forall_get?_eq_none_iff, Snapshot.isEmpty, List.isEmpty_iff, List.eq_nil_iff_forall_not_mem,
    List.eq_nil_iff_forall_not_mem]
  constructor
  · intro hnone e he
    obtain ⟨f, hf⟩ : ∃ f, f ∈ e.2.files := by
      have hfilled := h.filled e he
      exact List.exists_mem_of_ne_nil _ (by simpa [DiagnosticSet.isEmpty] using hfilled)
    exact hnone f (mem_snapshot.mpr ⟨e, he, hf⟩)
  · intro hnone f hf
    obtain ⟨e, he, -⟩ := mem_snapshot.mp hf
    exact hnone e he

/-- **A snapshot counts the diagnostics of all published sets.** -/
theorem total_snapshot (hperm : t.roots.Perm s.roots) :
    t.snapshot.total = s.roots.foldr (fun e n => e.2.total + n) 0 := by
  have hfiles (files : List (Path × List Diagnostic)) :
      Snapshot.total ⟨files⟩ = (files.flatMap (·.2)).length := DiagnosticSet.total_eq_length ⟨files⟩
  rw [hfiles, ((perm_snapshot hperm).flatMap_right _).length_eq]
  induction s.roots with
  | nil => rfl
  | cons e entries ih =>
    rw [List.flatMap_cons, List.flatMap_append, List.length_append, ih, List.foldr_cons,
      DiagnosticSet.total_eq_length]
    rfl

/-! ## The diagnostics of a file -/

/-- A file is not found just if no root publishes it. -/
theorem get?_snapshot_eq_none_iff (h : s.WellFormed) :
    s.snapshot.get? p = none ↔ ∀ root set, s.get? root = some set → set.contains p = false := by
  have hlookup : s.snapshot.get? p = Path.lookup s.snapshot.files p := rfl
  rw [hlookup, Path.lookup_eq_none_iff, Bool.eq_false_iff, Ne, Path.keyed_iff]
  constructor
  · intro hnone root set hset
    rw [Bool.eq_false_iff, Ne, DiagnosticSet.contains_iff]
    rintro ⟨f, hf, hequal⟩
    obtain ⟨e, he, rfl⟩ := exists_mem_roots hset
    exact hnone ⟨f, mem_snapshot.mpr ⟨e, he, hf⟩, hequal⟩
  · rintro hnone ⟨f, hf, hequal⟩
    obtain ⟨e, he, hfe⟩ := mem_snapshot.mp hf
    have hcontains := hnone e.1 e.2 (get?_of_mem h he)
    exact Bool.eq_false_iff.mp hcontains (DiagnosticSet.contains_iff.mpr ⟨f, hfe, hequal⟩)

/-- What is found for a file is what some root publishes for it. -/
theorem exists_of_get?_snapshot (h : s.WellFormed) {items : List Diagnostic}
    (hitems : s.snapshot.get? p = some items) :
    ∃ root set, s.get? root = some set ∧ set.get? p = some items := by
  obtain ⟨f, hf, hequal, rfl⟩ := Path.mem_of_lookup hitems
  obtain ⟨e, he, hfe⟩ := mem_snapshot.mp hf
  exact ⟨e.1, e.2, get?_of_mem h he, (h.sets e he).get?_eq_some_iff.mpr ⟨f, hfe, hequal, rfl⟩⟩

/-- **A file that only one root publishes** is found with what it has there. -/
theorem get?_snapshot_of_only (h : s.WellFormed) (hset : s.get? root = some set)
    (hp : set.contains p = true)
    (honly : ∀ root' set', s.get? root' = some set' → set'.contains p = true → root' ≈ root) :
    s.snapshot.get? p = set.get? p := by
  cases hfound : s.snapshot.get? p with
  | none =>
    have hnot := (get?_snapshot_eq_none_iff h).mp hfound root set hset
    rw [hp] at hnot
    exact Bool.noConfusion hnot
  | some items =>
    obtain ⟨root', set', hset', hitems⟩ := exists_of_get?_snapshot h hfound
    have hequal := honly root' set' hset' (DiagnosticSet.contains_of_get? hitems)
    rw [get?_congr hequal, hset] at hset'
    obtain rfl := Option.some.inj hset'
    exact hitems.symm

end PublishedStore

/-! ## The short text -/

namespace Snapshot

variable {v : Snapshot}

/-- The text tells the number of diagnostics and the number of entries. -/
theorem status_of_filled (h : v.isEmpty = false) :
    v.status = "nudge: " ++ toString v.total ++ " in " ++ toString v.files.length ++
      (if v.files.length = 1 then " file" else " files") := by
  unfold status
  rw [h]
  by_cases hone : v.files.length = 1
  · rw [if_pos hone, if_pos hone]
    exact String.append_assoc
  · rw [if_neg hone, if_neg hone]
    exact String.append_assoc

/-- The text is empty just if there are no files. -/
theorem status_eq_empty_iff : v.status = "" ↔ v.isEmpty = true := by
  constructor
  · intro hstatus
    cases h : v.isEmpty with
    | true => rfl
    | false =>
      rw [status_of_filled h] at hstatus
      simp at hstatus
  · intro h
    rw [status, if_pos h]

end Snapshot
end NoticeServer
