import NoticeServer.DiagnosticSet
import NoticeServer.Proofs.Path.Join
import NoticeServer.Proofs.Path.Lookup

/-!
# `NoticeServer.Proofs.DiagnosticSet.Spelling` — sets that differ in spelling only

A set under a root depends on the spelling of the root only through the spelling of its paths
(`DiagnosticSet.same_rebase`). Sets are compared file by file for this, the paths by what they name.
-/

namespace NoticeServer

theorem Diagnostic.same_refl (d : Diagnostic) : d.Same d := ⟨Setoid.refl _, rfl, rfl⟩

namespace DiagnosticSet

/-- Equal diagnostics under equivalent paths are the same file. -/
theorem sameFile_of_equiv {p q : Path} (h : p ≈ q) (items : List Diagnostic) :
    sameFile (p, items) (q, items) = true := by
  have hpaths : decide (p ≈ q) = true := decide_eq_true h
  have hpairs : items.zip items = items.map fun d => (d, d) := by
    rw [← List.zip_map', List.map_id']
  simp only [sameFile, hpaths, beq_self_eq_true, Bool.and_self, Bool.true_and, hpairs, List.all_map,
    List.all_eq_true, Function.comp_apply, decide_eq_true_eq]
  exact fun d _ => d.same_refl

theorem same_nil : same ⟨[]⟩ ⟨[]⟩ = true := rfl

/-- Sets are the same file by file. -/
theorem same_cons (f g : Path × List Diagnostic) (fs gs : List (Path × List Diagnostic)) :
    same ⟨f :: fs⟩ ⟨g :: gs⟩ = (sameFile f g && same ⟨fs⟩ ⟨gs⟩) := by
  have hlen : ((f :: fs).length == (g :: gs).length) = (fs.length == gs.length) := by
    rw [Bool.eq_iff_iff]
    simp
  simp only [same, hlen, List.zip_cons_cons, List.all_cons, Bool.and_left_comm]

/-- The same sets are empty together. -/
theorem isEmpty_of_same {s t : DiagnosticSet} (h : s.same t = true) : s.isEmpty = t.isEmpty := by
  obtain ⟨fs⟩ := s
  obtain ⟨gs⟩ := t
  cases fs <;> cases gs <;> simp_all [same, isEmpty]

/-- A set is the same as itself. -/
theorem same_refl (s : DiagnosticSet) : s.same s = true := by
  obtain ⟨fs⟩ := s
  induction fs with
  | nil => exact same_nil
  | cons f fs ih => rw [same_cons, sameFile_of_equiv (Setoid.refl f.1), ih, Bool.and_self]

/-- The same sets have the same number of diagnostics. -/
theorem total_of_same {s t : DiagnosticSet} (h : s.same t = true) : s.total = t.total := by
  obtain ⟨fs⟩ := s
  obtain ⟨gs⟩ := t
  induction fs generalizing gs with
  | nil =>
    cases gs with
    | nil => rfl
    | cons g gs => exact absurd h Bool.false_ne_true
  | cons f fs ih =>
    cases gs with
    | nil => exact absurd h Bool.false_ne_true
    | cons g gs =>
      rw [same_cons, Bool.and_eq_true] at h
      obtain ⟨hfile, hrest⟩ := h
      have hlength : f.2.length = g.2.length := by
        simp only [sameFile, Bool.and_eq_true, beq_iff_eq] at hfile
        exact hfile.1.2
      have htotal : total ⟨fs⟩ = total ⟨gs⟩ := ih gs hrest
      show f.2.length + total ⟨fs⟩ = g.2.length + total ⟨gs⟩
      rw [hlength, htotal]

/-! ## Sets built alike

Two runs over the same diagnostics keep the same lists of items under equivalent paths. This is what the
induction carries; `same` follows from it. -/

/-- The same items, file by file, under equivalent paths. -/
inductive Alike : List (Path × List Diagnostic) → List (Path × List Diagnostic) → Prop where
  | nil : Alike [] []
  | cons {p q : Path} {items : List Diagnostic} {fs gs : List (Path × List Diagnostic)} :
      p ≈ q → Alike fs gs → Alike ((p, items) :: fs) ((q, items) :: gs)

theorem same_of_alike {fs gs : List (Path × List Diagnostic)} (h : Alike fs gs) :
    same ⟨fs⟩ ⟨gs⟩ = true := by
  induction h with
  | nil => exact same_nil
  | cons hpq _ ih => rw [same_cons, sameFile_of_equiv hpq, ih, Bool.and_self]

/-- Adding the same diagnostics to one file keeps sets alike. -/
theorem alike_appendTo {fs gs : List (Path × List Diagnostic)} (h : Alike fs gs) {p q : Path}
    (hpq : p ≈ q) (items : List Diagnostic) : Alike (appendTo p items fs) (appendTo q items gs) := by
  induction h with
  | nil => exact .cons hpq .nil
  | @cons f g is fs gs hfg hfs ih =>
    have hiff : f ≈ p ↔ g ≈ q := (Path.equiv_congr_left hfg).trans (Path.equiv_congr_right hpq)
    simp only [appendTo]
    by_cases hf : f ≈ p
    · rw [if_pos hf, if_pos (hiff.mp hf)]
      exact .cons hfg hfs
    · rw [if_neg hf, if_neg (mt hiff.mpr hf)]
      exact .cons hfg ih

/-- **A set under equivalent roots** is the same set up to spelling. -/
theorem same_rebase {root root' : Path} (h : root ≈ root') (s : DiagnosticSet) :
    (s.rebase root).same (s.rebase root') = true := by
  have hfold (files : List (Path × List Diagnostic)) (t u : DiagnosticSet) (htu : Alike t.files u.files) :
      Alike (files.foldl (fun set f => set.append (root.join f.1) f.2) t).files
        (files.foldl (fun set f => set.append (root'.join f.1) f.2) u).files := by
    induction files generalizing t u with
    | nil => exact htu
    | cons f files ih =>
      rw [List.foldl_cons, List.foldl_cons]
      refine ih _ _ ?_
      unfold append
      split
      · exact htu
      · exact alike_appendTo htu (Path.join_congr h f.1) f.2
  exact same_of_alike (hfold s.files empty empty .nil)

end DiagnosticSet
end NoticeServer
