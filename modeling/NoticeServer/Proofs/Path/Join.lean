import NoticeServer.Path

/-!
# `NoticeServer.Proofs.Path.Join` — joining paths, seen by their components

Joining is defined on bytes, equivalence on components. A relative path that is put behind another adds
its names to the components of that path (`Path.components_join`), so what a join names depends only on what
its first path names (`Path.join_congr`).
-/

namespace NoticeServer
namespace Path

/-! ## Pieces -/

/-- A separator cuts a byte string into two with pieces of their own. -/
theorem segmentsFrom_append_separator (piece xs ys : List UInt8) :
    segmentsFrom piece (xs ++ separator :: ys) = segmentsFrom piece xs ++ segments ys := by
  induction xs generalizing piece with
  | nil => simp [segmentsFrom, segments]
  | cons b xs ih =>
    simp only [List.cons_append, segmentsFrom]
    by_cases hb : b = separator
    · rw [if_pos hb, if_pos hb, ih, List.cons_append]
    · rw [if_neg hb, if_neg hb, ih]

theorem segments_append_separator (xs ys : List UInt8) :
    segments (xs ++ separator :: ys) = segments xs ++ segments ys :=
  segmentsFrom_append_separator [] xs ys

/-- The first piece begins with what was collected before. -/
theorem head_segmentsFrom (piece bytes : List UInt8) :
    ∃ tail, (segmentsFrom piece bytes).head? = some (piece.reverse ++ tail) := by
  induction bytes generalizing piece with
  | nil => exact ⟨[], by simp [segmentsFrom]⟩
  | cons b bytes ih =>
    unfold segmentsFrom
    split
    · exact ⟨[], by simp⟩
    · obtain ⟨tail, htail⟩ := ih (b :: piece)
      exact ⟨b :: tail, by simp [htail]⟩

/-! ## Components -/

/-- The components that a path adds behind another one. -/
def names (p : Path) : List Component := (segments p.bytes).filterMap component?

theorem components_eq (p : Path) : p.components = p.leading ++ p.names := rfl

/-- Only the empty path names nothing. -/
theorem bytes_eq_nil_of_components {p : Path} (h : p.components = []) : p.bytes = [] := by
  rw [components_eq, List.append_eq_nil_iff] at h
  obtain ⟨hlead, hnames⟩ := h
  cases hp : p.bytes with
  | nil => rfl
  | cons b bytes =>
    -- the first byte is a separator, or it begins a first piece that is `.` or a component
    unfold leading at hlead
    have hrel : ¬ p.isAbsolute = true := by
      intro habs
      rw [if_pos habs] at hlead
      exact absurd hlead (by simp)
    have hb : b ≠ separator := by
      intro hb
      exact hrel (by simp [isAbsolute, hp, hb])
    rw [if_neg hrel] at hlead
    obtain ⟨tail, htail⟩ := head_segmentsFrom [b] bytes
    have hseg : segments p.bytes = segmentsFrom [b] bytes := by
      rw [hp, segments, segmentsFrom, if_neg hb]
    have hdot : b :: tail ≠ [0x2E] := by
      intro hdot
      rw [hseg, htail, if_pos (by simpa using hdot)] at hlead
      exact absurd hlead (by simp)
    have hnone : component? (b :: tail) = none := by
      refine List.filterMap_eq_nil_iff.mp hnames (b :: tail) ?_
      rw [hseg]
      exact List.mem_of_mem_head? (by simp [htail])
    unfold component? at hnone
    rw [if_neg (by simp [hdot])] at hnone
    split at hnone <;> exact absurd hnone (by simp)

theorem components_eq_nil_iff {p : Path} : p.components = [] ↔ p.bytes = [] := by
  constructor
  · exact bytes_eq_nil_of_components
  · intro h
    simp [components, leading, isAbsolute, h, segments, segmentsFrom, component?]

/-- Bytes behind a separator keep the leading component and add their names. -/
theorem components_append_separator {xs : List UInt8} (hxs : xs ≠ []) (ys : List UInt8) :
    components ⟨xs ++ separator :: ys⟩ = components ⟨xs⟩ ++ names ⟨ys⟩ := by
  have habs : isAbsolute ⟨xs ++ separator :: ys⟩ = isAbsolute ⟨xs⟩ := by
    obtain ⟨b, bytes, rfl⟩ := List.exists_cons_of_ne_nil hxs
    rfl
  have hhead : (segments (xs ++ separator :: ys)).head? = (segments xs).head? := by
    obtain ⟨tail, htail⟩ := head_segmentsFrom [] xs
    rw [segments_append_separator, List.head?_append, segments, htail, Option.some_or]
  simp only [components, leading, habs, hhead, names]
  rw [segments_append_separator, List.filterMap_append, List.append_assoc]

/-- A separator at the end adds nothing. -/
theorem components_separator_end {xs : List UInt8} (hxs : xs ≠ []) :
    components ⟨xs ++ [separator]⟩ = components ⟨xs⟩ := by
  rw [components_append_separator hxs]
  simp [names, segments, segmentsFrom, component?]

/-! ## Joining -/

/-- **The components of a join.** A relative path behind a path that names something adds its names. -/
theorem components_join {q : Path} (hq : q.isAbsolute = false) (p : Path) :
    (p.join q).components = if p.components = [] then q.components else p.components ++ q.names := by
  by_cases hp : p.components = []
  · rw [if_pos hp, join, if_neg (by simp [hq]), if_pos (Or.inl (components_eq_nil_iff.mp hp)),
      components_eq_nil_iff.mp hp, List.nil_append]
  · have hbytes : p.bytes ≠ [] := fun h => hp (components_eq_nil_iff.mpr h)
    rw [if_neg hp, join, if_neg (by simp [hq])]
    by_cases hlast : p.bytes.getLast? = some separator
    · -- the separator is there already
      obtain ⟨xs, hxs⟩ : ∃ xs, p.bytes = xs ++ [separator] := by
        obtain ⟨xs, hxs⟩ := List.getLast?_eq_some_iff.mp hlast
        exact ⟨xs, hxs⟩
      have hjoin : p.bytes ++ q.bytes = xs ++ separator :: q.bytes := by simp [hxs]
      rw [if_pos (Or.inr hlast), hjoin]
      by_cases hnil : xs = []
      · have hp' : p = ⟨[separator]⟩ := by cases p; simp_all
        subst hp' hnil
        simp [components, leading, isAbsolute, names, segments, segmentsFrom, component?]
      · have hp' : p = ⟨xs ++ [separator]⟩ := by cases p; simp_all
        rw [components_append_separator hnil, hp', components_separator_end hnil]
    · rw [if_neg (by simp [hbytes, hlast]), components_append_separator hbytes]

/-- **Joins of equivalent paths are equivalent.** -/
theorem join_congr {p p' : Path} (h : p ≈ p') (q : Path) : p.join q ≈ p'.join q := by
  rw [equiv_iff] at h ⊢
  cases hq : q.isAbsolute with
  | true => simp [join, hq]
  | false => rw [components_join hq, components_join hq, h]

end Path
end NoticeServer
