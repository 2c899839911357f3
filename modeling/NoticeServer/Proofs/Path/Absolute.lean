import Mathlib.Data.List.Induction
import NoticeServer.Proofs.Path.Join

/-!
# `NoticeServer.Proofs.Path.Absolute` — absolute paths, seen by their components

A path is absolute if its first component is the root, and no other component is. Each component behind it
is read off a piece of the path and reads back from its own bytes, so an absolute path is known by the
bytes of its components (`Path.equiv_iff_names`). What is joined to an absolute path is absolute
(`Path.isAbsolute_join`).
-/

namespace NoticeServer
namespace Path

variable {p q q' : Path}

/-! ## Components and their bytes -/

/-- A component that is read off a piece has this piece as its bytes, and is not the root. -/
theorem component?_bytes {piece : List UInt8} {c : Component} (h : component? piece = some c) :
    c.bytes = piece ∧ c ≠ .root ∧ piece ≠ [] := by
  unfold component? at h
  split at h
  · exact absurd h nofun
  next hpiece =>
  have hne : piece ≠ [] := fun hnil => hpiece (.inl hnil)
  split at h
  · next hup =>
    obtain rfl := Option.some.inj h
    exact ⟨hup.symm, nofun, hne⟩
  · obtain rfl := Option.some.inj h
    exact ⟨rfl, nofun, hne⟩

/-- A name of a path reads back from its bytes, which are not empty. -/
theorem component?_of_mem_names {c : Component} (h : c ∈ p.names) :
    component? c.bytes = some c ∧ c ≠ .root ∧ c.bytes ≠ [] := by
  obtain ⟨piece, -, hpiece⟩ := List.mem_filterMap.mp h
  obtain ⟨rfl, hroot, hne⟩ := component?_bytes hpiece
  exact ⟨hpiece, hroot, hne⟩

/-- **The names of a path read back from their bytes.** -/
theorem filterMap_bytes_names (p : Path) : (p.names.map Component.bytes).filterMap component? = p.names := by
  have hback : ∀ c ∈ p.names, component? c.bytes = some c := fun c hc => (component?_of_mem_names hc).1
  rw [List.filterMap_map]
  generalize p.names = names at hback
  induction names with
  | nil => rfl
  | cons c names ih =>
    obtain ⟨hc, hnames⟩ := List.forall_mem_cons.mp hback
    rw [List.filterMap_cons, Function.comp_apply, hc, ih hnames]

/-! ## Pieces and the names they give -/

theorem segmentsFrom_of_separator_notMem {bytes : List UInt8} (h : separator ∉ bytes) (piece : List UInt8) :
    segmentsFrom piece bytes = [piece.reverse ++ bytes] := by
  induction bytes generalizing piece with
  | nil => rw [segmentsFrom, List.append_nil]
  | cons b bytes ih =>
    rw [List.mem_cons, not_or] at h
    obtain ⟨hb, hbytes⟩ := h
    rw [segmentsFrom, if_neg (Ne.symm hb), ih hbytes, List.reverse_cons, List.append_assoc,
      List.singleton_append]

/-- **Pieces that stand behind separators of their own** are found again. -/
theorem segments_flatMap {pieces : List (List UInt8)} (h : ∀ piece ∈ pieces, separator ∉ piece) :
    segments (pieces.flatMap (separator :: ·)) = [] :: pieces := by
  induction pieces using List.reverseRecOn with
  | nil => rfl
  | append_singleton pieces piece ih =>
    have hlast : separator ∉ piece := h piece (List.mem_append_right _ List.mem_cons_self)
    have hpieces : ∀ q ∈ pieces, separator ∉ q := fun q hq => h q (List.mem_append_left _ hq)
    rw [List.flatMap_append, List.flatMap_singleton, segments_append_separator, ih hpieces, segments,
      segmentsFrom_of_separator_notMem hlast]
    rfl

/-- No piece has a separator in it. -/
theorem separator_notMem_of_mem_segmentsFrom {piece bytes found : List UInt8} (hpiece : separator ∉ piece)
    (h : found ∈ segmentsFrom piece bytes) : separator ∉ found := by
  induction bytes generalizing piece with
  | nil =>
    rw [List.mem_singleton.mp h, List.mem_reverse]
    exact hpiece
  | cons b bytes ih =>
    unfold segmentsFrom at h
    split at h
    · rcases List.mem_cons.mp h with rfl | h
      · rwa [List.mem_reverse]
      · exact ih List.not_mem_nil h
    · next hb =>
      refine ih ?_ h
      rw [List.mem_cons, not_or]
      exact ⟨Ne.symm hb, hpiece⟩

theorem separator_notMem_of_mem_names {c : Component} (h : c ∈ p.names) : separator ∉ c.bytes := by
  obtain ⟨piece, hpiece, hc⟩ := List.mem_filterMap.mp h
  rw [(component?_bytes hc).1]
  exact separator_notMem_of_mem_segmentsFrom List.not_mem_nil hpiece

/-! ## What it means to be absolute -/

theorem components_of_absolute (h : p.isAbsolute = true) : p.components = .root :: p.names := by
  rw [components_eq, leading, if_pos h, List.singleton_append]

theorem isAbsolute_iff : p.isAbsolute = true ↔ p.components.head? = some .root := by
  constructor
  · intro h
    rw [components_of_absolute h, List.head?_cons]
  · intro h
    apply Decidable.byContradiction
    intro habs
    -- the first component is a leading `.` or a name
    rw [components_eq, leading, if_neg habs] at h
    split at h
    · simp at h
    · rw [List.nil_append] at h
      exact (component?_of_mem_names (List.mem_of_mem_head? h)).2.1 rfl

/-- Equivalent paths are absolute together. -/
theorem isAbsolute_congr (h : p ≈ q) : p.isAbsolute = q.isAbsolute := by
  rw [Bool.eq_iff_iff, isAbsolute_iff, isAbsolute_iff, equiv_iff.mp h]

/-- Absolute paths are equivalent if their names are the same. -/
theorem equiv_iff_names (hp : p.isAbsolute = true) (hq : q.isAbsolute = true) :
    p ≈ q ↔ p.names = q.names := by
  rw [equiv_iff, components_of_absolute hp, components_of_absolute hq]
  exact ⟨fun h => (List.cons.inj h).2, fun h => by rw [h]⟩

/-! ## Joins -/

/-- The names of a path are its components but for the root or `.` at its start. -/
theorem names_eq_filter (p : Path) :
    p.names = p.components.filter fun c => c ≠ .root ∧ c ≠ .here := by
  have hleading : p.leading.filter (fun c => c ≠ .root ∧ c ≠ .here) = [] := by
    unfold leading
    split
    · rfl
    · split <;> rfl
  have hnames : p.names.filter (fun c => c ≠ .root ∧ c ≠ .here) = p.names := by
    refine List.filter_eq_self.mpr fun c hc => ?_
    obtain ⟨hback, hroot, -⟩ := component?_of_mem_names hc
    have hhere : c ≠ .here := by
      rintro rfl
      exact absurd hback nofun
    exact decide_eq_true ⟨hroot, hhere⟩
  rw [components_eq, List.filter_append, hleading, hnames, List.nil_append]

/-- **Joins with equivalent paths are equivalent.** -/
theorem join_congr_right (p : Path) (h : q ≈ q') : p.join q ≈ p.join q' := by
  have hnames : q.names = q'.names := by rw [names_eq_filter, names_eq_filter, equiv_iff.mp h]
  have habs := isAbsolute_congr h
  rw [equiv_iff]
  cases hq : q.isAbsolute with
  | true =>
    rw [join, join, if_pos hq, if_pos (habs ▸ hq)]
    exact h
  | false => rw [components_join hq, components_join (habs ▸ hq), hnames, equiv_iff.mp h]

/-- **Below an absolute path everything is absolute**, whatever it is joined with. -/
theorem isAbsolute_join (hp : p.isAbsolute = true) (q : Path) : (p.join q).isAbsolute = true := by
  obtain ⟨bytes, hbytes⟩ : ∃ bytes, p.bytes = separator :: bytes := by
    have hhead : p.bytes.head? = some separator := of_decide_eq_true hp
    exact List.head?_eq_some_iff.mp hhead
  unfold join
  split
  · next hq => exact hq
  split
  · simp [isAbsolute, hbytes]
  · simp [isAbsolute, hbytes]

end Path
end NoticeServer
