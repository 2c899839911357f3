import Mathlib.Data.List.Lex
import Mathlib.Data.List.Sort
import NoticeServer.Proofs.Path.Lookup

/-!
# `NoticeServer.Proofs.Path.Order` — the order of paths

Paths are ordered by their components, not by their text: `/a/b` comes before `/a-b`. Of two paths one is
before the other unless they name the same (`Path.equiv_of_not_lt`). So entries at paths that all name something
different have only one ascending order, in whatever order they are given (`Path.eq_of_ascending`).
-/

namespace NoticeServer

/-! ## Components -/

/-- The order of components: the root, a leading `.`, `..`, and then names by their bytes. -/
inductive Component.Before : Component → Component → Prop where
  | root_here : Before .root .here
  | root_up : Before .root .up
  | root_name {bytes : List UInt8} : Before .root (.name bytes)
  | here_up : Before .here .up
  | here_name {bytes : List UInt8} : Before .here (.name bytes)
  | up_name {bytes : List UInt8} : Before .up (.name bytes)
  | name {bytes bytes' : List UInt8} (h : bytes < bytes') : Before (.name bytes) (.name bytes')

/-- Lists are ordered like their images under an injective function. -/
theorem lex_map_iff {α β : Type} {f : α → β} (hf : Function.Injective f) {r : β → β → Prop} {as bs : List α} :
    List.Lex r (as.map f) (bs.map f) ↔ List.Lex (fun a b => r (f a) (f b)) as bs := by
  constructor
  · intro h
    induction as generalizing bs with
    | nil =>
      cases bs with
      | nil => cases h
      | cons b bs => exact .nil
    | cons a as ih =>
      cases bs with
      | nil => cases h
      | cons b bs =>
        rcases List.cons_lex_cons_iff.mp h with hab | ⟨hab, hrest⟩
        · exact .rel hab
        · obtain rfl := hf hab
          exact .cons (ih hrest)
  · intro h
    induction h with
    | nil => exact .nil
    | rel hab => exact .rel hab
    | cons _ ih => exact .cons ih

namespace Component

instance : LT Component := ⟨Before⟩

instance : Std.Asymm (α := Component) (· < ·) where
  asymm c d h h' := by
    cases h with
    | name h =>
      cases h' with
      | name h' => exact List.lt_asymm h h'
    | _ => cases h'

instance : Trans (α := Component) (· < ·) (· < ·) (· < ·) where
  trans {c d e} h h' := by
    cases h with
    | name h =>
      cases h' with
      | name h' => exact .name (List.lt_trans h h')
    | _ => cases h' <;> constructor

instance : Std.Trichotomous (α := Component) (· < ·) where
  trichotomous c d h h' := by
    cases c <;> cases d
    case name.name bytes bytes' =>
      have heq : bytes = bytes' :=
        Std.Trichotomous.trichotomous bytes bytes' (fun hlt => h (.name hlt)) (fun hlt => h' (.name hlt))
      rw [heq]
    all_goals first | rfl | exact absurd (by constructor) h | exact absurd (by constructor) h'

theorem sortKey_injective : Function.Injective sortKey := by
  have hbytes : Function.Injective (List.map UInt8.toNat) :=
    List.map_injective_iff.mpr fun _ _ => UInt8.toNat_inj.mp
  intro c d h
  cases c <;> cases d <;> simp [sortKey] at h ⊢
  exact hbytes h

/-- **The numbers of components tell their order.** -/
theorem lex_sortKey_iff {c d : Component} : List.Lex (· < ·) c.sortKey d.sortKey ↔ c < d := by
  have hlex {c d : Component} (h : c < d) : List.Lex (· < ·) c.sortKey d.sortKey := by
    cases h with
    | name h => exact .cons ((lex_map_iff fun _ _ => UInt8.toNat_inj.mp).mpr h)
    | _ => exact .rel (by decide)
  refine ⟨fun h => Classical.byContradiction fun hnot => ?_, hlex⟩
  -- otherwise the components are equal, or the other way round
  have hflip : ¬ d < c := fun hdc => List.lt_asymm h (hlex hdc)
  obtain rfl := Std.Trichotomous.trichotomous c d hnot hflip
  exact List.lt_irrefl c.sortKey h

end Component

/-! ## Paths -/

namespace Path

variable {p p' q q' r : Path}

/-- Paths are ordered by their components. -/
instance : LT Path := ⟨fun p q => p.components < q.components⟩

theorem lt_iff : p < q ↔ List.Lex Component.Before p.components q.components := Iff.rfl

/-- **The test for the order of paths.** -/
theorem precedes_iff : p.precedes q = true ↔ ¬ q < p := by
  have hkey : (fun c d : Component => List.Lex (· < ·) c.sortKey d.sortKey) = Component.Before := by
    funext c d
    exact propext Component.lex_sortKey_iff
  unfold precedes sortKey
  rw [Bool.not_eq_true', Bool.eq_false_iff, Ne, List.lex_eq_true_iff_lex]
  simp only [List.lex_eq_true_iff_lex, decide_eq_true_eq]
  rw [lex_map_iff Component.sortKey_injective, hkey, lt_iff]

instance (p q : Path) : Decidable (p < q) :=
  decidable_of_iff (q.precedes p = false) (by rw [Bool.eq_false_iff, Ne, precedes_iff, Classical.not_not])

/-- The byte `-` is less than a separator, but no component is. -/
example : ofString "/a/b" < ofString "/a-b" := by decide +kernel

theorem lt_asymm (h : p < q) : ¬ q < p := List.lt_asymm (α := Component) h

theorem lt_trans (h : p < q) (h' : q < r) : p < r := List.lt_trans (α := Component) h h'

/-- Of two paths that name different files one comes first. -/
theorem equiv_of_not_lt (h : ¬ p < q) (h' : ¬ q < p) : p ≈ q :=
  (List.Lex.trichotomous (α := Component) (· < ·)).trichotomous _ _ h h'

theorem lt_or_equiv_iff : p < q ∨ p ≈ q ↔ ¬ q < p := by
  constructor
  · rintro (h | h)
    · exact lt_asymm h
    · intro hlt
      have hself : q < q := by
        rwa [lt_iff, equiv_iff.mp h, ← lt_iff] at hlt
      exact lt_asymm hself hself
  · intro h
    by_cases hlt : p < q
    · exact .inl hlt
    · exact .inr (equiv_of_not_lt hlt h)

/-! ## Ascending lists -/

variable {α : Type} (key : α → Path)

/-- **Sorted entries ascend.** -/
theorem ascending_mergeSort (l : List α) :
    (l.mergeSort fun a b => (key a).precedes (key b)).Pairwise fun a b => key a < key b ∨ key a ≈ key b := by
  have htrans (a b c : α) (hab : (key a).precedes (key b) = true) (hbc : (key b).precedes (key c) = true) :
      (key a).precedes (key c) = true := by
    rw [precedes_iff, ← lt_or_equiv_iff] at *
    rcases hab with hab | hab
    · rcases hbc with hbc | hbc
      · exact .inl (lt_trans hab hbc)
      · rw [lt_iff, equiv_iff.mp hbc, ← lt_iff] at hab
        exact .inl hab
    · rw [lt_iff, equiv_iff, ← equiv_iff.mp hab] at hbc
      exact hbc
  have htotal (a b : α) : ((key a).precedes (key b) || (key b).precedes (key a)) = true := by
    rw [Bool.or_eq_true, precedes_iff, precedes_iff]
    by_cases h : key b < key a
    · exact .inr (lt_asymm h)
    · exact .inl h
  refine (List.pairwise_mergeSort htrans htotal l).imp fun h => ?_
  exact lt_or_equiv_iff.mpr (precedes_iff.mp h)

/-- Sorted entries at different paths ascend strictly. -/
theorem strictly_ascending_mergeSort {l : List α} (h : l.Pairwise fun a b => ¬ key a ≈ key b) :
    (l.mergeSort fun a b => (key a).precedes (key b)).Pairwise fun a b => key a < key b := by
  have hdistinct := h.perm (List.mergeSort_perm l fun a b => (key a).precedes (key b)).symm
    fun hab hba => hab (Setoid.symm hba)
  exact (ascending_mergeSort key l).imp₂ (fun _ _ h hne => h.resolve_right hne) hdistinct

/-- **There is only one strictly ascending order** of the same entries. -/
theorem eq_of_ascending {l l' : List α} (hl : l.Pairwise fun a b => key a < key b)
    (hl' : l'.Pairwise fun a b => key a < key b) (h : l.Perm l') : l = l' :=
  h.eq_of_pairwise (fun _ _ _ _ hab hba => absurd hba (lt_asymm hab)) hl hl'

end Path
end NoticeServer
