import NoticeServer.Path

/-!
# `NoticeServer.Proofs.Path.Additions` — lists of paths without repetition

Paths are compared by what they name. A list without repetition (`Path.NoTwoEqual`) grows by those of the
given paths that it does not know yet, each where it is given first (`Path.additions`), and loses those that
are equal to a given one (`Path.without`). Which paths are there afterwards is one boolean equation for each.
-/

namespace NoticeServer
namespace Path

/-- The paths that are left without the ones removed. -/
def without (roots removed : List Path) : List Path := roots.filter fun r => !removed.any (r ≈ ·)

/-- What the given paths add to those known: the ones not known, each where it is given first. -/
def additions (known given : List Path) : List Path :=
  (given.filter fun r => !known.any (· ≈ r)).eraseDupsBy fun r earlier => earlier ≈ r

/-- No two paths of the list are equal. -/
def NoTwoEqual (roots : List Path) : Prop := roots.Pairwise fun p q => ¬ p ≈ q

@[simp] theorem without_nil (roots : List Path) : without roots [] = roots := by
  simp [without]

theorem without_cons (roots : List Path) (r : Path) (removed : List Path) :
    without roots (r :: removed) = without (roots.filter fun root => ¬ root ≈ r) removed := by
  unfold without
  rw [List.filter_filter]
  refine List.filter_congr fun root _ => ?_
  simp [Bool.and_comm]

@[simp] theorem additions_nil (known : List Path) : additions known [] = [] := rfl

/-- Where nothing is known yet, each path is added where it is given first. -/
theorem additions_to_nil (given : List Path) :
    additions [] given = given.eraseDupsBy fun (r earlier : Path) => earlier ≈ r := by
  have hall : given.filter (fun r => !([] : List Path).any (· ≈ r)) = given :=
    List.filter_eq_self.mpr fun _ _ => rfl
  rw [additions, hall]

/-- A path that is known adds nothing. -/
theorem additions_of_known {known : List Path} {r : Path} (h : known.any (· ≈ r) = true)
    (given : List Path) : additions known (r :: given) = additions known given := by
  simp only [additions, List.filter_cons, h]
  rfl

/-- A path that is not known is added, and known from then on. -/
theorem additions_of_unknown {known : List Path} {r : Path} (h : known.any (· ≈ r) = false)
    (given : List Path) : additions known (r :: given) = r :: additions (known ++ [r]) given := by
  simp only [additions, List.filter_cons, h, Bool.not_false, if_true, List.eraseDupsBy_cons,
    List.filter_filter, List.any_append, List.any_cons, List.any_nil, Bool.or_false, Bool.not_or]
  congr 3
  funext root
  simp [Bool.and_comm]

theorem mem_of_mem_additions {known given : List Path} {p : Path} (h : p ∈ additions known given) :
    p ∈ given := by
  induction given generalizing known with
  | nil => exact h
  | cons r given ih =>
    cases hr : known.any (· ≈ r) with
    | true =>
      rw [additions_of_known hr] at h
      exact List.mem_cons_of_mem r (ih h)
    | false =>
      rw [additions_of_unknown hr] at h
      rcases List.mem_cons.mp h with rfl | h
      · exact List.mem_cons_self
      · exact List.mem_cons_of_mem r (ih h)

/-- A path that is added is not known before. -/
theorem unknown_of_mem_additions {known given : List Path} {p : Path} (h : p ∈ additions known given) :
    known.any (· ≈ p) = false := by
  induction given generalizing known with
  | nil => exact absurd h List.not_mem_nil
  | cons r given ih =>
    cases hr : known.any (· ≈ r) with
    | true =>
      rw [additions_of_known hr] at h
      exact ih h
    | false =>
      rw [additions_of_unknown hr] at h
      rcases List.mem_cons.mp h with rfl | h
      · exact hr
      · have hmore := ih h
        rw [List.any_append, Bool.or_eq_false_iff] at hmore
        exact hmore.1

/-- A path is there afterwards if it was known or is given. -/
theorem any_append_additions (known given : List Path) (p : Path) :
    (known ++ additions known given).any (· ≈ p) = (known.any (· ≈ p) || given.any (· ≈ p)) := by
  induction given generalizing known with
  | nil => simp
  | cons r given ih =>
    cases hr : known.any (· ≈ r) with
    | true =>
      rw [additions_of_known hr, ih, List.any_cons]
      by_cases hrp : r ≈ p
      · have hp : known.any (· ≈ p) = true := by
          obtain ⟨q, hq, hqr⟩ := List.any_eq_true.mp hr
          exact List.any_eq_true.mpr ⟨q, hq, decide_eq_true (Setoid.trans (of_decide_eq_true hqr) hrp)⟩
        rw [hp, Bool.true_or, Bool.true_or]
      · rw [decide_eq_false hrp, Bool.false_or]
    | false =>
      rw [additions_of_unknown hr, ← List.singleton_append, ← List.append_assoc, ih, List.any_append,
        List.any_cons, List.any_nil, Bool.or_false, List.any_cons, Bool.or_assoc]

/-- A path is left if it was there and none of the removed ones is equal to it. -/
theorem any_without (roots removed : List Path) (p : Path) :
    (without roots removed).any (· ≈ p) = (roots.any (· ≈ p) && !removed.any (· ≈ p)) := by
  rw [Bool.eq_iff_iff, Bool.and_eq_true, List.any_eq_true, List.any_eq_true, Bool.not_eq_true',
    List.any_eq_false]
  simp only [decide_eq_true_eq]
  constructor
  · rintro ⟨r, hr, hrp⟩
    obtain ⟨hroots, hkept⟩ := List.mem_filter.mp hr
    rw [Bool.not_eq_true', List.any_eq_false] at hkept
    refine ⟨⟨r, hroots, hrp⟩, fun q hq hqp => hkept q hq ?_⟩
    exact decide_eq_true (Setoid.trans hrp (Setoid.symm hqp))
  · rintro ⟨⟨r, hroots, hrp⟩, hnone⟩
    refine ⟨r, List.mem_filter.mpr ⟨hroots, ?_⟩, hrp⟩
    rw [Bool.not_eq_true', List.any_eq_false]
    intro q hq hrq
    exact hnone q hq (Setoid.trans (Setoid.symm (of_decide_eq_true hrq)) hrp)

/-- Repetitions may be left out before a renaming that keeps equal paths equal: what the given paths add
under their new names is then the same. -/
theorem additions_map_additions {f : Path → Path} (hf : ∀ p q, p ≈ q → f p ≈ f q) {known new : List Path}
    (hnew : ∀ p ∈ known, new.any (· ≈ f p) = true) (given : List Path) :
    additions new ((additions known given).map f) = additions new (given.map f) := by
  induction given generalizing known new with
  | nil => rfl
  | cons r given ih =>
    rw [List.map_cons]
    cases hr : known.any (· ≈ r) with
    | true =>
      -- a path that is known has its new name known, too
      obtain ⟨p, hp, hpr⟩ := List.any_eq_true.mp hr
      obtain ⟨q, hq, hqp⟩ := List.any_eq_true.mp (hnew p hp)
      have hqr : q ≈ f r := Setoid.trans (of_decide_eq_true hqp) (hf p r (of_decide_eq_true hpr))
      have hname : new.any (· ≈ f r) = true := List.any_eq_true.mpr ⟨q, hq, decide_eq_true hqr⟩
      rw [additions_of_known hr, additions_of_known hname, ih hnew]
    | false =>
      rw [additions_of_unknown hr, List.map_cons]
      cases hname : new.any (· ≈ f r) with
      | true =>
        rw [additions_of_known hname, additions_of_known hname]
        refine ih fun p hp => ?_
        rcases List.mem_append.mp hp with hp | hp
        · exact hnew p hp
        · rwa [List.mem_singleton.mp hp]
      | false =>
        rw [additions_of_unknown hname, additions_of_unknown hname, ih]
        intro p hp
        rw [List.any_append, Bool.or_eq_true]
        rcases List.mem_append.mp hp with hp | hp
        · exact .inl (hnew p hp)
        · rw [List.mem_singleton.mp hp]
          exact .inr (List.any_eq_true.mpr ⟨f r, List.mem_singleton_self _, decide_eq_true (Setoid.refl (f r))⟩)

/-- What is added is given, is not known, and has no two equal. -/
theorem noTwoEqual_append_additions {known : List Path} (h : NoTwoEqual known) (given : List Path) :
    NoTwoEqual (known ++ additions known given) := by
  induction given generalizing known with
  | nil => simpa using h
  | cons r given ih =>
    cases hr : known.any (· ≈ r) with
    | true =>
      rw [additions_of_known hr]
      exact ih h
    | false =>
      have hmore : NoTwoEqual (known ++ [r]) := by
        refine List.pairwise_append.mpr ⟨h, List.pairwise_singleton _ _, ?_⟩
        intro p hp q hq
        obtain rfl := List.mem_singleton.mp hq
        exact fun hpq => List.any_eq_false.mp hr p hp (decide_eq_true hpq)
      have hrest := ih hmore
      rwa [List.append_assoc, List.singleton_append, ← additions_of_unknown hr] at hrest

theorem noTwoEqual_without {roots : List Path} (h : NoTwoEqual roots) (removed : List Path) :
    NoTwoEqual (without roots removed) := h.filter _

/-- In a list without repetition every path is counted once or not at all. -/
theorem countP_of_noTwoEqual {roots : List Path} (h : NoTwoEqual roots) (p : Path) :
    roots.countP (· ≈ p) = if roots.any (· ≈ p) = true then 1 else 0 := by
  induction roots with
  | nil => rfl
  | cons r roots ih =>
    obtain ⟨hr, hroots⟩ := List.pairwise_cons.mp h
    rw [List.countP_cons, List.any_cons, ih hroots]
    by_cases hrp : r ≈ p
    · -- the path is the first of the list, so it is none of the others
      have hrest : roots.any (· ≈ p) = false := by
        rw [List.any_eq_false]
        intro q hq hqp
        exact hr q hq (Setoid.trans hrp (Setoid.symm (of_decide_eq_true hqp)))
      rw [hrest, decide_eq_true hrp]
      rfl
    · rw [decide_eq_false hrp, Bool.false_or, if_neg Bool.false_ne_true, Nat.add_zero]

end Path
end NoticeServer
