import NoticeServer.Proofs.Orchestrator.Scans
import NoticeServer.Proofs.Path.Additions

/-!
# `NoticeServer.Proofs.Orchestrator.Roots` — several roots removed or added at once

Roots are compared as paths. Of the roots that are given, those that are monitored already do not count,
and of several that are equal only the first does; what is left is appended to the monitored roots in the
order in which it was given, and is just what is scanned while scanning is active
(`Orchestrator.addRoots_roots`). From this and its counterpart for removal the roots behind any operation
follow (`Orchestrator.perform_roots`).
-/

namespace NoticeServer

/-! ## Reactions -/

namespace Reaction

@[simp] theorem scans_append (a b : Reaction) : (a ++ b).scans = a.scans ++ b.scans := rfl

@[simp] theorem publications_append (a b : Reaction) :
    (a ++ b).publications = a.publications ++ b.publications := rfl

@[simp] theorem none_append (a : Reaction) : none ++ a = a := rfl

@[simp] theorem append_none (a : Reaction) : a ++ none = a := by
  show Reaction.mk _ _ = _
  simp [none]

theorem append_assoc (a b c : Reaction) : a ++ b ++ c = a ++ (b ++ c) := by
  show Reaction.mk _ _ = Reaction.mk _ _
  simp

end Reaction

namespace Orchestrator

variable {o : Orchestrator}

/-- The reactions of operations one after the other stand behind those that were there before. -/
theorem foldl_react (operate : Orchestrator → Path → Orchestrator × Reaction) (roots : List Path)
    (o : Orchestrator) (before : Reaction) :
    roots.foldl (fun (o, reaction) root => ((operate o root).1, reaction ++ (operate o root).2))
        (o, before) =
      let result := roots.foldl
        (fun (o, reaction) root => ((operate o root).1, reaction ++ (operate o root).2)) (o, .none)
      (result.1, before ++ result.2) := by
  induction roots generalizing o before with
  | nil => simp
  | cons root roots ih =>
    rw [List.foldl_cons, List.foldl_cons, ih, ih _ (.none ++ _)]
    simp [Reaction.append_assoc]

/-! ## Roots removed -/

theorem removeRoots_cons (o : Orchestrator) (root : Path) (roots : List Path) :
    o.removeRoots (root :: roots) =
      (((o.removeRoot root).1.removeRoots roots).1,
        (o.removeRoot root).2 ++ ((o.removeRoot root).1.removeRoots roots).2) := by
  rw [removeRoots, List.foldl_cons, foldl_react]
  rfl

/-- **Removing roots** keeps the others in their order, and starts no scan. -/
theorem removeRoots_roots (o : Orchestrator) (removed : List Path) :
    (o.removeRoots removed).1.roots = Path.without o.roots removed ∧
      (o.removeRoots removed).2.scans = [] := by
  induction removed generalizing o with
  | nil => exact ⟨(Path.without_nil _).symm, rfl⟩
  | cons root removed ih =>
    obtain ⟨hroots, hscans⟩ := ih (o.removeRoot root).1
    rw [removeRoots_cons, Path.without_cons]
    exact ⟨hroots, by rw [Reaction.scans_append, hscans]; rfl⟩

/-- Removing roots leaves everything but the roots and what is published. -/
theorem removeRoots_frame (o : Orchestrator) (removed : List Path) :
    ∃ roots published, (o.removeRoots removed).1 = { o with roots, published } := by
  induction removed generalizing o with
  | nil => exact ⟨o.roots, o.published, rfl⟩
  | cons root removed ih =>
    obtain ⟨roots, published, h⟩ := ih (o.removeRoot root).1
    rw [removeRoots_cons]
    exact ⟨roots, published, h⟩

/-! ## Roots added -/

theorem addRoots_cons (o : Orchestrator) (root : Path) (roots : List Path) :
    o.addRoots (root :: roots) =
      (((o.addRoot root).1.addRoots roots).1,
        (o.addRoot root).2 ++ ((o.addRoot root).1.addRoots roots).2) := by
  rw [addRoots, List.foldl_cons, foldl_react]
  rfl

theorem addRoot_of_monitored {root : Path} (h : o.monitors root = true) :
    o.addRoot root = (o, .none) := if_pos h

/-- A root that is not monitored is appended to those that are. -/
theorem addRoot_roots {root : Path} (h : o.monitors root = false) :
    (o.addRoot root).1.roots = o.roots ++ [root] := by
  unfold addRoot start
  rw [if_neg (by simp [h])]
  dsimp only
  split <;> rfl

@[simp] theorem addRoot_active (o : Orchestrator) (root : Path) :
    (o.addRoot root).1.active = o.active := by
  obtain ⟨roots, inFlight, h, _⟩ := o.addRoot_frame root
  rw [h]

/-- Adding roots changes nothing but the roots and the number of scans. -/
theorem addRoots_frame (o : Orchestrator) (given : List Path) :
    ∃ roots inFlight, (o.addRoots given).1 = { o with roots, inFlight } := by
  induction given generalizing o with
  | nil => exact ⟨o.roots, o.inFlight, rfl⟩
  | cons root given ih =>
    obtain ⟨roots, inFlight, h, _⟩ := o.addRoot_frame root
    obtain ⟨roots', inFlight', h'⟩ := ih (o.addRoot root).1
    rw [addRoots_cons]
    exact ⟨roots', inFlight', by rw [h', h]⟩

/-- **Adding roots** appends those that count, in their order, and scans just these while scanning is
active. -/
theorem addRoots_roots (o : Orchestrator) (given : List Path) :
    (o.addRoots given).1.roots = o.roots ++ Path.additions o.roots given ∧
      (o.addRoots given).2.scans = if o.active = true then Path.additions o.roots given else [] := by
  induction given generalizing o with
  | nil => simp [addRoots, Reaction.none]
  | cons root given ih =>
    obtain ⟨hroots, hscans⟩ := ih (o.addRoot root).1
    rw [addRoots_cons]
    cases hmon : o.monitors root with
    | true =>
      rw [addRoot_of_monitored hmon] at hroots hscans ⊢
      rw [Path.additions_of_known hmon]
      exact ⟨hroots, hscans⟩
    | false =>
      rw [addRoot_roots hmon] at hroots hscans
      rw [Path.additions_of_unknown hmon, hroots, Reaction.scans_append, hscans, scans_addRoot,
        addRoot_active]
      refine ⟨by simp, ?_⟩
      cases o.active <;> simp [hmon]

/-- The end of a scan leaves the roots. -/
@[simp] theorem apply_roots (o : Orchestrator) (c : Completion) : (o.apply c).1.roots = o.roots := by
  cases h : o.accepted? c with
  | none => rw [apply_of_not_accepted h]
  | some output => rw [apply_of_accepted h]

/-! ## Operations -/

/-- Only adding and removing a root changes the roots. -/
theorem perform_roots (o : Orchestrator) (op : Operation) :
    (o.perform op).1.roots =
      match op with
      | .addRoot root => if o.monitors root = true then o.roots else o.roots ++ [root]
      | .removeRoot root => o.roots.filter fun r => ¬ r ≈ root
      | _ => o.roots := by
  cases op with
  | addRoot root =>
    show (o.addRoot root).1.roots = if o.monitors root = true then o.roots else o.roots ++ [root]
    cases hmon : o.monitors root with
    | true => rw [addRoot_of_monitored hmon]; rfl
    | false => rw [addRoot_roots hmon]; rfl
  | removeRoot root => rfl
  | toggle =>
    show o.toggle.1.roots = o.roots
    cases h : o.active with
    | false => rw [toggle_on h]; rfl
    | true => rw [toggle_off h]
  | documentSaved language =>
    obtain ⟨inFlight, hstate, _⟩ := o.documentSaved_frame language
    show (o.documentSaved language).1.roots = o.roots
    rw [hstate]
  | scanAll => rfl
  | apply c => exact o.apply_roots c

/-- Whether a root is monitored does not depend on how it is written. -/
theorem monitors_congr {root root' : Path} (h : root ≈ root') : o.monitors root = o.monitors root' := by
  unfold monitors
  simp only [Path.equiv_congr_right h]

/-- **Whether a root is monitored** behind an operation. -/
theorem monitors_perform_eq (o : Orchestrator) (op : Operation) (root : Path) :
    (o.perform op).1.monitors root =
      match op with
      | .addRoot r => o.monitors root || decide (r ≈ root)
      | .removeRoot r => o.monitors root && !decide (r ≈ root)
      | _ => o.monitors root := by
  unfold monitors
  rw [perform_roots]
  cases op with
  | addRoot r =>
    dsimp only
    split
    · next hknown =>
      -- a root that is monitored already counts once
      cases hequal : decide (r ≈ root) with
      | false => rw [Bool.or_false]
      | true =>
        have hthere := (monitors_congr (of_decide_eq_true hequal)).symm.trans hknown
        exact hthere.trans (Bool.or_true _).symm
    · rw [List.any_append, List.any_cons, List.any_nil, Bool.or_false]
  | removeRoot r =>
    have hleft : o.roots.filter (fun q => ¬ q ≈ r) = Path.without o.roots [r] := by
      rw [Path.without_cons, Path.without_nil]
    dsimp only
    rw [hleft, Path.any_without, List.any_cons, List.any_nil, Bool.or_false]
  | _ => rfl

/-- A root that is removed is not monitored. -/
theorem monitors_removeRoot (o : Orchestrator) (root : Path) :
    (o.removeRoot root).1.monitors root = false := by
  have hremoved : (o.removeRoot root).1.monitors root = (o.monitors root && !decide (root ≈ root)) :=
    o.monitors_perform_eq (.removeRoot root) root
  rwa [decide_eq_true (Setoid.refl root), Bool.not_true, Bool.and_false] at hremoved

/-- Only adding a root makes it monitored. -/
theorem monitors_perform {root : Path} {op : Operation} (hnot : o.monitors root = false)
    (h : ∀ r, op = .addRoot r → ¬ r ≈ root) : (o.perform op).1.monitors root = false := by
  rw [monitors_perform_eq]
  cases op with
  | addRoot r =>
    dsimp only
    rw [hnot, Bool.false_or]
    exact decide_eq_false (h r rfl)
  | removeRoot r =>
    dsimp only
    rw [hnot, Bool.false_and]
  | _ => exact hnot

end Orchestrator
end NoticeServer
