import NoticeServer.Proofs.Orchestrator.Run
import NoticeServer.Proofs.Publication.Editor

/-!
# `NoticeServer.Proofs.Orchestrator.Isolation` — what one root does to the files of another

The sets of different roots never mix. The editor knows files only, so an operation on one root is for a
file of another root where both report this very file, as nested roots can (`Orchestrator.nested_roots_share`),
and nowhere else (`Orchestrator.isolated_unless_shared`).
-/

namespace NoticeServer

instance (publications : List Publication) (p : Path) : Decidable (Touches publications p) :=
  inferInstanceAs (Decidable (∃ pub ∈ publications, pub.path ≈ p))

namespace Orchestrator

variable {o : Orchestrator} {root p : Path} {c : Completion}

/-! ## Files -/

/-- Removing a root is for the files that it published. -/
theorem touches_removeRoot :
    Touches (o.removeRoot root).2.publications p ↔ (o.published.setOf root).contains p = true := by
  rw [(o.removeRoot_published root).2, PublishedStore.touches_transition]
  simp

/-- A completion that is taken over is for the files that its root published or publishes now; any other
is for none. -/
theorem touches_apply :
    Touches (o.apply c).2.publications p ↔
      ∃ output, o.accepted? c = some output ∧
        ((o.published.setOf c.root).contains p = true ∨ (o.scanned c.root output).contains p = true) := by
  cases hacc : o.accepted? c with
  | none =>
    rw [apply_of_not_accepted hacc]
    constructor
    · intro h
      exact absurd h (touches_nil p)
    · rintro ⟨output, h, _⟩
      exact absurd h (by simp)
  | some output =>
    rw [apply_of_accepted hacc]
    show Touches (PublishedStore.transition _ _) p ↔ _
    rw [PublishedStore.touches_transition]
    constructor
    · intro h
      exact ⟨output, rfl, h⟩
    · rintro ⟨output', h', h⟩
      obtain rfl := Option.some.inj h'
      exact h

/-! ## Sets -/

theorem get?_removeRoot_of_ne {other : Path} (h : ¬ root ≈ other) :
    (o.removeRoot root).1.published.get? other = o.published.get? other :=
  (o.get?_perform (.removeRoot root) other).trans (if_neg h)

theorem get?_apply_of_ne {other : Path} (h : ¬ c.root ≈ other) :
    (o.apply c).1.published.get? other = o.published.get? other := by
  refine (o.get?_perform (.apply c) other).trans ?_
  dsimp only
  split
  · exact if_neg h
  · rfl

/-! ## Isolation -/

/-- **Roots are isolated but for the files they share.** Removing a root is for no file but those that
this root published. Applying a completion is for no file but those that its root published or, if the
completion succeeded while scanning is active and the root monitored, publishes now. What an editor shows
for any other file stays, and so does the set of every other root. -/
theorem isolated_unless_shared (o : Orchestrator) :
    (∀ root p, Touches (o.removeRoot root).2.publications p →
      (o.published.setOf root).contains p = true) ∧
    (∀ c p, Touches (o.apply c).2.publications p →
      ∃ output, c.outcome = .ok output ∧ o.active = true ∧ o.monitors c.root = true ∧
        ((o.published.setOf c.root).contains p = true ∨
          ((collect output o.config.strictSpans).rebase c.root).contains p = true)) ∧
    (∀ (e : Editor) op p, ¬ Touches (o.perform op).2.publications p →
      (e.receiveAll (o.perform op).2.publications).shown p = e.shown p) ∧
    (∀ root other, ¬ root ≈ other →
      (o.removeRoot root).1.published.get? other = o.published.get? other) ∧
    (∀ c other, ¬ c.root ≈ other → (o.apply c).1.published.get? other = o.published.get? other) := by
  refine ⟨fun root p h => touches_removeRoot.mp h, ?_, fun e op p h => Editor.shown_of_untouched h,
    fun root other h => get?_removeRoot_of_ne h, fun c other h => get?_apply_of_ne h⟩
  intro c p h
  obtain ⟨output, hacc, hp⟩ := touches_apply.mp h
  obtain ⟨hout, hactive, hmonitors⟩ := accepted?_eq_some_iff.mp hacc
  exact ⟨output, hout, hactive, hmonitors, hp⟩

/-! ## A shared file -/

/-- The outer of two nested roots. -/
def outerRoot : Path := .ofString "/repo"

/-- The inner of two nested roots. -/
def innerRoot : Path := .ofString "/repo/sub"

/-- A scan of the outer root that reports a file below the inner one. -/
def outerScan : Completion :=
  ⟨outerRoot, .ok "::notice file=sub/a.go,line=1,col=1,endLine=1,endColumn=1::outer".toList⟩

/-- Both roots are monitored, scanning is turned on, and the inner root has reported the file. -/
def nestedSteps : List Step :=
  [.addRoot outerRoot, .addRoot innerRoot, .toggle,
    .finish 1 (.ok "::notice file=a.go,line=1,col=1,endLine=1,endColumn=1::inner".toList), .receive,
    .apply 0]

/-- **Nested roots share files.** The inner root publishes the file; the scan of the outer root replaces
it in the editor, and removing the outer root then erases it there, though the inner root still
publishes it. -/
theorem nested_roots_share :
    let file : Path := .ofString "/repo/sub/a.go"
    let before := ((ScanSystem.fresh {}).run nestedSteps).orchestrator
    let between := (before.apply outerScan).1
    ¬ outerRoot ≈ innerRoot ∧
      (before.published.setOf innerRoot).contains file = true ∧
      Touches (before.apply outerScan).2.publications file ∧
      (between.published.setOf innerRoot).contains file = true ∧
      Touches (between.removeRoot outerRoot).2.publications file := by
  decide +kernel

end Orchestrator
end NoticeServer
