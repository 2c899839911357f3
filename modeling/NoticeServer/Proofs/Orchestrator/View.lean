import NoticeServer.Proofs.Orchestrator.Run
import NoticeServer.Proofs.Publication.Editor

/-!
# `NoticeServer.Proofs.Orchestrator.View` — the editor follows the store

An editor that takes in every publication of a run is tied to the published sets step by step: by
`Editor.NoGhosts` in every run, and by `Editor.ShowsAll` as long as no two roots publish one file. Its state
after a run is `Orchestrator.editor_follows_store`.
-/

namespace NoticeServer
namespace Orchestrator

variable {o : Orchestrator} {e : Editor}

theorem noGhosts_run (ops : List Operation) (h : e.NoGhosts o.published) :
    (e.receiveAll (o.publications ops)).NoGhosts (o.run ops).published := by
  -- the editor and the store move together, so the induction is over both
  induction ops generalizing o e with
  | nil => exact h
  | cons op ops ih =>
    rw [publications, Editor.receiveAll_append, run_cons]
    exact ih (Editor.noGhosts_of_change (o.perform_change op) h)

theorem showsAll_run (ops : List Operation)
    (hd : ∀ before, before <+: ops → (o.run before).published.Disjoint) (h : e.ShowsAll o.published) :
    (e.receiveAll (o.publications ops)).ShowsAll (o.run ops).published := by
  induction ops generalizing o e with
  | nil => exact h
  | cons op ops ih =>
    -- the states around the first operation are prefixes of the run, as are those of the rest
    have hhere : o.published.Disjoint := hd [] List.nil_prefix
    have hnext : (o.perform op).1.published.Disjoint := hd [op] ⟨ops, rfl⟩
    have hrest : ∀ before, before <+: ops → ((o.perform op).1.run before).published.Disjoint := by
      intro before hbefore
      exact hd (op :: before) ((List.prefix_cons_inj op).mpr hbefore)
    rw [publications, Editor.receiveAll_append, run_cons]
    exact ih hrest (Editor.showsAll_of_change (o.perform_change op) hhere hnext h)

/-- **The editor follows the store.** After any operations from the beginning, what the editor shows for
a file is just what some root publishes for it, and nothing is shown while scanning is inactive. If at no
time two roots published one file, everything that a root publishes is shown. -/
theorem editor_follows_store (config : ScanConfig) (ops : List Operation) :
    let o := (fresh config).run ops
    let editor := Editor.blank.receiveAll ((fresh config).publications ops)
    (∀ p items, editor.shown p = some items →
      ∃ root set, o.published.get? root = some set ∧ set.get? p = some items) ∧
    (o.active = false → ∀ p, editor.shown p = none) ∧
    ((∀ before, before <+: ops → ((fresh config).run before).published.Disjoint) →
      ∀ root set p items, o.published.get? root = some set → set.get? p = some items →
        editor.shown p = some items) := by
  intro o editor
  have hghosts : editor.NoGhosts o.published := noGhosts_run ops (Editor.noGhosts_blank _)
  refine ⟨hghosts, ?_, ?_⟩
  · intro hoff p
    have hempty : o.published = .empty := inactiveEmpty_run (inactiveEmpty_fresh config) ops hoff
    cases hp : editor.shown p with
    | none => rfl
    | some items =>
      obtain ⟨root, set, hroot, _⟩ := hghosts p items hp
      rw [hempty] at hroot
      exact absurd hroot (by simp)
  · intro hd
    exact showsAll_run ops hd (Editor.showsAll_empty _)

end Orchestrator
end NoticeServer
