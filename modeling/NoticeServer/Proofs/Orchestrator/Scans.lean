import NoticeServer.Proofs.Orchestrator.Run

/-!
# `NoticeServer.Proofs.Orchestrator.Scans` — which scans an operation starts

One equation for each operation says for which roots it starts scans; the number of outstanding scans
grows by just these (`Orchestrator.inFlight_perform`), and shrinks by one where a scan ends
(`Orchestrator.inFlight_apply`).
-/

namespace NoticeServer
namespace Orchestrator

variable {o : Orchestrator}

/-! ## The scans of each operation -/

/-- Only a root that is new is scanned, and only while scanning is active. -/
theorem scans_addRoot (o : Orchestrator) (root : Path) :
    (o.addRoot root).2.scans = if o.active = true ∧ o.monitors root = false then [root] else [] := by
  unfold addRoot start
  cases hmon : o.monitors root with
  | true => simp [Reaction.none]
  | false => cases hactive : o.active <;> simp [Reaction.none]

@[simp] theorem scans_removeRoot (o : Orchestrator) (root : Path) :
    (o.removeRoot root).2.scans = [] := rfl

/-- Turning scanning on scans every root, turning it off scans none. -/
theorem scans_toggle (o : Orchestrator) :
    o.toggle.2.scans = if o.active = true then [] else o.roots := by
  cases hactive : o.active with
  | true => rw [toggle_off hactive]; rfl
  | false => rw [toggle_on hactive]; rfl

theorem scans_documentSaved (o : Orchestrator) (language : String) :
    (o.documentSaved language).2.scans =
      if o.active = true ∧ o.config.watches language = true then o.roots else [] := by
  unfold documentSaved scanAll start
  cases hactive : o.active <;> cases hwatch : o.config.watches language <;> simp [Reaction.none]

@[simp] theorem scans_scanAll (o : Orchestrator) : o.scanAll.2.scans = o.roots := rfl

/-- The end of a scan starts none. -/
@[simp] theorem scans_apply (o : Orchestrator) (c : Completion) : (o.apply c).2.scans = [] := by
  cases h : o.accepted? c with
  | none => rw [apply_of_not_accepted h]; rfl
  | some output => rw [apply_of_accepted h]

/-! ## The number of outstanding scans -/

/-- The end of a scan takes one off the number. -/
theorem inFlight_apply (o : Orchestrator) (c : Completion) :
    (o.apply c).1.inFlight = o.inFlight - 1 := by
  cases h : o.accepted? c with
  | none => rw [apply_of_not_accepted h]
  | some output => rw [apply_of_accepted h]

/-- Every other operation adds the scans that it starts. -/
theorem inFlight_perform (op : Operation) (h : ∀ c, op ≠ .apply c) :
    (o.perform op).1.inFlight = o.inFlight + (o.perform op).2.scans.length := by
  cases op with
  | addRoot root =>
    simp only [perform, addRoot, start]
    split
    · rfl
    · split <;> rfl
  | removeRoot root => rfl
  | toggle =>
    show o.toggle.1.inFlight = o.inFlight + o.toggle.2.scans.length
    cases hactive : o.active with
    | true => rw [toggle_off hactive]; rfl
    | false => rw [toggle_on hactive]; rfl
  | documentSaved language =>
    simp only [perform, documentSaved, scanAll, start]
    split <;> rfl
  | scanAll => rfl
  | apply c => exact absurd rfl (h c)

end Orchestrator
end NoticeServer
