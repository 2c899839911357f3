import NoticeServer.Orchestrator.System
import NoticeServer.Proofs.Publication.Store

/-!
# `NoticeServer.Proofs.Orchestrator.Run` — operations one after the other

An operation takes its completion, if it needs one, from anywhere: what holds of every run of operations
holds in particular where completions come from calls that were started and each is applied once.

## Contents

* `Operation`, `Orchestrator.perform`: what can be asked of an orchestrator.
* `Orchestrator.run`, `Orchestrator.publications`: a list of operations.
* `Orchestrator.perform_change`: every operation makes one of the changes of the store.
* `Orchestrator.perform_config`, `Orchestrator.perform_active`: what is fixed, and what is turned on and off.
* `Orchestrator.get?_perform`: what an operation makes of the set of a root.
* `ScanSystem.run_orchestrator`: the orchestrator of a system undergoes such a run.
-/

namespace NoticeServer

/-- What can be asked of an orchestrator. -/
inductive Operation where
  | addRoot (root : Path)
  | removeRoot (root : Path)
  | toggle
  | documentSaved (language : String)
  | scanAll
  | apply (c : Completion)

namespace Orchestrator

/-- One operation. -/
def perform (o : Orchestrator) : Operation → Orchestrator × Reaction
  | .addRoot root => o.addRoot root
  | .removeRoot root => o.removeRoot root
  | .toggle => o.toggle
  | .documentSaved language => o.documentSaved language
  | .scanAll => o.scanAll
  | .apply c => o.apply c

/-- The state behind operations. -/
def run (o : Orchestrator) (ops : List Operation) : Orchestrator :=
  ops.foldl (fun o op => (o.perform op).1) o

/-- All publications of operations, in order. -/
def publications (o : Orchestrator) : List Operation → List Publication
  | [] => []
  | op :: ops => (o.perform op).2.publications ++ publications (o.perform op).1 ops

@[simp] theorem run_nil (o : Orchestrator) : o.run [] = o := rfl

@[simp] theorem run_cons (o : Orchestrator) (op : Operation) (ops : List Operation) :
    o.run (op :: ops) = (o.perform op).1.run ops := rfl

theorem run_append (o : Orchestrator) (ops ops' : List Operation) :
    o.run (ops ++ ops') = (o.run ops).run ops' := List.foldl_append

/-! ## What the operations do -/

variable {o : Orchestrator}

/-- To monitor a root changes nothing but the roots and the number of scans, and publishes nothing. -/
theorem addRoot_frame (o : Orchestrator) (root : Path) :
    ∃ roots inFlight, (o.addRoot root).1 = { o with roots, inFlight } ∧
      (o.addRoot root).2.publications = [] := by
  unfold addRoot start
  split
  · exact ⟨o.roots, o.inFlight, rfl, rfl⟩
  · dsimp only
    split
    · exact ⟨o.roots ++ [root], o.inFlight + 1, rfl, rfl⟩
    · exact ⟨o.roots ++ [root], o.inFlight, rfl, rfl⟩

/-- A saved document changes nothing but the number of scans, and publishes nothing. -/
theorem documentSaved_frame (o : Orchestrator) (language : String) :
    ∃ inFlight, (o.documentSaved language).1 = { o with inFlight } ∧
      (o.documentSaved language).2.publications = [] := by
  unfold documentSaved scanAll start
  split
  · exact ⟨o.inFlight + o.roots.length, rfl, rfl⟩
  · exact ⟨o.inFlight, rfl, rfl⟩

/-- Removing a root replaces its set by the empty one. -/
theorem removeRoot_published (o : Orchestrator) (root : Path) :
    (o.removeRoot root).1.published = o.published.put root .empty ∧
      (o.removeRoot root).2.publications =
        PublishedStore.transition (o.published.setOf root) .empty := by
  have h := o.published.clearRoot_eq_replace root
  unfold removeRoot
  rw [h]
  exact ⟨rfl, rfl⟩

theorem toggle_on (h : o.active = false) :
    o.toggle = ({ o with active := true }.scanAll) := by
  simp [toggle, h]

theorem toggle_off (h : o.active = true) :
    o.toggle = ({ o with active := false, published := .empty },
      { publications := o.published.clearAll.2 }) := by
  simp [toggle, h, PublishedStore.clearAll_store]

/-- Whether a completion is taken over, and with which output. -/
def accepted? (o : Orchestrator) (c : Completion) : Option (List Char) :=
  match c.outcome with
  | .ok output => if o.active && o.monitors c.root then some output else none
  | .error _ => none

theorem accepted?_eq_some_iff {c : Completion} {output : List Char} :
    o.accepted? c = some output ↔
      c.outcome = .ok output ∧ o.active = true ∧ o.monitors c.root = true := by
  obtain ⟨root, outcome⟩ := c
  cases outcome with
  | error e => simp [accepted?]
  | ok out => simp [accepted?, and_comm]

theorem active_of_accepted {c : Completion} {output : List Char} (h : o.accepted? c = some output) :
    o.active = true := (accepted?_eq_some_iff.mp h).2.1

/-- A completion that is not taken over only ends its scan. -/
theorem apply_of_not_accepted {c : Completion} (h : o.accepted? c = none) :
    o.apply c = ({ o with inFlight := o.inFlight - 1 }, .none) := by
  obtain ⟨root, outcome⟩ := c
  cases outcome with
  | error e => rfl
  | ok output =>
    have hguard : (o.active && o.monitors root) = false := by
      simpa [accepted?] using h
    have hmon : ({ o with inFlight := o.inFlight - 1 } : Orchestrator).monitors root = o.monitors root :=
      rfl
    simp only [apply, hmon, hguard]
    rfl

/-- A completion that is taken over replaces the set of its root. -/
theorem apply_of_accepted {c : Completion} {output : List Char} (h : o.accepted? c = some output) :
    o.apply c =
      ({ o with inFlight := o.inFlight - 1, published := o.published.put c.root (o.scanned c.root output) },
        { publications :=
            PublishedStore.transition (o.published.setOf c.root) (o.scanned c.root output) }) := by
  obtain ⟨root, outcome⟩ := c
  cases outcome with
  | error e => exact absurd h (by simp [accepted?])
  | ok out =>
    obtain ⟨hout, hactive, hmonitors⟩ := accepted?_eq_some_iff.mp h
    obtain rfl : out = output := Except.ok.inj hout
    have hguard : (o.active && o.monitors root) = true := by rw [hactive, hmonitors, Bool.and_self]
    have hmon : ({ o with inFlight := o.inFlight - 1 } : Orchestrator).monitors root = o.monitors root :=
      rfl
    simp only [apply, hmon, hguard]
    rfl

theorem scanned_wellFormed (o : Orchestrator) (root : Path) (output : List Char) :
    (o.scanned root output).WellFormed := DiagnosticSet.wellFormed_rebase _ root

/-- **Every operation makes one of the changes of the store**, with just its publications. -/
theorem perform_change (o : Orchestrator) (op : Operation) :
    PublishedStore.Change o.published (o.perform op).1.published (o.perform op).2.publications := by
  cases op with
  | addRoot root =>
    obtain ⟨roots, inFlight, hstate, hpubs⟩ := o.addRoot_frame root
    show PublishedStore.Change _ (o.addRoot root).1.published (o.addRoot root).2.publications
    rw [hstate, hpubs]
    exact .stay _
  | removeRoot root =>
    obtain ⟨hstore, hpubs⟩ := o.removeRoot_published root
    show PublishedStore.Change _ (o.removeRoot root).1.published (o.removeRoot root).2.publications
    rw [hstore, hpubs]
    exact .replace _ root DiagnosticSet.wellFormed_empty
  | toggle =>
    show PublishedStore.Change _ o.toggle.1.published o.toggle.2.publications
    cases h : o.active with
    | false => rw [toggle_on h]; exact .stay _
    | true => rw [toggle_off h]; exact .clearAll _
  | documentSaved language =>
    obtain ⟨inFlight, hstate, hpubs⟩ := o.documentSaved_frame language
    show PublishedStore.Change _ (o.documentSaved language).1.published
      (o.documentSaved language).2.publications
    rw [hstate, hpubs]
    exact .stay _
  | scanAll => exact .stay _
  | apply c =>
    show PublishedStore.Change _ (o.apply c).1.published (o.apply c).2.publications
    cases h : o.accepted? c with
    | none => rw [apply_of_not_accepted h]; exact .stay _
    | some output =>
      rw [apply_of_accepted h]
      exact .replace _ c.root (o.scanned_wellFormed c.root output)

/-- The configuration never changes. -/
@[simp] theorem perform_config (o : Orchestrator) (op : Operation) : (o.perform op).1.config = o.config := by
  cases op with
  | addRoot root =>
    obtain ⟨roots, inFlight, hstate, _⟩ := o.addRoot_frame root
    show (o.addRoot root).1.config = o.config
    rw [hstate]
  | removeRoot root => rfl
  | toggle =>
    show o.toggle.1.config = o.config
    cases h : o.active with
    | false => rw [toggle_on h]; rfl
    | true => rw [toggle_off h]
  | documentSaved language =>
    obtain ⟨inFlight, hstate, _⟩ := o.documentSaved_frame language
    show (o.documentSaved language).1.config = o.config
    rw [hstate]
  | scanAll => rfl
  | apply c =>
    show (o.apply c).1.config = o.config
    cases h : o.accepted? c with
    | none => rw [apply_of_not_accepted h]
    | some output => rw [apply_of_accepted h]

/-- Only turning scanning on or off changes whether it is active. -/
theorem perform_active (o : Orchestrator) (op : Operation) :
    (o.perform op).1.active =
      match op with
      | .toggle => !o.active
      | _ => o.active := by
  cases op with
  | addRoot root =>
    obtain ⟨roots, inFlight, hstate, _⟩ := o.addRoot_frame root
    show (o.addRoot root).1.active = o.active
    rw [hstate]
  | removeRoot root => rfl
  | toggle =>
    show o.toggle.1.active = !o.active
    cases h : o.active with
    | false => rw [toggle_on h]; rfl
    | true => rw [toggle_off h]; rfl
  | documentSaved language =>
    obtain ⟨inFlight, hstate, _⟩ := o.documentSaved_frame language
    show (o.documentSaved language).1.active = o.active
    rw [hstate]
  | scanAll => rfl
  | apply c =>
    show (o.apply c).1.active = o.active
    cases h : o.accepted? c with
    | none => rw [apply_of_not_accepted h]
    | some output => rw [apply_of_accepted h]

/-- **What an operation makes of the set of a root**: removing the root and turning scanning off take it,
and an output of the root that is taken over replaces it. -/
theorem get?_perform (o : Orchestrator) (op : Operation) (root : Path) :
    (o.perform op).1.published.get? root =
      match op with
      | .removeRoot r => if r ≈ root then none else o.published.get? root
      | .toggle => if o.active = true then none else o.published.get? root
      | .apply c =>
        match o.accepted? c with
        | some output =>
          let set := o.scanned c.root output
          if c.root ≈ root then (if set.isEmpty then none else some set) else o.published.get? root
        | none => o.published.get? root
      | _ => o.published.get? root := by
  cases op with
  | addRoot r =>
    obtain ⟨roots, inFlight, hstate, _⟩ := o.addRoot_frame r
    show (o.addRoot r).1.published.get? root = o.published.get? root
    rw [hstate]
  | removeRoot r =>
    show (o.removeRoot r).1.published.get? root = if r ≈ root then none else o.published.get? root
    rw [(o.removeRoot_published r).1, PublishedStore.get?_put]
    rfl
  | toggle =>
    show o.toggle.1.published.get? root = if o.active = true then none else o.published.get? root
    cases hactive : o.active with
    | true => rw [toggle_off hactive]; rfl
    | false => rw [toggle_on hactive]; rfl
  | documentSaved language =>
    obtain ⟨inFlight, hstate, _⟩ := o.documentSaved_frame language
    show (o.documentSaved language).1.published.get? root = o.published.get? root
    rw [hstate]
  | scanAll => rfl
  | apply c =>
    dsimp only [perform]
    cases hacc : o.accepted? c with
    | none => rw [apply_of_not_accepted hacc]
    | some output =>
      rw [apply_of_accepted hacc]
      exact PublishedStore.get?_put _ _ _ _

/-! ## Runs -/

@[simp] theorem run_config (o : Orchestrator) (ops : List Operation) : (o.run ops).config = o.config := by
  induction ops generalizing o with
  | nil => rfl
  | cons op ops ih => rw [run_cons, ih, perform_config]

/-- While scanning is inactive nothing is published. -/
def InactiveEmpty (o : Orchestrator) : Prop := o.active = false → o.published = .empty

theorem inactiveEmpty_perform (h : o.InactiveEmpty) (op : Operation) :
    (o.perform op).1.InactiveEmpty := by
  cases op with
  | addRoot root =>
    obtain ⟨roots, inFlight, hstate, _⟩ := o.addRoot_frame root
    show (o.addRoot root).1.InactiveEmpty
    rw [hstate]
    exact h
  | removeRoot root =>
    intro hactive
    show o.published.erase root = .empty
    rw [h hactive]
    rfl
  | toggle =>
    show o.toggle.1.InactiveEmpty
    cases hactive : o.active with
    | false => rw [toggle_on hactive]; exact fun hoff => absurd hoff (by simp [scanAll, start])
    | true => rw [toggle_off hactive]; exact fun _ => rfl
  | documentSaved language =>
    obtain ⟨inFlight, hstate, _⟩ := o.documentSaved_frame language
    show (o.documentSaved language).1.InactiveEmpty
    rw [hstate]
    exact h
  | scanAll => exact h
  | apply c =>
    show (o.apply c).1.InactiveEmpty
    cases hacc : o.accepted? c with
    | none => rw [apply_of_not_accepted hacc]; exact h
    | some output =>
      have hactive : o.active = true := active_of_accepted hacc
      rw [apply_of_accepted hacc]
      exact fun hoff => absurd hactive (by simpa using hoff)

theorem inactiveEmpty_run (h : o.InactiveEmpty) (ops : List Operation) : (o.run ops).InactiveEmpty := by
  induction ops generalizing o with
  | nil => exact h
  | cons op ops ih => exact ih (inactiveEmpty_perform h op)

theorem inactiveEmpty_fresh (config : ScanConfig) : (fresh config).InactiveEmpty := fun _ => rfl

end Orchestrator

/-! ## Runs of a system -/

namespace ScanSystem

/-- The operation that a step performs; finishing and receiving perform none. -/
def operation? (s : ScanSystem) : Step → Option Operation
  | .addRoot root => some (.addRoot root)
  | .removeRoot root => some (.removeRoot root)
  | .toggle => some .toggle
  | .documentSaved language => some (.documentSaved language)
  | .scanAll => some .scanAll
  | .finish .. => none
  | .receive => none
  | .apply number => (s.received[number]?.join).map .apply

/-- The operations of a list of steps. -/
def operations (s : ScanSystem) : List Step → List Operation
  | [] => []
  | step :: steps => (s.operation? step).toList ++ operations (s.step step).1 steps

theorem step_orchestrator (s : ScanSystem) (step : Step) :
    (s.step step).1.orchestrator = s.orchestrator.run (s.operation? step).toList := by
  cases step with
  | addRoot root => rfl
  | removeRoot root => rfl
  | toggle => rfl
  | documentSaved language => rfl
  | scanAll => rfl
  | finish number outcome =>
    simp only [ScanSystem.step]
    split <;> rfl
  | receive =>
    simp only [ScanSystem.step]
    split <;> rfl
  | apply number =>
    simp only [ScanSystem.step, operation?]
    split
    · next c hc => rw [hc]; rfl
    · next hnone =>
      -- a call that has not come in, or was applied before: nothing happens
      have hjoin : s.received[number]?.join = none := by
        cases h : s.received[number]? with
        | none => rfl
        | some c? =>
          cases c? with
          | none => rfl
          | some c => exact absurd h (hnone c)
      rw [hjoin]
      rfl

/-- **The orchestrator of a system undergoes a run of operations.** -/
theorem run_orchestrator (s : ScanSystem) (steps : List Step) :
    (s.run steps).orchestrator = s.orchestrator.run (s.operations steps) := by
  induction steps generalizing s with
  | nil => rfl
  | cons step steps ih =>
    show ((s.step step).1.run steps).orchestrator = _
    rw [ih, operations, Orchestrator.run_append, step_orchestrator]

end ScanSystem
end NoticeServer
