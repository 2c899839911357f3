import NoticeServer.Proofs.Orchestrator.Ledger
import NoticeServer.Proofs.Orchestrator.Roots

/-!
# `NoticeServer.Proofs.Orchestrator.Late` — completions that come in late

A call that was started goes on, whatever happens to its root and to scanning meanwhile. What its
completion does is decided when it is applied, by whether scanning is active and the root is monitored
then; when the call was started does not count.

As long as its root stays withdrawn, a completion is `ScanSystem.Quiet`: it changes nothing that is published
(`ScanSystem.quiet_while_withdrawn`). But once scanning is active and the root monitored again, calls of an
earlier time publish like all others (`ScanSystem.earlier_calls_publish`).
-/

namespace NoticeServer
namespace ScanSystem

variable {s : ScanSystem} {root : Path} {number : Nat}

/-! ## What stays withdrawn -/

/-- What a step asks of the orchestrator, if it asks for anything, decides what the step does to it. -/
theorem step_of_operation {P : Orchestrator → Prop} {step : Step} (hstay : P s.orchestrator)
    (h : ∀ op, s.operation? step = some op → P (s.orchestrator.perform op).1) :
    P (s.step step).1.orchestrator := by
  rw [step_orchestrator]
  cases hop : s.operation? step with
  | none => exact hstay
  | some op => exact h op hop

/-- The operation of a step turns scanning on or off only where the step does. -/
theorem eq_toggle_of_operation {step : Step} (h : s.operation? step = some .toggle) : step = .toggle := by
  cases step with
  | toggle => rfl
  | apply n =>
    obtain ⟨c, _, hc⟩ := Option.map_eq_some_iff.mp h
    exact absurd hc nofun
  | _ => exact absurd h nofun

/-- The operation of a step adds a root only where the step does. -/
theorem eq_addRoot_of_operation {step : Step} (h : s.operation? step = some (.addRoot root)) :
    step = .addRoot root := by
  cases step with
  | addRoot r =>
    have hop : Operation.addRoot r = .addRoot root := Option.some.inj h
    rw [Operation.addRoot.inj hop]
  | apply n =>
    obtain ⟨c, _, hc⟩ := Option.map_eq_some_iff.mp h
    cases hc
  | _ => cases h

theorem inactive_step (hoff : s.orchestrator.active = false) {step : Step} (h : step ≠ .toggle) :
    (s.step step).1.orchestrator.active = false := by
  refine step_of_operation (P := fun o => o.active = false) hoff ?_
  intro op hop
  rw [Orchestrator.perform_active]
  cases op with
  | toggle => exact absurd (eq_toggle_of_operation hop) h
  | _ => exact hoff

/-- **Scanning that was turned off stays off** until it is turned on. -/
theorem inactive_run (hoff : s.orchestrator.active = false) {steps : List Step}
    (h : Step.toggle ∉ steps) : (s.run steps).orchestrator.active = false := by
  induction steps generalizing s with
  | nil => exact hoff
  | cons step steps ih =>
    have hstep : step ≠ .toggle := fun hstep => h (hstep ▸ List.mem_cons_self)
    have hsteps : Step.toggle ∉ steps := fun hmem => h (List.mem_cons_of_mem _ hmem)
    exact ih (inactive_step hoff hstep) hsteps

theorem unmonitored_step (hnot : s.orchestrator.monitors root = false) {step : Step}
    (h : ∀ r, step = .addRoot r → ¬ r ≈ root) :
    (s.step step).1.orchestrator.monitors root = false := by
  refine step_of_operation (P := fun o => o.monitors root = false) hnot ?_
  intro op hop
  refine Orchestrator.monitors_perform hnot ?_
  rintro r rfl
  exact h r (eq_addRoot_of_operation hop)

/-- **A root that was removed stays unmonitored** until it is added. -/
theorem unmonitored_run (hnot : s.orchestrator.monitors root = false) {steps : List Step}
    (h : ∀ r, Step.addRoot r ∈ steps → ¬ r ≈ root) :
    (s.run steps).orchestrator.monitors root = false := by
  induction steps generalizing s with
  | nil => exact hnot
  | cons step steps ih =>
    have hstep : ∀ r, step = .addRoot r → ¬ r ≈ root := fun r hr => h r (hr ▸ List.mem_cons_self)
    have hsteps : ∀ r, Step.addRoot r ∈ steps → ¬ r ≈ root := fun r hr => h r (List.mem_cons_of_mem _ hr)
    exact ih (unmonitored_step hnot hstep) hsteps

theorem run_append (s : ScanSystem) (steps more : List Step) :
    s.run (steps ++ more) = (s.run steps).run more := List.foldl_append

/-! ## Completions that publish nothing -/

/-- To apply the completion of a number publishes nothing, and leaves what every root publishes. -/
def Quiet (s : ScanSystem) (number : Nat) : Prop :=
  (∀ publications, (s.step (.apply number)).2.1 = .publications publications → publications = []) ∧
  ∀ root, (s.step (.apply number)).1.orchestrator.published.get? root =
    s.orchestrator.published.get? root

theorem step_apply {c : Completion} (h : s.received[number]? = some (some c)) :
    s.step (.apply number) =
      ({ s.perform (s.orchestrator.apply c) with received := s.received.set number none },
        .publications (s.orchestrator.apply c).2.publications, (s.orchestrator.apply c).2.scans) := by
  simp only [step, h]

/-- A completion that is not there, or that is not taken over, is quiet. -/
theorem quiet_of_not_accepted
    (h : ∀ c, s.received[number]? = some (some c) → s.orchestrator.accepted? c = none) :
    s.Quiet number := by
  cases hreceived : s.received[number]? with
  | none => simp [Quiet, step, hreceived]
  | some pending =>
    cases pending with
    | none => simp [Quiet, step, hreceived]
    | some c =>
      have hstep := step_apply hreceived
      rw [Orchestrator.apply_of_not_accepted (h c hreceived)] at hstep
      refine ⟨?_, ?_⟩
      · intro publications hresult
        rw [hstep] at hresult
        exact (StepResult.publications.inj hresult).symm
      · intro root
        rw [hstep]
        rfl

theorem quiet_of_inactive (hoff : s.orchestrator.active = false) (number : Nat) : s.Quiet number := by
  refine quiet_of_not_accepted ?_
  intro c _
  cases hacc : s.orchestrator.accepted? c with
  | none => rfl
  | some output =>
    rw [Orchestrator.active_of_accepted hacc] at hoff
    exact absurd hoff nofun

theorem quiet_of_unmonitored {c : Completion} (hreceived : s.received[number]? = some (some c))
    (hnot : s.orchestrator.monitors c.root = false) : s.Quiet number := by
  refine quiet_of_not_accepted ?_
  intro c' hc'
  obtain rfl : c = c' := by simpa [hreceived] using hc'
  cases hacc : s.orchestrator.accepted? c with
  | none => rfl
  | some output =>
    obtain ⟨_, _, hmonitors⟩ := Orchestrator.accepted?_eq_some_iff.mp hacc
    rw [hmonitors] at hnot
    exact absurd hnot nofun

/-! ## Completions behind a withdrawal -/

/-- A root that is scanned. -/
def scannedRoot : Path := .ofString "/repo"

/-- The end of a call of that root which reports one file. -/
def lateEnd : Step :=
  .finish 0 (.ok "::notice file=main.go,line=10,col=3,endLine=10,endColumn=3::unused variable".toList)

/-- The steps of a root whose first call ends after some others. -/
def lateSteps (between : List Step) : List Step :=
  [.addRoot scannedRoot, .toggle] ++ between ++ [lateEnd, .receive]

/-- **Withdrawn results are not published.** While scanning was not turned on again since it was turned
off, no completion publishes anything, and none of a root that was not added again since it was removed
does. When a completion that succeeded is applied while scanning is active and its root monitored, it
replaces what its root publishes, whenever its call was started. -/
theorem quiet_while_withdrawn (config : ScanConfig) (steps : List Step) (number : Nat) :
    let s := (fresh config).run steps
    (∀ before after, steps = before ++ .toggle :: after →
      ((fresh config).run before).orchestrator.active = true → Step.toggle ∉ after → s.Quiet number) ∧
    (∀ before root after c, steps = before ++ .removeRoot root :: after →
      (∀ r, Step.addRoot r ∈ after → ¬ r ≈ root) →
      s.received[number]? = some (some c) → c.root ≈ root → s.Quiet number) ∧
    (∀ c output, s.received[number]? = some (some c) → c.outcome = .ok output →
      s.orchestrator.active = true → s.orchestrator.monitors c.root = true →
      let replaced := s.orchestrator.published.replace c.root
        ((collect output config.strictSpans).rebase c.root)
      (s.step (.apply number)).2.1 = .publications replaced.2 ∧
        (s.step (.apply number)).1.orchestrator.published = replaced.1) := by
  intro s
  refine ⟨?_, ?_, ?_⟩
  · rintro before after hsteps hactive hafter
    have hoff : (((fresh config).run before).step .toggle).1.orchestrator.active = false := by
      show ((fresh config).run before).orchestrator.toggle.1.active = false
      rw [Orchestrator.toggle_off hactive]
    have hrun : s.orchestrator.active = false := by
      show ((fresh config).run steps).orchestrator.active = false
      rw [hsteps, run_append]
      exact inactive_run hoff hafter
    exact quiet_of_inactive hrun number
  · rintro before root after c hsteps hafter hreceived hroot
    have hnot : (((fresh config).run before).step (.removeRoot root)).1.orchestrator.monitors root = false :=
      Orchestrator.monitors_removeRoot _ root
    have hrun : s.orchestrator.monitors root = false := by
      show ((fresh config).run steps).orchestrator.monitors root = false
      rw [hsteps, run_append]
      exact unmonitored_run hnot hafter
    refine quiet_of_unmonitored hreceived ?_
    rwa [Orchestrator.monitors_congr hroot]
  · intro c output hreceived hout hactive hmonitors replaced
    have hacc : s.orchestrator.accepted? c = some output :=
      Orchestrator.accepted?_eq_some_iff.mpr ⟨hout, hactive, hmonitors⟩
    have hconfig : s.orchestrator.config = config := by
      show ((fresh config).run steps).orchestrator.config = config
      rw [run_orchestrator, Orchestrator.run_config]
      rfl
    have hstep := step_apply hreceived
    rw [Orchestrator.apply_of_accepted hacc, Orchestrator.scanned, hconfig] at hstep
    rw [hstep]
    exact ⟨rfl, rfl⟩

/-- A call whose root is scanned ends late: after scanning was turned off, after its root was removed, and
after scanning was turned off and on again. -/
theorem quiet_late_end :
    ((fresh {}).run (lateSteps [.toggle])).Quiet 0 ∧
    ((fresh {}).run (lateSteps [.removeRoot scannedRoot])).Quiet 0 ∧
    ((fresh {}).run (lateSteps [.toggle, .toggle])).orchestrator.published.get? scannedRoot = none ∧
    ((((fresh {}).run (lateSteps [.toggle, .toggle])).step (.apply 0)).1.orchestrator.published.get?
      scannedRoot).isSome = true := by
  obtain ⟨hoff, -, -⟩ := quiet_while_withdrawn {} (lateSteps [.toggle]) 0
  obtain ⟨-, hremoved, -⟩ := quiet_while_withdrawn {} (lateSteps [.removeRoot scannedRoot]) 0
  obtain ⟨-, -, hagain⟩ := quiet_while_withdrawn {} (lateSteps [.toggle, .toggle]) 0
  refine ⟨?_, ?_, ?_, ?_⟩
  · exact hoff [.addRoot scannedRoot, .toggle] [lateEnd, .receive] rfl (by decide +kernel) (by simp [lateEnd])
  · refine hremoved [.addRoot scannedRoot, .toggle] scannedRoot [lateEnd, .receive] _ rfl ?_ rfl ?_
    · simp [lateEnd]
    · exact Setoid.refl _
  · decide +kernel
  · rw [(hagain _ _ rfl rfl (by decide +kernel) (by decide +kernel)).2]
    decide +kernel

/-! ## Calls of an earlier time -/

/-- After the steps, the call of a number is one that was started before scanning was turned off. -/
def TurnedOffSince (config : ScanConfig) (steps : List Step) (call : Nat) : Prop :=
  ∃ before after, steps = before ++ .toggle :: after ∧
    ((fresh config).run before).orchestrator.active = true ∧
    call < ((fresh config).ledger {} before).started.length

/-- After the steps, the call of a number is one that was started before its root was added. -/
def AddedSince (config : ScanConfig) (steps : List Step) (call : Nat) : Prop :=
  ∃ before root after, steps = before ++ .addRoot root :: after ∧
    ((fresh config).run before).orchestrator.monitors root = false ∧
    ∃ started, ((fresh config).ledger {} before).started[call]? = some started ∧ started ≈ root

/-- **Calls of an earlier time can publish.** A completion of a call that was started before scanning was
last turned off, or before its root was last added, need not be quiet: with scanning active and the root
monitored again, it publishes its file. -/
theorem earlier_calls_publish :
    (¬ ∀ (config : ScanConfig) (steps : List Step) (number call : Nat) (outcome : Outcome),
      ((fresh config).ledger {} steps).finished[number]? = some (call, outcome) →
      TurnedOffSince config steps call → ((fresh config).run steps).Quiet number) ∧
    ¬ ∀ (config : ScanConfig) (steps : List Step) (number call : Nat) (outcome : Outcome),
      ((fresh config).ledger {} steps).finished[number]? = some (call, outcome) →
      AddedSince config steps call → ((fresh config).run steps).Quiet number := by
  refine ⟨?_, ?_⟩
  · intro hquiet
    -- scanning is turned on, off and on again while the call is running
    have hstarted : TurnedOffSince {} (lateSteps [.toggle, .toggle]) 0 :=
      ⟨[.addRoot scannedRoot, .toggle], [.toggle, lateEnd, .receive], rfl, by decide +kernel,
        by decide +kernel⟩
    have hstay := (hquiet {} (lateSteps [.toggle, .toggle]) 0 0 _ rfl hstarted).2 scannedRoot
    exact absurd hstay (by decide +kernel)
  · intro hquiet
    -- the root is removed and added again while the call is running
    have hstarted : AddedSince {} (lateSteps [.removeRoot scannedRoot, .addRoot scannedRoot]) 0 :=
      ⟨[.addRoot scannedRoot, .toggle, .removeRoot scannedRoot], scannedRoot, [lateEnd, .receive], rfl,
        by decide +kernel, scannedRoot, by decide +kernel, Setoid.refl _⟩
    have hstay :=
      (hquiet {} (lateSteps [.removeRoot scannedRoot, .addRoot scannedRoot]) 0 0 _ rfl hstarted).2 scannedRoot
    exact absurd hstay (by decide +kernel)

end ScanSystem
end NoticeServer
