import NoticeServer.Proofs.Orchestrator.Calls
import NoticeServer.Proofs.Orchestrator.Scans

/-!
# `NoticeServer.Proofs.Orchestrator.Ledger` — calls, completions and the number of scans

A ledger notes what can be seen of a system from outside: the calls that start and that end, and the
completions that are received and applied. The system is balanced against it: nothing that was noted is
lost on its way from a started call to an applied completion, and nothing is counted twice.

Each step keeps the balance (`Balanced.step`), and what a balanced system tells of its completions is
`Accounted`; so no completion of any run is lost, doubled or miscounted (`ScanSystem.accounted_run`).
-/

namespace NoticeServer

/-! ## The ledger -/

/-- What the steps of a run show, each list in the order of the steps. -/
structure Ledger where
  /-- The roots of the calls that started. The place is the number of the call. -/
  started : List Path := []
  /-- The numbers of the calls that ended, with their outcomes. -/
  finished : List (Nat × Outcome) := []
  /-- The completions that were received. The place is the number of the completion. -/
  received : List Completion := []
  /-- The numbers of the completions that were applied. -/
  applied : List Nat := []

namespace Ledger

/-- The numbers of the calls that ended. -/
def ended (l : Ledger) : List Nat := l.finished.map (·.1)

/-- The completion of a call that ended: the root it was started for, and its outcome. -/
def completion? (l : Ledger) (call : Nat × Outcome) : Option Completion :=
  l.started[call.1]?.map fun root => ⟨root, call.2⟩

/-- Notes the calls that start. -/
def start (l : Ledger) (scans : List Path) : Ledger := { l with started := l.started ++ scans }

/-- Notes what one step tells, and the roots whose calls it starts. -/
def note (l : Ledger) (step : Step) (result : StepResult) (scans : List Path) : Ledger :=
  let l := l.start scans
  match step, result with
  | .finish number outcome, .flag true => { l with finished := l.finished ++ [(number, outcome)] }
  | .receive, .completion _ c => { l with received := l.received ++ [c] }
  | .apply number, .publications _ => { l with applied := l.applied ++ [number] }
  | _, _ => l

end Ledger

/-- The ledger behind some steps, from a ledger on. -/
def ScanSystem.ledger (s : ScanSystem) (l : Ledger) : List Step → Ledger
  | [] => l
  | step :: steps => (s.step step).1.ledger (l.note step (s.step step).2.1 (s.step step).2.2) steps

/-! ## Balance -/

/-- What ties a system to its ledger. -/
structure Balanced (s : ScanSystem) (l : Ledger) : Prop where
  /-- A call has the root it was started for, and is running until it has ended. -/
  calls : s.invocations.calls = l.started.mapIdx fun n root => ⟨root, decide (n ∉ l.ended)⟩
  ended_nodup : l.ended.Nodup
  /-- What was received and what waits are the completions of the calls that ended, in this order. -/
  completions : l.finished.map l.completion? = (l.received ++ s.queue).map some
  /-- A received completion is there until it is applied. -/
  pending : s.received = l.received.mapIdx fun n c => if n ∈ l.applied then none else some c
  applied_nodup : l.applied.Nodup
  applied_lt : ∀ n ∈ l.applied, n < l.received.length
  running_add : s.invocations.running + l.finished.length = l.started.length
  pending_add : s.received.countP Option.isSome + l.applied.length = l.received.length
  inFlight_add : s.orchestrator.inFlight + l.applied.length = l.started.length

theorem balanced_fresh (config : ScanConfig) : Balanced (.fresh config) {} where
  calls := rfl
  ended_nodup := .nil
  completions := rfl
  pending := rfl
  applied_nodup := .nil
  applied_lt := nofun
  running_add := rfl
  pending_add := rfl
  inFlight_add := rfl

namespace Balanced

variable {s : ScanSystem} {l : Ledger}

/-! ## Starting calls -/

/-- A call that ended was started. -/
theorem started_of_finished (h : Balanced s l) {call : Nat × Outcome} (hcall : call ∈ l.finished) :
    call.1 < l.started.length := by
  have hmem : l.completion? call ∈ (l.received ++ s.queue).map some :=
    h.completions ▸ List.mem_map_of_mem hcall
  obtain ⟨c, _, hc⟩ := List.mem_map.mp hmem
  obtain ⟨root, hroot, _⟩ := Option.map_eq_some_iff.mp hc.symm
  exact (List.getElem?_eq_some_iff.mp hroot).1

theorem started_of_ended (h : Balanced s l) {n : Nat} (hn : n ∈ l.ended) : n < l.started.length := by
  obtain ⟨call, hcall, rfl⟩ := List.mem_map.mp hn
  exact h.started_of_finished hcall

/-- Calls that start do not change the completions of those that ended. -/
theorem completions_start (h : Balanced s l) (scans : List Path) :
    l.finished.map (l.start scans).completion? = l.finished.map l.completion? := by
  refine List.map_congr_left fun call hcall => ?_
  show (l.started ++ scans)[call.1]?.map _ = l.started[call.1]?.map _
  rw [List.getElem?_append_left (h.started_of_finished hcall)]

/-- An operation that adds the scans it starts to the outstanding ones. -/
theorem perform (h : Balanced s l) {r : Orchestrator × Reaction}
    (hr : r.1.inFlight = s.orchestrator.inFlight + r.2.scans.length) :
    Balanced (s.perform r) (l.start r.2.scans) where
  calls := by
    -- a call that starts has not ended, since only started calls have
    have hnew : ∀ n, l.started.length ≤ n → decide (n ∉ l.ended) = true := by
      intro n hn
      refine decide_eq_true fun hmem => ?_
      have := h.started_of_ended hmem
      omega
    show s.invocations.calls ++ r.2.scans.map (fun root => ⟨root, true⟩) = _
    rw [h.calls, Ledger.start, List.mapIdx_append]
    congr 1
    refine List.ext_getElem (by simp) fun n _ _ => ?_
    simp only [List.getElem_map, List.getElem_mapIdx]
    rw [Invocation.mk.injEq]
    exact ⟨rfl, (hnew _ (Nat.le_add_left _ _)).symm⟩
  ended_nodup := h.ended_nodup
  completions := (h.completions_start r.2.scans).trans h.completions
  pending := h.pending
  applied_nodup := h.applied_nodup
  applied_lt := h.applied_lt
  running_add := by
    have hrunning := h.running_add
    show (s.invocations.start r.2.scans).running + l.finished.length = (l.started ++ r.2.scans).length
    rw [Invocations.running_start, List.length_append]
    omega
  pending_add := h.pending_add
  inFlight_add := by
    have hinFlight := h.inFlight_add
    show r.1.inFlight + l.applied.length = (l.started ++ r.2.scans).length
    rw [hr, List.length_append]
    omega

/-! ## The way of a completion -/

/-- A call that ends puts its completion behind those that wait. -/
theorem finish (h : Balanced s l) {number : Nat} {root : Path} {invocations : Invocations}
    (hf : s.invocations.finish? number = some (root, invocations)) (outcome : Outcome) :
    Balanced { s with invocations, queue := s.queue ++ [⟨root, outcome⟩] }
      { l with finished := l.finished ++ [(number, outcome)] } := by
  obtain ⟨hcall, rfl⟩ := Invocations.finish?_eq_some_iff.mp hf
  have hrunning := Invocations.running_finish hf
  -- the ledger knows the call as one that was started and has not ended
  have hlt : number < l.started.length := by
    have := (List.getElem?_eq_some_iff.mp hcall).1
    rwa [h.calls, List.length_mapIdx] at this
  have hroot : l.started[number] = root ∧ number ∉ l.ended := by
    rw [h.calls, List.getElem?_mapIdx, List.getElem?_eq_getElem hlt] at hcall
    simpa using hcall
  have hended : Ledger.ended { l with finished := l.finished ++ [(number, outcome)] } =
      l.ended ++ [number] := by
    simp [Ledger.ended]
  have hadd := h.running_add
  refine ⟨?_, ?_, ?_, h.pending, h.applied_nodup, h.applied_lt, ?_, h.pending_add, h.inFlight_add⟩
  · rw [hended, h.calls]
    refine List.ext_getElem (by simp) fun n hn _ => ?_
    simp only [List.getElem_set, List.getElem_mapIdx, List.mem_append, List.mem_singleton]
    by_cases hne : number = n
    · subst hne
      simp [hroot.1]
    · simp [hne, Ne.symm hne]
  · rw [hended]
    exact List.nodup_append.mpr ⟨h.ended_nodup, by simp, by grind⟩
  · have hnew : l.completion? (number, outcome) = some ⟨root, outcome⟩ := by
      simp [Ledger.completion?, List.getElem?_eq_getElem hlt, hroot.1]
    show (l.finished ++ [(number, outcome)]).map l.completion? = _
    rw [List.map_append, h.completions, List.map_singleton, hnew]
    simp
  · show Invocations.running ⟨s.invocations.calls.set number ⟨root, false⟩⟩ +
      (l.finished ++ [(number, outcome)]).length = l.started.length
    rw [List.length_append, List.length_singleton]
    omega

/-- The completion that waits longest is received. -/
theorem receive (h : Balanced s l) {c : Completion} {queue : List Completion}
    (hq : s.queue = c :: queue) :
    Balanced { s with queue, received := s.received ++ [some c] }
      { l with received := l.received ++ [c] } := by
  -- the new completion has a number that none was applied with
  have hnew : l.received.length ∉ l.applied := fun hmem => Nat.lt_irrefl _ (h.applied_lt _ hmem)
  have hlt : ∀ n ∈ l.applied, n < (l.received ++ [c]).length := by
    intro n hn
    have := h.applied_lt n hn
    rw [List.length_append]
    omega
  have hadd := h.pending_add
  refine ⟨h.calls, h.ended_nodup, ?_, ?_, h.applied_nodup, hlt, h.running_add, ?_, h.inFlight_add⟩
  · refine h.completions.trans ?_
    rw [hq]
    simp
  · rw [h.pending]
    simp [hnew]
  · show (s.received ++ [some c]).countP Option.isSome + l.applied.length = (l.received ++ [c]).length
    simp
    omega

/-- What is there to be applied was received under this number and not applied yet. -/
theorem unapplied (h : Balanced s l) {number : Nat} {c : Completion}
    (hc : s.received[number]? = some (some c)) :
    l.received[number]? = some c ∧ number ∉ l.applied := by
  rw [h.pending, List.getElem?_mapIdx] at hc
  obtain ⟨c', hreceived, hpending⟩ := Option.map_eq_some_iff.mp hc
  by_cases hmem : number ∈ l.applied
  · rw [if_pos hmem] at hpending
    exact absurd hpending nofun
  · rw [if_neg hmem] at hpending
    exact ⟨hreceived.trans hpending, hmem⟩

/-- One completion less is there after one was applied. -/
theorem countP_set_none {received : List (Option Completion)} {number : Nat} {c : Completion}
    (hc : received[number]? = some (some c)) :
    (received.set number none).countP Option.isSome + 1 = received.countP Option.isSome := by
  obtain ⟨hlt, hget⟩ := List.getElem?_eq_some_iff.mp hc
  have hpos : 0 < received.countP Option.isSome :=
    List.countP_pos_iff.mpr ⟨_, List.getElem_mem hlt, by rw [hget]; rfl⟩
  have hset := List.countP_set (p := Option.isSome) (a := none) hlt
  rw [hget] at hset
  simp only [Option.isSome_some, Option.isSome_none, if_true] at hset
  rw [hset]
  simp
  omega

/-- The outstanding scans by where they are. -/
theorem inFlight_eq (h : Balanced s l) : s.orchestrator.inFlight =
    s.invocations.running + s.queue.length + s.received.countP Option.isSome := by
  have hlength := congrArg List.length h.completions
  have hrunning := h.running_add
  have hpending := h.pending_add
  have hinFlight := h.inFlight_add
  simp only [List.length_map, List.length_append] at hlength
  omega

/-- While something is there to be applied, a scan is outstanding. -/
theorem inFlight_pos (h : Balanced s l) {number : Nat} {c : Completion}
    (hc : s.received[number]? = some (some c)) : 0 < s.orchestrator.inFlight := by
  have hcount := countP_set_none hc
  rw [h.inFlight_eq]
  omega

/-- A received completion is applied. -/
theorem apply (h : Balanced s l) {number : Nat} {c : Completion}
    (hc : s.received[number]? = some (some c)) :
    Balanced { s.perform (s.orchestrator.apply c) with received := s.received.set number none }
      { l with applied := l.applied ++ [number] } := by
  obtain ⟨hreceived, hnew⟩ := h.unapplied hc
  have hpos := h.inFlight_pos hc
  have hcount := countP_set_none hc
  have hlt : number < l.received.length := (List.getElem?_eq_some_iff.mp hreceived).1
  -- no call starts, so the calls stay as they are
  have hcalls : (s.perform (s.orchestrator.apply c)).invocations = s.invocations := by
    show s.invocations.start (s.orchestrator.apply c).2.scans = s.invocations
    rw [Orchestrator.scans_apply]
    simp [Invocations.start]
  refine ⟨?_, h.ended_nodup, h.completions, ?_, ?_, ?_, ?_, ?_, ?_⟩
  · show (s.perform (s.orchestrator.apply c)).invocations.calls = _
    rw [hcalls]
    exact h.calls
  · rw [h.pending]
    refine List.ext_getElem (by simp) fun n _ _ => ?_
    simp only [List.getElem_set, List.getElem_mapIdx, List.mem_append, List.mem_singleton]
    by_cases hne : number = n
    · simp [hne]
    · simp [hne, Ne.symm hne]
  · exact List.nodup_append.mpr ⟨h.applied_nodup, by simp, by grind⟩
  · intro n hn
    rcases List.mem_append.mp hn with hn | hn
    · exact h.applied_lt n hn
    · rwa [List.mem_singleton.mp hn]
  · show (s.perform (s.orchestrator.apply c)).invocations.running + _ = _
    rw [hcalls]
    exact h.running_add
  · have hadd := h.pending_add
    show (s.received.set number none).countP Option.isSome + (l.applied ++ [number]).length =
      l.received.length
    rw [List.length_append, List.length_singleton]
    omega
  · have hadd := h.inFlight_add
    show (s.orchestrator.apply c).1.inFlight + (l.applied ++ [number]).length = l.started.length
    rw [Orchestrator.inFlight_apply, List.length_append, List.length_singleton]
    omega

/-! ## Runs -/

/-- **Every step keeps the balance.** -/
theorem step (h : Balanced s l) (step : Step) :
    Balanced (s.step step).1 (l.note step (s.step step).2.1 (s.step step).2.2) := by
  cases step with
  | addRoot root => exact h.perform (Orchestrator.inFlight_perform (.addRoot root) nofun)
  | removeRoot root => exact h.perform (Orchestrator.inFlight_perform (.removeRoot root) nofun)
  | toggle => exact h.perform (Orchestrator.inFlight_perform .toggle nofun)
  | documentSaved language =>
    exact h.perform (Orchestrator.inFlight_perform (.documentSaved language) nofun)
  | scanAll => exact h.perform (Orchestrator.inFlight_perform .scanAll nofun)
  | finish number outcome =>
    cases hf : s.invocations.finish? number with
    | none => simpa [ScanSystem.step, hf, Ledger.note, Ledger.start] using h
    | some result =>
      obtain ⟨root, invocations⟩ := result
      simpa [ScanSystem.step, hf, Ledger.note, Ledger.start] using h.finish hf outcome
  | receive =>
    cases hq : s.queue with
    | nil => simpa [ScanSystem.step, hq, Ledger.note, Ledger.start] using h
    | cons c queue => simpa [ScanSystem.step, hq, Ledger.note, Ledger.start] using h.receive hq
  | apply number =>
    cases hc : s.received[number]? with
    | none => simpa [ScanSystem.step, hc, Ledger.note, Ledger.start] using h
    | some pending =>
      cases pending with
      | none => simpa [ScanSystem.step, hc, Ledger.note, Ledger.start] using h
      | some c => simpa [ScanSystem.step, hc, Ledger.note, Ledger.start] using h.apply hc

theorem run (h : Balanced s l) (steps : List Step) : Balanced (s.run steps) (s.ledger l steps) := by
  induction steps generalizing s l with
  | nil => exact h
  | cons step steps ih => exact ih (h.step step)

end Balanced

/-! ## Accounts -/

/-- What the ledger of a run says about the calls, the completions and the number of outstanding scans. -/
structure Accounted (s : ScanSystem) (l : Ledger) : Prop where
  /-- A call can end just if it was started and has not ended. -/
  ends_iff : ∀ number outcome, (s.step (.finish number outcome)).2.1 = .flag true ↔
    number < l.started.length ∧ number ∉ l.finished.map (·.1)
  /-- No call ended twice. -/
  ended_once : (l.finished.map (·.1)).Nodup
  /-- What was received and what waits are the completions of the calls that ended, in the order of their
  ends, each with the root of its own call and the outcome of its own end. -/
  completions : (l.finished.map fun call => l.started[call.1]?.map fun root => ⟨root, call.2⟩) =
    (l.received ++ s.queue).map some
  /-- The next completion to be received is that of the next call in this order. -/
  receives_iff : ∀ c, (s.step .receive).2.1 = .completion l.received.length c ↔
    (l.finished[l.received.length]?.bind fun call =>
      l.started[call.1]?.map fun root => ⟨root, call.2⟩) = some c
  /-- No completion was applied twice or without being received. -/
  applied_once : l.applied.Nodup
  applied_lt : ∀ n ∈ l.applied, n < l.received.length
  /-- The outstanding scans are those started less those whose completions were applied. -/
  inFlight_add : s.orchestrator.inFlight + l.applied.length = l.started.length
  /-- They run, or wait, or were received and not yet applied. -/
  inFlight_eq : s.orchestrator.inFlight =
    s.invocations.running + s.queue.length + s.received.countP Option.isSome
  /-- To apply a completion takes exactly one off their number. -/
  inFlight_apply : ∀ number c, s.received[number]? = some (some c) →
    (s.step (.apply number)).1.orchestrator.inFlight + 1 = s.orchestrator.inFlight
  /-- Their number is zero just when nothing is outstanding. -/
  inFlight_eq_zero_iff : s.orchestrator.inFlight = 0 ↔
    s.invocations.running = 0 ∧ s.queue = [] ∧ ∀ c ∈ s.received, c = none

namespace Balanced

variable {s : ScanSystem} {l : Ledger}

theorem flag_finish_iff (h : Balanced s l) (number : Nat) (outcome : Outcome) :
    (s.step (.finish number outcome)).2.1 = .flag true ↔
      number < l.started.length ∧ number ∉ l.ended := by
  have hresult : (s.step (.finish number outcome)).2.1 = .flag true ↔
      ∃ root, s.invocations.calls[number]? = some ⟨root, true⟩ := by
    cases hf : s.invocations.finish? number with
    | none =>
      simp only [ScanSystem.step, hf, StepResult.flag.injEq, Bool.false_eq_true, false_iff]
      rintro ⟨root, hcall⟩
      rw [Invocations.finish?_eq_some_iff.mpr ⟨hcall, rfl⟩] at hf
      cases hf
    | some result =>
      obtain ⟨hcall, _⟩ := Invocations.finish?_eq_some_iff.mp hf
      simp only [ScanSystem.step, hf, true_iff]
      exact ⟨_, hcall⟩
  rw [hresult, h.calls, List.getElem?_mapIdx]
  by_cases hlt : number < l.started.length <;> simp [hlt]

/-- The calls that ended and were not received yet are those whose completions wait. -/
theorem next_completion (h : Balanced s l) :
    (l.finished[l.received.length]?.bind l.completion?) = s.queue.head? := by
  have hmap : l.finished[l.received.length]?.map l.completion? = s.queue.head?.map some := by
    rw [← List.getElem?_map, h.completions, List.getElem?_map,
      List.getElem?_append_right (Nat.le_refl _), Nat.sub_self, List.head?_eq_getElem?]
  cases hcall : l.finished[l.received.length]? with
  | none => cases hq : s.queue.head? <;> simp_all
  | some call => cases hq : s.queue.head? <;> simp_all

theorem length_received (h : Balanced s l) : s.received.length = l.received.length := by
  rw [h.pending, List.length_mapIdx]

theorem accounted (h : Balanced s l) : Accounted s l where
  ends_iff := h.flag_finish_iff
  ended_once := h.ended_nodup
  completions := h.completions
  receives_iff c := by
    show _ ↔ l.finished[l.received.length]?.bind l.completion? = some c
    rw [h.next_completion]
    cases hq : s.queue with
    | nil => simp [ScanSystem.step, hq]
    | cons c' queue => simp [ScanSystem.step, hq, h.length_received]
  applied_once := h.applied_nodup
  applied_lt := h.applied_lt
  inFlight_add := h.inFlight_add
  inFlight_eq := h.inFlight_eq
  inFlight_apply number c hc := by
    have hpos := h.inFlight_pos hc
    have happly : (s.step (.apply number)).1.orchestrator = (s.orchestrator.apply c).1 := by
      simp [ScanSystem.step, hc, ScanSystem.perform]
    rw [happly, Orchestrator.inFlight_apply]
    omega
  inFlight_eq_zero_iff := by
    have hnone : s.received.countP Option.isSome = 0 ↔ ∀ c ∈ s.received, c = none := by
      simp [List.countP_eq_zero]
    rw [h.inFlight_eq, ← hnone, ← List.length_eq_zero_iff]
    omega

end Balanced

namespace ScanSystem

/-- **No completion is lost, doubled or miscounted.** After any steps from the beginning, the calls, the
completions and the number of outstanding scans are just what the ledger of the steps says. -/
theorem accounted_run (config : ScanConfig) (steps : List Step) :
    Accounted ((fresh config).run steps) ((fresh config).ledger {} steps) :=
  ((balanced_fresh config).run steps).accounted

end ScanSystem
end NoticeServer
