import NoticeServer.Proofs.Server.Demand

/-!
# `NoticeServer.Proofs.Server.Run` — a server along frames and finished scans

Whatever happens in a session, its server takes in frames and finished scans one after the other. What one
of them keeps, every run of them keeps: that no two monitored roots are equal is the first such invariant
(`Server.noTwoEqual_run`).
-/

namespace NoticeServer

/-- What a server takes in. -/
inductive ServerInput where
  | frame (v : Json)
  | completion (c : Completion)

namespace Server

/-- Takes in one frame or one finished scan. -/
def take (s : Server) : ServerInput → Server × Reply
  | .frame v => s.handle v
  | .completion c => s.complete c

/-- The state behind frames and finished scans. -/
def run (s : Server) (inputs : List ServerInput) : Server :=
  inputs.foldl (fun s input => (s.take input).1) s

/-- All scans that are started along frames and finished scans, in order. -/
def scans (s : Server) : List ServerInput → List Path
  | [] => []
  | input :: inputs => (s.take input).2.scans ++ scans (s.take input).1 inputs

@[simp] theorem run_nil (s : Server) : s.run [] = s := rfl

@[simp] theorem run_cons (s : Server) (input : ServerInput) (inputs : List ServerInput) :
    s.run (input :: inputs) = (s.take input).1.run inputs := rfl

theorem run_append (s : Server) (inputs more : List ServerInput) :
    s.run (inputs ++ more) = (s.run inputs).run more := List.foldl_append

theorem scans_append (s : Server) (inputs more : List ServerInput) :
    s.scans (inputs ++ more) = s.scans inputs ++ (s.run inputs).scans more := by
  induction inputs generalizing s with
  | nil => rfl
  | cons input inputs ih =>
    rw [List.cons_append, scans, scans, ih, List.append_assoc]
    rfl

variable {s : Server}

/-! ## Finished scans -/

/-- A finished scan is applied, and starts no scan. -/
@[simp] theorem scans_complete (s : Server) (c : Completion) : (s.complete c).2.scans = [] :=
  s.orchestrator.scans_apply c

@[simp] theorem roots_complete (s : Server) (c : Completion) :
    (s.complete c).1.orchestrator.roots = s.orchestrator.roots := s.orchestrator.apply_roots c

/-! ## Roots and scans -/

theorem noTwoEqual_take (h : Path.NoTwoEqual s.orchestrator.roots) (input : ServerInput) :
    Path.NoTwoEqual (s.take input).1.orchestrator.roots := by
  cases input with
  | frame v =>
    show Path.NoTwoEqual (s.handle v).1.orchestrator.roots
    rcases s.handle_cases v with ⟨d, -, hstate, -⟩ | ⟨hstate, -⟩
    · rw [hstate]
      exact Orchestrator.noTwoEqual_answer h d
    · rwa [hstate]
  | completion c =>
    show Path.NoTwoEqual (s.complete c).1.orchestrator.roots
    rwa [roots_complete]

theorem noTwoEqual_run (h : Path.NoTwoEqual s.orchestrator.roots) (inputs : List ServerInput) :
    Path.NoTwoEqual (s.run inputs).orchestrator.roots := by
  induction inputs generalizing s with
  | nil => exact h
  | cons input inputs ih => exact ih (noTwoEqual_take h input)

theorem noTwoEqual_fresh (config : ScanConfig) :
    Path.NoTwoEqual (fresh config).orchestrator.roots := List.Pairwise.nil

/-- No frame and no finished scan changes the configuration. -/
theorem config_take (s : Server) (input : ServerInput) :
    (s.take input).1.orchestrator.config = s.orchestrator.config := by
  cases input with
  | frame v =>
    show (s.handle v).1.orchestrator.config = _
    rcases s.handle_cases v with ⟨d, -, hstate, -⟩ | ⟨hstate, -⟩
    · rw [hstate, Orchestrator.config_answer]
    · rw [hstate]
  | completion c => exact s.orchestrator.perform_config (.apply c)

@[simp] theorem config_run (s : Server) (inputs : List ServerInput) :
    (s.run inputs).orchestrator.config = s.orchestrator.config := by
  induction inputs generalizing s with
  | nil => rfl
  | cons input inputs ih => rw [run_cons, ih, config_take]

/-- **Scans start only for monitored roots, and only while scanning is active.** -/
theorem monitored_of_scans_take {input : ServerInput} {root : Path}
    (h : root ∈ (s.take input).2.scans) :
    (s.take input).1.orchestrator.active = true ∧ root ∈ (s.take input).1.orchestrator.roots := by
  cases input with
  | frame v =>
    have hscans : root ∈ (s.handle v).2.scans := h
    show (s.handle v).1.orchestrator.active = true ∧ root ∈ (s.handle v).1.orchestrator.roots
    rcases s.handle_cases v with ⟨d, -, hstate, hstarted⟩ | ⟨-, hnone⟩
    · rw [hstarted] at hscans
      rw [hstate]
      exact s.orchestrator.monitored_of_scans_answer hscans
    · rw [hnone] at hscans
      exact absurd hscans List.not_mem_nil
  | completion c =>
    have hscans : root ∈ (s.complete c).2.scans := h
    rw [scans_complete] at hscans
    exact absurd hscans List.not_mem_nil

end Server
end NoticeServer
