import NoticeServer.Orchestrator.Basic
import NoticeServer.Orchestrator.Invocations

/-!
# `NoticeServer.Orchestrator.System` — the orchestrator with its calls and completions

A call that finishes puts its completion into a queue, first in, first out. A completion is received
from the queue, gets a running number, and can then be applied once, in any order. A step that is not possible
in a state does nothing there, so every list of steps is a run.
-/

namespace NoticeServer

/-- What can happen to an orchestrator and its surroundings. -/
inductive Step where
  | addRoot (root : Path)
  | removeRoot (root : Path)
  | toggle
  | documentSaved (language : String)
  | scanAll
  /-- The call of this number ends. -/
  | finish (number : Nat) (outcome : Outcome)
  /-- The next completion is taken from the queue. -/
  | receive
  /-- The received completion of this number is applied. -/
  | apply (number : Nat)

/-- What a step tells. -/
inductive StepResult where
  /-- Whether the root is new, or whether the call was running. -/
  | flag (value : Bool)
  /-- The publications of a removal or toggle. -/
  | publications (items : List Publication)
  /-- How many scans were started. -/
  | count (n : Nat)
  /-- A received completion with its number. -/
  | completion (number : Nat) (c : Completion)
  /-- Nothing to receive or to apply. -/
  | nothing

/-- An orchestrator, the calls that it started, the completions that wait, and those received; of the
latter each is there until it is applied. -/
structure ScanSystem where
  orchestrator : Orchestrator
  invocations : Invocations := .empty
  queue : List Completion := []
  received : List (Option Completion) := []

namespace ScanSystem

/-- The system before anything happened. -/
def fresh (config : ScanConfig) : ScanSystem := { orchestrator := .fresh config }

/-- Takes over an operation of the orchestrator. -/
def perform (s : ScanSystem) (operation : Orchestrator × Reaction) : ScanSystem :=
  { s with orchestrator := operation.1, invocations := s.invocations.start operation.2.scans }

/-- One step: the next system, what the step tells, and the roots whose scans it starts. -/
def step (s : ScanSystem) : Step → ScanSystem × StepResult × List Path
  | .addRoot root =>
    let r := s.orchestrator.addRoot root
    (s.perform r, .flag (!s.orchestrator.monitors root), r.2.scans)
  | .removeRoot root =>
    let r := s.orchestrator.removeRoot root
    (s.perform r, .publications r.2.publications, r.2.scans)
  | .toggle =>
    let r := s.orchestrator.toggle
    (s.perform r, .publications r.2.publications, r.2.scans)
  | .documentSaved language =>
    let r := s.orchestrator.documentSaved language
    (s.perform r, .count r.2.scans.length, r.2.scans)
  | .scanAll =>
    let r := s.orchestrator.scanAll
    (s.perform r, .count r.2.scans.length, r.2.scans)
  | .finish number outcome =>
    match s.invocations.finish? number with
    | none => (s, .flag false, [])
    | some (root, invocations) =>
      ({ s with invocations, queue := s.queue ++ [⟨root, outcome⟩] }, .flag true, [])
  | .receive =>
    match s.queue with
    | [] => (s, .nothing, [])
    | c :: queue =>
      ({ s with queue, received := s.received ++ [some c] }, .completion s.received.length c, [])
  | .apply number =>
    match s.received[number]? with
    | some (some c) =>
      let r := s.orchestrator.apply c
      ({ s.perform r with received := s.received.set number none }, .publications r.2.publications,
        r.2.scans)
    | _ => (s, .nothing, [])

/-- Steps one after the other. -/
def run (s : ScanSystem) (steps : List Step) : ScanSystem :=
  steps.foldl (fun s step => (s.step step).1) s

end ScanSystem
end NoticeServer
