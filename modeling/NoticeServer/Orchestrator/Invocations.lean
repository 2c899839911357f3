import NoticeServer.Path

/-!
# `NoticeServer.Orchestrator.Invocations` — analyzer calls by number

Calls are numbered from zero in the order in which they start. Each is running until it is finished
once.
-/

namespace NoticeServer

/-- One call of the analyzer. -/
structure Invocation where
  root : Path
  running : Bool := true
  deriving DecidableEq, Repr

/-- The calls so far; the place in the list is the number. -/
structure Invocations where
  calls : List Invocation
  deriving DecidableEq, Repr

namespace Invocations

/-- No calls. -/
def empty : Invocations := ⟨[]⟩

/-- The calls with new ones for the given roots. -/
def start (i : Invocations) (roots : List Path) : Invocations :=
  ⟨i.calls ++ roots.map fun root => ⟨root, true⟩⟩

/-- Ends the running call of a number: its root, and the calls after that. -/
def finish? (i : Invocations) (number : Nat) : Option (Path × Invocations) :=
  match i.calls[number]? with
  | some call =>
    if call.running then some (call.root, ⟨i.calls.set number { call with running := false }⟩) else none
  | none => none

/-- How many calls are running. -/
def running (i : Invocations) : Nat := (i.calls.filter (·.running)).length

end Invocations
end NoticeServer
