import NoticeServer.Analyzer
import NoticeServer.Collection
import NoticeServer.Publication

/-!
# `NoticeServer.Orchestrator` — monitored roots and their scans

The orchestrator knows whether scanning is active, which roots are monitored, what is published for them
and how many scans are outstanding. Each operation yields a `Reaction`: the roots for which scans start and
the publications for the editor. A finished scan replaces what its root published if it succeeded, scanning
is active and the root is monitored at that moment.
-/

namespace NoticeServer

/-- What an operation asks the outside to do: roots to scan and publications to send, in order. -/
structure Reaction where
  scans : List Path := []
  publications : List Publication := []
  deriving DecidableEq, Repr

namespace Reaction

/-- No reaction. -/
def none : Reaction := {}

/-- One reaction and then another. -/
def append (a b : Reaction) : Reaction := ⟨a.scans ++ b.scans, a.publications ++ b.publications⟩

instance : Append Reaction := ⟨append⟩

end Reaction

/-- The end of a scan: the root it was started for and its outcome. -/
structure Completion where
  root : Path
  outcome : Outcome

/-- Whether the scan succeeded. -/
def Completion.succeeded (c : Completion) : Bool := c.outcome.isOk

/-- The state of scanning. -/
structure Orchestrator where
  config : ScanConfig
  active : Bool := false
  roots : List Path := []
  published : PublishedStore := .empty
  inFlight : Nat := 0

namespace Orchestrator

/-- The state before anything happened. -/
def fresh (config : ScanConfig) : Orchestrator := { config := config }

/-- Whether a root is monitored. -/
def monitors (o : Orchestrator) (root : Path) : Bool := o.roots.any (· ≈ root)

/-- Starts a scan of each of the given roots. -/
def start (o : Orchestrator) (roots : List Path) : Orchestrator × Reaction :=
  ({ o with inFlight := o.inFlight + roots.length }, { scans := roots })

/-- Starts a scan of every monitored root. -/
def scanAll (o : Orchestrator) : Orchestrator × Reaction := o.start o.roots

/-- Monitors a root that is not monitored yet, and scans it while scanning is active. -/
def addRoot (o : Orchestrator) (root : Path) : Orchestrator × Reaction :=
  if o.monitors root then (o, .none)
  else
    let o := { o with roots := o.roots ++ [root] }
    if o.active then o.start [root] else (o, .none)

/-- Monitors roots one after the other. -/
def addRoots (o : Orchestrator) (roots : List Path) : Orchestrator × Reaction :=
  roots.foldl (fun (o, reaction) root => ((o.addRoot root).1, reaction ++ (o.addRoot root).2)) (o, .none)

/-- Monitors a root no longer and clears what it published. -/
def removeRoot (o : Orchestrator) (root : Path) : Orchestrator × Reaction :=
  let (published, publications) := o.published.clearRoot root
  ({ o with roots := o.roots.filter fun r => ¬ r ≈ root, published }, { publications := publications })

/-- Removes roots one after the other. -/
def removeRoots (o : Orchestrator) (roots : List Path) : Orchestrator × Reaction :=
  roots.foldl (fun (o, reaction) root => ((o.removeRoot root).1, reaction ++ (o.removeRoot root).2))
    (o, .none)

/-- Turns scanning on, which scans every root, or off, which clears everything. -/
def toggle (o : Orchestrator) : Orchestrator × Reaction :=
  if o.active then
    let (published, publications) := o.published.clearAll
    ({ o with active := false, published }, { publications := publications })
  else { o with active := true }.scanAll

/-- A document of some language was saved: scans every root while scanning is active and the language
is watched. -/
def documentSaved (o : Orchestrator) (language : String) : Orchestrator × Reaction :=
  if o.active && o.config.watches language then o.scanAll else (o, .none)

/-- The set that an output comes to for a root. -/
def scanned (o : Orchestrator) (root : Path) (output : List Char) : DiagnosticSet :=
  (collect output o.config.strictSpans).rebase root

/-- Takes in the end of a scan. -/
def apply (o : Orchestrator) (c : Completion) : Orchestrator × Reaction :=
  let o := { o with inFlight := o.inFlight - 1 }
  match c.outcome with
  | .error _ => (o, .none)
  | .ok output =>
    if o.active && o.monitors c.root then
      let (published, publications) := o.published.replace c.root (o.scanned c.root output)
      ({ o with published }, { publications := publications })
    else (o, .none)

end Orchestrator
end NoticeServer
