import NoticeServer.DiagnosticSet

/-!
# `NoticeServer.Publication` — what is published, by root

A publication replaces everything that the editor shows for one file. The store holds the published set
of each root; every change of it yields the publications that bring the editor in line. A `Snapshot` is all
that is published, in the order of the paths.
-/

namespace NoticeServer

/-! ## Publications -/

/-- The full list of diagnostics of a file; an empty list clears the file. -/
structure Publication where
  path : Path
  items : List Diagnostic
  deriving DecidableEq, Repr

namespace Publication

/-- The publication that clears a file. -/
def clear (path : Path) : Publication := ⟨path, []⟩

/-- Whether a publication clears its file. -/
def isClear (p : Publication) : Bool := p.items.isEmpty

end Publication

/-- The publications that clear every file of a set. -/
def DiagnosticSet.clears (s : DiagnosticSet) : List Publication := s.paths.map .clear

/-- The publications that show every file of a set. -/
def DiagnosticSet.publications (s : DiagnosticSet) : List Publication :=
  s.files.map fun file => ⟨file.1, file.2⟩

/-! ## The store -/

/-- The published sets by root. Each root is there once, and no set is empty. -/
structure PublishedStore where
  roots : List (Path × DiagnosticSet)
  deriving DecidableEq, Repr

namespace PublishedStore

/-- The store without roots. -/
def empty : PublishedStore := ⟨[]⟩

/-- The published set of a root. -/
def get? (s : PublishedStore) (root : Path) : Option DiagnosticSet :=
  (s.roots.find? fun entry => entry.1 ≈ root).map (·.2)

/-- The store without a root. -/
def erase (s : PublishedStore) (root : Path) : PublishedStore :=
  ⟨s.roots.filter fun entry => ¬ entry.1 ≈ root⟩

/-- The store with the set of a root replaced; an empty set is not kept. -/
def put (s : PublishedStore) (root : Path) (set : DiagnosticSet) : PublishedStore :=
  if set.isEmpty then s.erase root else ⟨(root, set) :: (s.erase root).roots⟩

/-- The publications that lead from one set to the next: files that are gone are cleared first. -/
def transition (previous next : DiagnosticSet) : List Publication :=
  ((previous.paths.filter fun path => !next.contains path).map .clear) ++ next.publications

/-- Replaces the set of a root. -/
def replace (s : PublishedStore) (root : Path) (set : DiagnosticSet) :
    PublishedStore × List Publication :=
  (s.put root set, transition ((s.get? root).getD .empty) set)

/-- Forgets a root and clears its files. -/
def clearRoot (s : PublishedStore) (root : Path) : PublishedStore × List Publication :=
  (s.erase root, ((s.get? root).getD .empty).clears)

/-- Forgets roots one after the other and clears the files of each. -/
def clearRoots (s : PublishedStore) : List Path → PublishedStore × List Publication
  | [] => (s, [])
  | root :: roots =>
    let (s, cleared) := s.clearRoot root
    let (s, publications) := s.clearRoots roots
    (s, cleared ++ publications)

/-- The roots in their order. -/
def sortedRoots (s : PublishedStore) : List Path := (s.roots.map (·.1)).mergeSort Path.precedes

/-- Forgets every root and clears its files, in the order of the roots. -/
def clearAll (s : PublishedStore) : PublishedStore × List Publication := s.clearRoots s.sortedRoots

end PublishedStore

/-! ## Snapshots -/

/-- Published files in path order. -/
structure Snapshot where
  files : List (Path × List Diagnostic)
  deriving DecidableEq, Repr

/-- All published files of all roots. -/
def PublishedStore.snapshot (s : PublishedStore) : Snapshot :=
  ⟨(s.roots.flatMap fun entry => entry.2.files).mergeSort fun a b => a.1.precedes b.1⟩

namespace Snapshot

/-- The diagnostics of a file; of several roots that published it, one is taken. -/
def get? (s : Snapshot) (path : Path) : Option (List Diagnostic) :=
  (s.files.find? fun file => file.1 ≈ path).map (·.2)

/-- All lists of diagnostics published for a file, one for each root that did. -/
def all (s : Snapshot) (path : Path) : List (List Diagnostic) :=
  (s.files.filter fun file => file.1 ≈ path).map (·.2)

/-- Whether nothing is published. -/
def isEmpty (s : Snapshot) : Bool := s.files.isEmpty

/-- The number of diagnostics. -/
def total (s : Snapshot) : Nat := s.files.foldr (fun file n => file.2.length + n) 0

/-- A short text that tells how much is published; empty if nothing is. -/
def status (s : Snapshot) : String :=
  if s.isEmpty then ""
  else
    let noun := if s.files.length = 1 then "file" else "files"
    s!"nudge: {s.total} in {s.files.length} {noun}"

end Snapshot
end NoticeServer
