import NoticeServer.Diagnostic

/-!
# `NoticeServer.DiagnosticSet` — diagnostics grouped by file

Files stand in the order in which they were first seen, under the spelling first seen; the diagnostics
of a file keep their order, and nothing is dropped as a repetition. Two spellings of one path are one
file. A set is built by `push` and `append`, or as the `aggregate` of a list, and can be seen from a root
(`rebase`), where different files may become one.
-/

namespace NoticeServer

/-- Diagnostics by file. -/
structure DiagnosticSet where
  files : List (Path × List Diagnostic)
  deriving DecidableEq, Repr

namespace DiagnosticSet

/-- The set without files. -/
def empty : DiagnosticSet := ⟨[]⟩

/-! ## Adding diagnostics -/

/-- Puts diagnostics behind those of their file; a file not yet there comes last. -/
def appendTo (path : Path) (items : List Diagnostic) :
    List (Path × List Diagnostic) → List (Path × List Diagnostic)
  | [] => [(path, items)]
  | file :: files =>
    if file.1 ≈ path then (file.1, file.2 ++ items) :: files else file :: appendTo path items files

/-- Puts one diagnostic behind those of its file. -/
def push (s : DiagnosticSet) (path : Path) (d : Diagnostic) : DiagnosticSet :=
  ⟨appendTo path [d] s.files⟩

/-- Puts diagnostics, if any, behind those of their file. -/
def append (s : DiagnosticSet) (path : Path) (items : List Diagnostic) : DiagnosticSet :=
  if items.isEmpty then s else ⟨appendTo path items s.files⟩

/-! ## Looking into sets -/

/-- The diagnostics of a file, if it has any. -/
def get? (s : DiagnosticSet) (path : Path) : Option (List Diagnostic) :=
  (s.files.find? fun file => file.1 ≈ path).map (·.2)

/-- Whether a file has diagnostics. -/
def contains (s : DiagnosticSet) (path : Path) : Bool :=
  s.files.any fun file => file.1 ≈ path

/-- The files, in order. -/
def paths (s : DiagnosticSet) : List Path := s.files.map (·.1)

/-- Whether there is no file. -/
def isEmpty (s : DiagnosticSet) : Bool := s.files.isEmpty

/-- The number of diagnostics. -/
def total (s : DiagnosticSet) : Nat := s.files.foldr (fun file n => file.2.length + n) 0

/-! ## Whole sets -/

/-- The set of a list of diagnostics, each under the path it carries. -/
def aggregate (ds : List Diagnostic) : DiagnosticSet :=
  ds.foldl (fun s d => s.push d.path d) empty

/-- The set with every file seen from `root`; files that become one are joined in order. -/
def rebase (s : DiagnosticSet) (root : Path) : DiagnosticSet :=
  s.files.foldl (fun rebased file => rebased.append (root.join file.1) file.2) empty

/-- Whether two files have equivalent paths and the same diagnostics up to the spelling of paths. -/
def sameFile (f g : Path × List Diagnostic) : Bool :=
  f.1 ≈ g.1 && f.2.length == g.2.length && (f.2.zip g.2).all fun (d, e) => d.Same e

/-- Whether two sets are equal up to the spelling of paths, with the files in the same order. -/
def same (s t : DiagnosticSet) : Bool :=
  s.files.length == t.files.length && (s.files.zip t.files).all fun (f, g) => sameFile f g

/-! ## Small facts -/

@[simp] theorem append_nil (s : DiagnosticSet) (path : Path) : s.append path [] = s := rfl

theorem push_eq_append (s : DiagnosticSet) (path : Path) (d : Diagnostic) :
    s.push path d = s.append path [d] := rfl

end DiagnosticSet
end NoticeServer
