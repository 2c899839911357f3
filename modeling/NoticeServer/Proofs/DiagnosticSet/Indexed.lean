import NoticeServer.Proofs.DiagnosticSet.Rebase

/-!
# `NoticeServer.Proofs.DiagnosticSet.Indexed` — sets with an index of their files

The file of a path can be found through an index that holds the place of each file in the list, instead of
through a search. Whatever is done to such an `IndexedSet`, the place in the index is the one that a search
finds, so it is the place of a file, and both kinds of sets have the same files.

An index that points past the list would make an operation fail, so the operations on indexed sets have no
result then. `IndexedSet.Represents` is the one condition that ties the index to the files; every change keeps
it, and `DiagnosticSet.representation_kept` draws the conclusion for all sets that are built by changes.
-/

namespace NoticeServer

/-! ## Sets with an index -/

/-- Diagnostics by file, with the place of each file. -/
structure IndexedSet where
  files : List (Path × List Diagnostic)
  index : List (Path × Nat)

/-- A place at which no file stands. -/
structure OutOfBounds where
  slot : Nat

namespace IndexedSet

/-- The set without files. -/
def empty : IndexedSet := ⟨[], []⟩

/-- The place of a path in the index. -/
def slot? (s : IndexedSet) (path : Path) : Option Nat := Path.lookup s.index path

/-- The file at a place. -/
def fileAt (s : IndexedSet) (slot : Nat) : Except OutOfBounds (Path × List Diagnostic) :=
  match s.files[slot]? with
  | some file => .ok file
  | none => .error ⟨slot⟩

/-- Puts one diagnostic behind those of its file. -/
def push (s : IndexedSet) (path : Path) (d : Diagnostic) : Except OutOfBounds IndexedSet :=
  match s.slot? path with
  | some slot => (s.fileAt slot).map fun file =>
    { s with files := s.files.set slot (file.1, file.2 ++ [d]) }
  | none => .ok ⟨s.files ++ [(path, [d])], (path, s.files.length) :: s.index⟩

/-- The diagnostics of a file, if it has any. -/
def get? (s : IndexedSet) (path : Path) : Except OutOfBounds (Option (List Diagnostic)) :=
  match s.slot? path with
  | some slot => (s.fileAt slot).map fun file => some file.2
  | none => .ok none

/-- Whether a file has diagnostics. -/
def contains (s : IndexedSet) (path : Path) : Bool := (s.slot? path).isSome

/-- Puts diagnostics behind those of their file, one by one. -/
def pushAll (s : IndexedSet) (path : Path) (items : List Diagnostic) : Except OutOfBounds IndexedSet :=
  items.foldlM (fun s d => s.push path d) s

/-- The set with every file seen from `root`. -/
def rebase (s : IndexedSet) (root : Path) : Except OutOfBounds IndexedSet :=
  s.files.foldlM (fun rebased file => rebased.pushAll (root.join file.1) file.2) empty

/-! ## Index and files -/

/-- The files are those of a set, and the place of a path is where a search finds its file. -/
structure Represents (ix : IndexedSet) (s : DiagnosticSet) : Prop where
  files_eq : ix.files = s.files
  slot_eq : ∀ k, ix.slot? k = s.files.findIdx? fun file => file.1 ≈ k

variable {ix : IndexedSet} {s : DiagnosticSet} {path : Path}

theorem represents_empty : empty.Represents .empty := ⟨rfl, fun _ => rfl⟩

theorem fileAt_of_getElem? {slot : Nat} {file : Path × List Diagnostic} (h : ix.files[slot]? = some file) :
    ix.fileAt slot = .ok file := by
  rw [fileAt, h]

/-- A path that is not there has no place. -/
theorem Represents.slot?_of_not_contains (h : ix.Represents s) (hs : s.contains path = false) :
    ix.slot? path = none := by
  rw [h.slot_eq, List.findIdx?_eq_none_iff]
  exact fun f hf => Bool.eq_false_iff.mpr (List.any_eq_false.mp hs f hf)

/-- The place of a path that is there is that of its file. -/
theorem Represents.slot?_of_split (h : ix.Represents s) {before after : List (Path × List Diagnostic)}
    {file : Path × List Diagnostic} (hs : s.files = before ++ file :: after)
    (hbefore : ∀ f ∈ before, ¬ f.1 ≈ path) (hfile : file.1 ≈ path) :
    ix.slot? path = some before.length ∧ ix.fileAt before.length = .ok file := by
  refine ⟨?_, fileAt_of_getElem? ?_⟩
  · have hnone : before.findIdx? (fun f => f.1 ≈ path) = none := by
      rw [List.findIdx?_eq_none_iff]
      exact fun f hf => decide_eq_false (hbefore f hf)
    rw [h.slot_eq, hs, List.findIdx?_append, hnone, List.findIdx?_cons, if_pos (decide_eq_true hfile)]
    simp
  · rw [h.files_eq, hs]
    simp

/-- **A lookup through the index** finds what a search finds, and never fails. -/
theorem Represents.get?_eq (h : ix.Represents s) (path : Path) : ix.get? path = .ok (s.get? path) := by
  cases hs : s.contains path with
  | false =>
    have hnone : s.get? path = none := Path.lookup_eq_none_iff.mpr hs
    rw [get?, h.slot?_of_not_contains hs, hnone]
  | true =>
    obtain ⟨before, file, after, hfiles, hfile, hbefore⟩ := Path.exists_split_of_keyed hs
    obtain ⟨hslot, hat⟩ := h.slot?_of_split hfiles hbefore hfile
    have hfound : s.get? path = some file.2 := by
      rw [DiagnosticSet.get?_eq_lookup, hfiles]
      exact Path.lookup_split hbefore hfile after
    rw [get?, hslot]
    show (ix.fileAt before.length).map _ = _
    rw [hat, hfound]
    rfl

theorem Represents.contains_eq (h : ix.Represents s) (path : Path) :
    ix.contains path = s.contains path := by
  rw [contains, h.slot_eq, List.findIdx?_isSome]
  rfl

/-- A place is in the index exactly if the file there has the path. -/
theorem Represents.slot?_eq_some_iff (h : ix.Represents s) (hs : s.WellFormed) {slot : Nat} :
    ix.slot? path = some slot ↔ ∃ file, ix.files[slot]? = some file ∧ file.1 ≈ path := by
  rw [h.slot_eq, h.files_eq, List.findIdx?_eq_some_iff_getElem]
  constructor
  · rintro ⟨hslot, hpath, -⟩
    exact ⟨_, List.getElem?_eq_getElem hslot, of_decide_eq_true hpath⟩
  · rintro ⟨file, hfile, hpath⟩
    obtain ⟨hslot, rfl⟩ := List.getElem?_eq_some_iff.mp hfile
    refine ⟨hslot, decide_eq_true hpath, fun i hi hearlier => ?_⟩
    -- an earlier file with the path would be a second one
    have hne := List.pairwise_iff_getElem.mp hs.distinct i slot (Nat.lt_trans hi hslot) hslot hi
    exact hne (Setoid.trans (of_decide_eq_true hearlier) (Setoid.symm hpath))

/-! ## Changes -/

/-- **An addition through the index** is the addition to the set, and never fails. -/
theorem push_represents (h : ix.Represents s) (path : Path) (d : Diagnostic) :
    ∃ next, ix.push path d = .ok next ∧ next.Represents (s.push path d) := by
  rcases s.push_cases path d with
    ⟨before, file, after, hfiles, hfile, hbefore, hpushed⟩ | ⟨hnew, hpushed⟩
  · -- a file that is there: the paths stay as they are, and with them the places
    obtain ⟨hslot, hat⟩ := h.slot?_of_split hfiles hbefore hfile
    refine ⟨{ ix with files := ix.files.set before.length (file.1, file.2 ++ [d]) }, ?_, ?_, ?_⟩
    · rw [push, hslot]
      show (ix.fileAt before.length).map _ = _
      rw [hat]
      rfl
    · show ix.files.set before.length _ = _
      rw [hpushed, h.files_eq, hfiles, List.set_append_right _ _ (Nat.le_refl _), Nat.sub_self,
        List.set_cons_zero]
    · intro k
      have hslots := h.slot_eq k
      rw [hfiles, List.findIdx?_append, List.findIdx?_cons] at hslots
      rw [hpushed, List.findIdx?_append, List.findIdx?_cons]
      exact hslots
  · -- a new file: its place is behind all others
    refine ⟨⟨ix.files ++ [(path, [d])], (path, ix.files.length) :: ix.index⟩, ?_, ?_, ?_⟩
    · rw [push, h.slot?_of_not_contains hnew]
    · rw [hpushed, ← h.files_eq]
    · intro k
      rw [hpushed, List.findIdx?_append, ← h.slot_eq, slot?, Path.lookup_cons, ← h.files_eq,
        List.findIdx?_cons, List.findIdx?_nil]
      show (if path ≈ k then some ix.files.length else ix.slot? k) = (ix.slot? k).or _
      by_cases hk : path ≈ k
      · have hnone : ix.slot? k = none := by
          rw [slot?, ← Path.lookup_congr hk]
          exact h.slot?_of_not_contains hnew
        rw [if_pos hk, if_pos (decide_eq_true hk), hnone, Option.none_or, Option.map_some, Nat.zero_add]
      · rw [if_neg hk, if_neg (decide_eq_false hk ▸ Bool.false_ne_true)]
        exact Option.or_none.symm

theorem pushAll_represents (h : ix.Represents s) (path : Path) (items : List Diagnostic) :
    ∃ next, ix.pushAll path items = .ok next ∧ next.Represents (s.append path items) := by
  induction items generalizing ix s with
  | nil => exact ⟨ix, rfl, h⟩
  | cons d items ih =>
    obtain ⟨first, hfirst, hrepresents⟩ := push_represents h path d
    obtain ⟨next, hnext, hlast⟩ := ih hrepresents
    refine ⟨next, ?_, ?_⟩
    · rw [pushAll, List.foldlM_cons, hfirst]
      exact hnext
    · rwa [DiagnosticSet.push_eq_append, DiagnosticSet.append_append] at hlast

/-- **A set with an index, under a root**, is the set under this root, and building it never fails. -/
theorem rebase_represents (h : ix.Represents s) (root : Path) :
    ∃ next, ix.rebase root = .ok next ∧ next.Represents (s.rebase root) := by
  have hfold (files : List (Path × List Diagnostic)) {ix' : IndexedSet} {s' : DiagnosticSet}
      (h' : ix'.Represents s') :
      ∃ next, files.foldlM (fun rebased file => rebased.pushAll (root.join file.1) file.2) ix' = .ok next ∧
        next.Represents (files.foldl (fun rebased file => rebased.append (root.join file.1) file.2) s') := by
    induction files generalizing ix' s' with
    | nil => exact ⟨ix', rfl, h'⟩
    | cons file files ih =>
      obtain ⟨first, hfirst, hrepresents⟩ := pushAll_represents h' (root.join file.1) file.2
      obtain ⟨next, hnext, hlast⟩ := ih hrepresents
      refine ⟨next, ?_, hlast⟩
      rw [List.foldlM_cons, hfirst]
      exact hnext
  rw [rebase, h.files_eq]
  exact hfold s.files represents_empty

end IndexedSet

/-! ## One change after the other -/

/-- What is done to a set. -/
inductive SetChange where
  | push (path : Path) (d : Diagnostic)
  | rebase (root : Path)

/-- Whether a diagnostic is added. -/
def SetChange.isPush : SetChange → Bool
  | .push .. => true
  | .rebase _ => false

/-- The set behind one change. -/
def DiagnosticSet.change (s : DiagnosticSet) : SetChange → DiagnosticSet
  | .push path d => s.push path d
  | .rebase root => s.rebase root

/-- The set behind changes. -/
def DiagnosticSet.changes (s : DiagnosticSet) (cs : List SetChange) : DiagnosticSet := cs.foldl change s

/-- The set with an index behind one change. -/
def IndexedSet.change (s : IndexedSet) : SetChange → Except OutOfBounds IndexedSet
  | .push path d => s.push path d
  | .rebase root => s.rebase root

/-- The set with an index behind changes. -/
def IndexedSet.changes (s : IndexedSet) (cs : List SetChange) : Except OutOfBounds IndexedSet :=
  cs.foldlM change s

variable {ix : IndexedSet} {s : DiagnosticSet}

namespace IndexedSet

theorem change_represents (h : ix.Represents s) (c : SetChange) :
    ∃ next, ix.change c = .ok next ∧ next.Represents (s.change c) := by
  cases c with
  | push path d => exact push_represents h path d
  | rebase root => exact rebase_represents h root

/-- **Index and files stay in step** through any changes. -/
theorem changes_represents (h : ix.Represents s) (cs : List SetChange) :
    ∃ next, ix.changes cs = .ok next ∧ next.Represents (s.changes cs) := by
  induction cs generalizing ix s with
  | nil => exact ⟨ix, rfl, h⟩
  | cons c cs ih =>
    obtain ⟨first, hfirst, hrepresents⟩ := change_represents h c
    obtain ⟨next, hnext, hlast⟩ := ih hrepresents
    refine ⟨next, ?_, hlast⟩
    rw [changes, List.foldlM_cons, hfirst]
    exact hnext

end IndexedSet

namespace DiagnosticSet

theorem wellFormed_change (h : s.WellFormed) (c : SetChange) : (s.change c).WellFormed := by
  cases c with
  | push path d => exact wellFormed_append h path [d]
  | rebase root => exact wellFormed_rebase s root

theorem wellFormed_changes (h : s.WellFormed) (cs : List SetChange) : (s.changes cs).WellFormed :=
  List.foldlRecOn (motive := WellFormed) cs _ h fun _ h c _ => wellFormed_change h c

/-- A push counts once, and a root changes no count. -/
theorem total_change (s : DiagnosticSet) (c : SetChange) :
    (s.change c).total = s.total + if c.isPush = true then 1 else 0 := by
  cases c with
  | push path d =>
    show (s.append path [d]).total = s.total + 1
    rw [total_eq_length, (s.diagnostics_append path [d]).length_eq, List.length_append, total_eq_length,
      List.length_singleton]
  | rebase root => exact s.total_rebase root

theorem total_changes (s : DiagnosticSet) (cs : List SetChange) :
    (s.changes cs).total = s.total + cs.countP SetChange.isPush := by
  induction cs generalizing s with
  | nil => rfl
  | cons c cs ih =>
    show ((s.change c).changes cs).total = _
    rw [ih, total_change, List.countP_cons]
    omega

/-- **What holds of every set that is built by pushes and roots.** Its files have pairwise different paths,
and each has a diagnostic. A path is there exactly if it is the path of a file, and shows just what this
file has. As many diagnostics are there as were pushed. One more push puts its diagnostic at the end of the
one file that it is for and leaves all else as it is, spelling and order of the paths included, or puts a
new file behind all others. A set with an index that is built so never looks at a place without a file: it
has the same files, each place that it knows for a path is that of the file with this path, and its lookups
and pushes come to the same. -/
theorem representation_kept (cs : List SetChange) :
    let set := empty.changes cs
    (set.files.Pairwise fun f g => ¬ f.1 ≈ g.1) ∧
    (∀ f ∈ set.files, f.2 ≠ []) ∧
    (∀ p, set.contains p = true ↔ ∃ f ∈ set.files, f.1 ≈ p) ∧
    (∀ p items, set.get? p = some items ↔ ∃ f ∈ set.files, f.1 ≈ p ∧ f.2 = items) ∧
    set.total = cs.countP SetChange.isPush ∧
    (∀ p d,
      (∃ before f after, set.files = before ++ f :: after ∧ f.1 ≈ p ∧
        (set.push p d).files = before ++ (f.1, f.2 ++ [d]) :: after) ∨
      (set.contains p = false ∧ (set.push p d).files = set.files ++ [(p, [d])])) ∧
    ∃ indexed, IndexedSet.empty.changes cs = .ok indexed ∧ indexed.files = set.files ∧
      (∀ p slot, indexed.slot? p = some slot ↔ ∃ f, indexed.files[slot]? = some f ∧ f.1 ≈ p) ∧
      (∀ p, indexed.contains p = set.contains p ∧ indexed.get? p = .ok (set.get? p)) ∧
      ∀ p d, ∃ next, indexed.push p d = .ok next ∧ next.files = (set.push p d).files := by
  intro set
  have hset : set.WellFormed := wellFormed_changes wellFormed_empty cs
  obtain ⟨indexed, hbuilt, hindexed⟩ := IndexedSet.changes_represents IndexedSet.represents_empty cs
  refine ⟨hset.distinct, hset.filled, fun p => contains_iff, fun p items => hset.get?_eq_some_iff, ?_, ?_,
    indexed, hbuilt, hindexed.files_eq, fun p slot => hindexed.slot?_eq_some_iff hset,
    fun p => ⟨hindexed.contains_eq p, hindexed.get?_eq p⟩, ?_⟩
  · have htotal := total_changes empty cs
    rwa [show empty.total = 0 from rfl, Nat.zero_add] at htotal
  · intro p d
    rcases set.push_cases p d with ⟨before, f, after, hfiles, hf, -, hpushed⟩ | hnew
    · exact .inl ⟨before, f, after, hfiles, hf, hpushed⟩
    · exact .inr hnew
  · intro p d
    obtain ⟨next, hnext, hrepresents⟩ := IndexedSet.push_represents hindexed p d
    exact ⟨next, hnext, hrepresents.files_eq⟩

/-- One file under four spellings, the last one behind a root, and another file. -/
def spelledChanges : List SetChange :=
  [.push (.ofString "a//b") (report "a//b" 1), .push (.ofString "c") (report "c" 2),
    .push (.ofString "a/./b") (report "a/./b" 3), .push (.ofString "a/b/") (report "a/b/" 4),
    .rebase (.ofString "/r"), .push (.ofString "/r/a/b") (report "a/b" 5)]

theorem representation_spelledChanges :
    let set := empty.changes spelledChanges
    set.files =
      [(.ofString "/r/a//b", [report "a//b" 1, report "a/./b" 3, report "a/b/" 4, report "a/b" 5]),
        (.ofString "/r/c", [report "c" 2])] ∧
    (∃ f ∈ set.files, f.1 ≈ .ofString "/r/a/b/" ∧ f.2 ≠ []) ∧
    set.get? (.ofString "/r/./c") = some [report "c" 2] ∧
    set.total = 5 ∧
    ∃ indexed, IndexedSet.empty.changes spelledChanges = .ok indexed ∧
      indexed.slot? (.ofString "/r/c/") = some 1 := by
  intro set
  obtain ⟨-, hfilled, hcontains, hget, htotal, -, indexed, hbuilt, hfiles, hslots, -⟩ :=
    representation_kept spelledChanges
  have hset : set.files =
      [(.ofString "/r/a//b", [report "a//b" 1, report "a/./b" 3, report "a/b/" 4, report "a/b" 5]),
        (.ofString "/r/c", [report "c" 2])] := by decide +kernel
  have hc : (Path.ofString "/r/c", [report "c" 2]) ∈ set.files := by simp [hset]
  refine ⟨hset, ?_, ?_, htotal, indexed, hbuilt, ?_⟩
  · obtain ⟨f, hf, hpath⟩ := (hcontains (.ofString "/r/a/b/")).mp (by decide +kernel)
    exact ⟨f, hf, hpath, hfilled f hf⟩
  · exact (hget _ _).mpr ⟨_, hc, by decide +kernel, rfl⟩
  · rw [hslots, hfiles, hset]
    exact ⟨_, rfl, by decide +kernel⟩

end DiagnosticSet
end NoticeServer
