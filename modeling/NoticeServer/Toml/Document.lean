import NoticeServer.Toml.Statement

/-!
# `NoticeServer.Toml.Document` — putting the tables of a document together

No key is given twice. A table is opened by one header at most, dotted keys extend only tables that
dotted keys made, and an inline table is complete where it stands. While a document is put together, each
table therefore remembers how it came to be (`Origin`).
-/

namespace NoticeServer
namespace Toml

/-- How a table came to be: on the way to another header's table, by its own header, or by a dotted
key. -/
inductive Origin where
  | passing
  | header
  | dotted
  deriving DecidableEq, Repr

/-- What a key holds while a document is read. Of an array of tables the last is first. -/
inductive Node where
  | value (v : Toml)
  | table (origin : Origin) (entries : List (String × Node))
  | tables (items : List (List (String × Node)))
  deriving Repr, Inhabited

/-- The entries of a table. -/
abbrev Entries := List (String × Node)

/-- The entries with that of a key replaced. -/
def putEntry (key : String) (node : Node) : Entries → Entries
  | [] => [(key, node)]
  | e :: entries => if e.1 = key then (key, node) :: entries else e :: putEntry key node entries

/-! ## Assignments -/

/-- Gives a value to a dotted key, in a table that dotted keys have led to. -/
def assignDotted? (value : Toml) : (path : List String) → Entries → Option Entries
  | [], _ => none
  | [key], entries =>
    match entries.lookup key with
    | none => some (putEntry key (.value value) entries)
    | some _ => none
  | key :: next :: path, entries =>
    match entries.lookup key with
    | none =>
      (assignDotted? value (next :: path) []).map fun inner =>
        putEntry key (.table .dotted inner) entries
    | some (.table origin inner) =>
      if origin = .header ∨ (path.isEmpty ∧ origin ≠ .dotted) then none
      else
        (assignDotted? value (next :: path) inner).map fun inner =>
          putEntry key (.table origin inner) entries
    | some (.tables (last :: items)) =>
      if path.isEmpty then none
      else
        (assignDotted? value (next :: path) last).map fun last =>
          putEntry key (.tables (last :: items)) entries
    | some _ => none

/-! ## Headers -/

/-- Changes the table at a path, making tables on the way. -/
def changeAt? (change : Entries → Option Entries) : (path : List String) → Entries → Option Entries
  | [], entries => change entries
  | key :: path, entries =>
    match entries.lookup key with
    | none => (changeAt? change path []).map fun inner => putEntry key (.table .passing inner) entries
    | some (.table origin inner) =>
      (changeAt? change path inner).map fun inner => putEntry key (.table origin inner) entries
    | some (.tables (last :: items)) =>
      (changeAt? change path last).map fun last => putEntry key (.tables (last :: items)) entries
    | some _ => none

/-- Opens the table of a key. -/
def openKey? (key : String) (entries : Entries) : Option Entries :=
  match entries.lookup key with
  | none => some (putEntry key (.table .header []) entries)
  | some (.table .passing inner) => some (putEntry key (.table .header inner) entries)
  | some _ => none

/-- Opens one more table in the array of a key. -/
def openArrayKey? (key : String) (entries : Entries) : Option Entries :=
  match entries.lookup key with
  | none => some (putEntry key (.tables [[]]) entries)
  | some (.tables items) => some (putEntry key (.tables ([] :: items)) entries)
  | some _ => none

/-- Changes the table that holds the last part of a path. -/
def atLast? (change : String → Entries → Option Entries) (path : List String) (entries : Entries) :
    Option Entries :=
  path.getLast?.bind fun key => changeAt? (change key) path.dropLast entries

/-! ## Values -/

mutual

/-- How many arrays and inline tables are open at once in a value. -/
def RawValue.depth : RawValue → Nat
  | .scalar _ => 0
  | .array items => itemsDepth items + 1
  | .inlineTable entries => inlineDepth entries + 1

/-- The greatest depth of some values. -/
def itemsDepth : List RawValue → Nat
  | [] => 0
  | v :: items => max v.depth (itemsDepth items)

/-- The greatest depth of the values of some entries. -/
def inlineDepth : List (List String × RawValue) → Nat
  | [] => 0
  | (_, v) :: entries => max v.depth (inlineDepth entries)

end

/-- How many arrays and inline tables may be open at once. -/
def maxDepth : Nat := 80

mutual

/-- The value of a node. -/
def Node.toToml : Node → Toml
  | .value v => v
  | .table _ entries => .table (entriesToToml entries)
  | .tables items => .array (tablesToToml items).reverse

/-- The values of entries. -/
def entriesToToml : List (String × Node) → List (String × Toml)
  | [] => []
  | (key, node) :: entries => (key, node.toToml) :: entriesToToml entries

/-- The values of tables in an array. -/
def tablesToToml : List (List (String × Node)) → List Toml
  | [] => []
  | entries :: items => .table (entriesToToml entries) :: tablesToToml items

end

mutual

/-- The value that a raw value stands for. -/
def RawValue.toToml? : RawValue → Option Toml
  | .scalar v => some v
  | .array items => (itemsToToml? items).map .array
  | .inlineTable entries => (inlineToEntries? [] entries).map fun entries => .table (entriesToToml entries)

/-- The values that raw values stand for. -/
def itemsToToml? : List RawValue → Option (List Toml)
  | [] => some []
  | v :: items => v.toToml?.bind fun v => (itemsToToml? items).map (v :: ·)

/-- The entries of an inline table behind those read before. -/
def inlineToEntries? (before : Entries) : List (List String × RawValue) → Option Entries
  | [] => some before
  | (path, v) :: entries =>
    v.toToml?.bind fun v => (assignDotted? v path before).bind fun before =>
      inlineToEntries? before entries

end

/-! ## Documents -/

/-- A document so far: the open table's path, and all entries. -/
structure Assembly where
  path : List String
  entries : Entries

/-- One statement. -/
def Assembly.add? (a : Assembly) : Statement → Option Assembly
  | .table path => (atLast? openKey? path a.entries).map fun entries => ⟨path, entries⟩
  | .arrayTable path => (atLast? openArrayKey? path a.entries).map fun entries => ⟨path, entries⟩
  | .assign path raw =>
    if raw.depth ≤ maxDepth then
      raw.toToml?.bind fun v =>
        (changeAt? (assignDotted? v path) a.path a.entries).map fun entries => { a with entries }
    else none

/-- The entries of the table that a document is. -/
def readDocument? (document : List Char) : Option (List (String × Toml)) :=
  (statements? document).bind fun statements =>
    (statements.foldlM Assembly.add? ⟨[], []⟩).map fun a => entriesToToml a.entries

end Toml
end NoticeServer
