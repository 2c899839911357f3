import Mathlib.Data.List.Basic
import NoticeServer.Toml.Document

/-!
# `NoticeServer.Proofs.Toml.Keys` — no key is given twice

A key is put into a table where it stands already, or where it does not stand, so no table of a document
holds it twice; this goes for the document itself, for inline tables, and for the tables in arrays
(`Toml.keysOnce_readDocument?`). An entry of a table can therefore be looked up
(`UniqueKeys.lookup_eq_some_iff`).
-/

namespace NoticeServer

/-! ## Entries -/

section

variable {α : Type} {entries : List (String × α)}

/-- The keys of entries differ. -/
def UniqueKeys (entries : List (String × α)) : Prop := (entries.map Prod.fst).Nodup

theorem uniqueKeys_cons_iff {e : String × α} :
    UniqueKeys (e :: entries) ↔ (∀ f ∈ entries, f.1 ≠ e.1) ∧ UniqueKeys entries := by
  rw [UniqueKeys, List.map_cons, List.nodup_cons]
  refine and_congr_left' ⟨fun h f hf hkey => h (hkey ▸ List.mem_map_of_mem hf), fun h hmem => ?_⟩
  obtain ⟨f, hf, hkey⟩ := List.mem_map.mp hmem
  exact h f hf hkey

theorem lookup_cons_eq (key : String) (e : String × α) :
    (e :: entries).lookup key = if key = e.1 then some e.2 else entries.lookup key := by
  rw [List.lookup_cons]
  by_cases hkey : key = e.1
  · simp [hkey]
  · rw [if_neg hkey, beq_eq_false_iff_ne.mpr hkey]

/-- What is found is an entry. -/
theorem mem_of_lookup_eq_some {key : String} {v : α} (h : entries.lookup key = some v) :
    (key, v) ∈ entries := by
  obtain ⟨front, back, rfl, -⟩ := List.lookup_eq_some_iff.mp h
  exact List.mem_append_cons_self

/-- **Looking up** finds every entry, if the keys differ. -/
theorem UniqueKeys.lookup_eq_some_iff (h : UniqueKeys entries) {key : String} {v : α} :
    entries.lookup key = some v ↔ (key, v) ∈ entries := by
  refine ⟨mem_of_lookup_eq_some, fun hmem => ?_⟩
  induction entries with
  | nil => cases hmem
  | cons e entries ih =>
    obtain ⟨hfirst, hrest⟩ := uniqueKeys_cons_iff.mp h
    rw [lookup_cons_eq]
    rcases List.mem_cons.mp hmem with rfl | hmem
    · exact if_pos rfl
    · rw [if_neg (hfirst _ hmem)]
      exact ih hrest hmem

end

namespace Toml

/-! ## Values, nodes and tables -/

/-- A value whose tables, however deep, have no key twice. -/
inductive KeysOnce : Toml → Prop where
  | string (s : String) : KeysOnce (.string s)
  | integer (n : Int) : KeysOnce (.integer n)
  | float (inRange : Bool) : KeysOnce (.float inRange)
  | date : KeysOnce .date
  | bool (b : Bool) : KeysOnce (.bool b)
  | array (items : List Toml) (once : ∀ v ∈ items, KeysOnce v) : KeysOnce (.array items)
  | table (entries : List (String × Toml)) (unique : UniqueKeys entries)
      (once : ∀ e ∈ entries, KeysOnce e.2) : KeysOnce (.table entries)

/-- A node whose tables have no key twice. -/
inductive Node.KeysOnce : Node → Prop where
  | value (v : Toml) (once : v.KeysOnce) : KeysOnce (.value v)
  | table (origin : Origin) (entries : Entries) (unique : UniqueKeys entries)
      (once : ∀ e ∈ entries, KeysOnce e.2) : KeysOnce (.table origin entries)
  | tables (items : List Entries) (unique : ∀ entries ∈ items, UniqueKeys entries)
      (once : ∀ entries ∈ items, ∀ e ∈ entries, KeysOnce e.2) : KeysOnce (.tables items)

/-- A table that is being put together, with no key twice in it or below. -/
structure EntriesOnce (entries : Entries) : Prop where
  unique : UniqueKeys entries
  once : ∀ e ∈ entries, e.2.KeysOnce

theorem keysOnce_table_iff {entries : List (String × Toml)} :
    (Toml.table entries).KeysOnce ↔ UniqueKeys entries ∧ ∀ e ∈ entries, e.2.KeysOnce := by
  constructor
  · rintro (_ | _ | _ | _ | _ | _ | ⟨_, hunique, honce⟩)
    exact ⟨hunique, honce⟩
  · exact fun h => .table entries h.1 h.2

theorem entriesOnce_nil : EntriesOnce [] := ⟨List.nodup_nil, nofun⟩

theorem Node.keysOnce_table_iff {origin : Origin} {entries : Entries} :
    (Node.table origin entries).KeysOnce ↔ EntriesOnce entries := by
  constructor
  · rintro (_ | ⟨_, _, hunique, honce⟩ | _)
    exact ⟨hunique, honce⟩
  · exact fun h => .table origin entries h.unique h.once

theorem Node.keysOnce_tables_iff {items : List Entries} :
    (Node.tables items).KeysOnce ↔ ∀ entries ∈ items, EntriesOnce entries := by
  constructor
  · rintro (_ | _ | ⟨_, hunique, honce⟩) entries hentries
    exact ⟨hunique entries hentries, honce entries hentries⟩
  · exact fun h => .tables items (fun entries he => (h entries he).unique) fun entries he => (h entries he).once

/-! ## Putting tables together -/

theorem mem_putEntry {key : String} {node : Node} {entries : Entries} {e : String × Node}
    (h : e ∈ putEntry key node entries) : e = (key, node) ∨ e ∈ entries := by
  induction entries with
  | nil => exact .inl (List.mem_singleton.mp h)
  | cons f entries ih =>
    rw [putEntry] at h
    split at h
    · exact (List.mem_cons.mp h).imp_right (List.mem_cons_of_mem f)
    · rcases List.mem_cons.mp h with rfl | h
      · exact .inr List.mem_cons_self
      · exact (ih h).imp_right (List.mem_cons_of_mem f)

theorem uniqueKeys_putEntry {entries : Entries} (h : UniqueKeys entries) (key : String) (node : Node) :
    UniqueKeys (putEntry key node entries) := by
  induction entries with
  | nil => exact uniqueKeys_cons_iff.mpr ⟨nofun, h⟩
  | cons f entries ih =>
    obtain ⟨hfirst, hrest⟩ := uniqueKeys_cons_iff.mp h
    rw [putEntry]
    split
    · next hkey => exact uniqueKeys_cons_iff.mpr ⟨fun e he => hkey ▸ hfirst e he, hrest⟩
    · next hkey =>
      refine uniqueKeys_cons_iff.mpr ⟨fun e he => ?_, ih hrest⟩
      rcases mem_putEntry he with rfl | he
      · exact Ne.symm hkey
      · exact hfirst e he

variable {entries result : Entries}

theorem EntriesOnce.putEntry (h : EntriesOnce entries) (key : String) {node : Node} (hnode : node.KeysOnce) :
    EntriesOnce (putEntry key node entries) where
  unique := uniqueKeys_putEntry h.unique key node
  once e he := by
    rcases mem_putEntry he with rfl | he
    · exact hnode
    · exact h.once e he

theorem EntriesOnce.of_lookup (h : EntriesOnce entries) {key : String} {node : Node}
    (hlookup : entries.lookup key = some node) : node.KeysOnce :=
  h.once _ (mem_of_lookup_eq_some hlookup)

/-- Tables with the last one changed. -/
theorem keysOnce_tables_cons {last last' : Entries} {items : List Entries}
    (h : (Node.tables (last :: items)).KeysOnce) (hlast : EntriesOnce last') :
    (Node.tables (last' :: items)).KeysOnce := by
  obtain ⟨-, hitems⟩ := List.forall_mem_cons.mp (Node.keysOnce_tables_iff.mp h)
  exact Node.keysOnce_tables_iff.mpr (List.forall_mem_cons.mpr ⟨hlast, hitems⟩)

/-- The last of some tables. -/
theorem entriesOnce_last {last : Entries} {items : List Entries}
    (h : (Node.tables (last :: items)).KeysOnce) : EntriesOnce last :=
  (List.forall_mem_cons.mp (Node.keysOnce_tables_iff.mp h)).1

/-- **An assignment** gives no key twice. -/
theorem entriesOnce_assignDotted? {value : Toml} (hvalue : value.KeysOnce) {path : List String}
    (h : EntriesOnce entries) (hassign : assignDotted? value path entries = some result) :
    EntriesOnce result := by
  induction path generalizing entries result with
  | nil => cases hassign
  | cons key path ih =>
    cases path with
    | nil =>
      rw [assignDotted?] at hassign
      split at hassign
      · cases hassign
        exact h.putEntry key (.value value hvalue)
      · cases hassign
    | cons next path =>
      rw [assignDotted?] at hassign
      split at hassign
      · obtain ⟨inner, hinner, rfl⟩ := Option.map_eq_some_iff.mp hassign
        exact h.putEntry key (Node.keysOnce_table_iff.mpr (ih entriesOnce_nil hinner))
      · next origin inner hlookup =>
        split at hassign
        · cases hassign
        · obtain ⟨inner', hinner, rfl⟩ := Option.map_eq_some_iff.mp hassign
          have hold := Node.keysOnce_table_iff.mp (h.of_lookup hlookup)
          exact h.putEntry key (Node.keysOnce_table_iff.mpr (ih hold hinner))
      · next last items hlookup =>
        split at hassign
        · cases hassign
        · obtain ⟨last', hlast, rfl⟩ := Option.map_eq_some_iff.mp hassign
          have hold := h.of_lookup hlookup
          exact h.putEntry key (keysOnce_tables_cons hold (ih (entriesOnce_last hold) hlast))
      · cases hassign

/-- **A change somewhere below** gives no key twice, if it gives none twice where it is made. -/
theorem entriesOnce_changeAt? {change : Entries → Option Entries}
    (hchange : ∀ {before after}, EntriesOnce before → change before = some after → EntriesOnce after)
    {path : List String} (h : EntriesOnce entries) (hresult : changeAt? change path entries = some result) :
    EntriesOnce result := by
  induction path generalizing entries result with
  | nil => exact hchange h hresult
  | cons key path ih =>
    rw [changeAt?] at hresult
    split at hresult
    · obtain ⟨inner, hinner, rfl⟩ := Option.map_eq_some_iff.mp hresult
      exact h.putEntry key (Node.keysOnce_table_iff.mpr (ih entriesOnce_nil hinner))
    · next origin inner hlookup =>
      obtain ⟨inner', hinner, rfl⟩ := Option.map_eq_some_iff.mp hresult
      have hold := Node.keysOnce_table_iff.mp (h.of_lookup hlookup)
      exact h.putEntry key (Node.keysOnce_table_iff.mpr (ih hold hinner))
    · next last items hlookup =>
      obtain ⟨last', hlast, rfl⟩ := Option.map_eq_some_iff.mp hresult
      have hold := h.of_lookup hlookup
      exact h.putEntry key (keysOnce_tables_cons hold (ih (entriesOnce_last hold) hlast))
    · cases hresult

theorem entriesOnce_openKey? {key : String} (h : EntriesOnce entries)
    (hopen : openKey? key entries = some result) : EntriesOnce result := by
  unfold openKey? at hopen
  split at hopen
  · cases hopen
    exact h.putEntry key (Node.keysOnce_table_iff.mpr entriesOnce_nil)
  · next inner hlookup =>
    cases hopen
    exact h.putEntry key (Node.keysOnce_table_iff.mpr (Node.keysOnce_table_iff.mp (h.of_lookup hlookup)))
  · cases hopen

theorem entriesOnce_openArrayKey? {key : String} (h : EntriesOnce entries)
    (hopen : openArrayKey? key entries = some result) : EntriesOnce result := by
  unfold openArrayKey? at hopen
  split at hopen
  · cases hopen
    exact h.putEntry key (Node.keysOnce_tables_iff.mpr (List.forall_mem_singleton.mpr entriesOnce_nil))
  · next items hlookup =>
    cases hopen
    have hold := Node.keysOnce_tables_iff.mp (h.of_lookup hlookup)
    exact h.putEntry key (Node.keysOnce_tables_iff.mpr (List.forall_mem_cons.mpr ⟨entriesOnce_nil, hold⟩))
  · cases hopen

/-- The change of a header is made in the table that the path leads to. -/
theorem entriesOnce_atLast? {change : String → Entries → Option Entries}
    (hchange : ∀ {key before after}, EntriesOnce before → change key before = some after → EntriesOnce after)
    {path : List String} (h : EntriesOnce entries) (hresult : atLast? change path entries = some result) :
    EntriesOnce result := by
  obtain ⟨key, -, hresult⟩ := Option.bind_eq_some_iff.mp hresult
  exact entriesOnce_changeAt? hchange h hresult

/-! ## Values -/

/-- A value with scalars that have no key twice, as those that are read have no key at all. -/
inductive RawValue.ScalarsOnce : RawValue → Prop where
  | scalar (v : Toml) (once : v.KeysOnce) : ScalarsOnce (.scalar v)
  | array (items : List RawValue) (once : ∀ v ∈ items, ScalarsOnce v) : ScalarsOnce (.array items)
  | inlineTable (entries : List (List String × RawValue)) (once : ∀ e ∈ entries, ScalarsOnce e.2) :
      ScalarsOnce (.inlineTable entries)

theorem keysOnce_ofScalar? {text : List Char} {v : Toml} (h : ofScalar? text = some v) : v.KeysOnce := by
  unfold ofScalar? at h
  split at h
  · cases h
    exact .bool true
  split at h
  · cases h
    exact .bool false
  split at h
  · cases h
    exact .date
  split at h
  · cases h
    exact .integer _
  · obtain ⟨inRange, -, rfl⟩ := Option.map_eq_some_iff.mp h
    exact .float inRange

theorem keysOnce_readScalar? {text rest : List Char} {v : Toml} (h : readScalar? text = some (v, rest)) :
    v.KeysOnce := by
  -- one word, or a date and a time
  have hword : ∀ {word behind}, (ofScalar? word).map (fun v => (v, behind)) = some (v, rest) → v.KeysOnce := by
    intro word behind hmap
    obtain ⟨w, hw, hpair⟩ := Option.map_eq_some_iff.mp hmap
    cases hpair
    exact keysOnce_ofScalar? hw
  unfold readScalar? at h
  dsimp only at h
  split at h
  · split at h
    · exact hword h
    · exact hword h
  · exact hword h

/-- What the readers of values, items and entries give with this much fuel. -/
structure ReadsScalarsOnce (fuel : Nat) : Prop where
  value : ∀ {text v rest}, readValue? fuel text = some (v, rest) → v.ScalarsOnce
  items : ∀ {text items rest}, readItems? fuel text = some (items, rest) → ∀ v ∈ items, v.ScalarsOnce
  entries : ∀ {text entries rest}, readEntries? fuel text = some (entries, rest) →
    ∀ e ∈ entries, e.2.ScalarsOnce

namespace ReadsScalarsOnce

variable {fuel : Nat} {text rest : List Char}

theorem value_succ (h : ReadsScalarsOnce fuel) {v : RawValue}
    (hread : readValue? (fuel + 1) text = some (v, rest)) : v.ScalarsOnce := by
  cases text with
  | nil => cases hread
  | cons c text =>
    rw [readValue?] at hread
    split at hread
    · obtain ⟨⟨items, behind⟩, hitems, hpair⟩ := Option.map_eq_some_iff.mp hread
      cases hpair
      exact .array items (h.items hitems)
    split at hread
    · obtain ⟨⟨entries, behind⟩, hentries, hpair⟩ := Option.map_eq_some_iff.mp hread
      cases hpair
      exact .inlineTable entries (h.entries hentries)
    split at hread
    · obtain ⟨⟨s, behind⟩, -, hpair⟩ := Option.map_eq_some_iff.mp hread
      cases hpair
      exact .scalar _ (.string s)
    · obtain ⟨⟨w, behind⟩, hscalar, hpair⟩ := Option.map_eq_some_iff.mp hread
      cases hpair
      exact .scalar w (keysOnce_readScalar? hscalar)

theorem items_succ (h : ReadsScalarsOnce fuel) {items : List RawValue}
    (hread : readItems? (fuel + 1) text = some (items, rest)) : ∀ v ∈ items, v.ScalarsOnce := by
  rw [readItems?] at hread
  split at hread
  · cases hread
    exact nofun
  · obtain ⟨⟨v, behind⟩, hfirst, hread⟩ := Option.bind_eq_some_iff.mp hread
    have hv := h.value hfirst
    dsimp only at hread
    split at hread
    · obtain ⟨⟨more, last⟩, hmore, hpair⟩ := Option.map_eq_some_iff.mp hread
      cases hpair
      exact List.forall_mem_cons.mpr ⟨hv, h.items hmore⟩
    · cases hread
      exact List.forall_mem_singleton.mpr hv
    · cases hread

theorem entries_succ (h : ReadsScalarsOnce fuel) {entries : List (List String × RawValue)}
    (hread : readEntries? (fuel + 1) text = some (entries, rest)) : ∀ e ∈ entries, e.2.ScalarsOnce := by
  rw [readEntries?] at hread
  split at hread
  · cases hread
    exact nofun
  · obtain ⟨⟨path, behind⟩, -, hread⟩ := Option.bind_eq_some_iff.mp hread
    dsimp only at hread
    split at hread
    · obtain ⟨⟨v, behind'⟩, hfirst, hread⟩ := Option.bind_eq_some_iff.mp hread
      have hv := h.value hfirst
      dsimp only at hread
      split at hread
      · obtain ⟨⟨more, last⟩, hmore, hpair⟩ := Option.map_eq_some_iff.mp hread
        cases hpair
        exact List.forall_mem_cons.mpr ⟨hv, h.entries hmore⟩
      · cases hread
        exact List.forall_mem_singleton.mpr hv
      · cases hread
    · cases hread

end ReadsScalarsOnce

/-- **Values are read** without a key in their scalars. -/
theorem readsScalarsOnce (fuel : Nat) : ReadsScalarsOnce fuel := by
  induction fuel with
  | zero => exact ⟨nofun, nofun, nofun⟩
  | succ fuel ih => exact ⟨ih.value_succ, ih.items_succ, ih.entries_succ⟩

/-! ## From nodes and raw values to values -/

theorem entriesToToml_eq (entries : Entries) :
    entriesToToml entries = entries.map fun e => (e.1, e.2.toToml) := by
  induction entries with
  | nil => rfl
  | cons e entries ih => rw [entriesToToml, List.map_cons, ih]

theorem tablesToToml_eq (items : List Entries) :
    tablesToToml items = items.map fun entries => .table (entriesToToml entries) := by
  induction items with
  | nil => rfl
  | cons entries items ih => rw [tablesToToml, List.map_cons, ih]

/-- The table of entries, if their values have no key twice. -/
theorem keysOnce_table_of_values (hunique : UniqueKeys entries) (h : ∀ e ∈ entries, e.2.toToml.KeysOnce) :
    (Toml.table (entriesToToml entries)).KeysOnce := by
  rw [entriesToToml_eq]
  refine .table _ ?_ (List.forall_mem_map.mpr h)
  rwa [UniqueKeys, List.map_map]

theorem keysOnce_toToml {node : Node} (h : node.KeysOnce) : node.toToml.KeysOnce := by
  induction h with
  | value v once => exact once
  | table origin entries unique _ ih => exact keysOnce_table_of_values unique ih
  | tables items unique _ ih =>
    refine .array _ fun v hv => ?_
    rw [List.mem_reverse, tablesToToml_eq] at hv
    obtain ⟨entries, hentries, rfl⟩ := List.mem_map.mp hv
    exact keysOnce_table_of_values (unique entries hentries) (ih entries hentries)

theorem EntriesOnce.keysOnce_table (h : EntriesOnce entries) :
    (Toml.table (entriesToToml entries)).KeysOnce :=
  keysOnce_table_of_values h.unique fun e he => keysOnce_toToml (h.once e he)

theorem keysOnce_itemsToToml? {items : List RawValue} {values : List Toml}
    (h : ∀ raw ∈ items, ∀ v, raw.toToml? = some v → v.KeysOnce) (hvalues : itemsToToml? items = some values) :
    ∀ v ∈ values, v.KeysOnce := by
  induction items generalizing values with
  | nil =>
    cases hvalues
    exact nofun
  | cons raw items ih =>
    obtain ⟨hraw, hitems⟩ := List.forall_mem_cons.mp h
    obtain ⟨v, hv, hvalues⟩ := Option.bind_eq_some_iff.mp hvalues
    obtain ⟨more, hmore, rfl⟩ := Option.map_eq_some_iff.mp hvalues
    exact List.forall_mem_cons.mpr ⟨hraw v hv, ih hitems hmore⟩

theorem entriesOnce_inlineToEntries? {inline : List (List String × RawValue)} (hentries : EntriesOnce entries)
    (h : ∀ e ∈ inline, ∀ v, e.2.toToml? = some v → v.KeysOnce)
    (hresult : inlineToEntries? entries inline = some result) : EntriesOnce result := by
  induction inline generalizing entries with
  | nil =>
    cases hresult
    exact hentries
  | cons e inline ih =>
    obtain ⟨hvalue, hinline⟩ := List.forall_mem_cons.mp h
    obtain ⟨v, hv, hresult⟩ := Option.bind_eq_some_iff.mp hresult
    obtain ⟨put, hput, hresult⟩ := Option.bind_eq_some_iff.mp hresult
    exact ih (entriesOnce_assignDotted? (hvalue v hv) hentries hput) hinline hresult

/-- **The value of a raw value** has no key twice. -/
theorem keysOnce_toToml? {raw : RawValue} (h : raw.ScalarsOnce) {v : Toml} (hv : raw.toToml? = some v) :
    v.KeysOnce := by
  induction h generalizing v with
  | scalar w once =>
    cases hv
    exact once
  | array items _ ih =>
    rw [RawValue.toToml?] at hv
    obtain ⟨values, hvalues, rfl⟩ := Option.map_eq_some_iff.mp hv
    exact .array values (keysOnce_itemsToToml? (fun raw hraw v => ih raw hraw) hvalues)
  | inlineTable inline _ ih =>
    rw [RawValue.toToml?] at hv
    obtain ⟨put, hput, rfl⟩ := Option.map_eq_some_iff.mp hv
    exact (entriesOnce_inlineToEntries? entriesOnce_nil (fun e he v => ih e he) hput).keysOnce_table

/-! ## Documents -/

/-- A statement whose value, if it has one, has no key in its scalars. -/
def Statement.ScalarsOnce : Statement → Prop
  | .assign _ raw => raw.ScalarsOnce
  | _ => True

theorem scalarsOnce_readStatement? {fuel : Nat} {text rest : List Char} {s : Statement}
    (h : readStatement? fuel text = some (s, rest)) : s.ScalarsOnce := by
  unfold readStatement? at h
  split at h
  · obtain ⟨⟨path, behind⟩, -, h⟩ := Option.bind_eq_some_iff.mp h
    dsimp only at h
    split at h
    · obtain ⟨_, -, hpair⟩ := Option.map_eq_some_iff.mp h
      cases hpair
      trivial
    · cases h
  · obtain ⟨⟨path, behind⟩, -, h⟩ := Option.bind_eq_some_iff.mp h
    dsimp only at h
    split at h
    · obtain ⟨_, -, hpair⟩ := Option.map_eq_some_iff.mp h
      cases hpair
      trivial
    · cases h
  · obtain ⟨⟨path, behind⟩, -, h⟩ := Option.bind_eq_some_iff.mp h
    dsimp only at h
    split at h
    · obtain ⟨⟨raw, behind'⟩, hraw, h⟩ := Option.bind_eq_some_iff.mp h
      obtain ⟨_, -, hpair⟩ := Option.map_eq_some_iff.mp h
      cases hpair
      exact (readsScalarsOnce fuel).value hraw
    · cases h

theorem scalarsOnce_readStatements? {bound fuel : Nat} {text : List Char} {found : List Statement}
    (h : readStatements? bound fuel text = some found) : ∀ s ∈ found, s.ScalarsOnce := by
  induction fuel generalizing text found with
  | zero => cases h
  | succ fuel ih =>
    rw [readStatements?] at h
    split at h
    · cases h
      exact nofun
    · obtain ⟨⟨s, rest⟩, hs, h⟩ := Option.bind_eq_some_iff.mp h
      obtain ⟨more, hmore, rfl⟩ := Option.map_eq_some_iff.mp h
      exact List.forall_mem_cons.mpr ⟨scalarsOnce_readStatement? hs, ih hmore⟩

/-- **A statement** gives no key twice. -/
theorem entriesOnce_add? {a b : Assembly} {s : Statement} (hs : s.ScalarsOnce) (h : EntriesOnce a.entries)
    (hadd : a.add? s = some b) : EntriesOnce b.entries := by
  cases s with
  | table path =>
    obtain ⟨result, hresult, rfl⟩ := Option.map_eq_some_iff.mp hadd
    exact entriesOnce_atLast? entriesOnce_openKey? h hresult
  | arrayTable path =>
    obtain ⟨result, hresult, rfl⟩ := Option.map_eq_some_iff.mp hadd
    exact entriesOnce_atLast? entriesOnce_openArrayKey? h hresult
  | assign path raw =>
    rw [Assembly.add?] at hadd
    split at hadd
    · obtain ⟨v, hv, hadd⟩ := Option.bind_eq_some_iff.mp hadd
      obtain ⟨result, hresult, rfl⟩ := Option.map_eq_some_iff.mp hadd
      have hvalue := keysOnce_toToml? hs hv
      exact entriesOnce_changeAt? (entriesOnce_assignDotted? hvalue) h hresult
    · cases hadd

theorem entriesOnce_foldlM {a b : Assembly} {found : List Statement} (hfound : ∀ s ∈ found, s.ScalarsOnce)
    (h : EntriesOnce a.entries) (hresult : found.foldlM Assembly.add? a = some b) : EntriesOnce b.entries := by
  induction found generalizing a with
  | nil =>
    cases hresult
    exact h
  | cons s found ih =>
    obtain ⟨hs, hfound⟩ := List.forall_mem_cons.mp hfound
    rw [List.foldlM_cons] at hresult
    obtain ⟨next, hnext, hresult⟩ := Option.bind_eq_some_iff.mp hresult
    exact ih hfound (entriesOnce_add? hs h hnext) hresult

/-- **No document gives a key twice.** -/
theorem keysOnce_readDocument? {document : List Char} {entries : List (String × Toml)}
    (h : readDocument? document = some entries) : (Toml.table entries).KeysOnce := by
  obtain ⟨found, hfound, h⟩ := Option.bind_eq_some_iff.mp h
  obtain ⟨a, ha, rfl⟩ := Option.map_eq_some_iff.mp h
  have hscalars : ∀ s ∈ found, s.ScalarsOnce := by
    unfold statements? at hfound
    dsimp only at hfound
    split at hfound
    · exact scalarsOnce_readStatements? hfound
    · cases hfound
  exact (entriesOnce_foldlM hscalars entriesOnce_nil ha).keysOnce_table

end Toml
end NoticeServer
