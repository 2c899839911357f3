import NoticeServer.Config.Reader
import NoticeServer.Proofs.Toml.Keys

/-!
# `NoticeServer.Proofs.Config.Settings` — settings, one by one

Each setting has a place in a document, a type and a default, and depends on nothing else that stands in the
document: not on the other settings, not on the order, and not on keys that are unknown.

## Contents

* `Setting`, and the seven settings.
* `Setting.WellTyped`, `Setting.Is`: what a table tells of a setting.
* `Setting.setting?_eq_some_iff`: reading one setting.
* `Config.ofToml?_eq_some_iff`: the settings of a table.
* `Config.parse?_setting_by_setting`: the settings of a document.
-/

namespace NoticeServer

open Toml Section

/-! ## Legible values -/

namespace Toml

@[simp] theorem legible_string (s : String) : (Toml.string s).legible = true := by simp [legible]

@[simp] theorem legible_bool (b : Bool) : (Toml.bool b).legible = true := by simp [legible]

theorem legible_array_iff {items : List Toml} :
    (Toml.array items).legible = true ↔ ∀ v ∈ items, v.legible = true := by
  rw [legible]
  induction items with
  | nil => simp [allLegible]
  | cons v items ih => rw [allLegible, Bool.and_eq_true, ih, List.forall_mem_cons]

theorem legible_table_iff {entries : List (String × Toml)} :
    (Toml.table entries).legible = true ↔ ∀ e ∈ entries, e.2.legible = true := by
  rw [legible]
  induction entries with
  | nil => simp [allEntriesLegible]
  | cons e entries ih => rw [allEntriesLegible, Bool.and_eq_true, ih, List.forall_mem_cons]

/-- The integers of 64 bits can all be told. -/
theorem legible_integer {n : Nat} (h : n ≤ 18446744073709551615) : (Toml.integer n).legible = true := by
  rw [legible, isLegibleInteger, Bool.and_eq_true, decide_eq_true_iff, decide_eq_true_iff]
  have hbits : 18446744073709551615 < Nat.pow 2 128 := by decide
  omega

end Toml

/-! ## Settings -/

/-- A setting: its place, its default, and the TOML values of its type. -/
structure Setting (α : Type) where
  table : String
  key : String
  default : α
  allowed : α → Prop
  toToml : α → Toml

/-- A table gives the value `v` to a key of one of its sections. -/
def Gives (entries : List (String × Toml)) (table key : String) (v : Toml) : Prop :=
  ∃ inner, (table, Toml.table inner) ∈ entries ∧ (key, v) ∈ inner

namespace Setting

/-- A setting that is a text. -/
def text (table key : String) (default : String) : Setting String :=
  ⟨table, key, default, fun _ => True, .string⟩

/-- A setting that is a list of texts. -/
def texts (table key : String) (default : List String) : Setting (List String) :=
  ⟨table, key, default, fun _ => True, fun ss => .array (ss.map .string)⟩

/-- A setting that is a number of 64 bits without sign. -/
def number (table key : String) (default : Nat) : Setting Nat :=
  ⟨table, key, default, fun n => n ≤ 18446744073709551615, fun n => .integer n⟩

/-- A setting that is a truth value. -/
def flag (table key : String) (default : Bool) : Setting Bool :=
  ⟨table, key, default, fun _ => True, .bool⟩

/-! The seven settings. -/

def command := text "analyzer" "command" "nudge"
def format := text "analyzer" "format" "github"
def arguments := texts "analyzer" "args" []
def timeoutSeconds := number "analyzer" "timeout_secs" 60
def languages := texts "scan" "languages" ["go", "rust", "c"]
def startActive := flag "scan" "start_active" false
def strictSpans := flag "scan" "strict_spans" false

variable {α : Type}

/-- The value for the setting, if there is one, is of its type. -/
def WellTyped (s : Setting α) (entries : List (String × Toml)) : Prop :=
  ∀ v, Gives entries s.table s.key v → ∃ a, s.allowed a ∧ s.toToml a = v

/-- The setting is what the table gives for it, and its default if the table gives nothing. -/
structure Is (s : Setting α) (entries : List (String × Toml)) (a : α) : Prop where
  given : ∀ v, Gives entries s.table s.key v → s.allowed a ∧ s.toToml a = v
  missing : (∀ v, ¬ Gives entries s.table s.key v) → a = s.default

/-- Reading a value gives what has this value in the type of the setting. -/
structure ReadBy (s : Setting α) (read? : Toml → Option α) : Prop where
  eq_some_iff : ∀ {v a}, read? v = some a ↔ s.allowed a ∧ s.toToml a = v
  legible : ∀ a, s.allowed a → (s.toToml a).legible = true

theorem string?_eq_some_iff {v : Toml} {a : String} : string? v = some a ↔ Toml.string a = v := by
  constructor
  · intro h
    unfold string? at h
    split at h
    · exact congrArg Toml.string (Option.some.inj h).symm
    · cases h
  · rintro rfl
    rfl

theorem bool?_eq_some_iff {v : Toml} {a : Bool} : bool? v = some a ↔ Toml.bool a = v := by
  constructor
  · intro h
    unfold bool? at h
    split at h
    · exact congrArg Toml.bool (Option.some.inj h).symm
    · cases h
  · rintro rfl
    rfl

theorem mapM_string?_eq_some_iff {items : List Toml} {ss : List String} :
    items.mapM string? = some ss ↔ ss.map Toml.string = items := by
  induction items generalizing ss with
  | nil => simp [eq_comm]
  | cons v items ih =>
    rw [List.mapM_cons, Option.bind_eq_bind, Option.bind_eq_some_iff]
    constructor
    · rintro ⟨a, ha, h⟩
      obtain ⟨more, hmore, hss⟩ := Option.bind_eq_some_iff.mp h
      cases hss
      rw [List.map_cons, string?_eq_some_iff.mp ha, ih.mp hmore]
    · intro h
      cases ss with
      | nil => cases h
      | cons a more =>
        obtain ⟨ha, hmore⟩ := List.cons.inj h
        exact ⟨a, string?_eq_some_iff.mpr ha, Option.bind_eq_some_iff.mpr ⟨more, ih.mpr hmore, rfl⟩⟩

theorem strings?_eq_some_iff {v : Toml} {ss : List String} :
    strings? v = some ss ↔ Toml.array (ss.map .string) = v := by
  constructor
  · intro h
    unfold strings? at h
    split at h
    · exact congrArg Toml.array (mapM_string?_eq_some_iff.mp h)
    · cases h
  · rintro rfl
    exact mapM_string?_eq_some_iff.mpr rfl

theorem seconds?_eq_some_iff {v : Toml} {n : Nat} :
    seconds? v = some n ↔ n ≤ 18446744073709551615 ∧ Toml.integer n = v := by
  have hmax : maxTimeoutSeconds = 18446744073709551615 := by decide
  constructor
  · intro h
    unfold seconds? at h
    split at h
    · next m =>
      split at h
      · next hrange =>
        obtain rfl : m.toNat = n := Option.some.inj h
        rw [hmax] at hrange
        exact ⟨by omega, congrArg Toml.integer (Int.toNat_of_nonneg hrange.1)⟩
      · cases h
    · cases h
  · rintro ⟨hn, rfl⟩
    rw [seconds?, if_pos ⟨by omega, by rw [hmax]; omega⟩, Int.toNat_natCast]

theorem readBy_text (table key default : String) : (text table key default).ReadBy string? where
  eq_some_iff := string?_eq_some_iff.trans (and_iff_right trivial).symm
  legible a _ := legible_string a

theorem readBy_flag (table key : String) (default : Bool) : (flag table key default).ReadBy bool? where
  eq_some_iff := bool?_eq_some_iff.trans (and_iff_right trivial).symm
  legible a _ := legible_bool a

theorem readBy_texts (table key : String) (default : List String) :
    (texts table key default).ReadBy strings? where
  eq_some_iff := strings?_eq_some_iff.trans (and_iff_right trivial).symm
  legible ss _ := by
    refine legible_array_iff.mpr fun v hv => ?_
    obtain ⟨s, -, rfl⟩ := List.mem_map.mp hv
    exact legible_string s

theorem readBy_number (table key : String) (default : Nat) : (number table key default).ReadBy seconds? where
  eq_some_iff := seconds?_eq_some_iff
  legible _ h := legible_integer h

/-! ## One setting -/

variable {entries : List (String × Toml)} {s : Setting α} {found : Option Toml}

/-- **A setting is read** as what the table tells of it. -/
theorem setting?_eq_some_iff {read? : Toml → Option α} (hread : s.ReadBy read?)
    (hfound : ∀ v, found = some v ↔ Gives entries s.table s.key v) {a : α} :
    setting? s.default read? found = some a ↔ s.Is entries a := by
  cases found with
  | none =>
    have hnone : ∀ v, ¬ Gives entries s.table s.key v := fun v hv => nomatch (hfound v).mpr hv
    constructor
    · intro h
      exact ⟨fun v hv => absurd hv (hnone v), fun _ => (Option.some.inj h).symm⟩
    · intro h
      rw [h.missing hnone]
      rfl
  | some v =>
    have hgiven := (hfound v).mp rfl
    constructor
    · intro h
      refine ⟨fun w hw => ?_, fun hnone => absurd hgiven (hnone v)⟩
      obtain rfl : v = w := Option.some.inj ((hfound w).mpr hw)
      exact hread.eq_some_iff.mp h
    · exact fun h => hread.eq_some_iff.mpr (h.given v hgiven)

/-- A setting that is well typed is something. -/
theorem exists_is_iff (hfound : ∀ v, found = some v ↔ Gives entries s.table s.key v) :
    (∃ a, s.Is entries a) ↔ s.WellTyped entries := by
  constructor
  · rintro ⟨a, h⟩ v hv
    exact ⟨a, h.given v hv⟩
  · intro h
    cases found with
    | none =>
      exact ⟨s.default, fun v hv => (nomatch (hfound v).mpr hv), fun _ => rfl⟩
    | some v =>
      have hgiven := (hfound v).mp rfl
      obtain ⟨a, ha⟩ := h v hgiven
      refine ⟨a, fun w hw => ?_, fun hnone => absurd hgiven (hnone v)⟩
      obtain rfl : v = w := Option.some.inj ((hfound w).mpr hw)
      exact ha

/-- The value of a setting is legible. -/
theorem Is.legible {read? : Toml → Option α} (hread : s.ReadBy read?) {a : α} (h : s.Is entries a) {v : Toml}
    (hv : Gives entries s.table s.key v) : v.legible = true := by
  obtain ⟨hallowed, rfl⟩ := h.given v hv
  exact hread.legible a hallowed

/-- A setting depends on nothing but what is given for it. -/
theorem Is.of_same {entries' : List (String × Toml)} {a : α}
    (hsame : ∀ v, Gives entries s.table s.key v ↔ Gives entries' s.table s.key v) (h : s.Is entries a) :
    s.Is entries' a where
  given v hv := h.given v ((hsame v).mpr hv)
  missing hnone := h.missing fun v hv => hnone v ((hsame v).mp hv)

end Setting

/-! ## Sections -/

variable {entries : List (String × Toml)}

/-- The entries of a section, none if it is missing. -/
def sectionOf (entries : List (String × Toml)) (table : String) : List (String × Toml) :=
  match entries.lookup table with
  | some (.table inner) => inner
  | _ => []

/-- The sections of a table are tables where they are present. -/
def SectionsAreTables (entries : List (String × Toml)) : Prop :=
  ∀ table ∈ ["analyzer", "scan"], ∀ v, (table, v) ∈ entries → ∃ inner, v = .table inner

/-- Everything under other keys than these can be passed over. -/
def OthersLegible (names : List String) (entries : List (String × Toml)) : Prop :=
  ∀ e ∈ entries, e.1 ∉ names → e.2.legible = true

instance (names : List String) (entries : List (String × Toml)) : Decidable (OthersLegible names entries) :=
  inferInstanceAs (Decidable (∀ e ∈ entries, _))

theorem uniqueKeys_sectionOf (h : (Toml.table entries).KeysOnce) (table : String) :
    UniqueKeys (sectionOf entries table) := by
  unfold sectionOf
  split
  · next inner hinner =>
    have hsection := (keysOnce_table_iff.mp h).2 _ (mem_of_lookup_eq_some hinner)
    exact (keysOnce_table_iff.mp hsection).1
  · exact List.nodup_nil

theorem legible_sectionOf (h : (Toml.table entries).legible = true) (table : String) :
    (Toml.table (sectionOf entries table)).legible = true := by
  unfold sectionOf
  split
  · next inner hinner => exact legible_table_iff.mp h _ (mem_of_lookup_eq_some hinner)
  · exact legible_table_iff.mpr nofun

theorem lookup_sectionOf (h : (Toml.table entries).KeysOnce) (table key : String) (v : Toml) :
    (sectionOf entries table).lookup key = some v ↔ Gives entries table key v := by
  constructor
  · intro hlookup
    unfold sectionOf at hlookup
    split at hlookup
    · next inner hinner => exact ⟨inner, mem_of_lookup_eq_some hinner, mem_of_lookup_eq_some hlookup⟩
    · cases hlookup
  · rintro ⟨inner, hinner, hv⟩
    obtain ⟨hunique, honce⟩ := keysOnce_table_iff.mp h
    obtain ⟨hinnerUnique, -⟩ := keysOnce_table_iff.mp (honce _ hinner)
    rw [sectionOf, hunique.lookup_eq_some_iff.mpr hinner]
    exact hinnerUnique.lookup_eq_some_iff.mpr hv

theorem fields?_table (names : List String) (entries : List (String × Toml)) :
    fields? names (.table entries) =
      if OthersLegible names entries then some (names.map (entries.lookup ·)) else none := by
  rw [fields?]
  refine if_congr ?_ rfl rfl
  simp [OthersLegible, or_iff_not_imp_left]

/-- A table is legible if what can be passed over is, once what its keys hold is. -/
theorem othersLegible_iff_legible (hunique : UniqueKeys entries) {names : List String}
    (hnames : ∀ name ∈ names, ∀ v, entries.lookup name = some v → v.legible = true) :
    OthersLegible names entries ↔ (Toml.table entries).legible = true := by
  rw [legible_table_iff]
  refine ⟨fun hothers e he => ?_, fun hall e he _ => hall e he⟩
  by_cases hname : e.1 ∈ names
  · exact hnames e.1 hname e.2 (hunique.lookup_eq_some_iff.mpr he)
  · exact hothers e he hname

/-- The keys of the analyzer's settings. -/
abbrev analyzerKeys : List String := ["command", "format", "args", "timeout_secs"]

/-- The keys of the settings of scans. -/
abbrev scanKeys : List String := ["languages", "start_active", "strict_spans"]

/-- What a section tells, or what no section tells. -/
theorem setting?_section {α : Type} {default : α} {read? : Toml → Option α}
    (hdefault : read? (.table []) = some default) {table : String}
    (h : ∀ v, entries.lookup table = some v → ∃ inner, v = .table inner) :
    setting? default read? (entries.lookup table) = read? (.table (sectionOf entries table)) := by
  unfold sectionOf
  cases hlookup : entries.lookup table with
  | none => exact hdefault.symm
  | some v =>
    obtain ⟨inner, rfl⟩ := h v hlookup
    rfl

/-! ## All settings -/

/-- The settings of the analyzer are what the table tells of them. -/
structure AnalyzerConfig.ToldBy (c : AnalyzerConfig) (entries : List (String × Toml)) : Prop where
  command : Setting.command.Is entries c.command
  format : Setting.format.Is entries c.format
  arguments : Setting.arguments.Is entries c.arguments
  timeoutSeconds : Setting.timeoutSeconds.Is entries c.timeoutSeconds

/-- The settings of scans are what the table tells of them. -/
structure ScanConfig.ToldBy (c : ScanConfig) (entries : List (String × Toml)) : Prop where
  languages : Setting.languages.Is entries c.languages
  startActive : Setting.startActive.Is entries c.startActive
  strictSpans : Setting.strictSpans.Is entries c.strictSpans

/-- All settings are what the table tells of them. -/
structure Config.ToldBy (c : Config) (entries : List (String × Toml)) : Prop where
  analyzer : c.analyzer.ToldBy entries
  scan : c.scan.ToldBy entries

section

variable (hkeys : (Toml.table entries).KeysOnce)
include hkeys

theorem AnalyzerConfig.ToldBy.legible {c : AnalyzerConfig} (h : c.ToldBy entries) :
    ∀ key ∈ analyzerKeys, ∀ v, (sectionOf entries "analyzer").lookup key = some v → v.legible = true := by
  simp only [lookup_sectionOf hkeys, analyzerKeys, List.forall_mem_cons]
  exact ⟨fun _ => h.command.legible (Setting.readBy_text _ _ _),
    fun _ => h.format.legible (Setting.readBy_text _ _ _),
    fun _ => h.arguments.legible (Setting.readBy_texts _ _ _),
    fun _ => h.timeoutSeconds.legible (Setting.readBy_number _ _ _), nofun⟩

theorem ScanConfig.ToldBy.legible {c : ScanConfig} (h : c.ToldBy entries) :
    ∀ key ∈ scanKeys, ∀ v, (sectionOf entries "scan").lookup key = some v → v.legible = true := by
  simp only [lookup_sectionOf hkeys, scanKeys, List.forall_mem_cons]
  exact ⟨fun _ => h.languages.legible (Setting.readBy_texts _ _ _),
    fun _ => h.startActive.legible (Setting.readBy_flag _ _ _),
    fun _ => h.strictSpans.legible (Setting.readBy_flag _ _ _), nofun⟩

/-- A setting is read from its section as what the table tells of it. -/
theorem setting?_sectionOf {α : Type} {s : Setting α} {read? : Toml → Option α} (hread : s.ReadBy read?) {a : α} :
    setting? s.default read? ((sectionOf entries s.table).lookup s.key) = some a ↔ s.Is entries a :=
  Setting.setting?_eq_some_iff hread (lookup_sectionOf hkeys s.table s.key)

/-- **The settings of the analyzer** are read as what the table tells of them. -/
theorem AnalyzerConfig.ofToml?_section_eq_some_iff {c : AnalyzerConfig} :
    AnalyzerConfig.ofToml? (.table (sectionOf entries "analyzer")) = some c ↔
      (Toml.table (sectionOf entries "analyzer")).legible = true ∧ c.ToldBy entries := by
  have hcommand {a} := setting?_sectionOf hkeys (s := .command) (a := a) (Setting.readBy_text _ _ _)
  have hformat {a} := setting?_sectionOf hkeys (s := .format) (a := a) (Setting.readBy_text _ _ _)
  have harguments {a} := setting?_sectionOf hkeys (s := .arguments) (a := a) (Setting.readBy_texts _ _ _)
  have hseconds {a} := setting?_sectionOf hkeys (s := .timeoutSeconds) (a := a) (Setting.readBy_number _ _ _)
  have hlegible (h : c.ToldBy entries) :=
    othersLegible_iff_legible (uniqueKeys_sectionOf hkeys "analyzer") (h.legible hkeys)
  unfold AnalyzerConfig.ofToml?
  rw [fields?_table]
  by_cases hothers : OthersLegible analyzerKeys (sectionOf entries "analyzer")
  · rw [if_pos hothers]
    simp only [List.map, Option.bind_eq_some_iff, Option.map_eq_some_iff]
    constructor
    · rintro ⟨a, ha, b, hb, cs, hcs, n, hn, rfl⟩
      have htold : AnalyzerConfig.ToldBy ⟨a, b, cs, n⟩ entries :=
        ⟨hcommand.mp ha, hformat.mp hb, harguments.mp hcs, hseconds.mp hn⟩
      exact ⟨(hlegible htold).mp hothers, htold⟩
    · rintro ⟨-, h⟩
      exact ⟨_, hcommand.mpr h.command, _, hformat.mpr h.format, _, harguments.mpr h.arguments, _,
        hseconds.mpr h.timeoutSeconds, rfl⟩
  · rw [if_neg hothers]
    exact ⟨nofun, fun h => absurd ((hlegible h.2).mpr h.1) hothers⟩

/-- **The settings of scans** are read as what the table tells of them. -/
theorem ScanConfig.ofToml?_section_eq_some_iff {c : ScanConfig} :
    ScanConfig.ofToml? (.table (sectionOf entries "scan")) = some c ↔
      (Toml.table (sectionOf entries "scan")).legible = true ∧ c.ToldBy entries := by
  have hlanguages {a} := setting?_sectionOf hkeys (s := .languages) (a := a) (Setting.readBy_texts _ _ _)
  have hactive {a} := setting?_sectionOf hkeys (s := .startActive) (a := a) (Setting.readBy_flag _ _ _)
  have hstrict {a} := setting?_sectionOf hkeys (s := .strictSpans) (a := a) (Setting.readBy_flag _ _ _)
  have hlegible (h : c.ToldBy entries) :=
    othersLegible_iff_legible (uniqueKeys_sectionOf hkeys "scan") (h.legible hkeys)
  unfold ScanConfig.ofToml?
  rw [fields?_table]
  by_cases hothers : OthersLegible scanKeys (sectionOf entries "scan")
  · rw [if_pos hothers]
    simp only [List.map, Option.bind_eq_some_iff, Option.map_eq_some_iff]
    constructor
    · rintro ⟨ls, hls, a, ha, b, hb, rfl⟩
      have htold : ScanConfig.ToldBy ⟨ls, a, b⟩ entries := ⟨hlanguages.mp hls, hactive.mp ha, hstrict.mp hb⟩
      exact ⟨(hlegible htold).mp hothers, htold⟩
    · rintro ⟨-, h⟩
      exact ⟨_, hlanguages.mpr h.languages, _, hactive.mpr h.startActive, _, hstrict.mpr h.strictSpans, rfl⟩
  · rw [if_neg hothers]
    exact ⟨nofun, fun h => absurd ((hlegible h.2).mpr h.1) hothers⟩

/-- A table is legible if its sections are, and all that is no section. -/
theorem legible_iff_sections (hsections : SectionsAreTables entries) :
    (Toml.table entries).legible = true ↔ OthersLegible ["analyzer", "scan"] entries ∧
      (Toml.table (sectionOf entries "analyzer")).legible = true ∧
      (Toml.table (sectionOf entries "scan")).legible = true := by
  constructor
  · intro h
    exact ⟨fun e he _ => legible_table_iff.mp h e he, legible_sectionOf h "analyzer", legible_sectionOf h "scan"⟩
  · rintro ⟨hothers, hanalyzer, hscan⟩
    refine (othersLegible_iff_legible (keysOnce_table_iff.mp hkeys).1 fun table htable v hv => ?_).mp hothers
    obtain ⟨inner, rfl⟩ := hsections table htable v (mem_of_lookup_eq_some hv)
    have hsection : sectionOf entries table = inner := by rw [sectionOf, hv]
    simp only [List.mem_cons, List.not_mem_nil, or_false] at htable
    rcases htable with rfl | rfl
    · rwa [hsection] at hanalyzer
    · rwa [hsection] at hscan

/-- **All settings** are read as what the table tells of them, if the table is legible. -/
theorem Config.ofToml?_eq_some_iff (hsections : SectionsAreTables entries) {c : Config} :
    Config.ofToml? (.table entries) = some c ↔ (Toml.table entries).legible = true ∧ c.ToldBy entries := by
  have hsection : ∀ table ∈ ["analyzer", "scan"], ∀ v, entries.lookup table = some v → ∃ inner, v = .table inner :=
    fun table htable v hv => hsections table htable v (mem_of_lookup_eq_some hv)
  have hanalyzer : setting? {} AnalyzerConfig.ofToml? (entries.lookup "analyzer") =
      AnalyzerConfig.ofToml? (.table (sectionOf entries "analyzer")) :=
    setting?_section (by rfl) (hsection "analyzer" (by decide))
  have hscan : setting? {} ScanConfig.ofToml? (entries.lookup "scan") =
      ScanConfig.ofToml? (.table (sectionOf entries "scan")) :=
    setting?_section (by rfl) (hsection "scan" (by decide))
  unfold Config.ofToml?
  rw [fields?_table, legible_iff_sections hkeys hsections]
  by_cases hothers : OthersLegible ["analyzer", "scan"] entries
  · rw [if_pos hothers]
    simp only [List.map, hanalyzer, hscan, Option.bind_eq_some_iff, Option.map_eq_some_iff,
      AnalyzerConfig.ofToml?_section_eq_some_iff hkeys, ScanConfig.ofToml?_section_eq_some_iff hkeys]
    constructor
    · rintro ⟨analyzer, ⟨hal, ha⟩, scan, ⟨hsl, hs⟩, rfl⟩
      exact ⟨⟨hothers, hal, hsl⟩, ha, hs⟩
    · rintro ⟨⟨-, hal, hsl⟩, h⟩
      exact ⟨_, ⟨hal, h.analyzer⟩, _, ⟨hsl, h.scan⟩, rfl⟩
  · rw [if_neg hothers]
    exact ⟨nofun, fun h => absurd h.1.1 hothers⟩

end

/-! ## Documents -/

/-- A document stands for a table: it reads as one, and all its numbers are in range. A document with a number
out of range stands for nothing, and no settings are read from it (`Config.parse?_eq_none_of_not_legible`). -/
structure Toml.StandsFor (document : List Char) (entries : List (String × Toml)) : Prop where
  read : readDocument? document = some entries
  legible : (Toml.table entries).legible = true

/-- Every setting that a table gives is of its type. -/
structure SettingsTyped (entries : List (String × Toml)) : Prop where
  command : Setting.command.WellTyped entries
  format : Setting.format.WellTyped entries
  arguments : Setting.arguments.WellTyped entries
  timeoutSeconds : Setting.timeoutSeconds.WellTyped entries
  languages : Setting.languages.WellTyped entries
  startActive : Setting.startActive.WellTyped entries
  strictSpans : Setting.strictSpans.WellTyped entries

/-- Two tables give the same to each setting. -/
structure SameSettings (entries entries' : List (String × Toml)) : Prop where
  analyzer : ∀ key ∈ analyzerKeys, ∀ v, Gives entries "analyzer" key v ↔ Gives entries' "analyzer" key v
  scan : ∀ key ∈ scanKeys, ∀ v, Gives entries "scan" key v ↔ Gives entries' "scan" key v

theorem SameSettings.symm {entries' : List (String × Toml)} (h : SameSettings entries entries') :
    SameSettings entries' entries :=
  ⟨fun key hkey v => (h.analyzer key hkey v).symm, fun key hkey v => (h.scan key hkey v).symm⟩

namespace Config

variable {document : List Char}

theorem parse?_eq_some_iff (hread : readDocument? document = some entries) (hsections : SectionsAreTables entries)
    {c : Config} : parse? document = some c ↔ (Toml.table entries).legible = true ∧ c.ToldBy entries := by
  rw [parse?, hread]
  exact ofToml?_eq_some_iff (keysOnce_readDocument? hread) hsections

/-- A number out of range leaves a document without settings, wherever it stands. -/
theorem parse?_eq_none_of_not_legible (hread : readDocument? document = some entries)
    (hsections : SectionsAreTables entries) (h : (Toml.table entries).legible = false) :
    parse? document = none := by
  refine Option.eq_none_iff_forall_ne_some.mpr fun c hc => ?_
  rw [((parse?_eq_some_iff hread hsections).mp hc).1] at h
  cases h

/-- Settings that are well typed can be told. -/
theorem exists_toldBy_iff (hkeys : (Toml.table entries).KeysOnce) :
    (∃ c : Config, c.ToldBy entries) ↔ SettingsTyped entries := by
  have htyped {α : Type} {s : Setting α} : (∃ a, s.Is entries a) ↔ s.WellTyped entries :=
    Setting.exists_is_iff (lookup_sectionOf hkeys s.table s.key)
  constructor
  · rintro ⟨c, hanalyzer, hscan⟩
    exact ⟨htyped.mp ⟨_, hanalyzer.command⟩, htyped.mp ⟨_, hanalyzer.format⟩, htyped.mp ⟨_, hanalyzer.arguments⟩,
      htyped.mp ⟨_, hanalyzer.timeoutSeconds⟩, htyped.mp ⟨_, hscan.languages⟩,
      htyped.mp ⟨_, hscan.startActive⟩, htyped.mp ⟨_, hscan.strictSpans⟩⟩
  · intro h
    obtain ⟨command, hcommand⟩ := htyped.mpr h.command
    obtain ⟨format, hformat⟩ := htyped.mpr h.format
    obtain ⟨arguments, harguments⟩ := htyped.mpr h.arguments
    obtain ⟨seconds, hseconds⟩ := htyped.mpr h.timeoutSeconds
    obtain ⟨languages, hlanguages⟩ := htyped.mpr h.languages
    obtain ⟨active, hactive⟩ := htyped.mpr h.startActive
    obtain ⟨strict, hstrict⟩ := htyped.mpr h.strictSpans
    exact ⟨⟨⟨command, format, arguments, seconds⟩, ⟨languages, active, strict⟩⟩,
      ⟨hcommand, hformat, harguments, hseconds⟩, ⟨hlanguages, hactive, hstrict⟩⟩

/-- Settings are told by everything that gives the same. -/
theorem ToldBy.of_same {entries' : List (String × Toml)} (hsame : SameSettings entries entries') {c : Config}
    (h : c.ToldBy entries) : c.ToldBy entries' where
  analyzer :=
    { command := h.analyzer.command.of_same (hsame.analyzer "command" (by decide))
      format := h.analyzer.format.of_same (hsame.analyzer "format" (by decide))
      arguments := h.analyzer.arguments.of_same (hsame.analyzer "args" (by decide))
      timeoutSeconds := h.analyzer.timeoutSeconds.of_same (hsame.analyzer "timeout_secs" (by decide)) }
  scan :=
    { languages := h.scan.languages.of_same (hsame.scan "languages" (by decide))
      startActive := h.scan.startActive.of_same (hsame.scan "start_active" (by decide))
      strictSpans := h.scan.strictSpans.of_same (hsame.scan "strict_spans" (by decide)) }

/-- **Settings apply one by one.** A document that stands for a table, whose sections are tables where they are
present, has settings just if every setting that is given is of its type; and then each setting is what is given
for it, or its default if nothing is given. So documents that give the same to each setting have the same
settings, in whatever order and with whatever else in them. -/
theorem parse?_setting_by_setting (h : StandsFor document entries) (hsections : SectionsAreTables entries) :
    ((parse? document).isSome = true ↔ SettingsTyped entries) ∧
    (∀ c, parse? document = some c → c.ToldBy entries) ∧
    ∀ document' entries', StandsFor document' entries' → SectionsAreTables entries' →
      SameSettings entries entries' → parse? document' = parse? document := by
  have hparse {c} : parse? document = some c ↔ c.ToldBy entries :=
    (parse?_eq_some_iff h.read hsections).trans (and_iff_right h.legible)
  refine ⟨?_, fun c => hparse.mp, ?_⟩
  · rw [Option.isSome_iff_exists, ← exists_toldBy_iff (keysOnce_readDocument? h.read)]
    exact exists_congr fun c => hparse
  · intro document' entries' h' hsections' hsame
    refine Option.ext fun c => ?_
    rw [parse?_eq_some_iff h'.read hsections', and_iff_right h'.legible, hparse]
    exact ⟨.of_same hsame.symm, .of_same hsame⟩

/-- A document with two settings, one in each section, and with an unknown key. -/
def partialDocument : List Char :=
  "scan.start_active = true\n[analyzer]\nx.y = []\ntimeout_secs = 31".toList

/-- The table of this document. -/
def partialEntries : List (String × Toml) :=
  [("scan", .table [("start_active", .bool true)]),
    ("analyzer", .table [("x", .table [("y", .array [])]), ("timeout_secs", .integer 31)])]

set_option maxRecDepth 5000 in
theorem statements?_partialDocument : statements? partialDocument =
    some [.assign ["scan", "start_active"] (.scalar (.bool true)), .table ["analyzer"],
      .assign ["x", "y"] (.array []), .assign ["timeout_secs"] (.scalar (.integer 31))] := by
  cbv

theorem standsFor_partialDocument : StandsFor partialDocument partialEntries where
  read := by rw [readDocument?, statements?_partialDocument]; rfl
  legible := by rfl

/-- A document with the same settings in another order, and with another unknown key. -/
def reorderedDocument : List Char :=
  "z = 1\n[analyzer]\ntimeout_secs = 0x1F\n[scan]\nstart_active = true".toList

/-- The table of this document. -/
def reorderedEntries : List (String × Toml) :=
  [("z", .integer 1), ("analyzer", .table [("timeout_secs", .integer 31)]),
    ("scan", .table [("start_active", .bool true)])]

set_option maxRecDepth 5000 in
theorem statements?_reorderedDocument : statements? reorderedDocument =
    some [.assign ["z"] (.scalar (.integer 1)), .table ["analyzer"],
      .assign ["timeout_secs"] (.scalar (.integer 31)), .table ["scan"],
      .assign ["start_active"] (.scalar (.bool true))] := by
  cbv

theorem standsFor_reorderedDocument : StandsFor reorderedDocument reorderedEntries where
  read := by rw [readDocument?, statements?_reorderedDocument]; rfl
  legible := by rfl

theorem sameSettings_reorderedEntries : SameSettings partialEntries reorderedEntries where
  analyzer := by simp [Gives, partialEntries, reorderedEntries]
  scan := by simp [Gives, partialEntries, reorderedEntries]

theorem settings_partialDocument :
    StandsFor partialDocument partialEntries ∧ SectionsAreTables partialEntries ∧ SettingsTyped partialEntries ∧
      parse? partialDocument = some ⟨{ timeoutSeconds := 31 }, { startActive := true }⟩ ∧
      ToldBy ⟨{ timeoutSeconds := 31 }, { startActive := true }⟩ partialEntries ∧
      parse? reorderedDocument = parse? partialDocument := by
  have hsections : SectionsAreTables partialEntries := by
    simp [SectionsAreTables, partialEntries]
  have hsections' : SectionsAreTables reorderedEntries := by
    simp [SectionsAreTables, reorderedEntries]
  have hparse : parse? partialDocument = some ⟨{ timeoutSeconds := 31 }, { startActive := true }⟩ := by
    rw [parse?, standsFor_partialDocument.read]
    rfl
  obtain ⟨htyped, htold, hsame⟩ := parse?_setting_by_setting standsFor_partialDocument hsections
  exact ⟨standsFor_partialDocument, hsections, htyped.mp (by rw [hparse]; rfl), hparse, htold _ hparse,
    hsame _ _ standsFor_reorderedDocument hsections' sameSettings_reorderedEntries⟩

end Config
end NoticeServer
