import NoticeServer.Config.Basic
import NoticeServer.Toml.Document

/-!
# `NoticeServer.Config.Reader` — settings from a TOML document

A section is a table, whose unknown keys are passed over, or an array of its settings in their order.
A setting that is missing has its default; one of the wrong type is an error. A date has no settings.
-/

namespace NoticeServer

open Toml

/-! ## Sections -/

namespace Section

/-- The raw settings of a section in the order of `names`. Keys that are passed over have to be
legible. -/
def fields? (names : List String) : Toml → Option (List (Option Toml))
  | .table entries =>
    if (entries.filter fun e => !names.contains e.1).all fun e => e.2.legible then
      some (names.map fun name => entries.lookup name)
    else none
  | .array items => some (((items.take names.length).map some) ++
      List.replicate (names.length - items.length) none)
  | .date => some (names.map fun _ => none)
  | _ => none

/-- A setting with its default. -/
def setting? {α : Type} (default : α) (read? : Toml → Option α) : Option Toml → Option α
  | none => some default
  | some v => read? v

/-- A text. -/
def string? : Toml → Option String
  | .string s => some s
  | _ => none

/-- A list of texts. -/
def strings? : Toml → Option (List String)
  | .array items => items.mapM string?
  | _ => none

/-- A number of seconds. -/
def seconds? : Toml → Option Nat
  | .integer n => if 0 ≤ n ∧ n ≤ maxTimeoutSeconds then some n.toNat else none
  | _ => none

/-- A truth value. -/
def bool? : Toml → Option Bool
  | .bool b => some b
  | _ => none

end Section

open Section

/-! ## Settings -/

/-- The settings of the analyzer. -/
def AnalyzerConfig.ofToml? (v : Toml) : Option AnalyzerConfig :=
  let default : AnalyzerConfig := {}
  match fields? ["command", "format", "args", "timeout_secs"] v with
  | some [command, format, arguments, timeoutSeconds] =>
    (setting? default.command string? command).bind fun command =>
    (setting? default.format string? format).bind fun format =>
    (setting? default.arguments strings? arguments).bind fun arguments =>
    (setting? default.timeoutSeconds seconds? timeoutSeconds).map fun timeoutSeconds =>
      { command, format, arguments, timeoutSeconds }
  | _ => none

/-- The settings of scans. -/
def ScanConfig.ofToml? (v : Toml) : Option ScanConfig :=
  let default : ScanConfig := {}
  match fields? ["languages", "start_active", "strict_spans"] v with
  | some [languages, startActive, strictSpans] =>
    (setting? default.languages strings? languages).bind fun languages =>
    (setting? default.startActive bool? startActive).bind fun startActive =>
    (setting? default.strictSpans bool? strictSpans).map fun strictSpans =>
      { languages, startActive, strictSpans }
  | _ => none

namespace Config

/-- All settings. -/
def ofToml? (v : Toml) : Option Config :=
  match fields? ["analyzer", "scan"] v with
  | some [analyzer, scan] =>
    (setting? {} AnalyzerConfig.ofToml? analyzer).bind fun analyzer =>
    (setting? {} ScanConfig.ofToml? scan).map fun scan => { analyzer, scan }
  | _ => none

/-- The settings of a document. -/
def parse? (document : List Char) : Option Config :=
  (readDocument? document).bind fun entries => ofToml? (.table entries)

end Config
end NoticeServer
