import NoticeServer.Config.Reader
import NoticeServer.Path
import NoticeServer.Text.Blank

/-!
# `NoticeServer.Config.Location` — where settings come from

The file of settings is the one that a variable names, else one in the home folder. A missing file means
the defaults, and so does a file that cannot be used (`Config.load`), unless the caller asks for its error
(`Config.loadFrom`).
-/

namespace NoticeServer

open Text

/-! ## The place -/

/-- The variable that names the file of settings. -/
def configVariable : String := "NUDGE_LS_CONFIG"

/-- The folder of settings and logs inside the home folder. -/
def settingsFolder : Path := .ofString ".nudge"

/-- The name of the file of settings. -/
def configName : Path := .ofString "config.toml"

/-- The path that a variable's value names: none if it is not UTF-8 or blank. -/
def explicitPath? (value : List UInt8) : Option Path :=
  match Utf8.decode? value with
  | some text => if (trim text).isEmpty then none else some ⟨value⟩
  | none => none

/-- The place of the file of settings. -/
def configPath (home : Path) (explicit? : Option (List UInt8)) : Path :=
  (explicit?.bind explicitPath?).getD ((home.join settingsFolder).join configName)

/-! ## Reading -/

/-- What stands at a path. -/
inductive FileState where
  | missing
  | folder
  | file (content : List UInt8)
  deriving DecidableEq, Repr

/-- Why settings cannot be used. -/
inductive ConfigError where
  /-- The file is a folder. -/
  | folder (path : Path)
  /-- The file is not UTF-8. -/
  | notText (path : Path)
  /-- The document has a fault. -/
  | malformed
  deriving DecidableEq, Repr

/-- The wording of a reading error with its reason. -/
def ConfigError.readMessage (path : Path) (reason : String) : String :=
  s!"failed to read config at {String.ofList path.display}: {reason}"

/-- The wording of an error; what is wrong with a document is not told. -/
def ConfigError.message : ConfigError → String
  | .folder path => readMessage path "Is a directory (os error 21)"
  | .notText path => readMessage path "stream did not contain valid UTF-8"
  | .malformed => "failed to parse config"

namespace Config

/-- The settings at a path; none if nothing stands there. -/
def loadFrom (path : Path) : FileState → Except ConfigError (Option Config)
  | .missing => .ok none
  | .folder => .error (.folder path)
  | .file content =>
    match Utf8.decode? content with
    | none => .error (.notText path)
    | some document =>
      match parse? document with
      | some config => .ok (some config)
      | none => .error .malformed

/-- The settings to use, which are the defaults where none can be had. -/
def load (path : Path) (state : FileState) : Config :=
  match loadFrom path state with
  | .ok (some config) => config
  | _ => {}

end Config
end NoticeServer
