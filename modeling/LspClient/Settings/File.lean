import LspClient.FileTree.Operations
import LspClient.Json.Basic
import LspClient.Settings.Basic
import LspClient.Toml.Parser

/-!
# Files of settings

Settings are the table `lsp` of a TOML document; what else it holds is not looked at. A file that
is named must be there, while the one in the home directory may be missing.
-/

namespace LspClient

inductive SettingsFileError where
  | unreadable (path : Path) (e : FileError)
  /-- The file is not TOML, or its table is not one of settings. -/
  | malformed (path : Path)
  | invalid (path : Path) (e : SettingsError)
  deriving DecidableEq, Repr

namespace SettingsFileError

def message : SettingsFileError → String
  | .unreadable path e => s!"failed to read {path.text}: {e.message}"
  | .malformed path => s!"failed to parse {path.text}"
  | .invalid path e => s!"invalid settings in {path.text}: {e.message}"

/-- What is behind an error, in its own words. -/
def cause? : SettingsFileError → Option String
  | .unreadable _ e => some e.message
  | .malformed _ => none
  | .invalid _ e => some e.message

end SettingsFileError

namespace Settings

/-- The settings of a document. A number that JSON cannot write is refused where a number is asked
for, and null where any value will do. -/
def ofDocument (document : Json) : Except Json.DecodeError Settings :=
  match document.get? "lsp" with
  | none => .ok default
  | some table => do
    let _ ← decode table
    decode table.finite

def ofText (path : Path) (content : String) : Except SettingsFileError Settings :=
  match (Toml.parse content).bind fun document => (ofDocument document).toOption with
  | none => .error (.malformed path)
  | some s =>
    match s.fault? with
    | some e => .error (.invalid path e)
    | none => .ok s

def ofFile (files : FileTree) (path : Path) : Except SettingsFileError Settings :=
  match files.readText path with
  | .error e => .error (.unreadable path e)
  | .ok content => ofText path content

/-- Where settings are by default, below the home directory. -/
def defaultFile (home : Path) : Path := (home.join ⟨".quill"⟩).join ⟨"config.toml"⟩

/-- The settings of the file that is named, or of the one in the home directory. -/
def load (files : FileTree) (home : Option Path) : Option Path → Except SettingsFileError Settings
  | some path => ofFile files path
  | none =>
    match home.map defaultFile with
    | none => .ok default
    | some path => if files.exists? path then ofFile files path else .ok default

end Settings

end LspClient
