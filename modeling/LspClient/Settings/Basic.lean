import LspClient.Json.Decode
import LspClient.Text.Blank

/-!
# Settings

`Settings` holds the server table and the tunables, each with a default. Times are in milliseconds.
`fault?` names the first value that must not be zero and is.

A `ServerConfig` describes one entry of the server table: a protocol server, which needs a command
and a language, or an adapter, which needs only its name. `ServerConfig.make` is the one way to
build it, so these needs are met by every value; file extensions are kept without leading dots and
in lower case.
-/

namespace LspClient

/-! ### Server entries -/

/-- An entry as it is written, before it is checked. -/
structure RawServer where
  command : String
  args : List String
  languageId : String
  fileExtensions : List String
  rootMarkers : List String
  adapter : Option String
  settings : Option Json
  initializationOptions : Option Json
  deriving Repr, Inhabited

structure ServerConfig extends RawServer
  deriving Repr, Inhabited

inductive ServerConfigError where
  | emptyCommand
  | emptyLanguageId
  | emptyAdapter
  deriving DecidableEq, Repr

def ServerConfigError.message : ServerConfigError → String
  | .emptyCommand => "server command must not be empty"
  | .emptyLanguageId => "language_id must not be empty"
  | .emptyAdapter => "adapter name must not be empty"

/-- ASCII letters in lower case. -/
def asciiLower (s : String) : String := s.map Char.toLower

def normalizeExtension (ext : String) : String :=
  asciiLower (String.ofList (ext.toList.dropWhile (· = '.')))

namespace RawServer

/-- What an entry lacks, if anything. -/
def fault? (raw : RawServer) : Option ServerConfigError :=
  match raw.adapter with
  | some name => if Text.isBlank name then some .emptyAdapter else none
  | none =>
    if Text.isBlank raw.command then some .emptyCommand
    else if Text.isBlank raw.languageId then some .emptyLanguageId
    else none

end RawServer

namespace ServerConfig

def make (raw : RawServer) : Except ServerConfigError ServerConfig :=
  match raw.fault? with
  | some e => .error e
  | none => .ok ⟨{ raw with fileExtensions := raw.fileExtensions.map normalizeExtension }⟩

def protocol (command languageId : String) (extensions : List String) :
    Except ServerConfigError ServerConfig :=
  make ⟨command, [], languageId, extensions, [], none, none, none⟩

def ofAdapter (name : String) (extensions : List String) :
    Except ServerConfigError ServerConfig :=
  make ⟨"", [], "", extensions, [], some name, none, none⟩

/-- Whether the entry covers `extension`, in whatever case. -/
def handlesExtension (c : ServerConfig) (extension : String) : Bool :=
  c.fileExtensions.any fun ext => asciiLower ext == asciiLower extension

open Json

def members : List Member := [
  .of "command" Decoder.text true,
  .of "args" (Decoder.list Decoder.text) true,
  .of "language_id" Decoder.text true,
  .of "file_extensions" (Decoder.list Decoder.text) true,
  .of "root_markers" (Decoder.list Decoder.text) true,
  .of "adapter" (Decoder.nullable Decoder.text) true,
  .of "settings" (Decoder.nullable Decoder.any) true,
  .of "initialization_options" (Decoder.nullable Decoder.any) true]

def decodeRaw : Decoder RawServer :=
  record "RawServerConfig" members fun ms => do
    let texts := Decoder.list Decoder.text
    return {
      command := ← ms.withDefault "command" Decoder.text ""
      args := ← ms.withDefault "args" texts []
      languageId := ← ms.withDefault "language_id" Decoder.text ""
      fileExtensions := ← ms.withDefault "file_extensions" texts []
      rootMarkers := ← ms.withDefault "root_markers" texts []
      adapter := ← ms.optional "adapter" Decoder.text
      settings := ← ms.optional "settings" Decoder.any
      initializationOptions := ← ms.optional "initialization_options" Decoder.any }

def decode : Decoder ServerConfig := fun v => do
  let raw ← decodeRaw v
  match make raw with
  | .ok config => .ok config
  | .error e => .error (.rejected e.message)

end ServerConfig

/-! ### Settings -/

structure Settings where
  formatOnWrite : Bool
  diagnosticsOnWrite : Bool
  requestTimeout : Nat
  /-- How long a caller waits for a handshake, which goes on without it. -/
  warmupTimeout : Nat
  diagnosticsTimeout : Nat
  /-- The wait per file when several are diagnosed together. -/
  batchDiagnosticsTimeout : Nat
  writeDeadline : Nat
  idleTimeout : Option Nat
  idleCheckInterval : Nat
  maxGlobTargets : Nat
  /-- The server table, in the order of its names. -/
  servers : List (String × ServerConfig)
  deriving Repr, Inhabited

inductive SettingsError where
  | zeroDuration (field : String)
  | zeroGlobTargets
  deriving DecidableEq, Repr

def SettingsError.message : SettingsError → String
  | .zeroDuration field => s!"{field} must be greater than zero"
  | .zeroGlobTargets => "max_glob_targets must be greater than zero"

namespace Settings

def default : Settings where
  formatOnWrite := true
  diagnosticsOnWrite := true
  requestTimeout := 30000
  warmupTimeout := 5000
  diagnosticsTimeout := 3000
  batchDiagnosticsTimeout := 1000
  writeDeadline := 10000
  idleTimeout := none
  idleCheckInterval := 60000
  maxGlobTargets := 20
  servers := []

/-- The durations that must not be zero, in the order in which they are checked. -/
def durations (s : Settings) : List (String × Nat) := [
  ("request_timeout_ms", s.requestTimeout),
  ("warmup_timeout_ms", s.warmupTimeout),
  ("diagnostics_timeout_ms", s.diagnosticsTimeout),
  ("batch_diagnostics_timeout_ms", s.batchDiagnosticsTimeout),
  ("write_deadline_ms", s.writeDeadline),
  ("idle_check_interval_ms", s.idleCheckInterval)]

def fault? (s : Settings) : Option SettingsError :=
  match s.durations.find? fun d => d.2 == 0 with
  | some (field, _) => some (.zeroDuration field)
  | none =>
    if s.idleTimeout = some 0 then some (.zeroDuration "idle_timeout_ms")
    else if s.maxGlobTargets = 0 then some .zeroGlobTargets
    else none

/-- The entry called `name`. -/
def server? (s : Settings) (name : String) : Option ServerConfig := s.servers.lookup name

open Json

def members : List Member := [
  .of "format_on_write" Decoder.flag true,
  .of "diagnostics_on_write" Decoder.flag true,
  .of "request_timeout_ms" Decoder.word64 true,
  .of "warmup_timeout_ms" Decoder.word64 true,
  .of "diagnostics_timeout_ms" Decoder.word64 true,
  .of "batch_diagnostics_timeout_ms" Decoder.word64 true,
  .of "write_deadline_ms" Decoder.word64 true,
  .of "idle_timeout_ms" (Decoder.nullable Decoder.word64) true,
  .of "idle_check_interval_ms" Decoder.word64 true,
  .of "max_glob_targets" Decoder.size true,
  .of "servers" (Decoder.table ServerConfig.decode) true]

def decode : Decoder Settings :=
  record "LspSettings" members fun ms => do
    let word (name : String) (value : Nat) := ms.withDefault name Decoder.word64 value
    return {
      formatOnWrite := ← ms.withDefault "format_on_write" Decoder.flag default.formatOnWrite
      diagnosticsOnWrite :=
        ← ms.withDefault "diagnostics_on_write" Decoder.flag default.diagnosticsOnWrite
      requestTimeout := ← word "request_timeout_ms" default.requestTimeout
      warmupTimeout := ← word "warmup_timeout_ms" default.warmupTimeout
      diagnosticsTimeout := ← word "diagnostics_timeout_ms" default.diagnosticsTimeout
      batchDiagnosticsTimeout :=
        ← word "batch_diagnostics_timeout_ms" default.batchDiagnosticsTimeout
      writeDeadline := ← word "write_deadline_ms" default.writeDeadline
      idleTimeout := ← ms.optional "idle_timeout_ms" Decoder.word64
      idleCheckInterval := ← word "idle_check_interval_ms" default.idleCheckInterval
      maxGlobTargets := ← ms.withDefault "max_glob_targets" Decoder.size default.maxGlobTargets
      servers := ← ms.withDefault "servers" (Decoder.table ServerConfig.decode) [] }

end Settings

end LspClient
