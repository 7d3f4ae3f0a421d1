import LspClient.Json.Basic
import LspClient.Settings.Basic
import LspClient.Write.Report

/-!
# Values in scenarios

The fields of a scenario: one that is absent or of another kind counts as empty. How failures,
diagnostics, reports and settings are written in an answer, and how diagnostics and failures are
read from a scenario.
-/

namespace LspClient.Scenario

/-! ### Fields -/

def text (v : Json) (key : String) : String := ((v.member key).str?).getD ""

def textOr (v : Json) (key otherwise : String) : String := ((v.member key).str?).getD otherwise

def natural (v : Json) (key : String) : Nat := ((v.member key).nat?).getD 0

def natural? (v : Json) (key : String) : Option Nat := (v.member key).nat?

def integer (v : Json) (key : String) : Int := ((v.member key).int?).getD 0

def flag (v : Json) (key : String) : Bool := ((v.member key).bool?).getD false

def flagOr (v : Json) (key : String) (otherwise : Bool) : Bool :=
  ((v.member key).bool?).getD otherwise

def items (v : Json) (key : String) : List Json := ((v.member key).arr?).getD []

def texts (v : Json) (key : String) : List String := (items v key).filterMap Json.str?

/-! ### Reading -/

def severityOf (s : String) : Severity :=
  match s with
  | "error" => .error
  | "warning" => .warning
  | "info" => .information
  | _ => .hint

def diagnosticOf (v : Json) : Diagnostic :=
  let word (i : Nat) : UInt32 := UInt32.ofNat ((((v.member "range").item i).nat?).getD 0)
  { severity := severityOf (text v "severity")
    message := text v "message"
    range := ⟨⟨word 0, word 1⟩, ⟨word 2, word 3⟩⟩
    source := text v "source"
    code := (v.member "code").str?
    tags := (items v "tags").filterMap Json.nat? }

def failureOf (v : Json) : Option Failure :=
  let server := text v "server"
  let message := text v "message"
  let path : Path := ⟨text v "path"⟩
  match text v "kind" with
  | "Spawn" => some (.spawn server message)
  | "Transport" => some (.transport server message)
  | "Protocol" => some (.protocol (text v "method") (integer v "code") message)
  | "Timeout" => some (.timeout (text v "method") (natural v "elapsed_us"))
  | "Cancelled" => some .cancelled
  | "ConnectionClosed" => some (.connectionClosed server (v.member "stderr").str?)
  | "Handshake" => some (.handshake server message)
  | "Io" => some (.file path message)
  | "InvalidUri" => some (.invalidUri path)
  | "Glob" => some (.glob (text v "pattern") message)
  | "Linter" => some (.linter server message)
  | _ => none

/-! ### Writing -/

def ok (v : Json) : Json := .object [("ok", v)]

def fault (kind message : String) : Json :=
  .object [("error", .str kind), ("message", .str message)]

def textOrNull : Option String → Json
  | some s => .str s
  | none => .null

def kindOf : Failure → String
  | .spawn .. => "Spawn"
  | .transport .. => "Transport"
  | .protocol .. => "Protocol"
  | .timeout .. => "Timeout"
  | .cancelled => "Cancelled"
  | .connectionClosed .. => "ConnectionClosed"
  | .handshake .. => "Handshake"
  | .file .. => "Io"
  | .invalidUri .. => "InvalidUri"
  | .glob .. => "Glob"
  | .linter .. => "Linter"

def failureJson (e : Failure) : Json := fault (kindOf e) e.message

def outcome {α : Type} (f : α → Json) : Except Failure α → Json
  | .ok a => ok (f a)
  | .error e => failureJson e

def diagnosticJson (d : Diagnostic) : Json :=
  let n (w : UInt32) : Json := .nat w.toNat
  .object [
    ("severity", .str d.severity.label), ("message", .str d.message),
    ("range", .arr [n d.range.start.line, n d.range.start.character,
      n d.range.stop.line, n d.range.stop.character]),
    ("source", .str d.source), ("code", textOrNull d.code), ("tags", .arr (d.tags.map .nat))]

def diagnosticsJson (ds : List Diagnostic) : Json := .arr (ds.map diagnosticJson)

def failuresJson (failures : List ServerFailure) : Json :=
  .arr (failures.map fun f => .strings [f.server, f.message])

def fileReportJson (r : FileReport) : Json :=
  .object [
    ("path", .str r.path.text), ("applicable", .nat r.applicable), ("servers", .strings r.servers),
    ("items", diagnosticsJson r.items), ("failures", failuresJson r.failures),
    ("errors", .nat r.errorCount), ("truncated", .bool r.truncated),
    ("no_servers", .bool r.hasNoServers), ("summary", .str r.summary), ("display", .str r.render)]

def globReportJson (r : GlobReport) : Json :=
  .object [
    ("pattern", .str r.pattern), ("files", .strings (r.files.map FileReport.summary)),
    ("total", .nat r.total), ("ignore_rules_applied", .bool r.ignoreRulesApplied),
    ("truncated", .bool r.truncated), ("errors", .nat r.errorCount), ("display", .str r.render)]

def writeReportJson (r : WriteReport) : Json :=
  .object [
    ("path", .str r.path.text), ("bytes", .nat r.bytes), ("formatted", .bool r.formatted),
    ("formatter", textOrNull r.formatter), ("cancelled", .bool r.cancelled),
    ("deadline_expired", .bool r.deadlineExpired), ("warnings", .strings r.warnings),
    ("diagnostics", .optional (r.diagnostics.map fileReportJson)), ("display", .str r.render)]

def batchReportJson (r : BatchReport) : Json :=
  .object [
    ("id", .str r.id), ("files", .arr (r.files.map writeReportJson)),
    ("failed", .arr (r.failed.map fun f => .strings [f.path.text, f.message])),
    ("servers", .strings r.servers), ("messages", .strings r.messages),
    ("formatted_any", .bool r.formattedAny), ("errors", .nat r.errorCount),
    ("display", .str r.render)]

def serverJson (c : ServerConfig) : Json :=
  .object [
    ("command", .str c.command), ("args", .strings c.args), ("language_id", .str c.languageId),
    ("file_extensions", .strings c.fileExtensions), ("root_markers", .strings c.rootMarkers),
    ("adapter", textOrNull c.adapter), ("settings", .optional c.settings),
    ("initialization_options", .optional c.initializationOptions)]

def settingsJson (s : Settings) : Json :=
  .object [
    ("format_on_write", .bool s.formatOnWrite),
    ("diagnostics_on_write", .bool s.diagnosticsOnWrite),
    ("request_timeout_ms", .nat s.requestTimeout), ("warmup_timeout_ms", .nat s.warmupTimeout),
    ("diagnostics_timeout_ms", .nat s.diagnosticsTimeout),
    ("batch_diagnostics_timeout_ms", .nat s.batchDiagnosticsTimeout),
    ("write_deadline_ms", .nat s.writeDeadline),
    ("idle_timeout_ms", .optional (s.idleTimeout.map .nat)),
    ("idle_check_interval_ms", .nat s.idleCheckInterval),
    ("max_glob_targets", .nat s.maxGlobTargets),
    ("servers", .arr (s.servers.map fun (name, c) => .arr [.str name, serverJson c]))]

end LspClient.Scenario
