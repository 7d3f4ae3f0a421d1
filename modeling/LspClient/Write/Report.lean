import LspClient.Diagnostic.Report

/-!
# Reports on writes

A `WriteReport` says what became of one write; a `BatchReport` gathers those of a batch, with the
files that could not be written. The servers of a batch are those that formatted a file or
contributed diagnostics, each once and in order.
-/

namespace LspClient

structure WriteReport where
  path : Path
  /-- The UTF-8 length of the text written. -/
  bytes : Nat
  formatted : Bool
  formatter : Option String
  diagnostics : Option FileReport
  cancelled : Bool
  deadlineExpired : Bool
  /-- The steps that did not work, in order. -/
  warnings : List String
  deriving DecidableEq, Repr, Inhabited

namespace WriteReport

def start (path : Path) : WriteReport where
  path := path
  bytes := 0
  formatted := false
  formatter := none
  diagnostics := none
  cancelled := false
  deadlineExpired := false
  warnings := []

def render (r : WriteReport) : String :=
  let formatter := match r.formatter with
    | some name => if r.formatted then s!", formatted by {name}" else ""
    | none => ""
  let ended :=
    if r.cancelled then ", cancelled" else if r.deadlineExpired then ", deadline expired" else ""
  s!"wrote {r.path} ({r.bytes} bytes)" ++ formatter ++ ended ++ "\n" ++
    String.join (r.warnings.map fun w => s!"  warning: {w}\n") ++
    (match r.diagnostics with
      | some d => d.render
      | none => "")

end WriteReport

/-- A file of a batch that could not be written. -/
structure BatchFailure where
  path : Path
  message : String
  deriving DecidableEq, Repr, Inhabited

structure BatchReport where
  id : String
  files : List WriteReport
  failed : List BatchFailure
  servers : List String
  messages : List String
  formattedAny : Bool
  deriving DecidableEq, Repr, Inhabited

/-- A list in order, with no member twice. -/
def insertSorted (s : String) : List String → List String
  | [] => [s]
  | t :: rest =>
    if s = t then t :: rest else if s < t then s :: t :: rest else t :: insertSorted s rest

def sortedUnique (names : List String) : List String :=
  names.foldl (fun acc s => insertSorted s acc) []

namespace BatchReport

/-- The names a written file brings into its batch's report. -/
def contributors (file : WriteReport) : List String :=
  (match file.formatter with
    | some name => if file.formatted then [name] else []
    | none => []) ++
  (match file.diagnostics with
    | some d => d.servers
    | none => [])

def ofResults (id : String) (results : List (Path × Except Failure WriteReport)) : BatchReport :=
  let files := results.filterMap fun (_, r) => r.toOption
  { id
    files
    failed := results.filterMap fun
      | (_, .ok _) => none
      | (path, .error e) => some ⟨path, e.message⟩
    servers := sortedUnique (files.flatMap contributors)
    messages := files.flatMap fun f => (f.diagnostics.map FileReport.lines).getD []
    formattedAny := files.any WriteReport.formatted }

def errorCount (r : BatchReport) : Nat :=
  r.files.foldl (fun n f => n + (f.diagnostics.map FileReport.errorCount).getD 0) 0

def render (r : BatchReport) : String :=
  String.join (r.files.map WriteReport.render) ++
    String.join (r.failed.map fun f => s!"failed to write {f.path}: {f.message}\n")

end BatchReport

end LspClient
