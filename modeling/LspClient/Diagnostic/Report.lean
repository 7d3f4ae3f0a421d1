import LspClient.Diagnostic.Basic
import LspClient.Failure

/-!
# Reports

A `FileReport` is what the servers for one file had to say: the merged items of those that answered
and the failures of those that did not. `lines` holds the rendered items, no more than `maxLines`
of them; counts are taken from the items, which are never cut.

`GlobReport` covers the files of a pattern, of which `total` matched.

`merge` keeps the first diagnostic of each range and message, then sorts by severity and start
position. The sort is stable, so diagnostics that agree in both keep their order.
-/

namespace LspClient

namespace Diagnostic

/-- What two reports of the same problem agree in. -/
def spot (d : Diagnostic) : Range × String := (d.range, d.message)

/-- The diagnostics whose spot is neither in `seen` nor that of an earlier one. -/
def firstsAfter (seen : List (Range × String)) : List Diagnostic → List Diagnostic
  | [] => []
  | d :: rest =>
    if d.spot ∈ seen then firstsAfter seen rest
    else d :: firstsAfter (d.spot :: seen) rest

def firsts (ds : List Diagnostic) : List Diagnostic := firstsAfter [] ds

/-- Worse severities come first, then earlier positions. -/
def before (a b : Diagnostic) : Bool :=
  a.severity.rank < b.severity.rank ||
    (a.severity.rank == b.severity.rank && a.range.start.le b.range.start)

def merge (ds : List Diagnostic) : List Diagnostic :=
  (firsts ds).mergeSort before

end Diagnostic

structure ServerFailure where
  server : String
  message : String
  deriving DecidableEq, Repr, Inhabited

structure FileReport where
  path : Path
  /-- How many servers apply to the file, failed ones included. -/
  applicable : Nat
  servers : List String
  items : List Diagnostic
  lines : List String
  failures : List ServerFailure
  deriving DecidableEq, Repr, Inhabited

def plural (n : Nat) (noun : String) : String :=
  if n = 1 then s!"1 {noun}" else s!"{n} {noun}s"

namespace FileReport

def maxLines : Nat := 50

def noServers (path : Path) : FileReport :=
  { path, applicable := 0, servers := [], items := [], lines := [], failures := [] }

def hasNoServers (r : FileReport) : Bool := r.applicable == 0

def count (r : FileReport) (severity : Severity) : Nat :=
  r.items.countP fun d => d.severity == severity

def errorCount (r : FileReport) : Nat := r.count .error

def truncated (r : FileReport) : Bool := r.lines.length < r.items.length

/-- The counts of a report that has items; what is neither error nor warning comes last. -/
def tally (r : FileReport) : String :=
  let errors := r.errorCount
  let warnings := r.count .warning
  let other := r.items.length - errors - warnings
  let parts := [plural errors "error", plural warnings "warning"]
  ", ".intercalate (if other > 0 then parts ++ [s!"{other} other"] else parts)

def summary (r : FileReport) : String :=
  if r.hasNoServers then s!"{r.path}: no language servers"
  else
    let servers := if r.servers.isEmpty then "no server responded" else ", ".intercalate r.servers
    if r.items.isEmpty then s!"{r.path}: no issues ({servers})"
    else s!"{r.path}: {r.tally} ({servers})"

def render (r : FileReport) : String :=
  let lines := r.lines.map fun line => s!"  {line}\n"
  let more :=
    if r.truncated then [s!"  ... {r.items.length - r.lines.length} more not shown\n"] else []
  let failures := r.failures.map fun f => s!"  [{f.server}] failed: {f.message}\n"
  r.summary ++ "\n" ++ String.join (lines ++ more ++ failures)

/-! ### Building a report -/

/-- What each server made of a file, in the order of the servers. -/
abbrev Results := List (String × Except Failure (List Diagnostic))

namespace Results

def answered (results : Results) : List (String × List Diagnostic) :=
  results.filterMap fun
    | (server, .ok items) => some (server, items)
    | (_, .error _) => none

def failed (results : Results) : List ServerFailure :=
  results.filterMap fun
    | (_, .ok _) => none
    | (server, .error e) => some ⟨server, e.message⟩

end Results

def assemble (path : Path) (results : Results) : FileReport :=
  let answered := results.answered
  let items := Diagnostic.merge (answered.flatMap (·.2))
  { path
    applicable := results.length
    servers := answered.map (·.1)
    items
    lines := (items.take maxLines).map fun d => d.line path
    failures := results.failed }

/-- The report with the servers that could not even be reached. -/
def withConnectFailures (r : FileReport) (failures : List ServerFailure) : FileReport :=
  { r with applicable := r.applicable + failures.length, failures := r.failures ++ failures }

end FileReport

structure GlobReport where
  pattern : String
  files : List FileReport
  /-- How many files matched, shown or not. -/
  total : Nat
  ignoreRulesApplied : Bool
  deriving DecidableEq, Repr, Inhabited

namespace GlobReport

def truncated (r : GlobReport) : Bool := r.files.length < r.total

def errorCount (r : GlobReport) : Nat := r.files.foldl (fun n f => n + f.errorCount) 0

def render (r : GlobReport) : String :=
  if r.files.isEmpty then s!"no files match {r.pattern}\n"
  else
    let shown :=
      if r.truncated then s!"showing {r.files.length} of {r.total} files matching {r.pattern}\n"
      else ""
    String.join (r.files.map FileReport.render) ++ shown

end GlobReport

end LspClient
