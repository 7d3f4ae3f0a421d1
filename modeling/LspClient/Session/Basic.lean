import LspClient.Diagnostic.Collect
import LspClient.Glob.Expand
import LspClient.Registry.Connect
import LspClient.Settings.Basic

/-!
# Sessions

A session is what a tool works with: a root, settings, and the means to reach servers. Its
operations go to every server that applies to a file. A server that cannot be reached is named
among the failures; only cancellation makes an operation fail.
-/

namespace LspClient

structure Session (ε : Type) where
  root : Path
  settings : Settings
  resolver : Resolver
  connect : Connector ε
  linters : Linters ε

namespace Session

variable {ε α : Type}

/-- Begin a session: look after idle connections, if they may be idle for so long only. -/
def begin (s : Session ε) : Work ε Unit :=
  match s.settings.idleTimeout with
  | some idle => Registry.startReaper idle s.settings.idleCheckInterval
  | none => return ()

/-- A path, relative ones seen from the root. -/
def absolute (s : Session ε) (path : Path) : Path :=
  if path.isAbsolute then path else s.root.join path

/-! ### The servers of a file -/

def connectTo (s : Session ε) (token : Token) :
    Target → Work ε (String × Except Failure Applicable)
  | .protocol name config cwd => do
    let warmup := some s.settings.warmupTimeout
    let connected ← Registry.getOrCreate s.connect name config cwd warmup token
    return (name, connected.map fun i => .protocol name i)
  | .linter name kind => return (name, .ok (.linter name kind))

/-- Which servers can be used, and which cannot. -/
structure Reached where
  targets : List Applicable
  failures : List ServerFailure
  deriving DecidableEq, Repr, Inhabited

def Reached.none : Reached := ⟨[], []⟩

/-- Sort out what was reached; a cancellation counts for all. -/
def sortOut : List (String × Except Failure Applicable) → Except Failure Reached
  | [] => .ok Reached.none
  | (_, .ok target) :: rest =>
    (sortOut rest).map fun r => { r with targets := target :: r.targets }
  | (name, .error e) :: rest =>
    if e.isCancelled then .error .cancelled
    else (sortOut rest).map fun r => { r with failures := ⟨name, e.message⟩ :: r.failures }

/-- Connect to every server that applies to a file. -/
def applicable (s : Session ε) (path : Path) (token : Token) :
    Work ε (Except Failure Reached) := do
  let targets ← Program.look fun w => s.resolver.resolve w.files path
  return sortOut (← Program.all (targets.map (s.connectTo token)))

/-! ### Documents -/

/-- How many servers did something; a cancellation counts for all, other failures for nothing. -/
def countActed : List (Except Failure SyncOutcome) → Except Failure Nat
  | [] => .ok 0
  | .ok .skipped :: rest => countActed rest
  | .ok _ :: rest => (countActed rest).map (· + 1)
  | .error e :: rest => if e.isCancelled then .error .cancelled else countActed rest

/-- Do something with a file on all its protocol servers at once. -/
def onServers (s : Session ε) (path : Path) (token : Token)
    (operation : Nat → Path → Work ε (Except Failure SyncOutcome)) :
    Work ε (Except Failure Nat) := do
  let path := s.absolute path
  match ← s.applicable path token with
  | .error e => return .error e
  | .ok reached =>
    let connections := reached.targets.filterMap Applicable.connection?
    return countActed (← Program.all (connections.map fun i => operation i path))

def ensureOpen (s : Session ε) (path : Path) (token : Token) : Work ε (Except Failure Nat) :=
  s.onServers path token fun i p => Document.ensureOpen i p token

def syncContent (s : Session ε) (path : Path) (content : String) (token : Token) :
    Work ε (Except Failure Nat) :=
  s.onServers path token fun i p => Document.syncContent i p content token

def notifySaved (s : Session ε) (path : Path) (token : Token) : Work ε (Except Failure Nat) :=
  s.onServers path token fun i p => Document.notifySaved i p token

def refresh (s : Session ε) (path : Path) (token : Token) : Work ε (Except Failure Nat) :=
  s.onServers path token fun i p => Document.refresh i p token

/-! ### Diagnostics -/

def diagnosePath (s : Session ε) (path : Path) (timeout : Nat) (token : Token) :
    Work ε (Except Failure FileReport) := do
  match ← s.applicable path token with
  | .error e => return .error e
  | .ok reached =>
    let report ← Diagnostics.collect s.linters path reached.targets timeout [] token
    return report.map fun r => r.withConnectFailures reached.failures

def diagnoseFile (s : Session ε) (path : Path) (token : Token) :
    Work ε (Except Failure FileReport) :=
  s.diagnosePath (s.absolute path) s.settings.diagnosticsTimeout token

/-- How many files of a pattern are diagnosed at once. -/
def filesAtOnce : Nat := 4

/-- Run a job once those it has to wait for are over, and mark it as over afterwards. -/
def afterOthers (others : List Nat) (number : Nat) (job : Work ε α) : Work ε α := do
  Program.wait fun w => if others.all w.isFinished then some ((), w) else none
  let result ← job
  Program.update (World.finish number)
  return result

/-- Run jobs side by side, each begun when all but the last `width - 1` before it are over. -/
def windowed (width : Nat) (jobs : List (Work ε α)) : Work ε (List α) := do
  let numbers ← jobs.mapM fun _ => Program.act World.freshNumber
  Program.all ((jobs.zip numbers).zipIdx.map fun ((job, number), k) =>
    afterOthers (numbers.take (k + 1 - width)) number job)

def inOrder : List (Except Failure α) → Except Failure (List α)
  | [] => .ok []
  | .ok a :: rest => (inOrder rest).map (a :: ·)
  | .error e :: _ => .error e

/-- Diagnose the files of a pattern. Several files are given less time each than a single one. -/
def diagnoseGlob (s : Session ε) (pattern : String) (max : Option Nat) (token : Token) :
    Work ε (Except Failure GlobReport) := do
  let max := max.getD s.settings.maxGlobTargets
  match ← Work.inBackground fun w => (Glob.expand w.files s.root pattern max, w) with
  | .error e => return .error e
  | .ok expansion =>
    let timeout := if expansion.files.length > 1 then s.settings.batchDiagnosticsTimeout
      else s.settings.diagnosticsTimeout
    let reports ← windowed filesAtOnce
      (expansion.files.map fun path => s.diagnosePath path timeout token)
    return (inOrder reports).map fun files =>
      { pattern, files, total := expansion.total
        ignoreRulesApplied := expansion.ignoreRulesApplied }

end Session

end LspClient
