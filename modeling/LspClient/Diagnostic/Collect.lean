import LspClient.Diagnostic.Report
import LspClient.Document.Sync
import LspClient.Server.Target

/-!
# Collecting diagnostics

The diagnostics of a file, from all servers that apply to it at once. A protocol server is sent the
file as it is on disk and then given time to publish: what counts is newer than its floor, the
number of publishes when the waiting began unless another is given. A linter is asked directly.
-/

namespace LspClient

/-- An adapter for a tool that speaks no protocol. -/
structure Linter (ε : Type) where
  canFormat : Bool
  lint : Path → Limit → Work ε (Except Failure (List Diagnostic))
  format : Path → String → Token → Work ε (Except Failure String)

/-- A server that applies to a file, and how it is reached. -/
inductive Applicable where
  | protocol (name : String) (connection : Nat)
  | linter (name : String) (kind : LinterKind)
  deriving DecidableEq, Repr, Inhabited

/-- The linters a client knows, by the names of their entries and how they are reached. -/
abbrev Linters (ε : Type) := String → LinterKind → Linter ε

namespace Applicable

def name : Applicable → String
  | .protocol name _ => name
  | .linter name _ => name

def connection? : Applicable → Option Nat
  | .protocol _ c => some c
  | .linter .. => none

end Applicable

namespace Diagnostics

variable {ε : Type}

/-- How often the cache is looked at. -/
def pollInterval : Nat := 50

/-- Look at the cache until it is fresh, the connection has ended, or the deadline is there; at
most `rounds` times. -/
def waitUntilFresh (i : Nat) (uri : String) (deadline : Nat) (floor : Option Nat)
    (token : Token) : Nat → Work ε (Except Failure (List Diagnostic))
  | 0 => do return .ok ((((← Work.connection i).cache.get? uri).map (·.items)).getD [])
  | rounds + 1 => do
    let cached := (← Work.connection i).cache.get? uri
    let alive := (← Work.connection i).isAlive
    let now ← Work.now
    if DiagnosticsCache.isFresh cached floor || !alive || deadline ≤ now then
      return .ok ((cached.map (·.items)).getD [])
    else
      match ← Work.sleepWithin (Limit.ofToken token) (min deadline (now + pollInterval)) with
      | .error e => return .error e
      | .ok () => waitUntilFresh i uri deadline floor token rounds

/-- Wait for diagnostics newer than `floor`, or for any at all; when the time is over, take what
there is. -/
def waitForFresh (i : Nat) (uri : String) (timeout : Nat) (floor : Option Nat) (token : Token) :
    Work ε (Except Failure (List Diagnostic)) := do
  let deadline := (← Work.now) + timeout
  waitUntilFresh i uri deadline floor token (timeout / pollInterval + 2)

def ofProtocol (i : Nat) (path : Path) (uri : String) (timeout : Nat) (floor : Option Nat)
    (token : Token) : Work ε (Except Failure (List Diagnostic)) := do
  let floor := floor.getD (← Work.connection i).cache.version
  match ← Document.refresh i path token with
  | .error e => return .error e
  | .ok _ => waitForFresh i uri timeout (some floor) token

def ofLinter (linter : Linter ε) (path : Path) (timeout : Nat) (token : Token) :
    Work ε (Except Failure (List Diagnostic)) := do
  let expiry := (← Work.now) + timeout
  linter.lint path ⟨token, some (expiry, .timeout "lint" (timeout * 1000))⟩

/-- What one server says, under its name. -/
def ofTarget (linters : Linters ε) (path : Path) (uri : String) (timeout : Nat)
    (floors : List (String × Nat)) (token : Token) (target : Applicable) :
    Work ε (String × Except Failure (List Diagnostic)) := do
  match target with
  | .protocol name i =>
    return (name, ← ofProtocol i path uri timeout (floors.lookup name) token)
  | .linter name kind => return (name, ← ofLinter (linters name kind) path timeout token)

def wasCancelled (result : String × Except Failure (List Diagnostic)) : Bool :=
  match result.2 with
  | .error e => e.isCancelled
  | .ok _ => false

/-- Diagnose a file with all targets at once. A server that fails is left out; only cancellation
fails the whole. -/
def collect (linters : Linters ε) (path : Path) (targets : List Applicable)
    (timeout : Nat) (floors : List (String × Nat)) (token : Token) :
    Work ε (Except Failure FileReport) := do
  if targets.isEmpty then return .ok (FileReport.noServers path)
  else
    match Uri.ofPath path with
    | .error e => return .error e
    | .ok uri =>
      let results ← Program.all (targets.map (ofTarget linters path uri timeout floors token))
      if (← Work.isCancelled token) || results.any wasCancelled then return .error .cancelled
      else return .ok (FileReport.assemble path results)

end Diagnostics

end LspClient
