import LspClient.Path
import LspClient.Text.Blank

/-!
# What can go wrong

`Failure` is everything an operation on a server, a linter or a file can fail with, by cause.
`message` is its wording. Durations are in microseconds and shown in whole milliseconds.
-/

namespace LspClient

inductive Failure where
  /-- The server process could not be started. -/
  | spawn (server message : String)
  /-- Writing to a live server failed. -/
  | transport (server message : String)
  /-- The server answered a request with an error. -/
  | protocol (method : String) (code : Int) (message : String)
  | timeout (method : String) (elapsed : Nat)
  | cancelled
  /-- The server exited or its connection was shut down. -/
  | connectionClosed (server : String) (stderr : Option String)
  | handshake (server message : String)
  | file (path : Path) (message : String)
  | invalidUri (path : Path)
  | glob (pattern message : String)
  | linter (adapter message : String)
  deriving DecidableEq, Repr, Inhabited

namespace Failure

/-- The last words of a server, after the message that its connection closed. -/
def stderrSuffix (stderr : Option String) : String :=
  match stderr.map Text.trim with
  | some text => if text = "" then "" else "; stderr: " ++ text
  | none => ""

def message : Failure → String
  | .spawn server m => s!"failed to start '{server}': {m}"
  | .transport server m => s!"transport error on '{server}': {m}"
  | .protocol method code m => s!"{method} failed ({code}): {m}"
  | .timeout method elapsed => s!"{method} timed out after {elapsed / 1000}ms"
  | .cancelled => "operation cancelled"
  | .connectionClosed server stderr => s!"connection to '{server}' closed" ++ stderrSuffix stderr
  | .handshake server m => s!"handshake with '{server}' failed: {m}"
  | .file path m => s!"{path}: {m}"
  | .invalidUri path => s!"cannot convert path to file URI: {path}"
  | .glob pattern m => s!"invalid glob pattern '{pattern}': {m}"
  | .linter adapter m => s!"linter '{adapter}' failed: {m}"

def isCancelled : Failure → Bool
  | .cancelled => true
  | _ => false

def isTimeout : Failure → Bool
  | .timeout .. => true
  | _ => false

/-- Whether the connection is of no more use. -/
def isFatal : Failure → Bool
  | .transport .. => true
  | .connectionClosed .. => true
  | .handshake .. => true
  | _ => false

end Failure

end LspClient
