import LspClient.Path

/-!
# Status lines

One line on each entry of the registry.
-/

namespace LspClient

inductive ConnectionState where
  | starting
  | ready
  | closed
  deriving DecidableEq, Repr

def ConnectionState.label : ConnectionState → String
  | .starting => "starting"
  | .ready => "ready"
  | .closed => "closed"

structure ConnectionStatus where
  name : String
  state : ConnectionState
  fileTypes : List String
  openFiles : Nat
  cwd : String
  deriving Repr

namespace ConnectionStatus

def line (s : ConnectionStatus) : String :=
  let types := if s.fileTypes.isEmpty then "-" else ",".intercalate s.fileTypes
  s!"{s.name}: {s.state.label} [{types}] open={s.openFiles} cwd={s.cwd}"

/-- Whether `a` comes before `b`: by name, then by directory. -/
def before (a b : ConnectionStatus) : Bool :=
  a.name < b.name || (a.name == b.name && a.cwd ≤ b.cwd)

end ConnectionStatus

end LspClient
