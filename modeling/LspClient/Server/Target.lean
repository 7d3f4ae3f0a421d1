import LspClient.FileTree.Resolve
import LspClient.Settings.Basic

/-!
# Targets

The servers that apply to a file, in the order of the server table: every entry that covers the
extension of its name. A protocol server runs in the nearest directory above the file that holds
one of its root markers, but not above the session root if the file is below it; without a marker
it runs in the session root. An entry with an adapter is a linter, if there is an adapter of that
name, or if it is the one that pipes a file through the entry's own command.
-/

namespace LspClient

/-- How a linter is reached. -/
inductive LinterKind where
  /-- An adapter that is registered under `adapter`. -/
  | registered (adapter : String)
  | command (program : String) (args : List String)
  deriving DecidableEq, Repr, Inhabited

inductive Target where
  | protocol (name : String) (config : ServerConfig) (cwd : Path)
  | linter (name : String) (kind : LinterKind)
  deriving Repr, Inhabited

def Target.name : Target → String
  | .protocol name .. => name
  | .linter name .. => name

/-- What resolution goes by. -/
structure Resolver where
  root : Path
  servers : List (String × ServerConfig)
  /-- The names of the registered adapters. -/
  adapters : List String
  deriving Repr, Inhabited

namespace Resolver

def commandAdapter : String := "command"

def linterKind? (r : Resolver) (config : ServerConfig) (adapter : String) : Option LinterKind :=
  if r.adapters.contains adapter then some (.registered adapter)
  else if adapter = commandAdapter ∧ config.command ≠ "" then
    some (.command config.command config.args)
  else none

/-! ### The directory a server runs in -/

def holdsMarker (files : FileTree) (markers : List String) (dir : Path) : Bool :=
  markers.any fun marker => files.exists? (dir.join ⟨marker⟩)

/-- The first of `dirs` that holds a marker; the search ends behind the session root. -/
def nearestMarked (r : Resolver) (files : FileTree) (markers : List String) : List Path → Path
  | [] => r.root
  | dir :: rest =>
    if holdsMarker files markers dir then dir
    else if dir.Same r.root then r.root
    else nearestMarked r files markers rest

def workspaceRoot (r : Resolver) (files : FileTree) (path : Path) (markers : List String) : Path :=
  if markers.isEmpty then r.root else r.nearestMarked files markers path.ancestors

/-! ### Resolution -/

def target? (r : Resolver) (files : FileTree) (path : Path) (name : String)
    (config : ServerConfig) : Option Target :=
  match config.adapter with
  | some adapter => (r.linterKind? config adapter).map fun kind => .linter name kind
  | none => some (.protocol name config (r.workspaceRoot files path config.rootMarkers))

def resolve (r : Resolver) (files : FileTree) (path : Path) : List Target :=
  match path.extension? with
  | none => []
  | some ext =>
    (r.servers.filter fun (_, config) => config.handlesExtension ext).filterMap
      fun (name, config) => r.target? files path name config

end Resolver

end LspClient
