import LspClient.CommandLine.Arguments
import LspClient.FileTree.Operations
import LspClient.Session.Processes
import LspClient.Settings.File
import LspClient.Write.Pipeline

/-!
# Running a command

A command runs in a session of its own, whose servers are stopped in the end. Its report goes to
the output; whether there are errors in what it reports on shows in the exit code. Where the
command itself fails the reason is told apart, with what is behind it.

A run sees the files that its command line names, and no others. They are put into a tree before
it, and what is different in the tree afterwards is to be written.
-/

namespace LspClient.CommandLine

variable {ε : Type}

/-- What a run leaves behind. -/
structure Finished where
  code : Nat
  output : String
  errors : String
  deriving DecidableEq, Repr

/-- Why a command failed, and what is behind that. -/
structure CommandFailure where
  message : String
  cause : Option String
  deriving DecidableEq, Repr

/-- A text with its lines set in. -/
def setIn (s : String) : String := "    " ++ s.replace "\n" "\n    "

def CommandFailure.text (e : CommandFailure) : String :=
  match e.cause with
  | none => s!"Error: {e.message}\n"
  | some cause => s!"Error: {e.message}\n\nCaused by:\n{setIn cause}\n"

def Finished.failed (e : CommandFailure) : Finished := ⟨1, "", e.text⟩

/-- A report that holds `errors` errors. -/
def Finished.reported (report : String) (errors : Nat) : Finished :=
  ⟨if errors = 0 then 0 else 1, report, ""⟩

def usage : String := String.join [
  "Usage: [--config FILE] [--root DIR] COMMAND\n",
  "\n",
  "  status\n",
  "  diagnose PATTERN [--max N]\n",
  "  write PATH [--input FILE] [--no-format] [--no-diagnostics]\n",
  "  format PATH\n"]

def Finished.misused : Finished := ⟨2, "", usage⟩

/-! ### Commands -/

/-- The line of a server entry: what runs for it, and for which files. -/
def entryLine (name : String) (c : ServerConfig) : String :=
  let extensions := ", ".intercalate c.fileExtensions
  s!"{name}: {c.adapter.getD c.command} [{extensions}]\n"

def status (s : Session ε) : Work ε Finished := do
  let running ← Program.look Registry.status
  return .reported
    (String.join (s.settings.servers.map fun (name, c) => entryLine name c) ++
      String.join (running.map fun r => r.line ++ "\n")) 0

def diagnose (s : Session ε) (pattern : String) (max : Option Nat) : Work ε Finished := do
  match ← s.diagnoseGlob pattern max Token.never with
  | .error e => return .failed ⟨e.message, none⟩
  | .ok report => return .reported report.render report.errorCount

/-- What is to be written: a file, or else the standard input. -/
def contentFor (input : Option Path) (stdin : List UInt8) (files : FileTree) :
    Except CommandFailure String :=
  match input with
  | some path =>
    (files.readText path).mapError fun e => ⟨s!"failed to read {path}", some e.message⟩
  | none =>
    (Utf8.decode stdin).mapError fun e => ⟨"failed to read stdin", some e.message⟩

def writeOutcome : Session.WriteOutcome → Finished
  | .written report =>
    .reported report.render ((report.diagnostics.map FileReport.errorCount).getD 0)
  | .flushed report => .reported report.render report.errorCount
  | .deferred _ _ => .reported "" 0

def write (s : Session ε) (path : Path) (input : Option Path) (format diagnostics : Bool)
    (stdin : List UInt8) : Work ε Finished := do
  match ← Program.look fun w => contentFor input stdin w.files with
  | .error e => return .failed e
  | .ok content =>
    let usual := Session.optionsOf s.settings
    let options : WriteOptions := ⟨usual.format && format, usual.diagnostics && diagnostics⟩
    match ← s.write path content options none Token.never with
    | .error e => return .failed ⟨s!"failed to write {path}", some e.message⟩
    | .ok outcome => return writeOutcome outcome

def format (s : Session ε) (path : Path) : Work ε Finished := do
  match ← s.formatFile path Token.never with
  | .error e => return .failed ⟨s!"failed to format {path}", some e.message⟩
  | .ok report => return .reported report.render 0

def perform (s : Session ε) (stdin : List UInt8) : Command → Work ε Finished
  | .status => status s
  | .diagnose pattern max => diagnose s pattern max
  | .write path input formatted diagnosed => write s path input formatted diagnosed stdin
  | .format path => format s path

/-- Perform a command, and stop all servers. -/
def performAlone (s : Session ε) (stdin : List UInt8) (c : Command) : Work ε Finished := do
  s.begin
  let finished ← perform s stdin c
  let _ ← Registry.shutdownAll
  return finished

/-! ### Command lines -/

/-- The home directory, if the environment names one. -/
def homeOf (environment : List (String × String)) : Option Path :=
  (environment.lookup "HOME").bind path?

/-- Run a request in a world. -/
def runRequest (machine : Machine ε) (r : Request) (stdin : List UInt8) (w : World ε) :
    Finished × World ε :=
  match Settings.load w.files (homeOf w.environment) r.config with
  | .error e => (.failed ⟨e.message, e.cause?⟩, w)
  | .ok settings =>
    let root := r.root.getD w.files.workingDirectory
    match Pool.run (performAlone (Session.ofProcesses machine root settings) stdin r.command) w with
    | (some finished, w) => (finished, w)
    | (none, w) => (.failed ⟨"nothing goes on", none⟩, w)

/-- Run a command line in a world. -/
def run (machine : Machine ε) (args : List String) (stdin : List UInt8) (w : World ε) :
    Finished × World ε :=
  match read args with
  | none => (.misused, w)
  | some r => runRequest machine r stdin w

/-! ### The files of a run -/

/-- The files that a command is about. -/
def Command.files : Command → List Path
  | .status => []
  | .diagnose pattern _ => [⟨pattern⟩]
  | .write path _ _ _ => [path]
  | .format path => [path]

/-- The files that a request names, and the file of settings. -/
def Request.files (r : Request) (home : Option Path) (cwd : Path) : List Path :=
  let settings := (r.config.or (home.map Settings.defaultFile)).toList
  let root := cwd.join (r.root.getD cwd)
  let input := match r.command with
    | .write _ input _ _ => input.toList
    | _ => []
  settings.map cwd.join ++ input.map cwd.join ++ r.command.files.map root.join

/-- A tree in which a directory is made. -/
def withDir (t : FileTree) (dir : Path) : FileTree := (t.makeDirAll dir).tree

/-- A tree with one more file in it. -/
def withFile (t : FileTree) (path : Path) (content : List UInt8) : FileTree :=
  let t := match path.parent? with
    | some dir => withDir t dir
    | none => t
  (t.writeFile path content).toOption.getD t

/-- The tree that a run begins with. -/
def treeOf (cwd : Path) (files : List (Path × List UInt8)) : FileTree :=
  let t := withDir FileTree.empty cwd
  files.foldl (fun t (path, content) => withFile t path content)
    { t with cwd := FileTree.namesOf cwd.text }

/-- The files whose content a run has made or changed. -/
def changedFiles (before after : FileTree) : List (Path × List UInt8) :=
  after.entries.filterMap fun (loc, node) =>
    match node with
    | .file content _ =>
      if before.get? loc == some node then none else some (⟨"/" ++ "/".intercalate loc⟩, content)
    | _ => none

end LspClient.CommandLine
