import LspClient.Diagnostic.Collect
import LspClient.Process.Spawn
import LspClient.Registry.Connect
import LspClient.Session.Basic

/-!
# Sessions with processes

A session whose servers are processes of a machine. A protocol server talks over its standard
streams. Its command is a path, seen from the directory it runs in, if it has several components,
and searched for otherwise.

No adapter is registered, so the only linters are commands. A command formats what it reads and
writes the result. It runs in the directory of the file, whose path takes the place of `{file}` in
its arguments; it need not read all it is given. A command has nothing to say about a file.
-/

namespace LspClient.Server

/-! ### Launching servers -/

variable {ε : Type}

/-- The first directory that holds a program called `name`. -/
def whichOf (files : FileTree) (name : String) : List Path → Option Path
  | [] => none
  | dir :: rest =>
    let p := dir.join ⟨name⟩
    match files.runnable p with
    | .ok _ => some p
    | .error _ => whichOf files name rest

/-- The program of a command, or what is wrong with it. -/
def programOf (files : FileTree) (dirs : List Path) (command : String) (cwd : Path) :
    Except String Path :=
  let path : Path := ⟨command⟩
  if path.isAbsolute || path.components.length > 1 then
    let candidate := cwd.join path
    if files.isFile candidate then .ok candidate else .error s!"{candidate} does not exist"
  else
    match whichOf files command dirs with
    | some p => .ok p
    | none => .error s!"{command} not found in PATH: cannot find binary path"

/-- Start the server of an entry, and shake hands with it. -/
def launch (machine : Machine ε) (requestTimeout : Nat) : Connector ε := fun name config cwd => do
  match ← Program.look fun w =>
      programOf w.files (searchPath w.environment) config.command cwd with
  | .error m => return .error (.spawn name m)
  | .ok program =>
    match ← Process.start machine program.text config.args (some cwd) with
    | .error e => return .error (.spawn name s!"{program}: {e.message}")
    | .ok running =>
      let options := ConnectionOptions.ofServer name config cwd requestTimeout
      let i ← Connection.start options running.output running.input (some running)
      Connection.establish i config

end LspClient.Server

namespace LspClient.CommandLinter

/-! ### Formatting by a command -/

variable {ε : Type}

/-- What stands for the path of the file. -/
def placeholder : String := "\x7bfile\x7d"

/-- Write what a process is to read, and close its input. -/
def feed (r : Running) (bytes : List UInt8) : Work ε Unit := do
  let _ ← (Channel.pipe r.input).write bytes
  (Channel.pipe r.input).closeSource

structure Finished where
  status : ExitStatus
  output : List UInt8
  errors : List UInt8

/-- Feed a process, and take what it writes until it ends. -/
def converse (r : Running) (bytes : List UInt8) : Work ε Finished :=
  .both (feed r bytes)
    (.both (Channel.pipe r.output).readAll (Channel.pipe r.errors).readAll
      fun output errors => .done (output, errors))
    fun _ (output, errors) => do
      return ⟨← Process.join r.child, output, errors⟩

/-- What a command that ended makes of a file. -/
def result (name : String) (f : Finished) : Except Failure String :=
  if f.status.isSuccess then
    match Utf8.decode? f.output with
    | some text => .ok text
    | none => .error (.linter name "output is not valid UTF-8")
  else
    .error (.linter name s!"{f.status.message}: {Text.trim (Utf8.decodeLossy f.errors)}")

/-- The directory of a file, if its path says one. -/
def directoryOf (path : Path) : Option Path := path.parent?.filter fun dir => dir.text ≠ ""

/-- Stop a process that nobody waits for any longer. -/
def drop (r : Running) : Work ε Unit := do
  Process.kill r.child Process.killSignal
  (Channel.pipe r.input).closeSource
  (Channel.pipe r.output).closeSink
  (Channel.pipe r.errors).closeSink

def format (machine : Machine ε) (name program : String) (args : List String) (path : Path)
    (content : String) (token : Token) : Work ε (Except Failure String) := do
  if ← Work.isCancelled token then return .error .cancelled
  let args := args.map fun arg => arg.replace placeholder path.text
  match ← Process.start machine program args (directoryOf path) with
  | .error e => return .error (.linter name s!"spawning {program}: {e.message}")
  | .ok r =>
    match ← (converse r (Utf8.encode content)).abandonWhen fun w => w.isCancelled token with
    | some f => return result name f
    | none =>
      drop r
      return .error .cancelled

/-- The linter that an entry with a command stands for. -/
def make (machine : Machine ε) (name program : String) (args : List String) : Linter ε where
  canFormat := true
  lint _ _ := pure (.ok [])
  format := format machine name program args

end LspClient.CommandLinter

namespace LspClient

/-! ### Sessions -/

variable {ε : Type}

/-- The linters of commands; one that is not a command neither lints nor formats. -/
def CommandLinter.all (machine : Machine ε) : Linters ε := fun name kind =>
  match kind with
  | .command program args => CommandLinter.make machine name program args
  | .registered _ => ⟨false, fun _ _ => pure (.ok []), fun _ content _ => pure (.ok content)⟩

def Session.ofProcesses (machine : Machine ε) (root : Path) (settings : Settings) :
    Session ε where
  root := root
  settings := settings
  resolver := { root, servers := settings.servers, adapters := [] }
  connect := Server.launch machine settings.requestTimeout
  linters := CommandLinter.all machine

end LspClient
