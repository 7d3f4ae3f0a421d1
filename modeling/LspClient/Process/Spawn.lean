import LspClient.Environment.Secret
import LspClient.FileTree.Operations
import LspClient.Process.Channel

/-!
# Starting processes

A program is named by a path if its name has a slash, and searched for in a list of directories
otherwise. What is found is native, or a script that names its interpreter in its first line.

A process runs a native program beside everything else, with pipes for what it reads and writes.
It inherits the environment but for its secrets. When it ends its pipes are closed and its status
is known. A signal ends it before its next step.

The programs themselves are given by a `Machine`.
-/

namespace LspClient

/-! ### Finding programs -/

/-- What a file that is run turns out to be. -/
inductive Image where
  | native (name : String)
  | script (interpreter : String) (argument : Option String)
  deriving DecidableEq, Repr, Inhabited

namespace Image

/-- How the content of a native program begins. -/
def mark : List UInt8 := [0x7F, 0x45, 0x4C, 0x46]

def nativeContent (name : String) : List UInt8 := mark ++ Utf8.encode name

/-- The interpreter that a line asks for, and the one argument that may follow it. -/
def ofLine (line : List Char) : Option Image :=
  let isBlank (c : Char) : Bool := c = ' ' || c = '\t'
  let (interpreter, rest) := (line.dropWhile isBlank).span fun c => !isBlank c
  let argument := ((rest.dropWhile isBlank).reverse.dropWhile isBlank).reverse
  if interpreter = [] then none
  else some (.script (String.ofList interpreter)
    (if argument = [] then none else some (String.ofList argument)))

def ofContent (content : List UInt8) : Option Image :=
  match content with
  | 0x23 :: 0x21 :: rest => ofLine (Utf8.decodeLossy (rest.takeWhile (· != 10))).toList
  | content =>
    if mark.isPrefixOf content then some (.native (Utf8.decodeLossy (content.drop mark.length)))
    else none

end Image

namespace FileTree

/-- The tree as a process in another directory sees it. -/
def seenFrom (t : FileTree) (cwd : Location) : FileTree := { t with cwd }

/-- The content of a file that may be run. -/
def runnable (t : FileTree) (p : Path) : Except FileError (List UInt8) := do
  match ← t.stat p with
  | (_, .file content mode) =>
    if (Node.file content mode).searchable then return content else .error .permissionDenied
  | _ => .error .permissionDenied

/-- Search directories for a program; the first one that may be run counts. -/
def searchIn (t : FileTree) (name : String) (otherwise : FileError) :
    List Path → Except FileError Path
  | [] => .error otherwise
  | dir :: rest =>
    let p := dir.join ⟨name⟩
    match t.runnable p with
    | .ok _ => .ok p
    | .error .permissionDenied => searchIn t name .permissionDenied rest
    | .error _ => searchIn t name otherwise rest

/-- Where the program called `name` is. -/
def findProgram (t : FileTree) (dirs : List Path) (name : String) : Except FileError Path :=
  if name = "" then .error .notFound
  else if name.toList.contains '/' then (t.runnable ⟨name⟩).map fun _ => ⟨name⟩
  else t.searchIn name .notFound dirs

/-- How many scripts may interpret one another. -/
def maxInterpreters : Nat := 4

/-- The native program that a file comes to, and the arguments that it is given in front. -/
def imageOf (t : FileTree) : Nat → Path → Except FileError (String × List String)
  | 0, _ => .error .linkLoop
  | n + 1, p =>
    match t.runnable p with
    | .error e => .error e
    | .ok content =>
      match Image.ofContent content with
      | none => .error .notProgram
      | some (.native name) => .ok (name, [])
      | some (.script interpreter argument) =>
        (imageOf t n ⟨interpreter⟩).map fun (name, front) =>
          (name, front ++ [interpreter] ++ argument.toList ++ [p.text])

/-- The native program that a command line runs, with its arguments. The first of these is the
name by which the program was called. -/
def commandLine (t : FileTree) (dirs : List Path) (program : String) (args : List String) :
    Except FileError (String × List String) := do
  let p ← t.findProgram dirs program
  match ← t.imageOf maxInterpreters p with
  | (name, []) => return (name, program :: args)
  | (name, front) => return (name, front ++ args)

end FileTree

/-- The directories of the variable that lists them. -/
def searchPath (environment : List (String × String)) : List Path :=
  match environment.lookup "PATH" with
  | some dirs => (dirs.splitOn ":").map fun d => ⟨if d = "" then "." else d⟩
  | none => [⟨"/bin"⟩, ⟨"/usr/bin"⟩]

/-! ### Processes -/

/-- What a process begins with. -/
structure Invocation where
  /-- Its number among the children. -/
  child : Nat
  /-- Its arguments, the name of the program first. -/
  args : List String
  environment : List (String × String)
  cwd : Location
  input : Channel
  output : Channel
  errors : Channel
  deriving Repr, Inhabited

/-- Runs native programs by their names. -/
abbrev Machine (ε : Type) := String → Invocation → Work ε ExitStatus

/-- A process that was started, and the pipes to it. -/
structure Running where
  child : Nat
  input : Nat
  output : Nat
  errors : Nat
  deriving DecidableEq, Repr, Inhabited

namespace Process

variable {ε : Type}

/-- What a process is told of the environment, in the order of the names. -/
def withoutSecrets (environment : List (String × String)) : List (String × String) :=
  (environment.filter fun e => !Environment.isSecret e.1).mergeSort fun a b => a.1 ≤ b.1

/-- The directory a process is to run in. -/
def directory (files : FileTree) : Option Path → Except FileError Location
  | none => .ok files.cwd
  | some dir => do
    let (loc, node) ← files.stat dir
    if !node.isDir then .error .notDirectory
    else if !node.searchable then .error .permissionDenied
    else return loc

/-- Whether a command can be handed to the system as it is. -/
def isPlain (program : String) (args : List String) (dir : Option Path) : Bool :=
  (program :: (dir.toList.map Path.text ++ args)).all fun s => !s.toList.contains '\x00'

/-- What is to be run, and where. -/
def plan (w : World ε) (program : String) (args : List String) (dir : Option Path) :
    Except FileError (String × List String × Location) := do
  if !isPlain program args dir then throw .nullInCommand
  let cwd ← directory w.files dir
  let (name, args) ← (w.files.seenFrom cwd).commandLine (searchPath w.environment) program args
  return (name, args, cwd)

structure Begun where
  program : String
  invocation : Invocation
  running : Running

/-- Make a process, which does not run yet. -/
def prepare (program : String) (args : List String) (dir : Option Path) (w : World ε) :
    Except FileError Begun × World ε :=
  match plan w program args dir with
  | .error e => (.error e, w)
  | .ok (name, args, cwd) =>
    let (child, w) := w.newChild
    let (input, w) := w.newPipe
    let (output, w) := w.newPipe
    let (errors, w) := w.newPipe
    let invocation : Invocation :=
      { child, args, environment := withoutSecrets w.environment, cwd
        input := .pipe input, output := .pipe output, errors := .pipe errors }
    (.ok ⟨name, invocation, ⟨child, input, output, errors⟩⟩, w)

def isSignalled (child : Nat) (w : World ε) : Bool := (w.child child).signal.isSome

/-- How a process ended whose program came to a status or to none. -/
def finalStatus (c : Child) : Option ExitStatus → ExitStatus
  | some status => status
  | none => .signal (c.signal.getD 0)

/-- Record the end of a process, and close its ends of the pipes. -/
def conclude (r : Running) (status : Option ExitStatus) (w : World ε) : World ε :=
  let w := w.onChild r.child fun c => { c with status := some (finalStatus c status) }
  ((w.onPipe r.input Pipe.closeSink).onPipe r.output Pipe.closeSource).onPipe r.errors
    Pipe.closeSource

def life (machine : Machine ε) (b : Begun) : Work ε Unit := do
  let status ← (machine b.program b.invocation).abandonWhen (isSignalled b.running.child)
  Program.update (conclude b.running status)

/-- Start a process. -/
def start (machine : Machine ε) (program : String) (args : List String) (dir : Option Path) :
    Work ε (Except FileError Running) := do
  match ← Program.act (prepare program args dir) with
  | .error e => return .error e
  | .ok b =>
    Program.fork (life machine b)
    return .ok b.running

def kill (child signal : Nat) : Work ε Unit :=
  Program.update (World.onChild child (Child.kill signal))

/-- The signal that cannot be refused. -/
def killSignal : Nat := 9

def hasEnded (child : Nat) (w : World ε) : Option (ExitStatus × World ε) :=
  (w.child child).status.map fun s => (s, w)

/-- Wait for the end of a process. -/
def join (child : Nat) : Work ε ExitStatus := Program.wait (hasEnded child)

/-- Wait for the end of a process, but only so long; the answer says whether it came. -/
def joinWithin (child timeout : Nat) : Work ε Bool := do
  let limit := (← Work.now) + timeout
  Program.waitUntil limit fun w =>
    if (w.child child).status.isSome then some (true, w)
    else if limit ≤ w.clock then some (false, w) else none

end Process

end LspClient
