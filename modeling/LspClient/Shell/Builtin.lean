import LspClient.Shell.Field
import LspClient.Shell.State

/-!
# What a shell does itself

The commands that are part of a shell because they look at its state or change it, apart from
those that run other commands. A special one keeps the assignments in front of it.
-/

namespace LspClient.Shell.Builtin

variable {ε : Type}

open Run

/-! ### Output and files -/

/-- Write what a tool reports, and take over its status. -/
def report (r : Report) : Run ε Unit := do
  unless r.errors.isEmpty do
    write 2 ((← get).name ++ ": 1: ".toList ++ r.errors)
  unless r.output.isEmpty do
    write 1 r.output
  setStatus r.status

def echo (args : List Octets) : Run ε Unit := do
  write 1 (Formatted.echo args)
  setStatus 0

def pwd : Run ε Unit := do
  write 1 (Tool.locationText (← get).cwd ++ ['\n'])
  setStatus 0

def cd (args : List Octets) : Run ε Unit := do
  let home := (valueOf (← get) "HOME".toList).getD ['/']
  let target := args.head?.getD home
  match ← look fun t => t.stat (FileTool.pathOf target) with
  | .ok (loc, .dir _) =>
    modify fun s => { s with cwd := loc }
    setStatus 0
  | _ =>
    complain ("cd: can't cd to ".toList ++ target)
    setStatus 2

/-! ### Reading -/

/-- Read a line; unless it is raw a backslash at its end joins the next one to it. -/
def readJoined (raw : Bool) (c : Channel) : Nat → Octets → Run ε (Octets × Bool)
  | 0, acc => return (acc, false)
  | n + 1, acc => do
    let (line, ended) ← lift c.readLine
    let text := acc ++ Octets.ofBytes line
    let slashes := (text.reverse.takeWhile (· = '\\')).length
    if !raw && ended && slashes % 2 = 1 then readJoined raw c n text.dropLast
    else return (text, ended)

def setAll : List Octets → List Octets → Run ε Unit
  | name :: names, value :: values => do
    setVariable name value
    setAll names values
  | _, _ => return ()

def read (args : List Octets) : Run ε Unit := do
  let (letters, names) := Filter.options args
  if names.isEmpty then
    complain "read: arg count".toList
    setStatus 2
  else
    let raw := letters.contains 'r'
    let (line, ended) ← readJoined raw (← channel 0) Channel.maxReads []
    let field : Field := if raw then line.map fun c => (c, false) else markEscapes line
    setAll names (partLine (separators (← get)) names.length field)
    setStatus (if ended then 0 else 1)

/-! ### Variables and arguments -/

/-- A name, and the value that is given to it. -/
def nameAndValue (arg : Octets) : Octets × Option Octets :=
  match arg.span (· ≠ '=') with
  | (name, _ :: value) => (name, some value)
  | (name, []) => (name, none)

def export_ (args : List Octets) : Run ε Unit := do
  modify fun s =>
    { s with vars := args.foldl (fun vs arg =>
        let (name, value) := nameAndValue arg
        let old := ((Table.get? vs name).map Variable.value).getD []
        Table.put vs name ⟨value.getD old, true⟩) s.vars }
  setStatus 0

/-- Set the variables that arguments give values to. -/
def assignEach : List Octets → Run ε Unit
  | [] => setStatus 0
  | arg :: rest => do
    match nameAndValue arg with
    | (name, some value) => setVariable name value
    | (name, none) => if (valueOf (← get) name).isNone then setVariable name []
    assignEach rest

def unset (args : List Octets) : Run ε Unit := do
  let (letters, names) := Filter.options args
  modify fun s =>
    if letters.contains 'f' then
      { s with functions := names.foldl Table.erase s.functions }
    else { s with vars := names.foldl Table.erase s.vars }
  setStatus 0

def set : List Octets → Run ε Unit
  | ['-', '-'] :: args => do
    modify fun s => { s with args }
    setStatus 0
  | ('-' :: letters) :: rest => do
    modify fun s => { s with exitsOnFailure := s.exitsOnFailure || letters.contains 'e' }
    set rest
  | ('+' :: letters) :: rest => do
    modify fun s => { s with exitsOnFailure := s.exitsOnFailure && !letters.contains 'e' }
    set rest
  | [] => setStatus 0
  | args => do
    modify fun s => { s with args }
    setStatus 0

def shift (args : List Octets) : Run ε Unit := do
  let n := (args.head?.bind Octets.nat?).getD 1
  let s ← get
  if s.args.length < n then
    complain "shift: can't shift that many".toList
    exitWith 2
  else
    set { s with args := s.args.drop n, status := 0 }
where
  set (s : State) : Run ε Unit := modify fun _ => s

/-! ### Control -/

/-- The status that an argument asks for. -/
def statusOf (args : List Octets) : Run ε Nat := do
  return ((args.head?.bind Octets.nat?).getD (← get).status) % 256

def exit (args : List Octets) : Run ε Unit := do exitWith (← statusOf args)

def return_ (args : List Octets) : Run ε Unit := do
  setStatus (← statusOf args)
  throw .leaveFunction

def levels (args : List Octets) : Nat := (args.head?.bind Octets.nat?).getD 1

/-! ### Signals -/

def signalNumber (cs : Octets) : Option Nat :=
  match Octets.nat? cs with
  | some n => some n
  | none =>
    let name := (String.ofList cs).toUpper
    let short := if name.startsWith "SIG" then String.ofList (name.toList.drop 3) else name
    (signalNames.find? fun (_, n) => n == short).map (·.1)

/-- The signal and the processes of a command line. -/
def killArgs : List Octets → Option (Nat × List Octets)
  | ['-', 's'] :: name :: rest => (signalNumber name).map fun n => (n, rest)
  | ['-', '-'] :: rest => some (15, rest)
  | ('-' :: name) :: rest => (signalNumber name).map fun n => (n, rest)
  | rest => some (15, rest)

/-- Send a signal to a process. One that is sent to the shell itself ends it here. -/
def sendSignal (signal process : Nat) : Run ε Bool := do
  let s ← get
  let count ← lift (Program.look fun w => w.children.length)
  if signal = 0 then return true
  else if firstProcess ≤ process && process - firstProcess < count then
    lift (Program.update (World.onChild (process - firstProcess) (Child.kill signal)))
    if s.child = some (process - firstProcess) then
      lift (Program.wait fun _ => none)
    return true
  else if process = s.process then exitWith (128 + signal)
  else return false

def killEach (signal : Nat) : List Octets → Run ε Unit
  | [] => return ()
  | target :: rest => do
    let found ← match Octets.nat? target with
      | some process => sendSignal signal process
      | none => pure false
    unless found do
      complain ("kill: No such process".toList)
      setStatus 1
    killEach signal rest

def kill (args : List Octets) : Run ε Unit := do
  match killArgs args with
  | some (signal, targets) =>
    setStatus 0
    killEach signal targets
  | none =>
    complain "kill: Illegal option".toList
    setStatus 2

/-! ### All of them -/

/-- Those that keep the assignments in front of them. -/
def special : List String :=
  [":", "export", "readonly", "unset", "set", "shift", "exit", "return", "break", "continue",
    "trap", "eval", "exec", "."]

/-- Run a part of the shell by its name, if there is one. -/
def find (name : String) (args : List Octets) : Option (Run ε Unit) :=
  match name with
  | ":" | "true" | "trap" | "wait" | "umask" | "ulimit" | "hash" | "alias" => some (setStatus 0)
  | "false" => some (setStatus 1)
  | "echo" => some (echo args)
  | "printf" => some (do report (← withFiles FileTool.printf args))
  | "test" => some (do report (← withFiles FileTool.test args))
  | "[" => some (do report (← withFiles FileTool.bracket args))
  | "pwd" => some pwd
  | "cd" => some (cd args)
  | "read" => some (read args)
  | "export" => some (export_ args)
  | "readonly" | "local" => some (assignEach args)
  | "unset" => some (unset args)
  | "set" => some (set args)
  | "shift" => some (shift args)
  | "exit" => some (exit args)
  | "return" => some (return_ args)
  | "break" => some (throw (.leaveLoops (levels args)))
  | "continue" => some (throw (.nextRound (levels args)))
  | "kill" => some (kill args)
  | _ => none

end LspClient.Shell.Builtin
