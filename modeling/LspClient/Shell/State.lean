import LspClient.Shell.Arithmetic
import LspClient.Shell.Script
import LspClient.Shell.Tool
import LspClient.Table

/-!
# The state of a shell

Variables, functions, arguments, channels, and the status of what was run last. A `Run` is a
program that works on such a state and may stop for a reason other than its end.
-/

namespace LspClient.Shell

structure Variable where
  value : Octets
  exported : Bool
  deriving Inhabited

structure State where
  /-- The name by which the shell was called. -/
  name : Octets
  args : List Octets
  vars : Table Octets Variable
  functions : Table Octets Command
  cwd : Location
  channels : Table Nat Channel
  status : Nat
  /-- The status of the last substitution of a command, in the command at hand. -/
  substituted : Option Nat
  /-- The number of the process, and of the child where the shell is a child of the client. -/
  process : Nat
  child : Option Nat
  /-- Whether a failure ends the shell, and whether it is looked for at the moment. -/
  exitsOnFailure : Bool
  tested : Bool
  deriving Inhabited

/-- Why a script does not go on. -/
inductive Stop where
  | exit
  | leaveLoops (n : Nat)
  | nextRound (n : Nat)
  | leaveFunction
  deriving DecidableEq, Repr

abbrev Run (ε α : Type) := ExceptT Stop (StateT State (Program (World ε))) α

namespace Run

variable {ε α : Type}

def lift (p : Work ε α) : Run ε α := fun s => p.bind fun a => .done (.ok a, s)

def setStatus (n : Nat) : Run ε Unit := modify fun s => { s with status := n }

/-- Stop with a status. -/
def exitWith (n : Nat) : Run ε α := do
  setStatus n
  throw .exit

/-! ### Channels -/

def channel (n : Nat) : Run ε Channel := do
  return (Table.get? (← get).channels n).getD .null

/-- Write to a channel; a shell that nobody reads ends. -/
def write (n : Nat) (cs : Octets) : Run ε Unit := do
  unless ← lift ((← channel n).write (Octets.toBytes cs)) do
    exitWith Tool.brokenPipeStatus

/-- Write a complaint of the shell itself. -/
def complain (text : Octets) : Run ε Unit := do
  write 2 ((← get).name ++ ": 1: ".toList ++ text ++ ['\n'])

/-! ### Parameters -/

def setVariable (name value : Octets) : Run ε Unit :=
  modify fun s =>
    let exported := (Table.get? s.vars name).any Variable.exported
    { s with vars := Table.put s.vars name ⟨value, exported⟩ }

/-- The number at which processes are counted. -/
def firstProcess : Nat := 1000

def valueOf (s : State) (name : Octets) : Option Octets :=
  match name with
  | ['#'] => some (Octets.ofNat s.args.length)
  | ['?'] => some (Octets.ofNat s.status)
  | ['$'] => some (Octets.ofNat s.process)
  | ['!'] => none
  | ['-'] => some (if s.exitsOnFailure then ['e'] else [])
  | ['@'] => if s.args.isEmpty then none else some (List.intercalate [' '] s.args)
  | ['*'] => if s.args.isEmpty then none else some (List.intercalate [' '] s.args)
  | name =>
    if name.all Char.isDigit then
      match Octets.nat? name with
      | some 0 => some s.name
      | some n => s.args[n - 1]?
      | none => none
    else (Table.get? s.vars name).map Variable.value

/-- The characters that part fields. -/
def separators (s : State) : Octets := (valueOf s "IFS".toList).getD [' ', '\t', '\n']

/-- The number of chains in which variables are kept. -/
def chains : Nat := 39

/-- The chain of a variable, by the characters of its name. -/
def chainOf (name : Octets) : Nat :=
  (name.foldl (fun n c => n + c.toNat) 0 + 16 * ((name.head?.map Char.toNat).getD 0)) % chains

/-- The variables that programs are told of, chain after chain. -/
def environment (s : State) : List (Octets × Octets) :=
  (s.vars.filterMap fun (k, v) => if v.exported then some (k, v.value) else none).mergeSort
    fun a b => chainOf a.1 ≤ chainOf b.1

/-- The directories in which programs are searched for. -/
def directories (s : State) : List Path :=
  searchPath ((valueOf s "PATH".toList).map fun p => ("PATH", Octets.toText p)).toList

/-! ### Files -/

def look (f : FileTree → α) : Run ε α := do
  let cwd := (← get).cwd
  lift (Program.look fun w => f (w.files.seenFrom cwd))

/-- Run a tool that reads no input as a part of the shell. -/
def withFiles (f : FileTree → List Octets → Report) (args : List Octets) : Run ε Report := do
  let cwd := (← get).cwd
  let call : Call := ⟨args, [], cwd, .null, .null, .null⟩
  lift (Program.act (Tool.onFiles call f))

end Run

end LspClient.Shell
