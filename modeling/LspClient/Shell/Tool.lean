import LspClient.Process.Channel
import LspClient.Process.Spawn
import LspClient.Shell.FileTool
import LspClient.Shell.Sed

/-!
# Tools

The programs that a shell finds, as programs over the world: filters, tools for files, and those
that go on reading or writing while they run.
-/

namespace LspClient.Shell

/-- What a tool is run with. -/
structure Call where
  args : List Octets
  environment : List (Octets × Octets)
  cwd : Location
  input : Channel
  output : Channel
  errors : Channel

namespace Tool

variable {ε : Type}

/-- The status of a program that wrote where nobody reads. -/
def brokenPipeStatus : Nat := 141

def emit (c : Channel) (cs : Octets) : Work ε Bool := c.write (Octets.toBytes cs)

/-- Write the output, and end with a status. -/
def finish (c : Call) (output : Octets) (status : Nat) : Work ε Nat := do
  if ← emit c.output output then return status else return brokenPipeStatus

/-- Read a file, as it is seen from the directory of a call. -/
def readFile (c : Call) (name : Octets) : Work ε (Except FileError (List UInt8)) :=
  Program.look fun w => (w.files.seenFrom c.cwd).readFile (FileTool.pathOf name)

/-! ### Filters -/

def filters : List (String × (List Octets → Option Filter)) := [
  ("tr", fun args => some (Filter.tr args)),
  ("sort", fun args => some (Filter.sort args)),
  ("uniq", fun args => some (Filter.uniq args)),
  ("rev", fun args => some (Filter.rev args)),
  ("tac", fun args => some (Filter.tac args)),
  ("wc", fun args => some (Filter.wc args)),
  ("cut", fun args => some (Filter.cut args)),
  ("tail", fun args => some (Filter.tail args)),
  ("grep", fun args => some (Filter.grep args)),
  ("sed", Sed.filter)]

/-- How a tool says that it cannot read a file, and the status it then ends with. -/
def unreadable (tool : String) (name : Octets) (reason : String) : Octets × Nat :=
  let file := Octets.toText name
  let say (text : String) (status : Nat) := (FileTool.complaint tool text, status)
  match tool with
  | "head" | "tail" => say s!"cannot open '{file}' for reading: {reason}" 1
  | "tac" => say s!"failed to open '{file}' for reading: {reason}" 1
  | "rev" => say s!"cannot open {file}: {reason}" 1
  | "sort" => say s!"cannot read: {file}: {reason}" 2
  | "sed" => say s!"can't read {file}: {reason}" 2
  | "grep" => say s!"{file}: {reason}" 2
  | _ => say s!"{file}: {reason}" 1

/-- The contents of operands, with the status that those which cannot be read lead to. -/
def contents (tool : String) (c : Call) :
    List Octets → Work ε (List (Octets × Octets) × Nat)
  | [] => pure ([], 0)
  | name :: rest => do
    let read ← if name = ['-'] then Except.ok <$> c.input.readAll else readFile c name
    match read with
    | .ok bytes =>
      let (more, status) ← contents tool c rest
      return ((name, Octets.ofBytes bytes) :: more, status)
    | .error e =>
      let (text, status) := unreadable tool name e.reason
      let _ ← emit c.errors text
      let (more, other) ← contents tool c rest
      return (more, max status other)

def runFilter (tool : String) (f : Filter) (c : Call) : Work ε Nat := do
  let operands := if f.operands.isEmpty then [['-']] else f.operands
  let (inputs, failed) ← contents tool c operands
  let (output, status) := f.apply inputs
  finish c output (max status failed)

/-! ### Tools for files -/

/-- Run a step on the files, as they are seen from the directory of a call. -/
def onFiles (c : Call) (f : FileTree → List Octets → Report) (w : World ε) : Report × World ε :=
  let r := f (w.files.seenFrom c.cwd) c.args
  (r, { w with files := r.files.seenFrom w.files.cwd })

def runFileTool (f : FileTree → List Octets → Report) (c : Call) : Work ε Nat := do
  let r ← Program.act (onFiles c f)
  unless r.errors.isEmpty do
    let _ ← emit c.errors r.errors
  if r.output.isEmpty then return r.status else finish c r.output r.status

/-! ### Tools that go on -/

def copyThrough (input output : Channel) : Nat → Work ε Bool
  | 0 => pure true
  | n + 1 => do
    match ← input.read Pipe.capacity with
    | [] => return true
    | part => if ← output.write part then copyThrough input output n else return false

def catEach (c : Call) (status : Nat) : List Octets → Work ε Nat
  | [] => pure status
  | name :: rest => do
    if name = ['-'] then
      if ← copyThrough c.input c.output Channel.maxReads then catEach c status rest
      else return brokenPipeStatus
    else
      match ← readFile c name with
      | .ok bytes =>
        if ← c.output.write bytes then catEach c status rest else return brokenPipeStatus
      | .error e =>
        let _ ← emit c.errors (unreadable "cat" name e.reason).1
        catEach c 1 rest

def cat (c : Call) : Work ε Nat :=
  let operands := (Filter.options c.args).2
  catEach c 0 (if operands.isEmpty then [['-']] else operands)

/-- Read just so many bytes, or all there are. -/
def readExactly (input : Channel) : Nat → Nat → List UInt8 → Work ε (List UInt8)
  | 0, _, acc => pure acc
  | _, 0, acc => pure acc
  | fuel + 1, n, acc => do
    match ← input.read n with
    | [] => return acc
    | part => readExactly input fuel (n - part.length) (acc ++ part)

/-- How much is read at once by a tool that looks for lines. -/
def blockSize : Nat := 8192

/-- Read blocks until there are so many lines. -/
def readLines (input : Channel) (count : Nat) : Nat → Octets → Work ε Octets
  | 0, acc => pure acc
  | fuel + 1, acc => do
    if count ≤ acc.count '\n' then return acc
    else
      match ← input.read blockSize with
      | [] => return acc
      | part => readLines input count fuel (acc ++ Octets.ofBytes part)

def firstOf (count : Octets) (ofBytes : Bool) (cs : Octets) : Octets :=
  match count with
  | '-' :: n =>
    let k := (Octets.nat? n).getD 0
    if ofBytes then cs.take (cs.length - k)
    else
      let ls := Filter.linesWithEnds cs
      (ls.take (ls.length - k)).flatten
  | n =>
    let k := (Octets.nat? n).getD 10
    if ofBytes then cs.take k else ((Filter.linesWithEnds cs).take k).flatten

def head (c : Call) : Work ε Nat := do
  let (count, ofBytes, operands) := Filter.countOption ['1', '0'] c.args
  let fromInput : Work ε Octets :=
    match count with
    | '-' :: _ => Octets.ofBytes <$> c.input.readAll
    | n =>
      let k := (Octets.nat? n).getD 10
      if ofBytes then Octets.ofBytes <$> readExactly c.input (k + 1) k []
      else readLines c.input k Channel.maxReads []
  if operands.isEmpty || operands = [['-']] then
    finish c (firstOf count ofBytes (← fromInput)) 0
  else
    let (inputs, status) ← contents "head" c operands
    finish c (inputs.flatMap fun (_, cs) => firstOf count ofBytes cs) status

def tee (c : Call) : Work ε Nat := do
  let (letters, operands) := Filter.options c.args
  let bytes ← c.input.readAll
  let store (t : FileTree) (name : Octets) : FileTree :=
    let path := FileTool.pathOf name
    let old := if letters.contains 'a' then (t.readFile path).toOption.getD [] else []
    (t.writeFile path (old ++ bytes)).toOption.getD t
  Program.update fun w =>
    { w with files := (operands.foldl store (w.files.seenFrom c.cwd)).seenFrom w.files.cwd }
  finish c (Octets.ofBytes bytes) 0

/-- The milliseconds of a duration in seconds. -/
def duration (cs : Octets) : Nat :=
  let whole := cs.takeWhile Char.isDigit
  let ms := (Octets.nat? whole).getD 0 * 1000
  match cs.drop whole.length with
  | '.' :: rest =>
    let ds := ((rest.takeWhile Char.isDigit) ++ ['0', '0', '0']).take 3
    ms + (Octets.nat? ds).getD 0
  | ['m'] => ms * 60
  | ['h'] => ms * 3600
  | _ => ms

def sleep (c : Call) : Work ε Nat := do
  Work.sleep (c.args.foldl (fun ms arg => ms + duration arg) 0)
  return 0

/-- Write a line again and again, as long as somebody reads. -/
def repeatLine (c : Call) (line : List UInt8) : Nat → Work ε Nat
  | 0 => pure 0
  | n + 1 => do
    if ← c.output.write line then repeatLine c line n else return brokenPipeStatus

def yes (c : Call) : Work ε Nat :=
  let line := if c.args.isEmpty then ['y'] else List.intercalate [' '] c.args
  repeatLine c (Octets.toBytes (line ++ ['\n'])) 100000

def printenv (c : Call) : Work ε Nat :=
  match c.args with
  | [] => finish c (c.environment.flatMap fun (k, v) => k ++ '=' :: v ++ ['\n']) 0
  | names =>
    let values := names.filterMap fun n => c.environment.lookup n
    finish c (Octets.unlines values) (if values.length = names.length then 0 else 1)

/-- The path of a location. -/
def locationText (loc : Location) : Octets := Octets.ofText ("/" ++ "/".intercalate loc)

def pwd (c : Call) : Work ε Nat := finish c (locationText c.cwd ++ ['\n']) 0

def others : List (String × (Call → Work ε Nat)) := [
  ("cat", cat), ("head", head), ("tee", tee), ("sleep", sleep), ("yes", yes),
  ("printenv", printenv), ("pwd", pwd)]

/-- Run a tool by its name. -/
def run (name : String) (c : Call) : Work ε Nat :=
  match others.lookup name, FileTool.table.lookup name, filters.lookup name with
  | some tool, _, _ => tool c
  | _, some f, _ => runFileTool f c
  | _, _, some make =>
    match make c.args with
    | some f => runFilter name f c
    | none => do
      let _ ← emit c.errors (FileTool.complaint name "bad arguments")
      return 1
  | none, none, none => pure 127

/-- The names of all tools. -/
def names : List String :=
  ["cat", "head", "tee", "sleep", "yes", "printenv", "pwd"] ++ FileTool.table.map (·.1) ++
    filters.map (·.1)

end Tool

end LspClient.Shell
