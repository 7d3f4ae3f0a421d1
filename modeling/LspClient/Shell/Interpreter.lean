import LspClient.Process.Spawn
import LspClient.Shell.Builtin
import LspClient.Shell.Reader
import LspClient.World

/-!
# Running scripts

Words are expanded when a command is run; redirections last as long as the command does. Programs
are found as the client finds them: tools run in place, and scripts by another shell. Commands of a
pipeline run side by side, each on a state of its own.

`fuel` bounds the depth of what is run and the rounds of a loop; a shell without fuel ends.

The programs of the shell stand where a system has them, and the environment says where that is
(`worldOfFiles`).
-/

namespace LspClient.Shell

variable {ε : Type}

open Run

/-! ### Running apart -/

/-- Run on a state of its own; the answer is the status. -/
def apart (s : State) (body : Run ε Unit) : Work ε Nat := do
  let (_, s) ← body s
  return s.status

/-- The channel `n` of a state, replaced. -/
def withChannel (s : State) (n : Nat) (c : Channel) : State :=
  { s with channels := Table.put s.channels n c }

def newPipe : Work ε Nat := Program.act World.newPipe

/-- What a program writes to a pipe, and its status. -/
def collectOutput (run : Channel → Work ε Nat) : Work ε (Nat × List UInt8) := do
  let i ← newPipe
  Program.pair (do
    let status ← run (.pipe i)
    Channel.closeSource (.pipe i)
    return status) (Channel.pipe i).readAll

/-- A program that reads from a pipe, and closes it behind itself. -/
def reading (run : Channel → Channel → Work ε Nat) (input output : Channel) : Work ε Nat := do
  let status ← run input output
  input.closeSink
  return status

/-- Run programs side by side, each reading what the one before it writes; the status is that of
the last one. -/
def runChained (input output : Channel) : List (Channel → Channel → Work ε Nat) → Work ε Nat
  | [] => pure 0
  | [run] => run input output
  | run :: next :: rest => do
    let i ← newPipe
    let (_, status) ← Program.pair (do
      let status ← run input (.pipe i)
      Channel.closeSource (.pipe i)
      return status) (runChained (.pipe i) output (reading next :: rest))
    return status

/-! ### Parameters -/

/-- A text as marks, where blanks in it part fields unless it is quoted. -/
def expanded (quoted : Bool) (cs : Octets) : List Mark := Mark.ofText cs quoted true

/-- All arguments, each a field of its own. -/
def argumentMarks (quoted : Bool) (args : List Octets) : List Mark :=
  match args with
  | [] => []
  | arg :: rest => expanded quoted arg ++ rest.flatMap fun a => .boundary :: expanded quoted a

def isSetIn (colon : Bool) (value : Option Octets) : Bool :=
  match value with
  | some v => !colon || !v.isEmpty
  | none => false

/-! ### Redirections -/

/-- Why a file cannot be written, in the words of a shell. -/
def openReason (writing : Bool) : FileError → String
  | .notFound | .notDirectory => if writing then "Directory nonexistent" else "No such file"
  | e => e.reason

def nullDevice : Octets := "/dev/null".toList

/-- Open a file to be written, emptied unless it is added to. -/
def openForWriting (path : Path) (add : Bool) (cwd : Location) (w : World ε) :
    Except FileError Channel × World ε :=
  let t := w.files.seenFrom cwd
  let done : Except FileError (FileTree × Location) := do
    let old := if add then (t.readFile path).toOption.getD [] else []
    let t ← t.writeFile path old
    let (loc, _) ← t.stat path
    return (t, loc)
  match done with
  | .ok (t, loc) => (.ok (.file loc), { w with files := t.seenFrom w.files.cwd })
  | .error e => (.error e, w)

/-- Point a channel to a file; the answer says whether that was possible. -/
def redirectTo (channel : Nat) (kind : RedirectKind) (target : Octets) : Run ε Bool := do
  let cwd := (← get).cwd
  let put (c : Channel) : Run ε Bool := do
    modify fun s => withChannel s channel c
    return true
  let path := FileTool.pathOf target
  let refuse (verb : String) (writing : Bool) (e : FileError) : Run ε Bool := do
    complain (verb.toList ++ target ++ ": ".toList ++ (openReason writing e).toList)
    return false
  let write (add : Bool) : Run ε Bool := do
    if target = nullDevice then put .null
    else
      match ← lift (Program.act (openForWriting path add cwd)) with
      | .ok c => put c
      | .error e => refuse "cannot create " true e
  match kind with
  | .output => write false
  | .append => write true
  | .input =>
    if target = nullDevice then put .null
    else
      match ← look fun t => t.readFile path with
      | .ok bytes => put (← lift (Channel.ofBytes bytes))
      | .error e => refuse "cannot open " false e
  | .duplicate =>
    match Octets.nat? target with
    | some n => put (← Run.channel n)
    | none =>
      if target = ['-'] then put .null
      else
        complain (target ++ ": bad file descriptor".toList)
        return false

/-! ### Control -/

/-- Run the body of a loop; the answer says whether the loop goes on. -/
def oneRound (body : Run ε Unit) : Run ε Bool :=
  tryCatch (do
    body
    return true) fun
    | .leaveLoops n => if n ≤ 1 then pure false else throw (.leaveLoops (n - 1))
    | .nextRound n => if n ≤ 1 then pure true else throw (.nextRound (n - 1))
    | stop => throw stop

/-- Run the body of a function. -/
def asFunction (body : Run ε Unit) : Run ε Unit :=
  tryCatch body fun
    | .leaveFunction => pure ()
    | stop => throw stop

/-- Run with a failure being looked for, so that it does not end the shell. -/
def tested (body : Run ε Unit) : Run ε Unit := do
  let before := (← get).tested
  modify fun s => { s with tested := true }
  body
  modify fun s => { s with tested := before }

/-- End the shell after a failure, if that is asked for. -/
def checkFailure : Run ε Unit := do
  let s ← get
  if s.exitsOnFailure && !s.tested && s.status ≠ 0 then throw .exit

/-! ### Shells -/

/-- What a shell is called with: its options, a script or the file of one, and arguments. -/
structure Invoked where
  exitsOnFailure : Bool
  /-- The script itself. -/
  script : Option Octets
  rest : List Octets

def shellOptions (i : Invoked) : List Octets → Invoked
  | ['-', '-'] :: rest => { i with rest }
  | ['-'] :: rest => { i with rest }
  | ('-' :: c :: cs) :: rest =>
    let letters := c :: cs
    let i := { i with exitsOnFailure := i.exitsOnFailure || letters.contains 'e' }
    if letters.contains 'c' then
      match rest with
      | script :: rest => { i with script := some script, rest }
      | [] => { i with rest := [] }
    else shellOptions i rest
  | rest => { i with rest }

/-- The variables of a shell that begins. -/
def initialVariables (call : Call) : Table Octets Variable :=
  let own : Table Octets Variable := [("IFS".toList, ⟨[' ', '\t', '\n'], false⟩)]
  let told := call.environment.foldl
    (fun vs (k, v) => Table.put vs k ⟨v, true⟩) own
  Table.put told "PWD".toList ⟨Tool.locationText call.cwd, true⟩

def initialState (call : Call) (name : Octets) (args : List Octets) (process : Nat)
    (child : Option Nat) (exitsOnFailure : Bool) : State where
  name := name
  args := args
  vars := initialVariables call
  functions := []
  cwd := call.cwd
  channels := [(0, call.input), (1, call.output), (2, call.errors)]
  status := 0
  substituted := none
  process := process
  child := child
  exitsOnFailure := exitsOnFailure
  tested := false

def shellNames : List String := ["sh", "dash", "bash"]

/-- The settings in front of a command line, and what follows them. -/
def envArgs (env : List (Octets × Octets)) :
    List Octets → List (Octets × Octets) × List Octets
  | ['-', 'i'] :: rest => envArgs [] rest
  | ['-'] :: rest => envArgs [] rest
  | ['-', 'u'] :: name :: rest => envArgs (env.filter fun e => e.1 ≠ name) rest
  | arg :: rest =>
    if arg.contains '=' then
      let (name, value) := Builtin.nameAndValue arg
      envArgs (Table.put env name (value.getD [])) rest
    else (env, arg :: rest)
  | [] => (env, [])

/-- Find what a command line runs, as it is seen by a program. -/
def locate (call : Call) (dirs : List Path) (program : Octets) (args : List Octets) :
    Work ε (Except FileError (String × List Octets)) :=
  Program.look fun w =>
    match (w.files.seenFrom call.cwd).commandLine dirs (Octets.toText program) [] with
    | .ok (name, argv) => .ok (name, argv.map Octets.ofText ++ args)
    | .error e => .error e

/-- The directories of a call's environment. -/
def pathOfCall (call : Call) : List Path :=
  searchPath (((call.environment.lookup "PATH".toList).map fun p =>
    ("PATH", Octets.toText p)).toList)

mutual

/-- Expand a part of a word. -/
def expandPart (fuel : Nat) (part : Part) : Run ε (List Mark) :=
  match fuel with
  | 0 => throw .exit
  | fuel + 1 =>
    match part with
    | .text cs quoted => return Mark.ofText cs quoted false
    | .outputOf script quoted => do
      let s ← get
      let (status, bytes) ← lift (collectOutput fun c =>
        apart (withChannel s 1 c) (runStatements fuel script))
      modify fun s => { s with status, substituted := some status }
      let text := (Octets.ofBytes bytes).filter fun c => c ≠ '\x00'
      return expanded quoted (text.reverse.dropWhile (· = '\n')).reverse
    | .arithmetic expression quoted => do
      let text := Mark.text (← expandParts fuel expression)
      let s ← get
      match Arithmetic.evaluate (fun name => (valueOf s name).getD []) text with
      | some n => return expanded quoted (Octets.ofInt n)
      | none =>
        complain ("arithmetic expression: expecting primary: \"".toList ++ text ++ ['"'])
        exitWith 2
    | .parameter name treatment word quoted => do
      let s ← get
      let value := valueOf s name
      let isAll := name = ['@'] || (name = ['*'] && !quoted)
      let plain : List Mark :=
        if isAll then argumentMarks quoted s.args
        else if name = ['*'] then
          expanded true (List.intercalate ((separators s).take 1) s.args)
        else expanded quoted (value.getD [])
      match treatment with
      | .plain => return plain
      | .length =>
        let n := if isAll || name = ['*'] then s.args.length else (value.getD []).length
        return expanded quoted (Octets.ofNat n)
      | .orElse colon => if isSetIn colon value then return plain else expandParts fuel word
      | .ifSet colon => if isSetIn colon value then expandParts fuel word else return []
      | .orAssign colon =>
        if isSetIn colon value then return plain
        else
          let text := Mark.text (← expandParts fuel word)
          setVariable name text
          return expanded quoted text
      | .orFail colon =>
        if isSetIn colon value then return plain
        else
          let text := Mark.text (← expandParts fuel word)
          complain (name ++ ": ".toList ++
            if text.isEmpty then "parameter not set".toList else text)
          exitWith 2
      | .trimFront longest =>
        let p := patternOf (Mark.quotedChars (← expandParts fuel word))
        return expanded quoted (p.trimFront longest (value.getD []))
      | .trimEnd longest =>
        let p := patternOf (Mark.quotedChars (← expandParts fuel word))
        return expanded quoted (p.trimEnd longest (value.getD []))

def expandParts (fuel : Nat) (parts : List Part) : Run ε (List Mark) :=
  match fuel with
  | 0 => throw .exit
  | fuel + 1 =>
    match parts with
    | [] => return []
    | part :: rest => do
      let marks ← expandPart fuel part
      return marks ++ (← expandParts fuel rest)

/-- Expand a word to one text. -/
def expandText (fuel : Nat) (word : Word) : Run ε Octets :=
  match fuel with
  | 0 => throw .exit
  | fuel + 1 => do return Mark.text (← expandParts fuel word)

/-- Expand words to the fields of a command. -/
def expandWords (fuel : Nat) (words : List Word) : Run ε (List Octets) :=
  match fuel with
  | 0 => throw .exit
  | fuel + 1 =>
    match words with
    | [] => return []
    | word :: rest => do
      let marks ← expandParts fuel word
      let fields := fieldsOf (separators (← get)) marks
      let found ← look fun t => fields.flatMap (expandField t)
      return found ++ (← expandWords fuel rest)

/-- Apply redirections; the answer says whether that was possible. -/
def applyRedirects (fuel : Nat) (redirects : List Redirect) : Run ε Bool :=
  match fuel with
  | 0 => throw .exit
  | fuel + 1 =>
    match redirects with
    | [] => return true
    | .mk channel kind target :: rest => do
      let text ← expandText fuel target
      if ← redirectTo channel kind text then applyRedirects fuel rest
      else return false

/-- Run with redirections that last as long as that. -/
def redirected (fuel : Nat) (redirects : List Redirect) (body : Run ε Unit) : Run ε Unit :=
  match fuel with
  | 0 => throw .exit
  | fuel + 1 => do
    let saved := (← get).channels
    let possible ← applyRedirects fuel redirects
    if possible then
      tryCatch body fun stop => do
        modify fun s => { s with channels := saved }
        throw stop
    else setStatus 2
    modify fun s => { s with channels := saved }

/-- Set variables, one after the other. -/
def assign (fuel : Nat) (assignments : List (Octets × Word)) : Run ε Unit :=
  match fuel with
  | 0 => throw .exit
  | fuel + 1 =>
    match assignments with
    | [] => return ()
    | (name, word) :: rest => do
      setVariable name (← expandText fuel word)
      assign fuel rest

/-- The variables that assignments in front of a program set for it. -/
def exportedNames (assignments : List (Octets × Word)) (s : State) : State :=
  { s with vars := assignments.foldl (fun vs (name, _) =>
      match Table.get? vs name with
      | some v => Table.put vs name { v with exported := true }
      | none => vs) s.vars }

/-- Run a program that is no part of the shell. -/
def runProgram (fuel : Nat) (name : Octets) (args : List Octets) : Run ε Unit :=
  match fuel with
  | 0 => throw .exit
  | fuel + 1 => do
    let s ← get
    let call : Call :=
      { args, environment := environment s, cwd := s.cwd
        input := ← channel 0, output := ← channel 1, errors := ← channel 2 }
    match ← lift (locate call (directories s) name args) with
    | .ok (native, argv) =>
      setStatus (← lift (runNative fuel native { call with args := argv.drop 1 }))
    | .error .notProgram =>
      -- A file that may be run but is no program is a script of the shell.
      setStatus (← lift (runNative fuel "sh" { call with args := name :: args }))
    | .error .permissionDenied =>
      complain (name ++ ": Permission denied".toList)
      setStatus 126
    | .error _ =>
      complain (name ++ ": not found".toList)
      setStatus 127

/-- Run the words of a command. -/
def runWords (fuel : Nat) (assignments : List (Octets × Word)) (name : Octets)
    (args : List Octets) : Run ε Unit :=
  match fuel with
  | 0 => throw .exit
  | fuel + 1 => do
    let s ← get
    match Table.get? s.functions name with
    | some body =>
      let saved := s.vars
      assign fuel assignments
      let outer := s.args
      modify fun s => { s with args }
      asFunction (runCommand fuel body)
      modify fun s => { s with args := outer }
      restore assignments saved
    | none =>
      let text := String.ofList name
      if Builtin.special.contains text then
        assign fuel assignments
        runBuiltin fuel text args
      else
        let saved := s.vars
        assign fuel assignments
        modify (exportedNames assignments)
        match Builtin.find text args with
        | some run => run
        | none => if text = "command" then runNamed fuel args else runProgram fuel name args
        restore assignments saved
where
  restore (assignments : List (Octets × Word)) (saved : Table Octets Variable) : Run ε Unit :=
    modify fun s =>
      { s with vars := assignments.foldl (fun vs (name, _) =>
          match Table.get? saved name with
          | some v => Table.put vs name v
          | none => Table.erase vs name) s.vars }

/-- Run one of the parts of the shell that may run other commands. -/
def runBuiltin (fuel : Nat) (name : String) (args : List Octets) : Run ε Unit :=
  match fuel with
  | 0 => throw .exit
  | fuel + 1 =>
    match name, args with
    | "eval", args => runText fuel (List.intercalate [' '] args)
    | ".", file :: _ => do
      match ← look fun t => t.readFile (FileTool.pathOf file) with
      | .ok bytes => asFunction (runText fuel (Octets.ofBytes bytes))
      | .error _ =>
        complain (".: ".toList ++ file ++ ": not found".toList)
        exitWith 2
    | "exec", program :: args => do
      runProgram fuel program args
      throw .exit
    | "exec", [] => setStatus 0
    | name, args => (Builtin.find name args).getD (setStatus 0)

/-- Run a command that is no function, or tell where it is. -/
def runNamed (fuel : Nat) (args : List Octets) : Run ε Unit :=
  match fuel with
  | 0 => throw .exit
  | fuel + 1 =>
    match args with
    | ['-', 'v'] :: name :: _ => do
      if Builtin.special.contains (String.ofList name) ||
          (Builtin.find (ε := ε) (String.ofList name) []).isSome then
        write 1 (name ++ ['\n'])
        setStatus 0
      else
        let dirs := directories (← get)
        match ← look fun t => t.findProgram dirs (Octets.toText name) with
        | .ok p =>
          write 1 (Octets.ofText p.text ++ ['\n'])
          setStatus 0
        | .error _ => setStatus 127
    | name :: args =>
      match Builtin.find (String.ofList name) args with
      | some run => run
      | none => runProgram fuel name args
    | [] => setStatus 0

/-- Run a script that is given as a text. -/
def runText (fuel : Nat) (text : Octets) : Run ε Unit :=
  match fuel with
  | 0 => throw .exit
  | fuel + 1 =>
    match script text with
    | some [] => setStatus 0
    | some body => runStatements fuel body
    | none => do
      complain "Syntax error".toList
      exitWith 2

def runCommand (fuel : Nat) (c : Command) : Run ε Unit :=
  match fuel with
  | 0 => throw .exit
  | fuel + 1 =>
    match c with
    | .simple assignments words redirects => do
      modify fun s => { s with substituted := none }
      let fields ← expandWords fuel words
      match fields with
      | [] =>
        redirected fuel redirects (do
          assign fuel assignments
          setStatus ((← get).substituted.getD 0))
      | name :: args =>
        if name = "exec".toList && args.isEmpty then
          if ← applyRedirects fuel redirects then setStatus 0 else exitWith 2
        else redirected fuel redirects (runWords fuel assignments name args)
    | .group body redirects => redirected fuel redirects (runStatements fuel body)
    | .subshell body redirects => redirected fuel redirects (do
      setStatus (← lift (apart (← get) (runStatements fuel body))))
    | .choose branches otherwise redirects =>
      redirected fuel redirects (runBranches fuel branches otherwise)
    | .loop goal test body redirects =>
      redirected fuel redirects (runLoop fuel goal test body 0)
    | .each name words body redirects => redirected fuel redirects (do
      let values ← match words with
        | some words => expandWords fuel words
        | none => pure (← get).args
      setStatus 0
      runEach fuel name values body)
    | .select word arms redirects => redirected fuel redirects (do
      let subject ← expandText fuel word
      runArms fuel subject arms)
    | .define name body => do
      modify fun s => { s with functions := Table.put s.functions name body }
      setStatus 0

def runBranches (fuel : Nat) (branches : List (List Statement × List Statement))
    (otherwise : List Statement) : Run ε Unit :=
  match fuel with
  | 0 => throw .exit
  | fuel + 1 =>
    match branches with
    | [] => do
      setStatus 0
      runStatements fuel otherwise
    | (test, body) :: rest => do
      tested (runStatements fuel test)
      if (← get).status = 0 then runStatements fuel body
      else runBranches fuel rest otherwise

/-- Run a loop; `last` is the status of its body so far. -/
def runLoop (fuel : Nat) (goal : Bool) (test body : List Statement) (last : Nat) : Run ε Unit :=
  match fuel with
  | 0 => throw .exit
  | fuel + 1 => do
    tested (runStatements fuel test)
    if ((← get).status == 0) == goal then
      if ← oneRound (runStatements fuel body) then
        runLoop fuel goal test body (← get).status
    else setStatus last

def runEach (fuel : Nat) (name : Octets) (values : List Octets) (body : List Statement) :
    Run ε Unit :=
  match fuel with
  | 0 => throw .exit
  | fuel + 1 =>
    match values with
    | [] => return ()
    | value :: rest => do
      setVariable name value
      if ← oneRound (runStatements fuel body) then runEach fuel name rest body

def runArms (fuel : Nat) (subject : Octets) (arms : List (List Word × List Statement)) :
    Run ε Unit :=
  match fuel with
  | 0 => throw .exit
  | fuel + 1 =>
    match arms with
    | [] => setStatus 0
    | (patterns, body) :: rest => do
      if ← anyMatches fuel subject patterns then
        setStatus 0
        runStatements fuel body
      else runArms fuel subject rest

/-- Whether a text matches one of the patterns. -/
def anyMatches (fuel : Nat) (subject : Octets) (patterns : List Word) : Run ε Bool :=
  match fuel with
  | 0 => throw .exit
  | fuel + 1 =>
    match patterns with
    | [] => return false
    | word :: rest => do
      let p := patternOf (Mark.quotedChars (← expandParts fuel word))
      if p.matches_ subject then return true else anyMatches fuel subject rest

def runPipeline (fuel : Nat) (p : Pipeline) : Run ε Unit :=
  match fuel with
  | 0 => throw .exit
  | fuel + 1 =>
    match p with
    | .mk negated commands => do
      match commands with
      | [c] => if negated then tested (runCommand fuel c) else runCommand fuel c
      | commands =>
        let s ← get
        let programs := commands.map fun c input output =>
          apart (withChannel (withChannel s 0 input) 1 output) (runCommand fuel c)
        let input ← channel 0
        let output ← channel 1
        setStatus (← lift (runChained input output programs))
      if negated then
        setStatus (if (← get).status = 0 then 1 else 0)
      else checkFailure

def runChain (fuel : Nat) (rest : List (Bool × Pipeline)) : Run ε Unit :=
  match fuel with
  | 0 => throw .exit
  | fuel + 1 =>
    match rest with
    | [] => return ()
    | (afterSuccess, p) :: rest => do
      if ((← get).status == 0) == afterSuccess then
        if rest.isEmpty then runPipeline fuel p else tested (runPipeline fuel p)
      runChain fuel rest

def runStatement (fuel : Nat) (st : Statement) : Run ε Unit :=
  match fuel with
  | 0 => throw .exit
  | fuel + 1 =>
    match st with
    | .mk first rest inBackground => do
      let run : Run ε Unit := do
        if rest.isEmpty then runPipeline fuel first
        else
          tested (runPipeline fuel first)
          runChain fuel rest
      if inBackground then
        let s := withChannel (← get) 0 .null
        lift (Program.fork (do let _ ← apart s run))
        setStatus 0
      else run

def runStatements (fuel : Nat) (body : List Statement) : Run ε Unit :=
  match fuel with
  | 0 => throw .exit
  | fuel + 1 =>
    match body with
    | [] => return ()
    | st :: rest => do
      runStatement fuel st
      runStatements fuel rest

/-- Run a shell. -/
def runShell (fuel : Nat) (call : Call) (name : Octets) (process : Nat) (child : Option Nat) :
    Work ε Nat :=
  match fuel with
  | 0 => pure 0
  | fuel + 1 => do
    let i := shellOptions ⟨false, none, []⟩ call.args
    let begin_ (name : Octets) (args : List Octets) (text : Octets) : Work ε Nat :=
      apart (initialState call name args process child i.exitsOnFailure) (runText fuel text)
    match i.script, i.rest with
    | some text, [] => begin_ name [] text
    | some text, name :: args => begin_ name args text
    | none, [] => do
      let text := Octets.ofBytes (← call.input.readAll)
      begin_ name [] text
    | none, file :: args => do
      match ← Tool.readFile call file with
      | .ok bytes => begin_ file args (Octets.ofBytes bytes)
      | .error e =>
        let _ ← Tool.emit call.errors (name ++ ": 0: cannot open ".toList ++ file ++
          ": ".toList ++ (openReason false e).toList ++ ['\n'])
        return 2

/-- Run a native program. -/
def runNative (fuel : Nat) (name : String) (call : Call) : Work ε Nat :=
  match fuel with
  | 0 => pure 0
  | fuel + 1 => do
    if shellNames.contains name then
      let process ← Program.act World.freshNumber
      runShell fuel call name.toList (firstNested + process) none
    else if name = "env" then
      match envArgs call.environment call.args with
      | (env, []) => Tool.printenv { call with environment := env, args := [] }
      | (env, program :: args) =>
        let call := { call with environment := env }
        match ← locate call (pathOfCall call) program args with
        | .ok (native, argv) => runNative fuel native { call with args := argv.drop 1 }
        | .error e =>
          let _ ← Tool.emit call.errors (FileTool.complaint "env"
            s!"{FileTool.quoted program}: {e.reason}")
          return if e = .permissionDenied then 126 else 127
    else Tool.run name call
where
  /-- The number at which shells within shells are counted. -/
  firstNested : Nat := 100000

end

/-! ### The machine -/

/-- How deep and how long a process may go. -/
def maxFuel : Nat := 1000000

/-- The machine whose native programs are the shell and its tools. -/
def machine : Machine ε := fun name i => do
  let octets (e : String × String) : Octets × Octets := (Octets.ofText e.1, Octets.ofText e.2)
  let args := (i.args.drop 1).map Octets.ofText
  let call : Call :=
    { args, environment := i.environment.map octets, cwd := i.cwd
      input := i.input, output := i.output, errors := i.errors }
  let status ← if shellNames.contains name then
      runShell maxFuel call ((i.args.head?.map Octets.ofText).getD name.toList)
        (Run.firstProcess + i.child) (some i.child)
    else runNative maxFuel name call
  return .code (status % 256)

/-- The names of the native programs. -/
def programs : List String := shellNames ++ "env" :: Tool.names

end LspClient.Shell

namespace LspClient.Shell

/-- Where the programs are. -/
def systemEntries : List (Location × Node) :=
  [(["usr"], .dir 0o755), (["usr", "bin"], .dir 0o755), (["bin"], .link "usr/bin")] ++
    programs.map fun name => (["usr", "bin", name], .file (Image.nativeContent name) 0o755)

/-- A tree with the programs in it. -/
def withPrograms (t : FileTree) : FileTree := { t with entries := t.entries ++ systemEntries }

def systemPath : String := "/usr/local/sbin:/usr/local/bin:/usr/sbin:/usr/bin:/sbin:/bin"

def baseEnvironment : List (String × String) :=
  [("HOME", "/root"), ("LC_ALL", "C"), ("PATH", systemPath)]

/-- A world of files in which the programs can be started. -/
def worldOfFiles {ε : Type} (files : FileTree) (outside : ε) : World ε :=
  { World.ofFiles (withPrograms files) outside with environment := baseEnvironment }

end LspClient.Shell
