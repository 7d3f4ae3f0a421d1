import LspClient.Shell.Condition
import LspClient.Shell.Filter
import LspClient.Shell.Formatted

/-!
# Tools for files and texts

Programs that read no input. A `Report` is what such a program writes, the status with which it
ends, and the files as it leaves them.
-/

namespace LspClient.Shell

structure Report where
  output : Octets
  errors : Octets
  status : Nat
  files : FileTree

namespace FileTool

def pathOf (cs : Octets) : Path := ⟨Octets.toText cs⟩

/-- A tool that only writes. -/
def saying (t : FileTree) (output : Octets) : Report := ⟨output, [], 0, t⟩

def complaint (tool text : String) : Octets := (tool ++ ": " ++ text ++ "\n").toList

def failing (t : FileTree) (tool text : String) (status : Nat) : Report :=
  ⟨[], complaint tool text, status, t⟩

/-- Do something for each operand, and end with a failure if one fails. -/
def forEach (t : FileTree) (operands : List Octets)
    (f : FileTree → Octets → Except Octets FileTree) : Report :=
  operands.foldl (fun r x =>
    match f r.files x with
    | .ok t => { r with files := t }
    | .error e => { r with errors := r.errors ++ e, status := 1 }) ⟨[], [], 0, t⟩

def quoted (cs : Octets) : String := "'" ++ Octets.toText cs ++ "'"

/-! ### Files -/

def remove (t : FileTree) (p : Path) (recursive : Bool) : Except FileError FileTree :=
  match t.removeFile p with
  | .ok t => .ok t
  | .error .isDirectory =>
    if recursive then
      match t.resolve p false with
      | .ok (loc, some _) =>
        .ok { t with entries := t.entries.filter fun e => !loc.isPrefixOf e.1 }
      | .ok (_, none) => .error .notFound
      | .error e => .error e
    else .error .isDirectory
  | .error e => .error e

def rm (t : FileTree) (args : List Octets) : Report :=
  let (letters, operands) := Filter.options args
  forEach t operands fun t x =>
    match remove t (pathOf x) (letters.contains 'r' || letters.contains 'R') with
    | .ok t => .ok t
    | .error .notFound =>
      if letters.contains 'f' then .ok t
      else .error (complaint "rm" s!"cannot remove {quoted x}: {FileError.notFound.reason}")
    | .error e => .error (complaint "rm" s!"cannot remove {quoted x}: {e.reason}")

def mkdir (t : FileTree) (args : List Octets) : Report :=
  let (letters, operands) := Filter.options args
  forEach t operands fun t x =>
    let made : Except FileError FileTree :=
      if letters.contains 'p' then
        let made := t.makeDirAll (pathOf x)
        match made.error with
        | none => .ok made.tree
        | some e => .error e
      else t.makeDir (pathOf x)
    made.mapError fun e => complaint "mkdir" s!"cannot create directory {quoted x}: {e.reason}"

def rmdir (t : FileTree) (args : List Octets) : Report :=
  forEach t args fun t x =>
    let removed : Except FileError FileTree := do
      let (loc, node) ← t.stat (pathOf x)
      if !node.isDir then .error .notDirectory
      else if !t.isEmptyDir loc then .error .notEmpty
      else return t.erase loc
    removed.mapError fun e => complaint "rmdir" s!"failed to remove {quoted x}: {e.reason}"

def touch (t : FileTree) (args : List Octets) : Report :=
  forEach t (Filter.options args).2 fun t x =>
    if t.exists? (pathOf x) then .ok t
    else (t.writeFile (pathOf x) []).mapError fun e =>
      complaint "touch" s!"cannot touch {quoted x}: {e.reason}"

/-- Where an operand goes: into a directory under its own name, or to the target itself. -/
def destination (t : FileTree) (source target : Path) : Path :=
  if t.isDir target then target.join ⟨(source.fileName?).getD ""⟩ else target

def copy (t : FileTree) (source target : Path) : Except FileError FileTree := do
  let content ← t.readFile source
  let mode := ((t.node? source).map Node.mode).getD 0o644
  let there := t.exists? target
  let t ← t.writeFile target content
  if there then return t
  else t.setMode target (mode &&& (0o777 ^^^ t.umask))

def cp (t : FileTree) (args : List Octets) : Report :=
  let operands := (Filter.options args).2
  match operands.getLast? with
  | none => failing t "cp" "missing file operand" 1
  | some target =>
    forEach t operands.dropLast fun t x =>
      (copy t (pathOf x) (destination t (pathOf x) (pathOf target))).mapError fun e =>
        complaint "cp" s!"cannot stat {quoted x}: {e.reason}"

def mv (t : FileTree) (args : List Octets) : Report :=
  let operands := (Filter.options args).2
  match operands.getLast? with
  | none => failing t "mv" "missing file operand" 1
  | some target =>
    forEach t operands.dropLast fun t x =>
      (t.rename (pathOf x) (destination t (pathOf x) (pathOf target))).mapError fun e =>
        complaint "mv" s!"cannot stat {quoted x}: {e.reason}"

def ln (t : FileTree) (args : List Octets) : Report :=
  match (Filter.options args).2 with
  | [target, link] =>
    forEach t [link] fun t x =>
      (t.makeLink (pathOf x) (Octets.toText target)).mapError fun e =>
        complaint "ln" s!"failed to create symbolic link {quoted x}: {e.reason}"
  | _ => failing t "ln" "missing file operand" 1

/-- The mode that a change asks for. -/
def newMode (old : Nat) (change : Octets) : Nat :=
  if change.all Char.isDigit then change.foldl (fun n d => n * 8 + (d.toNat - 48)) 0
  else
    let bit (c : Char) : Nat :=
      if c = 'r' then 4 else if c = 'w' then 2 else if c = 'x' then 1 else 0
    let who := change.takeWhile Char.isAlpha
    let groups : List (Char × Nat) := [('u', 64), ('g', 8), ('o', 1)]
    let places := groups.filter fun (c, _) => who.isEmpty || who.contains c || who.contains 'a'
    let bits := (change.drop (who.length + 1)).foldl (fun n c => n ||| bit c) 0
    let mask := places.foldl (fun n (_, k) => n ||| (bits * k)) 0
    if change.contains '-' then old &&& (0o7777 ^^^ mask) else old ||| mask

def chmod (t : FileTree) (args : List Octets) : Report :=
  match args with
  | change :: operands =>
    forEach t operands fun t x =>
      let old := ((t.node? (pathOf x)).map Node.mode).getD 0
      (t.setMode (pathOf x) (newMode old change)).mapError fun e =>
        complaint "chmod" s!"cannot access {quoted x}: {e.reason}"
  | [] => failing t "chmod" "missing operand" 1

def ls (t : FileTree) (args : List Octets) : Report :=
  let (letters, operands) := Filter.options args
  let operands := if operands.isEmpty then [['.']] else operands
  let listing (x : Octets) : Except Octets Octets :=
    match t.stat (pathOf x) with
    | .ok (loc, .dir _) =>
      let names := ((t.children loc).map (·.1)).filter fun n =>
        letters.contains 'a' || letters.contains 'A' || n.toList.head? ≠ some '.'
      .ok (Octets.unlines ((names.map Octets.ofText).mergeSort Octets.before))
    | .ok _ => .ok (x ++ ['\n'])
    | .error e => .error (complaint "ls" s!"cannot access {quoted x}: {e.reason}")
  operands.foldl (fun r x =>
    match listing x with
    | .ok out => { r with output := r.output ++ out }
    | .error e => { r with errors := r.errors ++ e, status := 2 }) ⟨[], [], 0, t⟩

/-! ### Texts -/

/-- The last name of a path, without a suffix if it has that. -/
def basename (t : FileTree) (args : List Octets) : Report :=
  match args with
  | [] => failing t "basename" "missing operand" 1
  | x :: more =>
    let trimmed := (x.reverse.dropWhile (· = '/')).reverse
    let name := (trimmed.reverse.takeWhile (· ≠ '/')).reverse
    let name := if trimmed.isEmpty then (if x.isEmpty then [] else ['/']) else name
    let suffix := more.head?.getD []
    let short := if suffix.isSuffixOf name && suffix ≠ name then
      name.take (name.length - suffix.length) else name
    saying t (short ++ ['\n'])

def dirname (t : FileTree) (args : List Octets) : Report :=
  saying t (args.flatMap fun x =>
    let trimmed := (x.reverse.dropWhile (· = '/')).dropWhile (· ≠ '/')
    let dir := (trimmed.dropWhile (· = '/')).reverse
    (if !dir.isEmpty then dir else if x.head? = some '/' then ['/'] else ['.']) ++ ['\n'])

def seq (t : FileTree) (args : List Octets) : Report :=
  let numbers := args.filterMap Octets.int?
  let (first, step, last) := match numbers with
    | [a] => (1, 1, a)
    | [a, b] => (a, 1, b)
    | [a, s, b] => (a, s, b)
    | _ => ((1 : Int), (1 : Int), (0 : Int))
  if step = 0 then failing t "seq" "invalid Zero increment value: '0'" 1
  else
    let count := if 0 ≤ (last - first) * step then ((last - first) / step).toNat + 1 else 0
    saying t ((List.range count).flatMap fun (k : Nat) => Octets.ofInt (first + step * k) ++ ['\n'])

def printf (t : FileTree) (args : List Octets) : Report :=
  match args with
  | [] => failing t "printf" "missing operand" 1
  | format :: args =>
    let r := Formatted.print format args
    let errors := r.bad.flatMap fun b =>
      complaint "printf" s!"{quoted b}: expected a numeric value"
    match r.unknown with
    | some c =>
      let more := complaint "printf" s!"%{c}: invalid conversion specification"
      ⟨r.output, errors ++ more, 1, t⟩
    | none => ⟨r.output, errors, if r.bad.isEmpty then 0 else 1, t⟩

def test (t : FileTree) (args : List Octets) : Report :=
  match Condition.holds t args with
  | some v => ⟨[], [], if v then 0 else 1, t⟩
  | none => failing t "test" "syntax error" 2

def bracket (t : FileTree) (args : List Octets) : Report :=
  if args.getLast? = some [']'] then test t args.dropLast
  else failing t "[" "missing ']'" 2

/-- What an operator of `expr` makes of two numbers, but for division. -/
def arithmeticOf (op : String) (x y : Int) : Option Int :=
  let truth (b : Bool) : Int := if b then 1 else 0
  match op with
  | "+" => some (x + y)
  | "-" => some (x - y)
  | "*" => some (x * y)
  | "=" => some (truth (x == y))
  | "!=" => some (truth (x != y))
  | "<" => some (truth (x < y))
  | "<=" => some (truth (x ≤ y))
  | ">" => some (truth (y < x))
  | ">=" => some (truth (y ≤ x))
  | _ => none

/-- What an operator of `expr` makes of two texts. -/
def comparisonOf (op : String) (a b : Octets) : Option Bool :=
  match op with
  | "=" => some (a == b)
  | "!=" => some (a != b)
  | "<" => some (!Octets.before b a)
  | "<=" => some (Octets.before a b)
  | ">" => some (!Octets.before a b)
  | ">=" => some (Octets.before b a)
  | _ => none

def expr (t : FileTree) (args : List Octets) : Report :=
  let number (n : Int) : Report := ⟨Octets.ofInt n ++ ['\n'], [], if n = 0 then 1 else 0, t⟩
  let misused := failing t "expr" "syntax error" 2
  match args with
  | [a, op, b] =>
    let op := String.ofList op
    match Octets.int? a, Octets.int? b with
    | some x, some y =>
      if op = "/" || op = "%" then
        if y = 0 then failing t "expr" "division by zero" 2
        else number (if op = "/" then x.tdiv y else x.tmod y)
      else ((arithmeticOf op x y).map number).getD misused
    | _, _ =>
      match comparisonOf op a b with
      | some holds => number (if holds then 1 else 0)
      | none =>
        if op ∈ ["+", "-", "*", "/", "%"] then failing t "expr" "non-integer argument" 2
        else misused
  | [word, a] => if word = "length".toList then number a.length else misused
  | [a] => ⟨a ++ ['\n'], [], if a.isEmpty || a = ['0'] then 1 else 0, t⟩
  | _ => misused

/-- The tools by their names. -/
def table : List (String × (FileTree → List Octets → Report)) := [
  ("true", fun t _ => saying t []),
  ("false", fun t _ => { saying t [] with status := 1 }),
  ("echo", fun t args => saying t (Formatted.plainEcho args)),
  ("printf", printf),
  ("test", test),
  ("[", bracket),
  ("expr", expr),
  ("basename", basename),
  ("dirname", dirname),
  ("seq", seq),
  ("rm", rm),
  ("mkdir", mkdir),
  ("rmdir", rmdir),
  ("touch", touch),
  ("cp", cp),
  ("mv", mv),
  ("ln", ln),
  ("chmod", chmod),
  ("ls", ls)]

end FileTool

end LspClient.Shell
