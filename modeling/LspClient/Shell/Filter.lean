import LspClient.Shell.Regex

/-!
# Filters

Programs that read texts and write what they make of them. A `Filter` says which files it reads,
or none for its input, and what it writes for their contents and with which status it ends.
-/

namespace LspClient.Shell

structure Filter where
  /-- The files that are read; a dash stands for the input. -/
  operands : List Octets
  /-- What is written and the status, for the contents with the names of their files. -/
  apply : List (Octets × Octets) → Octets × Nat

namespace Filter

/-- The letters of the options in front, and the operands. -/
def options (cs : List Octets) : Octets × List Octets :=
  match cs with
  | ['-', '-'] :: rest => ([], rest)
  | ('-' :: c :: more) :: rest =>
    let (letters, operands) := options rest
    (c :: more ++ letters, operands)
  | args => ([], args)

def allText (inputs : List (Octets × Octets)) : Octets := (inputs.map (·.2)).flatten

/-- A filter of lines. -/
def ofLines (operands : List Octets) (f : List Octets → List Octets) : Filter where
  operands := operands
  apply inputs := (Octets.unlines (f (Octets.lines (allText inputs))), 0)

/-! ### Characters -/

/-- The characters that a set of `tr` lists. -/
def expandSet : Nat → Octets → Octets
  | 0, _ => []
  | _, [] => []
  | n + 1, '[' :: ':' :: rest =>
    let name := rest.takeWhile Char.isAlpha
    match rest.drop name.length with
    | ':' :: ']' :: rest =>
      (List.range 256).filterMap (fun k =>
        if namedClass name (Char.ofNat k) then some (Char.ofNat k) else none) ++ expandSet n rest
    | _ => '[' :: expandSet n (':' :: rest)
  | n + 1, '\\' :: c :: rest =>
    match c with
    | 'n' => '\n' :: expandSet n rest
    | 't' => '\t' :: expandSet n rest
    | 'r' => '\r' :: expandSet n rest
    | '0' => '\x00' :: expandSet n (rest.dropWhile Char.isDigit)
    | c => c :: expandSet n rest
  | n + 1, a :: '-' :: b :: rest =>
    ((List.range (b.toNat + 1 - a.toNat)).map fun k => Char.ofNat (a.toNat + k)) ++ expandSet n rest
  | n + 1, c :: rest => c :: expandSet n rest

def setOfText (cs : Octets) : Octets := expandSet (cs.length + 1) cs

/-- One of each run of a character that is in `set`. -/
def squeeze (set : Char → Bool) (cs : Octets) : Octets :=
  (cs.foldl (fun (acc : Octets) c =>
    match acc with
    | d :: _ => if c = d && set c then acc else c :: acc
    | [] => [c]) []).reverse

/-- What `tr` makes of a text: characters of the first set are deleted, or exchanged for those of
the second. -/
def exchange (letters : Octets) (sets : List Octets) (cs : Octets) : Octets :=
  let one := setOfText (sets.head?.getD [])
  let two := setOfText ((sets.drop 1).head?.getD [])
  let inOne (c : Char) : Bool := one.contains c != (letters.contains 'c' || letters.contains 'C')
  let last := two.getLast?.getD ' '
  let partner (c : Char) : Char :=
    if letters.contains 'c' || letters.contains 'C' then last
    else (two[one.length - 1 - one.reverse.idxOf c]?).getD last
  let changed :=
    if letters.contains 'd' then cs.filter fun c => !inOne c
    else if sets.length < 2 then cs
    else cs.map fun c => if inOne c then partner c else c
  if letters.contains 's' then
    squeeze (if sets.length < 2 then inOne else fun c => two.contains c) changed
  else changed

def tr (args : List Octets) : Filter :=
  let (letters, sets) := options args
  ⟨[], fun inputs => (exchange letters sets (allText inputs), 0)⟩

/-! ### Lines -/

/-- The number at the beginning of a line. -/
def leadingNumber (cs : Octets) : Int :=
  let cs := cs.dropWhile fun c => c = ' ' || c = '\t'
  match cs with
  | '-' :: ds => -((Octets.int? (ds.takeWhile Char.isDigit)).getD 0)
  | ds => (Octets.int? (ds.takeWhile Char.isDigit)).getD 0

def unique (ls : List Octets) : List Octets :=
  (ls.foldl (fun acc l => if acc.head? = some l then acc else l :: acc) []).reverse

def sort (args : List Octets) : Filter :=
  let (letters, operands) := options args
  ofLines operands fun ls =>
    let before (a b : Octets) : Bool :=
      if letters.contains 'n' then
        let x := leadingNumber a
        let y := leadingNumber b
        x < y || (x == y && Octets.before a b)
      else Octets.before a b
    let sorted := ls.mergeSort fun a b => if letters.contains 'r' then before b a else before a b
    if letters.contains 'u' then unique sorted else sorted

/-- Runs of equal lines, with their lengths. -/
def runs (ls : List Octets) : List (Nat × Octets) :=
  (ls.foldl (fun (acc : List (Nat × Octets)) l =>
    match acc with
    | (n, m) :: rest => if m = l then (n + 1, m) :: rest else (1, l) :: acc
    | [] => [(1, l)]) []).reverse

def padLeft (width : Nat) (cs : Octets) : Octets := List.replicate (width - cs.length) ' ' ++ cs

def uniq (args : List Octets) : Filter :=
  let (letters, operands) := options args
  ofLines operands fun ls =>
    let kept := (runs ls).filter fun (n, _) =>
      (!letters.contains 'd' || 1 < n) && (!letters.contains 'u' || n = 1)
    kept.map fun (n, l) =>
      if letters.contains 'c' then padLeft 7 (Octets.ofNat n) ++ ' ' :: l else l

/-- Change each line of a text; a last line without a newline stays without. -/
def mapLines (f : Octets → Octets) (cs : Octets) : Octets :=
  let changed := Octets.unlines ((Octets.lines cs).map f)
  if cs.getLast?.any (· ≠ '\n') then changed.dropLast else changed

def rev (args : List Octets) : Filter :=
  ⟨(options args).2, fun inputs => (inputs.flatMap fun i => mapLines List.reverse i.2, 0)⟩

/-- The lines of a text with their newlines, where they have them. -/
def linesWithEnds (cs : Octets) : List Octets :=
  let ls := (Octets.lines cs).map fun l => l ++ ['\n']
  if cs.getLast?.any (· ≠ '\n') then
    ls.dropLast ++ (ls.getLast?.map List.dropLast).toList
  else ls

def tac (args : List Octets) : Filter :=
  ⟨(options args).2, fun inputs =>
    (inputs.flatMap fun i => (linesWithEnds i.2).reverse.flatten, 0)⟩

/-! ### Counts -/

def countWords (cs : Octets) : Nat :=
  (cs.foldl (fun (n, inside) c =>
    if c = ' ' || ('\t' ≤ c && c ≤ '\r') then (n, false)
    else (if inside then n else n + 1, true)) ((0 : Nat), false)).1

/-- The counts that are asked for, in the order in which they are written. -/
def countsOf (letters cs : Octets) : List Nat :=
  let all := !letters.any fun c => c = 'l' || c = 'w' || c = 'c' || c = 'm'
  (if all || letters.contains 'l' then [cs.count '\n'] else []) ++
  (if all || letters.contains 'w' then [countWords cs] else []) ++
  (if all || letters.contains 'c' || letters.contains 'm' then [cs.length] else [])

def wc (args : List Octets) : Filter :=
  let (letters, operands) := options args
  ⟨operands, fun inputs =>
    let rows := inputs.map fun (name, cs) => (countsOf letters cs, name)
    let total := countsOf letters (allText inputs)
    let rows := if rows.length > 1 then rows ++ [(total, "total".toList)] else rows
    let single := total.length = 1 && inputs.length = 1
    let width := if single then 1 else if operands.isEmpty then 7
      else (Octets.ofNat (allText inputs).length).length
    (rows.flatMap fun (counts, name) =>
      List.intercalate [' '] (counts.map fun n => padLeft width (Octets.ofNat n)) ++
        (if operands.isEmpty then [] else ' ' :: name) ++ ['\n'], 0)⟩

/-! ### Parts of lines -/

/-- The numbers of a list such as `1,3-5,7-`; a range without an end has none. -/
def ranges (cs : Octets) : List (Nat × Option Nat) :=
  ((String.ofList cs).splitOn ",").filterMap fun part =>
    match part.splitOn "-" with
    | [a] => a.toNat?.map fun n => (n, some n)
    | [a, b] => some ((a.toNat?).getD 1, b.toNat?)
    | _ => none

def inRanges (rs : List (Nat × Option Nat)) (n : Nat) : Bool :=
  rs.any fun (low, high) => low ≤ n && high.all fun h => n ≤ h

def selected {α : Type} (rs : List (Nat × Option Nat)) (xs : List α) : List α :=
  (xs.zipIdx 1).filterMap fun (x, n) => if inRanges rs n then some x else none

def splitAt (d : Char) (cs : Octets) : List Octets :=
  let (last, parts) := cs.foldr (fun c (current, parts) =>
    if c = d then ([], current :: parts) else (c :: current, parts)) (([] : Octets), [])
  last :: parts

structure CutOptions where
  delimiter : Char
  fields : Option Octets
  characters : Option Octets
  onlyDelimited : Bool
  operands : List Octets

def cutOptions (o : CutOptions) : List Octets → CutOptions
  | ['-', 'd'] :: (c :: _) :: rest => cutOptions { o with delimiter := c } rest
  | ('-' :: 'd' :: c :: _) :: rest => cutOptions { o with delimiter := c } rest
  | ['-', 'f'] :: list :: rest => cutOptions { o with fields := some list } rest
  | ('-' :: 'f' :: list) :: rest => cutOptions { o with fields := some list } rest
  | ['-', 'c'] :: list :: rest => cutOptions { o with characters := some list } rest
  | ['-', 'b'] :: list :: rest => cutOptions { o with characters := some list } rest
  | ('-' :: 'c' :: list) :: rest => cutOptions { o with characters := some list } rest
  | ('-' :: 'b' :: list) :: rest => cutOptions { o with characters := some list } rest
  | ['-', 's'] :: rest => cutOptions { o with onlyDelimited := true } rest
  | rest => { o with operands := rest }

def cut (args : List Octets) : Filter :=
  let o := cutOptions ⟨'\t', none, none, false, []⟩ args
  ofLines o.operands fun ls => ls.filterMap fun l =>
    match o.characters, o.fields with
    | some list, _ => some (selected (ranges list) l)
    | none, some list =>
      if l.contains o.delimiter then
        some (List.intercalate [o.delimiter] (selected (ranges list) (splitAt o.delimiter l)))
      else if o.onlyDelimited then none else some l
    | none, none => some l

/-! ### The end of a text -/

/-- The count that an option asks for, and whether it is of bytes; and the operands. A sign tells
that it is counted from the other side. -/
def countOption (default : Octets) : List Octets → Octets × Bool × List Octets
  | ['-', 'n'] :: n :: rest => (n, false, rest)
  | ['-', 'c'] :: n :: rest => (n, true, rest)
  | ('-' :: 'n' :: n) :: rest => (n, false, rest)
  | ('-' :: 'c' :: n) :: rest => (n, true, rest)
  | ('-' :: d :: ds) :: rest =>
    if d.isDigit then (d :: ds, false, rest) else (default, false, ('-' :: d :: ds) :: rest)
  | rest => (default, false, rest)

/-- The last of a list, or all from the one with a number on. -/
def lastOf {α : Type} (count : Octets) (xs : List α) : List α :=
  match count with
  | '+' :: n => xs.drop ((Octets.nat? n).getD 1 - 1)
  | '-' :: n => xs.drop (xs.length - (Octets.nat? n).getD 0)
  | n => xs.drop (xs.length - (Octets.nat? n).getD 0)

def tail (args : List Octets) : Filter :=
  let (count, ofBytes, operands) := countOption ['1', '0'] args
  ⟨operands, fun inputs => (inputs.flatMap fun (_, cs) =>
    if ofBytes then lastOf count cs else (lastOf count (linesWithEnds cs)).flatten, 0)⟩

/-! ### Search -/

structure GrepOptions where
  letters : Octets
  patterns : List Octets
  operands : List Octets

def grepOptions (o : GrepOptions) : List Octets → GrepOptions
  | ['-', 'e'] :: p :: rest => grepOptions { o with patterns := o.patterns ++ [p] } rest
  | ['-', '-'] :: rest => { o with operands := rest }
  | ('-' :: c :: cs) :: rest => grepOptions { o with letters := o.letters ++ c :: cs } rest
  | rest => { o with operands := rest }

def grep (args : List Octets) : Filter :=
  let o := grepOptions ⟨[], [], []⟩ args
  let (patterns, operands) := match o.patterns, o.operands with
    | [], p :: rest => ([p], rest)
    | ps, rest => (ps, rest)
  let has (c : Char) : Bool := o.letters.contains c
  let regexes := (patterns.flatMap Octets.lines).map fun p =>
    if has 'F' then Regex.literal p else (Regex.ofText (has 'E') p).getD (Regex.literal p)
  let hits (l : Octets) : Bool :=
    (regexes.any fun r =>
      match Regex.find (has 'i') r l with
      | some (a, b) => !has 'x' || (a.before.isEmpty && b.after.isEmpty)
      | none => false) != has 'v'
  ⟨operands, fun inputs =>
    let name (n : Octets) : Octets :=
      if operands.length > 1 && !has 'h' then n ++ [':'] else []
    let found : List (Octets × List (Octets × Nat)) := inputs.map fun (n, cs) =>
      (n, ((Octets.lines cs).zipIdx 1).filter fun (l, _) => hits l)
    let output := found.flatMap fun (n, ls) =>
      if has 'q' then []
      else if has 'c' then name n ++ Octets.ofNat ls.length ++ ['\n']
      else if has 'l' then if ls.isEmpty then [] else n ++ ['\n']
      else ls.flatMap fun (l, k) =>
        name n ++ (if has 'n' then Octets.ofNat k ++ [':'] else []) ++ l ++ ['\n']
    (output, if found.any fun f => !f.2.isEmpty then 0 else 1)⟩

end Filter

end LspClient.Shell
